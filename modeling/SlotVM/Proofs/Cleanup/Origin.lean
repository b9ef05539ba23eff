/-
Where the transfers come from that finally blocks interrupt: an instruction of the running function, the
search for a handler, or a transfer that was interrupted before. `Move.begun` says it for one transition.
-/
import SlotVM.Proofs.Control.Handler

namespace SlotVM

open Transition

/-- Whether a transfer is the search for a handler. -/
def Transfer.isUnwind : Transfer → Bool
  | .unwind _ _ => true
  | _ => false

theorem Transfer.isUnwind_past (t : Transfer) (f : Frame) : (t.past f).isUnwind = t.isUnwind := by
  cases t with
  | unwind scope catches => rw [past_unwind]; rfl
  | exitLoop exit depth remaining => cases remaining <;> cases hf : f.kind <;> simp [past, hf, isUnwind]
  | pop | ret => rfl

/-- A return that is left when a frame has been taken off is the return of before. -/
theorem Transfer.eq_of_past_ret {t : Transfer} {f : Frame} {value : Option Value} {explicit : Bool}
    (h : t.past f = .ret value explicit) : t = .ret value explicit := by
  cases t with
  | unwind scope catches => rw [past_unwind] at h; cases h
  | exitLoop exit depth remaining =>
    cases remaining <;> cases hf : f.kind <;> simp [past, hf] at h
  | pop | ret => exact h

namespace Machine

variable {p : Program} {m m' m₁ x y z : Machine} {es : List Event} {r : Region} {outer : List Region}

/-! ## The blocks that interrupt transfers -/

/-- The running function returns a value, or comes to its end and returns none. -/
inductive Exits (p : Program) (x : Machine) : Option Value → Prop
  | ret {ref v} (runs : x.Runs) (code : p.At x.function x.pc (.ret ref)) (value : x.slots.read ref = .ok v) :
      Exits p x (some v)
  | fallOff {f} (runs : x.Runs) (function : p.functions[x.function]? = some f) (code : f.code[x.pc]? = none) :
      Exits p x none

/-- Carrying out the transfer `t` comes to a finally block, which begins in `e` and interrupts `t'`. -/
structure Reaches (m : Machine) (t : Transfer) (e : Machine) (t' : Transfer) : Prop where
  regions : e.regions = m.regions
  pending : e.pending = m.pending
  unwinds : t'.isUnwind = t.isUnwind
  frame : t.isUnwind = false → e.frame = m.frame
  ret : ∀ value explicit, t' = .ret value explicit → t = t'

theorem Carries.begun {t : Transfer} (go : m.Carries t es m') : m'.regions = m.regions ∨
    ∃ e range t', es = (e.enter range t').events ∧ m' = e.entered range t' ∧ m.Reaches t e t' := by
  induction go with
  | @cleanup m t catches range f rest seeks room top kind =>
    refine .inr ⟨{ m with stack := rest }, range, t.past f, rfl, rfl, rfl, rfl, t.isUnwind_past f, fun _ => rfl, ?_⟩
    intro value explicit h
    rw [h, Transfer.eq_of_past_ret h]
  | @pass m t es m' f rest seeks room top passes go ih =>
    rcases ih with h | ⟨e, range, t', rfl, rfl, h⟩
    · exact .inl h
    · have unwinds := t.isUnwind_past f
      refine .inr ⟨e, range, t', rfl, rfl, h.regions, h.pending, h.unwinds.trans unwinds,
        fun ht => h.frame (unwinds.trans ht), ?_⟩
      intro value explicit ht
      have := (h.ret value explicit ht).trans ht
      rw [ht, Transfer.eq_of_past_ret this]
  | @abort m scope catches es m' f rest call seeks room top kind go ih =>
    rcases ih with h | ⟨e, range, t', rfl, rfl, h⟩
    · exact .inl (h.trans (goBack_regions _ _))
    · refine .inr ⟨e, range, t', rfl, rfl, h.regions.trans (goBack_regions _ _), ?_, h.unwinds, nofun, ?_⟩
      · exact h.pending.trans (by cases call.caller <;> rfl)
      · intro value explicit ht
        have := h.ret value explicit ht
        rw [ht] at this
        cases this
  | _ => exact .inl rfl

/-- The finally blocks that go on with the transition of `m`: all that are running, or those around the
innermost one if that is at its end. -/
inductive GoesOn (m : Machine) : List Region → Prop
  | all (inside : ∀ r outer exit z, ¬ m.Ends r outer exit z) : GoesOn m m.regions
  | ended {r : Region} {outer : List Region} {exit : RegionExit} {z : Machine} (ends : m.Ends r outer exit z) :
      GoesOn m outer

theorem GoesOn.inside {base : List Region} (h : m.GoesOn base) (suffix : r :: outer <:+ base) :
    r :: outer <:+ m.regions ∧ ∀ exit z, ¬ m.Ends r outer exit z := by
  cases h with
  | all inside => exact ⟨suffix, inside r outer⟩
  | ended ends =>
    refine ⟨ends.regions ▸ suffix.trans (List.suffix_cons _ _), ?_⟩
    intro exit z ends'
    have heq := ends.regions.symm.trans ends'.regions
    have := suffix.length_le
    rw [List.cons.injEq] at heq
    rw [heq.2, List.length_cons] at this
    omega

theorem Runs.inside_all (runs : m.Runs) : ∀ r outer exit z, ¬ m.Ends r outer exit z := by
  rintro r outer exit z (⟨regions, settled, frame, stop⟩ | ⟨regions, active⟩)
  · exact runs.inside r outer regions ⟨frame, stop⟩
  · rw [runs.settled] at active; cases active

theorem inside_search (active : m.pending.isActive = true)
    (room : ∀ r outer, m.regions = r :: outer → r.floor < m.stack.depth) :
    ∀ r outer exit z, ¬ m.Ends r outer exit z := by
  rintro r outer exit z (⟨regions, settled⟩ | ⟨regions, active, depth⟩)
  · rw [active] at settled; cases settled
  · have := room r outer regions
    omega

/-- Where a transfer comes from that the transition of `m` carries out and that a finally block interrupts,
which begins in `e`. -/
inductive Origin (p : Program) (m e : Machine) (t : Transfer) : Prop
  | instruction (settled : e.pending.isActive = false) (plain : t.isUnwind = false) (frame : e.frame = m.frame)
      (exits : ∀ value explicit, t = .ret value explicit → Exits p m value)
  | search (active : e.pending.isActive = true) (unwinds : t.isUnwind = true)
  /-- The transfer was interrupted before, by the block that is at its end. -/
  | resumed {r : Region} {outer : List Region} {z : Machine} (ends : m.Ends r outer .completed z) (reaches : z.Reaches r.transfer e t)

/-- The block that a transition begins, if it begins one. -/
theorem Move.begun (move : m.Move p es y) : ∃ base, m.GoesOn base ∧ (y.regions = base ∨ ∃ e range t before,
    es = before ++ (e.enter range t).events ∧ y = e.entered range t ∧ e.regions = base ∧ Origin p m e t) := by
  -- a transfer that begins here and now, with no error in search of a handler
  have begin_ {m₂ : Machine} {t : Transfer} {es' : List Event} (go : m₂.Carries t es' y) (before : List Event)
      (runs : m.Runs) (plain : t.isUnwind = false) (frame : m₂.frame = m.frame) (pending : m₂.pending = m.pending)
      (regions : m₂.regions = m.regions) (exits : ∀ value explicit, t = .ret value explicit → Exits p m value) :
      y.regions = m.regions ∨ ∃ e range t before', before ++ es' = before' ++ (e.enter range t).events ∧
        y = e.entered range t ∧ e.regions = m.regions ∧ Origin p m e t := by
    rcases go.begun with h | ⟨e, range, t', rfl, rfl, h⟩
    · exact .inl (h.trans regions)
    · refine .inr ⟨e, range, t', before, rfl, rfl, h.regions.trans regions, .instruction ?_ (h.unwinds.trans plain)
        ((h.frame plain).trans frame) ?_⟩
      · rw [h.pending, pending, runs.settled]
      · intro value explicit ht
        exact exits value explicit ((h.ret value explicit ht).trans ht)
  cases move with
  | @execute f i es' m' runs function code go =>
    refine ⟨m.regions, .all runs.inside_all, ?_⟩
    cases go with
    | @popCleanup catches range f rest room top kind =>
      refine .inr ⟨{ m with stack := rest }, range, .pop, [_], rfl, rfl, rfl, .instruction runs.settled rfl rfl ?_⟩
      intro value explicit h; cases h
    | ret hv go =>
      refine begin_ go [_] runs rfl rfl rfl rfl ?_
      rintro value explicit ⟨⟩
      exact .ret runs ⟨f, function, code⟩ hv
    | exitLoop go =>
      refine begin_ go [_] runs rfl rfl rfl rfl ?_
      intro value explicit h; cases h
    | branch | branchConstant => left; split <;> rfl
    | _ => exact .inl rfl
  | fallOff runs function code go =>
    refine ⟨m.regions, .all runs.inside_all, begin_ go [_] runs rfl rfl rfl rfl ?_⟩
    rintro value explicit ⟨⟩
    exact .fallOff runs function code
  | search active room go =>
    refine ⟨m.regions, .all (inside_search active room), ?_⟩
    rcases go.begun with h | ⟨e, range, t', rfl, rfl, h⟩
    · exact .inl h
    · exact .inr ⟨e, range, t', [], rfl, rfl, h.regions, .search (by rw [h.pending, active]) h.unwinds⟩
  | @complete r outer m₁ es y ends go =>
    refine ⟨outer, .ended ends, ?_⟩
    rcases go.begun with h | ⟨e, range, t', rfl, rfl, h⟩
    · exact .inl (h.trans ends.regions_eq)
    · exact .inr ⟨e, range, t', [], rfl, rfl, h.regions.trans ends.regions_eq, .resumed ends h⟩
  | @abandonSearch r outer m₁ scope catches es y ends transfer go =>
    refine ⟨outer, .ended ends, ?_⟩
    rcases go.begun with h | ⟨e, range, t', rfl, rfl, h⟩
    · exact .inl (h.trans ends.regions_eq)
    · refine .inr ⟨e, range, t', [_], rfl, rfl, h.regions.trans ends.regions_eq, .search ?_ h.unwinds⟩
      rw [h.pending]
      cases ends with
      | threw regions active depth => exact active
  | abandonReturn ends transfer | abandon ends transfer =>
    exact ⟨_, .ended ends, .inl ends.regions_eq⟩

/-- A finally block interrupts the search for a handler if an error was active when it began, and only then. -/
theorem Reachable.pending_isActive (h : Reachable p m) :
    ∀ r ∈ m.regions, r.pending.isActive = r.transfer.isUnwind := by
  induction h with
  | ready => intro r hr; cases hr
  | start h start ih =>
    obtain ⟨-, rfl⟩ := start_ok start
    intro r hr
    cases hr
  | @advance m y es h running move ih =>
    obtain ⟨base, goesOn, begun⟩ := (advance_move move).begun
    have hbase : ∀ r ∈ base, r.pending.isActive = r.transfer.isUnwind := by
      cases goesOn with
      | all => exact ih
      | ended ends => exact fun r hr => ih r (by rw [ends.regions]; exact List.mem_cons_of_mem _ hr)
    rcases begun with h | ⟨e, range, t, before, -, rfl, hb, origin⟩
    · rw [h]; exact hbase
    · intro r hr
      rcases List.mem_cons.1 hr with rfl | hr
      · show e.pending.isActive = t.isUnwind
        cases origin with
        | instruction settled plain => rw [settled, plain]
        | search active unwinds => rw [active, unwinds]
        | @resumed q qs z ends reaches =>
          rw [reaches.pending, reaches.unwinds, ← ih q (by rw [ends.regions]; exact List.mem_cons_self ..)]
          cases ends; rfl
      · exact hbase r (hb ▸ hr)

end Machine

end SlotVM
