/-
Runs and reachable machines. A run is a sequence of transitions with what happens in them; a machine is
reachable if starts and transitions lead to it, so that the machines inside of finally blocks count as
well as those between two steps. `Reachable.wellFormed`: the invariant holds of all of them.
-/
import SlotVM.Machine.Run
import SlotVM.Proofs.Machine.WellFormed

namespace SlotVM.Machine

/-- Transitions from `m` to another machine, and everything that happens in them. -/
inductive Run (p : Program) (m : Machine) : List Event → Machine → Prop
  | refl : Run p m [] m
  | step {log es x y} (run : Run p m log x) (running : x.halted = false)
      (move : x.advance p = ⟨es, .ok y⟩) : Run p m (log ++ es) y

/-- The machines that starts, with any arguments, and transitions lead to. -/
inductive Reachable (p : Program) : Machine → Prop
  | ready : Reachable p (.ready p)
  | start {m m' args} (h : Reachable p m) (start : m.start args = .ok m') : Reachable p m'
  | advance {m m' es} (h : Reachable p m) (running : m.halted = false)
      (move : m.advance p = ⟨es, .ok m'⟩) : Reachable p m'

variable {p : Program} {m m' : Machine}

theorem Run.reachable {log : List Event} (run : m.Run p log m') (h : Reachable p m) : Reachable p m' := by
  induction run with
  | refl => exact h
  | step run running move ih => exact ih.advance running move

theorem Run.trans {x : Machine} {log log' : List Event} (run : m.Run p log m') (run' : m'.Run p log' x) :
    m.Run p (log ++ log') x := by
  induction run' with
  | refl => simpa using run
  | step run' running move ih =>
    rw [← List.append_assoc]
    exact ih.step running move

/-! ## Runs by the number of their transitions -/

/-- The machine after `n` transitions, if they end neither the run nor in a fault. -/
def after? (p : Program) (m : Machine) : Nat → Option Machine
  | 0 => some m
  | n + 1 => (m.after? p n).bind fun x => if x.halted then none else (x.advance p).result.toOption

section
variable {x y : Machine} {es : List Event} {n : Nat}

theorem after?_succ : m.after? p (n + 1) = some y ↔
    ∃ x es, m.after? p n = some x ∧ x.halted = false ∧ x.advance p = ⟨es, .ok y⟩ := by
  rw [after?, Option.bind_eq_some_iff]
  refine exists_congr fun x => ?_
  cases hh : x.halted with
  | true => simp
  | false =>
    obtain ⟨events, result⟩ := x.advance p
    cases result <;> simp [Except.toOption]

/-- One more transition. -/
theorem after?_step (h : m.after? p n = some x) (running : x.halted = false) (move : x.advance p = ⟨es, .ok y⟩) :
    m.after? p (n + 1) = some y := after?_succ.2 ⟨x, es, h, running, move⟩

/-- One more transition before the others. -/
theorem after?_front (running : m.halted = false) (move : m.advance p = ⟨es, .ok x⟩) :
    m.after? p (n + 1) = x.after? p n := by
  induction n with
  | zero =>
    show (if m.halted then none else (m.advance p).result.toOption) = some x
    rw [running, move]; rfl
  | succ n ih => rw [after?, ih, after?]

theorem after?_reachable (reach : Reachable p m) : ∀ {n : Nat} {x : Machine}, m.after? p n = some x → Reachable p x
  | 0, x, h => by cases h; exact reach
  | n + 1, x, h => by
    obtain ⟨w, es, hw, running, move⟩ := after?_succ.1 h
    exact (after?_reachable reach hw).advance running move

theorem after?_of_le {k : Nat} (le : k ≤ n) (h : m.after? p n = some x) : ∃ w, m.after? p k = some w := by
  induction n generalizing x with
  | zero => cases Nat.le_zero.1 le; exact ⟨x, h⟩
  | succ n ih =>
    rcases Nat.le_succ_iff.1 le with le | rfl
    · obtain ⟨w, es, hw, -⟩ := after?_succ.1 h
      exact ih le hw
    · exact ⟨x, h⟩

end

/-! ## The invariant -/

theorem start_ok {args : List String} (h : m.start args = .ok m') :
    m.halted = true ∧ m' = m.started args := by
  unfold start at h
  split at h
  · cases h; exact ⟨‹_›, rfl⟩
  · cases h

/-- A run begins with the frame of the entry function alone. -/
theorem kinds_started (halted : m.halted = true) (args : List String) :
    (m.started args).stack.kinds = [.call ⟨Program.entryId,
      [.array (List.range' m.slots.nextId args.length)], none, none⟩] := by
  have hk : m.stack.kinds = [] := Stack.kinds_eq_nil_iff.2 halted
  show (m.stack.push _).kinds = _
  rw [Stack.kinds_push, hk]; rfl

theorem target_entry (valid : p.Valid) : p.Target Program.entryId 0 :=
  ⟨_, Array.getElem?_eq_getElem valid.entry, Nat.zero_le _⟩

theorem wellFormed_ready (valid : p.Valid) : (ready p).WellFormed p where
  stacked := trivial
  top h := absurd rfl h
  pc := target_entry valid
  regions _ h := by cases h
  nested := .nil

theorem wellFormed_started (valid : p.Valid) (halted : m.halted = true) (args : List String) :
    (m.started args).WellFormed p := by
  have hk := kinds_started halted args
  have hd : m.stack.depth = 0 := by
    rw [← Stack.length_kinds, Stack.kinds_eq_nil_iff.2 halted]; rfl
  constructor
  · rw [hk]
    exact ⟨⟨⟨rfl, rfl, rfl, rfl⟩, rfl⟩, trivial⟩
  · intro _
    rw [hk]
    exact ⟨_, by rw [started, hd]; rfl, rfl⟩
  · exact target_entry valid
  · intro r h
    cases h
  · exact .nil

/-- The invariant holds of every reachable machine. -/
theorem Reachable.wellFormed (h : Reachable p m) (valid : p.Valid) : m.WellFormed p := by
  induction h with
  | ready => exact wellFormed_ready valid
  | start h start ih =>
    obtain ⟨halted, rfl⟩ := start_ok start
    exact wellFormed_started valid halted _
  | advance h running move ih => exact (advance_move move).wellFormed valid ih running

/-! ## Steps -/

/-- Transitions until some condition holds are a run, if the condition holds at the end of a run. -/
theorem runUntil_run {σ : Type} {observe : σ → List Event → σ} {stop : Machine → Bool}
    (goes : ∀ x, Reachable p x → stop x = false → x.halted = false) :
    ∀ {limit : Nat} {m m' : Machine} {log : σ}, Reachable p m →
      (m.runUntil p observe stop log limit).2 = .ok m' → ∃ es, m.Run p es m'
  | 0, m, m', log, hr, h => by cases h; exact ⟨[], .refl⟩
  | limit + 1, m, m', log, hr, h => by
    unfold runUntil at h
    split at h
    · cases h; exact ⟨[], .refl⟩
    · rename_i hs
      have running := goes m hr (by simpa using hs)
      dsimp only at h
      split at h
      · rename_i x hx
        have first : m.Run p ([] ++ (m.advance p).events) x := .step .refl running (by rw [← hx])
        obtain ⟨es, run⟩ := runUntil_run goes (first.reachable hr) h
        exact ⟨_, first.trans run⟩
      · cases h

/-- A fault that ends such a loop is one of a transition. -/
theorem runUntil_fault {σ : Type} {observe : σ → List Event → σ} {stop : Machine → Bool} {f : Fault}
    (goes : ∀ x, Reachable p x → stop x = false → x.halted = false) :
    ∀ {limit : Nat} {m : Machine} {log : σ}, Reachable p m →
      (m.runUntil p observe stop log limit).2 = .error f →
      ∃ es x, m.Run p es x ∧ x.halted = false ∧ (x.advance p).result = .error f
  | 0, m, log, hr, h => by cases h
  | limit + 1, m, log, hr, h => by
    unfold runUntil at h
    split at h
    · cases h
    · rename_i hs
      have running := goes m hr (by simpa using hs)
      dsimp only at h
      split at h
      · rename_i x hx
        have first : m.Run p ([] ++ (m.advance p).events) x := .step .refl running (by rw [← hx])
        obtain ⟨es, y, run, fault⟩ := runUntil_fault goes (first.reachable hr) h
        exact ⟨_, y, first.trans run, fault⟩
      · rename_i hx
        exact ⟨[], m, .refl, running, hx.trans h⟩

/-- While a finally block is running, the run is not over. -/
theorem running_of_not_settled (valid : p.Valid) (hr : Reachable p m) (hs : settled m = false) :
    m.halted = false := by
  cases hh : m.halted with
  | false => rfl
  | true => simp [settled, (hr.wellFormed valid).regions_eq_nil hh] at hs

/-- A step is a run. -/
theorem step_run {limit : Nat} (valid : p.Valid) (hr : Reachable p m) (h : m.step p limit = .ok m') :
    ∃ es, m.Run p es m' := by
  unfold step at h
  split at h
  · cases h; exact ⟨[], .refl⟩
  · rename_i running
    split at h
    · rename_i x hx
      have first : m.Run p ([] ++ (m.advance p).events) x := .step .refl (by simpa using running) (by rw [← hx])
      obtain ⟨es, run⟩ := runUntil_run (fun x hx => running_of_not_settled valid hx) (first.reachable hr) h
      exact ⟨_, first.trans run⟩
    · cases h

/-- A fault of a step is one of a transition. -/
theorem step_fault {limit : Nat} {f : Fault} (valid : p.Valid) (hr : Reachable p m)
    (h : m.step p limit = .error f) : ∃ x, Reachable p x ∧ x.halted = false ∧ (x.advance p).result = .error f := by
  unfold step at h
  split at h
  · cases h
  · rename_i running
    have running : m.halted = false := by simpa using running
    split at h
    · rename_i x hx
      have next := hr.advance running (by rw [← hx])
      obtain ⟨es, y, run, fault⟩ := runUntil_fault (fun x hx => running_of_not_settled valid hx) next h
      exact ⟨y, run.reachable next, fault⟩
    · rename_i hx
      cases h
      exact ⟨m, hr, running, hx⟩

/-- What steps lead to is reachable. -/
theorem Reachable.step {limit : Nat} (valid : p.Valid) (hr : Reachable p m) (h : m.step p limit = .ok m') :
    Reachable p m' := by
  obtain ⟨es, run⟩ := step_run valid hr h
  exact run.reachable hr

end SlotVM.Machine
