/-
Transfers of control in alike machines. The same frames are taken off in both, the same finally blocks begin,
and both go on at corresponding places. A place is one of the function that owns the frame which names it, so
the frames must lie on each other as they do in runs of a valid program.
-/
import SlotVM.Proofs.Translation.Compute

namespace SlotVM

open Transition

variable {T : Translation} {p p' : Program}

/-! ## Clauses and errors -/

theorem Pending.Alike.isActive_eq {x y : Pending} (h : x.Alike T y) : y.isActive = x.isActive := by
  cases h <;> rfl

theorem Pending.Alike.settle {x y : Pending} (h : x.Alike T y) : x.settle.Alike T y.settle := by
  cases h with
  | none => exact .none
  | settled h | active h => exact .settled h

theorem find?_accepts_translate (goal : Nat → Nat) {v w : Value} (h : v.Alike T.ref w) : ∀ catches : List CatchClause,
    (catches.map (·.translate goal)).find? (·.type.accepts w) =
      (catches.find? (·.type.accepts v)).map (·.translate goal)
  | [] => rfl
  | c :: catches => by
    rw [List.map_cons, List.find?_cons, List.find?_cons, find?_accepts_translate goal h catches,
      show (c.translate goal).type = c.type from rfl, h.accepts_eq]
    split <;> rfl

namespace Transition.Alike

variable {t t' : Transition} {m m' : Machine}

theorem done (h : m.Alike T m') : Alike T (Transition.done m) (Transition.done m') := Both.ok h

theorem fail (f f' : Fault) : Alike T (Transition.fail f) (Transition.fail f') := Both.fault f f'

theorem note (h : Alike T t t') (e e' : Event) : Alike T (Transition.note e t) (Transition.note e' t') := h

end Transition.Alike

namespace Machine

variable {m m' : Machine}

theorem owner_eq {ks : List FrameKind} (top : AtTop ks m.function m.frame) :
    (owner? ks).getD Program.entryId = m.function := by
  rw [top.owner?]; rfl

/-- The clause that catches the pending error is the translation of that which does in the other machine. -/
theorem Alike.handler? (h : m.Alike T m') (catches : List CatchClause) (goal : Nat → Nat) :
    (m.handler? catches = none ∧ m'.handler? (catches.map (·.translate goal)) = none) ∨
      ∃ clause v w, m.handler? catches = some (clause, v) ∧
        m'.handler? (catches.map (·.translate goal)) = some (clause.translate goal, w) ∧ v.Alike T.ref w := by
  have herr := h.pending.error?
  unfold Machine.handler?
  generalize m.pending.error? = x at herr ⊢
  generalize m'.pending.error? = y at herr ⊢
  cases herr with
  | none => exact .inl ⟨rfl, rfl⟩
  | @some v w hvw =>
    rw [Option.bind_some, Option.bind_some, find?_accepts_translate goal hvw]
    cases catches.find? (·.type.accepts v) with
    | none => exact .inl ⟨rfl, rfl⟩
    | some clause => exact .inr ⟨clause, v, w, rfl, rfl, hvw⟩

theorem Alike.floor_eq (h : m.Alike T m') : m'.floor = m.floor := by
  have hr := h.regions
  unfold floor
  generalize m.regions = rs at hr ⊢
  generalize m'.regions = rs' at hr ⊢
  cases hr with
  | nil => rfl
  | cons hr _ => exact hr.floor

theorem Alike.depth_eq (h : m.Alike T m') : m'.stack.depth = m.stack.depth := Stack.depth_eq_of_alike h.stack

theorem Alike.available_eq (h : m.Alike T m') : m'.available = m.available := by
  unfold available
  rw [h.depth_eq, h.floor_eq]

theorem Alike.goBack (h : m.Alike T m') (sound : T.Sound p p') {k k' : Option Continuation}
    (hk : Option.Rel (Continuation.Alike T) k k') : (m.goBack k).Alike T (m'.goBack k') := by
  cases hk with
  | none => exact h
  | some hk => exact { h with function := hk.function, frame := hk.frame, pc := sound.code hk.pc }

theorem Alike.next (h : m.Alike T m') (sound : T.Sound p p') (code : T.code m.function m.pc m'.pc) :
    Transition.Alike T (Transition.done m.next) (Transition.done m'.next) :=
  .done { h with pc := sound.next code }

/-- Pushing a frame of the running function. -/
theorem Alike.push (h : m.Alike T m') (top : AtTop m.stack.kinds m.function m.frame) {s s' : Scope}
    {k k' : FrameKind} (scope : s.Alike T s') (kind : k.Alike T m.function k') :
    { m with stack := m.stack.push ⟨s, k⟩ }.Alike T { m' with stack := m'.stack.push ⟨s', k'⟩ } := by
  refine { h with stack := .cons scope ?_ h.stack }
  rw [show m.stack.frames.map Frame.kind = m.stack.kinds from rfl, owner_eq top]
  exact kind

theorem Alike.handle (h : m.Alike T m') (sound : T.Sound p p') (top : AtTop m.stack.kinds m.function m.frame)
    {scope scope' : Scope} (hscope : scope.Alike T scope') (clause : CatchClause) {v w : Value} (hvw : v.Alike T.ref w) :
    Transition.Alike T (m.handle scope clause v) (m'.handle scope' (clause.translate (T.goal m.function)) w) := by
  refine .note (.done ?_) _ _
  have pushed := h.push top hscope (.attempt [] none)
  exact { pushed with pc := sound.goal _ _, pending := .settled hvw }

/-- The same finally block begins in both machines. -/
theorem Alike.enter (h : m.Alike T m') (sound : T.Sound p p') (range : Span) {t t' : Transfer}
    (ht : t.Alike T m.function t') (code : t = .pop → T.code m.function m.pc m'.pc) :
    Transition.Alike T (m.enter range t) (m'.enter (range.translate (T.goal m.function)) t') := by
  refine .note (.done ?_) _ _
  exact { h with
    pc := sound.goal _ _
    pending := h.pending.settle
    regions := .cons ⟨rfl, h.depth_eq, h.function, h.frame, h.pc, code, h.pending, ht⟩ h.regions }

/-! ## Frames that are taken off -/

/-- What is below a frame of the running function, in both machines. -/
structure Below (T : Translation) (p : Program) (m m' : Machine) (rest rest' : Stack) : Prop where
  alike : { m with stack := rest }.Alike T { m' with stack := rest' }
  wellFormed : { m with stack := rest }.WellFormed p
  top : AtTop rest.kinds m.function m.frame
  available : m.available = { m with stack := rest }.available + 1

/-- The frame that is taken off next is of the same kind in both machines. -/
inductive Popped (T : Translation) (p : Program) (m m' : Machine) : Prop
  | empty (pop : m.stack.pop? = none) (pop' : m'.stack.pop? = none)
  | call {s s' : Scope} {c c' : CallFrame} {rest rest' : Stack} (pop : m.stack.pop? = some (⟨s, .call c⟩, rest))
      (pop' : m'.stack.pop? = some (⟨s', .call c'⟩, rest')) (call : c.Alike T c')
      (alike : { m with stack := rest }.Alike T { m' with stack := rest' })
  | scope {s s' : Scope} {rest rest' : Stack} (pop : m.stack.pop? = some (⟨s, .scope⟩, rest))
      (pop' : m'.stack.pop? = some (⟨s', .scope⟩, rest')) (below : Below T p m m' rest rest')
  | loop {s s' : Scope} {start stop : Nat} {rest rest' : Stack} (pop : m.stack.pop? = some (⟨s, .loop start stop⟩, rest))
      (pop' : m'.stack.pop? = some (⟨s', .loop (T.goal m.function start) (T.goal m.function stop)⟩, rest'))
      (below : Below T p m m' rest rest')
  | attempt {s s' : Scope} {catches : List CatchClause} {cleanup : Option Span} {rest rest' : Stack}
      (pop : m.stack.pop? = some (⟨s, .attempt catches cleanup⟩, rest))
      (pop' : m'.stack.pop? = some (⟨s', .attempt (catches.map (·.translate (T.goal m.function)))
        (cleanup.map (·.translate (T.goal m.function)))⟩, rest'))
      (below : Below T p m m' rest rest') (scope : s.Alike T s')

theorem Alike.popped (h : m.Alike T m') (wf : m.WellFormed p) (room : 0 < m.available) : Popped T p m m' := by
  rcases Stack.pop?_alike h.stack with ⟨pop, pop'⟩ | ⟨⟨s, k⟩, ⟨s', k'⟩, rest, rest', pop, pop', scope, kind, hrest⟩
  · exact .empty pop pop'
  · have top := Stack.eq_push_of_pop? pop
    have alike : { m with stack := rest }.Alike T { m' with stack := rest' } := { h with stack := hrest }
    have below (hk : k.call? = none) : Below T p m m' rest rest' := by
      obtain ⟨hwf, htop, -⟩ := wf.drop top (floor_lt_depth room) hk
      obtain ⟨n, hn⟩ := Nat.exists_eq_succ_of_ne_zero (Nat.ne_of_gt room)
      exact ⟨alike, hwf, htop, by rw [available_pop top hn, hn]⟩
    have owned (hk : k.call? = none) := owner_eq (below hk).top
    dsimp only at kind
    cases k with
    | call c => cases kind with | call h => exact .call pop pop' h alike
    | scope => cases kind with | scope => exact .scope pop pop' (below rfl)
    | loop start stop =>
      rw [owned rfl] at kind
      cases kind
      exact .loop pop pop' (below rfl)
    | attempt catches cleanup =>
      rw [owned rfl] at kind
      cases kind
      exact .attempt pop pop' (below rfl) scope

/-- The search for a handler goes on in the same way. -/
theorem Alike.unwind (sound : T.Sound p p') : ∀ {n : Nat} {m m' : Machine}, m.Alike T m' → m.WellFormed p →
    n ≤ m.available → Transition.Alike T (m.unwind n) (m'.unwind n)
  | 0, m, m', h, _, _ => .done h
  | n + 1, m, m', h, wf, hn => by
    unfold Machine.unwind
    cases h.popped wf (by omega) with
    | empty pop pop' =>
      rw [pop, pop']
      exact .done h
    | @call s s' c c' rest rest' pop pop' call alike =>
      rw [pop, pop']
      have top := Stack.eq_push_of_pop? pop
      obtain ⟨k, hk⟩ := Nat.exists_eq_add_of_lt (show 0 < m.available by omega)
      have hrest := available_pop top (show m.available = k + 1 by omega)
      exact (alike.goBack sound call.caller).unwind sound (wf.abort top (floor_lt_depth (by omega)) rfl)
        (by rw [goBack_available, hrest]; omega)
    | scope pop pop' below | loop pop pop' below =>
      rw [pop, pop']
      exact below.alike.unwind sound below.wellFormed (by have := below.available; omega)
    | @attempt s s' catches cleanup rest rest' pop pop' below scope =>
      rw [pop, pop']
      cases cleanup with
      | some range => exact below.alike.enter sound range (.unwind scope catches) (by simp)
      | none =>
        rcases below.alike.handler? catches (T.goal m.function) with ⟨hh, hh'⟩ | ⟨clause, v, w, hh, hh', hvw⟩
        · simp only [Option.map_none, hh, hh']
          exact below.alike.unwind sound below.wellFormed (by have := below.available; omega)
        · simp only [Option.map_none, hh, hh']
          exact below.alike.handle sound below.top scope clause hvw

/-- The same loop is left. -/
theorem Alike.exitLoop (sound : T.Sound p p') (exit : LoopExit) (depth : Nat) : ∀ {n remaining : Nat}
    {m m' : Machine}, m.Alike T m' → m.WellFormed p → n ≤ m.available →
      Transition.Alike T (m.exitLoop exit depth remaining n) (m'.exitLoop exit depth remaining n)
  | 0, remaining, m, m', h, _, _ => .fail _ _
  | n + 1, remaining, m, m', h, wf, hn => by
    unfold Machine.exitLoop
    cases h.popped wf (by omega) with
    | empty pop pop' =>
      rw [pop, pop']
      exact .fail _ _
    | call pop pop' call alike =>
      rw [pop, pop']
      exact .fail _ _
    | scope pop pop' below =>
      rw [pop, pop']
      exact below.alike.exitLoop sound exit depth below.wellFormed (by have := below.available; omega)
    | @loop s s' start stop rest rest' pop pop' below =>
      rw [pop, pop']
      cases remaining with
      | zero =>
        have target : exit.target (T.goal m.function start) (T.goal m.function stop) =
            T.goal m.function (exit.target start stop) := by cases exit <;> rfl
        have left : { m with stack := rest, pc := exit.target start stop }.Alike T
            { m' with stack := rest', pc := T.goal m.function (exit.target start stop) } :=
          { below.alike with pc := sound.goal _ _ }
        dsimp only
        rw [target]
        exact .note (.done left) _ _
      | succ remaining =>
        exact below.alike.exitLoop sound exit depth below.wellFormed (by have := below.available; omega)
    | @attempt s s' catches cleanup rest rest' pop pop' below scope =>
      rw [pop, pop']
      cases cleanup with
      | some range => exact below.alike.enter sound range (.exitLoop exit depth remaining) (by simp)
      | none => exact below.alike.exitLoop sound exit depth below.wellFormed (by have := below.available; omega)

/-- The returned value is given to the same caller. -/
theorem Alike.deliver (h : m.Alike T m') (sound : T.Sound p p') {c c' : CallFrame} (call : c.Alike T c')
    {v w : Option Value} (hvw : Option.Rel (Value.Alike T.ref) v w) :
    Transition.Alike T (m.deliver c v) (m'.deliver c' w) := by
  have caller := call.caller
  unfold Machine.deliver
  generalize c.caller = x at caller ⊢
  generalize c'.caller = y at caller ⊢
  cases caller with
  | none =>
    have ended : { m with returned := v }.Alike T { m' with returned := w } := { h with returned := hvw }
    exact .note (.done ended) _ _
  | @some k k' hk =>
    refine .note (.done ?_) _ _
    have slots : T.slots (m.received c v k).slots (m'.received c' w k').slots := by
      have target := call.returnTarget
      unfold Machine.received
      generalize c.returnTarget = x at target ⊢
      generalize c'.returnTarget = y at target ⊢
      cases target with
      | none => exact h.slots
      | some target =>
        cases hvw with
        | none => exact h.slots
        | some hvw => exact sound.write h.slots target hvw
    exact { h with
      slots
      function := hk.function
      frame := hk.frame
      pc := sound.next hk.pc
      returned := hvw }

/-- The running function returns. -/
theorem Alike.leaveFunction (sound : T.Sound p p') {v w : Option Value} (hvw : Option.Rel (Value.Alike T.ref) v w)
    (explicit : Bool) : ∀ {n : Nat} {m m' : Machine}, m.Alike T m' → m.WellFormed p → n ≤ m.available →
      Transition.Alike T (m.leaveFunction v explicit n) (m'.leaveFunction w explicit n)
  | 0, m, m', h, _, _ => .fail _ _
  | n + 1, m, m', h, wf, hn => by
    unfold Machine.leaveFunction
    cases h.popped wf (by omega) with
    | empty pop pop' =>
      rw [pop, pop']
      exact .fail _ _
    | call pop pop' call alike =>
      rw [pop, pop']
      exact alike.deliver sound call hvw
    | scope pop pop' below | loop pop pop' below =>
      rw [pop, pop']
      exact below.alike.leaveFunction sound hvw explicit below.wellFormed (by have := below.available; omega)
    | @attempt s s' catches cleanup rest rest' pop pop' below scope =>
      rw [pop, pop']
      cases cleanup with
      | some range => exact below.alike.enter sound range (.ret explicit hvw) (by simp)
      | none =>
        exact below.alike.leaveFunction sound hvw explicit below.wellFormed (by have := below.available; omega)

theorem Alike.beginReturn (h : m.Alike T m') (sound : T.Sound p p') (wf : m.WellFormed p) {v w : Option Value}
    (hvw : Option.Rel (Value.Alike T.ref) v w) (explicit : Bool) :
    Transition.Alike T (m.beginReturn v explicit) (m'.beginReturn w explicit) := by
  unfold Machine.beginReturn
  rw [h.available_eq]
  have cleared : { m with returned := none }.Alike T { m' with returned := none } := { h with returned := .none }
  exact cleared.leaveFunction sound hvw explicit (wf.of_eq rfl rfl rfl rfl wf.pc) (Nat.le_refl _)

theorem Alike.popFrame (h : m.Alike T m') (sound : T.Sound p p') (wf : m.WellFormed p)
    (code : T.code m.function m.pc m'.pc) : Transition.Alike T m.popFrame m'.popFrame := by
  have heq : m'.stack.depth ≤ max m'.floor (m'.frame + 1) ↔ m.stack.depth ≤ max m.floor (m.frame + 1) := by
    rw [h.depth_eq, h.floor_eq, h.frame]
  unfold Machine.popFrame
  by_cases room : m.stack.depth ≤ max m.floor (m.frame + 1)
  · rw [if_pos room, if_pos (heq.2 room)]
    exact .fail _ _
  · rw [if_neg room, if_neg (room ∘ heq.1)]
    cases h.popped wf (by unfold available; omega) with
    | empty pop pop' =>
      rw [pop, pop']
      exact .fail _ _
    | call pop pop' call alike =>
      rw [pop, pop']
      exact alike.next sound code
    | scope pop pop' below | loop pop pop' below =>
      rw [pop, pop']
      exact below.alike.next sound code
    | @attempt s s' catches cleanup rest rest' pop pop' below scope =>
      rw [pop, pop']
      cases cleanup with
      | some range => exact below.alike.enter sound range .pop fun _ => code
      | none => exact below.alike.next sound code

/-! ## Ends of finally blocks -/

/-- A transfer that a finally block interrupted is taken up again. -/
theorem Alike.resume (h : m.Alike T m') (sound : T.Sound p p') (wf : m.WellFormed p)
    (top : AtTop m.stack.kinds m.function m.frame) {t t' : Transfer} (ht : t.Alike T m.function t')
    (code : t = .pop → T.code m.function m.pc m'.pc) : Transition.Alike T (m.resume t) (m'.resume t') := by
  unfold Machine.resume
  cases ht with
  | pop => exact .done { h with pc := sound.next (code rfl) }
  | exitLoop exit depth remaining =>
    dsimp only
    rw [h.available_eq]
    exact h.exitLoop sound exit depth wf (Nat.le_refl _)
  | ret explicit hvw =>
    dsimp only
    rw [h.available_eq]
    exact h.leaveFunction sound hvw explicit wf (Nat.le_refl _)
  | unwind scope catches =>
    rcases h.handler? catches (T.goal m.function) with ⟨hh, hh'⟩ | ⟨clause, v, w, hh, hh', hvw⟩
    · simp only [hh, hh', h.available_eq]
      exact h.unwind sound wf (Nat.le_refl _)
    · simp only [hh, hh']
      exact h.handle sound top scope clause hvw

/-- A finally block ends in the same way in both machines. -/
theorem Alike.complete (h : m.Alike T m') (sound : T.Sound p p') (wf : m.WellFormed p) {r r' : Region}
    {outer outer' : List Region} (regions : m.regions = r :: outer) (hr : r.Alike T r')
    (houter : List.Forall₂ (Region.Alike T) outer outer') (settled : m.pending.isActive = false)
    (frame : m.frame = r.frame) (stop : r.range.stop ≤ m.pc) :
    Transition.Alike T (m.complete r outer) (m'.complete r' outer') := by
  unfold Machine.complete
  rw [h.depth_eq, hr.floor]
  split
  · exact .fail _ _
  · rename_i depth
    have ends : m.Ends r outer .completed (m.restored r outer) :=
      .completed regions settled frame stop (Decidable.not_not.1 depth)
    have function : m.function = r.function := (ends.registers wf).1
    have restored : (m.restored r outer).Alike T (m'.restored r' outer') :=
      { h with pc := function ▸ hr.resume, pending := hr.pending, regions := houter }
    refine restored.resume sound (ends.wellFormed wf) ?_ (function ▸ hr.transfer) fun ht => function ▸ hr.code ht
    rw [show (m.restored r outer).function = r.function from function,
      show (m.restored r outer).frame = r.frame from frame]
    exact ends.top wf

/-- A finally block is given up in the same way in both machines. -/
theorem Alike.abandon (h : m.Alike T m') (sound : T.Sound p p') (wf : m.WellFormed p) {r r' : Region}
    {outer outer' : List Region} (regions : m.regions = r :: outer) (hr : r.Alike T r')
    (houter : List.Forall₂ (Region.Alike T) outer outer') (active : m.pending.isActive = true)
    (depth : m.stack.depth ≤ r.floor) : Transition.Alike T (m.abandon r outer) (m'.abandon r' outer') := by
  have ends : m.Ends r outer .threw (m.escaped r outer) := .threw regions active depth
  have escaped : (m.escaped r outer).Alike T (m'.escaped r' outer') :=
    { h with function := hr.function, frame := hr.frame, pc := hr.resume, regions := houter }
  refine .note ?_ _ _
  have ht := hr.transfer
  generalize r.transfer = t at ht ⊢
  generalize r'.transfer = t' at ht ⊢
  cases ht with
  | unwind scope catches =>
    dsimp only
    rw [escaped.available_eq]
    exact escaped.unwind sound (ends.wellFormed wf) (Nat.le_refl _)
  | ret explicit hvw => exact .done { escaped with returned := .none }
  | pop => exact .done escaped
  | exitLoop => exact .done escaped

end Machine

end SlotVM
