/-
Alike machines in lockstep. If corresponding places always have the same instruction, alike machines take the
same number of transitions in every step, and are alike after each of them.
-/
import SlotVM.Proofs.Translation.Step

namespace SlotVM

/-- The outcome with other slots in its value. -/
def Outcome.rename (slot : Nat → Nat) : Outcome → Outcome
  | .returned value => .returned (value.map (Value.rename slot))
  | .threw error => .threw (error.rename slot)

theorem Outcome.rename_id (o : Outcome) : o.rename id = o := by
  cases o with
  | returned value => cases value <;> simp [Outcome.rename, Value.rename_id]
  | threw error => rw [Outcome.rename, Value.rename_id]

namespace Machine

variable {T : Translation} {p p' : Program} {m m' : Machine}

theorem Alike.halted_eq (h : m.Alike T m') : m'.halted = m.halted := by
  have hs := h.stack
  unfold halted Stack.isEmpty
  generalize m.stack.frames = fs at hs ⊢
  generalize m'.stack.frames = fs' at hs ⊢
  cases hs <;> rfl

theorem Alike.settled_eq (h : m.Alike T m') : settled m' = settled m := by
  have hr := h.regions
  unfold settled
  generalize m.regions = rs at hr ⊢
  generalize m'.regions = rs' at hr ⊢
  cases hr <;> rfl

/-- Alike machines have the same outcome, if a function tells which slots correspond. -/
theorem Alike.outcome_eq {slot : Nat → Nat} (function : ∀ a b, T.ref a b → b = slot a) (h : m.Alike T m') :
    m'.outcome = m.outcome.map (Outcome.rename slot) := by
  have hp := h.pending
  unfold outcome
  rw [h.halted_eq, eq_map_of_alike function h.returned]
  split
  · generalize m.pending = x at hp ⊢
    generalize m'.pending = y at hp ⊢
    cases hp with
    | active hv => rw [hv.eq_rename function]; rfl
    | none | settled => rfl
  · rfl

/-- Runs begin in alike machines, if the arguments are stored in corresponding slots. -/
theorem started_alike (sound : T.Sound p p') {args : List String}
    (slots : T.slots ((ready p).started args).slots ((ready p').started args).slots)
    (refs : List.Forall₂ T.ref (List.range' p.slotCount args.length) (List.range' p'.slotCount args.length)) :
    ((ready p).started args).Alike T ((ready p').started args) := by
  have next (q : Program) : (Slots.empty q.slotCount).nextId = q.slotCount := Slots.size_empty _
  have array : List.Forall₂ T.ref (List.range' (Slots.empty p.slotCount).nextId args.length)
      (List.range' (Slots.empty p'.slotCount).nextId args.length) := by
    rw [next, next]
    exact refs
  constructor
  · exact slots
  · exact .nil
  · exact .cons .nil (.call ⟨rfl, .cons (.array array) .nil, .none, .none⟩) .nil
  · rfl
  · rfl
  · exact sound.start _
  · exact .none
  · exact .none
  · exact .nil

/-- Loops over transitions of alike machines, which take the same number of them. -/
theorem Alike.runUntil (sound : T.Sound p p') (valid : p.Valid) (code : ∀ {f a b}, T.place f a b → T.code f a b)
    {σ : Type} {observe : σ → List Event → σ} {stop : Machine → Bool}
    (goes : ∀ x, Reachable p x → stop x = false → x.halted = false) (same : ∀ x y, x.Alike T y → stop y = stop x) :
    ∀ {limit : Nat} {m m' : Machine} {log log' : σ}, m.Alike T m' → Reachable p m →
      Both (Machine.Alike T) (m.runUntil p observe stop log limit).2 (m'.runUntil p' observe stop log' limit).2
  | 0, m, m', log, log', h, _ => .ok h
  | limit + 1, m, m', log, log', h, reach => by
    unfold Machine.runUntil
    rw [same m m' h]
    cases hs : stop m with
    | true => exact .ok h
    | false =>
      have running := goes m reach hs
      have step : Both (Machine.Alike T) (m.advance p).result (m'.advance p').result :=
        h.advance sound (reach.wellFormed valid) running fun _ => code h.pc
      dsimp only
      rw [if_neg Bool.false_ne_true, if_neg Bool.false_ne_true]
      generalize hr : (m.advance p).result = r at step ⊢
      generalize (m'.advance p').result = r' at step ⊢
      cases step with
      | ok hxy => exact hxy.runUntil sound valid code goes same (reach.advance running (by rw [← hr]))
      | fault f f' => exact .fault f f'

theorem Alike.step (h : m.Alike T m') (sound : T.Sound p p') (valid : p.Valid)
    (code : ∀ {f a b}, T.place f a b → T.code f a b) (reach : Reachable p m) (limit : Nat) :
    Both (Machine.Alike T) (m.step p limit) (m'.step p' limit) := by
  unfold Machine.step
  rw [h.halted_eq]
  cases hh : m.halted with
  | true => exact .ok h
  | false =>
    have step : Both (Machine.Alike T) (m.advance p).result (m'.advance p').result :=
      h.advance sound (reach.wellFormed valid) hh fun _ => code h.pc
    rw [if_neg Bool.false_ne_true, if_neg Bool.false_ne_true]
    generalize hr : (m.advance p).result = r at step ⊢
    generalize (m'.advance p').result = r' at step ⊢
    cases step with
    | ok hxy =>
      exact hxy.runUntil sound valid code (fun x hx => running_of_not_settled valid hx) (fun x y h => h.settled_eq)
        (reach.advance hh (by rw [← hr]))
    | fault f f' => exact .fault f f'

/-- Steps of alike machines, one by one. -/
theorem Alike.steps (sound : T.Sound p p') (valid : p.Valid) (code : ∀ {f a b}, T.place f a b → T.code f a b)
    (limit : Nat) : ∀ {n taken : Nat} {m m' : Machine}, m.Alike T m' → Reachable p m →
      (m'.steps p' limit n taken).1 = (m.steps p limit n taken).1 ∧
        Both (Machine.Alike T) (m.steps p limit n taken).2 (m'.steps p' limit n taken).2
  | 0, taken, m, m', h, _ => ⟨rfl, .ok h⟩
  | n + 1, taken, m, m', h, reach => by
    have step := h.step sound valid code reach limit
    unfold Machine.steps
    generalize hr : m.step p limit = r at step ⊢
    generalize m'.step p' limit = r' at step ⊢
    cases step with
    | fault f f' => exact ⟨rfl, .fault f f'⟩
    | @ok x y hxy =>
      dsimp only
      rw [hxy.halted_eq]
      split
      · exact ⟨rfl, .ok hxy⟩
      · exact hxy.steps sound valid code limit (reach.step valid hr)

end Machine

end SlotVM
