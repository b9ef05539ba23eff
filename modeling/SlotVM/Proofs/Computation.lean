/-
Computations that may fail, one after the other and over lists: when they succeed, and with what.
-/
import Mathlib.Data.List.Forall2

namespace SlotVM

theorem bind_ok {ε α β : Type} {r : Except ε α} {f : α → Except ε β} {b : β} :
    (r >>= f) = .ok b ↔ ∃ a, r = .ok a ∧ f a = .ok b := by
  cases r with
  | error e => exact ⟨nofun, fun ⟨_, h, _⟩ => nomatch h⟩
  | ok a => exact ⟨fun h => ⟨a, rfl, h⟩, fun ⟨_, ha, h⟩ => by cases ha; exact h⟩

theorem bind_error {ε α β : Type} {r : Except ε α} {f : α → Except ε β} {e : ε} :
    (r >>= f) = .error e ↔ r = .error e ∨ ∃ a, r = .ok a ∧ f a = .error e := by
  cases r with
  | error e' => simp [bind, Except.bind]
  | ok a => simp [bind, Except.bind]

theorem mapM_eq_ok_iff {ε α β : Type} {f : α → Except ε β} {xs : List α} {ys : List β} :
    xs.mapM f = .ok ys ↔ List.Forall₂ (fun x y => f x = .ok y) xs ys := by
  induction xs generalizing ys with
  | nil =>
    rw [List.mapM_nil, List.forall₂_nil_left_iff]
    constructor
    · rintro ⟨⟩; rfl
    · rintro rfl; rfl
  | cons x xs ih =>
    rw [List.mapM_cons, List.forall₂_cons_left_iff]
    constructor
    · intro h
      obtain ⟨y, hx, h⟩ := bind_ok.1 h
      obtain ⟨ys', hxs, h⟩ := bind_ok.1 h
      cases h
      exact ⟨y, ys', hx, ih.1 hxs, rfl⟩
    · rintro ⟨y, ys', hx, hxs, rfl⟩
      rw [hx, ih.2 hxs]; rfl

/-- What fails first. -/
theorem mapM_eq_error {ε α β : Type} {f : α → Except ε β} {xs : List α} {e : ε} (h : xs.mapM f = .error e) :
    ∃ before x after, xs = before ++ x :: after ∧ (∀ y ∈ before, ∃ z, f y = .ok z) ∧ f x = .error e := by
  induction xs with
  | nil => cases h
  | cons x xs ih =>
    rw [List.mapM_cons] at h
    rcases bind_error.1 h with first | ⟨y, ok, h⟩
    · exact ⟨[], x, xs, rfl, List.forall_mem_nil _, first⟩
    · rcases bind_error.1 h with rest | ⟨ys, -, h⟩
      · obtain ⟨before, x', after, rfl, earlier, first⟩ := ih rest
        exact ⟨x :: before, x', after, rfl, List.forall_mem_cons.2 ⟨⟨y, ok⟩, earlier⟩, first⟩
      · cases h

theorem exists_of_forall₂ {α β : Type} {R : α → β → Prop} {xs : List α} {ys : List β} (h : List.Forall₂ R xs ys) :
    ∀ x ∈ xs, ∃ y ∈ ys, R x y := by
  intro x mem
  obtain ⟨k, hk, rfl⟩ := List.getElem_of_mem mem
  have hk' : k < ys.length := h.length_eq ▸ hk
  exact ⟨ys[k], List.getElem_mem hk', h.get hk hk'⟩

theorem forall₂_mem {α β : Type} {R : α → β → Prop} {xs : List α} {ys : List β} (h : List.Forall₂ R xs ys) :
    List.Forall₂ (fun x y => x ∈ xs ∧ R x y) xs ys :=
  (List.forall₂_and_left _ _).2 ⟨fun _ mem => mem, h⟩

theorem forall₂_split {α β : Type} {R : α → β → Prop} {xs rest : List α} {x : α} {ys : List β}
    (h : List.Forall₂ R (xs ++ x :: rest) ys) :
    ∃ xs' y rest', ys = xs' ++ y :: rest' ∧ List.Forall₂ R xs xs' ∧ R x y := by
  induction xs generalizing ys with
  | nil =>
    obtain ⟨y, ys, here, -, rfl⟩ := List.forall₂_cons_left_iff.1 h
    exact ⟨[], y, ys, rfl, .nil, here⟩
  | cons first xs ih =>
    obtain ⟨y, ys, related, later, rfl⟩ := List.forall₂_cons_left_iff.1 h
    obtain ⟨xs', y', rest', rfl, before, here⟩ := ih later
    exact ⟨y :: xs', y', rest', rfl, .cons related before, here⟩

theorem getElem?_of_forall₂ {α β : Type} {R : α → β → Prop} {l : List α} {l' : List β} (h : List.Forall₂ R l l')
    (i : Nat) : Option.Rel R l[i]? l'[i]? := by
  induction h generalizing i with
  | nil => exact .none
  | cons hab h ih =>
    cases i with
    | zero => exact .some hab
    | succ i => exact ih i

theorem related_of_getElem? {α β : Type} {R : α → β → Prop} {l : List α} {l' : List β} (h : List.Forall₂ R l l') {i : Nat}
    {a : α} (here : l[i]? = some a) : ∃ b, l'[i]? = some b ∧ R a b := by
  have related := getElem?_of_forall₂ h i
  rw [here] at related
  generalize l'[i]? = r at related ⊢
  cases related with
  | some hab => exact ⟨_, rfl, hab⟩

end SlotVM
