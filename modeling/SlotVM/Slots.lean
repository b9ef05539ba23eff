/-
The slots of a run: numbered places that are unwritten until a value is stored in them. The store
grows when a slot past its end is written, and slots are never given back.
-/
import SlotVM.Value.Basic

namespace SlotVM

/-- The numbered slots and what they hold. -/
structure Slots where
  cells : Array (Option Value)
deriving Inhabited

namespace Slots

/-- Unwritten slots, as many as `capacity`. -/
def empty (capacity : Nat) : Slots := ⟨Array.replicate capacity none⟩

/-- The number of slots, written or not. -/
def size (s : Slots) : Nat := s.cells.size

/-- The value in a slot, if it was written. -/
def get? (s : Slots) (id : Nat) : Option Value := s.cells[id]?.join

/-- Stores a value, growing the store if the slot is past its end. -/
def write (s : Slots) (id : Nat) (v : Value) : Slots :=
  if h : id < s.cells.size then ⟨s.cells.set id (some v)⟩
  else ⟨(s.cells ++ Array.replicate (id - s.cells.size) none).push (some v)⟩

/-- The id that the next allocated slot gets. -/
def nextId (s : Slots) : Nat := s.cells.size

/-- Stores a value in a new slot, `s.nextId`. -/
def allocate (s : Slots) (v : Value) : Slots := ⟨s.cells.push (some v)⟩

/-- The written slots in ascending order, with their ids. -/
def written (s : Slots) : List (Nat × Value) :=
  s.cells.toList.zipIdx.filterMap fun p => p.1.map fun v => (p.2, v)

/-! ## Look-up after each operation -/

theorem get?_empty (capacity id : Nat) : (empty capacity).get? id = none := by
  simp only [get?, empty, Array.getElem?_replicate]
  split <;> rfl

theorem get?_eq_none_of_size_le (s : Slots) {id : Nat} (h : s.size ≤ id) : s.get? id = none := by
  have : s.cells[id]? = none := Array.getElem?_eq_none h
  simp [get?, this]

theorem size_empty (capacity : Nat) : (empty capacity).size = capacity := Array.size_replicate

theorem size_write (s : Slots) (id : Nat) (v : Value) :
    (s.write id v).size = max s.size (id + 1) := by
  unfold write size
  split
  · simp only [Array.size_set]; omega
  · simp only [Array.size_push, Array.size_append, Array.size_replicate]; omega

theorem get?_write (s : Slots) (id j : Nat) (v : Value) :
    (s.write id v).get? j = if j = id then some v else s.get? j := by
  unfold write get?
  split
  · rename_i h
    simp only [Array.getElem?_set]
    split <;> rename_i hj
    · simp [hj.symm]
    · simp [Ne.symm hj]
  · rename_i h
    simp only [Array.getElem?_push, Array.size_append, Array.size_replicate,
      Array.getElem?_append, Array.getElem?_replicate]
    grind

theorem size_allocate (s : Slots) (v : Value) : (s.allocate v).size = s.size + 1 := by
  simp [allocate, size]

theorem get?_allocate (s : Slots) (v : Value) (j : Nat) :
    (s.allocate v).get? j = if j = s.nextId then some v else s.get? j := by
  simp only [allocate, get?, nextId, Array.getElem?_push]
  split <;> simp_all

/-- Strings that are stored in new slots, one after the other, are in the slots that follow the old ones. -/
theorem get?_allocated (strings : List String) (s : Slots) (id : Nat) :
    (strings.foldl (fun s a => s.allocate (.string a)) s).get? id =
      if id < s.size then s.get? id else strings[id - s.size]?.map .string := by
  induction strings generalizing s with
  | nil =>
    rw [List.foldl_nil]
    split
    · rfl
    · rename_i h
      rw [s.get?_eq_none_of_size_le (Nat.not_lt.1 h)]; rfl
  | cons a strings ih =>
    rw [List.foldl_cons, ih, size_allocate, get?_allocate, show s.nextId = s.size from rfl]
    rcases Nat.lt_trichotomy id s.size with hlt | rfl | hgt
    · rw [if_pos (by omega), if_pos hlt, if_neg (Nat.ne_of_lt hlt)]
    · rw [if_pos (by omega), if_neg (Nat.lt_irrefl _), if_pos rfl, Nat.sub_self]; rfl
    · rw [if_neg (by omega), if_neg (by omega), show id - s.size = (id - (s.size + 1)) + 1 by omega,
        List.getElem?_cons_succ]

theorem size_allocated (strings : List String) (s : Slots) :
    (strings.foldl (fun s a => s.allocate (.string a)) s).size = s.size + strings.length := by
  induction strings generalizing s with
  | nil => rfl
  | cons a strings ih => rw [List.foldl_cons, ih, size_allocate, List.length_cons]; omega

end Slots

end SlotVM
