/-
Memoized constants: each holds no value until it is set, and is set at most once.
-/
import SlotVM.Value.Basic

namespace SlotVM

/-- The constants that have been set, the latest first. -/
structure Constants where
  entries : List (Nat × Value)
deriving Inhabited

namespace Constants

/-- No constant is set. -/
def empty : Constants := ⟨[]⟩

/-- The value of a constant. -/
def get? (c : Constants) (id : Nat) : Option Value := c.entries.lookup id

/-- Whether a constant is set. -/
def contains (c : Constants) (id : Nat) : Bool := (c.get? id).isSome

/-- Sets a constant that is not set yet; there is no result if it is. -/
def set? (c : Constants) (id : Nat) (v : Value) : Option Constants :=
  if c.contains id then none else some ⟨(id, v) :: c.entries⟩

end Constants

end SlotVM
