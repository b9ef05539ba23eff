/-
Record fields: a finite map from names to slots, kept in ascending order of the names, each name
once. Names are ordered by their characters' code points. A field holds the number of a slot.
-/

namespace SlotVM

/-- Puts `name` with `ref` into an ascending list of fields, in place of an entry of that name. -/
def insertField (name : String) (ref : Nat) : List (String × Nat) → List (String × Nat)
  | [] => [(name, ref)]
  | (n, r) :: rest =>
    if name < n then (name, ref) :: (n, r) :: rest
    else if name = n then (name, ref) :: rest
    else (n, r) :: insertField name ref rest

theorem mem_insertField {p : String × Nat} {name : String} {ref : Nat} :
    ∀ {l : List (String × Nat)}, p ∈ insertField name ref l → p = (name, ref) ∨ p ∈ l
  | [], h => by simpa [insertField] using h
  | (n, r) :: rest, h => by
    unfold insertField at h
    split at h
    · simpa using h
    · split at h
      · rcases List.mem_cons.1 h with h | h
        · exact Or.inl h
        · exact Or.inr (List.mem_cons_of_mem _ h)
      · rcases List.mem_cons.1 h with h | h
        · exact Or.inr (h ▸ List.mem_cons_self ..)
        · rcases mem_insertField h with h | h
          · exact Or.inl h
          · exact Or.inr (List.mem_cons_of_mem _ h)

/-- Names in strictly ascending order. -/
def Ascending (l : List (String × Nat)) : Prop := l.Pairwise fun a b => a.1 < b.1

theorem Ascending.insertField (name : String) (ref : Nat) :
    ∀ {l : List (String × Nat)}, Ascending l → Ascending (insertField name ref l)
  | [], _ => by simp [Ascending, SlotVM.insertField]
  | (n, r) :: rest, h => by
    have hrest : Ascending rest := (List.pairwise_cons.1 h).2
    have hhead := (List.pairwise_cons.1 h).1
    unfold SlotVM.insertField
    split
    · rename_i hlt
      refine List.pairwise_cons.2 ⟨fun p hp => ?_, h⟩
      rcases List.mem_cons.1 hp with rfl | hp
      · exact hlt
      · exact String.lt_trans hlt (hhead p hp)
    · split
      · rename_i heq
        subst heq
        exact List.pairwise_cons.2 ⟨hhead, hrest⟩
      · rename_i hlt hne
        refine List.pairwise_cons.2 ⟨fun p hp => ?_, hrest.insertField name ref⟩
        rcases mem_insertField hp with rfl | hp
        · exact Decidable.byContradiction fun hge =>
            hne (String.le_antisymm (String.not_lt.1 hge) (String.not_lt.1 hlt))
        · exact hhead p hp

/-- The fields of a record. -/
structure Fields where
  entries : List (String × Nat)
  ascending : Ascending entries
deriving DecidableEq

namespace Fields

/-- A record without fields. -/
def empty : Fields := ⟨[], List.Pairwise.nil⟩

instance : Inhabited Fields := ⟨empty⟩

/-- Sets a field. -/
def insert (f : Fields) (name : String) (ref : Nat) : Fields :=
  ⟨insertField name ref f.entries, f.ascending.insertField name ref⟩

/-- The fields of a list; the last of equal names wins. -/
def ofList (l : List (String × Nat)) : Fields :=
  l.foldl (fun f p => f.insert p.1 p.2) empty

/-- The slot of a field. -/
def get? (f : Fields) (name : String) : Option Nat := f.entries.lookup name

end Fields

end SlotVM
