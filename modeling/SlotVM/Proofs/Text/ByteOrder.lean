/-
UTF-8 keeps the order of texts. `compareText_lt`: comparing two texts byte by byte puts first the one whose code points
come first in a dictionary, whatever the lengths of their characters.
-/
import Mathlib.Data.List.Lex
import SlotVM.Operator.Registry

namespace SlotVM

open String (utf8EncodeChar)

/-- The code points of a text. -/
def codePoints (s : String) : List Nat := s.toList.map Char.toNat

/-! ## Characters -/

/-- The bytes of the code point `n`: its digits to the base 64, the first of which tells how many there are. The
fewest bytes are taken. -/
inductive Encoded (n : Nat) : List UInt8 → Prop
  | one (ascii : n < 0x80) : Encoded n [.ofNat n]
  | two {a b : Nat} (ha : a < 32) (hb : b < 64) (digits : n = 64 * a + b) (least : 0x80 ≤ n) :
      Encoded n [.ofNat (a + 192), .ofNat (b + 128)]
  | three {a b c : Nat} (ha : a < 16) (hb : b < 64) (hc : c < 64) (digits : n = 4096 * a + 64 * b + c)
      (least : 0x800 ≤ n) : Encoded n [.ofNat (a + 224), .ofNat (b + 128), .ofNat (c + 128)]
  | four {a b c d : Nat} (ha : a < 8) (hb : b < 64) (hc : c < 64) (hd : d < 64)
      (digits : n = 262144 * a + 4096 * b + 64 * c + d) (least : 0x10000 ≤ n) :
      Encoded n [.ofNat (a + 240), .ofNat (b + 128), .ofNat (c + 128), .ofNat (d + 128)]

theorem encoded (c : Char) : Encoded c.toNat (utf8EncodeChar c) := by
  have bound : c.val.toNat < 2 ^ 21 := by
    have h : c.val.toNat < 55296 ∨ 57343 < c.val.toNat ∧ c.val.toNat < 1114112 := c.valid
    omega
  have digit (k : Nat) : k % 64 < 64 := Nat.mod_lt _ (by decide)
  show Encoded c.val.toNat (utf8EncodeChar c)
  unfold utf8EncodeChar
  generalize c.val.toNat = n at bound
  dsimp only
  split
  · exact .one (by omega)
  · split
    · exact .two (Nat.mod_lt _ (by decide)) (digit _) (by omega) (by omega)
    · split
      · exact .three (Nat.mod_lt _ (by decide)) (digit _) (digit _) (by omega) (by omega)
      · exact .four (Nat.mod_lt _ (by decide)) (digit _) (digit _) (digit _) (by omega) (by omega)

/-- The bytes of a smaller code point come first, whatever follows them: of two lengths the shorter one has the smaller
first byte, and bytes of one length are compared digit by digit. -/
theorem Encoded.lt {m n : Nat} {a b : List UInt8} (ha : Encoded m a) (hb : Encoded n b) (h : m < n) (x y : List UInt8) :
    a ++ x < b ++ y := by
  cases ha <;> cases hb <;>
    simp only [List.cons_append, List.nil_append, List.cons_lt_cons_iff, UInt8.lt_iff_toNat_lt, ← UInt8.toNat_inj,
      UInt8.toNat_ofNat'] <;> omega

/-! ## Texts -/

theorem bytes_eq (s : String) : s.toUTF8.data.toList = s.toList.flatMap utf8EncodeChar := by
  rw [String.toUTF8_eq_toByteArray, ← String.utf8Encode_toList, List.utf8Encode, List.data_toByteArray]

theorem bytes_lt : ∀ {l l' : List Char}, l.map Char.toNat < l'.map Char.toNat →
    l.flatMap utf8EncodeChar < l'.flatMap utf8EncodeChar
  | l, [], h => (List.not_lt_nil _ h).elim
  | [], d :: l', _ => by
    obtain ⟨b, rest, h⟩ := List.exists_cons_of_ne_nil (String.utf8EncodeChar_ne_nil (c := d))
    rw [List.flatMap_cons, h]
    exact List.nil_lt_cons ..
  | c :: l, d :: l', h => by
    rw [List.map_cons, List.map_cons, List.cons_lt_cons_iff] at h
    rw [List.flatMap_cons, List.flatMap_cons]
    rcases h with lt | ⟨eq, h⟩
    · exact (encoded c).lt (encoded d) lt _ _
    · rw [Char.toNat_inj.1 eq]
      exact List.append_left_lt (bytes_lt h)

theorem compare_bytes : ∀ {x y : List UInt8}, x < y → compare x y = .lt
  | x, [], h => (List.not_lt_nil _ h).elim
  | [], b :: y, _ => rfl
  | a :: x, b :: y, h => by
    rw [List.compare_cons_cons, Ordering.then_eq_lt]
    rcases List.cons_lt_cons_iff.1 h with lt | ⟨rfl, tail⟩
    · exact .inl (if_pos lt)
    · exact .inr ⟨Std.ReflCmp.compare_self, compare_bytes tail⟩

theorem compareText_eq {s t : String} : compareText s t = .eq ↔ s = t := by
  rw [compareText, Std.LawfulEqCmp.compare_eq_iff_eq]
  constructor
  · intro h
    exact String.toByteArray_inj.1 (ByteArray.ext h)
  · rintro rfl
    rfl

theorem compareText_swap (s t : String) : compareText t s = (compareText s t).swap := by
  rw [compareText, compareText]
  exact Std.OrientedCmp.eq_swap

/-- The order of two texts is that of their code points, as of words in a dictionary. -/
theorem compareText_lt {s t : String} : compareText s t = .lt ↔ codePoints s < codePoints t := by
  have lt {s t : String} (h : codePoints s < codePoints t) : compareText s t = .lt := by
    rw [compareText, Array.compare_eq_compare_toList, bytes_eq, bytes_eq]
    exact compare_bytes (bytes_lt h)
  refine ⟨fun h => ?_, lt⟩
  rcases lt_trichotomy (codePoints s) (codePoints t) with less | same | greater
  · exact less
  · have : s = t := String.toList_inj.1 (List.map_injective_iff.2 (fun _ _ => Char.toNat_inj.1) same)
    rw [compareText_eq.2 this] at h
    cases h
  · rw [compareText_swap, lt greater] at h
    cases h

end SlotVM
