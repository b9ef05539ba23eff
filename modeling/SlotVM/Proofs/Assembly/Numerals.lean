/-
Decimal numbers as words of program text. A number that is written in decimal is read back if it fits into its
width (`unsigned?_toString`, `signed?_toString`), and whatever is read as a number is one word.
-/
import SlotVM.Decimal.FloatText
import SlotVM.Proofs.Assembly.Spelling

namespace SlotVM.Decimal

/-! ## Natural numbers -/

theorem toList_toString (n : Nat) : (toString n).toList = Nat.toDigits 10 n := by
  rw [Nat.toString_eq_ofList_toDigits, String.toList_ofList]

theorem isDigit_of_mem_toString {n : Nat} {c : Char} (h : c ∈ (toString n).toList) : c.isDigit = true := by
  rw [toList_toString] at h
  exact Nat.isDigit_of_mem_toDigits (by decide) (by decide) h

theorem toString_ne_nil (n : Nat) : (toString n).toList ≠ [] := by
  rw [toList_toString]
  exact Nat.toDigits_ne_nil

theorem digits?_toString (n : Nat) : digits? (toString n).toList = some n := by
  have digits : (toString n).toList.all Char.isDigit = true := List.all_eq_true.2 fun c => isDigit_of_mem_toString
  rw [digits?, if_pos ⟨toString_ne_nil n, digits⟩, toList_toString, Nat.ofDigitChars_ten_toDigits]

/-- The text of a number begins with a digit, so with no sign. -/
theorem toString_cons (n : Nat) : ∃ c cs, (toString n).toList = c :: cs ∧ c ≠ '+' ∧ c ≠ '-' := by
  obtain ⟨c, cs, chars⟩ := List.exists_cons_of_ne_nil (toString_ne_nil n)
  have digit : c.isDigit = true := isDigit_of_mem_toString (chars ▸ List.mem_cons_self ..)
  refine ⟨c, cs, chars, ?_, ?_⟩
  all_goals
    rintro rfl
    exact absurd digit (by decide)

theorem unsigned?_toString {n : Nat} (h : n < unsignedLimit) : unsigned? (toString n) = some n := by
  obtain ⟨c, cs, chars, plus, -⟩ := toString_cons n
  have read := digits?_toString n
  rw [chars] at read
  unfold unsigned?
  rw [chars]
  split
  · rename_i heq
    cases heq
    exact absurd rfl plus
  · rw [read]
    simp [h]

/-! ## Integers -/

theorem word?_toInt (n : Int64) : word? n.toInt = some n := by
  have low : Int64.minValue.toInt ≤ n.toInt := n.minValue_le_toInt
  have high : n.toInt ≤ Int64.maxValue.toInt := n.toInt_le
  rw [word?, if_pos ⟨low, high⟩, Int64.ofInt_toInt]

theorem toList_intToString (n : Int) : (toString n).toList =
    if 0 ≤ n then (toString n.toNat).toList else '-' :: (toString (-n).toNat).toList := by
  show n.repr.toList = _
  rw [Int.repr_eq_if]
  split
  · rfl
  · rw [String.toList_append]; rfl

theorem signed?_toString (n : Int64) : signed? (toString n.toInt) = some n := by
  unfold signed?
  rw [toList_intToString]
  by_cases sign : 0 ≤ n.toInt
  · rw [if_pos sign]
    obtain ⟨c, cs, chars, plus, minus⟩ := toString_cons n.toInt.toNat
    have read := digits?_toString n.toInt.toNat
    rw [chars] at read ⊢
    split
    · rename_i heq
      cases heq
      exact absurd rfl plus
    · rename_i heq
      cases heq
      exact absurd rfl minus
    · rw [read]
      show word? (n.toInt.toNat : Int) = _
      rw [Int.toNat_of_nonneg sign, word?_toInt]
  · rw [if_neg sign]
    show (digits? _).bind _ = _
    rw [digits?_toString]
    show word? (-((-n.toInt).toNat : Int)) = _
    rw [Int.toNat_of_nonneg (by omega), Int.neg_neg, word?_toInt]

end SlotVM.Decimal

namespace SlotVM.Assembly

open Decimal

/-! ## Words -/

/-- The characters of numbers: letters, digits, signs and the point. -/
def isNumeric (c : Char) : Bool := c.isAlphanum || c == '+' || c == '-' || c == '.'

theorem isNumeric_of_isDigit {c : Char} (h : c.isDigit = true) : isNumeric c = true := by
  have alphanumeric : c.isAlphanum = true := Bool.or_eq_true_iff.2 (.inr h)
  simp [isNumeric, alphanumeric]

theorem isNumeric_of_isAlpha {c : Char} (h : c.isAlpha = true) : isNumeric c = true := by
  have alphanumeric : c.isAlphanum = true := Bool.or_eq_true_iff.2 (.inl h)
  simp [isNumeric, alphanumeric]

theorem isDigit_range {c : Char} (h : c.isDigit = true) : 48 ≤ c.toNat ∧ c.toNat ≤ 57 := by
  simp only [Char.isDigit, Bool.and_eq_true, decide_eq_true_eq, UInt32.le_iff_toNat_le] at h
  exact h

theorem ascii_of_isAlphanum {c : Char} (h : c.isAlphanum = true) : 48 ≤ c.toNat ∧ c.toNat ≤ 122 := by
  have classes : ((c.isUpper || c.isLower) || c.isDigit) = true := h
  simp only [Bool.or_eq_true] at classes
  rcases classes with (upper | lower) | digit
  · obtain ⟨low, high⟩ : 'A'.val ≤ c.val ∧ c.val ≤ 'Z'.val := of_decide_eq_true upper
    have low : 65 ≤ c.toNat := UInt32.le_iff_toNat_le.1 low
    have high : c.toNat ≤ 90 := UInt32.le_iff_toNat_le.1 high
    omega
  · obtain ⟨low, high⟩ := Bool.and_eq_true_iff.1 lower
    have low : 97 ≤ c.toNat := UInt32.le_iff_toNat_le.1 (of_decide_eq_true low)
    have high : c.toNat ≤ 122 := UInt32.le_iff_toNat_le.1 (of_decide_eq_true high)
    omega
  · obtain ⟨low, high⟩ := isDigit_range digit
    omega

/-- They belong to words, and begin no literal. -/
theorem word_of_isNumeric {c : Char} (h : isNumeric c = true) : isWordChar c = true ∧ quoteOf? c = none := by
  have range : 0x20 < c.toNat ∧ c.toNat < 0x7F := by
    simp only [isNumeric, Bool.or_eq_true, beq_iff_eq] at h
    rcases h with ((alphanumeric | rfl) | rfl) | rfl
    · have := ascii_of_isAlphanum alphanumeric
      omega
    all_goals decide
  have ne (d : Char) (hd : isNumeric d = false) : c ≠ d := by
    rintro rfl
    rw [h] at hd
    cases hd
  constructor
  · exact isWordChar_of_ascii range.1 range.2 (ne ',' (by decide)) (ne '#' (by decide))
  · rw [quoteOf?, if_neg (ne '"' (by decide)), if_neg (ne '\'' (by decide))]

theorem isWord_of_numeric {cs : List Char} (ne : cs ≠ []) (h : ∀ c ∈ cs, isNumeric c = true) : IsWord cs :=
  ⟨ne, fun c mem => (word_of_isNumeric (h c mem)).1, fun c mem => (word_of_isNumeric (h c (List.mem_of_mem_head? mem))).2⟩

theorem isWord_toString (n : Nat) : IsWord (toString n).toList :=
  isWord_of_numeric (toString_ne_nil n) fun _ mem => isNumeric_of_isDigit (isDigit_of_mem_toString mem)

theorem isWord_intToString (n : Int) : IsWord (toString n).toList := by
  rw [toList_intToString]
  split
  · exact isWord_toString _
  · refine isWord_of_numeric (List.cons_ne_nil _ _) (List.forall_mem_cons.2 ⟨by decide, ?_⟩)
    exact fun _ mem => isNumeric_of_isDigit (isDigit_of_mem_toString mem)

/-! ## Floating-point numbers -/

theorem numeric_of_digits? {cs : List Char} {n : Nat} (h : digits? cs = some n) :
    cs ≠ [] ∧ ∀ c ∈ cs, isNumeric c = true := by
  unfold digits? at h
  split at h
  · rename_i digits
    exact ⟨digits.1, fun c mem => isNumeric_of_isDigit (List.all_eq_true.1 digits.2 c mem)⟩
  · cases h

theorem mem_splitSign {cs : List Char} {c : Char} (h : c ∈ cs) : isNumeric c = true ∨ c ∈ (splitSign cs).2 := by
  unfold splitSign
  split
  · rcases List.mem_cons.1 h with rfl | h
    · exact .inl (by decide)
    · exact .inr h
  · rcases List.mem_cons.1 h with rfl | h
    · exact .inl (by decide)
    · exact .inr h
  · exact .inr h

theorem numeric_of_exponentPart? {cs : List Char} {e : Int} (h : exponentPart? cs = some e) :
    ∀ c ∈ cs, isNumeric c = true := by
  cases cs with
  | nil => exact List.forall_mem_nil _
  | cons mark cs =>
    change (if mark = 'e' ∨ mark = 'E' then exponent? cs else none) = some e at h
    split at h
    · rename_i is_mark
      simp only [exponent?] at h
      obtain ⟨n, number, -⟩ := Option.map_eq_some_iff.1 h
      obtain ⟨k, digits, -⟩ := Option.bind_eq_some_iff.1 number
      refine List.forall_mem_cons.2 ⟨?_, fun c mem => ?_⟩
      · rcases is_mark with rfl | rfl <;> decide
      · exact (mem_splitSign mem).elim id ((numeric_of_digits? digits).2 c)
    · cases h

/-- Digits, perhaps a point with more digits, and an exponent. -/
theorem numeric_of_unsignedFloat? {cs : List Char} {x : Float} (h : unsignedFloat? cs = some x) :
    cs ≠ [] ∧ ∀ c ∈ cs, isNumeric c = true := by
  obtain ⟨point, fraction, rest, chars, hpoint, ⟨mantissa, digits⟩, e, exponent⟩ : ∃ point fraction rest,
      cs.dropWhile Char.isDigit = point ++ (fraction ++ rest) ∧ (∀ c ∈ point, isNumeric c = true) ∧
        (∃ mantissa, digits? (cs.takeWhile Char.isDigit ++ fraction) = some mantissa) ∧
          ∃ e, exponentPart? rest = some e := by
    simp only [unsignedFloat?] at h
    split at h
    · rename_i mantissa e digits exponent
      clear h
      revert digits exponent
      split
      · rename_i more heq
        intro digits exponent
        exact ⟨['.'], _, _, by rw [heq, List.takeWhile_append_dropWhile]; rfl,
          List.forall_mem_singleton.2 (by decide), ⟨_, digits⟩, _, exponent⟩
      · intro digits exponent
        exact ⟨[], [], _, rfl, nofun, ⟨_, digits⟩, _, exponent⟩
    · cases h
  obtain ⟨ne, numeric⟩ := numeric_of_digits? digits
  rw [← List.takeWhile_append_dropWhile (p := Char.isDigit) (l := cs), chars]
  constructor
  · simp only [ne_eq, List.append_eq_nil_iff] at ne ⊢
    tauto
  · intro c mem
    simp only [List.mem_append] at mem numeric
    rcases mem with mem | mem | mem | mem
    · exact numeric c (.inl mem)
    · exact hpoint c mem
    · exact numeric c (.inr mem)
    · exact numeric_of_exponentPart? exponent c mem

theorem isAlpha_of_toLower {c : Char} (h : c.toLower.isLower = true) : c.isAlpha = true := by
  unfold Char.toLower at h
  split at h
  · rename_i upper
    exact Bool.or_eq_true_iff.2 (.inl (decide_eq_true upper))
  · exact Bool.or_eq_true_iff.2 (.inr h)

/-- A word that is read in any case. -/
theorem numeric_of_toLower {cs : List Char} {name : String} (h : String.ofList (cs.map Char.toLower) = name)
    (ne : name.toList ≠ []) (letters : name.toList.all Char.isLower = true) :
    cs ≠ [] ∧ ∀ c ∈ cs, isNumeric c = true := by
  subst h
  rw [String.toList_ofList] at ne letters
  refine ⟨fun empty => ne (by rw [empty]; rfl), fun c mem => ?_⟩
  exact isNumeric_of_isAlpha (isAlpha_of_toLower (List.all_eq_true.1 letters _ (List.mem_map_of_mem mem)))

/-- What is read as a floating-point number is a word. -/
theorem isWord_of_float? {text : String} {x : Float} (h : float? text = some x) : IsWord text.toList := by
  simp only [float?] at h
  obtain ⟨magnitude, h, -⟩ := Option.map_eq_some_iff.1 h
  obtain ⟨ne, numeric⟩ : (splitSign text.toList).2 ≠ [] ∧ ∀ c ∈ (splitSign text.toList).2, isNumeric c = true := by
    split at h
    · rename_i infinite
      rcases infinite with inf | infinity
      · exact numeric_of_toLower inf (by decide) (by decide)
      · exact numeric_of_toLower infinity (by decide) (by decide)
    · split at h
      · rename_i nan
        exact numeric_of_toLower nan (by decide) (by decide)
      · exact numeric_of_unsignedFloat? h
  refine isWord_of_numeric (fun empty => ne (by rw [empty]; rfl)) fun c mem => ?_
  exact (mem_splitSign mem).elim id (numeric c)

end SlotVM.Assembly
