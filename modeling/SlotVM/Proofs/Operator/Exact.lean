/-
Operators on integers are exact, or raise a failure that the program can catch. `powerTimes_eq`: repeated squaring
overflows exactly if the power does not fit, whatever square it takes on the way. `integer_operators`: what the
instructions compute, for all pairs of words.
-/
import SlotVM.Machine.Advance
import SlotVM.Proofs.Assembly.Numerals
import SlotVM.Proofs.Machine.Holding
import Mathlib.Algebra.Order.Ring.Int
import Mathlib.Tactic.Linarith
import Mathlib.Tactic.Positivity

namespace SlotVM

/-! ## Words -/

/-- The integers that a word can hold. -/
def IsWord (n : Int) : Prop := -2 ^ 63 ≤ n ∧ n < 2 ^ 63

instance (n : Int) : Decidable (IsWord n) := inferInstanceAs (Decidable (_ ∧ _))

theorem isWord_toInt (w : Int64) : IsWord w.toInt := ⟨w.le_toInt, w.toInt_lt⟩

theorem fitted_toInt (symbol : Symbol) (w : Int64) : fitted symbol w.toInt = .ok w := by
  rw [fitted, Decimal.word?_toInt]

theorem fitted_of_isWord {n : Int} (symbol : Symbol) (h : IsWord n) :
    ∃ w : Int64, w.toInt = n ∧ fitted symbol n = .ok w := by
  have hn : (Int64.ofInt n).toInt = n := Int64.toInt_ofInt_of_le h.1 h.2
  have := fitted_toInt symbol (Int64.ofInt n)
  rw [hn] at this
  exact ⟨Int64.ofInt n, hn, this⟩

theorem fitted_of_not_isWord {n : Int} (symbol : Symbol) (h : ¬ IsWord n) :
    fitted symbol n = .error (.overflow symbol) := by
  have none : Decimal.word? n = none := if_neg fun ⟨low, high⟩ => h ⟨low, Int.lt_of_le_of_lt high (by decide)⟩
  rw [fitted, none]

theorem fitted_eq_ok {symbol : Symbol} {n : Int} {w : Int64} : fitted symbol n = .ok w ↔ w.toInt = n := by
  constructor
  · intro h
    by_cases fits : IsWord n
    · obtain ⟨w', hn, h'⟩ := fitted_of_isWord symbol fits
      rw [h'] at h
      cases h
      exact hn
    · rw [fitted_of_not_isWord symbol fits] at h; cases h
  · rintro rfl
    exact fitted_toInt symbol w

/-! ## Powers -/

/-- Multiplying what does not fit by a positive number gives what does not fit. -/
theorem not_isWord_mul {n c : Int} (h : ¬ IsWord n) (hc : 0 < c) : ¬ IsWord (n * c) := by
  unfold IsWord at h ⊢
  rintro ⟨low, high⟩
  rcases lt_or_ge n 0 with hn | hn
  · have : n * c ≤ n := by nlinarith
    omega
  · have : n ≤ n * c := by nlinarith
    omega

/-- A square that does not fit is more than `2 ^ 63`, which is no square. -/
theorem lt_sq_of_not_isWord {b : Int} (h : ¬ IsWord (b * b)) : 2 ^ 63 < b * b := by
  have nonneg : 0 ≤ b * b := mul_self_nonneg b
  unfold IsWord at h
  rcases lt_or_ge (2 ^ 63) (b * b) with lt | le
  · exact lt
  · -- the root of `2 ^ 63` lies between 3037000499 and 3037000500
    have eq : b * b = 2 ^ 63 := by omega
    have low : -3037000500 < b := by nlinarith
    have high : b < 3037000500 := by nlinarith
    have : b * b ≤ 3037000499 * 3037000499 := by nlinarith
    omega

/-- A square that does not fit is none that a product can do without. -/
theorem not_isWord_mul_sq {a b c : Int} (ha : a ≠ 0) (hb : ¬ IsWord (b * b)) (hc : 0 < c) :
    ¬ IsWord (a * (b * b * c)) := by
  have hsq := lt_sq_of_not_isWord hb
  have big : 2 ^ 63 < b * b * c := by nlinarith
  unfold IsWord
  rintro ⟨low, high⟩
  rcases Int.lt_or_gt_of_ne ha with neg | pos
  · have : a * (b * b * c) ≤ -(b * b * c) := by nlinarith
    omega
  · have : b * b * c ≤ a * (b * b * c) := by nlinarith
    omega

/-- The lowest bit of the exponent, and the others. -/
theorem pow_eq_mul_sq (b : Int) (exponent : Nat) : b ^ exponent = b ^ (exponent % 2) * (b * b) ^ (exponent / 2) := by
  rw [← sq, ← pow_mul, ← pow_add, Nat.mod_add_div]

/-- With the base zero the product is zero, or the number of before. -/
theorem ne_zero_of_not_isWord {acc base : Int64} {exponent : Nat}
    (h : ¬ IsWord (acc.toInt * base.toInt ^ (exponent % 2))) : base.toInt ≠ 0 := by
  intro hb
  apply h
  rcases Nat.mod_two_eq_zero_or_one exponent with even | odd
  · rw [even, pow_zero, mul_one]
    exact isWord_toInt acc
  · rw [odd, pow_one, hb, mul_zero]
    decide

/-- One round of repeated squaring. -/
theorem powerTimes_round (acc base : Int64) (exponent : Nat) : powerTimes acc base exponent =
    fitted .power (acc.toInt * base.toInt ^ (exponent % 2)) >>= fun product =>
      if exponent < 2 then .ok product
      else fitted .power (base.toInt * base.toInt) >>= fun square => powerTimes product square (exponent / 2) := by
  rw [powerTimes]
  rcases Nat.mod_two_eq_zero_or_one exponent with even | odd
  · rw [even, if_neg (by decide), pow_zero, mul_one, fitted_toInt]; rfl
  · rw [odd, if_pos rfl, pow_one]; rfl

/-- Repeated squaring computes the power exactly, or overflows if it does not fit. A base other than zero is never
multiplied to zero, so every square that is taken goes into the result. -/
theorem powerTimes_eq (acc base : Int64) (exponent : Nat) (h : base.toInt ≠ 0 → acc.toInt ≠ 0) :
    powerTimes acc base exponent = fitted .power (acc.toInt * base.toInt ^ exponent) := by
  induction exponent using Nat.strongRecOn generalizing acc base with
  | ind exponent ih =>
    have split : acc.toInt * base.toInt ^ exponent =
        acc.toInt * base.toInt ^ (exponent % 2) * (base.toInt * base.toInt) ^ (exponent / 2) := by
      rw [mul_assoc, ← pow_eq_mul_sq]
    rw [powerTimes_round]
    by_cases fits : IsWord (acc.toInt * base.toInt ^ (exponent % 2))
    · obtain ⟨product, hproduct, hfitted⟩ := fitted_of_isWord .power fits
      rw [hfitted, split, ← hproduct]
      show (if exponent < 2 then _ else _) = _
      have hne : base.toInt ≠ 0 → product.toInt ≠ 0 := by
        intro hb
        rw [hproduct]
        exact mul_ne_zero (h hb) (pow_ne_zero _ hb)
      rcases Nat.lt_or_ge exponent 2 with last | more
      · rw [Nat.div_eq_of_lt last, pow_zero, mul_one, fitted_toInt]
        exact if_pos last
      · rw [if_neg (Nat.not_lt.2 more)]
        by_cases squares : IsWord (base.toInt * base.toInt)
        · obtain ⟨square, hsquare, hfitted⟩ := fitted_of_isWord .power squares
          rw [hfitted, ← hsquare]
          refine ih (exponent / 2) (by omega) product square fun hs => hne fun hb => hs ?_
          rw [hsquare, hb, mul_zero]
        · -- at least one more bit is left, so the square is a factor of the power
          have hb : base.toInt ≠ 0 := fun hb => squares (by rw [hb]; decide)
          obtain ⟨n, hn⟩ : ∃ n, exponent / 2 = n + 1 := ⟨exponent / 2 - 1, by omega⟩
          have outside := not_isWord_mul_sq (hne hb) squares (pow_pos (mul_self_pos.2 hb) n)
          rw [fitted_of_not_isWord .power squares, hn, pow_succ', fitted_of_not_isWord .power outside]
          rfl
    · -- what is left to multiply by is positive, and brings nothing back into range
      have hb := ne_zero_of_not_isWord fits
      have outside := not_isWord_mul fits (pow_pos (mul_self_pos.2 hb) (exponent / 2))
      rw [fitted_of_not_isWord .power fits, split, fitted_of_not_isWord .power outside]
      rfl

/-! ## Quotients -/

/-- Only one quotient of words does not fit. -/
theorem isWord_tdiv {l r : Int64} (hr : r.toInt ≠ 0) :
    IsWord (l.toInt.tdiv r.toInt) ↔ ¬ (l.toInt = -2 ^ 63 ∧ r.toInt = -1) := by
  obtain ⟨low, high⟩ := isWord_toInt l
  unfold IsWord
  by_cases minus : r.toInt = -1
  · rw [minus, Int.tdiv_neg, Int.tdiv_one]
    omega
  by_cases one : r.toInt = 1
  · rw [one, Int.tdiv_one]
    omega
  · -- every other divisor halves the number at least
    have two : 2 ≤ r.toInt.natAbs := by omega
    have half : (l.toInt.tdiv r.toInt).natAbs ≤ l.toInt.natAbs / 2 := by
      rw [Int.natAbs_tdiv]
      exact Nat.div_le_div_left two (by decide)
    omega

theorem natAbs_tmod_lt (l : Int) {r : Int} (hr : r ≠ 0) : (l.tmod r).natAbs < r.natAbs := by
  rw [Int.natAbs_tmod]
  exact Nat.mod_lt _ (Int.natAbs_pos.2 hr)

theorem isWord_tmod (l : Int) {r : Int64} (hr : r.toInt ≠ 0) : IsWord (l.tmod r.toInt) := by
  obtain ⟨low, high⟩ := isWord_toInt r
  have := natAbs_tmod_lt l hr
  unfold IsWord
  omega

/-! ## Shifts -/

section
variable {l r : Int64}

theorem smod_amount (low : 0 ≤ r.toInt) (high : r.toInt < 64) : r.toBitVec.smod 64 = r.toBitVec := by
  apply BitVec.eq_of_toInt_eq
  rw [BitVec.toInt_smod]
  exact Int.fmod_eq_of_lt low high

theorem toNat_amount (low : 0 ≤ r.toInt) : r.toBitVec.toNat = r.toInt.toNat := by
  have h : r.toInt = _ := BitVec.toInt_eq_toNat_cond r.toBitVec
  have hlt := r.toBitVec.isLt
  split at h <;> omega

/-- A shift to the left multiplies, modulo `2 ^ 64`. -/
theorem toInt_shiftLeft (low : 0 ≤ r.toInt) (high : r.toInt < 64) :
    (l <<< r).toInt = (l.toInt * 2 ^ r.toInt.toNat).bmod (2 ^ 64) := by
  show (l <<< r).toBitVec.toInt = (l.toBitVec.toInt * _).bmod _
  rw [Int64.toBitVec_shiftLeft, smod_amount low high, BitVec.shiftLeft_eq', toNat_amount low, BitVec.toInt_shiftLeft,
    BitVec.toInt_eq_toNat_bmod l.toBitVec, Int.bmod_mul_bmod, Nat.shiftLeft_eq]
  push_cast
  rfl

/-- A shift to the right divides, rounding down. -/
theorem toInt_shiftRight (low : 0 ≤ r.toInt) (high : r.toInt < 64) :
    (l >>> r).toInt = l.toInt.fdiv (2 ^ r.toInt.toNat) := by
  show (l >>> r).toBitVec.toInt = l.toBitVec.toInt.fdiv _
  rw [Int64.toBitVec_shiftRight, smod_amount low high, BitVec.sshiftRight_eq', toNat_amount low,
    BitVec.toInt_sshiftRight, Int.shiftRight_eq_div_pow, Int.fdiv_eq_ediv_of_nonneg _ (by positivity)]
  push_cast
  rfl

end

/-! ## Instructions -/

/-- What an operator with an integer result computes. -/
def computedWord (r : Except Raised Int64) : Except Failure Computed :=
  match r with
  | .ok w => .ok (.pure (.integer w))
  | .error failure => .error (.raised failure)

/-- The outcome is the number `n`, or an overflow if it does not fit. -/
structure ExactOr (symbol : Symbol) (n : Int) (outcome : Except Failure Computed) : Prop where
  fits : IsWord n → ∃ w : Int64, w.toInt = n ∧ outcome = .ok (.pure (.integer w))
  overflows : ¬ IsWord n → outcome = .error (.raised (.overflow symbol))

theorem exactOr_fitted (symbol : Symbol) (n : Int) : ExactOr symbol n (computedWord (fitted symbol n)) := by
  constructor
  · intro fits
    obtain ⟨w, hw, hfitted⟩ := fitted_of_isWord symbol fits
    exact ⟨w, hw, by rw [hfitted]; rfl⟩
  · intro overflows
    rw [fitted_of_not_isWord symbol overflows]; rfl

/-- Division with remainder, of `l` by `r`: the quotient is rounded toward zero, and the remainder has the sign
of `l`. -/
structure Divides (l r : Int) (quotient remainder : Except Failure Computed) : Prop where
  byZero : r = 0 → quotient = .error (.raised .divisionByZero) ∧ remainder = .error (.raised .divisionByZero)
  overflows : l = -2 ^ 63 ∧ r = -1 →
    quotient = .error (.raised (.overflow .slash)) ∧ remainder = .error (.raised (.overflow .percent))
  exact : r ≠ 0 → ¬ (l = -2 ^ 63 ∧ r = -1) → ∃ q m : Int64, quotient = .ok (.pure (.integer q)) ∧
    remainder = .ok (.pure (.integer m)) ∧ q.toInt = l.tdiv r ∧ m.toInt = l.tmod r ∧
    l = q.toInt * r + m.toInt ∧ m.toInt.natAbs < r.natAbs ∧ (m.toInt = 0 ∨ m.toInt.sign = l.sign)

/-- Shifts of `l` by `r` places. -/
structure ShiftsBy (l r : Int64) (left right : Except Failure Computed) : Prop where
  outside : ¬ (0 ≤ r.toInt ∧ r.toInt ≤ 63) →
    left = .error (.raised (.shiftAmount r)) ∧ right = .error (.raised (.shiftAmount r))
  exact : 0 ≤ r.toInt → r.toInt ≤ 63 → ∃ w v : Int64, left = .ok (.pure (.integer w)) ∧
    right = .ok (.pure (.integer v)) ∧ w.toInt = (l.toInt * 2 ^ r.toInt.toNat).bmod (2 ^ 64) ∧
    v.toInt = l.toInt.fdiv (2 ^ r.toInt.toNat)

namespace Machine

/-- The operator `symbol` adds `delta` to the number `l` in the slot `ref`. Before the operand it yields the sum, and
after the operand the number. If the sum does not fit, the slot keeps the number. -/
structure StepsBy (m : Machine) (ref : Nat) (l : Int64) (symbol : Symbol) (delta : Int) : Prop where
  fits : IsWord (l.toInt + delta) → ∃ w : Int64, w.toInt = l.toInt + delta ∧
    m.evaluate (.unary ⟨symbol, .before⟩ ref) = .ok ⟨.integer w, some (ref, .integer w)⟩ ∧
    m.evaluate (.unary ⟨symbol, .after⟩ ref) = .ok ⟨.integer l, some (ref, .integer w)⟩
  overflows : ¬ IsWord (l.toInt + delta) → ∀ fixity, fixity = .before ∨ fixity = .after →
    m.evaluate (.unary ⟨symbol, fixity⟩ ref) = .error (.raised (.overflow .plus)) ∧
      ∀ p target, ∃ es y, m.perform p (.assign target (.unary ⟨symbol, fixity⟩ ref)) = ⟨es, .ok y⟩ ∧ y.slots = m.slots

/-- Every operator that takes integers as numbers, on the slots `a` and `b`. -/
def numericSources (a b : Nat) : List Source :=
  [Symbol.plus, .minus, .star, .slash, .percent, .power, .shiftLeft, .shiftRight].map
      (fun symbol => .binary a ⟨symbol, .between⟩ b) ++
    [OperatorKey.mk .minus .before, ⟨.increment, .before⟩, ⟨.decrement, .before⟩, ⟨.increment, .after⟩,
      ⟨.decrement, .after⟩].map fun key => .unary key a

/-- What the operators compute of the number `l` in the slot `a` and the number `r` in the slot `b`. -/
structure IntegerOperators (m : Machine) (a b : Nat) (l r : Int64) : Prop where
  add : ExactOr .plus (l.toInt + r.toInt) (m.evaluate (.binary a ⟨.plus, .between⟩ b))
  sub : ExactOr .minus (l.toInt - r.toInt) (m.evaluate (.binary a ⟨.minus, .between⟩ b))
  mul : ExactOr .star (l.toInt * r.toInt) (m.evaluate (.binary a ⟨.star, .between⟩ b))
  div : Divides l.toInt r.toInt (m.evaluate (.binary a ⟨.slash, .between⟩ b))
    (m.evaluate (.binary a ⟨.percent, .between⟩ b))
  pow_neg : r.toInt < 0 → m.evaluate (.binary a ⟨.power, .between⟩ b) = .error (.raised .negativeExponent)
  pow : 0 ≤ r.toInt → ExactOr .power (l.toInt ^ r.toInt.toNat) (m.evaluate (.binary a ⟨.power, .between⟩ b))
  shift : ShiftsBy l r (m.evaluate (.binary a ⟨.shiftLeft, .between⟩ b))
    (m.evaluate (.binary a ⟨.shiftRight, .between⟩ b))
  neg : ExactOr .minus (-l.toInt) (m.evaluate (.unary ⟨.minus, .before⟩ a))
  increment : StepsBy m a l .increment 1
  decrement : StepsBy m a l .decrement (-1)
  /-- A failure is never a fault. -/
  catchable : ∀ source ∈ numericSources a b, ∀ cause, m.evaluate source ≠ .error (.fault cause)

variable {m : Machine} {a b : Nat} {l r : Int64} {key : OperatorKey}

theorem evaluate_binary {f : Value → Value → Except Failure Value} {result : Except Raised Int64}
    (op : key.operation? = some (.binary f)) (left : m.slots.get? a = some (.integer l))
    (right : m.slots.get? b = some (.integer r)) (word : f (.integer l) (.integer r) = ofRaised (result.map .integer)) :
    m.evaluate (.binary a key b) = computedWord result := by
  show key.execute m.slots [a, b] = _
  rw [OperatorKey.execute_binary op left right, word]
  cases result <;> rfl

theorem evaluate_unary {f : Value → Except Failure Value} {result : Except Raised Int64}
    (op : key.operation? = some (.unary f)) (operand : m.slots.get? a = some (.integer l))
    (word : f (.integer l) = ofRaised (result.map .integer)) : m.evaluate (.unary key a) = computedWord result := by
  show key.execute m.slots [a] = _
  simp only [OperatorKey.execute, op, Operation.run, Slots.read_eq_ok.2 operand, ofCause]
  show f (.integer l) >>= _ = _
  rw [word]
  cases result <;> rfl

theorem evaluate_step {symbol : Symbol} {delta : Int} {old : Bool} (op : key.operation? = some (.step symbol delta old))
    (operand : m.slots.get? a = some (.integer l)) : m.evaluate (.unary key a) =
      (ofRaised (fitted .plus (l.toInt + delta))).map
        fun sum => ⟨.integer (if old then l else sum), some (a, .integer sum)⟩ := by
  show key.execute m.slots [a] = _
  simp only [OperatorKey.execute, op, Operation.run, Slots.read_eq_ok.2 operand, ofCause]
  show ofRaised (fitted .plus (l.toInt + delta)) >>= _ = _
  cases fitted .plus (l.toInt + delta) <;> rfl

/-- A raised failure is thrown as a string, and leaves everything else alone. -/
theorem perform_raised (p : Program) {instruction : Instruction} {failure : Raised}
    (raised : m.Raises failure instruction) : m.perform p instruction =
      ⟨[.raised m.function m.pc failure, .thrown (.string failure.message) m.slots],
        .ok (m.throw (.string failure.message))⟩ := by
  cases instruction with
  | assign | setField | setIndex | setConstant =>
    rw [perform, show _ = _ from raised]; rfl
  | _ => exact raised.elim

theorem stepsBy {symbol : Symbol} {delta : Int} (operand : m.slots.get? a = some (.integer l))
    (before : (⟨symbol, .before⟩ : OperatorKey).operation? = some (.step symbol delta false))
    (after : (⟨symbol, .after⟩ : OperatorKey).operation? = some (.step symbol delta true)) :
    StepsBy m a l symbol delta := by
  constructor
  · intro fits
    obtain ⟨w, hw, hfitted⟩ := fitted_of_isWord .plus fits
    refine ⟨w, hw, ?_, ?_⟩
    · rw [evaluate_step before operand, hfitted]; rfl
    · rw [evaluate_step after operand, hfitted]; rfl
  · intro overflows fixity hfixity
    have failed : m.evaluate (.unary ⟨symbol, fixity⟩ a) = .error (.raised (.overflow .plus)) := by
      rcases hfixity with rfl | rfl
      · rw [evaluate_step before operand, fitted_of_not_isWord .plus overflows]; rfl
      · rw [evaluate_step after operand, fitted_of_not_isWord .plus overflows]; rfl
    refine ⟨failed, fun p target => ?_⟩
    have raised : m.Raises (.overflow .plus) (.assign target (.unary ⟨symbol, fixity⟩ a)) := failed
    exact ⟨_, _, perform_raised p raised, rfl⟩

theorem divides (left : m.slots.get? a = some (.integer l)) (right : m.slots.get? b = some (.integer r)) :
    Divides l.toInt r.toInt (m.evaluate (.binary a ⟨.slash, .between⟩ b))
      (m.evaluate (.binary a ⟨.percent, .between⟩ b)) := by
  have zero : r = 0 ↔ r.toInt = 0 := by rw [← Int64.toInt_inj]; rfl
  have div : m.evaluate (.binary a ⟨.slash, .between⟩ b) = computedWord (Arithmetic.div.integer l r) :=
    evaluate_binary rfl left right rfl
  have rem : m.evaluate (.binary a ⟨.percent, .between⟩ b) = computedWord (Arithmetic.rem.integer l r) :=
    evaluate_binary rfl left right rfl
  rw [div, rem, Arithmetic.integer, Arithmetic.integer]
  constructor
  · intro hr
    rw [if_pos (zero.2 hr), if_pos (zero.2 hr)]
    exact ⟨rfl, rfl⟩
  · intro extreme
    have hr : r.toInt ≠ 0 := by omega
    have overflows : ¬ IsWord (l.toInt.tdiv r.toInt) := fun fits => (isWord_tdiv hr).1 fits extreme
    rw [if_neg (hr ∘ zero.1), if_neg (hr ∘ zero.1), fitted_of_not_isWord .slash overflows,
      fitted_of_not_isWord .percent overflows]
    exact ⟨rfl, rfl⟩
  · intro hr fits
    obtain ⟨q, hq, hquotient⟩ := fitted_of_isWord .slash ((isWord_tdiv hr).2 fits)
    obtain ⟨_, _, hquotient'⟩ := fitted_of_isWord .percent ((isWord_tdiv hr).2 fits)
    obtain ⟨w, hw, hremainder⟩ := fitted_of_isWord .percent (isWord_tmod l.toInt hr)
    rw [if_neg (hr ∘ zero.1), if_neg (hr ∘ zero.1), hquotient, hquotient', hremainder]
    refine ⟨q, w, rfl, rfl, hq, hw, ?_, hw ▸ natAbs_tmod_lt _ hr, ?_⟩
    · rw [hq, hw, Int.tdiv_mul_add_tmod]
    · have hsign := Int.sign_tmod l.toInt r.toInt
      rw [← hw] at hsign
      split at hsign
      · exact .inl (Int.sign_eq_zero_iff_zero.1 hsign)
      · exact .inr hsign

theorem shiftsBy (left : m.slots.get? a = some (.integer l)) (right : m.slots.get? b = some (.integer r)) :
    ShiftsBy l r (m.evaluate (.binary a ⟨.shiftLeft, .between⟩ b))
      (m.evaluate (.binary a ⟨.shiftRight, .between⟩ b)) := by
  have within : (0 ≤ r ∧ r < 64) ↔ 0 ≤ r.toInt ∧ r.toInt ≤ 63 := by
    rw [Int64.le_iff_toInt_le, Int64.lt_iff_toInt_lt]
    show 0 ≤ r.toInt ∧ r.toInt < 64 ↔ _
    omega
  have shl : m.evaluate (.binary a ⟨.shiftLeft, .between⟩ b) = computedWord (Shift.left.integer l r) :=
    evaluate_binary rfl left right rfl
  have shr : m.evaluate (.binary a ⟨.shiftRight, .between⟩ b) = computedWord (Shift.right.integer l r) :=
    evaluate_binary rfl left right rfl
  rw [shl, shr, Shift.integer, Shift.integer]
  constructor
  · intro outside
    rw [if_neg (outside ∘ within.1), if_neg (outside ∘ within.1)]
    exact ⟨rfl, rfl⟩
  · intro low high
    rw [if_pos (within.2 ⟨low, high⟩), if_pos (within.2 ⟨low, high⟩)]
    exact ⟨l <<< r, l >>> r, rfl, rfl, toInt_shiftLeft low (by omega), toInt_shiftRight low (by omega)⟩

/-- For every pair of words: the operators are exact where the result fits, and raise a failure that the program can
catch where it does not. -/
theorem integer_operators (left : m.slots.get? a = some (.integer l)) (right : m.slots.get? b = some (.integer r)) :
    IntegerOperators m a b l r := by
  have pow : m.evaluate (.binary a ⟨.power, .between⟩ b) = computedWord (Arithmetic.pow.integer l r) :=
    evaluate_binary rfl left right rfl
  have negative : r < 0 ↔ r.toInt < 0 := Int64.lt_iff_toInt_lt
  constructor
  · rw [evaluate_binary rfl left right rfl]
    exact exactOr_fitted ..
  · rw [evaluate_binary rfl left right rfl]
    exact exactOr_fitted ..
  · rw [evaluate_binary rfl left right rfl]
    exact exactOr_fitted ..
  · exact divides left right
  · intro neg
    rw [pow, Arithmetic.integer, if_pos (negative.2 neg)]; rfl
  · intro nonneg
    rw [pow, Arithmetic.integer, if_neg (fun h => absurd (negative.1 h) (Int.not_lt.2 nonneg)),
      powerTimes_eq 1 l _ (fun _ => by decide), show (1 : Int64).toInt = 1 from rfl, one_mul]
    exact exactOr_fitted ..
  · exact shiftsBy left right
  · rw [evaluate_unary rfl left rfl]
    exact exactOr_fitted ..
  · exact stepsBy left rfl rfl
  · exact stepsBy left rfl rfl
  · -- what an operator computes of words is a word or a failure that is raised, never a fault
    have word {source : Source} {result : Except Raised Int64} (h : m.evaluate source = computedWord result)
        (cause : Cause) : m.evaluate source ≠ .error (.fault cause) := by
      rw [h]
      cases result <;> exact nofun
    have step {key : OperatorKey} {symbol : Symbol} {delta : Int} {old : Bool}
        (op : key.operation? = some (.step symbol delta old)) (cause : Cause) :
        m.evaluate (.unary key a) ≠ .error (.fault cause) := by
      rw [evaluate_step op left]
      cases fitted .plus (l.toInt + delta) <;> exact nofun
    have binary {key : OperatorKey} {f : Value → Value → Except Failure Value} {result : Except Raised Int64}
        (op : key.operation? = some (.binary f)) (h : f (.integer l) (.integer r) = ofRaised (result.map .integer)) :
        ∀ cause, m.evaluate (.binary a key b) ≠ .error (.fault cause) :=
      word (evaluate_binary op left right h)
    simp only [numericSources, List.map_cons, List.map_nil, List.cons_append, List.nil_append, List.forall_mem_cons]
    exact ⟨binary rfl rfl, binary rfl rfl, binary rfl rfl, binary rfl rfl, binary rfl rfl, binary rfl rfl,
      binary rfl rfl, binary rfl rfl, word (evaluate_unary rfl left rfl), step rfl, step rfl, step rfl, step rfl,
      nofun⟩

/-- The least word is a power. One square more than it needs would not fit. -/
theorem integer_operators_power : ∃ m : Machine, m.slots.get? 0 = some (.integer (-2)) ∧
    m.slots.get? 1 = some (.integer 63) ∧
    m.evaluate (.binary 0 ⟨.power, .between⟩ 1) = .ok (.pure (.integer Int64.minValue)) := by
  let slots := ((Slots.empty 2).write 0 (.integer (-2))).write 1 (.integer 63)
  let m : Machine := { (default : Machine) with slots }
  have left : m.slots.get? 0 = some (.integer (-2)) := rfl
  have right : m.slots.get? 1 = some (.integer 63) := rfl
  have pow := (integer_operators left right).pow (by decide)
  obtain ⟨w, hw, result⟩ := pow.fits (by decide)
  have least : w = Int64.minValue := Int64.toInt_inj.1 (hw.trans (by decide))
  exact ⟨m, left, right, least ▸ result⟩

end Machine

end SlotVM
