import TypedConfig.Decimal.Layout
import TypedConfig.Proofs.Decimal.Rational
import TypedConfig.Proofs.Decimal.Shortest
import TypedConfig.Proofs.Expression.Spacing
import TypedConfig.Proofs.Expression.WrittenNumber

/-!
# Pointed texts of doubles are read back

The pointed form of a finite double is a numeral, maybe after a minus sign, and the decimal that it
stands for rounds to the double. So its value as an expression is the double
(`evaluate_pointedText`).
-/

namespace TypedConfig.Expression.Arithmetic

open Text Decimal

/-! ### Numerals as texts -/

theorem tokensFrom_numeral_self {cs : List Char} {d : Decimal} (h : Numeral cs d)
    (position : Nat) : tokensFrom position cs = .ok [(position, .operand d.toFloat)] := by
  simpa using tokensFrom_numeral h (List.forall_mem_nil _) (List.forall_mem_nil _) position

theorem evaluate_numeral {text : String} {d : Decimal} (h : Numeral text.toList d) :
    evaluate text = .ok d.toFloat := by
  rw [evaluate, tokensFrom_numeral_self h]
  rfl

theorem evaluate_neg_numeral {text : String} {cs : List Char} {d : Decimal}
    (htext : text.toList = '-' :: cs) (h : Numeral cs d) : evaluate text = .ok (-d.toFloat) := by
  rw [evaluate, htext, tokensFrom]
  simp only [tokensFrom_numeral_self h]
  rfl

/-! ### Layouts -/

theorem value_zeros_append (n : ℕ) (cs : List Char) : value (zeroDigits n ++ cs) = value cs := by
  rw [value, zeroDigits, Nat.ofDigitChars_append, Nat.ofDigitChars_replicate_zero, Nat.mul_zero, value]

theorem value_append_zeros (cs : List Char) (n : ℕ) : value (cs ++ zeroDigits n) = 10 ^ n * value cs := by
  rw [value, zeroDigits, Nat.ofDigitChars_append, Nat.ofDigitChars_replicate_zero, value]

theorem value_digits (n : ℕ) : value (digits n) = n := Nat.ofDigitChars_ten_toDigits

/-- A decimal in positional form is a numeral of the same value. -/
theorem exists_numeral_positional (d : Decimal) :
    ∃ d', Numeral (positional d []) d' ∧ d'.toRat = d.toRat := by
  obtain ⟨c, e⟩ := d
  simp only [positional]
  split
  · next he =>
    lift e to ℕ using he
    have hdigits : ∀ a ∈ digits c ++ zeroDigits e, a.isDigit = true := by
      intro a ha
      exact (List.mem_append.1 ha).elim isDigit_of_mem_digits isDigit_of_mem_zeroDigits
    refine ⟨_, .whole hdigits (by simp [digits_ne_nil]) .none, ?_⟩
    simp only [toRat, Int.toNat_natCast, value_append_zeros, value_digits, zpow_zero, zpow_natCast]
    push_cast
    ring
  · next he =>
    generalize hds : zeroDigits ((-e).toNat + 1 - (digits c).length) ++ digits c = ds
    have hdigits : ∀ a ∈ ds, a.isDigit = true := by
      subst hds
      intro a ha
      exact (List.mem_append.1 ha).elim isDigit_of_mem_zeroDigits isDigit_of_mem_digits
    have hlen : (-e).toNat < ds.length := by
      rw [← hds, List.length_append, zeroDigits, List.length_replicate]
      omega
    have hvalue : value ds = c := by rw [← hds, value_zeros_append, value_digits]
    have hplaces : (ds.drop (ds.length - (-e).toNat)).length = (-e).toNat := by
      rw [List.length_drop]
      omega
    have hne : ds.take (ds.length - (-e).toNat) ≠ [] := by
      rw [← List.length_pos_iff, List.length_take]
      omega
    have hbefore : ∀ a ∈ ds.take (ds.length - (-e).toNat), a.isDigit = true :=
      fun a ha => hdigits a (List.mem_of_mem_take ha)
    have hafter : ∀ a ∈ ds.drop (ds.length - (-e).toNat), a.isDigit = true :=
      fun a ha => hdigits a (List.mem_of_mem_drop ha)
    have hpoint := Numeral.point hbefore hafter (.inl hne) .none
    rw [List.append_nil, List.take_append_drop, hvalue, hplaces] at hpoint
    refine ⟨_, hpoint, ?_⟩
    simp only [toRat]
    congr 2
    omega

/-- A whole number with `.0` after it is a numeral of this value. -/
theorem exists_numeral_whole (n : ℕ) : ∃ d, Numeral (digits n ++ ['.', '0']) d ∧ d.toRat = n := by
  have hpoint := Numeral.point (fun a (ha : a ∈ digits n) => isDigit_of_mem_digits ha)
    (fun a (ha : a ∈ zeroDigits 1) => isDigit_of_mem_zeroDigits ha) (.inl (digits_ne_nil n)) .none
  rw [value_append_zeros, value_digits, List.append_nil] at hpoint
  refine ⟨_, hpoint, ?_⟩
  rw [toRat, zeroDigits, List.length_replicate]
  norm_num
  ring

/-! ### Doubles -/

/-- The pointed text of a double, without its sign, is a numeral that rounds to it. -/
theorem exists_numeral_pointedText {x : Float} {s : Float.Model.UnpackedFloat.Sign} {m : ℕ} {q : ℤ}
    {h : 0 < m} (hx : unpack x = .finite s m q h) :
    ∃ cs d, (pointedText x).toList = signText s ++ cs ∧ Numeral cs d ∧ Rounds d.toRat m q := by
  rw [pointedText, plainText, hx]
  simp only
  split
  · next hwhole =>
    obtain ⟨d, hnumeral, hvalue⟩ := exists_numeral_whole (whole m q)
    refine ⟨_, d, by rw [String.toList_ofList, List.append_assoc], hnumeral, ?_⟩
    rw [hvalue, whole_of_isWhole hwhole]
    exact rounds_self m q
  · obtain ⟨d, hnumeral, hvalue⟩ := exists_numeral_positional (shortest .up m q)
    refine ⟨_, d, by rw [String.toList_ofList], hnumeral, ?_⟩
    rw [hvalue]
    exact rounds_shortest h .up

/-- The pointed text of a finite double is an expression that has the double as its value. -/
theorem evaluate_pointedText {x : Float} (hx : x.isFinite = true) :
    evaluate (pointedText x) = .ok x := by
  rcases cases_of_isFinite hx with ⟨s, hunpack, hself⟩ | ⟨s, m, q, hc, hunpack, hself⟩
  · obtain ⟨d, hnumeral, hvalue⟩ := exists_numeral_whole 0
    have hzero : d.toRat = 0 := by simpa using hvalue
    have htext : (pointedText x).toList = signText s ++ (digits 0 ++ ['.', '0']) := by
      rw [pointedText, hunpack, String.toList_ofList]
      rfl
    cases s with
    | positive =>
      rw [signText, List.nil_append] at htext
      rw [evaluate_numeral (htext ▸ hnumeral), toFloat_of_toRat_eq_zero hzero, ← hself]
    | negative =>
      rw [evaluate_neg_numeral htext hnumeral, neg_toFloat_of_toRat_eq_zero hzero, ← hself]
  · obtain ⟨cs, d, htext, hnumeral, hrounds⟩ := exists_numeral_pointedText hunpack
    cases s with
    | positive =>
      rw [signText, List.nil_append] at htext
      rw [evaluate_numeral (htext ▸ hnumeral), toFloat_eq hc hrounds, ← hself]
    | negative =>
      rw [evaluate_neg_numeral htext hnumeral, neg_toFloat_eq hc hrounds, ← hself]

end TypedConfig.Expression.Arithmetic
