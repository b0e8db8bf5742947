import TypedConfig.Proofs.Decimal.Rational
import TypedConfig.Proofs.Except
import TypedConfig.Proofs.Expression.PointedText

/-!
# Whole results

The value of an arithmetic expression is a signed 64-bit word just if it is an integer of that
range, and then it is this word; otherwise the error says whether it is no integer or out of range
(`evaluateInteger_exact`). The test compares doubles: its lower bound is the least word, its upper
one the number after the greatest word, so that the conversion behind it never meets a number that
it would have to clamp.
-/

namespace TypedConfig.Expression.Arithmetic

open Text Decimal

theorem rational?_minValue : rational? (floatOfInt Int64.minValue.toInt) = some (-2 ^ 63) := by
  have hunpack : unpack (floatOfInt Int64.minValue.toInt) =
      .finite .negative 4503599627370496 11 (by decide) := rfl
  rw [rational?, hunpack]
  simp only [Option.some.injEq, apply_negative]
  norm_num

theorem rational?_maxValue : rational? (floatOfInt Int64.maxValue.toInt) = some (2 ^ 63) := by
  have hunpack : unpack (floatOfInt Int64.maxValue.toInt) =
      .finite .positive 4503599627370496 11 (by decide) := rfl
  rw [rational?, hunpack]
  simp only [Option.some.injEq, apply_positive]
  norm_num

variable {text : String} {x : Float}

theorem evaluateInteger_of_integer {k : ℤ} (h : evaluate text = .ok x)
    (hk : rational? x = some (k : ℚ)) :
    evaluateInteger text =
      if k < -2 ^ 63 ∨ 2 ^ 63 ≤ k then .error (.outOfRange x) else .ok (.ofIntClamp k) := by
  have hlow : x < floatOfInt Int64.minValue.toInt ↔ k < -2 ^ 63 := by
    rw [lt_iff hk rational?_minValue]
    exact_mod_cast Iff.rfl
  have hhigh : floatOfInt Int64.maxValue.toInt ≤ x ↔ 2 ^ 63 ≤ k := by
    rw [le_iff rational?_maxValue hk]
    exact_mod_cast Iff.rfl
  rw [evaluateInteger, h]
  simp only [bind, Except.bind, integer?_eq_some_iff.2 hk, hlow, hhigh]

theorem evaluateInteger_of_not_integer (h : evaluate text = .ok x) (hx : integer? x = none) :
    evaluateInteger text = .error (.nonIntegral x) := by
  rw [evaluateInteger, h]
  simp only [bind, Except.bind, hx]

theorem toInt_ofIntClamp {k : ℤ} (h : ¬ (k < -2 ^ 63 ∨ 2 ^ 63 ≤ k)) :
    (Int64.ofIntClamp k).toInt = k := by
  refine Int64.toInt_ofIntClamp ?_ ?_
  · show -9223372036854775808 ≤ k
    omega
  · show k ≤ 9223372036854775807
    omega

/-- An integer result is the value itself: never truncated, wrapped or clamped. -/
theorem evaluateInteger_exact (text : String) :
    (∀ e, evaluate text = .error e → evaluateInteger text = .error e) ∧
    ∀ x, evaluate text = .ok x →
      (∀ n, evaluateInteger text = .ok n ↔
        ∃ k : ℤ, rational? x = some (k : ℚ) ∧ -2 ^ 63 ≤ k ∧ k < 2 ^ 63 ∧ n.toInt = k) ∧
      ((∃ n, evaluateInteger text = .ok n) ↔
        ∃ k : ℤ, rational? x = some (k : ℚ) ∧ -2 ^ 63 ≤ k ∧ k < 2 ^ 63) ∧
      (evaluateInteger text = .error (.nonIntegral x) ↔
        x.isFinite = false ∨ ∃ r, rational? x = some r ∧ ∀ k : ℤ, r ≠ k) ∧
      (evaluateInteger text = .error (.outOfRange x) ↔
        ∃ k : ℤ, rational? x = some (k : ℚ) ∧ (k < -2 ^ 63 ∨ 2 ^ 63 ≤ k)) := by
  refine ⟨fun e he => by rw [evaluateInteger, he]; rfl, fun x hx => ?_⟩
  cases hwhole : integer? x with
  | none =>
    have hnone : ∀ k : ℤ, rational? x ≠ some (k : ℚ) := by
      intro k hk
      rw [integer?_eq_some_iff.2 hk] at hwhole
      cases hwhole
    rw [evaluateInteger_of_not_integer hx hwhole]
    refine ⟨fun n => iff_of_false nofun ?_, iff_of_false nofun ?_,
      iff_of_true rfl (integer?_eq_none_iff.1 hwhole), iff_of_false nofun ?_⟩
    · exact fun ⟨k, hk, _⟩ => hnone k hk
    · exact fun ⟨k, hk, _⟩ => hnone k hk
    · exact fun ⟨k, hk, _⟩ => hnone k hk
  | some k =>
    have hk : rational? x = some (k : ℚ) := integer?_eq_some_iff.1 hwhole
    have hsame : ∀ k' : ℤ, rational? x = some (k' : ℚ) → k' = k := by
      intro k' hk'
      rw [hk, Option.some.injEq] at hk'
      exact_mod_cast hk'.symm
    have hsome : ¬ (x.isFinite = false ∨ ∃ r, rational? x = some r ∧ ∀ k : ℤ, r ≠ k) := by
      rw [← integer?_eq_none_iff, hwhole]
      nofun
    rw [evaluateInteger_of_integer hx hk]
    by_cases hrange : k < -2 ^ 63 ∨ 2 ^ 63 ≤ k
    · have hout : ∀ k' : ℤ, rational? x = some (k' : ℚ) → ¬ (-2 ^ 63 ≤ k' ∧ k' < 2 ^ 63) := by
        intro k' hk'
        obtain rfl := hsame k' hk'
        omega
      rw [if_pos hrange]
      refine ⟨fun n => iff_of_false nofun ?_, iff_of_false nofun ?_, iff_of_false nofun hsome,
        iff_of_true rfl ⟨k, hk, hrange⟩⟩
      · exact fun ⟨k', hk', hlow, hhigh, _⟩ => hout k' hk' ⟨hlow, hhigh⟩
      · exact fun ⟨k', hk', hin⟩ => hout k' hk' hin
    · have hin : -2 ^ 63 ≤ k ∧ k < 2 ^ 63 := by omega
      rw [if_neg hrange]
      refine ⟨fun n => ?_, iff_of_true ⟨_, rfl⟩ ⟨k, hk, hin⟩, iff_of_false nofun hsome,
        iff_of_false nofun ?_⟩
      · constructor
        · rintro ⟨⟩
          exact ⟨k, hk, hin.1, hin.2, toInt_ofIntClamp hrange⟩
        · rintro ⟨k', hk', -, -, hn⟩
          obtain rfl := hsame k' hk'
          exact congrArg Except.ok (Int64.toInt_inj.1 ((toInt_ofIntClamp hrange).trans hn.symm))
      · rintro ⟨k', hk', hout⟩
        obtain rfl := hsame k' hk'
        exact hrange hout

/-- The least word is a result, the greatest is rounded up as a double, and a half is no integer. -/
theorem evaluateInteger_at_bounds :
    evaluateInteger "-9223372036854775808" = .ok Int64.minValue ∧
    (∃ x, evaluate "9223372036854775807" = .ok x ∧
      evaluateInteger "9223372036854775807" = .error (.outOfRange x)) ∧
    ∃ x, evaluate "0.5" = .ok x ∧ evaluateInteger "0.5" = .error (.nonIntegral x) := by
  have hleast : evaluate "-9223372036854775808" = .ok (floatOfInt Int64.minValue.toInt) :=
    evaluate_neg_numeral rfl (.of_digits (List.all_eq_true.1 rfl) (List.cons_ne_nil _ _))
  have hgreatest : evaluate "9223372036854775807" = .ok (floatOfInt Int64.maxValue.toInt) :=
    evaluate_numeral (.of_digits (List.all_eq_true.1 rfl) (List.cons_ne_nil _ _))
  have hhalf : evaluate "0.5" = .ok (toFloat ⟨5, -1⟩) :=
    evaluate_numeral (Numeral.point (List.all_eq_true.1 rfl : ∀ c ∈ ['0'], c.isDigit = true)
      (List.all_eq_true.1 rfl : ∀ c ∈ ['5'], c.isDigit = true) (.inl (List.cons_ne_nil _ _)) .none)
  refine ⟨?_, ⟨_, hgreatest, ?_⟩, _, hhalf, ?_⟩
  · refine (((evaluateInteger_exact _).2 _ hleast).1 _).2 ⟨-2 ^ 63, ?_, by norm_num, by norm_num, rfl⟩
    exact_mod_cast rational?_minValue
  · refine ((evaluateInteger_exact _).2 _ hgreatest).2.2.2.2 ⟨2 ^ 63, ?_, .inr le_rfl⟩
    exact_mod_cast rational?_maxValue
  · exact ((evaluateInteger_exact _).2 _ hhalf).2.2.1.2 (integer?_eq_none_iff.1 rfl)

end TypedConfig.Expression.Arithmetic
