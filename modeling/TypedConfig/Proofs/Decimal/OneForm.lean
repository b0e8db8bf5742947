import TypedConfig.Decimal.Layout
import TypedConfig.Proofs.Decimal.Rational
import TypedConfig.Proofs.Decimal.Shortest
import TypedConfig.Proofs.Text.Digits

/-!
# Doubles with one written form

The pointed form of a double and its JSON form are the same if the JSON form has no exponent and no
second decimal with as few digits is as near (`pointedText_eq_jsonText`). With whole numbers a tie
makes no difference, because below 10 ^ 16 the shortest decimal has all of their digits
(`toRat_shortest_of_isWhole`).
-/

namespace TypedConfig.Decimal

open Text

variable {m : ℕ} {q : ℤ} {tie : Tie} {d : Decimal}

/-! ### Digits -/

theorem digits_mul_ten_pow {c : ℕ} (hc : 0 < c) (e : ℕ) :
    digits (c * 10 ^ e) = digits c ++ zeroDigits e := by
  induction e with
  | zero => simp [zeroDigits]
  | succ e ih =>
    have happend : digits (10 * (c * 10 ^ e) + 0) = digits (c * 10 ^ e) ++ digits 0 :=
      (Nat.toDigits_append_toDigits (by decide) (Nat.mul_pos hc (Nat.pow_pos (by decide)))
        (by decide)).symm
    rw [show c * 10 ^ (e + 1) = 10 * (c * 10 ^ e) + 0 by ring, happend, ih, zeroDigits, zeroDigits,
      List.replicate_succ', List.append_assoc]
    rfl

theorem toRat_lt_of_magnitude (d : Decimal) : d.toRat < 10 ^ (d.magnitude + 1) := by
  have hpos : 0 < (digits d.coefficient).length := Nat.length_toDigits_pos
  have hlt : d.coefficient < 10 ^ (digits d.coefficient).length :=
    (Nat.length_toDigits_le_iff (by decide) hpos).1 le_rfl
  have hexponent : d.magnitude + 1 = (digits d.coefficient).length + d.exponent := by
    rw [magnitude]
    omega
  rw [hexponent, zpow_add₀ (by norm_num), zpow_natCast, toRat]
  exact mul_lt_mul_of_pos_right (by exact_mod_cast hlt) (zpow_pos (by norm_num) _)

/-! ### Whole numbers -/

theorem exists_eq_of_exponent_nonneg (h : 0 ≤ d.exponent) : ∃ k : ℕ, d.toRat = k := by
  obtain ⟨c, e⟩ := d
  lift e to ℕ using h
  exact ⟨c * 10 ^ e, by simp [toRat]⟩

/-- On the grid of whole numbers, a double that is one is taken as it is. -/
theorem gridPoint_of_isWhole (hm : 0 < m) (h : isWhole m q = true) :
    (Interval.of m q).gridPoint tie 0 = some (whole m q) := by
  have hvalue : (Interval.of m q).value = whole m q * (Interval.of m q).denominator := by
    have hwhole : (whole m q : ℚ) * 2 ^ (-q).toNat = m * 2 ^ q.toNat := by
      have h2 := zpow_eq_div 2 two_pos q
      push_cast at h2
      rw [whole_of_isWhole h, h2]
      field_simp
    simp only [Interval.of, Nat.pow_eq]
    rw [mul_left_comm, mul_assoc]
    exact congrArg (4 * ·) (by exact_mod_cast hwhole.symm)
  rw [Interval.gridPoint_of_dvd (low_lt_value hm) denominator_pos (by simp [hvalue])]
  simp [Interval.floor, hvalue, denominator_pos]

theorem exponent_shortest_nonneg (hm : 0 < m) (h : isWhole m q = true) :
    0 ≤ (shortest tie m q).exponent := by
  refine Interval.le_exponent_search ?_ (min_le_right q 0) ?_
  · rw [gridPoint_of_isWhole hm h]
    rfl
  · omega

/-- A multiple of the last place of a double that rounds to the double is this double. -/
theorem Rounds.eq_of_multiple {j : ℕ} (h : Rounds (j * 2 ^ q) m q) : j = m := by
  obtain ⟨hle, hge, -⟩ := h.isNearest
  have hlow : (m : ℚ) < j + 1 := by linarith
  have hhigh : (j : ℚ) < m + 1 := by linarith
  norm_cast at hlow hhigh
  omega

theorem Rounds.eq_of_exponent_nonpos {k : ℕ} (h : Rounds k m q) (hq : q ≤ 0) :
    (k : ℚ) = m * 2 ^ q := by
  obtain ⟨n, rfl⟩ : ∃ n : ℕ, q = -n := ⟨(-q).toNat, by omega⟩
  have hunits : (k : ℚ) = (k * 2 ^ n : ℕ) * 2 ^ (-n : ℤ) := by
    rw [zpow_neg, zpow_natCast]
    push_cast
    field_simp
  rw [hunits] at h ⊢
  rw [h.eq_of_multiple]

/-- The shortest decimal of a whole number below 10 ^ 16 is this number. -/
theorem toRat_shortest_of_isWhole (hc : IsCanonical m q) (h : isWhole m q = true)
    (hlt : (shortest tie m q).toRat < 10 ^ 16) : (shortest tie m q).toRat = m * 2 ^ q := by
  have hrounds := rounds_shortest hc.pos tie (q := q)
  have hgrid := gridPoint_shortest hc.pos tie (q := q)
  have hexponent : 0 ≤ (shortest tie m q).exponent := exponent_shortest_nonneg hc.pos h
  generalize shortest tie m q = d at *
  obtain ⟨c, e⟩ := d
  lift e to ℕ using hexponent
  rcases lt_trichotomy q 1 with hq | rfl | hq
  · obtain ⟨k, hk⟩ := exists_eq_of_exponent_nonneg (d := ⟨c, e⟩) (Int.natCast_nonneg e)
    rw [hk] at hrounds ⊢
    exact hrounds.eq_of_exponent_nonpos (by omega)
  · -- the neighbours of an even number are odd, and end in no zero
    cases e with
    | zero =>
      rw [Nat.cast_zero, gridPoint_of_isWhole hc.pos h] at hgrid
      rw [← whole_of_isWhole h, Option.some.inj hgrid]
      simp [toRat]
    | succ e =>
      have heven : (⟨c, (e + 1 : ℕ)⟩ : Decimal).toRat = (c * 5 * 10 ^ e : ℕ) * 2 ^ (1 : ℤ) := by
        rw [toRat, zpow_natCast]
        push_cast
        ring
      rw [heven] at hrounds ⊢
      rw [hrounds.eq_of_multiple]
  · -- from 2 ^ 54 on there is no such number
    have hpow : (4 : ℚ) ≤ 2 ^ q := by
      calc (4 : ℚ) = 2 ^ (2 : ℤ) := by norm_num
        _ ≤ 2 ^ q := zpow_le_zpow_right₀ one_le_two (by omega)
    have hm : (4503599627370496 : ℚ) ≤ m := by
      exact_mod_cast hc.normal.resolve_right (by omega)
    obtain ⟨y, hy⟩ : ∃ y, (⟨c, e⟩ : Decimal).toRat = y * 2 ^ q :=
      ⟨(⟨c, e⟩ : Decimal).toRat / 2 ^ q, by field_simp⟩
    rw [hy] at hrounds hlt
    have hle := hrounds.isNearest.le
    nlinarith

/-! ### The two forms -/

/-- The JSON form has no exponent, and unless the double is a whole number, a tie between two
decimals with the fewest digits makes no difference. -/
structure HasOneForm (x : Float) : Prop where
  positional : 'e' ∉ (jsonText x).toList
  noTie : ∀ s m q h, unpack x = .finite s m q h → isWhole m q = true ∨
    shortest .up m q = shortest .even m q

theorem mem_scientific (d : Decimal) : 'e' ∈ scientific d := by
  simp only [scientific]
  split_ifs <;> simp

theorem positional_of_isWhole (hc : IsCanonical m q) (h : isWhole m q = true)
    (hd : isPositionalMagnitude (shortest tie m q).magnitude = true) (fraction : List Char) :
    positional (shortest tie m q) fraction = digits (whole m q) ++ fraction := by
  have hlt : (shortest tie m q).toRat < 10 ^ 16 := by
    have hmagnitude : (shortest tie m q).magnitude + 1 ≤ 16 := by
      simp [isPositionalMagnitude] at hd
      omega
    calc (shortest tie m q).toRat < 10 ^ ((shortest tie m q).magnitude + 1) := toRat_lt_of_magnitude _
      _ ≤ 10 ^ (16 : ℤ) := zpow_le_zpow_right₀ (by norm_num) hmagnitude
      _ = 10 ^ 16 := by norm_num
  have hexact := toRat_shortest_of_isWhole hc h hlt
  have hexponent : 0 ≤ (shortest tie m q).exponent := exponent_shortest_nonneg hc.pos h
  have hpos := (rounds_shortest hc.pos tie (q := q)).coefficient_ne_zero hc
  rw [← whole_of_isWhole h] at hexact
  generalize shortest tie m q = d at *
  obtain ⟨c, e⟩ := d
  lift e to ℕ using hexponent
  have hwhole : whole m q = c * 10 ^ e := by
    rw [toRat, zpow_natCast] at hexact
    exact_mod_cast hexact.symm
  simp only [positional, Int.natCast_nonneg, ↓reduceIte, Int.toNat_natCast, hwhole]
  rw [digits_mul_ten_pow (Nat.pos_of_ne_zero hpos)]

/-- A double that is not whole is written with places after the point. -/
theorem exponent_shortest_neg (hc : IsCanonical m q) (h : isWhole m q ≠ true) :
    (shortest tie m q).exponent < 0 := by
  by_contra hexponent
  obtain ⟨k, hk⟩ := exists_eq_of_exponent_nonneg (not_lt.1 hexponent)
  have hq : q ≤ 0 := by
    by_contra hq
    exact h (by simp [isWhole, (not_le.1 hq).le])
  have hrounds := rounds_shortest hc.pos tie (q := q)
  rw [hk] at hrounds
  exact h (isWhole_of_eq (k := k) (by exact_mod_cast (hrounds.eq_of_exponent_nonpos hq).symm))

theorem positional_of_exponent_neg (hd : d.exponent < 0) (fraction fraction' : List Char) :
    positional d fraction = positional d fraction' := by
  rw [positional, positional, if_neg hd.not_ge, if_neg hd.not_ge]

theorem pointedText_eq_jsonText {x : Float} (hx : x.isFinite = true) (h : HasOneForm x) :
    pointedText x = jsonText x := by
  obtain ⟨hpositional, hnoTie⟩ := h
  rcases cases_of_isFinite hx with ⟨s, hunpack, -⟩ | ⟨s, m, q, hc, hunpack, -⟩
  · rw [pointedText, jsonText, hunpack]
  · simp only [jsonText, hunpack, String.toList_ofList] at hpositional
    simp only [pointedText, plainText, jsonText, hunpack]
    split at hpositional
    · next hmagnitude =>
      rw [if_pos hmagnitude]
      by_cases hwhole : isWhole m q = true
      · rw [if_pos hwhole, positional_of_isWhole hc hwhole hmagnitude, List.append_assoc]
      · rw [if_neg hwhole, (hnoTie s m q hc.pos hunpack).resolve_left hwhole,
          positional_of_exponent_neg (exponent_shortest_neg hc hwhole) [] ['.', '0']]
    · exact absurd (List.mem_append_right _ (mem_scientific _)) hpositional

theorem hasOneForm_half : HasOneForm (toFloat ⟨5, -1⟩) := by
  have htext : jsonText (toFloat ⟨5, -1⟩) = "0.5" := by decide +kernel
  have hunpack : unpack (toFloat ⟨5, -1⟩) =
      .finite .positive 4503599627370496 (-53) (by decide) := rfl
  refine ⟨by rw [htext]; decide, fun s m q h hfinite => .inr ?_⟩
  cases hunpack.symm.trans hfinite
  decide +kernel

end TypedConfig.Decimal
