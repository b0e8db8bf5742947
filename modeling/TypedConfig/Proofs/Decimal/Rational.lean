import TypedConfig.Proofs.Decimal.Packing

/-!
# Doubles as rational numbers

A finite double is a rational number (`rational?`), and is an integer just if this number is one
(`integer?_eq_some_iff`). Canonical significands and exponents compare like the numbers
(`IsCanonical.compare_eq`), and so do finite doubles (`lt_iff`, `le_iff`).
-/

namespace TypedConfig.Decimal

open Float.Model (UnpackedFloat)
open Float.Model.UnpackedFloat (Sign)

/-- The number that a double is, if it is finite. -/
def rational? (x : Float) : Option ℚ :=
  match unpack x with
  | .zero _ => some 0
  | .finite s m q _ => some (s.apply m * 2 ^ q)
  | _ => none

variable {x y : Float} {r r' : ℚ} {m m' : ℕ} {q q' : ℤ}

theorem isSome_rational? : (rational? x).isSome = x.isFinite := by
  have hunpack : x.isFinite = (unpack x).isFinite := rfl
  rw [hunpack, rational?]
  cases unpack x <;> rfl

theorem rational?_cases (h : rational? x = some r) :
    (∃ s, unpack x = .zero s ∧ r = 0) ∨
      ∃ s m q, ∃ hc : IsCanonical m q, unpack x = .finite s m q hc.pos ∧ r = s.apply m * 2 ^ q := by
  have hfinite : x.isFinite = true := by rw [← isSome_rational?, h]; rfl
  rcases cases_of_isFinite hfinite with ⟨s, hunpack, -⟩ | ⟨s, m, q, hc, hunpack, -⟩
  · rw [rational?, hunpack] at h
    exact .inl ⟨s, hunpack, (Option.some.inj h).symm⟩
  · rw [rational?, hunpack] at h
    exact .inr ⟨s, m, q, hc, hunpack, (Option.some.inj h).symm⟩

/-! ### Whole numbers -/

theorem whole_of_isWhole (h : isWhole m q = true) : (whole m q : ℚ) = m * 2 ^ q := by
  rw [whole, Nat.pow_eq, Nat.pow_eq]
  split
  · next hq =>
    lift q to ℕ using hq
    simp
  · next hq =>
    obtain ⟨n, rfl⟩ : ∃ n : ℕ, q = -n := ⟨(-q).toNat, by omega⟩
    have hmod : n = 0 ∨ m % 2 ^ n = 0 := by simpa [isWhole] using h
    obtain ⟨k, rfl⟩ := Nat.dvd_of_mod_eq_zero (hmod.resolve_left (by omega))
    rw [neg_neg, Int.toNat_natCast, Nat.mul_div_cancel_left _ (Nat.two_pow_pos n), zpow_neg,
      zpow_natCast]
    push_cast
    field_simp

theorem isWhole_of_eq {k : ℤ} (h : (m : ℚ) * 2 ^ q = k) : isWhole m q = true := by
  by_cases hq : 0 ≤ q
  · simp [isWhole, hq]
  · obtain ⟨n, rfl⟩ : ∃ n : ℕ, q = -n := ⟨(-q).toNat, by omega⟩
    have hpow : (2 : ℚ) ^ n ≠ 0 := by positivity
    rw [zpow_neg, zpow_natCast, ← div_eq_mul_inv, div_eq_iff hpow] at h
    have hdvd : (2 ^ n : ℤ) ∣ m := ⟨k, by rw [mul_comm]; exact_mod_cast h⟩
    have hmod : m % 2 ^ n = 0 := Nat.mod_eq_zero_of_dvd (by exact_mod_cast hdvd)
    simp [isWhole, hmod]

theorem integer?_eq_some_iff {k : ℤ} : integer? x = some k ↔ rational? x = some (k : ℚ) := by
  rw [integer?, rational?]
  cases hunpack : unpack x with
  | notANumber => simp
  | infinity s => simp
  | zero s =>
    simp only [Option.some.injEq]
    exact_mod_cast Iff.rfl
  | finite s m q h =>
    simp only [Option.ite_none_right_eq_some, Option.some.injEq]
    by_cases hwhole : isWhole m q = true
    · rw [and_iff_right hwhole]
      cases s with
      | positive =>
        simp only [Sign.apply, Int.cast_natCast]
        rw [← whole_of_isWhole hwhole]
        exact_mod_cast Iff.rfl
      | negative =>
        simp only [Sign.apply, Int.cast_neg, Int.cast_natCast, neg_mul]
        rw [← whole_of_isWhole hwhole]
        exact_mod_cast Iff.rfl
    · refine iff_of_false (fun h => hwhole h.1) fun heq => hwhole ?_
      cases s with
      | positive => exact isWhole_of_eq (by simpa [Sign.apply] using heq)
      | negative =>
        have hneg : (m : ℚ) * 2 ^ q = (-k : ℤ) := by
          simp only [Sign.apply, Int.cast_neg, Int.cast_natCast, neg_mul] at heq
          push_cast
          linarith
        exact isWhole_of_eq hneg

/-- A double is no integer if it is not finite or has a fraction. -/
theorem integer?_eq_none_iff : integer? x = none ↔
    x.isFinite = false ∨ ∃ r, rational? x = some r ∧ ∀ k : ℤ, r ≠ k := by
  rw [Option.eq_none_iff_forall_ne_some, ← isSome_rational?]
  simp only [ne_eq, integer?_eq_some_iff]
  cases rational? x with
  | none => simp
  | some r => simp

/-! ### Order -/

/-- Of two canonical forms the one with the greater exponent is greater. -/
theorem IsCanonical.lt_of_exponent_lt (h : IsCanonical m q) (h' : IsCanonical m' q') (hq : q < q') :
    (m : ℚ) * 2 ^ q < m' * 2 ^ q' := by
  have hnormal : 4503599627370496 ≤ m' := h'.normal.resolve_right (by have := h.le; omega)
  have hm : (m : ℚ) < 2 * m' := by
    have hlt := h.lt
    exact_mod_cast (by omega : m < 2 * m')
  have hpow : (2 : ℚ) ^ (q + 1) ≤ 2 ^ q' := zpow_le_zpow_right₀ one_le_two (by omega)
  calc (m : ℚ) * 2 ^ q < 2 * m' * 2 ^ q := mul_lt_mul_of_pos_right hm (zpow_pos two_pos q)
    _ = m' * 2 ^ (q + 1) := by rw [zpow_add_one₀ two_ne_zero]; ring
    _ ≤ m' * 2 ^ q' := mul_le_mul_of_nonneg_left hpow (Nat.cast_nonneg m')

theorem IsCanonical.compare_eq (h : IsCanonical m q) (h' : IsCanonical m' q') :
    (compare q q').then (compare m m') = compare ((m : ℚ) * 2 ^ q) (m' * 2 ^ q') := by
  rcases lt_trichotomy q q' with hq | rfl | hq
  · rw [compare_lt_iff_lt.2 hq, compare_lt_iff_lt.2 (h.lt_of_exponent_lt h' hq)]
    rfl
  · have hpow : (0 : ℚ) < 2 ^ q := zpow_pos two_pos q
    rw [compare_eq_iff_eq.2 rfl, Ordering.eq_then]
    rcases lt_trichotomy m m' with hm | rfl | hm
    · rw [compare_lt_iff_lt.2 hm, compare_lt_iff_lt.2]
      exact mul_lt_mul_of_pos_right (by exact_mod_cast hm) hpow
    · rw [compare_eq_iff_eq.2 rfl, compare_eq_iff_eq.2 rfl]
    · rw [compare_gt_iff_gt.2 hm, compare_gt_iff_gt.2]
      exact mul_lt_mul_of_pos_right (by exact_mod_cast hm) hpow
  · rw [compare_gt_iff_gt.2 hq, compare_gt_iff_gt.2 (h'.lt_of_exponent_lt h hq)]
    rfl

theorem apply_positive (m : ℕ) (q : ℤ) : (Sign.apply .positive m : ℚ) * 2 ^ q = m * 2 ^ q := rfl

theorem apply_negative (m : ℕ) (q : ℤ) : (Sign.apply .negative m : ℚ) * 2 ^ q = -(m * 2 ^ q) := by
  rw [Sign.apply, Int.cast_neg, Int.cast_natCast, neg_mul]

/-- Doubles compare as the numbers that they are. -/
theorem compare_unpack (hx : rational? x = some r) (hy : rational? y = some r') :
    (unpack x).compare (unpack y) = some (compare r r') := by
  have hpos {m : ℕ} {q : ℤ} (h : IsCanonical m q) : (0 : ℚ) < m * 2 ^ q :=
    mul_pos (Nat.cast_pos.2 h.pos) (zpow_pos two_pos q)
  rcases rational?_cases hx with ⟨s, hu, rfl⟩ | ⟨s, m, q, h, hu, rfl⟩ <;>
    rcases rational?_cases hy with ⟨s', hu', rfl⟩ | ⟨s', m', q', h', hu', rfl⟩ <;>
    rw [hu, hu']
  · rw [compare_eq_iff_eq.2 rfl]
    rfl
  · cases s' with
    | positive =>
      rw [apply_positive, compare_lt_iff_lt.2 (hpos h')]
      rfl
    | negative =>
      rw [apply_negative, compare_gt_iff_gt.2 (neg_lt_zero.2 (hpos h'))]
      rfl
  · cases s with
    | positive =>
      rw [apply_positive, compare_gt_iff_gt.2 (hpos h)]
      rfl
    | negative =>
      rw [apply_negative, compare_lt_iff_lt.2 (neg_lt_zero.2 (hpos h))]
      rfl
  · cases s with
    | positive =>
      cases s' with
      | positive =>
        rw [apply_positive, apply_positive, ← h.compare_eq h']
        rfl
      | negative =>
        have hlt := (neg_lt_zero.2 (hpos h')).trans (hpos h)
        rw [apply_positive, apply_negative, compare_gt_iff_gt.2 hlt]
        rfl
    | negative =>
      cases s' with
      | positive =>
        have hlt := (neg_lt_zero.2 (hpos h)).trans (hpos h')
        rw [apply_positive, apply_negative, compare_lt_iff_lt.2 hlt]
        rfl
      | negative =>
        have hswap : compare (-((m : ℚ) * 2 ^ q)) (-(m' * 2 ^ q')) =
            (compare ((m : ℚ) * 2 ^ q) (m' * 2 ^ q')).swap := by
          rcases lt_trichotomy ((m : ℚ) * 2 ^ q) (m' * 2 ^ q') with hlt | heq | hlt
          · rw [compare_lt_iff_lt.2 hlt, compare_gt_iff_gt.2 (neg_lt_neg hlt)]
            rfl
          · rw [heq, compare_eq_iff_eq.2 rfl, compare_eq_iff_eq.2 rfl]
            rfl
          · rw [compare_gt_iff_gt.2 hlt, compare_lt_iff_lt.2 (neg_lt_neg hlt)]
            rfl
        rw [apply_negative, apply_negative, hswap, ← h.compare_eq h']
        rfl

theorem lt_iff (hx : rational? x = some r) (hy : rational? y = some r') : x < y ↔ r < r' := by
  have hlt : x < y ↔ ((unpack x).compare (unpack y) == some .lt) = true := decide_eq_true_iff
  rw [hlt, compare_unpack hx hy, beq_iff_eq, Option.some.injEq, compare_lt_iff_lt]

theorem le_iff (hx : rational? x = some r) (hy : rational? y = some r') : x ≤ y ↔ r ≤ r' := by
  have hle : x ≤ y ↔ ((unpack x).compare (unpack y)).any (·.isLE) = true := decide_eq_true_iff
  rw [hle, compare_unpack hx hy, Option.any_some, Ordering.isLE_iff_ne_gt]
  exact (not_congr compare_gt_iff_gt).trans not_lt

end TypedConfig.Decimal
