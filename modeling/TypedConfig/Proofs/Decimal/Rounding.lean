import TypedConfig.Proofs.Decimal.Packing

/-!
# Rounding to the nearest double

A mantissa with its residual bits stands for a number up to what rounding needs to know of it
(`Represents`), and shifting keeps that. A number within the rounding interval of a double
(`Rounds`) is rounded to this double (`roundWithAccuracy_eq`).
-/

namespace TypedConfig.Decimal

open Float.Model (UnpackedFloat Format totalExponent)
open Float.Model.UnpackedFloat

/-! ### Residual bits -/

/-- The numbers that a mantissa and its residual bits stand for. -/
def Represents (em : ExtendedMantissa) (r : ℚ) : Prop :=
  match em with
  | ⟨m, false, false⟩ => r = m
  | ⟨m, false, true⟩ => (m : ℚ) < r ∧ r < m + 1 / 2
  | ⟨m, true, false⟩ => r = m + 1 / 2
  | ⟨m, true, true⟩ => (m : ℚ) + 1 / 2 < r ∧ r < m + 1

variable {em : ExtendedMantissa} {r : ℚ} {k : ℕ}

theorem represents_exact (m : ℕ) : Represents (.ofMantissaAndAccuracy m .exact) m := rfl

theorem Represents.bounds (h : Represents em r) : (em.mantissa : ℚ) ≤ r ∧ r < em.mantissa + 1 := by
  rcases em with ⟨m, _ | _, _ | _⟩ <;> simp only [Represents] at h ⊢ <;> constructor <;> linarith

theorem Represents.shiftRightOne (h : Represents em r) : Represents em.shiftRightOne (r / 2) := by
  rcases em with ⟨m, round, sticky⟩
  have hhalves : (m : ℚ) = 2 * (m / 2 : ℕ) + (m % 2 : ℕ) := by exact_mod_cast (Nat.div_add_mod m 2).symm
  have hparity := Nat.mod_two_eq_zero_or_one m
  rcases hparity with hm | hm
  · have hbit : (m % 2 != 0) = false := by rw [hm]; rfl
    rw [hm, Nat.cast_zero, add_zero] at hhalves
    cases round <;> cases sticky <;>
      simp only [Represents, ExtendedMantissa.shiftRightOne, hbit, Bool.or_false, Bool.or_true] at h ⊢ <;>
      (try constructor) <;> linarith
  · have hbit : (m % 2 != 0) = true := by rw [hm]; rfl
    rw [hm, Nat.cast_one] at hhalves
    cases round <;> cases sticky <;>
      simp only [Represents, ExtendedMantissa.shiftRightOne, hbit, Bool.or_false, Bool.or_true] at h ⊢ <;>
      (try constructor) <;> linarith

theorem Represents.shiftRight (h : Represents em r) (n : ℕ) : Represents (em >>> n) (r / 2 ^ n) := by
  change Represents (n.repeat ExtendedMantissa.shiftRightOne em) _
  induction n with
  | zero => simpa [Nat.repeat] using h
  | succ n ih =>
    have hstep := ih.shiftRightOne
    rw [div_div, ← pow_succ] at hstep
    exact hstep

/-- A natural number is nearest to a number, and even if another one is as near. -/
structure IsNearest (r : ℚ) (k : ℕ) : Prop where
  le : (k : ℚ) - 1 / 2 ≤ r
  ge : r ≤ k + 1 / 2
  odd : k % 2 = 1 → (k : ℚ) - 1 / 2 < r ∧ r < k + 1 / 2

theorem Represents.roundedMantissa_eq (h : Represents em r) (hk : IsNearest r k) :
    em.roundedMantissa = k := by
  obtain ⟨hle, hge, hodd⟩ := hk
  rcases em with ⟨m, _ | _, _ | _⟩ <;>
    simp only [Represents, ExtendedMantissa.roundedMantissa, ExtendedMantissa.accuracy,
      Accuracy.roundToNearestEven] at h ⊢
  · have hlt : (k : ℚ) < m + 1 := by linarith
    have hgt : (m : ℚ) < k + 1 := by linarith
    norm_cast at hlt hgt
    omega
  · have hlt : (k : ℚ) < m + 1 := by linarith
    have hgt : (m : ℚ) < k + 1 := by linarith
    norm_cast at hlt hgt
    omega
  · have hle' : (k : ℚ) ≤ m + 1 := by linarith
    have hge' : (m : ℚ) ≤ k := by linarith
    have heven : k % 2 ≠ 1 := by
      intro hone
      obtain ⟨hlt, hgt⟩ := hodd hone
      have hlt' : (k : ℚ) < m + 1 := by linarith
      have hgt' : (m : ℚ) < k := by linarith
      norm_cast at hlt' hgt'
      omega
    norm_cast at hle' hge'
    omega
  · have hlt : (k : ℚ) < m + 2 := by linarith
    have hgt : (m : ℚ) < k := by linarith
    norm_cast at hlt hgt
    omega

/-- The quotient of two natural numbers, with what is left over. -/
theorem represents_quotient (n : ℕ) {d : ℕ} (hd : 0 < d) :
    Represents (.ofMantissaAndAccuracy (n / d) (accuracyOfFraction (n % d) d)) (n / d) := by
  have hd' : (0 : ℚ) < d := by exact_mod_cast hd
  have hn : (n : ℚ) = d * (n / d : ℕ) + (n % d : ℕ) := by exact_mod_cast (Nat.div_add_mod n d).symm
  have hrest : (n : ℚ) / d = (n / d : ℕ) + (n % d : ℕ) / d := by
    rw [div_eq_iff hd'.ne', add_mul, div_mul_cancel₀ _ hd'.ne', mul_comm]
    exact hn
  have hlt := Nat.mod_lt n hd
  rw [hrest]
  generalize n % d = rest at hlt
  unfold accuracyOfFraction
  split
  · next hzero => simp [hzero, Represents, ExtendedMantissa.ofMantissaAndAccuracy]
  · next hzero =>
    have hpos : (0 : ℚ) < rest / d := div_pos (by exact_mod_cast Nat.pos_of_ne_zero hzero) hd'
    have hone : (rest : ℚ) / d < 1 := (div_lt_one hd').2 (by exact_mod_cast hlt)
    rcases lt_trichotomy (2 * rest) d with h | h | h
    · have hhalf : (rest : ℚ) / d < 1 / 2 := by
        rw [div_lt_div_iff₀ hd' two_pos, one_mul, mul_comm]
        exact_mod_cast h
      rw [compare_lt_iff_lt.2 h]
      exact ⟨by linarith, by linarith⟩
    · have hhalf : (rest : ℚ) / d = 1 / 2 := by
        rw [div_eq_div_iff hd'.ne' two_ne_zero, one_mul, mul_comm]
        exact_mod_cast h
      rw [compare_eq_iff_eq.2 h, hhalf]
      rfl
    · have hhalf : 1 / 2 < (rest : ℚ) / d := by
        rw [div_lt_div_iff₀ two_pos hd', one_mul, mul_comm]
        exact_mod_cast h
      rw [compare_gt_iff_gt.2 h]
      exact ⟨by linarith, by linarith⟩

/-! ### Shifting -/

variable {M n : ℕ} {E t : ℤ} {acc : Accuracy} {y : ℚ}

/-- Shifting to the exponent of a unit leaves the number in this unit. -/
theorem exists_shift (h : Represents (.ofMantissaAndAccuracy M acc) (y * 2 ^ n))
    (ht : Format.binary64.targetExponent (totalExponent M E) = E + n) :
    ∃ em, shiftToTargetExponent Format.binary64 M E acc = (em, E + n) ∧ Represents em y := by
  have hn : (E + n - E).toNat = n := by omega
  have hy : y * 2 ^ n / 2 ^ n = y := mul_div_cancel_right₀ y (pow_ne_zero n two_ne_zero)
  have hshift := h.shiftRight n
  rw [hy] at hshift
  refine ⟨_, ?_, hshift⟩
  rw [shiftToTargetExponent, ht, shiftToExponent, hn]

/-- A mantissa that has its exponent already stays as it is. -/
theorem shift_eq_self (ht : Format.binary64.targetExponent (totalExponent M t) ≤ t) :
    shiftToTargetExponent Format.binary64 M t .exact = (⟨M, false, false⟩, t) := by
  have hzero : (Format.binary64.targetExponent (totalExponent M t) - t).toNat = 0 := by omega
  rw [shiftToTargetExponent, shiftToExponent, hzero]
  simp only [Nat.cast_zero, add_zero]
  rfl

theorem targetExponent_eq (n e : ℤ) :
    Format.binary64.targetExponent (n + 1 + e) = max (n + e - 52) (-1074) := by
  have hbits : ((Format.binary64.mantissaBits : ℕ) : ℤ) = 53 := rfl
  have hmin : Format.binary64.minExponent = -1074 := rfl
  rw [Format.targetExponent, hbits, hmin]
  omega

theorem mantissa_ofMantissaAndAccuracy :
    (ExtendedMantissa.ofMantissaAndAccuracy M acc).mantissa = M := by
  rcases acc with _ | _ | _ | _ <;> rfl

theorem log2_eq (h : Represents (.ofMantissaAndAccuracy M acc) (y * 2 ^ n))
    (hle : 4503599627370496 ≤ y) (hlt : y < 9007199254740992) : M.log2 = 52 + n := by
  have hpow : (0 : ℚ) < 2 ^ n := by positivity
  obtain ⟨hM, hM'⟩ := h.bounds
  rw [mantissa_ofMantissaAndAccuracy] at hM hM'
  have hle' : (2 ^ (52 + n) : ℚ) < M + 1 := by
    rw [pow_add]
    exact (mul_le_mul_of_nonneg_right (by norm_num; linarith) hpow.le).trans_lt hM'
  have hlt' : (M : ℚ) < 2 ^ (52 + n + 1) := by
    rw [add_right_comm, pow_add]
    exact hM.trans_lt (mul_lt_mul_of_pos_right (by norm_num; linarith) hpow)
  norm_cast at hle' hlt'
  have hpos : 0 < 2 ^ (52 + n) := Nat.two_pow_pos _
  exact (Nat.log2_eq_iff (by omega)).2 ⟨by omega, hlt'⟩

theorem log2_lt (h : Represents (.ofMantissaAndAccuracy M acc) (y * 2 ^ n))
    (hlt : y < 4503599627370496) : M.log2 < 52 + n := by
  have hpow : (0 : ℚ) < 2 ^ n := by positivity
  obtain ⟨hM, -⟩ := h.bounds
  rw [mantissa_ofMantissaAndAccuracy] at hM
  have hlt' : (M : ℚ) < 2 ^ (52 + n) := by
    rw [pow_add]
    exact hM.trans_lt (mul_lt_mul_of_pos_right (by norm_num; linarith) hpow)
  norm_cast at hlt'
  by_cases hzero : M = 0
  · rw [hzero]
    exact Nat.add_pos_left (by decide) n
  · exact (Nat.log2_lt hzero).2 hlt'

/-! ### Rounding -/

variable {m : ℕ} {q : ℤ}

theorem IsCanonical.targetExponent_le (h : IsCanonical m q) :
    Format.binary64.targetExponent (totalExponent m q) ≤ q := by
  have hlog : m.log2 < 53 := (Nat.log2_lt h.pos.ne').2 h.lt
  have hle := h.le
  rw [totalExponent, targetExponent_eq]
  omega

/-- The first shift leads to the exponent of the result. -/
theorem roundWithAccuracy_aligned (hc : IsCanonical m (E + n)) (s : Sign)
    (h : Represents (.ofMantissaAndAccuracy M acc) (y * 2 ^ n))
    (ht : Format.binary64.targetExponent (totalExponent M E) = E + n) (hm : IsNearest y m) :
    roundWithAccuracy Format.binary64 s M E acc = .finite s m (E + n) hc.pos := by
  obtain ⟨em, hshift, hem⟩ := exists_shift h ht
  have hrounded := hem.roundedMantissa_eq hm
  have hsecond := shift_eq_self hc.targetExponent_le
  rw [roundWithAccuracy, hshift]
  simp only [hrounded, hsecond]
  exact dif_neg hc.pos.ne'

/-- The first shift leads to the exponent below, and rounding carries. -/
theorem roundWithAccuracy_carry (hmin : -1074 ≤ E + n) (s : Sign)
    (h : Represents (.ofMantissaAndAccuracy M acc) (y * 2 ^ n))
    (ht : Format.binary64.targetExponent (totalExponent M E) = E + n)
    (hm : IsNearest y 9007199254740992) : roundWithAccuracy Format.binary64 s M E acc =
      .finite s 4503599627370496 (E + n + 1) (by decide) := by
  obtain ⟨em, hshift, hem⟩ := exists_shift h ht
  have hrounded := hem.roundedMantissa_eq hm
  have hlog : Nat.log2 9007199254740992 = 53 := (Nat.log2_eq_iff (by decide)).2 (by decide)
  have ht' : Format.binary64.targetExponent (totalExponent 9007199254740992 (E + n)) = E + n + 1 := by
    rw [totalExponent, targetExponent_eq, hlog]
    omega
  have hone : (E + n + 1 - (E + n)).toNat = 1 := by omega
  have hsecond : shiftToTargetExponent Format.binary64 9007199254740992 (E + n) .exact =
      (⟨4503599627370496, false, false⟩, E + n + 1) := by
    rw [shiftToTargetExponent, ht', shiftToExponent, hone]
    rfl
  rw [roundWithAccuracy, hshift]
  simp only [hrounded, hsecond]
  exact dif_neg (by decide)

/-- The numbers that round to the double `m * 2 ^ q`. Below a power of two the next double is only
half as far. -/
structure Rounds (v : ℚ) (m : ℕ) (q : ℤ) : Prop where
  le : (m - if m = 4503599627370496 ∧ -1074 < q then 1 / 4 else 1 / 2) * 2 ^ q ≤ v
  ge : v ≤ (m + 1 / 2) * 2 ^ q
  odd : m % 2 = 1 → (m - 1 / 2) * 2 ^ q < v ∧ v < (m + 1 / 2) * 2 ^ q

/-- In units of its last place, what rounds to a double is nearest to its significand. -/
theorem Rounds.isNearest {y : ℚ} (h : Rounds (y * 2 ^ q) m q) : IsNearest y m := by
  have hpow : (0 : ℚ) < 2 ^ q := zpow_pos two_pos q
  obtain ⟨hle, hge, hodd⟩ := h
  rw [mul_le_mul_iff_left₀ hpow] at hle hge
  refine ⟨?_, hge, fun hm => ?_⟩
  · split at hle
    · linarith
    · exact hle
  · obtain ⟨hlt, hgt⟩ := hodd hm
    exact ⟨(mul_lt_mul_iff_left₀ hpow).1 hlt, (mul_lt_mul_iff_left₀ hpow).1 hgt⟩

/-- A double rounds to itself. -/
theorem rounds_self (m : ℕ) (q : ℤ) : Rounds (m * 2 ^ q) m q := by
  have hpow : (0 : ℚ) < 2 ^ q := zpow_pos two_pos q
  refine ⟨?_, ?_, fun _ => ⟨?_, ?_⟩⟩
  · refine mul_le_mul_of_nonneg_right ?_ hpow.le
    split <;> norm_num
  · exact mul_le_mul_of_nonneg_right (by linarith) hpow.le
  · exact mul_lt_mul_of_pos_right (by linarith) hpow
  · exact mul_lt_mul_of_pos_right (by linarith) hpow

/-- Below the significands of normal doubles there is only the lowest power of two. -/
theorem Rounds.eq_of_lt {y : ℚ} (h : Rounds (y * 2 ^ q) m q) (hc : IsCanonical m q)
    (hmin : q ≠ -1074) (hy : y < 4503599627370496) :
    m = 4503599627370496 ∧ 9007199254740992 - 1 / 2 ≤ y * 2 := by
  have hpow : (0 : ℚ) < 2 ^ q := zpow_pos two_pos q
  have hm : (m : ℚ) < 4503599627370497 := by linarith [h.isNearest.le]
  norm_cast at hm
  obtain rfl : m = 4503599627370496 := by
    have hnormal := hc.normal.resolve_right hmin
    omega
  have hlow := (mul_le_mul_iff_left₀ hpow).1 h.le
  rw [if_pos ⟨rfl, lt_of_le_of_ne hc.le hmin.symm⟩] at hlow
  norm_num at hlow
  exact ⟨rfl, by linarith⟩

/-- What rounds to a power of two from below takes one place more, and rounding carries. -/
theorem roundWithAccuracy_below (hc : IsCanonical m (E + n)) (s : Sign)
    (h : Represents (.ofMantissaAndAccuracy M acc) (y * 2 ^ n))
    (hv : Rounds (y * 2 ^ (E + n : ℤ)) m (E + n)) (hmin : E + n ≠ -1074) (hn : 0 < n)
    (hy : y < 4503599627370496) :
    roundWithAccuracy Format.binary64 s M E acc = .finite s m (E + n) hc.pos := by
  have hle := hc.le
  obtain ⟨rfl, hlow⟩ := hv.eq_of_lt hc hmin hy
  obtain ⟨n, rfl⟩ : ∃ k, n = k + 1 := ⟨n - 1, by omega⟩
  have hdouble : y * 2 ^ (n + 1) = y * 2 * 2 ^ n := by ring
  rw [hdouble] at h
  have hlog := log2_eq h (by linarith) (by linarith)
  have ht : Format.binary64.targetExponent (totalExponent M E) = E + n := by
    rw [totalExponent, targetExponent_eq, hlog]
    omega
  have hnearest : IsNearest (y * 2) 9007199254740992 :=
    ⟨by push_cast; linarith, by push_cast; linarith, fun h => absurd h (by decide)⟩
  refine (roundWithAccuracy_carry (by omega) s h ht hnearest).trans ?_
  simp only [UnpackedFloat.finite.injEq, true_and]
  omega

/-- What rounds to a double is rounded to it, from a mantissa with enough bits. -/
theorem roundWithAccuracy_eq (hc : IsCanonical m q) (s : Sign)
    (h : Represents (.ofMantissaAndAccuracy M acc) r) (hv : Rounds (r * 2 ^ E) m q) (hE : E ≤ q)
    (hE' : r * 2 ^ E < 4503599627370496 * 2 ^ q → -1074 < q → E < q) :
    roundWithAccuracy Format.binary64 s M E acc = .finite s m q hc.pos := by
  obtain ⟨n, rfl⟩ : ∃ n : ℕ, q = E + n := ⟨(q - E).toNat, by omega⟩
  -- the number in units of the last place of the double
  obtain ⟨y, rfl⟩ : ∃ y, r = y * 2 ^ n := ⟨r / 2 ^ n, by field_simp⟩
  have hunit : y * 2 ^ n * 2 ^ E = y * 2 ^ (E + n : ℤ) := by
    rw [zpow_add₀ two_ne_zero, zpow_natCast]
    ring
  rw [hunit] at hv hE'
  rw [mul_lt_mul_iff_left₀ (zpow_pos two_pos _)] at hE'
  have hm : (m : ℚ) ≤ 9007199254740991 := by exact_mod_cast Nat.le_of_lt_succ hc.lt
  have hle := hc.le
  by_cases hnormal : 4503599627370496 ≤ y
  · have hlog := log2_eq h hnormal (by linarith [hv.isNearest.ge])
    refine roundWithAccuracy_aligned hc s h ?_ hv.isNearest
    rw [totalExponent, targetExponent_eq, hlog]
    omega
  · rw [not_le] at hnormal
    by_cases hmin : E + n = -1074
    · have hlog := log2_lt h hnormal
      refine roundWithAccuracy_aligned hc s h ?_ hv.isNearest
      rw [totalExponent, targetExponent_eq]
      omega
    · have hlt := hE' hnormal (lt_of_le_of_ne hle (Ne.symm hmin))
      exact roundWithAccuracy_below hc s h hv hmin (by omega) hnormal

/-! ### Decimals -/

/-- The number that a decimal is. -/
def toRat (d : Decimal) : ℚ := d.coefficient * 10 ^ d.exponent

variable {v : ℚ}

/-- What rounds to a finite double is neither too small nor too large for one. -/
theorem Rounds.bounds (h : Rounds v m q) (hc : IsCanonical m q) :
    (2 : ℚ) ^ (q - 1) ≤ v ∧ v < 2 ^ (q + 53) := by
  have hpow : (0 : ℚ) < 2 ^ q := zpow_pos two_pos q
  obtain ⟨y, rfl⟩ : ∃ y, v = y * 2 ^ q := ⟨v / 2 ^ q, by field_simp⟩
  obtain ⟨hle, hge, -⟩ := h.isNearest
  have hpos : (1 : ℚ) ≤ m := by exact_mod_cast hc.pos
  have hlt : (m : ℚ) ≤ 9007199254740991 := by exact_mod_cast Nat.le_of_lt_succ hc.lt
  constructor
  · rw [zpow_sub₀ two_ne_zero, zpow_one, div_eq_inv_mul]
    exact mul_le_mul_of_nonneg_right (by linarith) hpow.le
  · rw [add_comm, zpow_add₀ two_ne_zero]
    exact mul_lt_mul_of_pos_right (by norm_num; linarith) hpow

theorem zpow_log2_le {c : ℕ} (hc : c ≠ 0) : (2 : ℚ) ^ (c.log2 : ℤ) ≤ c := by
  rw [zpow_natCast]
  exact_mod_cast Nat.log2_self_le hc

theorem lt_zpow_log2 (c : ℕ) : (c : ℚ) < 2 ^ (c.log2 + 1 : ℤ) := by
  have hlt := Nat.lt_log2_self (n := c)
  exact_mod_cast hlt

theorem zpow_log2_lt_div {n d : ℕ} (hn : n ≠ 0) (hd : 0 < d) :
    (2 : ℚ) ^ ((n.log2 : ℤ) - d.log2 - 1) < n / d := by
  have hd' : (0 : ℚ) < d := by exact_mod_cast hd
  rw [lt_div_iff₀ hd']
  calc (2 : ℚ) ^ ((n.log2 : ℤ) - d.log2 - 1) * d
      < 2 ^ ((n.log2 : ℤ) - d.log2 - 1) * 2 ^ (d.log2 + 1 : ℤ) :=
        mul_lt_mul_of_pos_left (lt_zpow_log2 d) (zpow_pos two_pos _)
    _ = 2 ^ (n.log2 : ℤ) := by rw [← zpow_add₀ two_ne_zero]; congr 1; omega
    _ ≤ n := zpow_log2_le hn

theorem two_zpow_le_ten_zpow {e : ℤ} (he : 0 ≤ e) : (2 : ℚ) ^ e ≤ 10 ^ e := by
  lift e to ℕ using he
  rw [zpow_natCast, zpow_natCast]
  exact pow_le_pow_left₀ two_pos.le (by norm_num) e

theorem ten_zpow_le_two_zpow {e : ℤ} (he : e ≤ 0) : (10 : ℚ) ^ e ≤ 2 ^ e := by
  obtain ⟨n, rfl⟩ : ∃ n : ℕ, e = -n := ⟨(-e).toNat, by omega⟩
  rw [zpow_neg, zpow_neg, zpow_natCast, zpow_natCast]
  exact inv_anti₀ (by positivity) (pow_le_pow_left₀ two_pos.le (by norm_num) n)

/-- A quotient is taken with as many places as the double will have. -/
theorem exists_divCore (n d : ℕ) : ∃ s : ℕ,
    -(s : ℤ) = min 0 (max ((n.log2 : ℤ) - d.log2 - 53) (-1074)) ∧
    divCore Format.binary64 n 0 d 0 = (n * 2 ^ s / d, -(s : ℤ), accuracyOfFraction (n * 2 ^ s % d) d) := by
  have htarget : Format.binary64.targetExponent (totalExponent n 0 - totalExponent d 0) =
      max ((n.log2 : ℤ) - d.log2 - 53) (-1074) := by
    have harg : totalExponent n 0 - totalExponent d 0 = ((n.log2 : ℤ) - d.log2 - 1) + 1 + 0 := by
      rw [totalExponent, totalExponent]
      omega
    rw [harg, targetExponent_eq]
    omega
  generalize max ((n.log2 : ℤ) - d.log2 - 53) (-1074) = t at htarget
  refine ⟨(0 - min 0 t).toNat, by omega, ?_⟩
  have hexponent : min 0 t = -((0 - min 0 t).toNat : ℤ) := by omega
  rw [divCore, sub_zero, htarget, Nat.shiftLeft_eq, ← hexponent]

theorem div_eq {n d M : ℕ} {E : ℤ} {acc : Accuracy} (hn : 0 < n) (hd : 0 < d)
    (h : divCore Format.binary64 n 0 d 0 = (M, E, acc)) :
    UnpackedFloat.div Format.binary64 (.finite .positive n 0 hn) (.finite .positive d 0 hd) =
      roundWithAccuracy Format.binary64 .positive M E acc := by
  rw [UnpackedFloat.div, h]
  rfl

section

variable {c : ℕ} {e : ℤ}

theorem Rounds.coefficient_ne_zero (hv : Rounds (c * 10 ^ e) m q) (hc : IsCanonical m q) :
    c ≠ 0 := by
  rintro rfl
  have hlow := (hv.bounds hc).1
  have hpow : (0 : ℚ) < 2 ^ (q - 1) := zpow_pos two_pos _
  rw [Nat.cast_zero, zero_mul] at hlow
  linarith

/-- What rounds to a double has no exponent that is taken for infinity. -/
theorem Rounds.exponent_le (hv : Rounds (c * 10 ^ e) m q) (hc : IsCanonical m q) : e ≤ 2048 := by
  by_contra he
  have hq := hc.le_max
  have hone : (1 : ℚ) ≤ c := by exact_mod_cast Nat.pos_of_ne_zero (hv.coefficient_ne_zero hc)
  have hten : (0 : ℚ) < 10 ^ e := zpow_pos (by norm_num) e
  have hle : (2 : ℚ) ^ (q + 53) ≤ 2 ^ e := zpow_le_zpow_right₀ one_le_two (by omega)
  have hle' : (2 : ℚ) ^ e ≤ 10 ^ e := two_zpow_le_ten_zpow (by omega)
  have hhigh := (hv.bounds hc).2
  nlinarith

/-- What rounds to a double has no exponent that is taken for zero. -/
theorem Rounds.le_exponent (hv : Rounds (c * 10 ^ e) m q) (hc : IsCanonical m q) :
    -(2048 + (c.log2 : ℤ)) ≤ e := by
  by_contra he
  have hq := hc.le
  have hle : (c : ℚ) * 10 ^ e ≤ 2 ^ (q - 1) / 2 := by
    calc (c : ℚ) * 10 ^ e ≤ 2 ^ (c.log2 + 1 : ℤ) * 2 ^ e :=
          mul_le_mul (lt_zpow_log2 c).le (ten_zpow_le_two_zpow (by omega))
            (zpow_pos (by norm_num) e).le (zpow_pos two_pos _).le
      _ = 2 ^ (c.log2 + 1 + e : ℤ) := (zpow_add₀ two_ne_zero _ _).symm
      _ ≤ 2 ^ (q - 1 - 1) := zpow_le_zpow_right₀ one_le_two (by omega)
      _ = 2 ^ (q - 1) / 2 := by rw [zpow_sub₀ two_ne_zero (q - 1), zpow_one]
  have hpow : (0 : ℚ) < 2 ^ (q - 1) := zpow_pos two_pos _
  have hlow := (hv.bounds hc).1
  linarith

end

/-- A whole number that rounds to a double, with 53 places more than it has. -/
theorem roundWithAccuracy_whole (hc : IsCanonical m q) {c e : ℕ}
    (hv : Rounds (c * 10 ^ (e : ℤ)) m q) :
    roundWithAccuracy Format.binary64 .positive (c <<< 53 * 10 ^ e) (-53 + 0) .exact =
      .finite .positive m q hc.pos := by
  have hone : (1 : ℚ) ≤ c := by exact_mod_cast Nat.pos_of_ne_zero (hv.coefficient_ne_zero hc)
  have hten : (1 : ℚ) ≤ 10 ^ (e : ℤ) := one_le_zpow₀ (by norm_num) (Nat.cast_nonneg e)
  have hhigh := (hv.bounds hc).2
  have hvalue : ((c <<< 53 * 10 ^ e : ℕ) : ℚ) * 2 ^ (-53 + 0 : ℤ) = c * 10 ^ (e : ℤ) := by
    rw [Nat.shiftLeft_eq, add_zero, zpow_neg, zpow_natCast]
    push_cast
    field_simp
  have hlt : -53 < q := by
    have hpow : (2 : ℚ) ^ (0 : ℤ) < 2 ^ (q + 53) := by
      rw [zpow_zero]
      nlinarith
    have hexponent := (zpow_lt_zpow_iff_right₀ one_lt_two).1 hpow
    omega
  rw [← hvalue] at hv
  exact roundWithAccuracy_eq hc .positive (represents_exact _) hv (by omega) fun _ _ => by omega

/-- A quotient by a power of ten that rounds to a double. -/
theorem div_eq_of_rounds (hc : IsCanonical m q) {c n : ℕ} (hpos : 0 < c) (hd : 0 < 10 ^ n)
    (hv : Rounds (c * 10 ^ (-(n : ℤ))) m q) :
    UnpackedFloat.div Format.binary64 (.finite .positive c 0 hpos)
      (.finite .positive (10 ^ n) 0 hd) = .finite .positive m q hc.pos := by
  obtain ⟨s, hs, hdiv⟩ := exists_divCore c (10 ^ n)
  have hq := hc.le
  have hhigh := (hv.bounds hc).2
  have hvalue : ((c * 2 ^ s : ℕ) : ℚ) / (10 ^ n : ℕ) * 2 ^ (-(s : ℤ)) = c * 10 ^ (-(n : ℤ)) := by
    rw [zpow_neg, zpow_neg, zpow_natCast, zpow_natCast]
    push_cast
    field_simp
  have hquotient : (2 : ℚ) ^ ((c.log2 : ℤ) - (10 ^ n).log2 - 1) < c * 10 ^ (-(n : ℤ)) := by
    have hlt := zpow_log2_lt_div hpos.ne' hd
    rw [zpow_neg, zpow_natCast, ← div_eq_mul_inv]
    exact_mod_cast hlt
  have hE : -(s : ℤ) ≤ q := by
    have hexponent := (zpow_lt_zpow_iff_right₀ one_lt_two).1 (hquotient.trans hhigh)
    omega
  have hE' : ((c * 2 ^ s : ℕ) : ℚ) / (10 ^ n : ℕ) * 2 ^ (-(s : ℤ)) < 4503599627370496 * 2 ^ q →
      -1074 < q → -(s : ℤ) < q := by
    intro hbelow hnormal
    have hpow : (4503599627370496 : ℚ) * 2 ^ q = 2 ^ (52 + q : ℤ) := by
      rw [zpow_add₀ two_ne_zero]
      norm_num
    rw [hvalue, hpow] at hbelow
    have hexponent := (zpow_lt_zpow_iff_right₀ one_lt_two).1 (hquotient.trans hbelow)
    omega
  rw [← hvalue] at hv
  rw [div_eq hpos hd hdiv]
  exact roundWithAccuracy_eq hc .positive (represents_quotient (c * 2 ^ s) hd) hv hE hE'

/-- A positive decimal that rounds to a double is read as this double. -/
theorem ofScientific_eq (hc : IsCanonical m q) {c : ℕ} {e : ℤ} (hv : Rounds (c * 10 ^ e) m q) :
    UnpackedFloat.ofScientific Format.binary64 c e = .finite .positive m q hc.pos := by
  have hzero := hv.coefficient_ne_zero hc
  have hlarge : ¬ e > 2 ^ Format.binary64.exponentBits := not_lt.2 (hv.exponent_le hc)
  have hsmall : ¬ e < -((2 ^ Format.binary64.exponentBits : ℤ) + c.log2) :=
    not_lt.2 (hv.le_exponent hc)
  rw [UnpackedFloat.ofScientific, dif_neg hzero, if_neg hlarge, if_neg hsmall]
  split
  · next he =>
    lift e to ℕ using he
    exact roundWithAccuracy_whole hc hv
  · next he =>
    obtain ⟨n, rfl⟩ : ∃ n : ℕ, e = -n := ⟨(-e).toNat, by omega⟩
    have hn : (-(-(n : ℤ))).toNat = n := by omega
    simp only [hn]
    exact div_eq_of_rounds hc (Nat.pos_of_ne_zero hzero) (Nat.pow_pos (by decide)) hv

/-! ### Doubles that are read -/

variable {d : Decimal}

theorem toFloat_eq (hc : IsCanonical m q) (hv : Rounds d.toRat m q) :
    d.toFloat = .ofModel (.pack (.finite .positive m q hc.pos)) := by
  rw [toFloat, Float.Model.ofScientific, ofScientific_eq hc hv]

theorem neg_toFloat_eq (hc : IsCanonical m q) (hv : Rounds d.toRat m q) :
    -d.toFloat = .ofModel (.pack (.finite .negative m q hc.pos)) := by
  rw [toFloat_eq hc hv, neg_ofModel_pack, hc.unpack_pack]
  rfl

theorem toFloat_of_toRat_eq_zero (hd : d.toRat = 0) : d.toFloat = .ofModel (.pack (.zero .positive)) := by
  have hten : (10 : ℚ) ^ d.exponent ≠ 0 := zpow_ne_zero _ (by norm_num)
  have hzero : d.coefficient = 0 := by exact_mod_cast (mul_eq_zero.1 hd).resolve_right hten
  rw [toFloat, Float.Model.ofScientific, UnpackedFloat.ofScientific, dif_pos hzero]

theorem neg_toFloat_of_toRat_eq_zero (hd : d.toRat = 0) :
    -d.toFloat = .ofModel (.pack (.zero .negative)) := by
  rw [toFloat_of_toRat_eq_zero hd, neg_ofModel_pack, unpack_zero]
  rfl

end TypedConfig.Decimal
