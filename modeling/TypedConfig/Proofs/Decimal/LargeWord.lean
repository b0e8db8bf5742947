import TypedConfig.Proofs.Decimal.WholeNumber

/-!
# Words above the signed ones as doubles

From 2 ^ 63 on, the doubles are multiples of 2048. No double is closer to a whole number between
2 ^ 63 and 2 ^ 64 than the one that it is converted to (`nearest_word`).
-/

namespace TypedConfig.Decimal

open Float.Model.UnpackedFloat (Sign)

/-- The double is a number that no other double is closer to. -/
def IsClosest (x : Float) (v : ℚ) : Prop :=
  ∃ r, rational? x = some r ∧ ∀ y r', rational? y = some r' → |r - v| ≤ |r' - v|

theorem IsClosest.isFinite {x : Float} {v : ℚ} (h : IsClosest x v) : x.isFinite = true := by
  obtain ⟨r, hr, -⟩ := h
  rw [← isSome_rational?, hr]
  rfl

/-- Where a double has the value, the closest has it. -/
theorem IsClosest.rational?_eq {x y : Float} {v : ℚ} (h : IsClosest x v)
    (hy : rational? y = some v) : rational? x = some v := by
  obtain ⟨r, hr, hle⟩ := h
  have hzero : |r - v| ≤ 0 := by simpa using hle y v hy
  rw [hr, sub_eq_zero.1 (abs_nonpos_iff.1 hzero)]

variable {n : ℕ} {m : ℕ} {q : ℤ}

/-- A multiple of 2048 that is nearest to a number, an even one in the middle between two. -/
theorem exists_nearest_multiple (n : ℕ) : ∃ k, 2048 * k ≤ n + 1024 ∧ n ≤ 2048 * k + 1024 ∧
    (k % 2 = 1 → 2048 * k < n + 1024 ∧ n < 2048 * k + 1024) := by
  have hdiv := Nat.div_add_mod n 2048
  have hmod := Nat.mod_lt n (by decide : 0 < 2048)
  by_cases hdown : n % 2048 < 1024 ∨ n % 2048 = 1024 ∧ n / 2048 % 2 = 0
  · exact ⟨n / 2048, by omega, by omega, fun hodd => by omega⟩
  · exact ⟨n / 2048 + 1, by omega, by omega, fun hodd => by omega⟩

/-- A whole number rounds to a multiple of 2048 that is at most half as far away. -/
theorem exists_rounds_word (hlow : 2 ^ 63 ≤ n) (hhigh : n < 2 ^ 64) :
    ∃ m q k, IsCanonical m q ∧ Rounds n m q ∧ (m : ℚ) * 2 ^ q = 2048 * (k : ℕ) ∧
      2048 * k ≤ n + 1024 ∧ n ≤ 2048 * k + 1024 := by
  obtain ⟨k, hbelow, habove, hodd⟩ := exists_nearest_multiple n
  have hn : (2 : ℚ) ^ 63 ≤ n := by exact_mod_cast hlow
  by_cases hk : k < 2 ^ 53
  · have hle : (2048 * k : ℚ) ≤ n + 1024 := by exact_mod_cast hbelow
    have hge : (n : ℚ) ≤ 2048 * k + 1024 := by exact_mod_cast habove
    refine ⟨k, 11, k, ⟨by omega, by omega, by decide, by decide, .inl (by omega)⟩, ⟨?_, ?_, ?_⟩,
      by norm_num [mul_comm], hbelow, habove⟩
    · split
      · next hmin =>
        rw [hmin.1]
        norm_num at hn ⊢
        linarith
      · norm_num
        linarith
    · norm_num
      linarith
    · intro h
      have hlt : (2048 * k : ℚ) < n + 1024 := by exact_mod_cast (hodd h).1
      have hgt : (n : ℚ) < 2048 * k + 1024 := by exact_mod_cast (hodd h).2
      norm_num
      exact ⟨by linarith, by linarith⟩
  · -- rounding carries to the next power of two
    obtain rfl : k = 2 ^ 53 := by omega
    have hle : (2 : ℚ) ^ 64 ≤ n + 1024 := by exact_mod_cast (by omega : 2 ^ 64 ≤ n + 1024)
    have hge : (n : ℚ) < 2 ^ 64 := by exact_mod_cast hhigh
    refine ⟨2 ^ 52, 12, 2 ^ 53, ⟨by norm_num, by norm_num, by decide, by decide, .inl (by norm_num)⟩,
      ⟨?_, ?_, fun h => by norm_num at h⟩, by norm_num, hbelow, habove⟩
    · norm_num at hle ⊢
      linarith
    · norm_num at hge ⊢
      linarith

/-- A double above half a multiple below 2 ^ 63 is a multiple of 2048. -/
theorem exists_multiple (hc : IsCanonical m q) (h : (2 : ℚ) ^ 63 - 1024 < m * 2 ^ q) :
    ∃ k : ℕ, (m : ℚ) * 2 ^ q = 2048 * k := by
  have hq : 11 ≤ q := by
    by_contra hq
    have hpow : (2 : ℚ) ^ q ≤ 2 ^ (10 : ℤ) := zpow_le_zpow_right₀ (by norm_num) (by omega)
    have hm : (m : ℚ) ≤ 9007199254740991 := by exact_mod_cast Nat.le_of_lt_succ hc.lt
    have hle : (m : ℚ) * 2 ^ q ≤ 9007199254740991 * 2 ^ (10 : ℤ) :=
      mul_le_mul hm hpow (zpow_pos two_pos q).le (by norm_num)
    norm_num at h hle
    linarith
  obtain ⟨e, rfl⟩ : ∃ e : ℕ, q = 11 + e := ⟨(q - 11).toNat, by omega⟩
  refine ⟨m * 2 ^ e, ?_⟩
  rw [zpow_add₀ two_ne_zero, zpow_natCast]
  push_cast
  ring

theorem nearest_word (hlow : 2 ^ 63 ≤ n) (hhigh : n < 2 ^ 64) : IsClosest (floatOfInt n) n := by
  obtain ⟨m, q, k, hc, hrounds, hvalue, hbelow, habove⟩ := exists_rounds_word hlow hhigh
  have htoFloat : (⟨n, 0⟩ : Decimal).toRat = n := by simp [toRat]
  have hfloat : rational? (floatOfInt n) = some (2048 * k : ℚ) := by
    rw [floatOfInt, if_neg (by omega), Int.natAbs_natCast, toFloat_eq hc (htoFloat ▸ hrounds),
      rational?_pack hc, apply_positive, ← hvalue]
  refine ⟨_, hfloat, fun y r' hy => ?_⟩
  have hbelow : (2048 * k : ℚ) ≤ n + 1024 := by exact_mod_cast hbelow
  have habove : (n : ℚ) ≤ 2048 * k + 1024 := by exact_mod_cast habove
  have hn : (2 : ℚ) ^ 63 ≤ n := by exact_mod_cast hlow
  by_contra hfar
  rw [not_le] at hfar
  have hclose : |r' - n| < 1024 := hfar.trans_le (abs_le.2 ⟨by linarith, by linarith⟩)
  obtain ⟨hleft, hright⟩ := abs_lt.1 hclose
  rcases rational?_cases hy with ⟨s, -, rfl⟩ | ⟨s, m', q', hc', -, rfl⟩
  · linarith
  · cases s with
    | negative =>
      have hpos : (0 : ℚ) < m' * 2 ^ q' := mul_pos (by exact_mod_cast hc'.pos) (zpow_pos two_pos q')
      rw [apply_negative] at hleft
      linarith
    | positive =>
      rw [apply_positive] at hfar hleft hright
      obtain ⟨k', hk'⟩ := exists_multiple hc' (by linarith)
      rw [hk'] at hfar hleft hright
      have hle : 2048 * k < 2048 * k' + 2048 := by
        exact_mod_cast (by linarith : (2048 * k : ℚ) < 2048 * k' + 2048)
      have hge : 2048 * k' < 2048 * k + 2048 := by
        exact_mod_cast (by linarith : (2048 * k' : ℚ) < 2048 * k + 2048)
      obtain rfl : k = k' := by omega
      exact hfar.false

end TypedConfig.Decimal
