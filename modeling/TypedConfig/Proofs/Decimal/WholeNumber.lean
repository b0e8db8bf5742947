import TypedConfig.Proofs.Decimal.Rational
import TypedConfig.Proofs.Decimal.Rounding

/-!
# Whole numbers as doubles

Every natural number up to 2 ^ 53 is a canonical significand and exponent
(`exists_canonical_of_le`), so that it is its own nearest double, and so is its opposite
(`rational?_toFloat_natural`).
-/

namespace TypedConfig.Decimal

open Float.Model (UnpackedFloat)
open Float.Model.UnpackedFloat (Sign)

theorem exists_canonical_of_le {n : ℕ} (hpos : 0 < n) (hn : n ≤ 2 ^ 53) :
    ∃ m q, IsCanonical m q ∧ (m : ℚ) * 2 ^ q = n := by
  by_cases hlt : n < 2 ^ 53
  · obtain ⟨k, hk⟩ : ∃ k, n.log2 = k := ⟨_, rfl⟩
    obtain ⟨hlow, hhigh⟩ := (Nat.log2_eq_iff (by omega)).1 hk
    have hk52 : k ≤ 52 := Nat.lt_succ_iff.1 (hk ▸ (Nat.log2_lt (by omega)).2 hlt)
    have hup := Nat.mul_le_mul_right (2 ^ (52 - k)) hlow
    have hdown := Nat.mul_lt_mul_of_pos_right hhigh (Nat.two_pow_pos (52 - k))
    rw [← Nat.pow_add, Nat.add_sub_cancel' hk52] at hup
    rw [← Nat.pow_add, show k + 1 + (52 - k) = 53 by omega] at hdown
    refine ⟨n * 2 ^ (52 - k), -(52 - k : ℕ), ⟨?_, ?_, ?_, ?_, .inl ?_⟩, ?_⟩
    · exact Nat.mul_pos hpos (Nat.two_pow_pos _)
    · exact hdown
    · omega
    · omega
    · exact hup
    · rw [zpow_neg, zpow_natCast]
      push_cast
      field_simp
  · obtain rfl : n = 2 ^ 53 := by omega
    exact ⟨2 ^ 52, 1, ⟨by norm_num, by norm_num, by norm_num, by norm_num, .inl (by norm_num)⟩,
      by norm_num⟩

theorem rational?_pack {s : Sign} {m : ℕ} {q : ℤ} (h : IsCanonical m q) :
    rational? (.ofModel (.pack (.finite s m q h.pos))) = some ((s.apply m : ℚ) * 2 ^ q) := by
  have hunpack : unpack (.ofModel (.pack (.finite s m q h.pos))) = .finite s m q h.pos :=
    h.unpack_pack s
  rw [rational?, hunpack]

theorem rational?_pack_zero (s : Sign) : rational? (.ofModel (.pack (.zero s))) = some 0 := by
  cases s <;> rfl

/-- A decimal that is a natural number up to 2 ^ 53 is read exactly, and its opposite too. -/
theorem rational?_toFloat_natural {d : Decimal} {n : ℕ} (hd : d.toRat = n) (hn : n ≤ 2 ^ 53) :
    rational? d.toFloat = some (n : ℚ) ∧ rational? (-d.toFloat) = some (-n : ℚ) := by
  rcases Nat.eq_zero_or_pos n with rfl | hpos
  · rw [Nat.cast_zero] at hd ⊢
    rw [neg_toFloat_of_toRat_eq_zero hd, toFloat_of_toRat_eq_zero hd, neg_zero]
    exact ⟨rational?_pack_zero _, rational?_pack_zero _⟩
  · obtain ⟨m, q, hc, hvalue⟩ := exists_canonical_of_le hpos hn
    have hrounds : Rounds d.toRat m q := by
      rw [hd, ← hvalue]
      exact rounds_self m q
    rw [neg_toFloat_eq hc hrounds, toFloat_eq hc hrounds, rational?_pack hc, rational?_pack hc,
      apply_positive, apply_negative, hvalue]
    exact ⟨rfl, rfl⟩

end TypedConfig.Decimal
