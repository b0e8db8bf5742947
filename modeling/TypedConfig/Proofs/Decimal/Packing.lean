import Mathlib
import TypedConfig.Decimal.Basic

/-!
# Finite doubles are significands and exponents

The unpacked form of a finite double is canonical (`IsCanonical`): the significand has 53 bits, or
fewer at the lowest exponent. A finite double is what its unpacked form packs to
(`cases_of_isFinite`), and a canonical form is unpacked as it was packed
(`IsCanonical.unpack_pack`).
-/

namespace TypedConfig.Decimal

open Float.Model (UnpackedFloat Format)
open Float.Model.UnpackedFloat

/-- The significands and exponents of finite doubles. -/
structure IsCanonical (m : Nat) (q : Int) : Prop where
  pos : 0 < m
  lt : m < 9007199254740992
  le : -1074 ≤ q
  le_max : q ≤ 971
  normal : 4503599627370496 ≤ m ∨ q = -1074

/-! ### Parts of a word -/

variable {b : BitVec Format.binary64.numBits}

theorem unpackSign_packComponents (s : Sign) (e : BitVec 11) (m : BitVec 52) :
    unpackSign (packComponents Format.binary64 s e m) = s.toBitVec := by
  simp only [unpackSign, packComponents, BitVec.extractLsb]
  ext i hi
  grind

theorem ofBitVec_toBitVec (s : Sign) : Sign.ofBitVec s.toBitVec = s := by
  cases s <;> rfl

theorem toBitVec_ofBitVec (v : BitVec 1) : (Sign.ofBitVec v).toBitVec = v := by
  revert v
  decide

/-- A word is its parts. -/
theorem packComponents_unpack (b : BitVec Format.binary64.numBits) :
    packComponents Format.binary64 (Sign.ofBitVec (unpackSign b)) (unpackExponent b)
      (unpackMantissa b) = b := by
  rw [packComponents, toBitVec_ofBitVec]
  simp only [unpackSign, unpackExponent, unpackMantissa, BitVec.extractLsb]
  ext i hi
  grind

theorem toNat_implicit (v : BitVec 52) : (1#1 ++ v).toNat = 4503599627370496 + v.toNat := by
  rw [BitVec.toNat_append, ← Nat.shiftLeft_add_eq_or_of_lt v.isLt]
  rfl

/-! ### Packing -/

theorem pack_normal (s : Sign) {m : Nat} {q : Int} (h : 0 < m) (hle : 4503599627370496 ≤ m)
    (hlt : m < 9007199254740992) (hq : -1074 ≤ q) (hq' : q ≤ 971) :
    pack Format.binary64 (.finite s m q h) =
      packComponents Format.binary64 s (BitVec.ofNat 11 (q + 1075).toNat) (BitVec.ofNat 52 m) := by
  have hlog : m.log2 = 52 := (Nat.log2_eq_iff (by omega)).2 ⟨hle, hlt⟩
  have hbias : (q + (Format.binary64.exponentBias : Nat) +
      (Format.binary64.mantissaBitsWithoutImplicit : Nat)).toNat = (q + 1075).toNat :=
    congrArg Int.toNat (Int.add_assoc q 1023 52)
  unfold UnpackedFloat.pack
  simp only [hbias, hlog]
  rw [if_neg (show ¬ 2 ^ 11 ≤ (q + 1075).toNat + 1 by omega)]
  exact if_pos rfl

theorem pack_subnormal (s : Sign) {m : Nat} (h : 0 < m) (hlt : m < 4503599627370496) :
    pack Format.binary64 (.finite s m (-1074) h) =
      packComponents Format.binary64 s 0#11 (BitVec.ofNat 52 m) := by
  have hlog : m.log2 < 52 := (Nat.log2_lt (by omega)).2 hlt
  have hbits : ¬ m.log2 + 1 = 53 := by omega
  unfold UnpackedFloat.pack
  rw [if_neg (by decide)]
  exact if_neg hbits

theorem unpack_normal (s : Sign) {e : BitVec 11} (m : BitVec 52) (he : e ≠ -1#11)
    (he' : e ≠ 0#11) :
    UnpackedFloat.unpack Format.binary64 (packComponents Format.binary64 s e m) =
      .finite s (1#1 ++ m).toNat ((e.toNat : Int) - 1075) (by rw [toNat_implicit]; omega) := by
  unfold UnpackedFloat.unpack
  simp only [unpackMantissa_packComponents, unpackExponent_packComponents,
    unpackSign_packComponents, ofBitVec_toBitVec]
  rw [if_neg he, if_neg he']
  rfl

theorem unpack_subnormal (s : Sign) {m : BitVec 52} (hm : 0 < m.toNat) :
    UnpackedFloat.unpack Format.binary64 (packComponents Format.binary64 s 0#11 m) =
      .finite s m.toNat (-1074) hm := by
  have hm' : m ≠ 0#52 := by
    rintro rfl
    exact absurd hm (by decide)
  unfold UnpackedFloat.unpack
  simp only [unpackMantissa_packComponents, unpackExponent_packComponents,
    unpackSign_packComponents, ofBitVec_toBitVec]
  rw [if_neg (by decide), if_pos trivial, dif_neg hm']
  rfl

theorem unpack_zero (s : Sign) :
    UnpackedFloat.unpack Format.binary64 (pack Format.binary64 (.zero s)) = .zero s := by
  cases s <;> rfl

/-- A canonical form is unpacked as it was packed. -/
theorem IsCanonical.unpack_pack {m : Nat} {q : Int} (h : IsCanonical m q) (s : Sign) :
    UnpackedFloat.unpack Format.binary64 (pack Format.binary64 (.finite s m q h.pos)) =
      .finite s m q h.pos := by
  obtain ⟨hpos, hlt, hle, hmax, hnormal⟩ := h
  by_cases hm : 4503599627370496 ≤ m
  · have hexponent : (BitVec.ofNat 11 (q + 1075).toNat).toNat = (q + 1075).toNat := by
      rw [BitVec.toNat_ofNat, Nat.mod_eq_of_lt (by omega)]
    have hmantissa : (1#1 ++ BitVec.ofNat 52 m).toNat = m := by
      rw [toNat_implicit, BitVec.toNat_ofNat]
      omega
    rw [pack_normal s hpos hm hlt hle hmax, unpack_normal]
    · simp only [hexponent, hmantissa, UnpackedFloat.finite.injEq, true_and]
      omega
    · intro heq
      have hnat := congrArg BitVec.toNat heq
      rw [hexponent, show (-1#11).toNat = 2047 from rfl] at hnat
      omega
    · intro heq
      have hnat := congrArg BitVec.toNat heq
      rw [hexponent, show (0#11).toNat = 0 from rfl] at hnat
      omega
  · obtain rfl : q = -1074 := hnormal.resolve_left hm
    have hmantissa : (BitVec.ofNat 52 m).toNat = m := by
      rw [BitVec.toNat_ofNat]
      omega
    have hpos' : 0 < (BitVec.ofNat 52 m).toNat := by rw [hmantissa]; exact hpos
    rw [pack_subnormal s hpos (Nat.lt_of_not_le hm), unpack_subnormal s hpos']
    simp only [hmantissa]

/-! ### Words of finite doubles -/

theorem unpack_cases (b : BitVec Format.binary64.numBits) :
    (UnpackedFloat.unpack Format.binary64 b).isFinite = false ∨
    (∃ s, UnpackedFloat.unpack Format.binary64 b = .zero s ∧ pack Format.binary64 (.zero s) = b) ∨
    ∃ s m q, ∃ h : IsCanonical m q, UnpackedFloat.unpack Format.binary64 b = .finite s m q h.pos ∧
      pack Format.binary64 (.finite s m q h.pos) = b := by
  have hparts := packComponents_unpack b
  generalize Sign.ofBitVec (unpackSign b) = s at hparts
  generalize unpackExponent b = ev at hparts
  generalize unpackMantissa b = mv at hparts
  have hev : ev.toNat < 2048 := ev.isLt
  have hmv : mv.toNat < 4503599627370496 := mv.isLt
  subst hparts
  by_cases hmax : ev = -1#11
  · subst hmax
    refine .inl ?_
    unfold UnpackedFloat.unpack
    simp only [unpackMantissa_packComponents, unpackExponent_packComponents, if_true]
    split <;> rfl
  by_cases hzero : ev = 0#11
  · subst hzero
    by_cases hm : mv = 0#52
    · subst hm
      exact .inr (.inl ⟨s, unpack_zero s, rfl⟩)
    · have hpos : 0 < mv.toNat := Nat.pos_of_ne_zero fun h => hm (BitVec.eq_of_toNat_eq h)
      have hcanonical : IsCanonical mv.toNat (-1074) :=
        ⟨hpos, by omega, by omega, by omega, .inr rfl⟩
      refine .inr (.inr ⟨s, mv.toNat, -1074, hcanonical, unpack_subnormal s hpos, ?_⟩)
      rw [pack_subnormal s hpos hmv, BitVec.ofNat_toNat, BitVec.setWidth_eq]
  · have hmax' : ev.toNat ≠ 2047 := fun h => hmax (BitVec.eq_of_toNat_eq h)
    have hzero' : ev.toNat ≠ 0 := fun h => hzero (BitVec.eq_of_toNat_eq h)
    have himplicit := toNat_implicit mv
    have hcanonical : IsCanonical (1#1 ++ mv).toNat ((ev.toNat : Int) - 1075) :=
      ⟨by omega, by omega, by omega, by omega, .inl (by omega)⟩
    refine .inr (.inr ⟨s, _, _, hcanonical, unpack_normal s mv hmax hzero, ?_⟩)
    rw [pack_normal s hcanonical.pos (by omega) hcanonical.lt hcanonical.le hcanonical.le_max]
    congr 1
    · apply BitVec.eq_of_toNat_eq
      rw [BitVec.toNat_ofNat]
      omega
    · apply BitVec.eq_of_toNat_eq
      rw [BitVec.toNat_ofNat]
      omega

/-! ### Doubles -/

theorem neg_ofModel_pack (u : UnpackedFloat) : -(Float.ofModel (.pack u)) =
    .ofModel (.pack (UnpackedFloat.unpack Format.binary64 (pack Format.binary64 u)).neg) := rfl

theorem eq_ofModel_pack {x : Float} {u : UnpackedFloat}
    (h : pack Format.binary64 u = x.toModel.toBits.toBitVec) : x = .ofModel (.pack u) := by
  obtain ⟨⟨bits, valid⟩⟩ := x
  have hbits : bits = UInt64.ofBitVec (pack Format.binary64 u) := by rw [h]
  subst hbits
  rfl

/-- A finite double is a signed zero or has a canonical form, and it is what this packs to. -/
theorem cases_of_isFinite {x : Float} (hx : x.isFinite = true) :
    (∃ s, unpack x = .zero s ∧ x = .ofModel (.pack (.zero s))) ∨
    ∃ s m q, ∃ h : IsCanonical m q, unpack x = .finite s m q h.pos ∧
      x = .ofModel (.pack (.finite s m q h.pos)) := by
  rcases unpack_cases x.toModel.toBits.toBitVec with h | ⟨s, hu, hp⟩ | ⟨s, m, q, h, hu, hp⟩
  · exact absurd (hx.symm.trans h) (by decide)
  · exact .inl ⟨s, hu, eq_ofModel_pack hp⟩
  · exact .inr ⟨s, m, q, h, hu, eq_ofModel_pack hp⟩

end TypedConfig.Decimal
