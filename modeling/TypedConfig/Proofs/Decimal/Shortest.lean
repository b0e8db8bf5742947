import TypedConfig.Decimal.Shortest
import TypedConfig.Proofs.Decimal.Rounding

/-!
# The shortest decimal reads back

A grid point that is taken is inside the interval of the double (`Interval.contains_of_gridPoint`),
and on a grid with the double itself it is the double (`Interval.gridPoint_of_dvd`), so that the
search finds one (`gridPoint_shortest`). So the shortest decimal of a double rounds to it
(`rounds_shortest`).
-/

namespace TypedConfig.Decimal

namespace Interval

variable {i : Interval} {tie : Tie} {p : ℤ} {f : ℕ}

/-- The multiple `f * 10 ^ p` is inside the interval. -/
structure Contains (i : Interval) (p : ℤ) (f : ℕ) : Prop where
  low : i.low * 10 ^ (-p).toNat ≤ f * (i.denominator * 10 ^ p.toNat)
  high : f * (i.denominator * 10 ^ p.toNat) ≤ i.high * 10 ^ (-p).toNat
  strict : i.closed = false → i.low * 10 ^ (-p).toNat < f * (i.denominator * 10 ^ p.toNat) ∧
    f * (i.denominator * 10 ^ p.toNat) < i.high * 10 ^ (-p).toNat

/-- The multiple `k * 10 ^ p` does not pass the lower end. -/
def PastLow (i : Interval) (p : ℤ) (k : ℕ) : Prop :=
  if i.closed then i.low * 10 ^ (-p).toNat ≤ k * (i.denominator * 10 ^ p.toNat)
  else i.low * 10 ^ (-p).toNat < k * (i.denominator * 10 ^ p.toNat)

/-- The multiple `k * 10 ^ p` does not pass the upper end. -/
def UnderHigh (i : Interval) (p : ℤ) (k : ℕ) : Prop :=
  if i.closed then k * (i.denominator * 10 ^ p.toNat) ≤ i.high * 10 ^ (-p).toNat
  else k * (i.denominator * 10 ^ p.toNat) < i.high * 10 ^ (-p).toNat

instance {k : ℕ} : Decidable (i.PastLow p k) :=
  inferInstanceAs (Decidable (ite (i.closed = true) (_ ≤ _) (_ < _)))

instance {k : ℕ} : Decidable (i.UnderHigh p k) :=
  inferInstanceAs (Decidable (ite (i.closed = true) (_ ≤ _) (_ < _)))

theorem Contains.of_ends {k : ℕ} (hlow : i.PastLow p k) (hhigh : i.UnderHigh p k) :
    i.Contains p k := by
  unfold PastLow at hlow
  unfold UnderHigh at hhigh
  split at hlow
  · next hclosed =>
    rw [if_pos hclosed] at hhigh
    exact ⟨hlow, hhigh, fun hopen => by simp [hclosed] at hopen⟩
  · next hopen =>
    rw [if_neg hopen] at hhigh
    exact ⟨hlow.le, hhigh.le, fun _ => ⟨hlow, hhigh⟩⟩

/-- The factor of the last multiple of `10 ^ p` that is not above the value. -/
def floor (i : Interval) (p : ℤ) : ℕ :=
  i.value * 10 ^ (-p).toNat / (i.denominator * 10 ^ p.toNat)

/-- A multiple below the value does not pass the upper end. -/
theorem underHigh_floor (hhigh : i.value < i.high) : i.UnderHigh p (i.floor p) := by
  have hvalue : i.floor p * (i.denominator * 10 ^ p.toNat) < i.high * 10 ^ (-p).toNat :=
    (Nat.div_mul_le_self _ _).trans_lt
      (Nat.mul_lt_mul_of_pos_right hhigh (Nat.pow_pos (by decide)))
  unfold UnderHigh
  split
  · exact hvalue.le
  · exact hvalue

/-- A multiple that is not below the value does not pass the lower end. -/
theorem pastLow_of_le (hlow : i.low < i.value) {k : ℕ}
    (h : i.value * 10 ^ (-p).toNat ≤ k * (i.denominator * 10 ^ p.toNat)) : i.PastLow p k := by
  have hvalue : i.low * 10 ^ (-p).toNat < k * (i.denominator * 10 ^ p.toNat) :=
    (Nat.mul_lt_mul_of_pos_right hlow (Nat.pow_pos (by decide))).trans_le h
  unfold PastLow
  split
  · exact hvalue.le
  · exact hvalue

/-- The neighbour of the value that is nearer to it, or the one that the tie rule takes. -/
def nearer (i : Interval) (tie : Tie) (p : ℤ) : ℕ :=
  let step := i.denominator * 10 ^ p.toNat
  let twice := 2 * (i.value * 10 ^ (-p).toNat - i.floor p * step)
  if twice < step then i.floor p
  else if step < twice then i.floor p + 1
  else match tie with
    | .up => i.floor p + 1
    | .even => if i.floor p % 2 = 0 then i.floor p else i.floor p + 1

theorem nearer_eq_or (i : Interval) (tie : Tie) (p : ℤ) :
    i.nearer tie p = i.floor p ∨ i.nearer tie p = i.floor p + 1 := by
  unfold nearer
  cases tie <;> dsimp only <;> split_ifs <;> simp

theorem gridPoint_eq : i.gridPoint tie p =
    if i.PastLow p (i.floor p) ∧ i.UnderHigh p (i.floor p + 1) then some (i.nearer tie p)
    else if i.PastLow p (i.floor p) then some (i.floor p)
    else if i.UnderHigh p (i.floor p + 1) then some (i.floor p + 1)
    else none := by
  have hnearer : some (i.nearer tie p) =
      if 2 * (i.value * 10 ^ (-p).toNat - i.floor p * (i.denominator * 10 ^ p.toNat)) <
          i.denominator * 10 ^ p.toNat then some (i.floor p)
      else if i.denominator * 10 ^ p.toNat <
          2 * (i.value * 10 ^ (-p).toNat - i.floor p * (i.denominator * 10 ^ p.toNat)) then
        some (i.floor p + 1)
      else match tie with
        | .up => some (i.floor p + 1)
        | .even => some (if i.floor p % 2 = 0 then i.floor p else i.floor p + 1) := by
    unfold nearer
    cases tie <;> dsimp only <;> split_ifs <;> rfl
  rw [hnearer]
  simp only [PastLow, UnderHigh, add_mul, one_mul]
  rfl

/-- Only the two neighbours of the value are taken, and each only if it does not pass the end on
its side. -/
theorem gridPoint_eq_some (h : i.gridPoint tie p = some f) :
    f = i.floor p ∧ i.PastLow p f ∨ f = i.floor p + 1 ∧ i.UnderHigh p f := by
  rw [gridPoint_eq] at h
  split_ifs at h with hboth hbelow habove
  · obtain rfl := Option.some.inj h
    rcases i.nearer_eq_or tie p with heq | heq <;> rw [heq]
    · exact .inl ⟨rfl, hboth.1⟩
    · exact .inr ⟨rfl, hboth.2⟩
  · obtain rfl := Option.some.inj h
    exact .inl ⟨rfl, hbelow⟩
  · obtain rfl := Option.some.inj h
    exact .inr ⟨rfl, habove⟩

theorem contains_of_gridPoint (hlow : i.low < i.value) (hhigh : i.value < i.high)
    (hd : 0 < i.denominator) (h : i.gridPoint tie p = some f) : i.Contains p f := by
  rcases gridPoint_eq_some h with ⟨rfl, hpast⟩ | ⟨rfl, hunder⟩
  · exact .of_ends hpast (underHigh_floor hhigh)
  · have hstep : 0 < i.denominator * 10 ^ p.toNat := Nat.mul_pos hd (Nat.pow_pos (by decide))
    refine .of_ends (pastLow_of_le hlow ?_) hunder
    rw [add_mul, one_mul]
    exact (Nat.lt_div_mul_add hstep).le

/-- On a grid with the value itself, the value is taken. -/
theorem gridPoint_of_dvd (hlow : i.low < i.value) (hd : 0 < i.denominator)
    (hdvd : i.denominator * 10 ^ p.toNat ∣ i.value * 10 ^ (-p).toNat) :
    i.gridPoint tie p = some (i.floor p) := by
  have hexact : i.floor p * (i.denominator * 10 ^ p.toNat) = i.value * 10 ^ (-p).toNat :=
    Nat.div_mul_cancel hdvd
  have hpast : i.PastLow p (i.floor p) := pastLow_of_le hlow hexact.ge
  have hstep : 0 < i.denominator * 10 ^ p.toNat := Nat.mul_pos hd (Nat.pow_pos (by decide))
  have hnearer : i.nearer tie p = i.floor p := by
    unfold nearer
    dsimp only
    rw [hexact, Nat.sub_self, if_pos (by omega)]
  rw [gridPoint_eq, if_pos hpast, hnearer]
  split
  · rfl
  · rfl

/-- The search ends with a point that is taken. -/
theorem gridPoint_search {finest : ℤ} (hfinest : (i.gridPoint tie finest).isSome = true) (n : ℕ) :
    i.gridPoint tie (i.search tie finest n).exponent =
      some (i.search tie finest n).coefficient := by
  induction n with
  | zero =>
    obtain ⟨f, hf⟩ := Option.isSome_iff_exists.1 hfinest
    rw [search, hf]
    rfl
  | succ n ih =>
    rw [search]
    split
    · next f hf => exact hf
    · exact ih

/-- The search does not pass a grid that has a point. -/
theorem le_exponent_search {finest : ℤ} (hp : (i.gridPoint tie p).isSome = true)
    (hle : finest ≤ p) {n : ℕ} (hn : p ≤ finest + n) : p ≤ (i.search tie finest n).exponent := by
  induction n with
  | zero => simpa [search] using hn
  | succ n ih =>
    rw [search]
    split
    · next f hf => exact_mod_cast hn
    · next hnone =>
      refine ih ?_
      by_contra hgt
      obtain rfl : p = finest + (n + 1) := by push_cast at hn; omega
      rw [hnone] at hp
      cases hp

end Interval

variable {m : ℕ} {q : ℤ}

/-- A power as a quotient of powers that are natural numbers. -/
theorem zpow_eq_div (b : ℕ) (hb : 0 < b) (e : ℤ) :
    (b : ℚ) ^ e = (b ^ e.toNat : ℕ) / (b ^ (-e).toNat : ℕ) := by
  have hb' : (b : ℚ) ≠ 0 := by exact_mod_cast hb.ne'
  rcases le_total 0 e with he | he
  · lift e to ℕ using he
    simp
  · obtain ⟨n, rfl⟩ : ∃ n : ℕ, e = -n := ⟨(-e).toNat, by omega⟩
    simp

/-- The common denominator of a decimal at the exponent `e` and of quarters of the unit `2 ^ q`. -/
def scale (q e : ℤ) : ℚ := 4 * (2 ^ (-q).toNat : ℕ) * (10 ^ (-e).toNat : ℕ)

theorem scale_pos (q e : ℤ) : 0 < scale q e := by
  unfold scale
  positivity

theorem toRat_mul_scale (d : Decimal) (q : ℤ) : d.toRat * scale q d.exponent =
    (d.coefficient * (4 * 2 ^ (-q).toNat * 10 ^ d.exponent.toNat) : ℕ) := by
  have h10 := zpow_eq_div 10 (by norm_num) d.exponent
  push_cast at h10
  unfold scale
  push_cast
  rw [toRat, h10]
  field_simp

theorem mul_unit_mul_scale (a : ℚ) (q e : ℤ) :
    a * 2 ^ q * scale q e = 4 * a * (2 ^ q.toNat : ℕ) * (10 ^ (-e).toNat : ℕ) := by
  have h2 := zpow_eq_div 2 two_pos q
  push_cast at h2
  unfold scale
  push_cast
  rw [h2]
  field_simp

/-- What is inside the interval of a double rounds to the double: over the common denominator the
two conditions are the same. -/
theorem rounds_of_contains (hm : 0 < m) {d : Decimal}
    (h : (Interval.of m q).Contains d.exponent d.coefficient) : Rounds d.toRat m q := by
  obtain ⟨hlow, hhigh, hstrict⟩ := h
  simp only [Interval.of, Nat.pow_eq] at hlow hhigh hstrict
  have hscale := scale_pos q d.exponent
  have habove : 4 * ((m : ℚ) + 1 / 2) = (4 * m + 2 : ℕ) := by
    push_cast
    ring
  have hbelow : 4 * ((m : ℚ) - if m = 4503599627370496 ∧ -1074 < q then 1 / 4 else 1 / 2) =
      (4 * m - if m = 4503599627370496 ∧ -1074 < q then 1 else 2 : ℕ) := by
    split
    · rw [Nat.cast_sub (by omega)]
      push_cast
      ring
    · rw [Nat.cast_sub (by omega)]
      push_cast
      ring
  refine ⟨?_, ?_, fun hodd => ?_⟩
  · rw [← mul_le_mul_iff_left₀ hscale, toRat_mul_scale, mul_unit_mul_scale, hbelow]
    exact_mod_cast hlow
  · rw [← mul_le_mul_iff_left₀ hscale, toRat_mul_scale, mul_unit_mul_scale, habove]
    exact_mod_cast hhigh
  · -- the interval of an odd `m` is open, and its lower half is not the shorter one
    have hne : ¬ (m = 4503599627370496 ∧ -1074 < q) := by
      rintro ⟨rfl, -⟩
      exact absurd hodd (by decide)
    obtain ⟨hlow, hhigh⟩ := hstrict (by simp [hodd])
    simp only [if_neg hne] at hbelow hlow
    constructor
    · rw [← mul_lt_mul_iff_left₀ hscale, toRat_mul_scale, mul_unit_mul_scale, hbelow]
      exact_mod_cast hlow
    · rw [← mul_lt_mul_iff_left₀ hscale, toRat_mul_scale, mul_unit_mul_scale, habove]
      exact_mod_cast hhigh

theorem low_lt_value (hm : 0 < m) : (Interval.of m q).low < (Interval.of m q).value := by
  simp only [Interval.of, Nat.pow_eq]
  refine Nat.mul_lt_mul_of_pos_right ?_ (Nat.two_pow_pos _)
  split <;> omega

theorem denominator_pos : 0 < (Interval.of m q).denominator := by
  simp only [Interval.of, Nat.pow_eq]
  exact Nat.mul_pos (by decide) (Nat.two_pow_pos _)

theorem gridPoint_shortest (hm : 0 < m) (tie : Tie) :
    (Interval.of m q).gridPoint tie (shortest tie m q).exponent =
      some (shortest tie m q).coefficient := by
  refine Interval.gridPoint_search (Option.isSome_of_eq_some
    (Interval.gridPoint_of_dvd (low_lt_value hm) denominator_pos ?_)) _
  simp only [Interval.of, Nat.pow_eq]
  rcases le_total 0 q with hq | hq
  · rw [min_eq_right hq, show (-q).toNat = 0 by omega]
    exact ⟨m * 2 ^ q.toNat, by ring_nf⟩
  · rw [min_eq_left hq, show q.toNat = 0 by omega, show (10 : ℕ) = 2 * 5 from rfl, mul_pow, mul_pow]
    exact ⟨m * 5 ^ (-q).toNat, by ring_nf⟩

theorem rounds_shortest (hm : 0 < m) (tie : Tie) : Rounds (shortest tie m q).toRat m q := by
  have hhigh : (Interval.of m q).value < (Interval.of m q).high := by
    simp only [Interval.of, Nat.pow_eq]
    exact Nat.mul_lt_mul_of_pos_right (by omega) (Nat.two_pow_pos _)
  exact rounds_of_contains hm
    (Interval.contains_of_gridPoint (low_lt_value hm) hhigh denominator_pos (gridPoint_shortest hm tie))

end TypedConfig.Decimal
