import Mathlib
import TypedConfig.Calendar.Weekday

/-!
# Day numbers are a calendar

`dayNumber` grows by one from each date to the next one of the Gregorian calendar
(`dayNumber_of_next`), `ofDayNumber?` is its inverse (`ofDayNumber?_eq_some_iff`), and the numbers
of the supported dates are an interval (`exists_dayNumber_iff`). So `addDays?` moves a date by
exactly the days asked for (`addDays?_eq_some_iff`), and the day of the week tells the number of
the date modulo 7 (`weekday_eq_iff`).
-/

namespace TypedConfig.Calendar

/-! ### Years -/

theorem daysBeforeYear_add_one (y : Int) :
    daysBeforeYear (y + 1) = daysBeforeYear y + (monthLengths y).sum := by
  have hleap : isLeap y = true ↔ y % 4 = 0 ∧ (y % 100 ≠ 0 ∨ y % 400 = 0) := by
    simp [isLeap]
  unfold daysBeforeYear monthLengths
  by_cases h : isLeap y = true
  · have := hleap.1 h
    simp only [h, ↓reduceIte, List.sum_cons, List.sum_nil]
    omega
  · have := mt hleap.2 h
    simp only [h, Bool.false_eq_true, ↓reduceIte, List.sum_cons, List.sum_nil]
    omega

theorem daysBeforeYear_mono {y y' : Int} (h : y ≤ y') : daysBeforeYear y ≤ daysBeforeYear y' := by
  unfold daysBeforeYear
  omega

theorem yearOfDay_bounds (n : Int) :
    daysBeforeYear (yearOfDay n) ≤ n ∧ n < daysBeforeYear (yearOfDay n + 1) := by
  have hlow : daysBeforeYear (400 * n / 146097) ≤ n := by
    unfold daysBeforeYear
    omega
  have hhigh : n < daysBeforeYear (400 * n / 146097 + 3) := by
    unfold daysBeforeYear
    omega
  simp only [yearOfDay]
  split
  · next h => exact ⟨by simpa using hlow, by simpa using h⟩
  · next h =>
    split
    · next h' => exact ⟨h', by simpa [Int.add_assoc] using hhigh⟩
    · next h' => exact ⟨by omega, by omega⟩

theorem yearOfDay_eq {n y : Int} (hlow : daysBeforeYear y ≤ n) (hhigh : n < daysBeforeYear (y + 1)) :
    yearOfDay n = y := by
  obtain ⟨hl, hh⟩ := yearOfDay_bounds n
  rcases Int.lt_trichotomy (yearOfDay n) y with h | h | h
  · have := daysBeforeYear_mono (show yearOfDay n + 1 ≤ y by omega)
    omega
  · exact h
  · have := daysBeforeYear_mono (show y + 1 ≤ yearOfDay n by omega)
    omega

/-! ### Months -/

theorem getElem?_monthLengths {y : Int} {m : Nat} (hm : 1 ≤ m ∧ m ≤ 12) :
    (monthLengths y)[m - 1]? = some (monthLength y m) := by
  have hlen : m - 1 < (monthLengths y).length := by
    simp only [monthLengths, List.length_cons, List.length_nil]
    omega
  rw [monthLength, if_neg (by omega), List.getD_eq_getElem?_getD, List.getElem?_eq_getElem hlen,
    Option.getD_some]

theorem daysBeforeMonth_eq_sum (y : Int) (m : Nat) :
    daysBeforeMonth y m = ((monthLengths y).take (m - 1)).sum := by
  rw [daysBeforeMonth, List.sum_eq_foldl]

theorem splitAtLengths_of_lt {ls : List Nat} {i k l : Nat} (hi : ls[i]? = some l) (hk : k < l) :
    splitAtLengths ls ((ls.take i).sum + k) = (i, k) := by
  induction ls generalizing i with
  | nil => cases hi
  | cons l' ls ih =>
    cases i with
    | zero =>
      cases hi
      simp [splitAtLengths, hk]
    | succ i =>
      have hrec := ih hi
      rw [List.take_succ_cons, List.sum_cons, splitAtLengths, if_neg (by omega),
        show l' + (ls.take i).sum + k - l' = (ls.take i).sum + k by omega, hrec]

theorem splitAtLengths_of_lt_sum {ls : List Nat} {k : Nat} (hk : k < ls.sum) :
    ∃ i r l, splitAtLengths ls k = (i, r) ∧ ls[i]? = some l ∧ r < l ∧ (ls.take i).sum + r = k := by
  induction ls generalizing k with
  | nil => simp at hk
  | cons l ls ih =>
    rw [List.sum_cons] at hk
    rw [splitAtLengths]
    by_cases hl : k < l
    · exact ⟨0, k, l, by rw [if_pos hl], rfl, hl, by simp⟩
    · obtain ⟨i, r, l', hsplit, hi, hr, hsum⟩ := ih (show k - l < ls.sum by omega)
      refine ⟨i + 1, r, l', by rw [if_neg hl, hsplit], hi, hr, ?_⟩
      rw [List.take_succ_cons, List.sum_cons]
      omega

theorem sum_take_add_lt {ls : List Nat} {i k l : Nat} (hi : ls[i]? = some l) (hk : k < l) :
    (ls.take i).sum + k < ls.sum := by
  induction ls generalizing i with
  | nil => cases hi
  | cons l' ls ih =>
    cases i with
    | zero =>
      cases hi
      simp only [List.take_zero, List.sum_nil, List.sum_cons]
      omega
    | succ i =>
      have hrec := ih hi
      rw [List.take_succ_cons, List.sum_cons, List.sum_cons]
      omega

namespace Date

/-! ### Dates and their numbers -/

theorem ofYMD?_eq_some_iff {y : Int} {m k : Nat} {d : Date} :
    ofYMD? y m k = some d ↔ d.year = y ∧ d.month = m ∧ d.day = k := by
  constructor
  · intro h
    unfold ofYMD? at h
    split at h
    · split at h
      · split at h
        · cases h
          exact ⟨rfl, rfl, rfl⟩
        · cases h
      · cases h
    · cases h
  · rintro ⟨rfl, rfl, rfl⟩
    rw [ofYMD?, dif_pos d.year_mem, dif_pos d.month_mem, dif_pos d.day_mem]

theorem dayNumber_bounds (d : Date) :
    daysBeforeYear d.year ≤ d.dayNumber ∧ d.dayNumber < daysBeforeYear (d.year + 1) := by
  have hlt := sum_take_add_lt (getElem?_monthLengths (y := d.year) d.month_mem)
    (show d.day - 1 < monthLength d.year d.month by have := d.day_mem; omega)
  rw [daysBeforeYear_add_one, dayNumber, daysBeforeMonth_eq_sum]
  omega

theorem ofDayNumber?_dayNumber (d : Date) : ofDayNumber? d.dayNumber = some d := by
  have hyear : yearOfDay d.dayNumber = d.year :=
    yearOfDay_eq d.dayNumber_bounds.1 d.dayNumber_bounds.2
  have hrest : (d.dayNumber - daysBeforeYear d.year).toNat =
      ((monthLengths d.year).take (d.month - 1)).sum + (d.day - 1) := by
    rw [dayNumber, daysBeforeMonth_eq_sum]
    omega
  have hsplit := splitAtLengths_of_lt (getElem?_monthLengths (y := d.year) d.month_mem)
    (show d.day - 1 < monthLength d.year d.month by have := d.day_mem; omega)
  simp only [ofDayNumber?, hyear, hrest, hsplit]
  have := d.month_mem
  have := d.day_mem
  exact ofYMD?_eq_some_iff.2 ⟨rfl, by omega, by omega⟩

/-- The months and days that a number leaves within its year. -/
theorem exists_split (n : Int) :
    ∃ i k l, splitAtLengths (monthLengths (yearOfDay n)) (n - daysBeforeYear (yearOfDay n)).toNat
        = (i, k) ∧ (monthLengths (yearOfDay n))[i]? = some l ∧ k < l ∧
      daysBeforeYear (yearOfDay n) + ((monthLengths (yearOfDay n)).take i).sum + k = n := by
  obtain ⟨hlow, hhigh⟩ := yearOfDay_bounds n
  rw [daysBeforeYear_add_one] at hhigh
  obtain ⟨i, k, l, hsplit, hi, hk, hsum⟩ := splitAtLengths_of_lt_sum
    (show (n - daysBeforeYear (yearOfDay n)).toNat < (monthLengths (yearOfDay n)).sum by omega)
  exact ⟨i, k, l, hsplit, hi, hk, by omega⟩

theorem ofDayNumber?_eq_some_iff {n : Int} {d : Date} :
    ofDayNumber? n = some d ↔ d.dayNumber = n := by
  constructor
  · intro h
    obtain ⟨i, k, l, hsplit, hi, hk, hsum⟩ := exists_split n
    simp only [ofDayNumber?, hsplit] at h
    obtain ⟨hy, hm, hd⟩ := ofYMD?_eq_some_iff.1 h
    rw [dayNumber, daysBeforeMonth_eq_sum, hy, hm, hd, Nat.add_sub_cancel, Nat.add_sub_cancel]
    exact hsum
  · rintro rfl
    exact d.ofDayNumber?_dayNumber

theorem dayNumber_injective {d d' : Date} (h : d.dayNumber = d'.dayNumber) : d = d' := by
  have := d.ofDayNumber?_dayNumber
  rw [h, ofDayNumber?_dayNumber] at this
  exact (Option.some.inj this).symm

/-- The dates of the supported years have all the numbers from the first of them to the last. -/
theorem exists_dayNumber_iff {n : Int} :
    (∃ d : Date, d.dayNumber = n) ↔
      daysBeforeYear minYear ≤ n ∧ n < daysBeforeYear (maxYear + 1) := by
  constructor
  · rintro ⟨d, rfl⟩
    obtain ⟨hlow, hhigh⟩ := d.dayNumber_bounds
    have := daysBeforeYear_mono d.year_mem.1
    have := daysBeforeYear_mono (show d.year + 1 ≤ maxYear + 1 by have := d.year_mem.2; omega)
    omega
  · rintro ⟨hlow, hhigh⟩
    obtain ⟨hl, hh⟩ := yearOfDay_bounds n
    have hmin : minYear ≤ yearOfDay n := by
      refine Int.not_lt.1 fun h => ?_
      have := daysBeforeYear_mono (show yearOfDay n + 1 ≤ minYear by omega)
      omega
    have hmax : yearOfDay n ≤ maxYear := by
      refine Int.not_lt.1 fun h => ?_
      have := daysBeforeYear_mono (show maxYear + 1 ≤ yearOfDay n by omega)
      omega
    obtain ⟨i, k, l, hsplit, hi, hk, hsum⟩ := exists_split n
    have hi12 : i < 12 := (List.getElem?_eq_some_iff.1 hi).1
    have hlen := getElem?_monthLengths (y := yearOfDay n) (show 1 ≤ i + 1 ∧ i + 1 ≤ 12 by omega)
    rw [Nat.add_sub_cancel, hi] at hlen
    have hl := Option.some.inj hlen
    refine ⟨⟨yearOfDay n, i + 1, k + 1, ⟨hmin, hmax⟩, by omega, by omega⟩, ?_⟩
    rw [dayNumber, daysBeforeMonth_eq_sum]
    simp only [Nat.add_sub_cancel]
    exact hsum

/-! ### The next date -/

/-- The date `d'` is the next one after `d`: the next day of its month, or the first of the next
month after the last day of a month, or the first of January after the last day of a year. -/
inductive Next (d d' : Date) : Prop
  | day (hy : d'.year = d.year) (hm : d'.month = d.month) (hd : d'.day = d.day + 1)
  | month (hlast : d.day = monthLength d.year d.month) (hy : d'.year = d.year)
      (hm : d'.month = d.month + 1) (hd : d'.day = 1)
  | year (hlast : d.month = 12 ∧ d.day = 31) (hy : d'.year = d.year + 1) (hm : d'.month = 1)
      (hd : d'.day = 1)

theorem daysBeforeMonth_add_one {y : Int} {m : Nat} (hm : 1 ≤ m ∧ m ≤ 12) :
    daysBeforeMonth y (m + 1) = daysBeforeMonth y m + monthLength y m := by
  rw [daysBeforeMonth_eq_sum, daysBeforeMonth_eq_sum,
    show m + 1 - 1 = m - 1 + 1 by omega, List.take_add_one, getElem?_monthLengths hm,
    List.sum_append, Option.toList_some, List.sum_singleton]

theorem dayNumber_of_next {d d' : Date} (h : d.Next d') : d'.dayNumber = d.dayNumber + 1 := by
  have hday := d.day_mem
  unfold dayNumber
  cases h with
  | day hy hm hd =>
    rw [hy, hm, hd]
    omega
  | month hlast hy hm hd =>
    rw [hy, hm, hd, daysBeforeMonth_add_one d.month_mem]
    omega
  | year hlast hy hm hd =>
    have hsum : daysBeforeMonth d.year 12 + 31 = (monthLengths d.year).sum := by
      simp only [daysBeforeMonth_eq_sum, monthLengths, List.take_succ_cons, List.take_zero,
        List.sum_cons, List.sum_nil]
      omega
    have hfirst : daysBeforeMonth (d.year + 1) 1 = 0 := rfl
    rw [hy, hm, hd, hfirst, daysBeforeYear_add_one, hlast.1, hlast.2, ← hsum]
    omega

/-! ### Going some days -/

theorem addDays?_eq_some_iff {d d' : Date} {n : Int} :
    d.addDays? n = some d' ↔ d'.dayNumber = d.dayNumber + n :=
  ofDayNumber?_eq_some_iff

theorem addDays?_eq_none_iff {d : Date} {n : Int} :
    d.addDays? n = none ↔ ∀ d' : Date, d'.dayNumber ≠ d.dayNumber + n := by
  rw [Option.eq_none_iff_forall_ne_some]
  exact forall_congr' fun d' => not_congr addDays?_eq_some_iff

end Date

/-! ### Days of the week -/

/-- The days from Monday to a day of the week. -/
def Weekday.fromMonday : Weekday → Nat
  | monday => 0
  | tuesday => 1
  | wednesday => 2
  | thursday => 3
  | friday => 4
  | saturday => 5
  | sunday => 6

theorem Date.weekday_eq_iff {d : Date} {w : Weekday} :
    d.weekday = w ↔ d.dayNumber % 7 = w.fromMonday := by
  have hlow := Int.emod_nonneg d.dayNumber (show (7 : Int) ≠ 0 by decide)
  have hhigh := Int.emod_lt_of_pos d.dayNumber (show (0 : Int) < 7 by decide)
  obtain ⟨k, hk⟩ := Int.eq_ofNat_of_zero_le hlow
  rw [weekday, hk, Int.toNat_natCast]
  have hk7 : k < 7 := by omega
  match k, hk7 with
  | 0, _ | 1, _ | 2, _ | 3, _ | 4, _ | 5, _ | 6, _ => cases w <;> decide

end TypedConfig.Calendar
