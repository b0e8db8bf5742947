import TypedConfig.DateExpr.Reader
import TypedConfig.Proofs.Calendar.LeapSecond
import TypedConfig.Proofs.DateExpr.Shift

/-!
# The nearest listed day of the week

From a datetime that is no leap second, `firstWeekday` returns the same time on the nearest date
with a listed day of the week, one to seven days away, or it comes to a date that is not supported
before (`firstWeekday_nearest`). It never runs out of days, from a leap second neither
(`firstWeekday_ne_unreachable`): after its first step it is at some date in no leap second, and
seven dates in a row have all the days of the week.
-/

namespace TypedConfig.DateExpr

open Calendar

variable {days : List Weekday} {dir : Direction} {t t' : DateTime}

/-- No date less than `k` days away from `d` has a listed day of the week; `d` itself may. -/
def PassesOver (days : List Weekday) (dir : Direction) (d : Date) (k : Nat) : Prop :=
  ∀ j, 0 < j → j < k → ∀ d' : Date, d'.dayNumber = d.dayNumber + dir.signed j → d'.weekday ∉ days

/-- What the date `k` days away means for the search: it is found, or it does not exist. -/
inductive Outcome (days : List Weekday) (dir : Direction) (t : DateTime) (k : Nat) :
    Except ParseError DateTime → Prop
  | found {d : Date} (hd : d.dayNumber = t.date.dayNumber + dir.signed k) (hday : d.weekday ∈ days) :
    Outcome days dir t k (.ok ⟨d, t.time⟩)
  | outOfRange (hd : ∀ d : Date, d.dayNumber ≠ t.date.dayNumber + dir.signed k) :
    Outcome days dir t k (.error (.outOfRange (Decimal.floatOfInt 0)))

theorem Direction.signed_add (dir : Direction) (j k : Nat) :
    dir.signed (j + k) = dir.signed j + dir.signed k := by
  cases dir <;> simp only [signed] <;> omega

theorem addSeconds?_oneDay_iff (ht : t.time.isLeapSecond = false) :
    t.addSeconds? (dir.signed secondsPerDay) = some t' ↔
      t'.date.dayNumber = t.date.dayNumber + dir.signed 1 ∧ t'.time = t.time := by
  rw [← Nat.mul_one secondsPerDay, dir.signed_mul, DateTime.addSeconds?_wholeDays_iff ht]

theorem addSeconds?_oneDay_eq_none_iff (ht : t.time.isLeapSecond = false) :
    t.addSeconds? (dir.signed secondsPerDay) = none ↔
      ∀ d : Date, d.dayNumber ≠ t.date.dayNumber + dir.signed 1 := by
  rw [← Nat.mul_one secondsPerDay, dir.signed_mul, DateTime.addSeconds?_wholeDays_eq_none_iff ht]

/-! ### The search -/

theorem passesOver_one (d : Date) : PassesOver days dir d 1 := by
  intro j hpos hlt
  omega

theorem PassesOver.succ {d d₁ : Date} {k : Nat} (hd₁ : d₁.dayNumber = d.dayNumber + dir.signed 1)
    (hday : d₁.weekday ∉ days) (h : PassesOver days dir d₁ k) :
    PassesOver days dir d (k + 1) := by
  intro j hpos hlt d' hd'
  by_cases hj : j = 1
  · rw [hj, ← hd₁] at hd'
    rw [Date.dayNumber_injective hd']
    exact hday
  · have hstep := dir.signed_add 1 (j - 1)
    rw [show 1 + (j - 1) = j by omega] at hstep
    exact h (j - 1) (by omega) (by omega) d' (by omega)

theorem Outcome.succ {k : Nat} {r : Except ParseError DateTime}
    (hd : t'.date.dayNumber = t.date.dayNumber + dir.signed 1) (htime : t'.time = t.time)
    (h : Outcome days dir t' k r) : Outcome days dir t (k + 1) r := by
  have hstep := dir.signed_add k 1
  cases h with
  | found hd' hday =>
    rw [htime]
    exact .found (by omega) hday
  | outOfRange hd' =>
    refine .outOfRange fun d hd'' => hd' d ?_
    omega

theorem Outcome.ne_unreachable {k : Nat} {r : Except ParseError DateTime}
    (h : Outcome days dir t k r) : r ≠ .error (.date .weekdayUnreachable) := by
  cases h <;> simp

/-- A search ends at some date, or it has passed over as many dates as its limit. -/
theorem seekWeekday_cases (days : List Weekday) (dir : Direction) (limit : Nat)
    (ht : t.time.isLeapSecond = false) :
    (∃ k, 1 ≤ k ∧ k ≤ limit ∧ PassesOver days dir t.date k ∧
      Outcome days dir t k (seekWeekday days dir limit t)) ∨
    (seekWeekday days dir limit t = .error (.date .weekdayUnreachable) ∧
      ∀ j, 1 ≤ j → j ≤ limit →
        ∃ d : Date, d.dayNumber = t.date.dayNumber + dir.signed j ∧ d.weekday ∉ days) := by
  induction limit generalizing t with
  | zero => exact .inr ⟨rfl, fun j hpos hle => by omega⟩
  | succ limit ih =>
    rw [seekWeekday_succ]
    cases hstep : t.addSeconds? (dir.signed secondsPerDay) with
    | none =>
      refine .inl ⟨1, Nat.le_refl _, by omega, passesOver_one _, ?_⟩
      exact .outOfRange ((addSeconds?_oneDay_eq_none_iff ht).1 hstep)
    | some t₁ =>
      obtain ⟨hd, htime⟩ := (addSeconds?_oneDay_iff ht).1 hstep
      by_cases hday : t₁.date.weekday ∈ days
      · refine .inl ⟨1, Nat.le_refl _, by omega, passesOver_one _, ?_⟩
        simp only [hday, ↓reduceIte]
        obtain ⟨d₁, time⟩ := t₁
        cases htime
        exact .found hd hday
      · simp only [hday, ↓reduceIte]
        rcases ih (htime ▸ ht) with ⟨k, hpos, hle, hover, hend⟩ | ⟨hend, hall⟩
        · exact .inl ⟨k + 1, by omega, by omega, hover.succ hd hday, hend.succ hd htime⟩
        · refine .inr ⟨hend, fun j hpos hle => ?_⟩
          by_cases hj : j = 1
          · exact ⟨t₁.date, hj ▸ hd, hday⟩
          · obtain ⟨d, hd', hnot⟩ := hall (j - 1) (by omega) (by omega)
            have hsum := dir.signed_add 1 (j - 1)
            rw [show 1 + (j - 1) = j by omega] at hsum
            exact ⟨d, by omega, hnot⟩

/-! ### Seven days in a row -/

theorem exists_fromMonday (dir : Direction) (n : Int) (w : Weekday) :
    ∃ j, j ≤ 6 ∧ (n + dir.signed j) % 7 = w.fromMonday := by
  have hw : w.fromMonday < 7 := by cases w <;> decide
  cases dir with
  | after =>
    refine ⟨((w.fromMonday - n) % 7).toNat, by omega, ?_⟩
    simp only [Direction.signed]
    omega
  | before =>
    refine ⟨((n - w.fromMonday) % 7).toNat, by omega, ?_⟩
    simp only [Direction.signed]
    omega

/-- Of seven dates in a row, one has a listed day of the week. -/
theorem exists_mem_of_week (hne : days ≠ []) (dir : Direction) (n : Int) :
    ∃ j, j ≤ 6 ∧ ∀ d : Date, d.dayNumber = n + dir.signed j → d.weekday ∈ days := by
  obtain ⟨w, hw⟩ := List.exists_mem_of_ne_nil days hne
  obtain ⟨j, hj, hmod⟩ := exists_fromMonday dir n w
  refine ⟨j, hj, fun d hd => ?_⟩
  have hday : d.weekday = w := Date.weekday_eq_iff.2 (hd ▸ hmod)
  exact hday ▸ hw

theorem firstWeekday_ne_unreachable (hne : days ≠ []) :
    firstWeekday days dir t ≠ .error (.date .weekdayUnreachable) := by
  rw [firstWeekday, seekWeekday_succ]
  cases hstep : t.addSeconds? (dir.signed secondsPerDay) with
  | none => simp
  | some t₁ =>
    have ht₁ : t₁.time.isLeapSecond = false :=
      DateTime.isLeapSecond_of_addSeconds? (by cases dir <;> decide) hstep
    by_cases hday : t₁.date.weekday ∈ days
    · simp [hday]
    · simp only [hday, ↓reduceIte]
      rcases seekWeekday_cases days dir 6 ht₁ with ⟨k, -, -, -, hend⟩ | ⟨-, hall⟩
      · exact hend.ne_unreachable
      · obtain ⟨j, hj, hmem⟩ := exists_mem_of_week hne dir t₁.date.dayNumber
        by_cases hzero : j = 0
        · have hself : t₁.date.dayNumber = t₁.date.dayNumber + dir.signed j := by
            rw [hzero, Direction.signed_eq_zero_iff.2 rfl, Int.add_zero]
          exact absurd (hmem t₁.date hself) hday
        · obtain ⟨d, hd, hnot⟩ := hall j (by omega) hj
          exact absurd (hmem d hd) hnot

theorem ne_nil_of_readWeekdays {list : List Char} (h : readWeekdays list = .ok days) :
    days ≠ [] := by
  unfold readWeekdays at h
  obtain ⟨days', -, h⟩ := bind_eq_ok.1 h
  rintro rfl
  split at h
  · cases h
  · next hne =>
    cases h
    exact hne rfl

/-- From no leap second the search ends within a week, at the nearest date with a listed day of
the week or at one that is not supported, whichever comes first; and for a list that is read it
always comes to one of the two. -/
theorem firstWeekday_nearest :
    (∀ (days : List Weekday) (dir : Direction) (t : DateTime),
      days ≠ [] → t.time.isLeapSecond = false →
      ∃ k, 1 ≤ k ∧ k ≤ 7 ∧ PassesOver days dir t.date k ∧
        Outcome days dir t k (firstWeekday days dir t)) ∧
    (∀ (list : List Char) (days : List Weekday), readWeekdays list = .ok days →
      ∀ (dir : Direction) (t : DateTime),
        firstWeekday days dir t ≠ .error (.date .weekdayUnreachable)) := by
  constructor
  · intro days dir t hne ht
    rcases seekWeekday_cases days dir 7 ht with h | ⟨hend, -⟩
    · exact h
    · exact absurd hend (firstWeekday_ne_unreachable hne)
  · intro list days hread dir t
    exact firstWeekday_ne_unreachable (ne_nil_of_readWeekdays hread)

/-- From Friday, 1 March 2024, the first Thursday or Friday before is the leap day. -/
theorem nearest_before_friday :
    ∃ t t' : DateTime, DateTime.ofLiteral? "2024-03-01 23:59".toList = some t ∧
      t.date.weekday = .friday ∧ t'.date.text = "2024-02-29" ∧ t.time.isLeapSecond = false ∧
      readWeekdays "Thu or Friday".toList = .ok [.thursday, .friday] ∧
      firstWeekday [.thursday, .friday] .before t = .ok t' ∧
      (∃ k, 1 ≤ k ∧ k ≤ 7 ∧ PassesOver [.thursday, .friday] .before t.date k ∧
        Outcome [.thursday, .friday] .before t k (firstWeekday [.thursday, .friday] .before t)) ∧
      firstWeekday [.thursday, .friday] .before t ≠ .error (.date .weekdayUnreachable) := by
  have hread : readWeekdays "Thu or Friday".toList = .ok [.thursday, .friday] := by rfl
  have hfirst : firstWeekday [.thursday, .friday] .before
      ⟨⟨2024, 3, 1, by decide, by decide, by decide⟩, ⟨86340, 0, by decide, by decide⟩⟩ =
      .ok ⟨⟨2024, 2, 29, by decide, by decide, by decide⟩, ⟨86340, 0, by decide, by decide⟩⟩ := by
    have hstep : DateTime.addSeconds?
        ⟨⟨2024, 3, 1, by decide, by decide, by decide⟩, ⟨86340, 0, by decide, by decide⟩⟩
        (Direction.before.signed secondsPerDay) =
        some ⟨⟨2024, 2, 29, by decide, by decide, by decide⟩, ⟨86340, 0, by decide, by decide⟩⟩ :=
      by decide +kernel
    rw [firstWeekday, seekWeekday_succ, hstep]
    exact if_pos (by decide +kernel)
  exact ⟨_, _, by decide +kernel, by decide +kernel, by decide +kernel, rfl, hread, hfirst,
    firstWeekday_nearest.1 [.thursday, .friday] .before _ (by decide) rfl,
    firstWeekday_nearest.2 _ _ hread .before _⟩

end TypedConfig.DateExpr
