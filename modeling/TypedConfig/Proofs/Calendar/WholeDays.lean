import TypedConfig.Calendar.DateTime
import TypedConfig.Proofs.Calendar.DayNumber

/-!
# Seconds that make whole days

A shift by the seconds of whole days keeps the time of day and moves the date by these days
(`DateTime.addSeconds?_wholeDays_iff`), unless it starts in a leap second, which no shift but the
empty one keeps (`Time.isLeapSecond_addSeconds`): going back from the last leap second of a day, it
is even a day short (`Time.addSeconds_wholeDays_back`).
-/

namespace TypedConfig.Calendar

namespace Time

theorem isLeapSecond_addSeconds (t : Time) {n : Int} (hn : n ≠ 0) :
    (t.addSeconds n).1.isLeapSecond = false := by
  have hlt : t.nano % nanosPerSecond < nanosPerSecond := Nat.mod_lt _ (by decide)
  rw [addSeconds, if_neg (fun h => hn h.2)]
  exact decide_eq_false (by simpa [nanoOfSecond] using hlt)

theorem ext {t u : Time} (hsecond : t.second = u.second) (hnano : t.nano = u.nano) : t = u := by
  cases t
  cases u
  cases hsecond
  cases hnano
  rfl

theorem addSeconds_wholeDays {t : Time} (ht : t.isLeapSecond = false) (k : Int) :
    t.addSeconds (secondsPerDay * k) = (t, k) := by
  have hsecond : t.second < 86400 := t.second_lt
  have hnano : t.nano < nanosPerSecond := Nat.lt_of_not_le (of_decide_eq_false ht)
  rw [addSeconds, if_neg (by simp [ht])]
  simp only [ht, Bool.false_eq_true, false_and, ↓reduceIte, secondsPerDay]
  refine Prod.ext (ext ?_ ?_) ?_
  · show (((t.second : Int) + (86400 : Nat) * k) % (86400 : Nat)).toNat = t.second
    omega
  · exact Nat.mod_eq_of_lt hnano
  · show ((t.second : Int) + (86400 : Nat) * k) / (86400 : Nat) = k
    omega

/-- The leap second that ends a day is taken for the start of the next day. -/
theorem addSeconds_wholeDays_back {t : Time} (ht : t.isLeapSecond = true) (hlast : t.second = 86399)
    {k : Int} (hk : k < 0) :
    (t.addSeconds (secondsPerDay * k)).1.second = 0 ∧
      (t.addSeconds (secondsPerDay * k)).2 = k + 1 := by
  have hneg : (secondsPerDay : Int) * k < 0 := by
    simp only [secondsPerDay]
    omega
  rw [addSeconds, if_neg (by omega)]
  simp only [ht, hneg, and_self, ↓reduceIte, hlast]
  simp only [secondsPerDay]
  omega

end Time

namespace DateTime

variable {t t' : DateTime}

theorem addSeconds?_eq_some_iff {n : Int} :
    t.addSeconds? n = some t' ↔
      t'.date.dayNumber = t.date.dayNumber + (t.time.addSeconds n).2 ∧
        t'.time = (t.time.addSeconds n).1 := by
  rw [addSeconds?, Option.map_eq_some_iff]
  constructor
  · rintro ⟨d, hd, rfl⟩
    exact ⟨Date.addDays?_eq_some_iff.1 hd, rfl⟩
  · rintro ⟨hd, ht⟩
    exact ⟨t'.date, Date.addDays?_eq_some_iff.2 hd, by rw [← ht]⟩

theorem addSeconds?_wholeDays_iff (ht : t.time.isLeapSecond = false) {k : Int} :
    t.addSeconds? (secondsPerDay * k) = some t' ↔
      t'.date.dayNumber = t.date.dayNumber + k ∧ t'.time = t.time := by
  rw [addSeconds?_eq_some_iff, Time.addSeconds_wholeDays ht]

theorem addSeconds?_wholeDays_eq_none_iff (ht : t.time.isLeapSecond = false) {k : Int} :
    t.addSeconds? (secondsPerDay * k) = none ↔
      ∀ d : Date, d.dayNumber ≠ t.date.dayNumber + k := by
  rw [addSeconds?, Option.map_eq_none_iff, Date.addDays?_eq_none_iff, Time.addSeconds_wholeDays ht]

theorem isLeapSecond_of_addSeconds? {n : Int} (hn : n ≠ 0) (h : t.addSeconds? n = some t') :
    t'.time.isLeapSecond = false := by
  rw [(addSeconds?_eq_some_iff.1 h).2]
  exact t.time.isLeapSecond_addSeconds hn

end DateTime
end TypedConfig.Calendar
