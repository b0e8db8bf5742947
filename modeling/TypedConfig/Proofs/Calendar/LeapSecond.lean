import TypedConfig.Proofs.Calendar.Written
import TypedConfig.Proofs.Except

/-!
# Leap seconds end minutes

A time of day could be a leap second anywhere; those that are read from a text are the last second
of their minute (`DateTime.isProper_of_ofLiteral?`), and the steps of a date expression keep it so:
a shift by seconds leaves no leap second, a shift by months leaves the time of day alone. So a
datetime that is parsed is proper (`DateExpr.isProper_of_parseDateTime`).
-/

namespace TypedConfig

namespace Calendar

/-! ### Times that are read -/

theorem Time.isProper_of_ofHMS? {h m s n : Nat} {t : Time} (ht : ofHMS? h m s n = some t) :
    t.IsProper := by
  unfold ofHMS? at ht
  split at ht
  · next hh =>
    split at ht
    · cases ht
      intro _
      simp only
      omega
    · cases ht
      intro hleap
      have hle : nanosPerSecond ≤ n := of_decide_eq_true hleap
      omega
  · cases ht

theorem Time.isProper_midnight : midnight.IsProper := by
  intro h
  exact absurd h (by decide)

theorem isProper_of_readTime {seconds : Seconds} {cs rest : List Char} {t : Time}
    (h : readTime seconds cs = some (t, rest)) : t.IsProper := by
  unfold readTime at h
  simp only [bind, Option.bind_eq_some_iff] at h
  obtain ⟨hour, -, _, -, minute, -, h⟩ := h
  cases seconds with
  | none =>
    obtain ⟨t', ht, h⟩ := Option.bind_eq_some_iff.1 h
    cases h
    exact Time.isProper_of_ofHMS? ht
  | whole =>
    obtain ⟨_, -, h⟩ := Option.bind_eq_some_iff.1 h
    obtain ⟨s, -, h⟩ := Option.bind_eq_some_iff.1 h
    obtain ⟨t', ht, h⟩ := Option.bind_eq_some_iff.1 h
    cases h
    exact Time.isProper_of_ofHMS? ht
  | fractional =>
    obtain ⟨_, -, h⟩ := Option.bind_eq_some_iff.1 h
    obtain ⟨s, -, h⟩ := Option.bind_eq_some_iff.1 h
    obtain ⟨n, -, h⟩ := Option.bind_eq_some_iff.1 h
    obtain ⟨t', ht, h⟩ := Option.bind_eq_some_iff.1 h
    cases h
    exact Time.isProper_of_ofHMS? ht

theorem isProper_of_readDateTime {letter : Bool} {seconds : Seconds} {cs : List Char} {t : DateTime}
    (h : readAll (readDateTime letter seconds) cs = some t) : t.time.IsProper := by
  have h := readAll_eq_some h
  unfold readDateTime at h
  simp only [bind, Option.bind_eq_some_iff] at h
  obtain ⟨date, -, _, -, ⟨time, rest⟩, htime, h⟩ := h
  cases h
  exact isProper_of_readTime htime

theorem DateTime.isProper_of_ofLiteral? {cs : List Char} {t : DateTime}
    (h : ofLiteral? cs = some t) : t.time.IsProper := by
  simp only [ofLiteral?, Option.orElse_eq_orElse, Option.orElse_eq_or, Option.or_eq_some_iff] at h
  rcases h with h | ⟨-, h | ⟨-, h | ⟨-, h | ⟨-, h⟩⟩⟩⟩
  · exact isProper_of_readDateTime h
  · exact isProper_of_readDateTime h
  · exact isProper_of_readDateTime h
  · exact isProper_of_readDateTime h
  · obtain ⟨d, -, rfl⟩ := Option.map_eq_some_iff.1 h
    exact Time.isProper_midnight

theorem Time.isProper_of_ofWord? {cs : List Char} {t : Time} (h : ofWord? cs = some t) :
    t.IsProper := by
  simp only [ofWord?, Option.orElse_eq_orElse, Option.orElse_eq_or, Option.or_eq_some_iff] at h
  rcases h with h | ⟨-, h⟩
  · exact isProper_of_readTime (readAll_eq_some h)
  · exact isProper_of_readTime (readAll_eq_some h)

/-! ### Shifts -/

theorem Time.IsProper.addSeconds {t : Time} (ht : t.IsProper) (n : Int) :
    (t.addSeconds n).1.IsProper := by
  unfold Time.addSeconds
  split
  · exact ht
  · intro hleap
    have hle : nanosPerSecond ≤ t.nano % nanosPerSecond := of_decide_eq_true hleap
    have hlt : t.nano % nanosPerSecond < nanosPerSecond := Nat.mod_lt _ (by decide)
    omega

theorem DateTime.isProper_addSeconds? {t t' : DateTime} {n : Int} (ht : t.time.IsProper)
    (h : t.addSeconds? n = some t') : t'.time.IsProper := by
  obtain ⟨date, -, rfl⟩ := Option.map_eq_some_iff.1 h
  exact ht.addSeconds n

theorem DateTime.isProper_addMonths? {t t' : DateTime} {n : Int} (ht : t.time.IsProper)
    (h : t.addMonths? n = some t') : t'.time.IsProper := by
  obtain ⟨date, -, rfl⟩ := Option.map_eq_some_iff.1 h
  exact ht

end Calendar

/-! ### Date expressions -/

namespace DateExpr

open Calendar

theorem isProper_of_shift? {unit : TimeUnit} {t t' : DateTime} {n : Int} (ht : t.time.IsProper)
    (h : unit.shift? t n = some t') : t'.time.IsProper := by
  cases unit with
  | month | year => exact DateTime.isProper_addMonths? ht h
  | _ => exact DateTime.isProper_addSeconds? ht h

theorem isProper_of_shift {unit : TimeUnit} {t t' : DateTime} {n : Int} (ht : t.time.IsProper)
    (h : unit.shift t n = .ok t') : t'.time.IsProper := by
  unfold TimeUnit.shift at h
  split at h
  · next hshift => cases h; exact isProper_of_shift? ht hshift
  · cases h

-- the arithmetic of calendars is kept closed: opening it on a variable does not end
attribute [local irreducible] DateTime.addSeconds? in
theorem seekWeekday_succ (days : List Weekday) (dir : Direction) (limit : Nat) (t : DateTime) :
    seekWeekday days dir (limit + 1) t =
      match t.addSeconds? (dir.signed secondsPerDay) with
      | none => .error (.outOfRange (Decimal.floatOfInt 0))
      | some t => if t.date.weekday ∈ days then .ok t else seekWeekday days dir limit t :=
  rfl

theorem isProper_of_seekWeekday {days : List Weekday} {dir : Direction} {limit : Nat}
    {t t' : DateTime} (ht : t.time.IsProper) (h : seekWeekday days dir limit t = .ok t') :
    t'.time.IsProper := by
  induction limit generalizing t with
  | zero => cases h
  | succ limit ih =>
    rw [seekWeekday_succ] at h
    split at h
    · cases h
    · next t₁ hadd =>
      have ht₁ := DateTime.isProper_addSeconds? ht hadd
      split at h
      · cases h; exact ht₁
      · exact ih ht₁ h

theorem isProper_of_apply {step : Step} {t t' : DateTime} (ht : t.time.IsProper)
    (h : step.apply t = .ok t') : t'.time.IsProper := by
  cases step with
  | shift => exact isProper_of_shift ht h
  | firstWeekday => exact isProper_of_seekWeekday ht h

theorem isProper_of_evaluate {e : DateExpr} {t : DateTime} (he : e.anchor.time.IsProper)
    (h : e.evaluate = .ok t) : t.time.IsProper := by
  unfold evaluate at h
  generalize e.steps = steps at h
  induction steps generalizing t with
  | nil => cases h; exact he
  | cons step steps ih =>
    rw [List.foldrM_cons] at h
    obtain ⟨t₁, h₁, h⟩ := bind_eq_ok.1 h
    exact isProper_of_apply (ih h₁) h

theorem isProper_of_readUpTo {target : DateTarget} {limit : Nat} {cs : List Char} {e : DateExpr}
    (h : readUpTo target limit cs = .ok e) : e.anchor.time.IsProper := by
  induction limit generalizing cs e with
  | zero =>
    unfold readUpTo at h
    split at h
    · next hanchor => cases h; exact DateTime.isProper_of_ofLiteral? hanchor
    · cases h
    · contradiction
  | succ limit ih =>
    unfold readUpTo at h
    split at h
    · next hanchor => cases h; exact DateTime.isProper_of_ofLiteral? hanchor
    · contradiction
    · next heq =>
      cases heq
      split at h
      · cases h
      · obtain ⟨step, -, h⟩ := bind_eq_ok.1 h
        obtain ⟨e', he', h⟩ := bind_eq_ok.1 h
        cases h
        exact ih (e := e') he'

theorem isProper_of_readDateTime {target : DateTarget} {cs : List Char} {t : DateTime}
    (h : readDateTime target cs = .ok t) : t.time.IsProper := by
  obtain ⟨e, he, h⟩ := bind_eq_ok.1 h
  exact isProper_of_evaluate (isProper_of_readUpTo he) h

theorem isProper_of_parseDateTime {text : String} {t : DateTime} (h : parseDateTime text = .ok t) :
    t.time.IsProper := by
  unfold parseDateTime at h
  split at h
  · exact isProper_of_readDateTime h
  · split at h
    · cases h
    · next time htime =>
      obtain ⟨t₁, -, h⟩ := bind_eq_ok.1 h
      cases h
      exact Time.isProper_of_ofWord? htime

end DateExpr
end TypedConfig
