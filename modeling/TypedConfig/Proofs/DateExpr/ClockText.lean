import TypedConfig.Proofs.Calendar.Literal

/-!
# Written times of day

`ClockText` are the times of day as they are written behind `at`, in digits of any script. They are
the words of that form (`ClockText.isTimeForm_chars`, `ClockText.exists_of_isTimeForm`), and the
time of day is read from ASCII digits alone (`ClockText.ofWord?_chars`).
-/

namespace TypedConfig

theorem Text.isBlank_of_isDecimalDigit {c : Char} (h : isDecimalDigit c = true) : isBlank c = false := by
  have hzeros : ∀ z ∈ zeros, ∀ k < 10, 13 < z + k ∧ z + k ≠ 0x20 ∧ z + k ≠ 0x85 ∧ z + k ≠ 0xA0 ∧
      z + k ≠ 0x1680 ∧ (z + k < 0x2000 ∨ 0x3000 < z + k) := by decide
  obtain ⟨z, hz, hc⟩ := List.any_eq_true.1 h
  simp only [Bool.and_eq_true, decide_eq_true_eq] at hc
  have hk := hzeros z hz (c.toNat - z) (by omega)
  rw [Nat.add_sub_cancel' hc.1] at hk
  simp only [isBlank, Bool.or_eq_false_iff, Bool.and_eq_false_iff, decide_eq_false_iff_not,
    beq_eq_false_iff_ne]
  omega

namespace DateExpr

open Text Calendar

/-- A time of day as it is written: an hour of one or two digits, then minutes and possibly seconds
of two, digits of any script. -/
structure ClockText where
  hour : List Char
  minute : List Char
  second : Option (List Char)
  hour_length : hour.length = 1 ∨ hour.length = 2
  minute_length : minute.length = 2
  second_length : ∀ s ∈ second, s.length = 2
  isDecimalDigit : ∀ part ∈ hour :: minute :: second.toList, ∀ c ∈ part, isDecimalDigit c = true

namespace ClockText

/-- The numerals of a time of day. -/
def parts (clock : ClockText) : List (List Char) :=
  clock.hour :: clock.minute :: clock.second.toList

/-- The numerals apart by colons. -/
def chars (clock : ClockText) : List Char :=
  clock.hour ++ ':' :: (clock.minute ++ clock.second.elim [] (':' :: ·))

/-- The time of day that is meant, if the digits are ASCII and there is one. -/
def time? (clock : ClockText) : Option Time :=
  if clock.parts.all (·.all Char.isDigit) then
    Time.ofHMS? (Nat.ofDigitChars 10 clock.hour 0) (Nat.ofDigitChars 10 clock.minute 0)
      (clock.second.elim 0 (Nat.ofDigitChars 10 · 0)) 0
  else none

variable {clock : ClockText}

theorem mem_chars {c : Char} : c ∈ clock.chars ↔ c = ':' ∨ ∃ part ∈ clock.parts, c ∈ part := by
  cases h : clock.second <;> simp [chars, parts, h] <;> grind

theorem not_blank {c : Char} (hc : c ∈ clock.chars) : isBlank c = false := by
  rcases mem_chars.1 hc with rfl | ⟨part, hpart, hc⟩
  · decide
  · exact isBlank_of_isDecimalDigit (clock.isDecimalDigit part hpart c hc)

theorem chars_ne_nil (clock : ClockText) : clock.chars ≠ [] := by simp [chars]

theorem not_colon {part : List Char} (hpart : part ∈ clock.parts) :
    ∀ c ∈ part, (c == ':') = false := by
  intro c hc
  have hdigit : Text.isDecimalDigit c = true := clock.isDecimalDigit part hpart c hc
  refine beq_eq_false_iff_ne.2 ?_
  rintro rfl
  cases hdigit

theorem splitWhere_part {part : List Char} (hpart : part ∈ clock.parts) :
    splitWhere (· == ':') part = [part] :=
  splitWhere_of_all (clock.not_colon hpart)

theorem splitWhere_chars (clock : ClockText) :
    splitWhere (· == ':') clock.chars = clock.parts := by
  have hhour : splitWhere (· == ':') clock.hour = [clock.hour] :=
    clock.splitWhere_part (by simp [parts])
  have hminute : splitWhere (· == ':') clock.minute = [clock.minute] :=
    clock.splitWhere_part (by simp [parts])
  have hcolon (as bs : List Char) : splitWhere (· == ':') (as ++ ':' :: bs) =
      splitWhere (· == ':') as ++ splitWhere (· == ':') bs :=
    splitWhere_append_cons rfl as bs
  rw [chars, hcolon, hhour, parts]
  cases h : clock.second with
  | none =>
    rw [Option.elim_none, List.append_nil, hminute]
    rfl
  | some s =>
    have hs : splitWhere (· == ':') s = [s] := clock.splitWhere_part (by simp [parts, h])
    rw [Option.elim_some, hcolon, hminute, hs]
    rfl

theorem isTimeForm_chars (clock : ClockText) : isTimeForm clock.chars = true := by
  have hrest : (clock.second.toList.isEmpty || clock.second.toList.map List.length == [2]) =
      true := by
    cases h : clock.second with
    | none => rfl
    | some s => simp [clock.second_length s h]
  have hdigits : clock.parts.all (·.all Text.isDecimalDigit) = true :=
    List.all_eq_true.2 fun part hpart => List.all_eq_true.2 (clock.isDecimalDigit part hpart)
  rw [parts] at hdigits
  simp only [isTimeForm, splitWhere_chars, parts, hrest, hdigits, clock.minute_length, BEq.rfl,
    Bool.and_true, Bool.or_eq_true, beq_iff_eq]
  exact clock.hour_length

/-- The words of the form of a time of day are the times of day that are written. -/
theorem exists_of_isTimeForm {word : List Char} (h : isTimeForm word = true) :
    ∃ clock : ClockText, clock.chars = word := by
  unfold isTimeForm at h
  split at h
  · next hour minute rest heq =>
    simp only [Bool.and_eq_true, Bool.or_eq_true, beq_iff_eq, List.isEmpty_iff,
      List.all_eq_true] at h
    obtain ⟨⟨⟨hhour, hminute⟩, hrest⟩, hdigits⟩ := h
    obtain ⟨⟨⟩, -⟩ | ⟨c, tail, hc, rfl, htail⟩ := splitWhere_eq_cons heq
    obtain rfl := eq_of_beq hc
    rcases splitWhere_eq_cons htail with ⟨rfl, rfl⟩ | ⟨d, tail', hd, rfl, htail'⟩
    · refine ⟨⟨hour, tail, none, hhour, hminute, by simp, hdigits⟩, ?_⟩
      simp [chars]
    · obtain rfl := eq_of_beq hd
      obtain ⟨s, rfl⟩ : ∃ s, rest = [s] := by
        rcases hrest with rfl | hrest
        · exact absurd htail' (splitWhere_ne_nil _ _)
        · exact List.length_eq_one_iff.1 (by simpa using congrArg List.length hrest)
      rcases splitWhere_eq_cons htail' with ⟨-, rfl⟩ | ⟨e, more, -, -, hnil⟩
      · have hlength : tail'.length = 2 := by simpa using hrest
        refine ⟨⟨hour, minute, some tail', hhour, hminute, ?_, hdigits⟩, rfl⟩
        rintro s ⟨⟩
        exact hlength
      · exact absurd hnil (splitWhere_ne_nil _ _)
  · cases h

/-! ### The time that is read -/

theorem readField_digits {ds rest : List Char} (hds : ∀ c ∈ ds, c.isDigit = true)
    (hlen : ds.length = 1 ∨ ds.length = 2)
    (hrest : ds.length = 1 → ∀ c ∈ rest.head?, c.isDigit = false) :
    readField (ds ++ rest) = some (Nat.ofDigitChars 10 ds 0, rest) := by
  have hne : ds ≠ [] := by
    rintro rfl
    simp at hlen
  have htrim : trimStart (ds ++ rest) = ds ++ rest := by
    obtain ⟨d, ds, rfl⟩ := List.exists_cons_of_ne_nil hne
    refine trimStart_eq_self fun c hc => ?_
    cases hc
    exact isBlank_of_isDigit (hds _ (List.mem_cons_self ..))
  rw [readField, htrim]
  exact readDigits_of_digits hne hds (by omega) fun hlt => hrest (by omega)

/-- A time of day is read from ASCII digits alone. -/
theorem ofWord?_eq_none_of_mem {word : List Char} {c : Char} (hc : c ∈ word)
    (hdecimal : Text.isDecimalDigit c = true) (hdigit : c.isDigit = false) :
    Time.ofWord? word = none := by
  have hnone (seconds : Seconds) : readAll (readTime seconds) word = none := by
    cases h : readAll (readTime seconds) word with
    | none => rfl
    | some t =>
      rcases (readTime_consumes (readAll_eq_some h)).mem hc with hmem | hmem | hmem
      · rw [isBlank_of_isDecimalDigit hdecimal] at hmem
        cases hmem
      · rw [hdigit] at hmem
        cases hmem
      · simp only [List.mem_cons, List.not_mem_nil, or_false] at hmem
        rcases hmem with rfl | rfl | rfl | rfl | rfl <;> cases hdecimal
  rw [Time.ofWord?, hnone, hnone]
  rfl

theorem ofWord?_chars (clock : ClockText) : Time.ofWord? clock.chars = clock.time? := by
  rw [time?]
  split
  · next hall =>
    have hdigits : ∀ part ∈ clock.parts, ∀ c ∈ part, c.isDigit = true :=
      fun part hpart => List.all_eq_true.1 (List.all_eq_true.1 hall part hpart)
    have hhour (rest : List Char) :
        readField (clock.hour ++ ':' :: rest) = some (Nat.ofDigitChars 10 clock.hour 0, ':' :: rest) :=
      readField_digits (hdigits _ (by simp [parts])) clock.hour_length fun _ c hc => by cases hc; rfl
    have hminute (rest : List Char) :
        readField (clock.minute ++ rest) = some (Nat.ofDigitChars 10 clock.minute 0, rest) :=
      readField_digits (hdigits _ (by simp [parts])) (.inr clock.minute_length)
        (by simp [clock.minute_length])
    cases h : clock.second with
    | none =>
      simp only [Time.ofWord?, readAll, readTime, chars, h, hhour, hminute, readChar, Option.elim,
        ↓reduceIte, bind, Option.bind]
      cases Time.ofHMS? _ _ _ _ <;> rfl
    | some s =>
      have hsecond : readField s = some (Nat.ofDigitChars 10 s 0, []) := by
        have hlen : s.length = 2 := clock.second_length s h
        have hread : readField (s ++ []) = some (Nat.ofDigitChars 10 s 0, []) :=
          readField_digits (hdigits s (by simp [parts, h])) (.inr hlen) (by simp)
        rwa [List.append_nil] at hread
      simp only [Time.ofWord?, readAll, readTime, chars, h, hhour, hminute, hsecond, readChar,
        Option.elim, ↓reduceIte, bind, Option.bind]
      cases Time.ofHMS? _ _ (Nat.ofDigitChars 10 s 0) _ <;> cases Time.ofHMS? _ _ _ _ <;> rfl
  · next hall =>
    obtain ⟨part, hpart, hany⟩ := List.all_eq_false.1 (Bool.eq_false_iff.2 hall)
    obtain ⟨c, hc, hdigit⟩ := List.all_eq_false.1 (Bool.eq_false_iff.2 hany)
    exact ofWord?_eq_none_of_mem (mem_chars.2 (.inr ⟨part, hpart, hc⟩))
      (clock.isDecimalDigit part hpart c hc) (Bool.eq_false_iff.2 hdigit)

end ClockText

end DateExpr
end TypedConfig
