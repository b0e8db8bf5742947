import TypedConfig.DateExpr.Reader
import TypedConfig.Proofs.Text.Digits

/-!
# Dates and datetimes read back

A date is read back from its written form (`Date.ofLiteral?_chars`), and so is a datetime
(`DateTime.ofLiteral?_chars`), down to the nanosecond and with any sign and length of its year. A
leap second is written as second 60, so that it must be the last second of its minute
(`Time.IsProper`); one within a minute is read back as the second after it
(`DateTime.ofLiteral?_chars_asWritten`).
-/

namespace TypedConfig.Calendar

open Text

theorem readAll_eq_some {α : Type} {reader : Reader α} {cs : List Char} {a : α}
    (h : readAll reader cs = some a) : reader cs = some (a, []) := by
  unfold readAll at h
  split at h
  · next heq => cases h; exact heq
  · cases h

/-! ### Fields -/

theorem readDigits_of_digits {limit : Nat} {ds rest : List Char} (hne : ds ≠ [])
    (hds : ∀ c ∈ ds, c.isDigit = true) (hlen : ds.length ≤ limit)
    (hrest : ds.length < limit → ∀ c ∈ rest.head?, c.isDigit = false) :
    readDigits limit (ds ++ rest) = some (Nat.ofDigitChars 10 ds 0, rest) := by
  have htake : ((ds ++ rest).take limit).takeWhile Char.isDigit = ds := by
    rw [List.take_append, List.take_of_length_le hlen]
    refine takeWhile_isDigit_append hds fun c hc => ?_
    cases rest with
    | nil => simp at hc
    | cons d rest =>
      cases hk : limit - ds.length with
      | zero => simp [hk] at hc
      | succ k =>
        rw [hk, List.take_succ_cons, List.head?_cons] at hc
        exact hrest (by omega) c hc
  rw [readDigits, htake]
  simp [hne]

theorem trimStart_padded (width n : Nat) (rest : List Char) :
    trimStart (padded width n ++ rest) = padded width n ++ rest := by
  obtain ⟨c, cs, hp, hc⟩ := padded_eq_cons width n
  rw [hp]
  refine trimStart_eq_self fun d hd => ?_
  cases hd
  exact isBlank_of_isDigit hc

theorem readDigits_padded {limit width n : Nat} {rest : List Char}
    (hlen : (padded width n).length ≤ limit)
    (hrest : (padded width n).length < limit → ∀ c ∈ rest.head?, c.isDigit = false) :
    readDigits limit (padded width n ++ rest) = some (n, rest) := by
  rw [readDigits_of_digits (padded_ne_nil width n) (fun c hc => isDigit_of_mem_padded hc) hlen
    hrest, ofDigitChars_padded]

theorem readField_padded {n : Nat} (hn : n < 100) (rest : List Char) :
    readField (padded 2 n ++ rest) = some (n, rest) := by
  have hlen : (padded 2 n).length = 2 := length_padded (by decide) hn
  rw [readField, trimStart_padded]
  exact readDigits_padded (by omega) (by omega)

theorem readYear_yearText (y : Int) (rest : List Char) :
    readYear (yearText y ++ '-' :: rest) = some (y, '-' :: rest) := by
  unfold yearText
  split
  · next hy =>
    have hlen : (padded 4 y.toNat).length = 4 :=
      length_padded (by decide) (show y.toNat < 10000 by omega)
    have hread : readDigits 4 (padded 4 y.toNat ++ '-' :: rest) = some (y.toNat, '-' :: rest) :=
      readDigits_padded (Nat.le_of_eq hlen) (by omega)
    unfold readYear
    rw [trimStart_padded]
    -- the first character is a digit, and so no sign
    obtain ⟨c, cs, hp, hc⟩ := padded_eq_cons 4 y.toNat
    rw [hp] at hread ⊢
    split
    · next h => cases h; cases hc
    · next h => cases h; cases hc
    · simp only [hread, Option.map_some, Int.toNat_of_nonneg hy.1]
  · next hy =>
    have hread : readDigits (padded 4 y.natAbs ++ '-' :: rest).length
        (padded 4 y.natAbs ++ '-' :: rest) = some (y.natAbs, '-' :: rest) :=
      readDigits_padded (by simp) fun _ c hc => by cases hc; rfl
    split
    · next hneg =>
      have hnat : -(y.natAbs : Int) = y := by omega
      rw [List.cons_append, readYear, trimStart_eq_self (by simp; decide)]
      simp only [hread, Option.map_some, hnat]
    · next hneg =>
      have hnat : (y.natAbs : Int) = y := by omega
      rw [List.cons_append, readYear, trimStart_eq_self (by simp; decide)]
      simp only [hread, Option.map_some, hnat]

/-! ### Dates -/

theorem monthLength_le (y : Int) (m : Nat) : monthLength y m ≤ 31 := by
  have hall : ∀ l ∈ monthLengths y, l ≤ 31 := by
    simp only [monthLengths, List.mem_cons, List.not_mem_nil, or_false]
    rintro l (rfl | rfl | rfl | rfl | rfl | rfl | rfl | rfl | rfl | rfl | rfl | rfl) <;>
      first | decide | (split <;> decide)
  unfold monthLength
  split
  · decide
  · rw [List.getD_eq_getElem?_getD]
    cases hg : (monthLengths y)[m - 1]? with
    | none => decide
    | some l => exact hall l (List.mem_of_getElem? hg)

theorem readDate_chars (d : Date) (rest : List Char) :
    readDate (d.chars ++ rest) = some (d, rest) := by
  have hmonth : d.month < 100 := by have := d.month_mem.2; omega
  have hday : d.day < 100 := by
    have := Nat.le_trans d.day_mem.2 (monthLength_le d.year d.month)
    omega
  have hymd : Date.ofYMD? d.year d.month d.day = some d := by
    rw [Date.ofYMD?, dif_pos d.year_mem, dif_pos d.month_mem, dif_pos d.day_mem]
  simp only [Date.chars, List.append_assoc, List.cons_append, readDate, readYear_yearText, readChar,
    readField_padded hmonth, readField_padded hday, hymd, bind, Option.bind, ↓reduceIte, pure]

/-- What dates and datetimes are written with: digits and five other characters. -/
def IsWritten (c : Char) : Prop := c.isDigit = true ∨ c ∈ ['-', '+', ':', '.', 'T']

theorem IsWritten.not_blank {c : Char} (h : IsWritten c) : isBlank c = false := by
  rcases h with h | h
  · exact isBlank_of_isDigit h
  · simp only [List.mem_cons, List.not_mem_nil, or_false] at h
    rcases h with rfl | rfl | rfl | rfl | rfl <;> decide

theorem isWritten_padded {width n : Nat} {c : Char} (h : c ∈ padded width n) : IsWritten c :=
  .inl (isDigit_of_mem_padded h)

theorem Date.isWritten_of_mem_chars {d : Date} {c : Char} (h : c ∈ d.chars) : IsWritten c := by
  have hyear : ∀ c ∈ yearText d.year, IsWritten c := by
    intro c hc
    unfold yearText at hc
    split at hc
    · exact isWritten_padded hc
    · rcases List.mem_cons.1 hc with rfl | hc
      · split <;> exact .inr (by decide)
      · exact isWritten_padded hc
  simp only [Date.chars, List.mem_append, List.mem_cons] at h
  rcases h with (h | rfl | h) | rfl | h
  · exact hyear c h
  · exact .inr (by decide)
  · exact isWritten_padded h
  · exact .inr (by decide)
  · exact isWritten_padded h

theorem Date.ofLiteral?_chars (d : Date) : Date.ofLiteral? d.chars = some d := by
  have hread := readDate_chars d []
  rw [List.append_nil] at hread
  rw [ofLiteral?, trim_eq_self fun c hc => (isWritten_of_mem_chars hc).not_blank, readAll, hread]

theorem readTime_nil (seconds : Seconds) : readTime seconds [] = none := rfl

/-- A date alone is the datetime of its midnight. -/
theorem DateTime.ofLiteral?_date (d : Date) :
    DateTime.ofLiteral? d.chars = some ⟨d, Time.midnight⟩ := by
  have hread := readDate_chars d []
  rw [List.append_nil] at hread
  have htrim : trim d.chars = d.chars :=
    trim_eq_self fun c hc => (Date.isWritten_of_mem_chars hc).not_blank
  have hnone (letter : Bool) (seconds : Seconds) :
      readAll (readDateTime letter seconds) d.chars = none := by
    cases letter <;> simp [readAll, readDateTime, hread, readSeparator, readChar, trimStart,
      readTime_nil]
  rw [ofLiteral?, htrim, hnone, hnone, hnone, hnone, Date.ofLiteral?_chars]
  rfl

/-! ### Times of day -/

/-- A leap second is the last second of its minute. -/
def Time.IsProper (t : Time) : Prop := t.isLeapSecond = true → t.second % 60 = 59

theorem readFraction_fractionText {n : Nat} (hn : n < nanosPerSecond) :
    readFraction (fractionText n) = some (n, []) := by
  have hplaces {width k : Nat} (hwidth : 0 < width) (hle : width ≤ 9) (hk : k < Nat.pow 10 width) :
      readFraction ('.' :: padded width k) = some (k * Nat.pow 10 (9 - width), []) := by
    have hlen : (padded width k).length = width := length_padded hwidth hk
    have hread : readDigits 9 (padded width k ++ []) = some (k, []) :=
      readDigits_padded (hlen.symm ▸ hle) (by simp)
    rw [List.append_nil] at hread
    simp [readFraction, hread, hlen]
  unfold nanosPerSecond at hn
  unfold fractionText
  split
  · next h => rw [h]; rfl
  · split
    · next hmilli =>
      have hvalue : n / 1000000 * Nat.pow 10 (9 - 3) = n :=
        Nat.div_mul_cancel (Nat.dvd_of_mod_eq_zero hmilli)
      rw [hplaces (by decide) (by decide) (show n / 1000000 < 1000 by omega), hvalue]
    · split
      · next hmicro =>
        have hvalue : n / 1000 * Nat.pow 10 (9 - 6) = n :=
          Nat.div_mul_cancel (Nat.dvd_of_mod_eq_zero hmicro)
        rw [hplaces (by decide) (by decide) (show n / 1000 < 1000000 by omega), hvalue]
      · rw [hplaces (by decide) (by decide) hn]
        exact congrArg (fun k => some (k, [])) (Nat.mul_one n)

theorem Time.ofHMS?_fields {t : Time} (ht : t.IsProper) :
    Time.ofHMS? (t.second / 3600) (t.second / 60 % 60) (t.second % 60 + t.nano / nanosPerSecond)
      t.nanoOfSecond = some t := by
  have hsecond : t.second < 86400 := t.second_lt
  have hnano : t.nano < 2000000000 := t.nano_lt
  unfold nanoOfSecond nanosPerSecond
  by_cases hleap : 1000000000 ≤ t.nano
  · have hlast : t.second % 60 = 59 := ht (decide_eq_true hleap)
    have hone : t.nano / 1000000000 = 1 := by omega
    rw [ofHMS?, dif_pos (by simp only [nanosPerSecond]; omega), dif_pos (by omega)]
    obtain ⟨second, nano, -, -⟩ := t
    simp only [Option.some.injEq, Time.mk.injEq, nanosPerSecond]
    simp only at hone hlast
    omega
  · have hzero : t.nano / 1000000000 = 0 := by omega
    rw [ofHMS?, dif_pos (by simp only [nanosPerSecond]; omega), dif_neg (by omega)]
    obtain ⟨second, nano, -, -⟩ := t
    simp only [Option.some.injEq, Time.mk.injEq]
    simp only at hzero
    omega

theorem readTime_chars {t : Time} (ht : t.IsProper) :
    readTime .fractional t.chars = some (t, []) := by
  have hsecond : t.second < 86400 := t.second_lt
  have hnano : t.nano < 2000000000 := t.nano_lt
  have hh : t.second / 3600 < 100 := by omega
  have hm : t.second / 60 % 60 < 100 := by omega
  have hs : t.second % 60 + t.nano / nanosPerSecond < 100 := by
    unfold nanosPerSecond
    omega
  have hn : readFraction (fractionText t.nanoOfSecond) = some (t.nanoOfSecond, []) :=
    readFraction_fractionText (Nat.mod_lt _ (by decide))
  simp only [Time.chars, List.append_assoc, List.cons_append, readTime, readChar,
    readField_padded hh, readField_padded hm, readField_padded hs, hn, Time.ofHMS?_fields ht, bind,
    Option.bind, ↓reduceIte, pure]

theorem Time.isWritten_of_mem_chars {t : Time} {c : Char} (h : c ∈ t.chars) : IsWritten c := by
  have hfraction : ∀ c ∈ fractionText t.nanoOfSecond, IsWritten c := by
    have hpoint {width n : Nat} : ∀ c ∈ '.' :: padded width n, IsWritten c := by
      intro c hc
      rcases List.mem_cons.1 hc with rfl | hc
      · exact .inr (by decide)
      · exact isWritten_padded hc
    unfold fractionText
    split
    · simp
    · split
      · exact hpoint
      · split <;> exact hpoint
  simp only [Time.chars, List.mem_append, List.mem_cons] at h
  rcases h with ((h | rfl | h) | rfl | h) | h
  · exact isWritten_padded h
  · exact .inr (by decide)
  · exact isWritten_padded h
  · exact .inr (by decide)
  · exact isWritten_padded h
  · exact hfraction c h

/-! ### Datetimes -/

namespace DateTime

/-- The characters of the written form. -/
def chars (t : DateTime) : List Char := t.date.chars ++ 'T' :: t.time.chars

theorem toList_text (t : DateTime) : t.text.toList = t.chars := String.toList_ofList

theorem isWritten_of_mem_chars {t : DateTime} {c : Char} (h : c ∈ t.chars) : IsWritten c := by
  simp only [chars, List.mem_append, List.mem_cons] at h
  rcases h with h | rfl | h
  · exact Date.isWritten_of_mem_chars h
  · exact .inr (by decide)
  · exact Time.isWritten_of_mem_chars h

theorem ofLiteral?_chars {t : DateTime} (ht : t.time.IsProper) :
    DateTime.ofLiteral? t.chars = some t := by
  have hread : readAll (readDateTime true .fractional) t.chars = some t := by
    simp only [chars, readAll, readDateTime, readDate_chars, readSeparator, readChar,
      readTime_chars ht, bind, Option.bind, ↓reduceIte, pure]
  rw [ofLiteral?, trim_eq_self fun c hc => (isWritten_of_mem_chars hc).not_blank, hread]
  rfl

end DateTime

/-! ### Leap seconds within a minute -/

/-- The time that is written: a leap second within a minute is written as the second after it. -/
def Time.asWritten (t : Time) : Time :=
  if h : t.isLeapSecond = true ∧ t.second % 60 ≠ 59 then
    ⟨t.second + 1, t.nanoOfSecond,
      by have := t.second_lt; simp only [secondsPerDay] at this ⊢; omega,
      Nat.lt_of_lt_of_le (Nat.mod_lt _ (by decide)) (by decide)⟩
  else t

theorem Time.isProper_asWritten (t : Time) : t.asWritten.IsProper := by
  intro hleap
  unfold asWritten at hleap ⊢
  split
  · next h =>
    rw [dif_pos h] at hleap
    have hle : nanosPerSecond ≤ t.nano % nanosPerSecond := of_decide_eq_true hleap
    exact absurd (Nat.mod_lt t.nano (by decide)) (Nat.not_lt.2 hle)
  · next h =>
    rw [dif_neg h] at hleap
    exact Decidable.byContradiction fun hlast => h ⟨hleap, hlast⟩

theorem Time.IsProper.asWritten_eq {t : Time} (ht : t.IsProper) : t.asWritten = t :=
  dif_neg fun h => h.2 (ht h.1)

theorem Time.chars_asWritten (t : Time) : t.asWritten.chars = t.chars := by
  unfold asWritten
  split
  · next h =>
    have hnano : t.nano < 2000000000 := t.nano_lt
    have hle : 1000000000 ≤ t.nano := of_decide_eq_true h.1
    have hhour : (t.second + 1) / 3600 = t.second / 3600 := by omega
    have hminute : (t.second + 1) / 60 % 60 = t.second / 60 % 60 := by omega
    have hsecond : (t.second + 1) % 60 + t.nano % nanosPerSecond / nanosPerSecond =
        t.second % 60 + t.nano / nanosPerSecond := by
      simp only [nanosPerSecond]
      omega
    have hfraction : t.nano % nanosPerSecond % nanosPerSecond = t.nano % nanosPerSecond :=
      Nat.mod_mod ..
    simp only [chars, nanoOfSecond, hhour, hminute, hsecond, hfraction]
  · rfl

theorem DateTime.ofLiteral?_chars_asWritten (t : DateTime) :
    DateTime.ofLiteral? t.chars = some ⟨t.date, t.time.asWritten⟩ := by
  have hchars : t.chars = (⟨t.date, t.time.asWritten⟩ : DateTime).chars := by
    rw [chars, chars, Time.chars_asWritten]
  rw [hchars]
  exact ofLiteral?_chars t.time.isProper_asWritten

end TypedConfig.Calendar
