import TypedConfig.Proofs.Calendar.Written
import TypedConfig.Proofs.Text.Blanks

/-!
# Texts that are no literals

A text is no literal if its first run of digits, where the year is, ends before another character
than a hyphen (`readDate_eq_none`), or if it holds a character that literals are not written with
(`DateTime.ofLiteral?_eq_none_of_mem`): a reader consumes blanks and written characters only.
-/

namespace TypedConfig.Calendar

open Text

/-! ### The digits of the year -/

theorem readYear_unsigned {cs : List Char}
    (h : ∀ c ∈ cs.head?, isBlank c = false ∧ c ≠ '-' ∧ c ≠ '+') :
    readYear cs = (readDigits 4 cs).map fun (n, rest) => ((n : Int), rest) := by
  have htrim : trimStart cs = cs := trimStart_eq_self fun c hc => (h c hc).1
  rw [readYear, htrim]
  split
  · exact absurd rfl (h _ rfl).2.1
  · exact absurd rfl (h _ rfl).2.2
  · rfl

theorem readDigits_eq_some {limit n : Nat} {cs rest : List Char}
    (h : readDigits limit cs = some (n, rest)) :
    ∃ ds, cs = ds ++ rest ∧ ∀ c ∈ ds, c.isDigit = true := by
  unfold readDigits at h
  obtain ⟨ds, hds⟩ : ∃ ds, (cs.take limit).takeWhile Char.isDigit = ds := ⟨_, rfl⟩
  rw [hds] at h
  by_cases hempty : ds.isEmpty = true
  · rw [if_pos hempty] at h
    cases h
  · rw [if_neg hempty] at h
    cases h
    have hprefix : ds <+: cs := hds ▸ (List.takeWhile_prefix _).trans (List.take_prefix _ _)
    refine ⟨ds, (List.prefix_iff_eq_append.1 hprefix).symm, ?_⟩
    intro c hc
    exact List.mem_takeWhile_imp (hds ▸ hc)

/-- A text is no date if its first digits end before another character than a hyphen. -/
theorem readDate_eq_none {ds more : List Char} {c : Char} (hds : ∀ d ∈ ds, d.isDigit = true)
    (hc : c.isDigit = false) (hhyphen : c ≠ '-') (hhead : ds ≠ [] ∨ c.isAlpha = true) :
    readDate (ds ++ c :: more) = none := by
  have hyear : readYear (ds ++ c :: more) =
      (readDigits 4 (ds ++ c :: more)).map fun (n, rest) => ((n : Int), rest) := by
    have hsign (d : Char) (hd : d.isDigit = true ∨ d.isAlpha = true) :
        isBlank d = false ∧ d ≠ '-' ∧ d ≠ '+' := by
      refine ⟨hd.elim isBlank_of_isDigit isBlank_of_isAlpha, ?_, ?_⟩
      · rintro rfl
        simp at hd
      · rintro rfl
        simp at hd
    refine readYear_unsigned fun d hd => hsign d ?_
    cases ds with
    | nil =>
      cases hd
      exact .inr (hhead.resolve_left fun hne => hne rfl)
    | cons e ds =>
      cases hd
      exact .inl (hds _ (List.mem_cons_self ..))
  -- the year may take fewer digits than there are, but then a digit follows it
  have hrest : ∀ n rest, readDigits 4 (ds ++ c :: more) = some (n, rest) →
      readChar '-' rest = none := by
    intro n rest hread
    obtain ⟨ds', heq, hds'⟩ := readDigits_eq_some hread
    cases rest with
    | nil => rfl
    | cons e rest =>
      refine if_neg ?_
      rintro rfl
      have hdrop := dropWhile_append_cons hds hc more
      rw [heq, dropWhile_append_cons hds' (by decide) rest] at hdrop
      exact hhyphen (List.cons.inj hdrop).1.symm
  cases hread : readDigits 4 (ds ++ c :: more) with
  | none => simp only [readDate, hyear, hread, Option.map_none, bind, Option.bind]
  | some p =>
    simp only [readDate, hyear, hread, Option.map_some, hrest p.1 p.2 hread, bind, Option.bind]

theorem DateTime.ofLiteral?_eq_none {cs : List Char} (h : readDate (trim cs) = none) :
    DateTime.ofLiteral? cs = none := by
  have hnone (letter : Bool) (seconds : Seconds) :
      readAll (readDateTime letter seconds) (trim cs) = none := by
    simp only [readAll, readDateTime, h, bind, Option.bind]
  have hdate : Date.ofLiteral? cs = none := by rw [Date.ofLiteral?, readAll, h]
  rw [ofLiteral?, hnone, hnone, hnone, hnone, hdate]
  rfl

/-! ### The characters of a literal -/

/-- What is read up to `rest` are blanks and written characters. -/
def Consumes (cs rest : List Char) : Prop :=
  ∃ used, cs = used ++ rest ∧ ∀ c ∈ used, isBlank c = true ∨ IsWritten c

namespace Consumes

variable {cs rest rest' : List Char}

theorem refl (cs : List Char) : Consumes cs cs := ⟨[], rfl, by simp⟩

theorem trans (h : Consumes cs rest) (h' : Consumes rest rest') : Consumes cs rest' := by
  obtain ⟨used, rfl, hused⟩ := h
  obtain ⟨used', rfl, hused'⟩ := h'
  refine ⟨used ++ used', (List.append_assoc ..).symm, fun c hc => ?_⟩
  rcases List.mem_append.1 hc with hc | hc
  · exact hused c hc
  · exact hused' c hc

theorem cons {c : Char} (hc : IsWritten c) : Consumes (c :: rest) rest :=
  ⟨[c], rfl, by simpa using .inr hc⟩

theorem digits {ds : List Char} (hds : ∀ c ∈ ds, c.isDigit = true) : Consumes (ds ++ rest) rest :=
  ⟨ds, rfl, fun c hc => .inr (.inl (hds c hc))⟩

theorem trimStart (cs : List Char) : Consumes cs (trimStart cs) :=
  ⟨cs.takeWhile isBlank, List.takeWhile_append_dropWhile.symm,
    fun _ hc => .inl (List.mem_takeWhile_imp hc)⟩

/-- A text that is consumed to its end has no other characters. -/
theorem mem (h : Consumes cs []) {c : Char} (hc : c ∈ cs) : isBlank c = true ∨ IsWritten c := by
  obtain ⟨used, rfl, hused⟩ := h
  rw [List.append_nil] at hc
  exact hused c hc

end Consumes

section Readers

variable {cs rest : List Char}

theorem readDigits_consumes {limit n : Nat} (h : readDigits limit cs = some (n, rest)) :
    Consumes cs rest := by
  obtain ⟨ds, rfl, hds⟩ := readDigits_eq_some h
  exact .digits hds

theorem readField_consumes {n : Nat} (h : readField cs = some (n, rest)) : Consumes cs rest :=
  (Consumes.trimStart cs).trans (readDigits_consumes h)

theorem readYear_consumes {y : Int} (h : readYear cs = some (y, rest)) : Consumes cs rest := by
  refine (Consumes.trimStart cs).trans ?_
  unfold readYear at h
  split at h
  · next heq =>
    obtain ⟨⟨n, rest'⟩, hdigits, hpair⟩ := Option.map_eq_some_iff.1 h
    cases hpair
    exact heq ▸ (Consumes.cons (.inr (by decide))).trans (readDigits_consumes hdigits)
  · next heq =>
    obtain ⟨⟨n, rest'⟩, hdigits, hpair⟩ := Option.map_eq_some_iff.1 h
    cases hpair
    exact heq ▸ (Consumes.cons (.inr (by decide))).trans (readDigits_consumes hdigits)
  · obtain ⟨⟨n, rest'⟩, hdigits, hpair⟩ := Option.map_eq_some_iff.1 h
    cases hpair
    exact readDigits_consumes hdigits

theorem readChar_consumes {c : Char} (hc : IsWritten c) (h : readChar c cs = some ((), rest)) :
    Consumes cs rest := by
  cases cs with
  | nil => cases h
  | cons d cs =>
    rw [readChar, Option.ite_none_right_eq_some] at h
    obtain ⟨rfl, heq⟩ := h
    cases heq
    exact .cons hc

theorem readDate_consumes {d : Date} (h : readDate cs = some (d, rest)) : Consumes cs rest := by
  have hhyphen : IsWritten '-' := .inr (by decide)
  simp only [readDate, Option.bind_eq_bind, Option.bind_eq_some_iff, Prod.exists] at h
  obtain ⟨y, r₁, hy, ⟨⟩, r₂, h₁, m, r₃, hm, ⟨⟩, r₄, h₂, k, r₅, hk, d', -, hpair⟩ := h
  cases hpair
  exact (readYear_consumes hy).trans <| (readChar_consumes hhyphen h₁).trans <|
    (readField_consumes hm).trans <| (readChar_consumes hhyphen h₂).trans (readField_consumes hk)

theorem readFraction_consumes {n : Nat} (h : readFraction cs = some (n, rest)) :
    Consumes cs rest := by
  unfold readFraction at h
  split at h
  · next cs =>
    simp only [Option.bind_eq_bind, Option.bind_eq_some_iff, Prod.exists] at h
    obtain ⟨k, r, hdigits, hpair⟩ := h
    cases hpair
    refine (Consumes.cons (.inr (by decide))).trans ((readDigits_consumes hdigits).trans ?_)
    exact ⟨r.takeWhile Char.isDigit, List.takeWhile_append_dropWhile.symm,
      fun c hc => .inr (.inl (List.mem_takeWhile_imp hc))⟩
  · cases h
    exact .refl _

theorem readTime_consumes {seconds : Seconds} {t : Time}
    (h : readTime seconds cs = some (t, rest)) : Consumes cs rest := by
  have hcolon : IsWritten ':' := .inr (by decide)
  simp only [readTime, Option.bind_eq_bind, Option.bind_eq_some_iff, Prod.exists] at h
  obtain ⟨hour, r₁, hh, ⟨⟩, r₂, h₁, minute, r₃, hm, h⟩ := h
  refine (readField_consumes hh).trans <| (readChar_consumes hcolon h₁).trans <|
    (readField_consumes hm).trans ?_
  cases seconds with
  | none =>
    simp only [Option.bind_eq_some_iff] at h
    obtain ⟨t', -, hpair⟩ := h
    cases hpair
    exact .refl _
  | whole =>
    simp only [Option.bind_eq_some_iff, Prod.exists] at h
    obtain ⟨⟨⟩, r₄, h₂, s, r₅, hs, t', -, hpair⟩ := h
    cases hpair
    exact (readChar_consumes hcolon h₂).trans (readField_consumes hs)
  | fractional =>
    simp only [Option.bind_eq_some_iff, Prod.exists] at h
    obtain ⟨⟨⟩, r₄, h₂, s, r₅, hs, n, r₆, hn, t', -, hpair⟩ := h
    cases hpair
    exact (readChar_consumes hcolon h₂).trans <| (readField_consumes hs).trans
      (readFraction_consumes hn)

theorem readDateTime_consumes {letter : Bool} {seconds : Seconds} {t : DateTime}
    (h : readDateTime letter seconds cs = some (t, rest)) : Consumes cs rest := by
  simp only [readDateTime, Option.bind_eq_bind, Option.bind_eq_some_iff, Prod.exists] at h
  obtain ⟨d, r₁, hd, ⟨⟩, r₂, hsep, time, r₃, ht, hpair⟩ := h
  cases hpair
  have hseparator : Consumes r₁ r₂ := by
    cases letter with
    | true => exact readChar_consumes (.inr (by decide)) hsep
    | false =>
      cases hsep
      exact .trimStart r₁
  exact (readDate_consumes hd).trans (hseparator.trans (readTime_consumes ht))

end Readers

theorem DateTime.consumes_of_ofLiteral? {cs : List Char} {t : DateTime}
    (h : DateTime.ofLiteral? cs = some t) : Consumes (trim cs) [] := by
  simp only [ofLiteral?, Option.orElse_eq_orElse, Option.orElse_eq_or, Option.or_eq_some_iff] at h
  rcases h with h | ⟨-, h | ⟨-, h | ⟨-, h | ⟨-, h⟩⟩⟩⟩
  · exact readDateTime_consumes (readAll_eq_some h)
  · exact readDateTime_consumes (readAll_eq_some h)
  · exact readDateTime_consumes (readAll_eq_some h)
  · exact readDateTime_consumes (readAll_eq_some h)
  · obtain ⟨d, hd, -⟩ := Option.map_eq_some_iff.1 h
    exact readDate_consumes (readAll_eq_some hd)

/-- A text with a character that is neither blank nor written in literals is none. -/
theorem DateTime.ofLiteral?_eq_none_of_mem {cs : List Char} {c : Char} (hc : c ∈ cs)
    (hblank : isBlank c = false) (hwritten : ¬ IsWritten c) : DateTime.ofLiteral? cs = none := by
  cases h : DateTime.ofLiteral? cs with
  | none => rfl
  | some t =>
    rcases (DateTime.consumes_of_ofLiteral? h).mem (mem_trim hc hblank) with hmem | hmem
    · rw [hblank] at hmem
      cases hmem
    · exact absurd hmem hwritten

end TypedConfig.Calendar
