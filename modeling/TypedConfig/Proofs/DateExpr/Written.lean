import Mathlib.Data.List.TakeWhile
import TypedConfig.Proofs.Calendar.Written

/-!
# Written dates and datetimes are expressions

The written form of a date is a date expression without steps, for this date (`parseDate_text`). So
is the one of a datetime (`parseDateTime_text`), which is not mistaken for a text that ends in a
time of day: it has no blanks, and its letter is in no time of day.
-/

namespace TypedConfig

namespace Text

theorem exists_mem_splitWhere {p : Char → Bool} {cs : List Char} {c : Char} (hc : c ∈ cs)
    (hp : p c = false) : ∃ part ∈ splitWhere p cs, c ∈ part := by
  induction cs with
  | nil => cases hc
  | cons d cs ih =>
    by_cases hd : p d = true
    · rw [splitWhere, if_pos hd]
      rcases List.mem_cons.1 hc with rfl | hc
      · rw [hp] at hd
        cases hd
      · obtain ⟨part, hpart, hc⟩ := ih hc
        exact ⟨part, List.mem_cons_of_mem _ hpart, hc⟩
    · rw [splitWhere, if_neg hd]
      split
      · next hnil => exact absurd hnil (splitWhere_ne_nil p cs)
      · next first parts hparts =>
        rcases List.mem_cons.1 hc with rfl | hc
        · exact ⟨_, List.mem_cons_self .., List.mem_cons_self ..⟩
        · obtain ⟨part, hpart, hc⟩ := ih hc
          rw [hparts] at hpart
          rcases List.mem_cons.1 hpart with rfl | hpart
          · exact ⟨_, List.mem_cons_self .., List.mem_cons_of_mem _ hc⟩
          · exact ⟨part, List.mem_cons_of_mem _ hpart, hc⟩

end Text

namespace DateExpr

open Text Calendar

theorem readUpTo_of_literal {target : DateTarget} {limit : Nat} {cs : List Char} {t : DateTime}
    (h : DateTime.ofLiteral? cs = some t) : readUpTo target limit cs = .ok ⟨[], t⟩ := by
  unfold readUpTo
  simp only [h]

theorem readDateTime_of_literal {target : DateTarget} {cs : List Char} {t : DateTime}
    (h : DateTime.ofLiteral? cs = some t) : readDateTime target cs = .ok t := by
  rw [readDateTime, read, readUpTo_of_literal h]
  rfl

theorem parseDate_text (d : Date) : parseDate d.text = .ok d := by
  have hread : readDateTime .date d.text.toList = .ok ⟨d, Time.midnight⟩ := by
    rw [Date.text, String.toList_ofList]
    exact readDateTime_of_literal (DateTime.ofLiteral?_date d)
  rw [parseDate, hread]
  rfl

theorem isTimeForm_eq_false {word : List Char} {c : Char} (hc : c ∈ word) (hcolon : c ≠ ':')
    (hdigit : isDecimalDigit c = false) : isTimeForm word = false := by
  obtain ⟨part, hpart, hc⟩ := exists_mem_splitWhere (p := (· == ':')) hc (by simpa using hcolon)
  have hall : ((splitWhere (· == ':') word).all fun part => part.all isDecimalDigit) = false := by
    refine List.all_eq_false.2 ⟨part, hpart, ?_⟩
    rw [Bool.not_eq_true]
    exact List.all_eq_false.2 ⟨c, hc, by simp [hdigit]⟩
  unfold isTimeForm
  split
  · next heq => rw [heq] at hall; rw [hall, Bool.and_false]
  · rfl

/-- A text is not taken for one with a time of day if its last word has another character. -/
theorem splitTime?_eq_none {pre word : List Char} {c : Char}
    (hblank : ∀ d ∈ word, isBlank d = false) (hc : c ∈ word) (hcolon : c ≠ ':')
    (hdigit : isDecimalDigit c = false) : splitTime? (pre ++ word) = none := by
  have hend : trimEnd (pre ++ word) = pre ++ word := by
    refine trimEnd_eq_of_last fun d hd => hblank d ?_
    have hlast := List.getLast?_eq_some_getLast (List.ne_nil_of_mem hc)
    rw [List.getLast?_append, hlast, Option.some_or, ← hlast] at hd
    exact List.mem_of_mem_getLast? hd
  have hword : ((pre ++ word).reverse.takeWhile fun d => !isBlank d) =
      word.reverse ++ pre.reverse.takeWhile fun d => !isBlank d := by
    rw [List.reverse_append, List.takeWhile_append_of_pos (by simpa using hblank)]
  have hform : isTimeForm ((pre ++ word).reverse.takeWhile fun d => !isBlank d).reverse = false := by
    refine isTimeForm_eq_false ?_ hcolon hdigit
    rw [hword, List.reverse_append, List.reverse_reverse]
    exact List.mem_append_right _ hc
  simp only [splitTime?, hend, hform]
  rfl

theorem splitTime?_text (t : DateTime) : splitTime? t.text.toList = none := by
  have hblank : ∀ c ∈ t.chars, isBlank c = false := fun c hc =>
    (DateTime.isWritten_of_mem_chars hc).not_blank
  have hletter : 'T' ∈ t.chars := by simp [DateTime.chars]
  rw [DateTime.toList_text, ← List.nil_append t.chars]
  exact splitTime?_eq_none hblank hletter (by decide) (by decide)

theorem parseDateTime_text (t : DateTime) :
    parseDateTime t.text = .ok ⟨t.date, t.time.asWritten⟩ := by
  rw [parseDateTime, splitTime?_text, DateTime.toList_text]
  exact readDateTime_of_literal (DateTime.ofLiteral?_chars_asWritten t)

end DateExpr
end TypedConfig
