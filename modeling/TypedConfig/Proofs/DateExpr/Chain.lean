import TypedConfig.Proofs.Calendar.Literal
import TypedConfig.Proofs.DateExpr.NearestWeekday
import TypedConfig.Proofs.DateExpr.Written
import TypedConfig.Proofs.DateExpr.WrittenStep
import TypedConfig.Value

/-!
# Chains of written steps

Written steps in front of the text of a date or datetime, with single spaces between, are read as
the chain of these steps before this anchor, so that the text parses to what the steps lead to when
they are taken from the last to the first; more than 256 of them are too many (`parse_chain`). A
text that starts with a step is no literal, because the first run of digits of a literal is its
year, which a hyphen follows (`readDate_eq_none`).
-/

namespace TypedConfig

namespace DateExpr

open Text Calendar

/-! ### One step in front of a text -/

theorem Step.WrittenAs.ofLiteral? {step : Step} {text rest : List Char} (h : step.WrittenAs text)
    (hrest : IsCore rest) : DateTime.ofLiteral? (text ++ ' ' :: rest) = none := by
  refine DateTime.ofLiteral?_eq_none ?_
  rw [(h.isCore.space hrest).trim_eq]
  cases h with
  | @shift ds word dirWord n unit dir hne hds =>
    rw [List.append_assoc]
    exact readDate_eq_none hds (by decide) (by decide) (.inl hne)
  | @firstWeekday first list dirWord days dir hfirst =>
    obtain ⟨c, cs, rfl, -, hc⟩ := hfirst.exists_cons rfl
    have hhyphen : c ≠ '-' := by
      rintro rfl
      cases hc
    exact @readDate_eq_none [] _ c (by simp) (isDigit_of_isAlpha hc) hhyphen (.inr hc)

theorem readUpTo_written (target : DateTarget) {step : Step} {text rest : List Char}
    (h : step.WrittenAs text) (hrest : IsCore rest) :
    readUpTo target 0 (text ++ ' ' :: rest) = .error (.date (.nestedTooDeeply target)) ∧
    ∀ limit, readUpTo target (limit + 1) (text ++ ' ' :: rest) =
      (readUpTo target limit rest).map fun e => ⟨step :: e.steps, e.anchor⟩ := by
  have hliteral := h.ofLiteral? hrest
  obtain ⟨stepText, hread, hstep⟩ := h.readStep hrest
  refine ⟨?_, fun limit => ?_⟩
  · unfold readUpTo
    simp only [hliteral]
  · conv_lhs => unfold readUpTo
    simp only [hliteral, hread, hstep]
    cases readUpTo target limit rest <;> rfl

/-! ### Anchors -/

/-- The datetime that the text of a date or datetime stands for. A leap second within a minute,
which no text is read as, stands for the second that it is written as. -/
inductive Anchors : Value → DateTime → Prop
  | date (d : Date) : Anchors (.date d) ⟨d, Time.midnight⟩
  | dateTime {t : DateTime} (ht : t.time.IsProper) : Anchors (.dateTime t) t
  | leapSecond {t : DateTime} (ht : ¬ t.time.IsProper) :
    Anchors (.dateTime t) ⟨t.date, t.time.asWritten⟩

namespace Anchors

variable {v : Value} {t : DateTime}

theorem ofLiteral? (h : Anchors v t) : DateTime.ofLiteral? v.text.toList = some t := by
  cases h with
  | date d =>
    show DateTime.ofLiteral? d.text.toList = _
    rw [Date.text, String.toList_ofList]
    exact DateTime.ofLiteral?_date d
  | dateTime ht =>
    show DateTime.ofLiteral? t.text.toList = _
    rw [DateTime.toList_text]
    exact DateTime.ofLiteral?_chars ht
  | @leapSecond t ht =>
    show DateTime.ofLiteral? t.text.toList = _
    rw [DateTime.toList_text]
    exact DateTime.ofLiteral?_chars_asWritten t

/-- The text of a date or datetime has no blanks, and it is no time of day. -/
theorem written (h : Anchors v t) :
    (∀ c ∈ v.text.toList, isBlank c = false) ∧ '-' ∈ v.text.toList := by
  have hhyphen (d : Date) : '-' ∈ d.chars := by simp [Date.chars]
  have hdateTime (t : DateTime) :
      (∀ c ∈ t.text.toList, isBlank c = false) ∧ '-' ∈ t.text.toList := by
    rw [DateTime.toList_text]
    exact ⟨fun c hc => (DateTime.isWritten_of_mem_chars hc).not_blank,
      List.mem_append_left _ (hhyphen t.date)⟩
  cases h with
  | date d =>
    show (∀ c ∈ d.text.toList, isBlank c = false) ∧ '-' ∈ d.text.toList
    rw [Date.text, String.toList_ofList]
    exact ⟨fun c hc => (Date.isWritten_of_mem_chars hc).not_blank, hhyphen d⟩
  | dateTime => exact hdateTime _
  | leapSecond => exact hdateTime _

theorem isCore (h : Anchors v t) : IsCore v.text.toList :=
  isCore_of_not_blank (List.ne_nil_of_mem h.written.2) h.written.1

end Anchors

/-! ### Chains -/

/-- Texts and a last one, with single spaces between. -/
def spaced (texts : List (List Char)) (last : List Char) : List Char :=
  [' '].intercalate (texts ++ [last])

theorem spaced_nil (last : List Char) : spaced [] last = last := List.intercalate_singleton

theorem spaced_cons (text : List Char) (texts : List (List Char)) (last : List Char) :
    spaced (text :: texts) last = text ++ ' ' :: spaced texts last := by
  rw [spaced, List.cons_append, List.intercalate_cons_of_ne_nil (by simp), List.append_assoc]
  rfl

theorem exists_spaced_eq_append (texts : List (List Char)) (last : List Char) :
    ∃ pre, spaced texts last = pre ++ last := by
  induction texts with
  | nil => exact ⟨[], spaced_nil last⟩
  | cons text texts ih =>
    obtain ⟨pre, hpre⟩ := ih
    refine ⟨text ++ ' ' :: pre, ?_⟩
    rw [spaced_cons, hpre, List.append_assoc]
    rfl

theorem isCore_spaced {steps : List Step} {texts : List (List Char)} {last : List Char}
    (hsteps : List.Forall₂ Step.WrittenAs steps texts) (hlast : IsCore last) :
    IsCore (spaced texts last) := by
  induction hsteps with
  | nil =>
    rw [spaced_nil]
    exact hlast
  | cons hstep _ ih =>
    rw [spaced_cons]
    exact hstep.isCore.space ih

theorem readUpTo_chain (target : DateTarget) {steps : List Step} {texts : List (List Char)}
    {v : Value} {t : DateTime} (hsteps : List.Forall₂ Step.WrittenAs steps texts)
    (hv : Anchors v t) (limit : Nat) :
    readUpTo target limit (spaced texts v.text.toList) =
      if steps.length ≤ limit then .ok ⟨steps, t⟩
      else .error (.date (.nestedTooDeeply target)) := by
  -- a step takes one of the limit, and the chain behind it has the rest
  induction hsteps generalizing limit with
  | nil =>
    rw [spaced_nil]
    exact readUpTo_of_literal hv.ofLiteral?
  | @cons step text steps texts hstep htail ih =>
    obtain ⟨hzero, hsucc⟩ := readUpTo_written target hstep (isCore_spaced htail hv.isCore)
    rw [spaced_cons]
    cases limit with
    | zero => exact hzero
    | succ limit =>
      rw [hsucc, ih limit, List.length_cons]
      by_cases hlen : steps.length ≤ limit
      · rw [if_pos hlen, if_pos (Nat.succ_le_succ hlen)]
        rfl
      · rw [if_neg hlen, if_neg (mt Nat.le_of_succ_le_succ hlen)]
        rfl

theorem readDateTime_chain (target : DateTarget) {steps : List Step} {texts : List (List Char)}
    {v : Value} {t : DateTime} (hsteps : List.Forall₂ Step.WrittenAs steps texts)
    (hv : Anchors v t) :
    readDateTime target (spaced texts v.text.toList) =
      if steps.length ≤ 256 then steps.foldrM Step.apply t
      else .error (.date (.nestedTooDeeply target)) := by
  rw [readDateTime, read, readUpTo_chain target hsteps hv, maxSteps]
  split <;> rfl

/-- A chain of written steps in front of a written anchor parses to the datetime, or the date of
it, that the steps lead to from the anchor, the last step first, and fails with the error of the
first step that fails; only a chain of more than 256 steps is not taken at all. -/
theorem parse_chain {steps : List Step} {texts : List (List Char)} {v : Value} {t : DateTime}
    (hsteps : List.Forall₂ Step.WrittenAs steps texts) (hv : Anchors v t) {text : String}
    (htext : text.toList = spaced texts v.text.toList) :
    (steps.length ≤ 256 →
      parseDateTime text = steps.foldrM Step.apply t ∧
      parseDate text = DateTime.date <$> steps.foldrM Step.apply t) ∧
    (256 < steps.length →
      parseDateTime text = .error (.date (.nestedTooDeeply .dateTime)) ∧
      parseDate text = .error (.date (.nestedTooDeeply .date))) := by
  have hsplit : splitTime? text.toList = none := by
    obtain ⟨pre, hpre⟩ := exists_spaced_eq_append texts v.text.toList
    rw [htext, hpre]
    exact splitTime?_eq_none hv.written.1 hv.written.2 (by decide) (by decide)
  have hdateTime : parseDateTime text = readDateTime .dateTime text.toList := by
    rw [parseDateTime, hsplit]
  have hdate : parseDate text = DateTime.date <$> readDateTime .date text.toList := by
    rw [parseDate]
    cases readDateTime .date text.toList <;> rfl
  rw [hdateTime, hdate, htext, readDateTime_chain .dateTime hsteps hv,
    readDateTime_chain .date hsteps hv]
  constructor
  · intro hlen
    rw [if_pos hlen, if_pos hlen]
    exact ⟨rfl, rfl⟩
  · intro hlen
    rw [if_neg (Nat.not_le.2 hlen), if_neg (Nat.not_le.2 hlen)]
    exact ⟨rfl, rfl⟩

/-- Two weeks after the last Monday or Friday before Tuesday, 14 September 2021; and a chain with a
step too many. -/
theorem parse_chain_fromTuesday :
    (∃ d : Date, d.text = "2021-09-27" ∧
      parseDateTime "2 Weeks AFTER first mon or FRIDAY before 2021-09-14" =
        .ok ⟨d, Time.midnight⟩ ∧
      parseDate "2 Weeks AFTER first mon or FRIDAY before 2021-09-14" = .ok d) ∧
    parseDate (String.ofList (spaced (List.replicate 257 "1 day after".toList)
      "2021-09-14".toList)) = .error (.date (.nestedTooDeeply .date)) := by
  have hanchor : Anchors (.date ⟨2021, 9, 14, by decide, by decide, by decide⟩) _ := .date _
  constructor
  · have hweeks : Step.WrittenAs (.shift 2 .week .after) "2 Weeks AFTER".toList :=
      @Step.WrittenAs.shift ['2'] "Weeks".toList "AFTER".toList 2 .week .after (by decide)
        (List.all_eq_true.1 rfl) rfl (by decide) (.inr rfl) rfl
    have hdays : Lists "mon or FRIDAY".toList [.monday, .friday] :=
      @Lists.more "mon".toList " or ".toList _ _ _ (.inr rfl)
        (@Separates.conjunction [' '] "or".toList [' '] .space rfl .space) (.one (.inl rfl))
    have hfirst : Step.WrittenAs (.firstWeekday [.monday, .friday] .before)
        "first mon or FRIDAY before".toList :=
      @Step.WrittenAs.firstWeekday "first".toList _ "before".toList _ .before rfl hdays rfl
    have hparse := (parse_chain (.cons hweeks (.cons hfirst .nil)) hanchor
      (show "2 Weeks AFTER first mon or FRIDAY before 2021-09-14".toList = _ by decide +kernel)).1
      (by decide)
    have hmonday : firstWeekday [.monday, .friday] .before
        ⟨⟨2021, 9, 14, by decide, by decide, by decide⟩, Time.midnight⟩ =
        .ok ⟨⟨2021, 9, 13, by decide, by decide, by decide⟩, Time.midnight⟩ := by
      have hstep : DateTime.addSeconds?
          ⟨⟨2021, 9, 14, by decide, by decide, by decide⟩, Time.midnight⟩
          (Direction.before.signed secondsPerDay) =
          some ⟨⟨2021, 9, 13, by decide, by decide, by decide⟩, Time.midnight⟩ := by decide +kernel
      rw [firstWeekday, seekWeekday_succ, hstep]
      exact if_pos (by decide +kernel)
    have hfortnight : TimeUnit.week.shift
        ⟨⟨2021, 9, 13, by decide, by decide, by decide⟩, Time.midnight⟩
        (Direction.after.signed 2) =
        .ok ⟨⟨2021, 9, 27, by decide, by decide, by decide⟩, Time.midnight⟩ :=
      shift_eq_ok_iff.2 (by decide +kernel)
    have hsteps : [Step.shift 2 .week .after, .firstWeekday [.monday, .friday] .before].foldrM
        Step.apply ⟨⟨2021, 9, 14, by decide, by decide, by decide⟩, Time.midnight⟩ =
        .ok ⟨⟨2021, 9, 27, by decide, by decide, by decide⟩, Time.midnight⟩ :=
      bind_eq_ok.2 ⟨_, bind_eq_ok.2 ⟨_, rfl, hmonday⟩, hfortnight⟩
    rw [hsteps] at hparse
    exact ⟨_, by decide +kernel, hparse⟩
  · have hday : Step.WrittenAs (.shift 1 .day .after) "1 day after".toList :=
      @Step.WrittenAs.shift ['1'] "day".toList "after".toList 1 .day .after (by decide)
        (List.all_eq_true.1 rfl) rfl (by decide) (.inl rfl) rfl
    have hdays (k : Nat) : List.Forall₂ Step.WrittenAs (List.replicate k (.shift 1 .day .after))
        (List.replicate k "1 day after".toList) := by
      induction k with
      | zero => exact .nil
      | succ k ih => exact .cons hday ih
    have htoo : 256 < (List.replicate 257 (Step.shift 1 .day .after)).length := by
      rw [List.length_replicate]
      decide
    exact ((parse_chain (hdays 257) hanchor String.toList_ofList).2 htoo).2

end DateExpr
end TypedConfig
