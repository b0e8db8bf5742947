import TypedConfig.Proofs.DateExpr.ClockText
import TypedConfig.Proofs.DateExpr.WrittenStep

/-!
# Dates and datetimes of one text

A text may end in `at` and a time of day (`EndsAt`), which only a datetime is read with. Without
such an end the date of a text is the date of its datetime; with one the text has a datetime if
the text before it has a date and the time of day exists, and it has no date itself
(`parseDate_agrees_parseDateTime`). The last two words of the text are the reason for that: they stay
in the anchor of every step (`EndsInTime.of_leadsTo`), and no literal has the letters of `at`.
-/

namespace TypedConfig.DateExpr

open Text Calendar

/-! ### A text that ends in a time of day -/

/-- A text, not ending in a blank, has `at` in either case and a time of day behind it, with blanks
between and perhaps at the end. -/
inductive EndsAt : List Char → List Char → ClockText → Prop
  | mk {pre gap word gap' rest : List Char} (clock : ClockText) (hne : pre ≠ [])
    (hlast : ∀ c ∈ pre.getLast?, isBlank c = false) (hgap : IsGap gap)
    (hword : Spells word ['a', 't']) (hgap' : IsGap gap') (hrest : ∀ c ∈ rest, isBlank c = true) :
    EndsAt (pre ++ (gap ++ (word ++ (gap' ++ (clock.chars ++ rest))))) pre clock

theorem afterBlanks?_eq_some_iff {cs rest : List Char} :
    afterBlanks? cs = some rest ↔
      ∃ gap, IsGap gap ∧ cs = gap ++ rest ∧ ∀ c ∈ rest.head?, isBlank c = false := by
  constructor
  · intro h
    cases cs with
    | nil => cases h
    | cons c cs =>
      obtain ⟨hc, hrest⟩ := Option.ite_none_right_eq_some.1 h
      cases hrest
      refine ⟨c :: cs.takeWhile isBlank, ⟨by simp, ?_⟩, ?_, head_trimStart cs⟩
      · exact List.forall_mem_cons.2 ⟨hc, fun d hd => List.mem_takeWhile_imp hd⟩
      · rw [trimStart, List.cons_append, List.takeWhile_append_dropWhile]
  · rintro ⟨gap, hgap, rfl, hrest⟩
    obtain ⟨c, gap, rfl⟩ := List.exists_cons_of_ne_nil hgap.ne_nil
    obtain ⟨hc, hblank⟩ := List.forall_mem_cons.1 hgap.blank
    rw [List.cons_append, afterBlanks?, if_pos hc, trimStart, List.dropWhile_append_of_pos hblank]
    exact congrArg some (trimStart_eq_self hrest)

theorem endsAt_of_splitTime? {cs pre word : List Char} (h : splitTime? cs = some (pre, word)) :
    ∃ clock : ClockText, clock.chars = word ∧ EndsAt cs pre clock := by
  have hreverse : (trimEnd cs).reverse = trimStart cs.reverse := List.reverse_reverse _
  simp only [splitTime?, hreverse, Option.bind_eq_bind, Option.bind_none,
    Option.ite_none_left_eq_some, Option.bind_eq_some_iff] at h
  obtain ⟨hform, r₁, h₁, r₂, h₂, r₃, h₃, hrest, hpair⟩ := h
  cases hpair
  obtain ⟨clock, hclock⟩ := ClockText.exists_of_isTimeForm (by simpa using hform)
  obtain ⟨gap', hgap', hdrop, -⟩ := afterBlanks?_eq_some_iff.1 h₁
  obtain ⟨word, hword, rfl⟩ := afterWord?_eq_some_iff.1 h₂
  obtain ⟨gap, hgap, rfl, hhead⟩ := afterBlanks?_eq_some_iff.1 h₃
  refine ⟨clock, hclock, ?_⟩
  have hspells : Spells word.reverse ['a', 't'] := by
    refine spells_of_foldCase ?_ (by decide) (by decide)
    rw [List.map_reverse, hword]
    rfl
  -- the text read from its end: blanks, the time of day, and what the readers found behind it
  have hcs : cs.reverse = cs.reverse.takeWhile isBlank ++
      (clock.chars.reverse ++ (gap' ++ (word ++ (gap ++ r₃)))) := by
    rw [← hdrop, hclock, List.reverse_reverse, List.takeWhile_append_dropWhile, trimStart,
      List.takeWhile_append_dropWhile]
  have hne : r₃.reverse ≠ [] := by
    rintro hnil
    rw [List.reverse_eq_nil_iff.1 hnil] at hrest
    exact hrest rfl
  have hend : EndsAt (r₃.reverse ++ (gap.reverse ++ (word.reverse ++ (gap'.reverse ++
      (clock.chars ++ (cs.reverse.takeWhile isBlank).reverse))))) r₃.reverse clock :=
    .mk clock hne (by simpa using hhead) hgap.reverse hspells hgap'.reverse
      fun c hc => List.mem_takeWhile_imp (List.mem_reverse.1 hc)
  have heq := congrArg List.reverse hcs
  simp only [List.reverse_append, List.reverse_reverse, List.append_assoc] at heq
  rw [heq]
  exact hend

theorem splitTime?_of_endsAt {cs pre : List Char} {clock : ClockText} (h : EndsAt cs pre clock)
    (hline : '\n' ∉ cs) : splitTime? cs = some (pre, clock.chars) := by
  cases h with
  | @mk pre gap word gap' rest clock hne hlast hgap hword hgap' hrest =>
    have hchars : IsCore clock.chars.reverse :=
      isCore_of_not_blank (by simp [clock.chars_ne_nil])
        fun c hc => clock.not_blank (List.mem_reverse.1 hc)
    have hcore : IsCore word.reverse :=
      isCore_of_not_blank (by simpa using (hword.isCore rfl (by decide)).ne_nil)
        fun c hc => isBlank_of_isAlpha (hword.isAlpha rfl c (List.mem_reverse.1 hc))
    have hfold : word.reverse.map foldCase = "ta".toList := by
      rw [List.map_reverse, hword.map_foldCase rfl]
      rfl
    have hreverse :
        (trimEnd (pre ++ (gap ++ (word ++ (gap' ++ (clock.chars ++ rest)))))).reverse =
          clock.chars.reverse ++ (gap'.reverse ++ (word.reverse ++ (gap.reverse ++ pre.reverse))) := by
      simp only [trimEnd, List.reverse_reverse, List.reverse_append, List.append_assoc]
      rw [List.dropWhile_append_of_pos fun c hc => hrest c (List.mem_reverse.1 hc)]
      exact hchars.trimStart_append
    -- the three readers, from the end of the text to its start
    have h₁ : afterBlanks? (gap'.reverse ++ (word.reverse ++ (gap.reverse ++ pre.reverse))) =
        some (word.reverse ++ (gap.reverse ++ pre.reverse)) := by
      refine afterBlanks?_eq_some_iff.2 ⟨_, hgap'.reverse, rfl, ?_⟩
      exact hcore.trimStart_append ▸ head_trimStart _
    have h₂ : afterWord? "ta".toList (word.reverse ++ (gap.reverse ++ pre.reverse)) =
        some (gap.reverse ++ pre.reverse) := afterWord?_eq_some_iff.2 ⟨_, hfold, rfl⟩
    have h₃ : afterBlanks? (gap.reverse ++ pre.reverse) = some pre.reverse :=
      afterBlanks?_eq_some_iff.2 ⟨_, hgap.reverse, rfl, by simpa using hlast⟩
    obtain ⟨c, tail, hgap''⟩ := List.exists_cons_of_ne_nil hgap'.reverse.ne_nil
    have hc : (!isBlank c) = false := by
      rw [hgap'.reverse.blank c (hgap'' ▸ List.mem_cons_self ..)]
      rfl
    have hnot : ∀ c ∈ clock.chars.reverse, (!isBlank c) = true := by
      intro c hc
      rw [clock.not_blank (List.mem_reverse.1 hc)]
      rfl
    have htake := takeWhile_append_cons hnot hc (tail ++ (word.reverse ++ (gap.reverse ++ pre.reverse)))
    have hdrop := dropWhile_append_cons hnot hc (tail ++ (word.reverse ++ (gap.reverse ++ pre.reverse)))
    rw [← List.cons_append, ← hgap''] at htake hdrop
    have hline' : '\n' ∉ pre := fun hmem => hline (List.mem_append_left _ hmem)
    simp only [splitTime?, hreverse, htake, hdrop, h₁, h₂, h₃, List.reverse_reverse,
      clock.isTimeForm_chars, bind, Option.bind, Bool.not_true, Bool.false_eq_true, ↓reduceIte]
    simp [hne, hline']

/-! ### The last two words of a text -/

/-- The last two words are `at` and a time of day. -/
def EndsInTime (cs : List Char) : Prop :=
  ∃ ws word, ∃ clock : ClockText, Spells word ['a', 't'] ∧ words cs = ws ++ [word, clock.chars]

theorem EndsAt.endsInTime {cs pre : List Char} {clock : ClockText} (h : EndsAt cs pre clock) :
    EndsInTime cs := by
  cases h with
  | @mk pre gap word gap' rest clock hne hlast hgap hword hgap' hrest =>
    refine ⟨words pre, word, clock, hword, ?_⟩
    have hcore : IsCore word := hword.isCore rfl (by decide)
    have hwords : words word = [word] :=
      words_of_word hcore.ne_nil fun c hc => isBlank_of_isAlpha (hword.isAlpha rfl c hc)
    have hchars : words clock.chars = [clock.chars] :=
      words_of_word clock.chars_ne_nil fun c hc => clock.not_blank hc
    rw [hgap.words_append, hgap'.words_append, words_append_blanks hrest, hwords, hchars]
    rfl

theorem EndsInTime.ofLiteral?_eq_none {cs : List Char} (h : EndsInTime cs) :
    DateTime.ofLiteral? cs = none := by
  obtain ⟨ws, word, clock, hword, hwords⟩ := h
  obtain ⟨c, tail, rfl, -, halpha⟩ := hword.exists_cons rfl
  have hmem : c :: tail ∈ words cs := by simp [hwords]
  have hc : c ∈ cs := mem_of_mem_words hmem (List.mem_cons_self ..)
  have hlower : c.toLower = 'a' := (List.cons.inj hword).1
  refine DateTime.ofLiteral?_eq_none_of_mem hc (isBlank_of_isAlpha halpha) ?_
  rintro (hdigit | hsign)
  · rw [isDigit_of_isAlpha halpha] at hdigit
    cases hdigit
  · simp only [List.mem_cons, List.not_mem_nil, or_false] at hsign
    rcases hsign with rfl | rfl | rfl | rfl | rfl <;> cases hlower

/-- A direction stands between the words of a step and those of its anchor. -/
def LeadsTo (cs anchor : List Char) : Prop :=
  ∃ ws word, ∃ dir : Direction, word.map foldCase = dir.name.toList ∧
    words cs = ws ++ word :: words anchor

theorem EndsInTime.of_leadsTo {cs anchor : List Char} (h : EndsInTime cs)
    (hlead : LeadsTo cs anchor) : EndsInTime anchor := by
  obtain ⟨ws, word, clock, hword, hcs⟩ := h
  obtain ⟨ws', dirWord, dir, hdir, hcs'⟩ := hlead
  have hat : dirWord ≠ word := by
    rintro rfl
    have hlength := congrArg List.length hdir
    rw [List.length_map, hword.length_eq] at hlength
    cases dir <;> cases hlength
  have htime : dirWord ≠ clock.chars := by
    rintro rfl
    have hcolon : foldCase ':' ∈ clock.chars.map foldCase :=
      List.mem_map_of_mem (ClockText.mem_chars.2 (.inl rfl))
    rw [hdir] at hcolon
    revert hcolon
    cases dir <;> decide
  rw [hcs] at hcs'
  rcases List.append_eq_append_iff.1 hcs' with ⟨ms, -, hms⟩ | ⟨ms, -, hms⟩
  · rcases ms with _ | ⟨m, _ | ⟨m', ms⟩⟩
    · exact absurd (List.cons.inj hms).1.symm hat
    · exact absurd (List.cons.inj (List.cons.inj hms).2).1.symm htime
    · simp at hms
  · rcases ms with _ | ⟨m, ms⟩
    · exact absurd (List.cons.inj hms).1 hat
    · exact ⟨ms, word, clock, hword, (List.cons.inj hms).2⟩

/-! ### The anchor of a step -/

theorem readDirection_eq_some {cs rest : List Char} {dir : Direction}
    (h : readDirection cs = some (dir, rest)) :
    ∃ word, word.map foldCase = dir.name.toList ∧ cs = word ++ rest := by
  unfold readDirection at h
  split at h
  · next heq =>
    cases h
    exact afterWord?_eq_some_iff.1 heq
  · obtain ⟨rest', heq, hpair⟩ := Option.map_eq_some_iff.1 h
    cases hpair
    exact afterWord?_eq_some_iff.1 heq

theorem readAnchor_eq_some {cs anchor : List Char} (h : readAnchor cs = some anchor) :
    ∃ c rest, isBlank c = true ∧ cs = c :: rest ∧ anchor = trim rest := by
  cases cs with
  | nil => cases h
  | cons c rest =>
    simp only [readAnchor, Option.ite_none_left_eq_some, Bool.not_eq_true', Bool.not_eq_false] at h
    obtain ⟨hc, h⟩ := h
    refine ⟨c, rest, hc, rfl, ?_⟩
    split at h
    · next hempty =>
      obtain ⟨-, hanchor⟩ := Option.ite_none_right_eq_some.1 h
      rw [List.isEmpty_iff.1 hempty]
      exact (Option.some.inj hanchor).symm
    · obtain ⟨-, hanchor⟩ := Option.ite_none_left_eq_some.1 h
      exact (Option.some.inj hanchor).symm

theorem readTail_leadsTo {cs anchor : List Char} {dir : Direction}
    (h : readTail cs = some (dir, anchor)) (pre : List Char) : LeadsTo (pre ++ cs) anchor := by
  simp only [readTail, Option.bind_eq_bind, Option.bind_eq_some_iff, Prod.exists] at h
  obtain ⟨cs₁, h₁, dir', cs₂, h₂, anchor', h₃, hpair⟩ := h
  cases hpair
  obtain ⟨gap, hgap, rfl, -⟩ := afterBlanks?_eq_some_iff.1 h₁
  obtain ⟨word, hword, rfl⟩ := readDirection_eq_some h₂
  obtain ⟨c, rest, hc, rfl, rfl⟩ := readAnchor_eq_some h₃
  refine ⟨words pre, word, dir, hword, ?_⟩
  have hne : word ≠ [] := by
    rintro rfl
    cases dir <;> cases hword
  have hwords : words word = [word] := by
    refine words_of_word hne fun d hd => isBlank_of_isFoldedLetter ?_
    exact List.all_eq_true.1 dir.isLower_name _ (hword ▸ List.mem_map_of_mem hd)
  rw [hgap.words_append, words_append_cons hc, hwords, words_trim]
  rfl

theorem readList_leadsTo {list cs list' anchor : List Char} {dir : Direction}
    (h : readList list cs = some (list', dir, anchor)) (pre : List Char) :
    LeadsTo (pre ++ cs) anchor := by
  induction cs generalizing list pre with
  | nil => cases h
  | cons c cs ih =>
    have hpre : pre ++ c :: cs = pre ++ [c] ++ cs := by rw [List.append_assoc]; rfl
    rw [readList, Option.ite_none_left_eq_some] at h
    obtain ⟨-, h⟩ := h
    rw [hpre]
    split at h
    · next htail =>
      cases h
      exact readTail_leadsTo htail _
    · exact ih h _

theorem readFirst_leadsTo {cs anchor : List Char} {step : StepText}
    (h : readFirst cs = some (step, anchor)) (pre : List Char) : LeadsTo (pre ++ cs) anchor := by
  obtain ⟨body, hbody, h⟩ := Option.bind_eq_some_iff.1 h
  obtain ⟨gap, hgap, rfl, -⟩ := afterBlanks?_eq_some_iff.1 hbody
  split at h
  · next hlist =>
    cases h
    rw [← List.append_assoc]
    exact readList_leadsTo hlist _
  · simp only [Option.ite_none_right_eq_some, Option.bind_eq_bind, Option.bind_eq_some_iff,
      Prod.exists] at h
    obtain ⟨-, dir, anchor', htail, hpair⟩ := h
    cases hpair
    -- the list is a blank; the direction is read behind one blank of those in front of the body
    obtain ⟨ws, word, dir', hword, hwords⟩ := readTail_leadsTo htail []
    rw [List.nil_append, words_blanks_append fun c hc =>
      List.mem_takeWhile_imp (List.mem_of_mem_take hc)] at hwords
    refine ⟨words pre ++ ws, word, dir', hword, ?_⟩
    rw [hgap.words_append, hwords, List.append_assoc]

theorem readShift_leadsTo {cs anchor : List Char} {step : StepText}
    (h : readShift cs = some (step, anchor)) (pre : List Char) : LeadsTo (pre ++ cs) anchor := by
  simp only [readShift, Option.bind_eq_bind, Option.bind_none, Option.ite_none_left_eq_some,
    Option.bind_eq_some_iff, Prod.exists] at h
  obtain ⟨cs₁, h₁, -, dir, anchor', htail, hpair⟩ := h
  cases hpair
  obtain ⟨gap, -, hgap, -⟩ := afterBlanks?_eq_some_iff.1 h₁
  have hcs : pre ++ cs = pre ++ cs.takeWhile isDecimalDigit ++ gap ++ cs₁.takeWhile isFoldedLetter ++
      cs₁.dropWhile isFoldedLetter := by
    simp only [List.append_assoc, List.takeWhile_append_dropWhile, ← hgap]
  rw [hcs]
  exact readTail_leadsTo htail _

theorem readStep_leadsTo {cs anchor : List Char} {step : StepText}
    (h : readStep cs = some (step, anchor)) : LeadsTo cs anchor := by
  have hcs : cs = cs.takeWhile isBlank ++ trimStart cs := List.takeWhile_append_dropWhile.symm
  rw [hcs]
  simp only [readStep] at h
  split at h
  · next rest hfirst =>
    obtain ⟨word, -, hword⟩ := afterWord?_eq_some_iff.1 hfirst
    rw [hword, ← List.append_assoc]
    exact readFirst_leadsTo h _
  · exact readShift_leadsTo h _

/-! ### Expressions -/

/-- No date expression ends in a time of day: neither a literal does, nor the anchor of a step. -/
theorem EndsInTime.readUpTo_ne_ok {target : DateTarget} {limit : Nat} {cs : List Char}
    (h : EndsInTime cs) (e : DateExpr) : readUpTo target limit cs ≠ .ok e := by
  induction limit generalizing cs e with
  | zero =>
    unfold readUpTo
    rw [h.ofLiteral?_eq_none]
    rintro ⟨⟩
  | succ limit ih =>
    unfold readUpTo
    rw [h.ofLiteral?_eq_none]
    cases hstep : readStep cs with
    | none => rintro ⟨⟩
    | some p =>
      intro hok
      obtain ⟨step, -, hok⟩ := bind_eq_ok.1 hok
      obtain ⟨e', he', -⟩ := bind_eq_ok.1 hok
      exact ih (h.of_leadsTo (readStep_leadsTo hstep)) e' he'

theorem readUpTo_target {target target' : DateTarget} {limit : Nat} {cs : List Char} {e : DateExpr}
    (h : readUpTo target limit cs = .ok e) : readUpTo target' limit cs = .ok e := by
  induction limit generalizing cs e with
  | zero =>
    unfold readUpTo at h ⊢
    cases hliteral : DateTime.ofLiteral? cs with
    | none =>
      rw [hliteral] at h
      cases h
    | some anchor =>
      rw [hliteral] at h
      exact h
  | succ limit ih =>
    unfold readUpTo at h ⊢
    cases hliteral : DateTime.ofLiteral? cs with
    | some anchor =>
      rw [hliteral] at h
      exact h
    | none =>
      rw [hliteral] at h
      cases hstep : readStep cs with
      | none =>
        rw [hstep] at h
        cases h
      | some p =>
        rw [hstep] at h
        obtain ⟨step, hread, h⟩ := bind_eq_ok.1 h
        obtain ⟨e', he', h⟩ := bind_eq_ok.1 h
        exact bind_eq_ok.2 ⟨step, hread, bind_eq_ok.2 ⟨e', ih he', h⟩⟩

theorem readDateTime_target {target target' : DateTarget} {cs : List Char} {t : DateTime} :
    readDateTime target cs = .ok t ↔ readDateTime target' cs = .ok t := by
  have hmp {target target' : DateTarget} (h : readDateTime target cs = .ok t) :
      readDateTime target' cs = .ok t := by
    obtain ⟨e, he, ht⟩ := bind_eq_ok.1 h
    exact bind_eq_ok.2 ⟨e, readUpTo_target he, ht⟩
  exact ⟨hmp, hmp⟩

theorem EndsInTime.readDateTime_ne_ok {target : DateTarget} {cs : List Char} (h : EndsInTime cs)
    (t : DateTime) : readDateTime target cs ≠ .ok t := by
  intro hok
  obtain ⟨e, he, -⟩ := bind_eq_ok.1 hok
  exact h.readUpTo_ne_ok e he

/-! ### Dates and datetimes -/

theorem parseDate_eq_ok_iff {text : String} {d : Date} :
    parseDate text = .ok d ↔ ∃ t, readDateTime .dateTime text.toList = .ok t ∧ t.date = d := by
  rw [parseDate, bind_eq_ok]
  constructor
  · rintro ⟨t, ht, hd⟩
    exact ⟨t, readDateTime_target.1 ht, Except.ok.inj hd⟩
  · rintro ⟨t, ht, rfl⟩
    exact ⟨t, readDateTime_target.1 ht, rfl⟩

theorem parseDateTime_of_endsAt {text : String} {pre : List Char} {clock : ClockText}
    (hline : '\n' ∉ text.toList) (h : EndsAt text.toList pre clock) {t : DateTime} :
    parseDateTime text = .ok t ↔ ∃ d time, parseDate (String.ofList pre) = .ok d ∧
      clock.time? = some time ∧ t = ⟨d, time⟩ := by
  rw [parseDateTime, splitTime?_of_endsAt h hline]
  simp only [ClockText.ofWord?_chars, parseDate_eq_ok_iff, String.toList_ofList]
  cases clock.time? with
  | none => simp
  | some time =>
    rw [bind_eq_ok]
    constructor
    · rintro ⟨t', ht', heq⟩
      exact ⟨_, time, ⟨t', ht', rfl⟩, rfl, (Except.ok.inj heq).symm⟩
    · rintro ⟨d, time', ⟨t', ht', rfl⟩, htime, rfl⟩
      cases htime
      exact ⟨t', ht', rfl⟩

theorem parseDateTime_of_not_endsAt {text : String}
    (h : ∀ pre clock, ¬ EndsAt text.toList pre clock) :
    parseDateTime text = readDateTime .dateTime text.toList := by
  rw [parseDateTime]
  cases hsplit : splitTime? text.toList with
  | none => rfl
  | some p =>
    obtain ⟨clock, -, hend⟩ := endsAt_of_splitTime? hsplit
    exact absurd hend (h p.1 clock)

theorem parseDate_ne_ok_of_endsAt {text : String} {pre : List Char} {clock : ClockText}
    (h : EndsAt text.toList pre clock) (d : Date) : parseDate text ≠ .ok d := by
  intro hok
  obtain ⟨t, ht, -⟩ := parseDate_eq_ok_iff.1 hok
  exact h.endsInTime.readDateTime_ne_ok t ht

/-- The date of a text is the date of its datetime, if the text does not end in a time of day. If it
does, it has no date, and its datetime is the date before the end at that time, if both exist. -/
theorem parseDate_agrees_parseDateTime {text : String} (hline : '\n' ∉ text.toList) :
    (∀ d, parseDate text = .ok d → ∃ t, parseDateTime text = .ok t ∧ t.date = d) ∧
    (∀ t, parseDateTime text = .ok t → (¬ ∃ pre clock, EndsAt text.toList pre clock) →
      parseDate text = .ok t.date) ∧
    ∀ pre clock, EndsAt text.toList pre clock →
      (∀ t, parseDateTime text = .ok t ↔ ∃ d time, parseDate (String.ofList pre) = .ok d ∧
        clock.time? = some time ∧ t = ⟨d, time⟩) ∧
      ∃ e, parseDate text = .error e := by
  refine ⟨fun d hd => ?_, fun t ht hnone => ?_, fun pre clock hend => ⟨fun t => ?_, ?_⟩⟩
  · have hnone : ∀ pre clock, ¬ EndsAt text.toList pre clock := fun pre clock hend =>
      parseDate_ne_ok_of_endsAt hend d hd
    rw [parseDateTime_of_not_endsAt hnone]
    exact parseDate_eq_ok_iff.1 hd
  · rw [parseDateTime_of_not_endsAt fun pre clock hend => hnone ⟨pre, clock, hend⟩] at ht
    exact parseDate_eq_ok_iff.2 ⟨t, ht, rfl⟩
  · exact parseDateTime_of_endsAt hline hend
  · cases h : parseDate text with
    | ok d => exact absurd h (parseDate_ne_ok_of_endsAt hend d)
    | error e => exact ⟨e, rfl⟩

/-- The day before a datetime, at half past seven. -/
theorem parse_dayBefore_at :
    ∃ (d : Date) (time : Time), d.text = "2021-10-04" ∧ time.chars = "07:30:00".toList ∧
      parseDate "1 day before 2021-10-05 23:59:15" = .ok d ∧
      parseDateTime "1 day before 2021-10-05 23:59:15 At  7:30 " = .ok ⟨d, time⟩ ∧
      ∃ e, parseDate "1 day before 2021-10-05 23:59:15 At  7:30 " = .error e := by
  have hline : '\n' ∉ "1 day before 2021-10-05 23:59:15 At  7:30 ".toList := by simp
  have hblank : isBlank ' ' = true := rfl
  obtain ⟨clock, hclock, htime⟩ : ∃ clock : ClockText, clock.chars = "7:30".toList ∧
      clock.time? = some ⟨27000, 0, by decide, by decide⟩ :=
    ⟨⟨['7'], ['3', '0'], none, .inl rfl, rfl, by simp, by simp; decide⟩, rfl, by decide⟩
  have htext : "1 day before 2021-10-05 23:59:15 At  7:30 ".toList =
      "1 day before 2021-10-05 23:59:15".toList ++
        ([' '] ++ (['A', 't'] ++ ([' ', ' '] ++ (clock.chars ++ [' '])))) := by
    rw [hclock]
    rfl
  have hend : EndsAt "1 day before 2021-10-05 23:59:15 At  7:30 ".toList
      "1 day before 2021-10-05 23:59:15".toList clock := by
    rw [htext]
    exact .mk clock (by simp) (by simp; rfl) ⟨by simp, by simp [hblank]⟩ rfl
      ⟨by simp, by simp [hblank]⟩ (by simp [hblank])
  have hdate : parseDate (String.ofList "1 day before 2021-10-05 23:59:15".toList) =
      .ok ⟨2021, 10, 4, by decide, by decide, by decide⟩ := rfl
  obtain ⟨hdateTime, herror⟩ := (parseDate_agrees_parseDateTime hline).2.2 _ _ hend
  exact ⟨_, _, rfl, rfl, hdate, (hdateTime _).2 ⟨_, _, hdate, htime, rfl⟩, herror⟩

end TypedConfig.DateExpr
