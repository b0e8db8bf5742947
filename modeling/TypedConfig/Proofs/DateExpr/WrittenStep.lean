import TypedConfig.DateExpr.Reader
import TypedConfig.Proofs.Except
import TypedConfig.Proofs.Text.Words

/-!
# Written steps

`Step.WrittenAs` says how a step is written: a number, a unit and a direction, or the word `first`,
a list of days of the week and a direction, with single spaces between and letters in either case.
In front of any anchor such a text is read as this step and that anchor
(`Step.WrittenAs.readStep`). A list of weekdays ends at the first direction behind a blank, and it
has none inside: no blank in it is followed by the first letter of a direction (`Undirected`).
-/

namespace TypedConfig.DateExpr

open Text Calendar

/-! ### The written form -/

/-- The name of a unit in the singular. -/
def TimeUnit.name : TimeUnit → String
  | minute => "minute"
  | hour => "hour"
  | day => "day"
  | week => "week"
  | month => "month"
  | year => "year"

/-- The word for a direction. -/
def Direction.name : Direction → String
  | after => "after"
  | before => "before"

/-- A word for a unit, in the singular or the plural. -/
def TimeUnit.Names (word : List Char) (unit : TimeUnit) : Prop :=
  Spells word unit.name.toList ∨ Spells word (unit.name.toList ++ ['s'])

/-- A word for a day of the week, in full or in three letters. -/
def WeekdayWord (word : List Char) (day : Weekday) : Prop :=
  Spells word day.name.toList ∨ Spells word day.shortName

/-- What may stand between two days of a list: spaces and commas, and the word `or` between any of
these. -/
inductive Separates : List Char → Prop
  | space : Separates [' ']
  | comma : Separates [',']
  | conjunction {as word bs : List Char} (ha : Separates as) (hword : Spells word ['o', 'r'])
    (hb : Separates bs) : Separates (as ++ (word ++ bs))
  | append {as bs : List Char} (ha : Separates as) (hb : Separates bs) : Separates (as ++ bs)

/-- A list of days of the week. -/
inductive Lists : List Char → List Weekday → Prop
  | one {word : List Char} {day : Weekday} (h : WeekdayWord word day) : Lists word [day]
  | more {word sep list : List Char} {day : Weekday} {days : List Weekday}
    (h : WeekdayWord word day) (hsep : Separates sep) (hlist : Lists list days) :
    Lists (word ++ (sep ++ list)) (day :: days)

/-- How a step is written. -/
inductive Step.WrittenAs : Step → List Char → Prop
  | shift {ds word dirWord : List Char} {n : Nat} {unit : TimeUnit} {dir : Direction}
    (hne : ds ≠ []) (hds : ∀ c ∈ ds, c.isDigit = true) (hvalue : Nat.ofDigitChars 10 ds 0 = n)
    (hn : n < 4294967296) (hunit : unit.Names word) (hdir : Spells dirWord dir.name.toList) :
    WrittenAs (.shift n unit dir) (ds ++ ' ' :: (word ++ ' ' :: dirWord))
  | firstWeekday {first list dirWord : List Char} {days : List Weekday} {dir : Direction}
    (hfirst : Spells first "first".toList) (hlist : Lists list days)
    (hdir : Spells dirWord dir.name.toList) :
    WrittenAs (.firstWeekday days dir) (first ++ ' ' :: (list ++ ' ' :: dirWord))

/-! ### Names -/

theorem Direction.isLower_name (dir : Direction) : dir.name.toList.all Char.isLower = true := by
  cases dir <;> rfl

theorem TimeUnit.isLower_name (unit : TimeUnit) :
    unit.name.toList.all Char.isLower = true ∧
      (unit.name.toList ++ ['s']).all Char.isLower = true := by
  cases unit <;> exact ⟨rfl, rfl⟩

theorem isLower_weekdayName (day : Weekday) :
    day.name.toList.all Char.isLower = true ∧ day.shortName.all Char.isLower = true := by
  cases day <;> exact ⟨rfl, rfl⟩

theorem TimeUnit.Names.isAlpha {word : List Char} {unit : TimeUnit} (h : unit.Names word) :
    ∀ c ∈ word, c.isAlpha = true := by
  rcases h with h | h
  · exact h.isAlpha unit.isLower_name.1
  · exact h.isAlpha unit.isLower_name.2

theorem TimeUnit.Names.ne_nil {word : List Char} {unit : TimeUnit} (h : unit.Names word) :
    word ≠ [] := by
  rintro rfl
  rcases h with h | h <;> cases unit <;> cases h

theorem TimeUnit.ofWord?_of_names {word : List Char} {unit : TimeUnit} (h : unit.Names word) :
    TimeUnit.ofWord? word = some unit := by
  rcases h with h | h <;> rw [TimeUnit.ofWord?, h] <;> cases unit <;> rfl

theorem WeekdayWord.isAlpha {word : List Char} {day : Weekday} (h : WeekdayWord word day) :
    ∀ c ∈ word, c.isAlpha = true := by
  rcases h with h | h
  · exact h.isAlpha (isLower_weekdayName day).1
  · exact h.isAlpha (isLower_weekdayName day).2

theorem WeekdayWord.ne_nil {word : List Char} {day : Weekday} (h : WeekdayWord word day) :
    word ≠ [] := by
  rintro rfl
  rcases h with h | h <;> cases day <;> cases h

theorem WeekdayWord.ofWord? {word : List Char} {day : Weekday} (h : WeekdayWord word day) :
    Weekday.ofWord? word = some day := by
  rcases h with h | h <;> rw [Weekday.ofWord?, h] <;> cases day <;> rfl

theorem WeekdayWord.isOr {word : List Char} {day : Weekday} (h : WeekdayWord word day) :
    isOr word = false := by
  rcases h with h | h <;> rw [DateExpr.isOr, h] <;> cases day <;> rfl

/-! ### Lists of days -/

/-- The words of a list of days, but the conjunctions. -/
def listedWords (list : List Char) : List (List Char) :=
  (splitWhere (fun c => c == ',' || isBlank c) list).filter fun word =>
    !word.isEmpty && !isOr word

theorem splitWhere_of_isAlpha {word : List Char} (h : ∀ c ∈ word, c.isAlpha = true) :
    splitWhere (fun c => c == ',' || isBlank c) word = [word] := by
  refine splitWhere_of_all fun c hc => ?_
  have hne : c ≠ ',' := by
    rintro rfl
    cases h _ hc
  rw [isBlank_of_isAlpha (h c hc), Bool.or_false]
  exact beq_eq_false_iff_ne.2 hne

theorem listedWords_append_cons {c : Char} (hc : (c == ',' || isBlank c) = true)
    (as bs : List Char) : listedWords (as ++ c :: bs) = listedWords as ++ listedWords bs := by
  rw [listedWords, splitWhere_append_cons hc, List.filter_append]
  rfl

theorem listedWords_conjunction {word : List Char} (h : Spells word ['o', 'r']) :
    listedWords word = [] := by
  have hor : isOr word = true := by
    rw [isOr, h]
    rfl
  rw [listedWords, splitWhere_of_isAlpha (h.isAlpha rfl), List.filter_cons_of_neg]
  · rfl
  · simp [hor]

theorem WeekdayWord.listedWords {word : List Char} {day : Weekday} (h : WeekdayWord word day) :
    listedWords word = [word] := by
  rw [DateExpr.listedWords, splitWhere_of_isAlpha h.isAlpha, List.filter_cons_of_pos]
  · rfl
  · simp [h.ne_nil, h.isOr]

theorem Separates.listedWords {sep : List Char} (h : Separates sep) (as bs : List Char) :
    listedWords (as ++ (sep ++ bs)) = listedWords as ++ listedWords bs := by
  induction h generalizing as bs with
  | space => exact listedWords_append_cons (by decide) as bs
  | comma => exact listedWords_append_cons (by decide) as bs
  | @conjunction sep word sep' _ hword _ ih ih' =>
    rw [List.append_assoc, List.append_assoc, ih, ih', listedWords_conjunction hword,
      List.nil_append]
  | @append sep sep' _ _ ih ih' =>
    rw [List.append_assoc, ih, ← List.nil_append (sep' ++ bs), ih']
    rfl

theorem Lists.listedWords {list : List Char} {days : List Weekday} (h : Lists list days) :
    List.Forall₂ WeekdayWord (listedWords list) days := by
  induction h with
  | one h =>
    rw [h.listedWords]
    exact .cons h .nil
  | more h hsep _ ih =>
    rw [hsep.listedWords, h.listedWords]
    exact .cons h ih

theorem mapM_ofWord? {words : List (List Char)} {days : List Weekday}
    (h : List.Forall₂ WeekdayWord words days) :
    (words.mapM fun word => show Except ParseError Weekday from
      match Weekday.ofWord? word with
      | some day => .ok day
      | none => .error (.date (.weekday word))) = .ok days := by
  induction h with
  | nil => rfl
  | cons hword _ ih =>
    rw [List.mapM_cons, hword.ofWord?, ih]
    rfl

theorem Lists.readWeekdays {list : List Char} {days : List Weekday} (h : Lists list days) :
    readWeekdays list = .ok days := by
  have hne : days.isEmpty = false := by cases h <;> rfl
  refine bind_eq_ok.2 ⟨days, mapM_ofWord? h.listedWords, ?_⟩
  rw [hne]
  rfl

/-! ### Where a list ends -/

/-- A letter that a direction may start with. -/
def OpensDirection (c : Char) : Prop := foldCase c = 'a' ∨ foldCase c = 'b'

/-- No blank of the text is followed by a letter that a direction may start with. -/
def Undirected (cs : List Char) : Prop :=
  cs.IsChain fun c d => isBlank c = true → ¬ OpensDirection d

theorem undirected_of_not_blank {cs : List Char} (h : ∀ c ∈ cs, isBlank c = false) :
    Undirected cs := by
  induction cs with
  | nil => exact .nil
  | cons c cs ih =>
    obtain ⟨hc, hcs⟩ := List.forall_mem_cons.1 h
    refine List.isChain_cons.2 ⟨fun d _ hblank => ?_, ih hcs⟩
    rw [hc] at hblank
    cases hblank

theorem Undirected.append {as bs : List Char} (ha : Undirected as) (hb : Undirected bs)
    (hhead : ∀ c ∈ bs.head?, ¬ OpensDirection c) : Undirected (as ++ bs) :=
  List.IsChain.append ha hb fun _ _ d hd _ => hhead d hd

theorem Separates.head {sep : List Char} (h : Separates sep) :
    ∃ c cs, sep = c :: cs ∧ ¬ OpensDirection c := by
  induction h with
  | space => exact ⟨_, _, rfl, by unfold OpensDirection; decide⟩
  | comma => exact ⟨_, _, rfl, by unfold OpensDirection; decide⟩
  | conjunction _ _ _ ih _ =>
    obtain ⟨c, cs, rfl, hc⟩ := ih
    exact ⟨c, _, rfl, hc⟩
  | append _ _ ih _ =>
    obtain ⟨c, cs, rfl, hc⟩ := ih
    exact ⟨c, _, rfl, hc⟩

theorem not_opensDirection_of_spells {word name : List Char} (h : Spells word name)
    (hname : name.all Char.isLower = true) (hhead : name.head? ≠ some 'a' ∧ name.head? ≠ some 'b') :
    ∀ c ∈ word.head?, ¬ OpensDirection c := by
  intro c hc
  have hfold : name.head? = some (foldCase c) := by
    rw [← h.map_foldCase hname, List.head?_map, Option.mem_def.1 hc]
    rfl
  rintro (ha | hb)
  · exact hhead.1 (ha ▸ hfold)
  · exact hhead.2 (hb ▸ hfold)

theorem Separates.undirected {sep : List Char} (h : Separates sep) : Undirected sep := by
  induction h with
  | space => exact .singleton _
  | comma => exact .singleton _
  | @conjunction as word bs _ h hb iha ihb =>
    have hhead : ∀ c ∈ word.head?, ¬ OpensDirection c :=
      not_opensDirection_of_spells h rfl (by decide)
    have hword : Undirected word :=
      undirected_of_not_blank fun c hc => isBlank_of_isAlpha (h.isAlpha rfl c hc)
    refine iha.append (hword.append ihb ?_) ?_
    · obtain ⟨c, cs, rfl, hc⟩ := hb.head
      exact fun d hd => by cases hd; exact hc
    · obtain ⟨c, cs, rfl, -⟩ := h.exists_cons rfl
      exact hhead
  | append _ hb iha ihb =>
    obtain ⟨c, cs, rfl, hc⟩ := hb.head
    exact iha.append ihb fun d hd => by cases hd; exact hc

theorem Separates.line {sep : List Char} (h : Separates sep) : '\n' ∉ sep := by
  induction h with
  | space => decide
  | comma => decide
  | conjunction _ h _ iha ihb =>
    intro hmem
    have hletter := h.isAlpha rfl
    rcases List.mem_append.1 hmem with hmem | hmem
    · exact iha hmem
    · rcases List.mem_append.1 hmem with hmem | hmem
      · cases hletter _ hmem
      · exact ihb hmem
  | append _ _ iha ihb =>
    intro hmem
    exact (List.mem_append.1 hmem).elim iha ihb

theorem WeekdayWord.head {word : List Char} {day : Weekday} (h : WeekdayWord word day) :
    ∀ c ∈ word.head?, ¬ OpensDirection c := by
  rcases h with h | h
  · exact not_opensDirection_of_spells h (isLower_weekdayName day).1 (by cases day <;> decide)
  · exact not_opensDirection_of_spells h (isLower_weekdayName day).2 (by cases day <;> decide)

theorem WeekdayWord.not_blank {word : List Char} {day : Weekday} (h : WeekdayWord word day) :
    ∀ c ∈ word, isBlank c = false :=
  fun c hc => isBlank_of_isAlpha (h.isAlpha c hc)

theorem Lists.isCore {list : List Char} {days : List Weekday} (h : Lists list days) :
    IsCore list := by
  induction h with
  | one h => exact isCore_of_not_blank h.ne_nil h.not_blank
  | more h hsep _ ih => exact (isCore_of_not_blank h.ne_nil h.not_blank).append hsep.line ih

theorem Lists.head {list : List Char} {days : List Weekday} (h : Lists list days) :
    ∀ c ∈ list.head?, ¬ OpensDirection c := by
  cases h with
  | one h => exact h.head
  | more h =>
    obtain ⟨c, cs, rfl⟩ := List.exists_cons_of_ne_nil h.ne_nil
    exact h.head

theorem Lists.undirected {list : List Char} {days : List Weekday} (h : Lists list days) :
    Undirected list := by
  induction h with
  | one h => exact undirected_of_not_blank h.not_blank
  | more h hsep hlist ih =>
    refine (undirected_of_not_blank h.not_blank).append (hsep.undirected.append ih hlist.head) ?_
    obtain ⟨c, cs, rfl, hc⟩ := hsep.head
    intro d hd
    cases hd
    exact hc

/-! ### Directions and anchors -/

theorem readAnchor_of_isCore {rest : List Char} (h : IsCore rest) :
    readAnchor (' ' :: rest) = some rest := by
  have hempty : rest.isEmpty = false := by simp [h.ne_nil]
  have hline : rest.contains '\n' = false := by simp [h.line]
  have hblank : (!isBlank ' ') = false := rfl
  simp only [readAnchor, hblank, h.trim_eq, hempty, hline, Bool.false_eq_true, ↓reduceIte]

theorem readDirection_spelled {dir : Direction} {word rest : List Char}
    (h : Spells word dir.name.toList) : readDirection (word ++ rest) = some (dir, rest) := by
  cases dir with
  | after =>
    have hafter : afterWord? "after".toList (word ++ rest) = some rest :=
      h.afterWord?_spelled (Direction.isLower_name .after)
    rw [readDirection, hafter]
  | before =>
    have hbefore : afterWord? "before".toList (word ++ rest) = some rest :=
      h.afterWord?_spelled (Direction.isLower_name .before)
    obtain ⟨c, cs, rfl, hc, -⟩ := h.exists_cons (Direction.isLower_name .before)
    have hafter : afterWord? "after".toList (c :: cs ++ rest) = none :=
      afterWord?_eq_none (by rw [hc]; decide)
    rw [readDirection, hafter]
    exact congrArg (Option.map _) hbefore

theorem afterBlanks?_space {cs : List Char} (h : IsCore cs) (rest : List Char) :
    afterBlanks? (' ' :: (cs ++ rest)) = some (cs ++ rest) := by
  rw [afterBlanks?, if_pos (show isBlank ' ' = true from rfl), h.trimStart_append]

theorem isCore_of_direction {dir : Direction} {word : List Char}
    (h : Spells word dir.name.toList) : IsCore word :=
  h.isCore dir.isLower_name (by cases dir <;> decide)

theorem readTail_spelled {dir : Direction} {word rest : List Char}
    (h : Spells word dir.name.toList) (hrest : IsCore rest) :
    readTail (' ' :: (word ++ ' ' :: rest)) = some (dir, rest) := by
  simp only [readTail, afterBlanks?_space (isCore_of_direction h), readDirection_spelled h,
    readAnchor_of_isCore hrest, bind, Option.bind, pure]

/-! ### The end of a list -/

theorem readDirection_eq_none {c : Char} {cs : List Char} (h : ¬ OpensDirection c) :
    readDirection (c :: cs) = none := by
  obtain ⟨ha, hb⟩ := not_or.1 h
  have hafter : afterWord? "after".toList (c :: cs) = none := afterWord?_eq_none ha
  have hbefore : afterWord? "before".toList (c :: cs) = none := afterWord?_eq_none hb
  rw [readDirection, hafter, hbefore]
  rfl

/-- What stands behind a blank of an undirected text opens no direction. -/
theorem exists_trimStart_append {c : Char} {cs : List Char} (tail : List Char)
    (hc : isBlank c = true) (h : Undirected (c :: cs))
    (hlast : ∀ d ∈ (c :: cs).getLast?, isBlank d = false) :
    ∃ e es, trimStart (cs ++ tail) = e :: es ∧ ¬ OpensDirection e := by
  induction cs generalizing c with
  | nil =>
    have := hlast c rfl
    rw [hc] at this
    cases this
  | cons d cs ih =>
    obtain ⟨hcd, h⟩ := List.isChain_cons_cons.1 h
    by_cases hd : isBlank d = true
    · obtain ⟨e, es, htrim, he⟩ := ih hd h (by rwa [List.getLast?_cons_cons] at hlast)
      refine ⟨e, es, ?_, he⟩
      rw [List.cons_append, trimStart, List.dropWhile_cons_of_pos hd]
      exact htrim
    · refine ⟨d, cs ++ tail, ?_, hcd hc⟩
      rw [List.cons_append, trimStart, List.dropWhile_cons_of_neg hd]

theorem readTail_append_eq_none {cs : List Char} (tail : List Char) (hne : cs ≠ [])
    (h : Undirected cs) (hlast : ∀ d ∈ cs.getLast?, isBlank d = false) :
    readTail (cs ++ tail) = none := by
  obtain ⟨c, cs, rfl⟩ := List.exists_cons_of_ne_nil hne
  by_cases hc : isBlank c = true
  · obtain ⟨e, es, htrim, he⟩ := exists_trimStart_append tail hc h hlast
    simp only [readTail, List.cons_append, afterBlanks?, hc, ↓reduceIte, htrim,
      readDirection_eq_none he, bind, Option.bind]
  · simp only [readTail, List.cons_append, afterBlanks?, hc, Bool.false_eq_true, ↓reduceIte, bind,
      Option.bind]

/-- The list is read up to the direction: before its end no direction follows. -/
theorem readList_append {list tail anchor acc : List Char} {dir : Direction} (hne : list ≠ [])
    (h : Undirected list) (hlast : ∀ d ∈ list.getLast?, isBlank d = false) (hline : '\n' ∉ list)
    (htail : readTail tail = some (dir, anchor)) :
    readList acc (list ++ tail) = some (acc.reverse ++ list, dir, anchor) := by
  induction list generalizing acc with
  | nil => exact absurd rfl hne
  | cons c cs ih =>
    obtain ⟨hc, hcs⟩ := not_or.1 (mt List.mem_cons.2 hline)
    rw [List.cons_append, readList, if_neg (Ne.symm hc)]
    by_cases hnil : cs = []
    · rw [hnil, List.nil_append, htail, List.reverse_cons]
    · have hlast' : ∀ d ∈ cs.getLast?, isBlank d = false := by
        obtain ⟨d, cs, rfl⟩ := List.exists_cons_of_ne_nil hnil
        rwa [List.getLast?_cons_cons] at hlast
      rw [readTail_append_eq_none tail hnil (List.IsChain.tail h) hlast']
      show readList (c :: acc) (cs ++ tail) = some (acc.reverse ++ c :: cs, dir, anchor)
      rw [ih hnil (List.IsChain.tail h) hlast' hcs, List.reverse_cons, List.append_assoc]
      rfl

/-! ### Steps -/

theorem readFirst_written {list dirWord rest : List Char} {days : List Weekday} {dir : Direction}
    (hlist : Lists list days) (hdir : Spells dirWord dir.name.toList) (hrest : IsCore rest) :
    readFirst (' ' :: (list ++ ' ' :: (dirWord ++ ' ' :: rest))) =
      some (.firstWeekday list dir, rest) := by
  have hcore := hlist.isCore
  have hread : readList [] (list ++ ' ' :: (dirWord ++ ' ' :: rest)) = some (list, dir, rest) :=
    readList_append hcore.ne_nil hlist.undirected hcore.last hcore.line (readTail_spelled hdir hrest)
  simp only [readFirst, afterBlanks?_space hcore, hread, bind, Option.bind, pure]

theorem readShift_written {ds word dirWord rest : List Char} {dir : Direction} (hne : ds ≠ [])
    (hds : ∀ c ∈ ds, c.isDigit = true) (hword : IsCore word)
    (hletters : ∀ c ∈ word, isFoldedLetter c = true) (hdir : Spells dirWord dir.name.toList)
    (hrest : IsCore rest) :
    readShift (ds ++ ' ' :: (word ++ ' ' :: (dirWord ++ ' ' :: rest))) =
      some (.shift ds word dir, rest) := by
  have hdecimal : ∀ c ∈ ds, isDecimalDigit c = true := fun c hc =>
    isDecimalDigit_of_isDigit (hds c hc)
  have hspace : isDecimalDigit ' ' = false := by decide
  have hspace' : isFoldedLetter ' ' = false := by decide
  have hempty : (ds.isEmpty || word.isEmpty) = false := by simp [hne, hword.ne_nil]
  simp only [readShift, takeWhile_append_cons hdecimal hspace, dropWhile_append_cons hdecimal hspace,
    afterBlanks?_space hword, takeWhile_append_cons hletters hspace',
    dropWhile_append_cons hletters hspace', hempty, readTail_spelled hdir hrest, Bool.false_eq_true,
    ↓reduceIte, bind, Option.bind, pure]

theorem TimeUnit.Names.isCore {word : List Char} {unit : TimeUnit} (h : unit.Names word) :
    IsCore word :=
  isCore_of_not_blank h.ne_nil fun c hc => isBlank_of_isAlpha (h.isAlpha c hc)

theorem TimeUnit.Names.folded {word : List Char} {unit : TimeUnit} (h : unit.Names word) :
    ∀ c ∈ word, isFoldedLetter c = true := by
  have hfolded {name : List Char} (hw : Spells word name) (hname : name.all Char.isLower = true) :
      ∀ c ∈ word, isFoldedLetter c = true := by
    intro c hc
    have hlower := hw.toLower_isLower hname c hc
    rw [isFoldedLetter, foldCase_of_toLower hlower, hlower]
  rcases h with h | h
  · exact hfolded h unit.isLower_name.1
  · exact hfolded h unit.isLower_name.2

theorem word32?_of_digits {ds : List Char} {n : Nat} (hne : ds ≠ [])
    (hds : ∀ c ∈ ds, c.isDigit = true) (hvalue : Nat.ofDigitChars 10 ds 0 = n)
    (hn : n < 4294967296) : word32? ds = some n := by
  have hnatural : natural? ds = some n := by
    rw [natural?, if_pos (by simpa [hne] using hds), hvalue]
  rw [word32?, hnatural]
  simp [hn]

namespace Step.WrittenAs

variable {step : Step} {text rest : List Char}

theorem isCore (h : step.WrittenAs text) : IsCore text := by
  cases h with
  | shift hne hds _ _ hunit hdir =>
    have hdigits := isCore_of_not_blank hne fun c hc => isBlank_of_isDigit (hds c hc)
    exact hdigits.space (hunit.isCore.space (isCore_of_direction hdir))
  | firstWeekday hfirst hlist hdir =>
    have hword := hfirst.isCore rfl (by decide)
    exact hword.space (hlist.isCore.space (isCore_of_direction hdir))

/-- In front of an anchor, a written step is read as this step and that anchor. -/
theorem readStep (h : step.WrittenAs text) (hrest : IsCore rest) :
    ∃ stepText, DateExpr.readStep (text ++ ' ' :: rest) = some (stepText, rest) ∧
      stepText.read = .ok step := by
  have htrim : trimStart (text ++ ' ' :: rest) = text ++ ' ' :: rest := h.isCore.trimStart_append
  rw [DateExpr.readStep, htrim]
  cases h with
  | @shift ds word dirWord n unit dir hne hds hvalue hn hunit hdir =>
    refine ⟨.shift ds word dir, ?_, ?_⟩
    · -- a digit is no letter of `first`, so that the other form is tried
      have hnot : afterWord? "first".toList
          (ds ++ ' ' :: (word ++ ' ' :: dirWord) ++ ' ' :: rest) = none := by
        obtain ⟨c, cs, rfl⟩ := List.exists_cons_of_ne_nil hne
        have hc := hds c (List.mem_cons_self ..)
        refine afterWord?_eq_none fun hfold => ?_
        rw [foldCase_of_isDigit hc] at hfold
        subst hfold
        cases hc
      have hread := readShift_written hne hds hunit.isCore hunit.folded hdir hrest
      rw [hnot]
      simpa only [List.append_assoc, List.cons_append] using hread
    · rw [StepText.read, word32?_of_digits hne hds hvalue hn]
      simp only [TimeUnit.ofWord?_of_names hunit]
  | @firstWeekday first list dirWord days dir hfirst hlist hdir =>
    refine ⟨.firstWeekday list dir, ?_, ?_⟩
    · have hword : afterWord? "first".toList
          (first ++ ' ' :: (list ++ ' ' :: dirWord) ++ ' ' :: rest) =
          some (' ' :: (list ++ ' ' :: dirWord) ++ ' ' :: rest) := by
        rw [List.append_assoc]
        exact hfirst.afterWord?_spelled rfl
      have hread := readFirst_written hlist hdir hrest
      rw [hword]
      simpa only [List.append_assoc, List.cons_append] using hread
    · exact bind_eq_ok.2 ⟨days, hlist.readWeekdays, rfl⟩

end Step.WrittenAs
end TypedConfig.DateExpr
