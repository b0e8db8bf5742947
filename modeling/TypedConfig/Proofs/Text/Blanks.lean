import TypedConfig.Proofs.Text.Words

/-!
# Words between blanks

A text is its trimmed core with blanks around it (`exists_trim`). Its words are the parts between
the blanks (`words`); blanks at the ends of a text or more of them between two words do not count.
-/

namespace TypedConfig.Text

/-- A text is what is left of it by trimming, between blanks. -/
theorem exists_trim (cs : List Char) : ∃ before after, cs = before ++ (trim cs ++ after) ∧
    (∀ c ∈ before, isBlank c = true) ∧ ∀ c ∈ after, isBlank c = true := by
  refine ⟨cs.takeWhile isBlank, ((trimStart cs).reverse.takeWhile isBlank).reverse, ?_,
    fun c hc => List.mem_takeWhile_imp hc,
    fun c hc => List.mem_takeWhile_imp (List.mem_reverse.1 hc)⟩
  rw [trim, trimEnd, ← List.reverse_append, List.takeWhile_append_dropWhile, List.reverse_reverse,
    trimStart, List.takeWhile_append_dropWhile]

theorem mem_trim {cs : List Char} {c : Char} (hc : c ∈ cs) (hblank : isBlank c = false) :
    c ∈ trim cs := by
  obtain ⟨before, after, heq, hbefore, hafter⟩ := exists_trim cs
  have hblank' : ¬ isBlank c = true := by simp [hblank]
  rw [heq] at hc
  rcases List.mem_append.1 hc with hc | hc
  · exact absurd (hbefore c hc) hblank'
  · rcases List.mem_append.1 hc with hc | hc
    · exact hc
    · exact absurd (hafter c hc) hblank'

theorem head_trimStart (cs : List Char) : ∀ c ∈ (trimStart cs).head?, isBlank c = false := by
  intro c hc
  have hhead := List.head?_dropWhile_not isBlank cs
  rw [trimStart, Option.mem_def] at hc
  rw [hc] at hhead
  exact hhead

theorem head_trim (cs : List Char) : ∀ c ∈ (trim cs).head?, isBlank c = false := by
  intro c hc
  obtain ⟨rest, hrest⟩ : trim cs <+: trimStart cs := by
    refine ⟨((trimStart cs).reverse.takeWhile isBlank).reverse, ?_⟩
    rw [trim, trimEnd, ← List.reverse_append, List.takeWhile_append_dropWhile, List.reverse_reverse]
  refine head_trimStart cs c ?_
  rw [← hrest, List.head?_append, Option.mem_def.1 hc]
  rfl

theorem last_trim (cs : List Char) : ∀ c ∈ (trim cs).getLast?, isBlank c = false := by
  intro c hc
  rw [trim, trimEnd, List.getLast?_reverse] at hc
  exact head_trimStart _ c hc

/-- A text joined of two at a character that is no blank keeps the ends of both. -/
theorem trim_append_cons {as bs : List Char} {c : Char} (ha : trim as = as)
    (hc : isBlank c = false) (hb : trim bs = bs) : trim (as ++ c :: bs) = as ++ c :: bs := by
  have hhead : trimStart (as ++ c :: bs) = as ++ c :: bs := by
    refine trimStart_eq_self fun d hd => ?_
    cases as with
    | nil =>
      cases hd
      exact hc
    | cons a as => exact head_trim (a :: as) d (by rwa [ha])
  rw [trim, hhead]
  refine trimEnd_eq_of_last fun d hd => ?_
  rw [List.getLast?_append, List.getLast?_cons, Option.some_or] at hd
  cases hlast : bs.getLast? with
  | none =>
    rw [hlast] at hd
    cases hd
    exact hc
  | some e =>
    rw [hlast] at hd
    cases hd
    exact last_trim bs e (by rwa [hb])

/-- The parts of a text between its blanks. -/
def words (cs : List Char) : List (List Char) := (splitWhere isBlank cs).filter (!·.isEmpty)

theorem mem_of_mem_words {cs word : List Char} {c : Char} (hword : word ∈ words cs)
    (hc : c ∈ word) : c ∈ cs :=
  mem_of_mem_splitWhere (List.mem_filter.1 hword).1 hc

theorem words_append_cons {c : Char} (hc : isBlank c = true) (as bs : List Char) :
    words (as ++ c :: bs) = words as ++ words bs := by
  rw [words, splitWhere_append_cons hc, List.filter_append]
  rfl

theorem words_of_blanks {cs : List Char} (h : ∀ c ∈ cs, isBlank c = true) : words cs = [] := by
  induction cs with
  | nil => rfl
  | cons c cs ih =>
    obtain ⟨hc, hcs⟩ := List.forall_mem_cons.1 h
    rw [← List.nil_append (c :: cs), words_append_cons hc, ih hcs]
    rfl

theorem words_of_word {word : List Char} (hne : word ≠ []) (h : ∀ c ∈ word, isBlank c = false) :
    words word = [word] := by
  rw [words, splitWhere_of_all h]
  simp [hne]

theorem words_blanks_append {gap : List Char} (hgap : ∀ c ∈ gap, isBlank c = true)
    (cs : List Char) : words (gap ++ cs) = words cs := by
  induction gap with
  | nil => rfl
  | cons c gap ih =>
    obtain ⟨hc, hrest⟩ := List.forall_mem_cons.1 hgap
    rw [List.cons_append, ← List.nil_append (c :: _), words_append_cons hc, ih hrest]
    rfl

/-- One blank or more. -/
structure IsGap (gap : List Char) : Prop where
  ne_nil : gap ≠ []
  blank : ∀ c ∈ gap, isBlank c = true

theorem IsGap.reverse {gap : List Char} (h : IsGap gap) : IsGap gap.reverse where
  ne_nil := by simpa using h.ne_nil
  blank c hc := h.blank c (List.mem_reverse.1 hc)

theorem IsGap.words_append {gap : List Char} (h : IsGap gap) (as bs : List Char) :
    words (as ++ (gap ++ bs)) = words as ++ words bs := by
  obtain ⟨c, gap, rfl⟩ := List.exists_cons_of_ne_nil h.ne_nil
  obtain ⟨hc, hgap⟩ := List.forall_mem_cons.1 h.blank
  rw [List.cons_append, words_append_cons hc, words_blanks_append hgap]

theorem words_append_blanks {gap : List Char} (hgap : ∀ c ∈ gap, isBlank c = true)
    (cs : List Char) : words (cs ++ gap) = words cs := by
  cases gap with
  | nil => rw [List.append_nil]
  | cons c gap =>
    obtain ⟨hc, hrest⟩ := List.forall_mem_cons.1 hgap
    rw [words_append_cons hc, words_of_blanks hrest, List.append_nil]

theorem words_trim (cs : List Char) : words (trim cs) = words cs := by
  obtain ⟨before, after, heq, hbefore, hafter⟩ := exists_trim cs
  have hcs : words cs = words (before ++ (trim cs ++ after)) := congrArg words heq
  rw [hcs, words_blanks_append hbefore, words_append_blanks hafter]

end TypedConfig.Text
