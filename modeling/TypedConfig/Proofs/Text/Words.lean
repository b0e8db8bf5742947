import Mathlib
import TypedConfig.Proofs.Text.Digits
import TypedConfig.Text.Fold

/-!
# Words in either case, and texts between blanks

A word that spells a name in letters of either case is found by `afterWord?`, whatever follows it
(`afterWord?_spelled`), and its letters are neither blanks nor digits. A text without blanks at its
ends and without line feeds (`IsCore`) is left alone by trimming, and so are two of them with a
space between (`IsCore.append`).
-/

namespace TypedConfig.Text

/-! ### Letters -/

theorem toLower_of_not_isUpper {c : Char} (h : ¬ c.isUpper = true) : c.toLower = c := by
  simp only [Char.isUpper, decide_eq_true_eq] at h
  rw [Char.toLower, dif_neg h]

theorem isAlpha_of_toLower {c : Char} (h : c.toLower.isLower = true) : c.isAlpha = true := by
  by_cases hupper : c.isUpper = true
  · rw [Char.isAlpha, hupper, Bool.true_or]
  · rw [toLower_of_not_isUpper hupper] at h
    rw [Char.isAlpha, h, Bool.or_true]

theorem isAlpha_bounds {c : Char} (h : c.isAlpha = true) :
    65 ≤ c.toNat ∧ c.toNat ≤ 90 ∨ 97 ≤ c.toNat ∧ c.toNat ≤ 122 := by
  simpa [Char.isAlpha, Char.isUpper, Char.isLower, UInt32.le_iff_toNat_le] using h

theorem isBlank_of_isAlpha {c : Char} (h : c.isAlpha = true) : isBlank c = false := by
  have := isAlpha_bounds h
  simp only [isBlank, Bool.or_eq_false_iff, Bool.and_eq_false_iff, decide_eq_false_iff_not,
    beq_eq_false_iff_ne]
  omega

theorem isDigit_of_isAlpha {c : Char} (h : c.isAlpha = true) : c.isDigit = false := by
  refine Bool.eq_false_iff.2 fun hdigit => ?_
  have := isAlpha_bounds h
  have := isDigit_bounds hdigit
  omega

theorem foldCase_of_toLower {c : Char} (h : c.toLower.isLower = true) : foldCase c = c.toLower := by
  unfold foldCase
  split
  · next hc => subst hc; cases h
  · split
    · next hc => subst hc; cases h
    · rfl

theorem foldCase_of_isDigit {c : Char} (h : c.isDigit = true) : foldCase c = c := by
  have hupper : ¬ c.isUpper = true := by
    intro hupper
    have hletter : c.isAlpha = true := by rw [Char.isAlpha, hupper, Bool.true_or]
    rw [isDigit_of_isAlpha hletter] at h
    cases h
  unfold foldCase
  split
  · next hc => subst hc; cases h
  · split
    · next hc => subst hc; cases h
    · exact toLower_of_not_isUpper hupper

/-- The word is the name but for the case of its letters. -/
def Spells (word name : List Char) : Prop := word.map Char.toLower = name

namespace Spells

variable {word name rest : List Char}

theorem toLower_isLower (h : Spells word name) (hname : name.all Char.isLower = true) :
    ∀ c ∈ word, c.toLower.isLower = true := by
  intro c hc
  exact List.all_eq_true.1 hname _ (h ▸ List.mem_map_of_mem hc)

theorem isAlpha (h : Spells word name) (hname : name.all Char.isLower = true) :
    ∀ c ∈ word, c.isAlpha = true :=
  fun c hc => isAlpha_of_toLower (h.toLower_isLower hname c hc)

theorem map_foldCase (h : Spells word name) (hname : name.all Char.isLower = true) :
    word.map foldCase = name := by
  rw [← h]
  exact List.map_congr_left fun c hc => foldCase_of_toLower (h.toLower_isLower hname c hc)

theorem length_eq (h : Spells word name) : word.length = name.length := by
  rw [← h, List.length_map]

theorem exists_cons {a : Char} {as : List Char} (h : Spells word (a :: as))
    (hname : (a :: as).all Char.isLower = true) :
    ∃ c cs, word = c :: cs ∧ foldCase c = a ∧ c.isAlpha = true := by
  cases word with
  | nil => cases h
  | cons c cs =>
    have hfold := h.map_foldCase hname
    rw [List.map_cons] at hfold
    exact ⟨c, cs, rfl, (List.cons.inj hfold).1, h.isAlpha hname c (List.mem_cons_self ..)⟩

theorem afterWord?_spelled (h : Spells word name) (hname : name.all Char.isLower = true) :
    afterWord? name (word ++ rest) = some rest := by
  rw [afterWord?, ← h.length_eq, List.take_left, List.drop_left, if_pos (h.map_foldCase hname)]

end Spells

theorem afterWord?_eq_none {a c : Char} {name cs : List Char} (h : foldCase c ≠ a) :
    afterWord? (a :: name) (c :: cs) = none := by
  rw [afterWord?, if_neg]
  intro heq
  rw [List.length_cons, List.take_succ_cons, List.map_cons] at heq
  exact h (List.cons.inj heq).1

theorem toLower_of_foldCase {a c : Char} (h : foldCase c = a) (hs : a ≠ 's') (hk : a ≠ 'k') :
    c.toLower = a := by
  unfold foldCase at h
  split at h
  · exact absurd h.symm hs
  · split at h
    · exact absurd h.symm hk
    · exact h

theorem spells_of_foldCase {word name : List Char} (h : word.map foldCase = name) (hs : 's' ∉ name)
    (hk : 'k' ∉ name) : Spells word name := by
  subst h
  refine List.map_congr_left fun c hc => ?_
  have hmem : foldCase c ∈ word.map foldCase := List.mem_map_of_mem hc
  refine (toLower_of_foldCase rfl ?_ ?_)
  · exact fun heq => hs (heq ▸ hmem)
  · exact fun heq => hk (heq ▸ hmem)

theorem isBlank_of_isFoldedLetter {c : Char} (h : isFoldedLetter c = true) : isBlank c = false := by
  unfold isFoldedLetter foldCase at h
  split at h
  · next hc => subst hc; decide
  · split at h
    · next hc => subst hc; decide
    · exact isBlank_of_isAlpha (isAlpha_of_toLower h)

theorem afterWord?_eq_some_iff {name cs rest : List Char} :
    afterWord? name cs = some rest ↔ ∃ word, word.map foldCase = name ∧ cs = word ++ rest := by
  rw [afterWord?, Option.ite_none_right_eq_some]
  constructor
  · rintro ⟨hfold, hrest⟩
    cases hrest
    exact ⟨_, hfold, (List.take_append_drop ..).symm⟩
  · rintro ⟨word, rfl, rfl⟩
    simp

/-! ### Texts that trimming leaves alone -/

/-- A text that neither starts nor ends with a blank, and has no line feed. -/
structure IsCore (cs : List Char) : Prop where
  ne_nil : cs ≠ []
  head : ∀ c ∈ cs.head?, isBlank c = false
  last : ∀ c ∈ cs.getLast?, isBlank c = false
  line : '\n' ∉ cs

theorem isCore_of_not_blank {cs : List Char} (hne : cs ≠ []) (h : ∀ c ∈ cs, isBlank c = false) :
    IsCore cs where
  ne_nil := hne
  head c hc := h c (List.mem_of_mem_head? hc)
  last c hc := h c (List.mem_of_mem_getLast? hc)
  line hmem := by cases h _ hmem

theorem Spells.isCore {word name : List Char} (h : Spells word name)
    (hname : name.all Char.isLower = true) (hne : name ≠ []) : IsCore word := by
  refine isCore_of_not_blank ?_ fun c hc => isBlank_of_isAlpha (h.isAlpha hname c hc)
  rintro rfl
  exact hne h.symm

namespace IsCore

variable {cs ds sep : List Char}

theorem append (h : IsCore cs) (hsep : '\n' ∉ sep) (h' : IsCore ds) : IsCore (cs ++ (sep ++ ds)) where
  ne_nil := by simp [h.ne_nil]
  head c hc := by
    obtain ⟨a, as, rfl⟩ := List.exists_cons_of_ne_nil h.ne_nil
    exact h.head c hc
  last c hc := by
    have hlast := List.getLast?_eq_some_getLast h'.ne_nil
    rw [← List.append_assoc, List.getLast?_append, hlast, Option.some_or] at hc
    exact h'.last c (hlast ▸ hc)
  line hmem := by
    rcases List.mem_append.1 hmem with hmem | hmem
    · exact h.line hmem
    · rcases List.mem_append.1 hmem with hmem | hmem
      · exact hsep hmem
      · exact h'.line hmem

theorem space (h : IsCore cs) (h' : IsCore ds) : IsCore (cs ++ ' ' :: ds) := by
  have hsep : '\n' ∉ [' '] := by decide
  exact h.append hsep h'

theorem trimStart_append (h : IsCore cs) : trimStart (cs ++ ds) = cs ++ ds := by
  obtain ⟨a, as, rfl⟩ := List.exists_cons_of_ne_nil h.ne_nil
  exact trimStart_eq_self h.head

theorem trim_eq (h : IsCore cs) : trim cs = cs := by
  have hstart : trimStart cs = cs := trimStart_eq_self h.head
  rw [trim, hstart, trimEnd_eq_of_last h.last]

end IsCore

/-! ### Runs and parts -/

theorem takeWhile_append_cons {p : Char → Bool} {as : List Char} {c : Char}
    (has : ∀ a ∈ as, p a = true) (hc : p c = false) (bs : List Char) :
    (as ++ c :: bs).takeWhile p = as := by
  rw [List.takeWhile_append_of_pos has, List.takeWhile_cons_of_neg (by simp [hc]), List.append_nil]

theorem dropWhile_append_cons {p : Char → Bool} {as : List Char} {c : Char}
    (has : ∀ a ∈ as, p a = true) (hc : p c = false) (bs : List Char) :
    (as ++ c :: bs).dropWhile p = c :: bs := by
  rw [List.dropWhile_append_of_pos has, List.dropWhile_cons_of_neg (by simp [hc])]

theorem splitWhere_append_cons {p : Char → Bool} {c : Char} (hc : p c = true) (as bs : List Char) :
    splitWhere p (as ++ c :: bs) = splitWhere p as ++ splitWhere p bs := by
  induction as with
  | nil => simp only [List.nil_append, splitWhere, hc, ↓reduceIte, List.singleton_append]
  | cons a as ih =>
    rw [List.cons_append, splitWhere, splitWhere]
    by_cases ha : p a = true
    · rw [if_pos ha, if_pos ha, ih, List.cons_append]
    · rw [if_neg ha, if_neg ha, ih]
      cases hparts : splitWhere p as with
      | nil => exact absurd hparts (splitWhere_ne_nil p as)
      | cons part parts => rfl

theorem splitWhere_of_all {p : Char → Bool} {cs : List Char} (h : ∀ c ∈ cs, p c = false) :
    splitWhere p cs = [cs] := by
  induction cs with
  | nil => rfl
  | cons c cs ih =>
    obtain ⟨hc, hcs⟩ := List.forall_mem_cons.1 h
    rw [splitWhere, if_neg (by simp [hc]), ih hcs]

theorem splitWhere_eq_cons {p : Char → Bool} {cs part : List Char} {parts : List (List Char)}
    (h : splitWhere p cs = part :: parts) :
    (parts = [] ∧ cs = part) ∨
      ∃ c rest, p c = true ∧ cs = part ++ c :: rest ∧ splitWhere p rest = parts := by
  induction cs generalizing part with
  | nil =>
    cases h
    exact .inl ⟨rfl, rfl⟩
  | cons c cs ih =>
    rw [splitWhere] at h
    by_cases hc : p c = true
    · rw [if_pos hc] at h
      cases h
      exact .inr ⟨c, cs, hc, rfl, rfl⟩
    · rw [if_neg hc] at h
      split at h
      · next hnil => exact absurd hnil (splitWhere_ne_nil p cs)
      · next heq =>
        cases h
        rcases ih heq with ⟨rfl, rfl⟩ | ⟨d, rest, hd, rfl, hrest⟩
        · exact .inl ⟨rfl, rfl⟩
        · exact .inr ⟨d, rest, hd, rfl, hrest⟩

theorem mem_of_mem_splitWhere {p : Char → Bool} {cs part : List Char} {c : Char}
    (hpart : part ∈ splitWhere p cs) (hc : c ∈ part) : c ∈ cs := by
  induction cs generalizing part with
  | nil =>
    rw [splitWhere, List.mem_singleton] at hpart
    exact hpart ▸ hc
  | cons d cs ih =>
    rw [splitWhere] at hpart
    split at hpart
    · rcases List.mem_cons.1 hpart with rfl | hpart
      · cases hc
      · exact List.mem_cons_of_mem _ (ih hpart hc)
    · split at hpart
      · next hnil => exact absurd hnil (splitWhere_ne_nil p cs)
      · next first parts heq =>
        rcases List.mem_cons.1 hpart with rfl | hpart
        · rcases List.mem_cons.1 hc with rfl | hc
          · exact List.mem_cons_self ..
          · exact List.mem_cons_of_mem _ (ih (heq ▸ List.mem_cons_self ..) hc)
        · exact List.mem_cons_of_mem _ (ih (heq ▸ List.mem_cons_of_mem _ hpart) hc)

theorem not_of_mem_splitWhere {p : Char → Bool} {cs part : List Char} {c : Char}
    (hpart : part ∈ splitWhere p cs) (hc : c ∈ part) : p c = false := by
  induction cs generalizing part with
  | nil =>
    rw [splitWhere, List.mem_singleton] at hpart
    subst hpart
    cases hc
  | cons d cs ih =>
    rw [splitWhere] at hpart
    split at hpart
    · rcases List.mem_cons.1 hpart with rfl | hpart
      · cases hc
      · exact ih hpart hc
    · next hd =>
      split at hpart
      · next hnil => exact absurd hnil (splitWhere_ne_nil p cs)
      · next first parts heq =>
        rcases List.mem_cons.1 hpart with rfl | hpart
        · rcases List.mem_cons.1 hc with rfl | hc
          · simpa using hd
          · exact ih (heq ▸ List.mem_cons_self ..) hc
        · exact ih (heq ▸ List.mem_cons_of_mem _ hpart) hc

end TypedConfig.Text
