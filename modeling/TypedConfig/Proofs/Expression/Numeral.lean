import TypedConfig.Expression.Arithmetic
import TypedConfig.Proofs.Text.Digits

/-!
# Numerals

`Numeral` says what numbers of arithmetic look like and which decimal they stand for. What is split
off the front of a text is its longest prefix that is a numeral (`splitNumber?_eq_some_iff`).
-/

namespace TypedConfig.Expression.Arithmetic

open Text

/-- The number that digits stand for. -/
def value (ds : List Char) : Nat := Nat.ofDigitChars 10 ds 0

/-- An exponent: a letter, a sign or none, and digits; or nothing. -/
inductive Exponent : List Char → Int → Prop
  | none : Exponent [] 0
  | some {letter : Char} {sign ds : List Char} {negative : Bool} (hletter : letter ∈ ['e', 'E'])
      (hsign : (sign, negative) ∈ [([], false), (['+'], false), (['-'], true)])
      (hds : ∀ c ∈ ds, c.isDigit = true) (hne : ds ≠ []) :
      Exponent (letter :: (sign ++ ds)) (if negative then -(value ds : Int) else value ds)

/-- A number: digits with a point after, among or before them, or without a point, and an
exponent. -/
inductive Numeral : List Char → Decimal → Prop
  | whole {ds es : List Char} {e : Int} (hds : ∀ c ∈ ds, c.isDigit = true) (hne : ds ≠ [])
      (hes : Exponent es e) : Numeral (ds ++ es) ⟨value ds, e⟩
  | point {ws fs es : List Char} {e : Int} (hws : ∀ c ∈ ws, c.isDigit = true)
      (hfs : ∀ c ∈ fs, c.isDigit = true) (hne : ws ≠ [] ∨ fs ≠ []) (hes : Exponent es e) :
      Numeral (ws ++ '.' :: (fs ++ es)) ⟨value (ws ++ fs), e - fs.length⟩

/-! ### Digits and exponents -/

theorem Numeral.of_digits {ds : List Char} (hds : ∀ c ∈ ds, c.isDigit = true) (hne : ds ≠ []) :
    Numeral ds ⟨value ds, 0⟩ := by
  have hwhole := Numeral.whole hds hne .none
  rwa [List.append_nil] at hwhole

theorem isDigit_of_mem_splitDigits {cs : List Char} {c : Char} (h : c ∈ (splitDigits cs).1) :
    c.isDigit = true := List.all_eq_true.1 List.all_takeWhile c h

theorem length_splitDigits_le (cs : List Char) : (splitDigits cs).2.length ≤ cs.length := by
  have := length_splitDigits cs
  omega

theorem splitDigits_append_of_digits {ds : List Char} (hds : ∀ c ∈ ds, c.isDigit = true)
    (cs : List Char) : splitDigits (ds ++ cs) = (ds ++ (splitDigits cs).1, (splitDigits cs).2) := by
  rw [splitDigits, List.takeWhile_append_of_pos hds, List.dropWhile_append_of_pos hds]
  rfl

theorem splitSign_append {sign ds : List Char} {negative : Bool}
    (hsign : (sign, negative) ∈ [([], false), (['+'], false), (['-'], true)])
    (hds : ∀ c ∈ ds, c.isDigit = true) (hne : ds ≠ []) (rest : List Char) :
    splitSign (sign ++ ds ++ rest) = (negative, ds ++ rest) := by
  simp only [List.mem_cons, Prod.mk.injEq, List.not_mem_nil, or_false] at hsign
  rcases hsign with ⟨rfl, rfl⟩ | ⟨rfl, rfl⟩ | ⟨rfl, rfl⟩
  · obtain ⟨c, ds, rfl⟩ := List.exists_cons_of_ne_nil hne
    have hc := hds c (List.mem_cons_self ..)
    unfold splitSign
    split
    · next heq => cases heq; cases hc
    · next heq => cases heq; cases hc
    · rfl
  · rfl
  · rfl

theorem exists_splitSign (cs : List Char) : ∃ sign,
    (sign, (splitSign cs).1) ∈ [([], false), (['+'], false), (['-'], true)] ∧
      cs = sign ++ (splitSign cs).2 := by
  unfold splitSign
  split
  · exact ⟨['-'], by simp, rfl⟩
  · exact ⟨['+'], by simp, rfl⟩
  · exact ⟨[], by simp, rfl⟩

/-- A letter that an exponent starts with is neither a digit nor a point. -/
theorem not_isDigit_of_letter {letter : Char} (h : letter ∈ ['e', 'E']) :
    letter.isDigit = false ∧ letter ≠ '.' := by
  simp only [List.mem_cons, List.not_mem_nil, or_false] at h
  rcases h with rfl | rfl <;> exact ⟨rfl, by decide⟩

theorem splitFraction_of_ne {c : Char} (hc : c ≠ '.') (cs : List Char) :
    splitFraction (c :: cs) = ([], c :: cs) := by
  unfold splitFraction
  split
  · next heq => cases heq; exact absurd rfl hc
  · rfl

theorem splitExponent_append {letter : Char} {sign ds : List Char} {negative : Bool}
    (hletter : letter ∈ ['e', 'E'])
    (hsign : (sign, negative) ∈ [([], false), (['+'], false), (['-'], true)])
    (hds : ∀ c ∈ ds, c.isDigit = true) (hne : ds ≠ []) (rest : List Char) :
    splitExponent (letter :: (sign ++ ds ++ rest)) =
      (if negative then -(value (ds ++ (splitDigits rest).1) : Int)
        else value (ds ++ (splitDigits rest).1), (splitDigits rest).2) := by
  have hletter' : letter = 'e' ∨ letter = 'E' := by simpa using hletter
  have hempty : (ds ++ (splitDigits rest).1).isEmpty = false := by simp [hne]
  simp only [splitExponent, hletter', if_true, splitSign_append hsign hds hne,
    splitDigits_append_of_digits hds, hempty, Bool.false_eq_true, if_false]
  rfl

theorem Exponent.splitExponent_eq {es : List Char} {e : Int} (h : Exponent es e) :
    splitExponent es = (e, []) := by
  cases h with
  | none => rfl
  | some hletter hsign hds hne =>
    have happend := splitExponent_append hletter hsign hds hne []
    simpa [splitDigits] using happend

theorem exists_exponent (cs : List Char) :
    ∃ es, cs = es ++ (splitExponent cs).2 ∧ Exponent es (splitExponent cs).1 := by
  cases cs with
  | nil => exact ⟨[], rfl, .none⟩
  | cons c cs =>
    by_cases hletter : c = 'e' ∨ c = 'E'
    · by_cases hrun : (splitDigits (splitSign cs).2).1.isEmpty = true
      · simp only [splitExponent, hletter, if_true, hrun]
        exact ⟨[], rfl, .none⟩
      · simp only [splitExponent, hletter, if_true, hrun, if_false, Bool.false_eq_true]
        obtain ⟨sign, hsign, hcs⟩ := exists_splitSign cs
        refine ⟨c :: (sign ++ (splitDigits (splitSign cs).2).1), ?_, ?_⟩
        · rw [List.cons_append, List.append_assoc, splitDigits_append, ← hcs]
        · exact .some (by simpa using hletter) hsign (fun c hc => isDigit_of_mem_splitDigits hc)
            (by simpa using hrun)
    · simp only [splitExponent, hletter, if_false]
      exact ⟨[], rfl, .none⟩

/-! ### Whole numbers -/

theorem exists_numeral {cs rest : List Char} {d : Decimal} (h : splitNumber? cs = some (d, rest)) :
    ∃ word, cs = word ++ rest ∧ Numeral word d := by
  have hcs := splitDigits_append cs
  have hws : ∀ c ∈ (splitDigits cs).1, c.isDigit = true := fun c hc => isDigit_of_mem_splitDigits hc
  obtain ⟨es, htail, hes⟩ := exists_exponent (splitFraction (splitDigits cs).2).2
  simp only [splitNumber?] at h
  generalize (splitDigits cs).1 = ws at *
  generalize (splitDigits cs).2 = tail at *
  split at h
  · cases h
  · next hne =>
    cases h
    unfold splitFraction at htail hes hne ⊢
    split at htail
    · next ds =>
      have hds := splitDigits_append ds
      have hfs : ∀ c ∈ (splitDigits ds).1, c.isDigit = true :=
        fun c hc => isDigit_of_mem_splitDigits hc
      refine ⟨ws ++ '.' :: ((splitDigits ds).1 ++ es), ?_, ?_⟩
      · rw [List.append_assoc, List.cons_append, List.append_assoc, ← htail, hds, hcs]
      · refine .point hws hfs ?_ hes
        simp only [Bool.and_eq_true, List.isEmpty_iff, not_and] at hne
        by_cases hw : ws = []
        · exact .inr (hne hw)
        · exact .inl hw
    · next hpoint =>
      refine ⟨ws ++ es, ?_, ?_⟩
      · rw [List.append_assoc, ← htail, hcs]
      · have hnumeral := Numeral.whole hws (by simpa using hne) hes
        simpa [value] using hnumeral

theorem Numeral.splitNumber?_eq {word : List Char} {d : Decimal} (h : Numeral word d) :
    splitNumber? word = some (d, []) := by
  have hhead {es : List Char} {e : Int} (hes : Exponent es e) :
      (∀ c ∈ es.head?, c.isDigit = false) ∧ splitFraction es = ([], es) := by
    cases hes with
    | none => exact ⟨by simp, rfl⟩
    | some hletter _ _ _ =>
      obtain ⟨hdigit, hpoint⟩ := not_isDigit_of_letter hletter
      exact ⟨by simpa using hdigit, splitFraction_of_ne hpoint _⟩
  cases h with
  | @whole ds es e hds hne hes =>
    obtain ⟨hdigit, hfraction⟩ := hhead hes
    have hempty : (ds.isEmpty && ([] : List Char).isEmpty) = false := by simp [hne]
    simp only [splitNumber?, splitDigits_of_digits hds hdigit, hfraction, hes.splitExponent_eq,
      hempty]
    simp [value]
  | @point ws fs es e hws hfs hne hes =>
    obtain ⟨hdigit, -⟩ := hhead hes
    have hempty : (ws.isEmpty && fs.isEmpty) = false := by
      rcases hne with hne | hne <;> simp [hne]
    have hpoint : ∀ c ∈ ('.' :: (fs ++ es)).head?, c.isDigit = false := by simp
    simp only [splitNumber?, splitDigits_of_digits hws hpoint, splitFraction,
      splitDigits_of_digits hfs hdigit, hes.splitExponent_eq, hempty]
    rfl

/-- What is split off is no shorter than a numeral at the front. -/
theorem Numeral.le_splitNumber? {word : List Char} {d : Decimal} (h : Numeral word d)
    (rest : List Char) :
    ∃ d' rest', splitNumber? (word ++ rest) = some (d', rest') ∧ rest'.length ≤ rest.length := by
  -- the digits in front of an exponent, or more digits if there is none
  have htail {ds es : List Char} {e : Int} (hds : ∀ c ∈ ds, c.isDigit = true)
      (hes : Exponent es e) : ∃ more tail, splitDigits (ds ++ (es ++ rest)) = (ds ++ more, tail) ∧
        (splitExponent tail).2.length ≤ rest.length ∧
        (splitExponent (splitFraction tail).2).2.length ≤ rest.length := by
    cases hes with
    | none =>
      refine ⟨_, _, splitDigits_append_of_digits hds rest, ?_, ?_⟩
      · exact Nat.le_trans (length_splitExponent_le _) (length_splitDigits_le rest)
      · have hfraction := length_splitFraction_le (splitDigits rest).2
        have hexponent := length_splitExponent_le (splitFraction (splitDigits rest).2).2
        have hdigits := length_splitDigits_le rest
        omega
    | @some letter sign ds' negative hletter hsign hds' hne =>
      obtain ⟨hdigit, hpoint⟩ := not_isDigit_of_letter hletter
      have hlength : (splitExponent (letter :: (sign ++ ds' ++ rest))).2.length ≤ rest.length := by
        rw [splitExponent_append hletter hsign hds' hne]
        exact length_splitDigits_le rest
      refine ⟨[], letter :: (sign ++ ds' ++ rest), ?_, hlength, ?_⟩
      · rw [List.append_nil, List.cons_append]
        exact splitDigits_of_digits hds (by simpa using hdigit)
      · rw [splitFraction_of_ne hpoint]
        exact hlength
  cases h with
  | @whole ds es e hds hne hes =>
    obtain ⟨more, tail, hsplit, -, hlength⟩ := htail hds hes
    have hempty : ((ds ++ more).isEmpty && (splitFraction tail).1.isEmpty) = false := by simp [hne]
    rw [List.append_assoc]
    simp only [splitNumber?, hsplit, hempty]
    exact ⟨_, _, rfl, hlength⟩
  | @point ws fs es e hws hfs hne hes =>
    obtain ⟨more, tail, hsplit, hlength, -⟩ := htail hfs hes
    have hempty : (ws.isEmpty && (fs ++ more).isEmpty) = false := by
      rcases hne with hne | hne <;> simp [hne]
    have hpoint : ∀ c ∈ ('.' :: (fs ++ (es ++ rest))).head?, c.isDigit = false := by simp
    rw [List.append_assoc, List.cons_append, List.append_assoc]
    simp only [splitNumber?, splitDigits_of_digits hws hpoint, splitFraction, hsplit, hempty]
    exact ⟨_, _, rfl, hlength⟩

/-- What is split off the front of a text is the longest numeral there. -/
theorem splitNumber?_eq_some_iff {cs rest : List Char} {d : Decimal} :
    splitNumber? cs = some (d, rest) ↔ ∃ word, cs = word ++ rest ∧ Numeral word d ∧
      ∀ word' d', word' <+: cs → Numeral word' d' → word'.length ≤ word.length := by
  constructor
  · intro h
    obtain ⟨word, rfl, hword⟩ := exists_numeral h
    refine ⟨word, rfl, hword, fun word' d' hprefix hword' => ?_⟩
    obtain ⟨rest', hrest'⟩ := hprefix
    obtain ⟨d'', rest'', hsplit, hle⟩ := hword'.le_splitNumber? rest'
    rw [hrest', h] at hsplit
    cases hsplit
    have hlen := congrArg List.length hrest'
    simp only [List.length_append] at hlen
    omega
  · rintro ⟨word, rfl, hword, hlongest⟩
    obtain ⟨d', rest', hsplit, hle⟩ := hword.le_splitNumber? rest
    obtain ⟨word', hcs, hword'⟩ := exists_numeral hsplit
    have hle' := hlongest word' d' (hcs ▸ List.prefix_append ..) hword'
    have hlen := congrArg List.length hcs
    simp only [List.length_append] at hlen
    obtain ⟨rfl, rfl⟩ := List.append_inj hcs (by omega)
    rw [hsplit]
    have hsame := hword.splitNumber?_eq.symm.trans hword'.splitNumber?_eq
    cases hsame
    rfl

end TypedConfig.Expression.Arithmetic
