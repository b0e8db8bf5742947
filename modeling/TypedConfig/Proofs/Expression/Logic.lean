import Mathlib
import TypedConfig.Expression.Logic
import TypedConfig.Proofs.Expression.Grammar
import TypedConfig.Proofs.Expression.Splitting
import TypedConfig.Proofs.Text.Words

/-!
# Logic evaluates its parse trees

`Tree` has the parse trees of logic. A text has a truth value just if its keywords and parentheses
are the tokens of a tree that nests no deeper than allowed, and it is the value of that tree
(`evaluate_logic`). A keyword that a letter, a digit or an underscore follows is part of a longer
word, which is no token.
-/

namespace TypedConfig.Expression.Logic

open Text

/-! ### Tokens -/

/-- The keywords and their tokens. -/
def keywords : List (String × Token Bool Connective) :=
  [("true", .operand true), ("false", .operand false), ("and", .operator .and),
    ("or", .operator .or), ("not", .operator .not)]

/-- The words of logic in front of a text, and their tokens. -/
inductive Munches : List Char → List Char → Token Bool Connective → Prop
  | opening (rest : List Char) : Munches ['('] rest .opening
  | closing (rest : List Char) : Munches [')'] rest .closing
  | keyword {word rest : List Char} {t : Token Bool Connective}
      (h : (String.ofList (word.map Char.toLower), t) ∈ keywords)
      (hend : ∀ c ∈ rest.head?, c.isAlphanum = false ∧ c ≠ '_') : Munches word rest t

theorem isSpace_iff {c : Char} : isSpace c = true ↔ c ∈ [' ', '\t', '\r', '\n'] := by
  simp [isSpace, or_assoc]

theorem keyword?_eq_some_iff {word : List Char} {t : Token Bool Connective} :
    keyword? word = some t ↔ (String.ofList (word.map Char.toLower), t) ∈ keywords := by
  unfold keyword? keywords
  constructor
  · intro h
    split at h <;> cases h <;> simp_all
  · intro h
    simp only [List.mem_cons, Prod.mk.injEq, List.not_mem_nil, or_false] at h
    rcases h with ⟨h, rfl⟩ | ⟨h, rfl⟩ | ⟨h, rfl⟩ | ⟨h, rfl⟩ | ⟨h, rfl⟩ <;> rw [h] <;> rfl

/-- A keyword is made of letters. -/
theorem isAlpha_of_keyword {word : List Char} {t : Token Bool Connective}
    (h : (String.ofList (word.map Char.toLower), t) ∈ keywords) :
    word ≠ [] ∧ ∀ c ∈ word, c.isAlpha = true := by
  have hlower : ∀ k ∈ keywords, k.1.toList ≠ [] ∧ ∀ c ∈ k.1.toList, c.isLower = true := by
    simp [keywords]
  obtain ⟨hne, hchars⟩ := hlower _ h
  rw [String.toList_ofList] at hne hchars
  refine ⟨by simpa using hne, fun c hc => isAlpha_of_toLower ?_⟩
  exact hchars _ (List.mem_map_of_mem hc)

theorem byteLength_of_isAlpha {word : List Char} (h : ∀ c ∈ word, c.isAlpha = true) :
    byteLength word = word.length := by
  refine byteLength_of_ascii fun c hc => ?_
  have hletter := h c hc
  simp only [Char.isAlpha, Char.isUpper, Char.isLower, Bool.or_eq_true, Bool.and_eq_true,
    decide_eq_true_eq] at hletter
  rcases hletter with hletter | hletter
  · exact Nat.le_trans hletter.2 (by decide)
  · exact Nat.le_trans hletter.2 (by decide)

/-- The first letter of a word is no other token. -/
theorem isWordStart_of_isAlpha {c : Char} (h : c.isAlpha = true) :
    isSpace c = false ∧ c ≠ '(' ∧ c ≠ ')' ∧ isWordStart c = true := by
  refine ⟨?_, ?_, ?_, by simp [isWordStart, h]⟩
  · rw [Bool.eq_false_iff]
    intro hspace
    rw [isSpace_iff] at hspace
    simp only [List.mem_cons, List.not_mem_nil, or_false] at hspace
    rcases hspace with rfl | rfl | rfl | rfl <;> cases h
  · rintro rfl
    cases h
  · rintro rfl
    cases h

theorem lexes : Lexes Munches tokensFrom where
  nil position := by rw [tokensFrom]
  space position c cs hc := by rw [tokensFrom, if_pos (isSpace_iff.2 hc)]
  token position word rest t hword := by
    cases hword with
    | opening => rw [List.singleton_append, tokensFrom]; rfl
    | closing => rw [List.singleton_append, tokensFrom]; rfl
    | keyword h hend =>
      obtain ⟨hne, hletters⟩ := isAlpha_of_keyword h
      have hbytes := byteLength_of_isAlpha hletters
      obtain ⟨c, word, rfl⟩ := List.exists_cons_of_ne_nil hne
      obtain ⟨hc, hletters⟩ := List.forall_mem_cons.1 hletters
      obtain ⟨hspace, hopening, hclosing, hstart⟩ := isWordStart_of_isAlpha hc
      have hword : ∀ c ∈ word, isWordRest c = true := by
        intro c hc
        rw [isWordRest, Char.isAlphanum, hletters c hc]
        rfl
      have hrest : rest.takeWhile isWordRest = [] ∧ rest.dropWhile isWordRest = rest := by
        cases rest with
        | nil => exact ⟨rfl, rfl⟩
        | cons d rest =>
          obtain ⟨hd, hd'⟩ := hend d rfl
          have hfalse : ¬ isWordRest d = true := by simp [isWordRest, hd, hd']
          exact ⟨List.takeWhile_cons_of_neg hfalse, List.dropWhile_cons_of_neg hfalse⟩
      have htake : (word ++ rest).takeWhile isWordRest = word := by
        rw [List.takeWhile_append_of_pos hword, hrest.1, List.append_nil]
      have hdrop : (word ++ rest).dropWhile isWordRest = rest := by
        rw [List.dropWhile_append_of_pos hword, hrest.2]
      rw [List.cons_append, tokensFrom]
      simp only [hspace, hopening, hclosing, hstart, htake, hdrop, keyword?_eq_some_iff.2 h, hbytes,
        Bool.false_eq_true, if_false, if_true]
  stuck position c cs hc := by
    have hspace : isSpace c = false := by
      rw [Bool.eq_false_iff]
      exact fun h => hc (isSpace_iff.1 h)
    by_cases hopening : c = '('
    · exact .inl ⟨['('], cs, .opening, by rw [hopening]; rfl, by simp, .opening cs⟩
    by_cases hclosing : c = ')'
    · exact .inl ⟨[')'], cs, .closing, by rw [hclosing]; rfl, by simp, .closing cs⟩
    rw [tokensFrom]
    simp only [hspace, hopening, hclosing, Bool.false_eq_true, if_false]
    split
    · split
      · next token hkeyword =>
        refine .inl ⟨c :: cs.takeWhile isWordRest, cs.dropWhile isWordRest, token, ?_, by simp,
          .keyword (keyword?_eq_some_iff.1 hkeyword) fun d hd => ?_⟩
        · rw [List.cons_append, List.takeWhile_append_dropWhile]
        · have hfalse := List.head?_dropWhile_not isWordRest cs
          rw [hd] at hfalse
          simpa [isWordRest] using hfalse
      · exact .inr ⟨_, rfl⟩
    · exact .inr ⟨_, rfl⟩

/-! ### Parse trees -/

/-- The parse trees of logic. -/
inductive Tree : Rank → Type
  | literal (b : Bool) : Tree .factor
  | group (t : Tree .expression) : Tree .factor
  | negation (t : Tree .factor) : Tree .factor
  | factor (t : Tree .factor) : Tree .term
  | conjunction (l : Tree .term) (r : Tree .factor) : Tree .term
  | term (t : Tree .term) : Tree .expression
  | disjunction (l : Tree .expression) (r : Tree .term) : Tree .expression

namespace Tree

/-- The tokens of a tree, from left to right. -/
def tokens : {rank : Rank} → Tree rank → List (Token Bool Connective)
  | _, literal b => [.operand b]
  | _, group t => .opening :: (t.tokens ++ [.closing])
  | _, negation t => .operator .not :: t.tokens
  | _, factor t => t.tokens
  | _, conjunction l r => l.tokens ++ .operator .and :: r.tokens
  | _, term t => t.tokens
  | _, disjunction l r => l.tokens ++ .operator .or :: r.tokens

/-- How many parentheses and negations are within each other at most. -/
def nesting : {rank : Rank} → Tree rank → Nat
  | _, literal _ => 0
  | _, group t => t.nesting + 1
  | _, negation t => t.nesting + 1
  | _, factor t => t.nesting
  | _, conjunction l r => max l.nesting r.nesting
  | _, term t => t.nesting
  | _, disjunction l r => max l.nesting r.nesting

/-- The truth value of a tree. -/
def value : {rank : Rank} → Tree rank → Bool
  | _, literal b => b
  | _, group t => t.value
  | _, negation t => !t.value
  | _, factor t => t.value
  | _, conjunction l r => l.value && r.value
  | _, term t => t.value
  | _, disjunction l r => l.value || r.value

theorem derives {rank : Rank} (t : Tree rank) {room : Nat} (hroom : t.nesting ≤ room) :
    Derives language room rank t.tokens (.ok t.value) := by
  induction t generalizing room with
  | literal b => exact .operand b
  | group t ih =>
    obtain ⟨room, rfl⟩ : ∃ r, room = r + 1 := ⟨room - 1, by simp only [nesting] at hroom; omega⟩
    exact .group (ih (Nat.le_of_succ_le_succ hroom))
  | negation t ih =>
    obtain ⟨room, rfl⟩ : ∃ r, room = r + 1 := ⟨room - 1, by simp only [nesting] at hroom; omega⟩
    have hop : language.unary .not = some not := rfl
    exact .unary hop (ih (Nat.le_of_succ_le_succ hroom))
  | factor t ih => exact .factor (ih hroom)
  | conjunction l r ihl ihr =>
    obtain ⟨hl, hr⟩ := Nat.max_le.1 hroom
    have hop : language.tight .and = some fun a b => .ok (a && b) := rfl
    exact .tight hop (ihl hl) (ihr hr)
  | term t ih => exact .term (ih hroom)
  | disjunction l r ihl ihr =>
    obtain ⟨hl, hr⟩ := Nat.max_le.1 hroom
    have hop : language.loose .or = some or := rfl
    exact .loose rfl hop (ihl hl) (ihr hr)

theorem exists_of_derives {room : Nat} {rank : Rank} {ts : List (Token Bool Connective)}
    {x : Except ParseError Bool} (h : Derives language room rank ts x) :
    ∃ t : Tree rank, t.tokens = ts ∧ t.nesting ≤ room := by
  induction h with
  | operand b => exact ⟨literal b, rfl, Nat.zero_le _⟩
  | @unary room op f ts x hop _ ih =>
    obtain ⟨t, rfl, ht⟩ := ih
    cases op with
    | not => exact ⟨negation t, rfl, Nat.succ_le_succ ht⟩
    | _ => cases hop
  | group _ ih =>
    obtain ⟨t, rfl, ht⟩ := ih
    exact ⟨group t, rfl, Nat.succ_le_succ ht⟩
  | factor _ ih =>
    obtain ⟨t, rfl, ht⟩ := ih
    exact ⟨factor t, rfl, ht⟩
  | @tight room op f ts us x y hop _ _ ihl ihr =>
    obtain ⟨l, rfl, hl⟩ := ihl
    obtain ⟨r, rfl, hr⟩ := ihr
    cases op with
    | and => exact ⟨conjunction l r, rfl, Nat.max_le.2 ⟨hl, hr⟩⟩
    | _ => cases hop
  | term _ ih =>
    obtain ⟨t, rfl, ht⟩ := ih
    exact ⟨term t, rfl, ht⟩
  | @loose room op g ts us x y _ hop _ _ ihl ihr =>
    obtain ⟨l, rfl, hl⟩ := ihl
    obtain ⟨r, rfl, hr⟩ := ihr
    cases op with
    | or => exact ⟨disjunction l r, rfl, Nat.max_le.2 ⟨hl, hr⟩⟩
    | _ => cases hop

end Tree

/-! ### Evaluation -/

theorem evaluate_of_tree {text : String} {ts : List (Nat × Token Bool Connective)}
    {t : Tree .expression} (hts : Splits Munches 0 text.toList ts)
    (ht : t.tokens = ts.map Prod.snd) (hnesting : t.nesting ≤ maxDepth) :
    evaluate text = .ok t.value := by
  have h := t.derives hnesting
  rw [ht] at h
  rw [evaluate, lexes.eq_ok hts]
  exact evaluate_of_derives h

/-- A text has a truth value just if its keywords and parentheses are the tokens of an expression
that nests at most 256 deep, and it is the value of its tree. -/
theorem evaluate_logic (text : String) (b : Bool) : evaluate text = .ok b ↔
    ∃ ts, ∃ t : Tree .expression, Splits Munches 0 text.toList ts ∧ t.tokens = ts.map Prod.snd ∧
      t.nesting ≤ 256 ∧ b = t.value := by
  constructor
  · intro h
    have hsentence := h
    rw [evaluate] at hsentence
    cases hlex : tokensFrom 0 text.toList with
    | error e => rw [hlex] at hsentence; cases hsentence
    | ok ts =>
      rw [hlex] at hsentence
      obtain ⟨t, ht, hnesting⟩ := Tree.exists_of_derives (derives_of_evaluate hsentence)
      have hts := lexes.splits hlex
      rw [evaluate_of_tree hts ht hnesting] at h
      cases h
      exact ⟨ts, t, hts, ht, hnesting, rfl⟩
  · rintro ⟨ts, t, hts, ht, hnesting, rfl⟩
    exact evaluate_of_tree hts ht hnesting

end TypedConfig.Expression.Logic
