import TypedConfig.ParseError
import TypedConfig.Text.Blank

/-!
# Splitting a text into tokens

`Splits` takes a text apart into blanks and words, each token with the position of its word. Which
word comes next, and what token it is, may depend on the text after it. A function that takes the
words off one by one finds just the ways to split a text (`Lexes.eq_ok_iff`).
-/

namespace TypedConfig.Expression

open Text

variable {τ : Type}

/-- The tokens of a text that starts at a position, in order, with blanks anywhere between. -/
inductive Splits (Munches : List Char → List Char → τ → Prop) :
    Nat → List Char → List (Nat × τ) → Prop
  | nil (position : Nat) : Splits Munches position [] []
  | space {position : Nat} {c : Char} {cs : List Char} {ts : List (Nat × τ)}
      (hc : c ∈ [' ', '\t', '\r', '\n']) (h : Splits Munches (position + 1) cs ts) :
      Splits Munches position (c :: cs) ts
  | token {position : Nat} {word rest : List Char} {t : τ} {ts : List (Nat × τ)}
      (hword : Munches word rest t) (h : Splits Munches (position + byteLength word) rest ts) :
      Splits Munches position (word ++ rest) ((position, t) :: ts)

/-- A function that takes blanks and words off the front of a text, and fails if there are none. -/
structure Lexes (Munches : List Char → List Char → τ → Prop)
    (lex : Nat → List Char → Except ParseError (List (Nat × τ))) : Prop where
  nil : ∀ position, lex position [] = .ok []
  space : ∀ position c cs, c ∈ [' ', '\t', '\r', '\n'] → lex position (c :: cs) = lex (position + 1) cs
  token : ∀ position word rest t, Munches word rest t →
    lex position (word ++ rest) = do return (position, t) :: (← lex (position + byteLength word) rest)
  stuck : ∀ position c cs, c ∉ [' ', '\t', '\r', '\n'] →
    (∃ word rest t, c :: cs = word ++ rest ∧ word ≠ [] ∧ Munches word rest t) ∨
      ∃ e, lex position (c :: cs) = .error e

variable {Munches : List Char → List Char → τ → Prop}
  {lex : Nat → List Char → Except ParseError (List (Nat × τ))}

theorem Lexes.eq_ok (h : Lexes Munches lex) {position : Nat} {cs : List Char} {ts : List (Nat × τ)}
    (hs : Splits Munches position cs ts) : lex position cs = .ok ts := by
  induction hs with
  | nil position => exact h.nil position
  | space hc _ ih => rw [h.space _ _ _ hc, ih]
  | token hword _ ih => rw [h.token _ _ _ _ hword, ih]; rfl

theorem Lexes.splits (h : Lexes Munches lex) {position : Nat} {cs : List Char}
    {ts : List (Nat × τ)} (hlex : lex position cs = .ok ts) : Splits Munches position cs ts := by
  induction hn : cs.length using Nat.strongRecOn generalizing cs position ts with
  | ind n ih =>
    subst hn
    cases cs with
    | nil =>
      rw [h.nil] at hlex
      cases hlex
      exact .nil position
    | cons c cs =>
      by_cases hc : c ∈ [' ', '\t', '\r', '\n']
      · rw [h.space _ _ _ hc] at hlex
        exact .space hc (ih _ (by simp) hlex rfl)
      · rcases h.stuck position c cs hc with ⟨word, rest, t, hcs, hne, hword⟩ | ⟨e, he⟩
        · have hlen := List.length_pos_iff.2 hne
          rw [hcs] at hlex ih ⊢
          rw [h.token _ _ _ _ hword] at hlex
          cases hrest : lex (position + byteLength word) rest with
          | error e => rw [hrest] at hlex; cases hlex
          | ok us =>
            rw [hrest] at hlex
            cases hlex
            exact .token hword (ih _ (by rw [List.length_append]; omega) hrest rfl)
        · rw [he] at hlex
          cases hlex

theorem Lexes.eq_ok_iff (h : Lexes Munches lex) {position : Nat} {cs : List Char}
    {ts : List (Nat × τ)} : lex position cs = .ok ts ↔ Splits Munches position cs ts :=
  ⟨h.splits, h.eq_ok⟩

theorem byteLength_of_ascii {cs : List Char} (h : ∀ c ∈ cs, c.val ≤ 0x7f) :
    byteLength cs = cs.length := by
  induction cs with
  | nil => rfl
  | cons c cs ih =>
    have hsize : c.utf8Size = 1 := by simp [Char.utf8Size, h c (List.mem_cons_self ..)]
    rw [byteLength_cons, hsize, ih fun c hc => h c (List.mem_cons_of_mem _ hc), List.length_cons,
      Nat.add_comm]

end TypedConfig.Expression
