import TypedConfig.Proofs.Expression.Grammar
import TypedConfig.Proofs.Expression.Numeral
import TypedConfig.Proofs.Expression.Splitting

/-!
# Arithmetic evaluates its parse trees

`Tree` has the parse trees of arithmetic: which tokens they have, how deep they nest, what they
divide by and what their value is. A text evaluates to a number just if its tokens, each as long as
possible, are those of a tree that nests no deeper than allowed and divides by no zero, and the
number is the value of that tree (`evaluate_arithmetic`).
-/

namespace TypedConfig.Expression.Arithmetic

open Text

/-! ### Tokens -/

/-- The words of arithmetic in front of a text, and their tokens. A number is as long as it can
be. -/
inductive Munches : List Char → List Char → Token Float Sign → Prop
  | plus (rest : List Char) : Munches ['+'] rest (.operator .plus)
  | minus (rest : List Char) : Munches ['-'] rest (.operator .minus)
  | times (rest : List Char) : Munches ['*'] rest (.operator .times)
  | over (rest : List Char) : Munches ['/'] rest (.operator .over)
  | opening (rest : List Char) : Munches ['('] rest .opening
  | closing (rest : List Char) : Munches [')'] rest .closing
  | number {word rest : List Char} {d : Decimal} (h : Numeral word d)
      (hlongest : ∀ word' d', word' <+: word ++ rest → Numeral word' d' →
        word'.length ≤ word.length) : Munches word rest (.operand d.toFloat)

theorem isSpace_iff {c : Char} : isSpace c = true ↔ c ∈ [' ', '\t', '\r', '\n'] := by
  simp [isSpace, or_assoc]

theorem munches_of_sign? {c : Char} {t : Token Float Sign} (h : sign? c = some t)
    (rest : List Char) : Munches [c] rest t := by
  unfold sign? at h
  split at h <;> cases h <;> constructor

theorem Numeral.exists_cons {word : List Char} {d : Decimal} (h : Numeral word d) :
    ∃ c cs, word = c :: cs ∧ isSpace c = false ∧ sign? c = none := by
  have hdigit {c : Char} (hc : c.isDigit = true) : isSpace c = false ∧ sign? c = none := by
    constructor
    · rw [Bool.eq_false_iff]
      intro hspace
      rw [isSpace_iff] at hspace
      simp only [List.mem_cons, List.not_mem_nil, or_false] at hspace
      rcases hspace with rfl | rfl | rfl | rfl <;> cases hc
    · unfold sign?
      split <;> first | rfl | cases hc
  cases h with
  | @whole ds es e hds hne hes =>
    obtain ⟨c, ds, rfl⟩ := List.exists_cons_of_ne_nil hne
    exact ⟨c, _, rfl, hdigit (hds c (List.mem_cons_self ..))⟩
  | @point ws fs es e hws hfs hne hes =>
    cases ws with
    | nil => exact ⟨'.', _, rfl, rfl, rfl⟩
    | cons c ws => exact ⟨c, _, rfl, hdigit (hws c (List.mem_cons_self ..))⟩

theorem byteLength_digits {ds : List Char} (hds : ∀ c ∈ ds, c.isDigit = true) :
    byteLength ds = ds.length := by
  refine byteLength_of_ascii fun c hc => ?_
  have hdigit : 48 ≤ c.val ∧ c.val ≤ 57 := by simpa [Char.isDigit] using hds c hc
  exact Nat.le_trans hdigit.2 (by decide)

theorem Numeral.byteLength_eq {word : List Char} {d : Decimal} (h : Numeral word d) :
    byteLength word = word.length := by
  have hexponent {es : List Char} {e : Int} (hes : Exponent es e) : byteLength es = es.length := by
    cases hes with
    | none => rfl
    | @some letter sign ds negative hletter hsign hds _ =>
      have hletter' : letter.utf8Size = 1 := by
        simp only [List.mem_cons, List.not_mem_nil, or_false] at hletter
        rcases hletter with rfl | rfl <;> rfl
      have hsign' : byteLength sign = sign.length := by
        simp only [List.mem_cons, Prod.mk.injEq, List.not_mem_nil, or_false] at hsign
        rcases hsign with ⟨rfl, -⟩ | ⟨rfl, -⟩ | ⟨rfl, -⟩ <;> rfl
      simp [hletter', hsign', byteLength_digits hds]
      omega
  have hpoint : '.'.utf8Size = 1 := rfl
  cases h with
  | whole hds _ hes => simp [byteLength_digits hds, hexponent hes]
  | point hws hfs _ hes =>
    simp [byteLength_digits hws, byteLength_digits hfs, hexponent hes, hpoint]
    omega

theorem tokensFrom_of_splitNumber? {c : Char} {cs rest : List Char} {d : Decimal}
    (hspace : isSpace c = false) (hsign : sign? c = none)
    (h : splitNumber? (c :: cs) = some (d, rest)) (position : Nat) :
    tokensFrom position (c :: cs) = do
      let next := position + ((c :: cs).length - rest.length)
      return (position, .operand d.toFloat) :: (← tokensFrom next rest) := by
  rw [tokensFrom]
  simp only [hspace, hsign, Bool.false_eq_true, if_false]
  split
  · next heq =>
    cases h.symm.trans heq
    rfl
  · next heq => cases h.symm.trans heq

theorem lexes : Lexes Munches tokensFrom where
  nil position := by rw [tokensFrom]
  space position c cs hc := by rw [tokensFrom, if_pos (isSpace_iff.2 hc)]
  token position word rest t hword := by
    cases hword with
    | @number word rest d hnumeral hlongest =>
      obtain ⟨c, cs, hcs, hspace, hsign⟩ := hnumeral.exists_cons
      have hsplit := splitNumber?_eq_some_iff.2 ⟨word, rfl, hnumeral, hlongest⟩
      have hnext : (word ++ rest).length - rest.length = byteLength word := by
        rw [hnumeral.byteLength_eq, List.length_append]
        omega
      subst hcs
      rw [List.cons_append] at hsplit hnext ⊢
      rw [tokensFrom_of_splitNumber? hspace hsign hsplit, hnext]
    | _ => rw [List.singleton_append, tokensFrom]; rfl
  stuck position c cs hc := by
    have hspace : isSpace c = false := by
      rw [Bool.eq_false_iff]
      exact fun h => hc (isSpace_iff.1 h)
    rw [tokensFrom]
    simp only [hspace, Bool.false_eq_true, if_false]
    split
    · next token hsign => exact .inl ⟨[c], cs, token, rfl, by simp, munches_of_sign? hsign cs⟩
    · split
      · next d rest hsplit =>
        obtain ⟨word, hcs, hnumeral, hlongest⟩ := splitNumber?_eq_some_iff.1 hsplit
        obtain ⟨c', cs', hword, -⟩ := hnumeral.exists_cons
        refine .inl ⟨word, rest, _, hcs, by simp [hword], .number hnumeral ?_⟩
        rw [← hcs]
        exact hlongest
      · exact .inr ⟨_, rfl⟩

/-! ### Parse trees -/

/-- The parse trees of arithmetic. -/
inductive Tree : Rank → Type
  | number (x : Float) : Tree .factor
  | group (t : Tree .expression) : Tree .factor
  | negation (t : Tree .factor) : Tree .factor
  | factor (t : Tree .factor) : Tree .term
  | product (l : Tree .term) (r : Tree .factor) : Tree .term
  | quotient (l : Tree .term) (r : Tree .factor) : Tree .term
  | term (t : Tree .term) : Tree .expression
  | sum (l : Tree .expression) (r : Tree .term) : Tree .expression
  | difference (l : Tree .expression) (r : Tree .term) : Tree .expression

namespace Tree

/-- The tokens of a tree, from left to right. -/
def tokens : {rank : Rank} → Tree rank → List (Token Float Sign)
  | _, number x => [.operand x]
  | _, group t => .opening :: (t.tokens ++ [.closing])
  | _, negation t => .operator .minus :: t.tokens
  | _, factor t => t.tokens
  | _, product l r => l.tokens ++ .operator .times :: r.tokens
  | _, quotient l r => l.tokens ++ .operator .over :: r.tokens
  | _, term t => t.tokens
  | _, sum l r => l.tokens ++ .operator .plus :: r.tokens
  | _, difference l r => l.tokens ++ .operator .minus :: r.tokens

/-- How many parentheses and minus signs in front of factors are within each other at most. -/
def nesting : {rank : Rank} → Tree rank → Nat
  | _, number _ => 0
  | _, group t => t.nesting + 1
  | _, negation t => t.nesting + 1
  | _, factor t => t.nesting
  | _, product l r => max l.nesting r.nesting
  | _, quotient l r => max l.nesting r.nesting
  | _, term t => t.nesting
  | _, sum l r => max l.nesting r.nesting
  | _, difference l r => max l.nesting r.nesting

/-- The value of a tree by the operations on doubles. -/
def value : {rank : Rank} → Tree rank → Float
  | _, number x => x
  | _, group t => t.value
  | _, negation t => -t.value
  | _, factor t => t.value
  | _, product l r => l.value * r.value
  | _, quotient l r => l.value / r.value
  | _, term t => t.value
  | _, sum l r => l.value + r.value
  | _, difference l r => l.value - r.value

/-- The values that a tree divides by. -/
def divisors : {rank : Rank} → Tree rank → List Float
  | _, number _ => []
  | _, group t => t.divisors
  | _, negation t => t.divisors
  | _, factor t => t.divisors
  | _, product l r => l.divisors ++ r.divisors
  | _, quotient l r => l.divisors ++ r.divisors ++ [r.value]
  | _, term t => t.divisors
  | _, sum l r => l.divisors ++ r.divisors
  | _, difference l r => l.divisors ++ r.divisors

/-- The value of a tree, unless it divides by zero. -/
def result {rank : Rank} (t : Tree rank) : Except ParseError Float :=
  if t.divisors.any (· == 0) then .error .divisionByZero else .ok t.value

/-- The divisors of two trees that are worked out one after the other. -/
theorem result_bind {rank rank' : Rank} (l : Tree rank) (r : Tree rank')
    (f : Float → Float → Except ParseError Float) :
    (do f (← l.result) (← r.result)) =
      if (l.divisors ++ r.divisors).any (· == 0) then .error .divisionByZero
      else f l.value r.value := by
  rw [List.any_append, result, result]
  by_cases hl : l.divisors.any (· == 0) = true
  · simp only [hl, Bool.true_or, if_true]
    rfl
  · by_cases hr : r.divisors.any (· == 0) = true
    · simp only [hl, hr, Bool.or_true, if_true]
      rfl
    · simp only [hl, hr, Bool.or_self]
      rfl

theorem derives {rank : Rank} (t : Tree rank) {room : Nat} (hroom : t.nesting ≤ room) :
    Derives language room rank t.tokens t.result := by
  induction t generalizing room with
  | number x => exact .operand x
  | group t ih =>
    obtain ⟨room, rfl⟩ : ∃ r, room = r + 1 := ⟨room - 1, by simp only [nesting] at hroom; omega⟩
    exact .group (ih (Nat.le_of_succ_le_succ hroom))
  | negation t ih =>
    obtain ⟨room, rfl⟩ : ∃ r, room = r + 1 := ⟨room - 1, by simp only [nesting] at hroom; omega⟩
    have hop : language.unary .minus = some fun x => -x := rfl
    have h := Derives.unary hop (ih (Nat.le_of_succ_le_succ hroom))
    have hresult : (negation t).result = do return -(← t.result) := by
      unfold result
      rw [divisors]
      split <;> rfl
    rw [hresult]
    exact h
  | factor t ih => exact .factor (ih hroom)
  | product l r ihl ihr =>
    obtain ⟨hl, hr⟩ := Nat.max_le.1 hroom
    have hop : language.tight .times = some fun x y => .ok (x * y) := rfl
    have h := Derives.tight hop (ihl hl) (ihr hr)
    rw [result_bind] at h
    exact h
  | quotient l r ihl ihr =>
    obtain ⟨hl, hr⟩ := Nat.max_le.1 hroom
    have hop : language.tight .over = some divide := rfl
    have h := Derives.tight hop (ihl hl) (ihr hr)
    have hresult : (quotient l r).result = if (l.divisors ++ r.divisors).any (· == 0) then
        .error .divisionByZero else divide l.value r.value := by
      rw [result, divisors, List.any_append, List.any_cons, List.any_nil, Bool.or_false, divide]
      by_cases hd : (l.divisors ++ r.divisors).any (· == 0) = true
      · simp only [hd, Bool.true_or, if_true]
      · simp only [hd, Bool.false_or, Bool.false_eq_true, if_false]
        rfl
    rw [result_bind, ← hresult] at h
    exact h
  | term t ih => exact .term (ih hroom)
  | sum l r ihl ihr =>
    obtain ⟨hl, hr⟩ := Nat.max_le.1 hroom
    have hop : language.loose .plus = some fun x y => x + y := rfl
    have h := Derives.loose rfl hop (ihl hl) (ihr hr)
    rw [result_bind l r fun x y => pure (x + y)] at h
    exact h
  | difference l r ihl ihr =>
    obtain ⟨hl, hr⟩ := Nat.max_le.1 hroom
    have hop : language.loose .minus = some fun x y => x - y := rfl
    have h := Derives.loose rfl hop (ihl hl) (ihr hr)
    rw [result_bind l r fun x y => pure (x - y)] at h
    exact h

theorem exists_of_derives {room : Nat} {rank : Rank} {ts : List (Token Float Sign)}
    {x : Except ParseError Float} (h : Derives language room rank ts x) :
    ∃ t : Tree rank, t.tokens = ts ∧ t.nesting ≤ room := by
  induction h with
  | operand v => exact ⟨number v, rfl, Nat.zero_le _⟩
  | @unary room op f ts x hop _ ih =>
    obtain ⟨t, rfl, ht⟩ := ih
    cases op with
    | minus => exact ⟨negation t, rfl, Nat.succ_le_succ ht⟩
    | _ => cases hop
  | group _ ih =>
    obtain ⟨t, rfl, ht⟩ := ih
    exact ⟨group t, rfl, Nat.succ_le_succ ht⟩
  | factor _ ih =>
    obtain ⟨t, rfl, ht⟩ := ih
    exact ⟨factor t, rfl, ht⟩
  | @tight room op f ts us x y hop _ _ ihl ihr =>
    obtain ⟨l, rfl, hl⟩ := ihl
    obtain ⟨r, rfl, hr⟩ := ihr
    cases op with
    | times => exact ⟨product l r, rfl, Nat.max_le.2 ⟨hl, hr⟩⟩
    | «over» => exact ⟨quotient l r, rfl, Nat.max_le.2 ⟨hl, hr⟩⟩
    | _ => cases hop
  | term _ ih =>
    obtain ⟨t, rfl, ht⟩ := ih
    exact ⟨term t, rfl, ht⟩
  | @loose room op g ts us x y _ hop _ _ ihl ihr =>
    obtain ⟨l, rfl, hl⟩ := ihl
    obtain ⟨r, rfl, hr⟩ := ihr
    cases op with
    | plus => exact ⟨sum l r, rfl, Nat.max_le.2 ⟨hl, hr⟩⟩
    | minus => exact ⟨difference l r, rfl, Nat.max_le.2 ⟨hl, hr⟩⟩
    | _ => cases hop

end Tree

/-! ### Evaluation -/

theorem evaluate_of_tree {text : String} {ts : List (Nat × Token Float Sign)} {t : Tree .expression}
    (hts : Splits Munches 0 text.toList ts) (ht : t.tokens = ts.map Prod.snd)
    (hnesting : t.nesting ≤ maxDepth) : evaluate text = t.result := by
  have h := t.derives hnesting
  rw [ht] at h
  rw [evaluate, lexes.eq_ok hts]
  exact evaluate_of_derives h

/-- A text evaluates to a number just if its longest words are the tokens of an expression that
nests at most 256 deep and divides by no zero, and the number is the value of its tree. Such an
expression that divides by zero is an error. -/
theorem evaluate_arithmetic (text : String) :
    (∀ v, evaluate text = .ok v ↔ ∃ ts, ∃ t : Tree .expression,
      Splits Munches 0 text.toList ts ∧ t.tokens = ts.map Prod.snd ∧ t.nesting ≤ 256 ∧
        (∀ y ∈ t.divisors, (y == 0) = false) ∧ v = t.value) ∧
    (∀ ts, ∀ t : Tree .expression, Splits Munches 0 text.toList ts → t.tokens = ts.map Prod.snd →
      t.nesting ≤ 256 → (∃ y ∈ t.divisors, (y == 0) = true) →
        evaluate text = .error .divisionByZero) := by
  constructor
  · intro v
    constructor
    · intro h
      have hsentence := h
      rw [evaluate] at hsentence
      cases hlex : tokensFrom 0 text.toList with
      | error e => rw [hlex] at hsentence; cases hsentence
      | ok ts =>
        rw [hlex] at hsentence
        obtain ⟨t, ht, hnesting⟩ := Tree.exists_of_derives (derives_of_evaluate hsentence)
        have hts := lexes.splits hlex
        rw [evaluate_of_tree hts ht hnesting, Tree.result] at h
        split at h
        · cases h
        · next hzero =>
          cases h
          exact ⟨ts, t, hts, ht, hnesting, by simpa using hzero, rfl⟩
    · rintro ⟨ts, t, hts, ht, hnesting, hzero, rfl⟩
      have hany : t.divisors.any (· == 0) = false := by simpa using hzero
      rw [evaluate_of_tree hts ht hnesting, Tree.result, hany]
      rfl
  · intro ts t hts ht hnesting hzero
    have hany : t.divisors.any (· == 0) = true := List.any_eq_true.2 hzero
    rw [evaluate_of_tree hts ht hnesting, Tree.result, if_pos hany]

theorem evaluate_one_over_zero : evaluate "1/0" = .error .divisionByZero := by
  have htokens : tokensFrom 0 "1/0".toList = .ok [(0, .operand (Decimal.toFloat ⟨1, 0⟩)),
      (1, .operator .over), (2, .operand (Decimal.toFloat ⟨0, 0⟩))] := by
    have hone : splitNumber? ['1', '/', '0'] = some (⟨1, 0⟩, ['/', '0']) := by decide +kernel
    have hzero : splitNumber? ['0'] = some (⟨0, 0⟩, []) := by decide +kernel
    have hend : tokensFrom 2 ['0'] = .ok [(2, .operand (Decimal.toFloat ⟨0, 0⟩))] := by
      rw [tokensFrom_of_splitNumber? rfl rfl hzero]
      simp only [lexes.nil]
      rfl
    have hslash := lexes.token 1 ['/'] ['0'] (.operator .over) (munches_of_sign? rfl ['0'])
    have hnext : 1 + byteLength ['/'] = 2 := by decide
    rw [List.singleton_append, hnext, hend] at hslash
    have htext : "1/0".toList = ['1', '/', '0'] := by decide
    rw [htext, tokensFrom_of_splitNumber? rfl rfl hone]
    simp only [List.length_cons, List.length_nil, Nat.zero_add, Nat.reduceAdd, Nat.reduceSub, hslash]
    rfl
  have hzero : (Decimal.toFloat ⟨0, 0⟩ == 0) = true := by decide
  exact (evaluate_arithmetic "1/0").2 _
    (.term (.quotient (.factor (.number (Decimal.toFloat ⟨1, 0⟩))) (.number (Decimal.toFloat ⟨0, 0⟩))))
    (lexes.splits htokens) rfl (by decide) ⟨_, List.mem_singleton.2 rfl, hzero⟩

end TypedConfig.Expression.Arithmetic
