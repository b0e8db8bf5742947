import TypedConfig.Expression.Basic

/-!
# Logic

Disjunctions, conjunctions and negations of `true` and `false`. The words are read without regard to
ASCII case and as long as possible, so that a keyword is not found within a longer word.
-/

namespace TypedConfig.Expression.Logic

open Text

/-- The connectives. -/
inductive Connective
  | or
  | and
  | not
deriving DecidableEq, Repr

/-- The language of logic. -/
def language : Language Bool Connective where
  unary
    | .not => some not
    | _ => none
  tight
    | .and => some fun a b => .ok (a && b)
    | _ => none
  loose
    | .or => some or
    | _ => none
  operandFault := .truthExpected
  closingFault := .trailingInput

/-! ### Tokens -/

/-- Blanks between tokens. -/
def isSpace (c : Char) : Bool := c == ' ' || c == '\t' || c == '\r' || c == '\n'

/-- What a word can start with. -/
def isWordStart (c : Char) : Bool := c.isAlpha || c == '_'

/-- What a word can go on with. -/
def isWordRest (c : Char) : Bool := c.isAlphanum || c == '_'

/-- The token of a keyword. -/
def keyword? (word : List Char) : Option (Token Bool Connective) :=
  match String.ofList (word.map Char.toLower) with
  | "true" => some (.operand true)
  | "false" => some (.operand false)
  | "and" => some (.operator .and)
  | "or" => some (.operator .or)
  | "not" => some (.operator .not)
  | _ => none

/-- The tokens of a text that starts at a position. -/
def tokensFrom (position : Nat) :
    List Char → Except ParseError (List (Nat × Token Bool Connective))
  | [] => .ok []
  | c :: cs =>
    if isSpace c then tokensFrom (position + 1) cs
    else if c = '(' then do return (position, .opening) :: (← tokensFrom (position + 1) cs)
    else if c = ')' then do return (position, .closing) :: (← tokensFrom (position + 1) cs)
    else if isWordStart c then
      let word := c :: cs.takeWhile isWordRest
      match keyword? word with
      | some token => do
        let rest ← tokensFrom (position + word.length) (cs.dropWhile isWordRest)
        return (position, token) :: rest
      | none => .error (.malformed position (.unknownWord word))
    else .error (.malformed position (.unexpectedInput c))
termination_by cs => cs.length
decreasing_by
  · simp
  · simp
  · simp
  · exact Nat.lt_succ_of_le (List.dropWhile_sublist _).length_le

/-- The truth value of an expression. -/
def evaluate (text : String) : Except ParseError Bool := do
  let cs := text.toList
  Expression.evaluate language (byteLength cs) (← tokensFrom 0 cs)

end TypedConfig.Expression.Logic
