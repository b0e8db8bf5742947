import TypedConfig.ParseError

/-!
# Expressions with two levels of operators

Arithmetic and logic share one grammar over their tokens:

    expression := term (loose term)*
    term       := factor (tight factor)*
    factor     := operand | unary factor | '(' expression ')'

Operators of a level group to the left. `evaluate` reads the tokens once, from left to right, and
computes on the way. What is open is kept on a stack of frames, a frame for each unary operator and
each parenthesis that encloses the current place, at most `maxDepth` of them; for each parenthesis
a `Level` holds the operators that still lack their right operand.
-/

namespace TypedConfig.Expression

/-- How deep unary operators and parentheses may nest. -/
def maxDepth : Nat := 256

/-- A token of an expression. One sign may be an operator of several kinds. -/
inductive Token (α Op : Type)
  | operand (value : α)
  | operator (op : Op)
  | opening
  | closing
deriving DecidableEq, Repr

/-- What the operators of a language of expressions mean, and two of its messages: for a token
that no operand can start with, and for a parenthesis that closes nothing. -/
structure Language (α Op : Type) where
  unary : Op → Option (α → α)
  tight : Op → Option (α → α → Except ParseError α)
  loose : Op → Option (α → α → α)
  operandFault : ExpressionFault
  closingFault : ExpressionFault

variable {α Op : Type}

/-- The operators that wait for a right operand: what becomes of the factor that is read next, and
then of its term. -/
structure Level (α : Type) where
  tight : α → Except ParseError α
  loose : α → α

/-- The level at the start of an expression. -/
def Level.start : Level α := ⟨.ok, id⟩

/-- What encloses the current place: a unary operator, or a parenthesis with the level around
it. -/
inductive Frame (α : Type)
  | unary (f : α → α)
  | group (outer : Level α)

/-- Whether an operand comes next, or an operator after the value of the factors read. -/
inductive Expecting (α : Type)
  | operand
  | operator (value : α)

/-- Applies the unary operators in front of a factor, innermost first. -/
def applyUnary : List (Frame α) → α → α × List (Frame α)
  | .unary f :: frames, v => applyUnary frames (f v)
  | frames, v => (v, frames)

/-- Takes the tokens, each with its position, one after the other; `stop` is the position of the
end. -/
def evaluateFrom (lang : Language α Op) (stop : Nat) :
    Expecting α → List (Frame α) → Level α → List (Nat × Token α Op) → Except ParseError α
  | .operand, _, _, [] => .error (.malformed stop .endUnexpected)
  | .operand, frames, level, (position, token) :: tokens =>
    match token with
    | .operand value => do
      let (value, frames) := applyUnary frames value
      let value ← level.tight value
      evaluateFrom lang stop (.operator value) frames { level with tight := .ok } tokens
    | .operator op =>
      match lang.unary op with
      | none => .error (.malformed position lang.operandFault)
      | some f =>
        if frames.length < maxDepth then
          evaluateFrom lang stop .operand (.unary f :: frames) level tokens
        else .error (.malformed position .nestedTooDeeply)
    | .opening =>
      if frames.length < maxDepth then
        evaluateFrom lang stop .operand (.group level :: frames) .start tokens
      else .error (.malformed position .nestedTooDeeply)
    | .closing => .error (.malformed position lang.operandFault)
  | .operator value, frames, level, [] =>
    match frames with
    | [] => .ok (level.loose value)
    | _ :: _ => .error (.malformed stop .closingExpected)
  | .operator value, frames, level, (position, token) :: tokens =>
    let unfit : Except ParseError α :=
      .error (.malformed position (if frames.isEmpty then .trailingInput else .closingExpected))
    match token with
    | .operator op =>
      match lang.tight op, lang.loose op with
      | some f, _ => evaluateFrom lang stop .operand frames { level with tight := f value } tokens
      | none, some g =>
        evaluateFrom lang stop .operand frames ⟨.ok, g (level.loose value)⟩ tokens
      | none, none => unfit
    | .closing =>
      match frames with
      | .group outer :: frames => do
        let (value, frames) := applyUnary frames (level.loose value)
        let value ← outer.tight value
        evaluateFrom lang stop (.operator value) frames { outer with tight := .ok } tokens
      | _ => .error (.malformed position lang.closingFault)
    | _ => unfit

/-- The value of a list of tokens. -/
def evaluate (lang : Language α Op) (stop : Nat) (tokens : List (Nat × Token α Op)) :
    Except ParseError α :=
  evaluateFrom lang stop .operand [] .start tokens

end TypedConfig.Expression
