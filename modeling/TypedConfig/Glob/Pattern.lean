import TypedConfig.Text.Numeral

/-!
# Glob patterns

`?` stands for a character, `*` for any characters, `[…]` for one of a set or, after `!`, for one
outside of it, and `**` as a whole component for any directories.
-/

namespace TypedConfig.Glob

/-- A set of characters: single ones and ranges with both ends. -/
inductive Specifier
  | single (c : Char)
  | range (first last : Char)
deriving DecidableEq, Repr

/-- Whether a character is in a set. -/
def Specifier.holds (c : Char) : Specifier → Bool
  | single d => c == d
  | range first last => first ≤ c && c ≤ last

/-- A token of a pattern. -/
inductive Token
  | char (c : Char)
  | anyChar
  | anySequence
  | anyDirectories
  | within (set : List Specifier)
  | except (set : List Specifier)
deriving DecidableEq, Repr

/-- What can be wrong with a pattern. -/
inductive Fault
  | wildcards
  | recursiveWildcards
  | range
deriving DecidableEq, Repr

/-- The wording of a fault. -/
def Fault.message : Fault → String
  | wildcards => "wildcards are either regular `*` or recursive `**`"
  | recursiveWildcards => "recursive wildcards must form a single path component"
  | range => "invalid range pattern"

/-- A fault with its position, counted in characters. -/
structure PatternError where
  position : Nat
  fault : Fault
deriving DecidableEq, Repr

/-- The message of an error. -/
def PatternError.message (e : PatternError) : String :=
  "Pattern syntax error near position " ++ Text.numeral e.position ++ ": " ++ e.fault.message

/-- The members of a set as written. -/
def specifiers : List Char → List Specifier
  | a :: '-' :: b :: cs => .range a b :: specifiers cs
  | c :: cs => .single c :: specifiers cs
  | [] => []

/-- The set after an opening bracket, and the rest. The first member may be a closing bracket. -/
def readSet (cs : List Char) : Option (Token × List Char) :=
  let (negated, cs) := match cs with
    | '!' :: cs => (true, cs)
    | cs => (false, cs)
  match cs with
  | [] => none
  | c :: cs =>
    match cs.dropWhile (· != ']') with
    | [] => none
    | _ :: rest =>
      let set := specifiers (c :: cs.takeWhile (· != ']'))
      some (if negated then .except set else .within set, rest)

/-- The tokens of a pattern from a position on; `fresh` says whether a component starts there. Each
round takes a character at least. -/
def tokensFrom : (rounds position : Nat) → (fresh : Bool) → List Char →
    Except PatternError (List Token)
  | 0, _, _, _ => .ok []
  | _, _, _, [] => .ok []
  | rounds + 1, position, fresh, c :: cs =>
    match c with
    | '?' => do return .anyChar :: (← tokensFrom rounds (position + 1) false cs)
    | '*' =>
      match cs with
      | '*' :: '*' :: _ => .error ⟨position + 2, .wildcards⟩
      | '*' :: rest =>
        if !fresh then .error ⟨position - 1, .recursiveWildcards⟩
        else
          match rest with
          | [] => .ok [.anyDirectories]
          | '/' :: rest => do
            return .anyDirectories :: (← tokensFrom rounds (position + 3) true rest)
          | _ => .error ⟨position + 2, .recursiveWildcards⟩
      | _ => do return .anySequence :: (← tokensFrom rounds (position + 1) false cs)
    | '[' =>
      match readSet cs with
      | none => .error ⟨position, .range⟩
      | some (token, rest) => do
        let next := position + 1 + (cs.length - rest.length)
        return token :: (← tokensFrom rounds next false rest)
    | c => do return .char c :: (← tokensFrom rounds (position + 1) (c == '/') cs)

/-- The tokens of a pattern. -/
def tokens (pattern : List Char) : Except PatternError (List Token) :=
  tokensFrom pattern.length 0 true pattern

/-- All ends of a text, the whole of it first. -/
def suffixes : List Char → List (List Char)
  | [] => [[]]
  | c :: cs => (c :: cs) :: suffixes cs

/-- Whether tokens stand for a text. -/
def holds : List Token → List Char → Bool
  | [], cs => cs.isEmpty
  | .anySequence :: ts, cs => (suffixes cs).any fun rest => holds ts rest
  | .anyDirectories :: ts, cs => (suffixes cs).any fun rest => holds ts rest
  | _ :: _, [] => false
  | .char d :: ts, c :: cs => c == d && holds ts cs
  | .anyChar :: ts, _ :: cs => holds ts cs
  | .within set :: ts, c :: cs => set.any (Specifier.holds c) && holds ts cs
  | .except set :: ts, c :: cs => !set.any (Specifier.holds c) && holds ts cs

/-- The text of tokens that stand for themselves alone. -/
def literal? : List Token → Option (List Char)
  | [] => some []
  | .char c :: ts => (literal? ts).map (c :: ·)
  | _ => none

end TypedConfig.Glob
