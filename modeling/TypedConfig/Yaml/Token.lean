import TypedConfig.Yaml.Text

/-!
# Tokens of YAML texts

The tokens are scalars, the marks of collections, and the marks of documents. Block collections have
no marks of their own: one starts where an entry is further to the right than the entries around it
and ends before a token that is further to the left. That something is the key of an entry shows
only when its colon is reached, so the place where it started is kept until then. A key without a
question mark lies on one line and has at most 1024 characters.
-/

namespace TypedConfig.Yaml

/-- A token of a YAML text. -/
inductive Token
  | documentStart
  | documentEnd
  | blockListStart
  | blockMappingStart
  | blockEnd
  | blockEntry
  | flowListStart
  | flowListEnd
  | flowMappingStart
  | flowMappingEnd
  | flowEntry
  | key
  | value
  | scalar (s : Scalar)
deriving DecidableEq, Repr

/-- The longest key without a question mark. -/
def maxKeyLength : Nat := 1024

/-- A place where a key may have started, with the number of the tokens before it. It is required
where the block collection around it goes on with a key or not at all. -/
structure Candidate where
  start : Mark
  place : Nat
  required : Bool
deriving DecidableEq, Repr

/-- Whether a colon at a mark comes too late for a key. -/
def Candidate.isStale (k : Candidate) (m : Mark) : Bool :=
  k.start.line < m.line || k.start.column + maxKeyLength < m.column

/-- What is left of a text, and what is known about the part before that: its tokens, the last one
first, and their number, the columns of the open block collections, whether a key may start here,
and where one may have started; `outer` has the latter for the levels around each open flow
collection. Innermost comes first. -/
structure Scan where
  mark : Mark
  rest : List Char
  tokens : List Token
  count : Nat
  columns : List Nat
  keyAllowed : Bool
  candidate : Option Candidate
  outer : List (Option Candidate)

namespace Scan

/-- A text that has not been read. -/
def start (cs : List Char) : Scan := ⟨⟨0, 0⟩, cs, [], 0, [], true, none, []⟩

/-- Whether a flow collection is open. -/
def inFlow (s : Scan) : Bool := !s.outer.isEmpty

/-- One more token. -/
def push (s : Scan) (t : Token) : Scan := { s with tokens := t :: s.tokens, count := s.count + 1 }

/-- One more token behind the first `place` ones. -/
def insert (s : Scan) (place : Nat) (t : Token) : Scan :=
  { s with tokens := s.tokens.insertIdx (s.count - place) t, count := s.count + 1 }

/-! ### Moving on -/

/-- Moves on over a token of so many characters on one line. -/
def take (s : Scan) (length : Nat) (t : Token) : Scan :=
  { s.push t with mark := s.mark.right length, rest := s.rest.drop length }

/-- Passes over blanks, comments and line ends. Outside of flow collections a tab separates only
where no key may start, and a key may start on every line. A byte order mark may start a line. -/
def passGap (flow : Bool) : (keyAllowed comment : Bool) → Mark → List Char →
    Bool × Mark × List Char
  | keyAllowed, _, m, [] => (keyAllowed, m, [])
  | keyAllowed, comment, m, c :: cs =>
    if isBreak c then passGap flow (keyAllowed || !flow) false (m.after c) cs
    else if comment || c = '#' then passGap flow keyAllowed true (m.after c) cs
    else if c = ' ' ∨ (c = '\t' ∧ (flow || !keyAllowed) = true) ∨ (c = '\ufeff' ∧ m.column = 0) then
      passGap flow keyAllowed false (m.after c) cs
    else (keyAllowed, m, c :: cs)

/-- Moves on to the next token. -/
def toToken (s : Scan) : Scan :=
  let (keyAllowed, mark, rest) := passGap s.inFlow s.keyAllowed false s.mark s.rest
  { s with keyAllowed, mark, rest }

/-! ### Keys -/

/-- Drops a candidate that a colon at a mark comes too late for; a required one is missed. -/
def refresh (m : Mark) : Option Candidate → Option (Option Candidate)
  | none => some none
  | some k => if !k.isStale m then some (some k) else if k.required then none else some none

/-- Drops the candidates that a colon comes too late for. -/
def dropStale? (s : Scan) : Option Scan := do
  return { s with
    candidate := ← refresh s.mark s.candidate
    outer := ← s.outer.mapM (refresh s.mark) }

/-- Drops the candidate of this level, which must not be required. -/
def dropCandidate? (s : Scan) : Option Scan :=
  if s.candidate.any (·.required) then none else some { s with candidate := none }

/-- Notes that a key may start here. -/
def noteCandidate? (s : Scan) : Option Scan := do
  if !s.keyAllowed then return s
  let s ← s.dropCandidate?
  let required := !s.inFlow && s.columns.head? == some s.mark.column
  return { s with candidate := some ⟨s.mark, s.count, required⟩ }

/-! ### Block collections -/

/-- Starts a block collection at a column, with its token at a place, unless the innermost one is
there or further to the right. -/
def openBlock (s : Scan) (column place : Nat) (t : Token) : Scan :=
  if s.inFlow || s.columns.head?.any (column ≤ ·) then s
  else { s.insert place t with columns := column :: s.columns }

/-- Ends the inner block collections for as long as their columns satisfy `p`. -/
def closeBlocks (s : Scan) (p : Nat → Bool) : Scan :=
  if s.inFlow then s
  else
    { (s.columns.takeWhile p).foldl (fun s _ => s.push .blockEnd) s with
      columns := s.columns.dropWhile p }

/-! ### Tokens -/

/-- Takes the mark of a document, which ends all that is open in the one before. -/
def takeBoundary? (s : Scan) (t : Token) : Option Scan := do
  let s ← (s.closeBlocks fun _ => true).dropCandidate?
  return { s.take 3 t with keyAllowed := false }

/-- Takes the mark that opens a flow collection. The collection may be a key. -/
def takeFlowStart? (s : Scan) (t : Token) : Option Scan := do
  let s ← s.noteCandidate?
  return { s.take 1 t with keyAllowed := true, candidate := none, outer := s.candidate :: s.outer }

/-- Takes the mark that closes a flow collection. -/
def takeFlowEnd? (s : Scan) (t : Token) : Option Scan := do
  let s ← s.dropCandidate?
  return { s.take 1 t with
    keyAllowed := false
    candidate := s.outer.head?.join
    outer := s.outer.tail }

/-- Takes a comma. -/
def takeFlowEntry? (s : Scan) : Option Scan := do
  let s ← s.dropCandidate?
  return { s.take 1 .flowEntry with keyAllowed := true }

/-- Takes the hyphen of an entry of a list. -/
def takeBlockEntry? (s : Scan) : Option Scan := do
  if !s.inFlow && !s.keyAllowed then none
  let s ← (s.openBlock s.mark.column s.count .blockListStart).dropCandidate?
  return { s.take 1 .blockEntry with keyAllowed := true }

/-- Takes the question mark in front of a key. -/
def takeKey? (s : Scan) : Option Scan := do
  if !s.inFlow && !s.keyAllowed then none
  let s ← (s.openBlock s.mark.column s.count .blockMappingStart).dropCandidate?
  return { s.take 1 .key with keyAllowed := !s.inFlow }

/-- Takes a colon. What stands in front of it is a key if one may have started there. -/
def takeValue? (s : Scan) : Option Scan :=
  match s.candidate with
  | some k =>
    let s := (s.insert k.place .key).openBlock k.start.column k.place .blockMappingStart
    some { s.take 1 .value with keyAllowed := false, candidate := none }
  | none =>
    if !s.inFlow && !s.keyAllowed then none
    else
      let s := s.openBlock s.mark.column s.count .blockMappingStart
      some { s.take 1 .value with keyAllowed := !s.inFlow }

/-- Takes a scalar in quotes. -/
def takeQuoted? (s : Scan) (read : Draft → List Char → Option (Draft × List Char)) :
    Option Scan := do
  let s ← s.noteCandidate?
  let (d, rest) ← read (.start (s.mark.right 1)) (s.rest.drop 1)
  return { s.push (.scalar d.quoted) with mark := d.mark.right 1, rest, keyAllowed := false }

/-- Takes a plain scalar with the gap after it; behind a line end a key may start. -/
def takePlain? (s : Scan) : Option Scan := do
  let s ← s.noteCandidate?
  let least := match s.columns with
    | [] => 0
    | column :: _ => column + 1
  let (d, rest) ← readPlain s.inFlow least (.start s.mark) s.rest
  return { s.push (.scalar d.plain) with mark := d.mark, rest, keyAllowed := d.gap.isBroken }

/-- Takes the token that starts here. -/
def takeToken? (s : Scan) : Option Scan :=
  if s.mark.column = 0 ∧ startsMark '-' s.rest = true then s.takeBoundary? .documentStart
  else if s.mark.column = 0 ∧ startsMark '.' s.rest = true then s.takeBoundary? .documentEnd
  else
    match s.rest with
    | '[' :: _ => s.takeFlowStart? .flowListStart
    | '\x7b' :: _ => s.takeFlowStart? .flowMappingStart
    | ']' :: _ => s.takeFlowEnd? .flowListEnd
    | '\x7d' :: _ => s.takeFlowEnd? .flowMappingEnd
    | ',' :: _ => s.takeFlowEntry?
    | '\'' :: _ => s.takeQuoted? readSingle
    | '"' :: _ => s.takeQuoted? readDouble
    | c :: cs =>
      if c = '-' ∧ atGap cs = true then s.takeBlockEntry?
      else if c = '?' ∧ (s.inFlow || atGap cs) = true then s.takeKey?
      else if c = ':' ∧ (s.inFlow || atGap cs) = true then s.takeValue?
      else if startsPlain s.inFlow s.rest then s.takePlain?
      else none
    | [] => none

/-- The scan of all that is left. Each round takes a token, which has a character at least. -/
def toEnd? (s : Scan) : (rounds : Nat) → Option Scan
  | 0 => none
  | rounds + 1 => do
    let s ← s.toToken.dropStale?
    if s.rest.isEmpty then (s.closeBlocks fun _ => true).dropCandidate?
    else
      let s ← (s.closeBlocks (s.mark.column < ·)).takeToken?
      s.toEnd? rounds
termination_by structural rounds => rounds

end Scan

/-- The tokens of a text. -/
def tokens? (cs : List Char) : Option (List Token) :=
  ((Scan.start cs).toEnd? (cs.length + 1)).map (·.tokens.reverse)

end TypedConfig.Yaml
