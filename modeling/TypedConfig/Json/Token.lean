import TypedConfig.Json.Numeral

/-!
# Tokens of JSON texts

Brackets, separators and scalars. A scalar is read whole, so that what is left to the grammar is
how the tokens nest.
-/

namespace TypedConfig.Json

/-- A token of a JSON text. -/
inductive Token
  | arrayStart
  | arrayEnd
  | objectStart
  | objectEnd
  | comma
  | colon
  | text (s : String)
  | scalar (j : Json)

/-- Blanks between tokens. -/
def isSpace (c : Char) : Bool := c == ' ' || c == '\t' || c == '\n' || c == '\r'

/-- The value of a hexadecimal digit. -/
def hexDigit? (c : Char) : Option Nat :=
  if '0' ≤ c ∧ c ≤ '9' then some (c.toNat - '0'.toNat)
  else if 'a' ≤ c ∧ c ≤ 'f' then some (c.toNat - 'a'.toNat + 10)
  else if 'A' ≤ c ∧ c ≤ 'F' then some (c.toNat - 'A'.toNat + 10)
  else none

/-- The number that four hexadecimal digits stand for. -/
def hex4? (a b c d : Char) : Option Nat := do
  return (((← hexDigit? a) * 16 + (← hexDigit? b)) * 16 + (← hexDigit? c)) * 16 + (← hexDigit? d)

/-- What a letter after a backslash stands for. -/
def unescape? : Char → Option Char
  | '"' => some '"'
  | '\\' => some '\\'
  | '/' => some '/'
  | 'b' => some '\x08'
  | 'f' => some '\x0c'
  | 'n' => some '\n'
  | 'r' => some '\r'
  | 't' => some '\t'
  | _ => none

/-- The character of a code unit that is not half of a pair. -/
def unit? (n : Nat) : Option Char :=
  if n < 0xD800 || 0xE000 ≤ n then some (Char.ofNat n) else none

/-- The character of a pair of code units. -/
def pair? (high low : Nat) : Option Char :=
  if 0xD800 ≤ high ∧ high < 0xDC00 ∧ 0xDC00 ≤ low ∧ low < 0xE000 then
    some (Char.ofNat (0x10000 + (high - 0xD800) * 0x400 + (low - 0xDC00)))
  else none

/-- The rest of a string literal after its opening quote; `done` is what was read, reversed. -/
def readString (done : List Char) : List Char → Option (String × List Char)
  | '"' :: cs => some (String.ofList done.reverse, cs)
  | '\\' :: 'u' :: a :: b :: c :: d :: cs =>
    match hex4? a b c d with
    | none => none
    | some n =>
      match unit? n with
      | some ch => readString (ch :: done) cs
      | none =>
        match cs with
        | '\\' :: 'u' :: a :: b :: c :: d :: cs =>
          match (hex4? a b c d).bind (pair? n) with
          | some ch => readString (ch :: done) cs
          | none => none
        | _ => none
  | '\\' :: c :: cs =>
    match unescape? c with
    | some ch => readString (ch :: done) cs
    | none => none
  | c :: cs => if c.toNat < 0x20 then none else readString (c :: done) cs
  | [] => none

/-- The first token of a text that does not start with a blank. -/
def readToken : List Char → Option (Token × List Char)
  | '[' :: cs => some (.arrayStart, cs)
  | ']' :: cs => some (.arrayEnd, cs)
  | '\x7b' :: cs => some (.objectStart, cs)
  | '\x7d' :: cs => some (.objectEnd, cs)
  | ',' :: cs => some (.comma, cs)
  | ':' :: cs => some (.colon, cs)
  | '"' :: cs => (readString [] cs).map fun (s, rest) => (.text s, rest)
  | 'n' :: 'u' :: 'l' :: 'l' :: cs => some (.scalar .null, cs)
  | 't' :: 'r' :: 'u' :: 'e' :: cs => some (.scalar (.bool true), cs)
  | 'f' :: 'a' :: 'l' :: 's' :: 'e' :: cs => some (.scalar (.bool false), cs)
  | cs => (readNumber cs).map fun (n, rest) => (.scalar (.number n), rest)

/-- The tokens of a text. Each token is shorter than the text, so as many rounds as there are
characters suffice. -/
def tokens? (cs : List Char) : Option (List Token) := go cs.length cs []
where
  go : Nat → List Char → List Token → Option (List Token)
    | rounds, cs, done =>
      match cs.dropWhile isSpace, rounds with
      | [], _ => some done.reverse
      | _, 0 => none
      | cs, rounds + 1 =>
        match readToken cs with
        | some (t, rest) => go rounds rest (t :: done)
        | none => none

end TypedConfig.Json
