import TypedConfig.Decimal.Layout
import TypedConfig.Json.Basic
import TypedConfig.Text.Quoted

/-!
# Written JSON

`Json.compact` has no blanks; `Json.pretty` puts each item on a line of its own, indented by two
blanks a level. Strings escape quotes, backslashes and control characters only.
-/

namespace TypedConfig.Json

open Text

/-- A character as it stands in a JSON string. -/
def escaped (c : Char) : List Char :=
  if c = '"' then ['\\', '"']
  else if c = '\\' then ['\\', '\\']
  else if c = '\n' then ['\\', 'n']
  else if c = '\r' then ['\\', 'r']
  else if c = '\t' then ['\\', 't']
  else if c.toNat = 0x8 then ['\\', 'b']
  else if c.toNat = 0xC then ['\\', 'f']
  else if c.toNat < 0x20 then
    let ds := hexadecimal c.toNat
    '\\' :: 'u' :: (List.replicate (4 - ds.length) '0' ++ ds)
  else [c]

/-- A JSON string literal. -/
def stringText (s : String) : String :=
  String.ofList ('"' :: (s.toList.flatMap escaped ++ ['"']))

/-- A written number. -/
def Number.text : Number → String
  | whole n _ => numeral n
  | double x _ => Decimal.jsonText x

mutual

/-- The form without blanks. -/
def compact : Json → String
  | null => "null"
  | bool b => if b then "true" else "false"
  | number n => n.text
  | string s => stringText s
  | array items => "[" ++ ",".intercalate (compactItems items) ++ "]"
  | object entries => "\x7b" ++ ",".intercalate (compactEntries entries) ++ "\x7d"

/-- The items of an array. -/
def compactItems : List Json → List String
  | [] => []
  | j :: js => compact j :: compactItems js

/-- The entries of an object. -/
def compactEntries : List (String × Json) → List String
  | [] => []
  | (k, j) :: js => (stringText k ++ ":" ++ compact j) :: compactEntries js

end

/-- A new line, indented to a level. -/
def newLine (level : Nat) : String := String.ofList ('\n' :: List.replicate (2 * level) ' ')

/-- Written items between brackets, one on a line; brackets around nothing stay together. -/
def block (opening closing : String) (level : Nat) (items : List String) : String :=
  if items.isEmpty then opening ++ closing
  else
    let gap := newLine (level + 1)
    opening ++ gap ++ ("," ++ gap).intercalate items ++ newLine level ++ closing

mutual

/-- The indented form at a level. -/
def prettyAt (level : Nat) : Json → String
  | array items => block "[" "]" level (prettyItems (level + 1) items)
  | object entries => block "\x7b" "\x7d" level (prettyEntries (level + 1) entries)
  | null => "null"
  | bool b => if b then "true" else "false"
  | number n => n.text
  | string s => stringText s

/-- The items of an array. -/
def prettyItems (level : Nat) : List Json → List String
  | [] => []
  | j :: js => prettyAt level j :: prettyItems level js

/-- The entries of an object. -/
def prettyEntries (level : Nat) : List (String × Json) → List String
  | [] => []
  | (k, j) :: js => (stringText k ++ ": " ++ prettyAt level j) :: prettyEntries level js

end

/-- The indented form. -/
def pretty (j : Json) : String := prettyAt 0 j

/-- The text of a scalar before it is parsed: a string is its own text. -/
def scalarText : Json → String
  | string s => s
  | j => j.compact

end TypedConfig.Json
