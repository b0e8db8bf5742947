import TypedConfig.Entries
import TypedConfig.Yaml.Token

/-!
# YAML documents

How the tokens of a text make a document. Covered are block and flow collections, plain and quoted
scalars, and comments; texts with anything else have no document. Keys are scalars, and a key that
comes again replaces the value it had. What may stand somewhere and does not is null.
-/

namespace TypedConfig.Yaml

/-- How deep collections may nest. -/
def maxDepth : Nat := 128

/-- Whether the tokens go on with one of those that may follow an empty node. -/
def endsBefore (followers : List Token) : List Token → Bool
  | [] => false
  | t :: _ => followers.contains t

/-- The tokens that may follow an empty entry of a block mapping. -/
def afterBlockNode : List Token := [.key, .value, .blockEnd]

/-- A key, which is empty in front of any of `followers`. -/
def readKey? (followers : List Token) : List Token → Option (String × List Token)
  | .scalar s :: ts => some (String.ofList s.text, ts)
  | ts => if endsBefore followers ts then some ("", ts) else none

mutual

/-- The document of a node and the tokens after it; `block` says whether a block collection may be
there, `flat` whether that may be a list without a start of its own. At most `depth` collections
nest in the node. -/
def readNode? (block flat : Bool) (depth : Nat) (ts : List Token) :
    (rounds : Nat) → Option (Json × List Token)
  | 0 => none
  | rounds + 1 =>
    match depth, ts with
    | _, .scalar s :: ts => s.toJson?.map (·, ts)
    | depth + 1, .flowListStart :: ts => readFlowList? depth [] ts rounds
    | depth + 1, .flowMappingStart :: ts => readFlowMapping? depth [] ts rounds
    | depth + 1, .blockListStart :: ts => if block then readBlockList? depth [] ts rounds else none
    | depth + 1, .blockMappingStart :: ts =>
      if block then readBlockMapping? depth [] ts rounds else none
    | depth + 1, .blockEntry :: _ => if flat then readFlatList? depth [] ts rounds else none
    | _, _ => none
termination_by structural rounds => rounds

/-- A node, or null in front of any of `followers`. -/
def readNullable? (block flat : Bool) (followers : List Token) (depth : Nat) (ts : List Token) :
    (rounds : Nat) → Option (Json × List Token)
  | 0 => none
  | rounds + 1 =>
    if endsBefore followers ts then some (.null, ts) else readNode? block flat depth ts rounds
termination_by structural rounds => rounds

/-- What follows the mark for a value, or null if there is none. -/
def readValue? (block : Bool) (followers : List Token) (depth : Nat) (ts : List Token) :
    (rounds : Nat) → Option (Json × List Token)
  | 0 => none
  | rounds + 1 =>
    match ts with
    | .value :: ts => readNullable? block block followers depth ts rounds
    | ts => some (.null, ts)
termination_by structural rounds => rounds

/-- The rest of a block list, with the items before it, reversed. -/
def readBlockList? (depth : Nat) (items : List Json) (ts : List Token) :
    (rounds : Nat) → Option (Json × List Token)
  | 0 => none
  | rounds + 1 =>
    match ts with
    | .blockEntry :: ts => do
      let (j, ts) ← readNullable? true false [.blockEntry, .blockEnd] depth ts rounds
      readBlockList? depth (j :: items) ts rounds
    | .blockEnd :: ts => some (.array items.reverse, ts)
    | _ => none
termination_by structural rounds => rounds

/-- The rest of a list that starts at the column of the mapping it is a value of. -/
def readFlatList? (depth : Nat) (items : List Json) (ts : List Token) :
    (rounds : Nat) → Option (Json × List Token)
  | 0 => none
  | rounds + 1 =>
    match ts with
    | .blockEntry :: ts => do
      let (j, ts) ← readNullable? true false (.blockEntry :: afterBlockNode) depth ts rounds
      readFlatList? depth (j :: items) ts rounds
    | ts => some (.array items.reverse, ts)
termination_by structural rounds => rounds

/-- The rest of a block mapping, with the entries before it. -/
def readBlockMapping? (depth : Nat) (entries : List (String × Json)) (ts : List Token) :
    (rounds : Nat) → Option (Json × List Token)
  | 0 => none
  | rounds + 1 =>
    match ts with
    | .key :: ts => do
      let (k, ts) ← readKey? afterBlockNode ts
      let (v, ts) ← readValue? true afterBlockNode depth ts rounds
      readBlockMapping? depth (Entries.insert k v entries) ts rounds
    | .blockEnd :: ts => some (.object entries, ts)
    | _ => none
termination_by structural rounds => rounds

/-- A list item that is a mapping of one entry. A key that is not there takes the mark after it
along. -/
def readPair? (depth : Nat) (ts : List Token) : (rounds : Nat) → Option (Json × List Token)
  | 0 => none
  | rounds + 1 => do
    let followers := [.flowEntry, .flowListEnd]
    let (k, ts) ← match ts with
      | .scalar s :: ts => some (String.ofList s.text, ts)
      | t :: ts => if (.value :: followers).contains t then some ("", ts) else none
      | [] => none
    match depth with
    | 0 => none
    | depth + 1 =>
      let (v, ts) ← readValue? false followers depth ts rounds
      return (.object [(k, v)], ts)
termination_by structural rounds => rounds

/-- The rest of a list in brackets, with the items before it, reversed. -/
def readFlowList? (depth : Nat) (items : List Json) (ts : List Token) :
    (rounds : Nat) → Option (Json × List Token)
  | 0 => none
  | rounds + 1 =>
    match ts with
    | .flowListEnd :: ts => some (.array items.reverse, ts)
    | ts => do
      let (j, ts) ← match ts with
        | .key :: ts => readPair? depth ts rounds
        | ts => readNode? false false depth ts rounds
      match ts with
      | .flowEntry :: ts => readFlowList? depth (j :: items) ts rounds
      | .flowListEnd :: ts => return (.array (j :: items).reverse, ts)
      | _ => none
termination_by structural rounds => rounds

/-- The rest of a mapping in braces, with the entries before it. What has no colon is a key. -/
def readFlowMapping? (depth : Nat) (entries : List (String × Json)) (ts : List Token) :
    (rounds : Nat) → Option (Json × List Token)
  | 0 => none
  | rounds + 1 =>
    match ts with
    | .flowMappingEnd :: ts => some (.object entries, ts)
    | ts => do
      let followers := [.flowEntry, .flowMappingEnd]
      let (k, v, ts) ← match ts with
        | .key :: ts => do
          let (k, ts) ← readKey? (.value :: followers) ts
          let (v, ts) ← readValue? false followers depth ts rounds
          pure (k, v, ts)
        | ts => (readKey? [] ts).map fun (k, ts) => (k, .null, ts)
      let entries := Entries.insert k v entries
      match ts with
      | .flowEntry :: ts => readFlowMapping? depth entries ts rounds
      | .flowMappingEnd :: ts => return (.object entries, ts)
      | _ => none
termination_by structural rounds => rounds

end

/-- The one document that tokens make, null if there are none. Marks of its end may follow it. -/
def ofTokens? (ts : List Token) : Option Json := do
  let rounds := 4 * ts.length + 4
  let (j, ts) ← match ts with
    | [] => some (.null, [])
    | .documentStart :: [] => some (.null, [])
    | .documentStart :: ts =>
      readNullable? true false [.documentStart, .documentEnd] maxDepth ts rounds
    | ts => readNode? true false maxDepth ts rounds
  if ts.all (· == .documentEnd) then return j else none

/-- Every way to end a line, but for the separators of Unicode, becomes a line feed. -/
def withLineFeeds : List Char → List Char
  | '\r' :: '\n' :: cs => '\n' :: withLineFeeds cs
  | c :: cs => (if c = '\r' ∨ c = '\u0085' then '\n' else c) :: withLineFeeds cs
  | [] => []

/-- The characters that a text may contain. -/
def isAllowed (c : Char) : Bool :=
  let n := c.toNat
  n == 0x9 || n == 0xA || n == 0xD || (0x20 ≤ n && n ≤ 0x7E) || n == 0x85 ||
    (0xA0 ≤ n && n ≤ 0xFFFD) || 0x10000 ≤ n

/-- The document that a text holds. A byte order mark before it is dropped. -/
def ofText? (cs : List Char) : Option Json := do
  let cs := match cs with
    | '\ufeff' :: cs => cs
    | cs => cs
  if !cs.all isAllowed then none
  ofTokens? (← tokens? (withLineFeeds cs))

end TypedConfig.Yaml
