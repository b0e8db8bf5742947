import TypedConfig.Entries
import TypedConfig.Json.Token

/-!
# Reading JSON texts

A JSON text is read token by token. The containers that are open form a stack, innermost first;
a token either opens a container, or completes a value that goes into the innermost container, or
closes that one. How deep containers may nest is a parameter.
-/

namespace TypedConfig.Json

/-- An open container with what it holds so far. -/
inductive Frame
  | array (reversed : List Json)
  | object (entries : List (String × Json))
  | entry (entries : List (String × Json)) (key : String)

/-- What has been read, and what may come next. -/
inductive Reading
  | value (stack : List Frame)
  | valueOrEnd (stack : List Frame)
  | separator (stack : List Frame)
  | key (stack : List Frame)
  | keyOrEnd (stack : List Frame)
  | colon (stack : List Frame)
  | complete (j : Json)

namespace Reading

/-- Puts a complete value into the innermost container. -/
def put (j : Json) : List Frame → Option Reading
  | [] => some (complete j)
  | .array items :: stack => some (separator (.array (j :: items) :: stack))
  | .entry entries k :: stack => some (separator (.object (Entries.insert k j entries) :: stack))
  | .object _ :: _ => none

/-- Takes a token where a value may stand. -/
def takeValue (maxDepth : Nat) (stack : List Frame) : Token → Option Reading
  | .scalar j => put j stack
  | .text s => put (.string s) stack
  | .arrayStart => if stack.length < maxDepth then some (valueOrEnd (.array [] :: stack)) else none
  | .objectStart => if stack.length < maxDepth then some (keyOrEnd (.object [] :: stack)) else none
  | _ => none

/-- Takes a token that closes the innermost container. -/
def close : List Frame → Token → Option Reading
  | .array items :: stack, .arrayEnd => put (.array items.reverse) stack
  | .object entries :: stack, .objectEnd => put (.object entries) stack
  | _, _ => none

/-- Takes the key of an entry. -/
def takeKey : List Frame → Token → Option Reading
  | .object entries :: stack, .text k => some (colon (.entry entries k :: stack))
  | _, _ => none

/-- One step of reading. -/
def step (maxDepth : Nat) : Reading → Token → Option Reading
  | value stack, t => takeValue maxDepth stack t
  | valueOrEnd stack, t => close stack t <|> takeValue maxDepth stack t
  | keyOrEnd stack, t => close stack t <|> takeKey stack t
  | key stack, t => takeKey stack t
  | colon stack, .colon => some (value stack)
  | separator (.array items :: stack), .comma => some (value (.array items :: stack))
  | separator (.object entries :: stack), .comma => some (key (.object entries :: stack))
  | separator stack, t => close stack t
  | _, _ => none

end Reading

/-- The document that a text holds, if containers nest no deeper than `maxDepth`. -/
def ofText? (maxDepth : Nat) (cs : List Char) : Option Json := do
  let ts ← tokens? cs
  match ← ts.foldlM (Reading.step maxDepth) (.value []) with
  | .complete j => some j
  | _ => none

end TypedConfig.Json
