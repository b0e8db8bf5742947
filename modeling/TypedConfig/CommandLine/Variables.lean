import TypedConfig.CommandLine.Failure
import TypedConfig.Entries
import TypedConfig.Json.Basic

/-!
# Assigning variables

`NAME=VALUE` sets a variable to a text. A dotted name leads through mappings, which are made where
nothing is; other values are not entered.
-/

namespace TypedConfig.CommandLine

/-- Sets the value at a path of keys. Fails if the path leads through something other than a
mapping. -/
def assign (value : Json) : List String → Json → Option Json
  | [], _ => some value
  | key :: keys, .object entries => do
    let old := (entries.lookup key).getD (.object [])
    return .object (Entries.insert key (← assign value keys old) entries)
  | _ :: _, _ => none

/-- The name and the value of an assignment. -/
def splitAssignment? (text : String) : Option (String × String) :=
  let cs := text.toList
  match cs.dropWhile (· != '=') with
  | [] => none
  | _ :: value => some (String.ofList (cs.takeWhile (· != '=')), String.ofList value)

/-- Carries out an assignment. -/
def assignText (externals : Json) (text : String) : Except Failure Json :=
  match splitAssignment? text with
  | none => .error (.assignment text)
  | some (name, value) =>
    let parts := Keypath.dottedParts name
    if parts.contains "" then .error (.variableName name)
    else
      match assign (.string value) parts externals with
      | some externals => .ok externals
      | none => .error (.nesting name)

/-- Carries out assignments in turn, starting from a mapping. -/
def assignAll (externals : Json) (texts : List String) : Except Failure Json :=
  match externals with
  | .object _ => texts.foldlM assignText externals
  | _ => .error .externals

end TypedConfig.CommandLine
