import TypedConfig.Text.Quoted

/-!
# Commands

What the command line can be asked to do, and the form in which a command shows itself when it is
asked to do nothing else: a record with one field a line, nested by indentation.
-/

namespace TypedConfig.CommandLine

/-- What to resolve and where the results go. -/
structure ResolveOptions where
  schema : String
  inputs : List String
  externals : Option String
  assignments : List String
  selfName : String
  outDirectory : Option String
  compact : Bool
  showOnly : Bool
deriving DecidableEq, Repr

/-- Resolve inputs against a schema, or check a schema. -/
inductive Command
  | resolve (options : ResolveOptions)
  | check (schema : String)
deriving DecidableEq, Repr

/-! ### The shown form -/

/-- The shown form of a path: quoted, and single quotes too have a backslash. -/
def quotedPath (s : String) : String :=
  String.ofList <| (Text.quoted s).toList.flatMap fun c => if c = '\'' then ['\\', '\''] else [c]

/-- What is shown: a text as it is, or a name with parts between brackets, a line each. -/
inductive Shown
  | atom (text : String)
  | group (opening : String) (parts : List (String × Shown)) (closing : String)

namespace Shown

mutual

/-- The shown form at a depth of indentation. -/
def textAt (depth : Nat) : Shown → String
  | atom text => text
  | group opening [] closing => opening ++ closing
  | group opening parts closing =>
    opening ++ "\n" ++ partsAt depth parts ++ String.ofList (List.replicate (4 * depth) ' ') ++
      closing

/-- The parts of a group, indented one step more; a part is named or not. -/
def partsAt (depth : Nat) : List (String × Shown) → String
  | [] => ""
  | (label, part) :: parts =>
    String.ofList (List.replicate (4 * (depth + 1)) ' ') ++ label ++ textAt (depth + 1) part ++
      ",\n" ++ partsAt depth parts

end

/-- The shown form. -/
def text (s : Shown) : String := s.textAt 0

/-- A record with named fields. -/
def record (name : String) (fields : List (String × Shown)) : Shown :=
  group (name ++ " \x7b") (fields.map fun (label, part) => (label ++ ": ", part)) "\x7d"

/-- A name with one part. -/
def wrapped (name : String) (part : Shown) : Shown := group (name ++ "(") [("", part)] ")"

/-- A list of texts. -/
def texts (ss : List String) : Shown :=
  group "[" (ss.map fun s => ("", atom (Text.quoted s))) "]"

/-- A path that may be missing. -/
def optionalPath : Option String → Shown
  | none => atom "None"
  | some s => wrapped "Some" (atom (quotedPath s))

/-- A truth value. -/
def truth (b : Bool) : Shown := atom (if b then "true" else "false")

end Shown

/-- The parts of the options, as shown. -/
def ResolveOptions.shown (o : ResolveOptions) : Shown :=
  .record "ResolveOut" [
    ("input_settings", .record "InputSettings" [
      ("schema", .atom (quotedPath o.schema)),
      ("input", .texts o.inputs)]),
    ("variables", .record "VariableSettings" [
      ("vars", .optionalPath o.externals),
      ("var", .texts o.assignments),
      ("self_prefix", .atom (Text.quoted o.selfName))]),
    ("out_dir", .optionalPath o.outDirectory),
    ("ndjson", .truth o.compact),
    ("no_op", .truth o.showOnly)]

/-- The form in which a command shows itself. -/
def Command.shown : Command → Shown
  | resolve o => .record "CommandLineInterface" [("cmd", .wrapped "Resolve" o.shown)]
  | check schema =>
    .record "CommandLineInterface" [("cmd", .wrapped "Check"
      (.record "CheckSchema" [("schema", .atom (quotedPath schema))]))]

end TypedConfig.CommandLine
