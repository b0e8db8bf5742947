import TypedConfig.CommandLine.Command
import TypedConfig.CommandLine.Path
import TypedConfig.CommandLine.Variables
import TypedConfig.Json.Printer
import TypedConfig.Json.Reader
import TypedConfig.Resolver
import TypedConfig.Yaml.Document

/-!
# Running commands

All inputs are resolved before the first result is put out. Results and reports of failures come in
the order of the inputs, and an input that fails does not keep the others from being put out.
-/

namespace TypedConfig.CommandLine

/-- How deep the containers of a JSON file may nest. -/
def maxJsonDepth : Nat := 127

/-- The format of a file, by its extension. -/
def formatOf (path : String) : Format :=
  match extension? path with
  | some "yaml" => .yaml
  | some "yml" => .yaml
  | _ => .json

/-- The document that the content of a file holds. -/
def Format.read? (content : String) : Format → Option Json
  | json => Json.ofText? maxJsonDepth content.toList
  | yaml => Yaml.ofText? content.toList

section

variable {m : Type → Type} [Monad m] (host : Host m)

/-- Fails for the reason that an outcome gives. -/
def orFail {α ε : Type} (reason : ε → Failure) (outcome : m (Except ε α)) :
    ExceptT Failure m α := do
  match ← outcome with
  | .ok a => return a
  | .error e => throw (reason e)

/-- The document in a file. -/
def loadDocument (path : String) : ExceptT Failure m Json := do
  let content ← orFail (.read path) (host.read path)
  let format := formatOf path
  match format.read? content with
  | some j => return j
  | none => throw (.document format path)

/-- The schema that the document in a file defines. -/
def loadSchema (path : String) : ExceptT Failure m Schema := do
  let definition ← loadDocument host path
  orFail (.schema path) (pure (schemaOf definition))

/-- The variables: those in a file, or none, and then the assigned ones. -/
def loadVariables (o : ResolveOptions) : ExceptT Failure m Json := do
  let externals ← match o.externals with
    | some path => loadDocument host path
    | none => pure (.object [])
  orFail id (pure (assignAll externals o.assignments))

/-- Whether an input is a pattern. -/
def isPattern (input : String) : Bool := input.toList.any ['*', '?', '[', '\x7b'].contains

/-- The paths that an input stands for. -/
def expandInput (input : String) : ExceptT Failure m (List String) := do
  if isPattern input then
    match Glob.paths input (← host.tree) with
    | .error e => throw (.pattern input e)
    | .ok [] => throw (.noMatch input)
    | .ok paths => return paths
  else return [input]

/-- The outcome for the configuration in a file. -/
def resolveFile (r : Resolver) (path : String) : m (Except Failure Value) := ExceptT.run do
  let raw ← loadDocument host path
  orFail .resolution (pure (r.resolve raw))

/-- The file for the result of an input. -/
def resultPath (directory input : String) : String :=
  join directory (stem input ++ ".resolved.json")

/-- Puts out a result. -/
def putOut (o : ResolveOptions) (path : String) (v : Value) : ExceptT Failure m Unit := do
  match o.outDirectory with
  | some directory =>
    let target := resultPath directory path
    orFail (.makeDirectories directory) (host.makeDirectories directory)
    orFail (.write target) (host.write target v.toJson.pretty)
  | none => host.print ((if o.compact then v.toJson.compact else v.toJson.pretty) ++ "\n")

/-- Puts out the results of inputs and reports the failures, and counts those. -/
def putOutAll (o : ResolveOptions) : List (String × Except Failure Value) → m Nat
  | [] => return 0
  | (path, outcome) :: rest => do
    let done ← match outcome with
      | .ok v => (putOut host o path v).run
      | .error e => pure (.error e)
    match done with
    | .ok () => putOutAll o rest
    | .error e => do
      host.complain (e.report path)
      return 1 + (← putOutAll o rest)

/-- Resolves inputs. -/
def runResolve (o : ResolveOptions) : ExceptT Failure m Unit := do
  let schema ← loadSchema host o.schema
  let externals ← loadVariables host o
  let paths := (← o.inputs.mapM (expandInput host)).flatten
  let r : Resolver := ⟨schema, { Settings.initial with externals, selfName := o.selfName }⟩
  let outcomes ← paths.mapM fun path => do return (path, ← ExceptT.lift (resolveFile host r path))
  let failed ← (putOutAll host o outcomes : m Nat)
  if failed ≠ 0 then throw (.inputs failed paths.length)

/-- Runs a command. -/
def Command.run : Command → ExceptT Failure m Unit
  | resolve o =>
    if o.showOnly then host.complain ((resolve o).shown.text ++ "\n") else runResolve host o
  | check schema => do
    let _ ← loadSchema host schema
    host.print "ok\n"

end

end TypedConfig.CommandLine
