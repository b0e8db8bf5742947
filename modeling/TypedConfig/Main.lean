import TypedConfig.CommandLine.Arguments
import TypedConfig.CommandLine.Run

/-!
# The program

The host that works on the files of the system, and the program that runs the command its arguments
spell. It ends with 1 if the command fails, and with 2 if there is no command.
-/

namespace TypedConfig.CommandLine

/-- The refusal that an error of the system amounts to. -/
def refusalOf : IO.Error → Refusal
  | .noFileOrDirectory .. => .notFound
  | .alreadyExists .. => .alreadyThere
  | .inappropriateType _ code details =>
    if code = 20 then .notDirectory
    else if code = 21 then .isDirectory
    else .other details
  | e => .other e.toString

/-- The outcome of an operation of the system. -/
def attempt {α : Type} (operation : IO α) : IO (Except Refusal α) := do
  match ← operation.toBaseIO with
  | .ok a => return .ok a
  | .error e => return .error (refusalOf e)

/-- The entries of a directory of the system that are reached in so many steps. -/
def entriesWithin : Nat → IO.FS.DirEntry → IO Glob.Entry
  | 0, _ => return .directory []
  | steps + 1, e => do
    if ← e.path.isDir then
      let children := (← e.path.readDir).toList.mergeSort fun a b => a.fileName ≤ b.fileName
      return .directory (← children.mapM fun c => do return (c.fileName, ← entriesWithin steps c))
    else return .file

/-- How deep below the working directory patterns look. -/
def maxSteps : Nat := 64

/-- The host that works on the files of the system. -/
def systemHost : Host IO where
  read path := attempt (IO.FS.readFile path)
  tree := do
    let children := (← (← IO.currentDir).readDir).toList.mergeSort fun a b =>
      a.fileName ≤ b.fileName
    return .directory (← children.mapM fun c => do
      return (c.fileName, ← entriesWithin maxSteps c))
  makeDirectories path := attempt (IO.FS.createDirAll path)
  write path content := attempt (IO.FS.writeFile path content)
  print := IO.print
  complain := IO.eprint

/-- What the program says when its arguments spell no command. -/
def UsageFault.message : UsageFault → String
  | missingRequired => "error: a required option is missing"
  | unknownSubcommand => "error: unrecognized subcommand"
  | unknownArgument => "error: unexpected argument"
  | invalidValue => "error: an option has no value, or an empty one"
  | conflict => "error: an option cannot be used several times"
  | tooManyValues => "error: an option takes no value"
  | help | helpOnMissing => "usage: (resolve | check) --schema FILE [OPTIONS]"
  | version => "0.1.0"

end TypedConfig.CommandLine

open TypedConfig.CommandLine in
/-- Runs the command that the arguments spell. -/
def main (arguments : List String) : IO UInt32 := do
  match Command.ofArguments arguments with
  | .error fault =>
    IO.eprintln fault.message
    return if fault = .help ∨ fault = .version then 0 else 2
  | .ok command =>
    match ← (command.run systemHost).run with
    | .ok () => return 0
    | .error failure =>
      IO.eprintln ("error: " ++ failure.message)
      return 1
