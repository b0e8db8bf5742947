import TypedConfig.CommandLine.Host
import TypedConfig.Error

/-!
# Failures of commands

Why a command, or one of its inputs, comes to nothing.
-/

namespace TypedConfig.CommandLine

open Text

/-- The formats of documents. -/
inductive Format
  | json
  | yaml
deriving DecidableEq, Repr

/-- The name of a format. -/
def Format.name : Format → String
  | json => "JSON"
  | yaml => "YAML"

/-- Why a command or an input fails. -/
inductive Failure
  | read (path : String) (refusal : Refusal)
  | document (format : Format) (path : String)
  | schema (path : String) (error : Error)
  | externals
  | assignment (text : String)
  | variableName (name : String)
  | nesting (name : String)
  | pattern (pattern : String) (error : Glob.PatternError)
  | noMatch (pattern : String)
  | resolution (error : Error)
  | makeDirectories (path : String) (refusal : Refusal)
  | write (path : String) (refusal : Refusal)
  | inputs (failed total : Nat)

namespace Failure

/-- The message of a resolution error, with that of what lies behind it. -/
def errorMessage (e : Error) : String :=
  match e with
  | .parse _ _ _ source => e.message ++ ": " ++ source.message
  | e => e.message

/-- The message of a failure. -/
def message : Failure → String
  | read path refusal => "failed to read " ++ path ++ ": " ++ refusal.message
  | document format path => "failed to parse " ++ format.name ++ " source file (" ++ path ++ ")"
  | schema path e => "schema " ++ path ++ ": " ++ errorMessage e
  | externals => "external variables must be a mapping"
  | assignment text => "expected NAME=VALUE, got " ++ quoted text
  | variableName name => "invalid variable name " ++ quoted name
  | nesting name => "variable " ++ quoted name ++ " nests under a non-mapping value"
  | pattern p e => "invalid glob pattern " ++ quoted p ++ ": " ++ e.message
  | noMatch p => "glob pattern matched no files: " ++ p
  | resolution e => errorMessage e
  | makeDirectories path refusal => "failed to create " ++ path ++ ": " ++ refusal.message
  | write path refusal => "failed to write " ++ path ++ ": " ++ refusal.message
  | inputs failed total =>
    numeral failed ++ " of " ++ numeral total ++ " inputs failed to resolve"

/-- The name of the class of a failure: that of the error for a resolution. -/
def kindName : Failure → String
  | resolution e => e.kind.name
  | _ => "io"

/-- The line that reports the failure of an input. -/
def report (path : String) (f : Failure) : String :=
  "✗ " ++ path ++ " [" ++ f.kindName ++ "] " ++ f.message ++ "\n"

end Failure

end TypedConfig.CommandLine
