import TypedConfig.Glob.Expansion

/-!
# Hosts

What a command needs of its surroundings: files to read and write, directories to list and make,
and two streams of text for results and for complaints.
-/

namespace TypedConfig.CommandLine

/-- Why a host does not do something with a file. -/
inductive Refusal
  | notFound
  | alreadyThere
  | notDirectory
  | isDirectory
  | other (message : String)
deriving DecidableEq, Repr

/-- The message of a refusal. -/
def Refusal.message : Refusal → String
  | notFound => "No such file or directory (os error 2)"
  | alreadyThere => "File exists (os error 17)"
  | notDirectory => "Not a directory (os error 20)"
  | isDirectory => "Is a directory (os error 21)"
  | other message => message

/-- The operations of a host. -/
structure Host (m : Type → Type) where
  /-- The content of a file. -/
  read : String → m (Except Refusal String)
  /-- The files and directories in the working directory. -/
  tree : m Glob.Entry
  /-- Makes a directory with those that it lies in, if they are not there. -/
  makeDirectories : String → m (Except Refusal Unit)
  /-- Writes a file, given its path and content. -/
  write : String → String → m (Except Refusal Unit)
  /-- Adds a text to the results. -/
  print : String → m Unit
  /-- Adds a text to the complaints. -/
  complain : String → m Unit

end TypedConfig.CommandLine
