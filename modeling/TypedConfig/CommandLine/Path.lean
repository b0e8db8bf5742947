import TypedConfig.Text.Blank

/-!
# Names of files

A path is a text whose components stand between slashes. The name of a file splits at its last dot
into stem and extension, unless nothing would be left of the stem.
-/

namespace TypedConfig.CommandLine

/-- The components of a path, empty ones included. -/
def components (path : String) : List String :=
  (Text.splitWhere (· == '/') path.toList).map String.ofList

/-- The name of the file that a path leads to. -/
def fileName? (path : String) : Option String :=
  (((components path).filter fun part => part ≠ "" ∧ part ≠ ".").getLast?).filter (· ≠ "..")

/-- The stem and the extension of a name. -/
def splitName (name : String) : String × Option String :=
  let reversed := name.toList.reverse
  match reversed.dropWhile (· != '.') with
  | _ :: c :: cs =>
    (String.ofList (c :: cs).reverse,
      some (String.ofList (reversed.takeWhile (· != '.')).reverse))
  | _ => (name, none)

/-- The name of a file without its extension. -/
def stem (path : String) : String :=
  match fileName? path with
  | some name => (splitName name).1
  | none => ""

/-- The extension of a file. -/
def extension? (path : String) : Option String :=
  (fileName? path).bind fun name => (splitName name).2

/-- The path of a name in a directory. -/
def join (directory name : String) : String :=
  if directory.isEmpty || directory.toList.getLast? == some '/' then directory ++ name
  else directory ++ "/" ++ name

end TypedConfig.CommandLine
