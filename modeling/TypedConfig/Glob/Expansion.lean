import TypedConfig.Glob.Pattern
import TypedConfig.Text.Blank

/-!
# Expansion of glob patterns

The paths of a directory tree that a pattern stands for. Entries of a directory are visited in the
order of their names, and a directory comes before what is in it.
-/

namespace TypedConfig.Glob

/-- A file or a directory with named entries. -/
inductive Entry
  | file
  | directory (entries : List (String × Entry))

/-- Whether an entry is a directory. -/
def Entry.isDirectory : Entry → Bool
  | file => false
  | directory _ => true

/-- The entries of a directory. -/
def Entry.entries : Entry → List (String × Entry)
  | file => []
  | directory entries => entries

theorem Entry.sizeOf_entries_le (e : Entry) : sizeOf e.entries ≤ sizeOf e := by
  cases e with
  | file => simp [entries]
  | directory es => simp [entries]

/-- What a path leads to, and the directories on the way, innermost first. -/
structure Place where
  path : List String
  entry : Entry
  parents : List Entry

/-- The place of an entry of the directory at a place. -/
def Place.child (p : Place) (name : String) (e : Entry) : Place :=
  ⟨p.path ++ [name], e, p.entry :: p.parents⟩

/-- The path of a place as a text. -/
def Place.text (p : Place) : String := if p.path.isEmpty then "." else "/".intercalate p.path

/-- A component of a pattern: this directory, the one around it, a name, a pattern for names, or any
directories. -/
inductive Component
  | here
  | up
  | name (s : String)
  | pattern (tokens : List Token)
  | directories
deriving DecidableEq, Repr

/-- The component of tokens. -/
def Component.ofTokens (tokens : List Token) : Component :=
  if tokens = [.anyDirectories] then directories
  else match literal? tokens with
    | some ['.'] => here
    | some ['.', '.'] => up
    | some s => name (String.ofList s)
    | none => pattern tokens

/-- Whether a component stands for a name. -/
def Component.holds (c : Component) (s : String) : Bool :=
  match c with
  | here | up => false
  | name t => s == t
  | pattern tokens => Glob.holds tokens s.toList
  | directories => true

mutual

/-- The places that components stand for, from a place on. -/
def expand (p : Place) : List Component → List Place
  | [] => [p]
  | .directories :: cs => expandBelow p cs p.entry.entries
  | .here :: cs =>
    if p.path.isEmpty then expand p cs
    else if p.entry.isDirectory then expand { p with path := p.path ++ ["."] } cs
    else []
  | .up :: cs =>
    match p.parents with
    | [] => []
    | e :: parents =>
      if p.entry.isDirectory then expand ⟨p.path ++ [".."], e, parents⟩ cs else []
  | c :: cs =>
    (p.entry.entries.filter fun entry => c.holds entry.1).flatMap fun entry =>
      expand (p.child entry.1 entry.2) cs
termination_by cs => (cs.length, sizeOf p.entry, 0)
decreasing_by all_goals exact Prod.Lex.left _ _ (by simp)

/-- The places that components stand for after any directories below a place: for the entries there
and for what is in them. -/
def expandBelow (p : Place) (cs : List Component) : List (String × Entry) → List Place
  | [] => []
  | (s, e) :: entries =>
    let here := match cs with
      | [] => if e.isDirectory then [p.child s e] else []
      | c :: cs => if c.holds s then expand (p.child s e) cs else []
    here ++ expandBelow (p.child s e) cs e.entries ++ expandBelow p cs entries
termination_by entries => (cs.length, sizeOf entries, 1)
decreasing_by
  · exact Prod.Lex.left _ _ (by simp)
  · have := e.sizeOf_entries_le
    refine Prod.Lex.right _ (Prod.Lex.left _ _ ?_)
    simp only [List.cons.sizeOf_spec, Prod.mk.sizeOf_spec]
    omega
  · refine Prod.Lex.right _ (Prod.Lex.left _ _ ?_)
    simp only [List.cons.sizeOf_spec, Prod.mk.sizeOf_spec]
    omega

end

/-- Runs of components for any directories are one. -/
def collapse : List Component → List Component
  | .directories :: .directories :: cs => collapse (.directories :: cs)
  | c :: cs => c :: collapse cs
  | [] => []

/-- The paths of a directory tree that a pattern stands for. A slash at the end of the pattern asks
for directories. No path of the tree is absolute. -/
def paths (pattern : String) (root : Entry) : Except PatternError (List String) := do
  let cs := pattern.toList
  let _ ← tokens cs
  let parts := (Text.splitWhere (· == '/') cs).filter fun part => !part.isEmpty
  let components ← parts.mapM fun part => return Component.ofTokens (← tokens part)
  if cs.head? = some '/' then return []
  let places := expand ⟨[], root, []⟩ (collapse components)
  let places := if cs.getLast? = some '/' then places.filter (·.entry.isDirectory) else places
  return places.map Place.text

end TypedConfig.Glob
