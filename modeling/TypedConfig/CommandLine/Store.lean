import TypedConfig.CommandLine.Host
import TypedConfig.CommandLine.Path

/-!
# Stores of files

A store is a working directory with everything in it, as a finite map from places to what is there.
Nothing outside of the working directory exists. A store with the texts printed so far is a host.
-/

namespace TypedConfig.CommandLine

/-- What is at a place. -/
inductive Item
  | directory
  | file (content : String)
deriving DecidableEq, Repr

/-- The files and directories below the working directory, by the names that lead to them. -/
structure Store where
  items : List (List String × Item)
deriving DecidableEq, Repr

namespace Store

/-- What is at a place; the working directory is always there. -/
def find? (s : Store) : List String → Option Item
  | [] => some .directory
  | name :: names => s.items.lookup (name :: names)

/-- Puts something at a place. -/
def put (s : Store) (place : List String) (item : Item) : Store :=
  ⟨(place, item) :: s.items.filter fun entry => entry.1 ≠ place⟩

theorem find?_put_self (s : Store) {place : List String} (h : place ≠ []) (item : Item) :
    (s.put place item).find? place = some item := by
  cases place with
  | nil => exact absurd rfl h
  | cons name names => simp [find?, put]

theorem lookup_filter_ne {α β : Type} [BEq α] [LawfulBEq α] [DecidableEq α] {a b : α} (h : a ≠ b) :
    ∀ l : List (α × β), (l.filter fun e => e.1 ≠ b).lookup a = l.lookup a
  | [] => rfl
  | (k, v) :: l => by
    have ih := lookup_filter_ne h l
    by_cases hk : k = b
    · subst hk
      rw [List.filter_cons_of_neg (by simp), ih, List.lookup_cons, beq_false_of_ne h]
    · rw [List.filter_cons_of_pos (by simpa using hk), List.lookup_cons, List.lookup_cons, ih]

theorem find?_put_of_ne (s : Store) {place other : List String} (h : other ≠ place)
    (item : Item) : (s.put place item).find? other = s.find? other := by
  cases other with
  | nil => rfl
  | cons name names =>
    simp only [find?, put, List.lookup_cons, beq_false_of_ne h]
    exact lookup_filter_ne h _

/-- One component further from a place, which has to be a directory. -/
def step (s : Store) (place : List String) (part : String) : Except Refusal (List String) :=
  match s.find? place with
  | none => .error .notFound
  | some (.file _) => .error .notDirectory
  | some .directory =>
    if part = "" ∨ part = "." then .ok place
    else if part = ".." then
      if place.isEmpty then .error .notFound else .ok place.dropLast
    else .ok (place ++ [part])

/-- The place that a path leads to; it may be empty, but everything on the way is there. -/
def locate (s : Store) (path : String) : Except Refusal (List String) :=
  if path.isEmpty || path.toList.head? == some '/' then .error .notFound
  else (components path).foldlM s.step []

/-- The content of a file. -/
def read (s : Store) (path : String) : Except Refusal String := do
  match s.find? (← s.locate path) with
  | none => .error .notFound
  | some .directory => .error .isDirectory
  | some (.file content) => .ok content

/-- Writes a file. -/
def write (s : Store) (path content : String) : Except Refusal Store := do
  let place ← s.locate path
  match s.find? place with
  | some .directory => .error .isDirectory
  | _ => .ok (s.put place (.file content))

/-- One component further, into a directory that is made if nothing is there. -/
def enter (reached : Store × List String) (part : String) :
    Except Refusal (Store × List String) := do
  let (s, place) := reached
  let place ← s.step place part
  match s.find? place with
  | none => .ok (s.put place .directory, place)
  | some _ => .ok (s, place)

/-- Makes a directory with those that it lies in. -/
def makeDirectories (s : Store) (path : String) : Except Refusal Store := do
  if path.toList.head? == some '/' then .error .notFound
  else
    let (s, place) ← ((components path).filter (· ≠ "")).foldlM enter (s, [])
    match s.find? place with
    | some (.file _) => .error .alreadyThere
    | _ => .ok s

/-! ### Whole stores -/

/-- The store that holds nothing. -/
def empty : Store := ⟨[]⟩

/-- Puts a file at a place, with the directories that it lies in. -/
def putFile (s : Store) (place : List String) (content : String) : Store :=
  let directories := (List.range place.length).map place.take
  (directories.foldl (fun s d => if d.isEmpty then s else s.put d .directory) s).put place
    (.file content)

/-- The store of files given by their paths. -/
def ofFiles (files : List (String × String)) : Store :=
  files.foldl (fun s file => s.putFile (components file.1) file.2) empty

/-- The files that are not in an earlier store, or not with that content, by their paths. -/
def newFiles (s earlier : Store) : List (String × String) :=
  (s.items.filterMap fun (place, item) =>
    match item with
    | .directory => none
    | .file content =>
      if earlier.find? place = some item then none
      else some ("/".intercalate place, content)).mergeSort fun a b => a.1 ≤ b.1

/-- Changes the entry of a name among entries in the order of their names. -/
def updateEntry (name : String) (f : Option Glob.Entry → Glob.Entry) :
    List (String × Glob.Entry) → List (String × Glob.Entry)
  | [] => [(name, f none)]
  | (s, e) :: entries =>
    if s = name then (s, f (some e)) :: entries
    else if name < s then (name, f none) :: (s, e) :: entries
    else (s, e) :: updateEntry name f entries

/-- Puts an entry at a place of a directory tree, unless it has one there. -/
def graft (leaf : Glob.Entry) : List String → Option Glob.Entry → Glob.Entry
  | [], none => leaf
  | [], some e => e
  | name :: names, e =>
    .directory (updateEntry name (graft leaf names) ((e.map Glob.Entry.entries).getD []))

/-- The directory tree of a store. -/
def tree (s : Store) : Glob.Entry :=
  s.items.foldl (fun e (place, item) =>
    match item with
    | .directory => graft (.directory []) place (some e)
    | .file _ => graft .file place (some e)) (.directory [])

end Store

/-! ### Hosts on a store -/

/-- A store, the results and the complaints. -/
structure World where
  store : Store
  results : String
  complaints : String
deriving DecidableEq, Repr

namespace World

/-- A world in which nothing has been printed. -/
def ofStore (store : Store) : World := ⟨store, "", ""⟩

/-- Replaces the store by what an operation makes of it, if it succeeds. -/
def change (operation : Store → Except Refusal Store) : StateM World (Except Refusal Unit) :=
  fun w =>
    match operation w.store with
    | .ok store => (.ok (), { w with store })
    | .error e => (.error e, w)

/-- The host that works on a world. -/
def host : Host (StateM World) where
  read path := fun w => (w.store.read path, w)
  tree := fun w => (w.store.tree, w)
  makeDirectories path := change fun s => s.makeDirectories path
  write path content := change fun s => s.write path content
  print text := fun w => ((), { w with results := w.results ++ text })
  complain text := fun w => ((), { w with complaints := w.complaints ++ text })

end World

end TypedConfig.CommandLine
