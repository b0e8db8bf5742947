import TypedConfig.Text.Blank

/-!
# Templates

A template is a text with references in it. Scanning it is a single pass from left to right that
does not depend on what the references stand for: it yields the pieces of the text up to its end or
up to the first place where the template is malformed. `Dialect.interpolation` writes a reference
as a dollar sign and a name in braces, with a second dollar sign in front for literal text;
`Dialect.braces` writes it in double braces and has no literal form.
-/

namespace TypedConfig

open Text

/-- A piece of a template: a character that stands for itself, an escaped opening of a reference,
or a reference with its body as written. -/
inductive Template.Piece
  | char (c : Char)
  | escape
  | reference (body : List Char)
deriving DecidableEq, Repr

/-- What can be wrong with a template. -/
inductive Template.Fault
  | unterminatedReference
  | emptyReference
  | unterminatedBraces
deriving DecidableEq, Repr

/-- A scanned template: its pieces, and where and why scanning stopped early, if it did. -/
structure Template where
  pieces : List Template.Piece
  fault : Option (Nat × Template.Fault)
deriving DecidableEq, Repr

namespace Template

/-- The message of a fault. -/
def Fault.message : Fault → String
  | unterminatedReference => "unterminated `$\x7b`"
  | emptyReference => "empty reference `$\x7b\x7d`"
  | unterminatedBraces => "unterminated `\x7b\x7b`"

/-- A piece in front of a template. -/
def cons (p : Piece) (t : Template) : Template := { t with pieces := p :: t.pieces }

/-- A template that is malformed at its very start. -/
def stop (position : Nat) (fault : Fault) : Template := ⟨[], some (position, fault)⟩

/-- The name in the body of a reference. -/
def name (body : List Char) : String := String.ofList (trim body)

/-! ### Scanning -/

/-- The text before the first closing brace and the text after it. -/
def splitAtBrace (cs : List Char) : Option (List Char × List Char) :=
  match cs.dropWhile (· != '\x7d') with
  | _ :: rest => some (cs.takeWhile (· != '\x7d'), rest)
  | [] => none

/-- The text before the first pair of closing braces and the text after it. -/
def splitAtBraces : List Char → Option (List Char × List Char)
  | '\x7d' :: '\x7d' :: rest => some ([], rest)
  | c :: cs => (splitAtBraces cs).map fun (body, rest) => (c :: body, rest)
  | [] => none

theorem splitAtBrace_eq_some {cs body rest : List Char} (h : splitAtBrace cs = some (body, rest)) :
    cs = body ++ '\x7d' :: rest := by
  unfold splitAtBrace at h
  split at h
  · rename_i c rest' hd
    have hc : c = '\x7d' := by
      have := List.head?_dropWhile_not (· != '\x7d') cs
      simpa [hd] using this
    obtain ⟨rfl, rfl⟩ : cs.takeWhile (· != '\x7d') = body ∧ rest' = rest := by simpa using h
    have happ := List.takeWhile_append_dropWhile (p := (· != '\x7d')) (l := cs)
    rw [hd, hc] at happ
    exact happ.symm
  · simp at h

theorem splitAtBraces_eq_some {cs body rest : List Char}
    (h : splitAtBraces cs = some (body, rest)) : cs = body ++ '\x7d' :: '\x7d' :: rest := by
  induction cs using splitAtBraces.induct generalizing body with
  | case1 rest' => simp_all [splitAtBraces]
  | case2 c cs hne ih =>
    rw [splitAtBraces] at h
    · obtain ⟨⟨body', rest'⟩, h', he⟩ := Option.map_eq_some_iff.1 h
      simp only [Prod.mk.injEq] at he
      obtain ⟨rfl, rfl⟩ := he
      simp [ih h']
    · exact hne
  | case3 => simp [splitAtBraces] at h

/-- Scans a text, starting at a byte position, for references that open with a dollar sign. -/
def scanInterpolation (position : Nat) : List Char → Template
  | '$' :: '$' :: '\x7b' :: cs => cons .escape (scanInterpolation (position + 3) cs)
  | '$' :: '\x7b' :: cs =>
    match h : splitAtBrace cs with
    | none => stop position .unterminatedReference
    | some (body, rest) =>
      if trim body = [] then stop position .emptyReference
      else cons (.reference body) (scanInterpolation (position + 2 + byteLength body + 1) rest)
  | c :: cs => cons (.char c) (scanInterpolation (position + c.utf8Size) cs)
  | [] => ⟨[], none⟩
termination_by cs => cs.length
decreasing_by
  · simp; omega
  · have := splitAtBrace_eq_some h
    simp [this]; omega
  · simp

/-- Scans a text, starting at a byte position, for references in double braces. -/
def scanBraces (position : Nat) : List Char → Template
  | '\x7b' :: '\x7b' :: cs =>
    match h : splitAtBraces cs with
    | none => stop position .unterminatedBraces
    | some (body, rest) =>
      cons (.reference body) (scanBraces (position + 2 + byteLength body + 2) rest)
  | c :: cs => cons (.char c) (scanBraces (position + c.utf8Size) cs)
  | [] => ⟨[], none⟩
termination_by cs => cs.length
decreasing_by
  · have := splitAtBraces_eq_some h
    simp [this]; omega
  · simp

/-- The ways to write references. -/
inductive Dialect
  | interpolation
  | braces
deriving DecidableEq, Repr

/-- The template that a text is in a dialect. -/
def scan (dialect : Dialect) (text : String) : Template :=
  match dialect with
  | .interpolation => scanInterpolation 0 text.toList
  | .braces => scanBraces 0 text.toList

/-! ### Reading pieces -/

/-- The text that a piece was scanned from. -/
def Piece.source (dialect : Dialect) : Piece → List Char
  | char c => [c]
  | escape => ['$', '$', '\x7b']
  | reference body =>
    match dialect with
    | .interpolation => '$' :: '\x7b' :: (body ++ ['\x7d'])
    | .braces => '\x7b' :: '\x7b' :: (body ++ ['\x7d', '\x7d'])

/-- The names that a template asks for, in order. -/
def names (t : Template) : List String :=
  t.pieces.filterMap fun
    | .reference body => some (name body)
    | _ => none

/-- The text of a piece, the references being looked up. -/
def Piece.render {m : Type → Type} [Monad m] (lookup : String → m String) : Piece → m String
  | char c => pure c.toString
  | escape => pure "$\x7b"
  | reference body => lookup (name body)

/-- The text of the pieces, in order. -/
def renderPieces {m : Type → Type} [Monad m] (lookup : String → m String) :
    List Piece → m String
  | [] => pure ""
  | p :: ps => do
    let head ← p.render lookup
    let tail ← renderPieces lookup ps
    return head ++ tail

/-- The text of a template. A fault shows once everything before it has been looked up. -/
def render {m : Type → Type} [Monad m] (lookup : String → m String)
    (malformed : Nat → Fault → m String) (t : Template) : m String := do
  let text ← renderPieces lookup t.pieces
  match t.fault with
  | none => pure text
  | some (position, fault) => malformed position fault

/-! ### Sole references -/

/-- Whether an opening of a reference stands somewhere in a text. -/
def hasOpening : List Char → Bool
  | '$' :: '\x7b' :: _ => true
  | _ :: cs => hasOpening cs
  | [] => false

/-- The name of the reference that is all of a text, blanks around it aside. -/
def soleReference? (text : String) : Option String :=
  match trim text.toList with
  | '$' :: '\x7b' :: cs =>
    match cs.reverse with
    | '\x7d' :: reversed =>
      let body := reversed.reverse
      if body.contains '\x7d' || hasOpening body || trim body == [] then none
      else some (name body)
    | _ => none
  | _ => none

end Template

end TypedConfig
