import TypedConfig.Yaml.Scalar

/-!
# Scalars in YAML texts

Reading quoted and plain scalars. A scalar may go on over several lines: blanks around a line end
are dropped, a single line feed becomes a space, and of several the first is dropped. The line and
paragraph separators of Unicode end lines too, and are kept.
-/

namespace TypedConfig.Yaml

/-- Blanks within a line. -/
def isSpace (c : Char) : Bool := c == ' ' || c == '\t'

/-- The characters that end a line. Every other way to end one has become a line feed before. -/
def isBreak (c : Char) : Bool := c == '\n' || c == '\u2028' || c == '\u2029'

/-- Whether a text is at its end, or at a blank or a line end. -/
def atGap : List Char → Bool
  | [] => true
  | c :: _ => isSpace c || isBreak c

/-- Whether a text starts with a mark of three characters on its own. -/
def startsMark (mark : Char) : List Char → Bool
  | a :: b :: c :: cs => a = mark && b = mark && c = mark && atGap cs
  | _ => false

/-- Whether a document starts or ends at the line that starts here. -/
def startsBoundary (cs : List Char) : Bool := startsMark '-' cs || startsMark '.' cs

/-- A line and a column. -/
structure Mark where
  line : Nat
  column : Nat
deriving DecidableEq, Repr

namespace Mark

/-- The mark so many characters further on the line. -/
def right (m : Mark) (length : Nat) : Mark := { m with column := m.column + length }

/-- The mark behind a character. -/
def after (m : Mark) (c : Char) : Mark := if isBreak c then ⟨m.line + 1, 0⟩ else m.right 1

end Mark

/-! ### What lies between characters -/

/-- What has been read between two characters of a scalar: blanks, or a line end and more of them,
both reversed; a line end that joins its lines is not among them. -/
inductive Gap
  | blanks (reversed : List Char)
  | breaks (first more : List Char)
deriving DecidableEq

namespace Gap

/-- Nothing. -/
def none : Gap := blanks []

/-- Whether there is a line end. -/
def isBroken : Gap → Bool
  | blanks _ => false
  | breaks .. => true

/-- One more blank, which counts only within a line. -/
def addBlank (c : Char) : Gap → Gap
  | blanks cs => blanks (c :: cs)
  | g => g

/-- One more line end. -/
def addBreak (c : Char) : Gap → Gap
  | blanks _ => breaks [c] []
  | breaks first more => breaks first (c :: more)

/-- What a gap stands for, put in front of a reversed text. -/
def onto (done : List Char) : Gap → List Char
  | blanks cs => cs ++ done
  | breaks ['\n'] [] => ' ' :: done
  | breaks ['\n'] more => more ++ done
  | breaks first more => more ++ first ++ done

end Gap

/-- What has been read of a scalar: its text, reversed, the gap after that, and where it ends. -/
structure Draft where
  done : List Char
  gap : Gap
  mark : Mark

namespace Draft

/-- Nothing read. -/
def start (m : Mark) : Draft := ⟨[], .none, m⟩

/-- One more character, which was written with so many. -/
def char (d : Draft) (length : Nat) (c : Char) : Draft :=
  ⟨c :: d.gap.onto d.done, .none, d.mark.right length⟩

/-- One more blank. -/
def blank (d : Draft) (c : Char) : Draft :=
  { d with gap := d.gap.addBlank c, mark := d.mark.after c }

/-- One more line end. -/
def lineEnd (d : Draft) (c : Char) : Draft :=
  { d with gap := d.gap.addBreak c, mark := d.mark.after c }

/-- A line end that joins the lines. -/
def join (d : Draft) (c : Char) : Draft := ⟨d.gap.onto d.done, .breaks [] [], d.mark.after c⟩

/-- One more character as it is written. -/
def take (d : Draft) (c : Char) : Draft :=
  if isBreak c then d.lineEnd c else if isSpace c then d.blank c else d.char 1 c

/-- The quoted scalar that has been read. -/
def quoted (d : Draft) : Scalar := ⟨(d.gap.onto d.done).reverse, false⟩

/-- The plain scalar that has been read; the gap after it is not part of it. -/
def plain (d : Draft) : Scalar := ⟨d.done.reverse, true⟩

end Draft

/-! ### Quoted scalars -/

/-- Whether a document starts or ends behind a line end, which nothing in quotes may do. -/
def crossesBoundary (c : Char) (cs : List Char) : Bool := isBreak c && startsBoundary cs

/-- The rest of a scalar in single quotes; a quote inside is written twice. -/
def readSingle (d : Draft) : List Char → Option (Draft × List Char)
  | '\'' :: '\'' :: cs => readSingle (d.char 2 '\'') cs
  | '\'' :: cs => some (d, cs)
  | c :: cs => if crossesBoundary c cs then none else readSingle (d.take c) cs
  | [] => none

/-- What a character after a backslash stands for. -/
def unescape? : Char → Option Char
  | '0' => some '\x00'
  | 'a' => some '\x07'
  | 'b' => some '\x08'
  | 't' => some '\t'
  | '\t' => some '\t'
  | 'n' => some '\n'
  | 'v' => some '\x0b'
  | 'f' => some '\x0c'
  | 'r' => some '\r'
  | 'e' => some '\x1b'
  | ' ' => some ' '
  | '"' => some '"'
  | '/' => some '/'
  | '\\' => some '\\'
  | 'N' => some '\u0085'
  | '_' => some '\u00a0'
  | 'L' => some '\u2028'
  | 'P' => some '\u2029'
  | _ => none

/-- The character that a code point in hexadecimal digits stands for. -/
def codePoint? (digits : List Char) : Option Char :=
  (natural? 16 digits).bind fun n => if n.isValidChar then some (Char.ofNat n) else none

/-- The rest of a scalar in double quotes. -/
def readDouble (d : Draft) : List Char → Option (Draft × List Char)
  | '"' :: cs => some (d, cs)
  | '\\' :: 'x' :: a :: b :: cs => do readDouble (d.char 4 (← codePoint? [a, b])) cs
  | '\\' :: 'u' :: a :: b :: c :: e :: cs => do
    readDouble (d.char 6 (← codePoint? [a, b, c, e])) cs
  | '\\' :: 'U' :: a :: b :: c :: e :: f :: g :: h :: i :: cs => do
    readDouble (d.char 10 (← codePoint? [a, b, c, e, f, g, h, i])) cs
  | '\\' :: c :: cs =>
    if crossesBoundary c cs then none
    else if isBreak c then readDouble (d.join c) cs
    else do readDouble (d.char 2 (← unescape? c)) cs
  | c :: cs => if crossesBoundary c cs then none else readDouble (d.take c) cs
  | [] => none

/-! ### Plain scalars -/

/-- The characters that separate and close within flow collections. -/
def flowMarks : List Char := [',', '[', ']', '\x7b', '\x7d']

/-- The characters that have a meaning at the start of a scalar. -/
def indicators : List Char :=
  ['-', '?', ':', '#', '&', '*', '!', '|', '>', '\'', '"', '%', '@', '\x60'] ++ flowMarks

/-- Whether a plain scalar may start here. -/
def startsPlain (flow : Bool) : List Char → Bool
  | [] => false
  | c :: cs =>
    if c = '-' then !atGap cs
    else if c = '?' ∨ c = ':' then !flow && !atGap cs
    else !atGap [c] && !indicators.contains c

/-- Whether a plain scalar ends here. -/
def endsPlain (flow : Bool) : List Char → Bool
  | [] => true
  | ':' :: cs => atGap cs
  | c :: _ => flow && flowMarks.contains c

/-- A colon that a mark of a flow collection follows is an error within a plain scalar. -/
def isMisplacedColon (flow : Bool) : List Char → Bool
  | ':' :: c :: _ => flow && (c == '?' || flowMarks.contains c)
  | _ => false

/-- Whether what follows a gap is no longer part of a plain scalar: a comment, the start or end of a
document, or a line that is not indented to column `least`. -/
def endsAfterGap (flow : Bool) (least column : Nat) : List Char → Bool
  | '#' :: _ => true
  | cs => (!flow && column < least) || (column == 0 && startsBoundary cs)

/-- Whether a character is a tab that is to indent a line and is left of column `least`. -/
def isMisplacedTab (least : Nat) (d : Draft) (c : Char) : Bool :=
  c == '\t' && d.gap.isBroken && d.mark.column < least

/-- A plain scalar with the gap after it. -/
def readPlain (flow : Bool) (least : Nat) (d : Draft) : List Char → Option (Draft × List Char)
  | [] => some (d, [])
  | c :: cs =>
    if atGap [c] then
      if isMisplacedTab least d c then none else readPlain flow least (d.take c) cs
    else if d.gap ≠ .none ∧ endsAfterGap flow least d.mark.column (c :: cs) = true then
      some (d, c :: cs)
    else if isMisplacedColon flow (c :: cs) then none
    else if endsPlain flow (c :: cs) then some (d, c :: cs)
    else readPlain flow least (d.take c) cs

end TypedConfig.Yaml
