/-!
# Letters without regard to case

Two characters outside ASCII have an ASCII letter as their simple case folding: the long s and the
Kelvin sign.
-/

namespace TypedConfig.Text

/-- The ASCII letter that a character folds to; other characters stay as they are. -/
def foldCase (c : Char) : Char :=
  if c = '\u017f' then 's' else if c = '\u212a' then 'k' else c.toLower

/-- Whether a character folds to an ASCII letter. -/
def isFoldedLetter (c : Char) : Bool := (foldCase c).isLower

/-- What follows a word in lower case that a text starts with in some case. -/
def afterWord? (word cs : List Char) : Option (List Char) :=
  if (cs.take word.length).map foldCase = word then some (cs.drop word.length) else none

end TypedConfig.Text
