import BeamCalc.Text.Blank
import BeamCalc.Text.Cut

/-!
# Modes of a pattern

Flags such as `(?i)` change how the text of a pattern after them is read. `Modes` holds the
settings that matter for which patterns are valid. In spaced mode blanks and comments, which run
from `#` to the end of the line, are passed over.
-/

set_option autoImplicit false
set_option relaxedAutoImplicit false

namespace BeamCalc.Pattern

/-- How the text of a pattern is read: whether letters stand for both cases, whether the pattern
speaks of characters or of bytes, and whether blanks are passed over. -/
structure Modes where
  caseless : Bool := false
  unicode : Bool := true
  spaced : Bool := false
  deriving Repr, DecidableEq

/-- A text without the blanks and comments at its beginning, which may lie in a comment. -/
def skipBlanks (comment : Bool) : (text : List Char) → List Char
  | [] => []
  | first :: rest =>
    if comment then skipBlanks (first != '\n') rest
    else if Text.isBlank first then skipBlanks false rest
    else if first = '#' then skipBlanks true rest
    else first :: rest

theorem length_skipBlanks_le (comment : Bool) (text : List Char) :
    (skipBlanks comment text).length ≤ text.length := by
  fun_induction skipBlanks comment text <;> simp <;> omega

namespace Modes

/-- The text from the next character on that counts. -/
def skip (modes : Modes) (text : List Char) : List Char :=
  if modes.spaced then skipBlanks false text else text

theorem length_skip_le (modes : Modes) (text : List Char) :
    (modes.skip text).length ≤ text.length := by
  unfold skip
  split
  · exact length_skipBlanks_le false text
  · exact Nat.le_refl _

/-- The character after a minus inside a class that decides whether the minus makes a range. It is
looked for past blanks, and past the mark of a comment but not past the comment. -/
def glance (modes : Modes) (text : List Char) : Option Char :=
  if modes.spaced then
    match text.dropWhile Text.isBlank with
    | '#' :: rest => (rest.dropWhile Text.isBlank).head?
    | rest => rest.head?
  else text.head?

/-- Whether literals and the members of classes stand for both cases of characters of any script.
That takes tables of the cases, which patterns go without. -/
def needsCases (modes : Modes) : Bool :=
  modes.caseless && modes.unicode

/-- Whether a character can be written for itself inside a class. -/
def admits (modes : Modes) (character : Char) : Bool :=
  modes.unicode || character.toNat < 0x80

/-- The modes after flags, of which those behind a minus are taken back. -/
def change (modes : Modes) (flags : List Char) : Modes :=
  let (on, off) := (Text.cut? ['-'] flags).getD (flags, [])
  let changed (flag : Char) (setting : Bool) : Bool :=
    (setting || on.contains flag) && !off.contains flag
  { caseless := changed 'i' modes.caseless
    unicode := changed 'u' modes.unicode
    spaced := changed 'x' modes.spaced }

end Modes

/-- Whether a text is a sequence of different flags, with at most one minus that precedes some. -/
def areFlags (text : List Char) : Bool :=
  text.all "imsUuRx-".toList.contains && text.Nodup && text.getLast? != some '-'

end BeamCalc.Pattern
