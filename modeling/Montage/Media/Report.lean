import Montage.Media.Output
import Montage.Text.Blank
import Montage.Text.Integer
import Montage.Text.Split

/-!
# What the media tool prints

While it works, the tool prints lines `key=value` in blocks; the line with the key `progress` closes
a block, and the frames counted in it are known then.  Of its other output the last lines are kept
for messages.
-/

namespace Montage.Media

/-! ## Progress -/

/-- Takes one line in.  Yields the frames known now, and the frames of the block that the line
closes. -/
def readProgress (frame : Nat) (line : String) : Nat × Option Nat :=
  match Text.cut '=' (Text.trimChars line.toList) with
  | none => (frame, none)
  | some (key, value) =>
    if key = "frame".toList then
      ((Text.unsigned? UInt64.size (Text.trimChars value)).getD frame, none)
    else if key = "progress".toList then (frame, some frame)
    else (frame, none)

/-! ## The last lines -/

/-- The characters without one carriage return at their end. -/
def dropReturn (cs : List Char) : List Char :=
  if cs.getLast? = some '\r' then cs.dropLast else cs

/-- The lines of a text.  A line ends at a newline or at the end of the text, one carriage return
before that is dropped, and an empty last line is none. -/
def lines (cs : List Char) : List (List Char) :=
  let pieces := (Text.splitWhere (· == '\n') cs).map dropReturn
  if pieces.getLast? = some [] then pieces.dropLast else pieces

/-- The number of lines that are kept. -/
def tailLength : Nat := 40

/-- The lines that are kept of an output, the oldest first. -/
structure Tail where
  kept : List String
  length_le : kept.length ≤ tailLength
  deriving Repr, DecidableEq

namespace Tail

def empty : Tail := ⟨[], Nat.zero_le _⟩

/-- Takes one line in.  Where there is no room for it the oldest line goes. -/
def push (t : Tail) (line : String) : Tail where
  kept := (if t.kept.length = tailLength then t.kept.tail else t.kept) ++ [line]
  length_le := by
    have hle := t.length_le
    have hpos : 0 < tailLength := by decide
    rw [List.length_append, List.length_singleton]
    split
    · rw [List.length_tail]
      omega
    · omega

/-- Reads an output to its end, or to the first line that is no text. -/
def collect (t : Tail) (o : Output) : Tail :=
  match _h : o.next? with
  | some (some line, later) => collect (t.push line) later
  | _ => t
termination_by o.rest.length
decreasing_by exact Output.length_rest_next? _h

def text (t : Tail) : String := "\n".intercalate t.kept

end Tail

/-- The last lines of an output that arrives in these pieces, as one text. -/
def tailOf (pieces : List (List UInt8)) : String := (Tail.empty.collect ⟨[], pieces⟩).text

/-- The bytes of a text. -/
def bytes (s : String) : List UInt8 := s.toUTF8.data.toList

/-- The last lines of a text, as one text. -/
def tail (s : String) : String := tailOf [bytes s]

end Montage.Media
