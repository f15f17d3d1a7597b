import Montage.Text.Split

/-!
# Escapes in filter options

A value passes through two readers: the one that cuts a graph into filters, which ends at `[`, `]`,
`,` or `;`, and the one that cuts the arguments of a filter into options, which ends at `:`.  Both
take a backslash off the character behind it and read what stands between single quotes as it is.
`option` protects a value against both, `text` also against the expansion of `%` in drawn text.
-/

namespace Montage.Filter

def quoteChar : Char := '\x27'

/-- The characters that mean something to every reader. -/
def isSpecial (specials : List Char) (c : Char) : Bool :=
  c == '\\' || c == quoteChar || specials.contains c

/-- A backslash in front of every backslash, every single quote and every special character. -/
def escapeLevel (specials : List Char) (cs : List Char) : List Char :=
  cs.flatMap fun c => if isSpecial specials c then ['\\', c] else [c]

/-- The characters that end an option. -/
def optionEnds : List Char := [':']

/-- The characters that end a filter. -/
def filterEnds : List Char := ['[', ']', ',', ';']

/-- The characters of a value that survives both readers. -/
def optionChars (cs : List Char) : List Char := escapeLevel filterEnds (escapeLevel optionEnds cs)

/-- A value that survives both readers. -/
def option (s : String) : String := String.ofList (optionChars s.toList)

/-- A text that is drawn as it is. -/
def text (s : String) : String := String.ofList (optionChars (escapeLevel ['%'] s.toList))

def quotedIfCommas (s : String) : String :=
  if s.toList.contains ',' then "'" ++ s ++ "'" else s

/-- One character of a path as it stands in an option: backslashes become slashes, colons and
single quotes get a backslash. -/
def pathChar (c : Char) : List Char :=
  if c = '\\' then ['/']
  else if c = ':' then ['\\', ':']
  else if c = quoteChar then ['\\', quoteChar]
  else [c]

/-- A path as it stands in an option. -/
def path (s : String) : String := String.ofList (s.toList.flatMap pathChar)

end Montage.Filter
