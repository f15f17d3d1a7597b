import Montage.Filter.Escape

/-!
# Manifests

A manifest lists files to be played one after another, one on a line, in single quotes.  A single
quote in a path closes the quotes, is escaped, and opens them again.
-/

namespace Montage.Manifest

/-- A character between single quotes. -/
def quotedChar (c : Char) : List Char :=
  if c = Filter.quoteChar then [Filter.quoteChar, '\\', Filter.quoteChar, Filter.quoteChar] else [c]

def lineChars (path : List Char) : List Char :=
  ['f', 'i', 'l', 'e', ' ', Filter.quoteChar] ++ path.flatMap quotedChar ++
    [Filter.quoteChar, '\n']

def render (paths : List String) : String :=
  String.ofList (paths.flatMap fun p => lineChars p.toList)

end Montage.Manifest
