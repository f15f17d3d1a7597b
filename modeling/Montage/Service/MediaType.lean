import Montage.Text.Ascii
import Montage.Text.Split

/-!
# Media types

A media type is `type/subtype`, possibly with parameters behind semicolons.  Bodies are read as JSON
if the type is `application` and the subtype is `json`, alone or on one side of its last plus sign.
Letters may be in any case.
-/

namespace Montage.MediaType

/-- A character of a name. -/
def isToken (c : Char) : Bool :=
  c.isAlphanum || ['!', '#', '$', '%', '&', '\x27', '*', '+', '-', '.', '^', '_', '\x60', '|',
    '~'].contains c

/-- A character between the quotes of a parameter.  A quote is one of them if it comes first. -/
def isQuotable (c : Char) : Bool := ' ' ≤ c && c ≤ '~'

/-- A name: at least one character. -/
def isName (cs : List Char) : Bool := !cs.isEmpty && cs.all isToken

/-- How a parameter is read. -/
inductive Mode where
  /-- In front of a name, where blanks may stand. -/
  | gap
  | name
  /-- Behind the equals sign. -/
  | start
  | value
  /-- Behind the opening quote. -/
  | opened
  | quoted
  /-- Behind the closing quote, where blanks may stand. -/
  | closed
  deriving Repr, DecidableEq

/-- What follows a character. -/
def Mode.step (m : Mode) (c : Char) : Option Mode :=
  match m with
  | .gap => if c = ' ' then some .gap else if isToken c then some .name else none
  | .name => if c = '=' then some .start else if isToken c then some .name else none
  | .start => if c = '\x22' then some .opened else if isToken c then some .value else none
  | .value => if c = ';' then some .gap else if isToken c then some .value else none
  | .opened => if isQuotable c then some .quoted else none
  | .quoted => if c = '\x22' then some .closed else if isQuotable c then some .quoted else none
  | .closed => if c = ';' then some .gap else if c = ' ' then some .closed else none

/-- Parameters may end here. -/
def Mode.mayEnd : Mode → Bool
  | .gap | .start | .value | .closed => true
  | .name | .opened | .quoted => false

def areParameters (cs : List Char) : Bool :=
  match cs.foldlM Mode.step .gap with
  | some m => m.mayEnd
  | none => false

/-- A subtype of JSON. -/
def isJsonSubtype (cs : List Char) : Bool :=
  let json := "json".toList
  match Text.cutLast '+' cs with
  | some (before, after) => if before.isEmpty then cs == json else before == json || after == json
  | none => cs == json

/-- The media type is one of JSON. -/
def isJson (s : String) : Bool :=
  let cs := (Text.lower s).toList
  let (essence, parameters) := match Text.cut ';' cs with
    | some (essence, parameters) => (essence, parameters)
    | none => (cs, [])
  match Text.cut '/' essence with
  | some (kind, subtype) =>
    kind == "application".toList && isName subtype && isJsonSubtype subtype &&
      areParameters parameters
  | none => false

end Montage.MediaType
