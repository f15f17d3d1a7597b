import Montage.Text.Integer
import Montage.Text.Split

/-!
# Routes

Each resource of the service has a path and answers to one method; what answers to `GET` answers to
`HEAD` too.  A path with a slash at its end is another path.  The segment that names a job may be
empty where another one follows, but not at the end.
-/

namespace Montage

/-- What a path names; a job is named by a segment that is still to be read. -/
inductive Resource where
  | renders
  | render (job : List Char)
  | renderEvents (job : List Char)
  | renderCancel (job : List Char)
  | compile
  deriving Repr, DecidableEq

/-- What is asked of the service. -/
inductive Route where
  | create
  | status (job : List Char)
  | events (job : List Char)
  | cancel (job : List Char)
  | compile
  deriving Repr, DecidableEq

namespace Resource

/-- A character of the scheme of an absolute address. -/
def isScheme (c : Char) : Bool := c.isAlphanum || c == '+' || c == '-' || c == '.'

/-- What follows the host of an absolute address; any other address as it is. -/
def afterHost (cs : List Char) : List Char :=
  match cs.dropWhile isScheme with
  | ':' :: '/' :: '/' :: rest => rest.dropWhile fun c => c != '/' && c != '?' && c != '#'
  | _ => cs

/-- The path in front of a query and a fragment. -/
def pathOf (uri : String) : List Char :=
  (afterHost uri.toList).takeWhile fun c => c != '?' && c != '#'

/-- The resource with these segments. -/
def ofSegments? : List (List Char) → Option Resource
  | [root, first] =>
    if !root.isEmpty then none
    else if first = "renders".toList then some .renders
    else if first = "compile".toList then some .compile
    else none
  | [root, first, job] =>
    if root.isEmpty && first == "renders".toList && !job.isEmpty then some (.render job) else none
  | [root, first, job, last] =>
    if root.isEmpty && first == "renders".toList then
      if last = "events".toList then some (.renderEvents job)
      else if last = "cancel".toList then some (.renderCancel job)
      else none
    else none
  | _ => none

/-- The resource that an address names. -/
def ofUri? (uri : String) : Option Resource :=
  ofSegments? (Text.splitWhere (· == '/') (pathOf uri))

/-- The method that the resource answers to, and what it does then. -/
def answers : Resource → String × Route
  | .renders => ("POST", .create)
  | .render job => ("GET", .status job)
  | .renderEvents job => ("GET", .events job)
  | .renderCancel job => ("POST", .cancel job)
  | .compile => ("POST", .compile)

/-- What the resource does for a method. -/
def route? (r : Resource) (method : String) : Option Route :=
  let (own, route) := r.answers
  if method = own ∨ (method = "HEAD" ∧ own = "GET") then some route else none

end Resource

namespace Route

/-- The characters that a segment stands for: a percent sign and two hexadecimal digits stand for
the byte with that value. -/
def decodeSegment : List Char → List Char
  | '%' :: a :: b :: rest =>
    match Text.hexDigit? a, Text.hexDigit? b with
    | some high, some low => Char.ofNat (16 * high + low) :: decodeSegment rest
    | _, _ => '%' :: decodeSegment (a :: b :: rest)
  | c :: rest => c :: decodeSegment rest
  | [] => []

/-- The number of a job that a segment stands for. -/
def jobId? (segment : List Char) : Option Int := Text.signed64? (decodeSegment segment)

end Route

end Montage
