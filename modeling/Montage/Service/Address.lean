import Montage.Text.Ascii

/-!
# Socket addresses

An address is four octets or eight groups of sixteen bits, with a port, and for the latter possibly
a scope.  Readers take what they read off the front of a list of characters.

Octets have no zeros in front; groups have at most four digits; a port and a scope have any number
of digits as long as the value fits.  One `::` stands for a run of zero groups, and the last two
groups may be written as four octets.  An address is printed in its canonical form.
-/

namespace Montage

/-- Four octets. -/
structure Octets where
  a : UInt8
  b : UInt8
  c : UInt8
  d : UInt8
  deriving Repr, DecidableEq

abbrev Groups := Vector UInt16 8

/-- Where a service listens. -/
inductive SocketAddress where
  | v4 (host : Octets) (port : UInt16)
  | v6 (host : Groups) (scope : UInt32) (port : UInt16)
  deriving Repr, DecidableEq

namespace SocketAddress

/-! ## Reading -/

/-- A reader of the front of a text. -/
abbrev Reader (α : Type) := List Char → Option (α × List Char)

def char (c : Char) : Reader Unit
  | d :: rest => if c = d then some ((), rest) else none
  | [] => none

/-- Reads decimal digits, at least one, of a value below a bound. -/
def decimal (bound : Nat) : Reader Nat := fun cs =>
  match Text.natOfDigits? (cs.takeWhile Char.isDigit) with
  | some n => if n < bound then some (n, cs.dropWhile Char.isDigit) else none
  | none => none

/-- Reads an octet. -/
def octet : Reader UInt8 := fun cs =>
  let digits := cs.takeWhile Char.isDigit
  if digits.length ≤ 3 && (digits.head? != some '0' || digits.length == 1) then
    (decimal 256 cs).map fun (n, rest) => (UInt8.ofNat n, rest)
  else none

/-- Reads four octets with dots between them. -/
def octets : Reader Octets := fun cs => do
  let (a, cs) ← octet cs
  let ((), cs) ← char '.' cs
  let (b, cs) ← octet cs
  let ((), cs) ← char '.' cs
  let (c, cs) ← octet cs
  let ((), cs) ← char '.' cs
  let (d, cs) ← octet cs
  return (⟨a, b, c, d⟩, cs)

/-- Reads a group: one to four hexadecimal digits. -/
def group : Reader UInt16 := fun cs =>
  let digits := cs.takeWhile Text.isHexDigit
  if digits.isEmpty || 4 < digits.length then none
  else
    let n := digits.foldl (fun n c => 16 * n + (Text.hexDigit? c).getD 0) 0
    some (UInt16.ofNat n, cs.dropWhile Text.isHexDigit)

/-- The two groups that four octets stand for. -/
def octetGroups (o : Octets) : List UInt16 :=
  [UInt16.ofNat (o.a.toNat * 256 + o.b.toNat), UInt16.ofNat (o.c.toNat * 256 + o.d.toNat)]

/-- Reads the colon in front of a group; the first group has none. -/
def separator (first : Bool) : Reader Unit := fun cs => if first then some ((), cs) else char ':' cs

/-- What a run of groups is. -/
structure GroupRun where
  groups : List UInt16
  /-- It ended in four octets. -/
  octets : Bool
  deriving Repr, DecidableEq

/-- Reads groups with colons between them, as many as there are up to a number.  Four octets may
stand where there is room for two groups; nothing follows them. -/
def groupRun (first : Bool) (cs : List Char) : Nat → GroupRun × List Char
  | 0 => (⟨[], false⟩, cs)
  | room + 1 =>
    let inside := (separator first cs).map (·.2)
    match if room = 0 then none else inside.bind octets with
    | some (o, rest) => (⟨octetGroups o, true⟩, rest)
    | none =>
      match inside.bind group with
      | none => (⟨[], false⟩, cs)
      | some (g, rest) =>
        let (run, rest) := groupRun false rest room
        (⟨g :: run.groups, run.octets⟩, rest)

/-- Eight groups, zeros where the lists leave a gap. -/
def fill (front back : List UInt16) : Groups :=
  let all := front ++ List.replicate (8 - front.length - back.length) 0 ++ back
  Vector.ofFn fun i => all.getD i 0

/-- Reads eight groups, or fewer with `::` between them. -/
def groups : Reader Groups := fun cs => do
  let (front, cs) := groupRun true cs 8
  if front.groups.length = 8 then return (fill front.groups [], cs)
  if front.octets then none
  let ((), cs) ← char ':' cs
  let ((), cs) ← char ':' cs
  let (back, cs) := groupRun true cs (7 - front.groups.length)
  return (fill front.groups back.groups, cs)

/-- Reads a colon and a port. -/
def port : Reader UInt16 := fun cs => do
  let ((), cs) ← char ':' cs
  let (n, cs) ← decimal UInt16.size cs
  return (UInt16.ofNat n, cs)

/-- Reads a percent sign and a scope, if they are there. -/
def scope (cs : List Char) : UInt32 × List Char :=
  match (char '%' cs).bind fun ((), cs) => decimal UInt32.size cs with
  | some (n, rest) => (UInt32.ofNat n, rest)
  | none => (0, cs)

/-- Reads octets and a port. -/
def readV4 : Reader SocketAddress := fun cs => do
  let (host, cs) ← octets cs
  let (port, cs) ← port cs
  return (.v4 host port, cs)

/-- Reads groups and a scope in square brackets, and a port. -/
def readV6 : Reader SocketAddress := fun cs => do
  let ((), cs) ← char '[' cs
  let (host, cs) ← groups cs
  let (scope, cs) := scope cs
  let ((), cs) ← char ']' cs
  let (port, cs) ← port cs
  return (.v6 host scope port, cs)

/-- The address that a text stands for. -/
def ofText? (s : String) : Option SocketAddress :=
  match (readV4 s.toList).or (readV6 s.toList) with
  | some (address, []) => some address
  | _ => none

/-! ## Printing -/

def octetsText (o : Octets) : String :=
  ".".intercalate ([o.a, o.b, o.c, o.d].map fun n => toString n.toNat)

/-- Groups as text, without any left out. -/
def groupsText (gs : List UInt16) : String :=
  ":".intercalate (gs.map fun g => String.ofList (Nat.toDigits 16 g.toNat))

/-- How many zeros stand at the front. -/
def zeroRun (gs : List UInt16) : Nat := (gs.takeWhile (· == 0)).length

/-- The start and the length of the longest run of zeros, the first one of equals. -/
def longestZeroRun (gs : List UInt16) : Nat × Nat :=
  (List.range gs.length).foldl
    (fun best i => if best.2 < zeroRun (gs.drop i) then (i, zeroRun (gs.drop i)) else best) (0, 0)

/-- The octets in groups that stand for four octets. -/
def mappedOctets? (gs : List UInt16) : Option Octets :=
  match gs with
  | [0, 0, 0, 0, 0, 0xffff, x, y] =>
    some ⟨(x >>> 8).toUInt8, x.toUInt8, (y >>> 8).toUInt8, y.toUInt8⟩
  | _ => none

def hostText (host : Groups) : String :=
  let gs := host.toList
  match mappedOctets? gs with
  | some o => "::ffff:" ++ octetsText o
  | none =>
    let (start, length) := longestZeroRun gs
    if 1 < length then groupsText (gs.take start) ++ "::" ++ groupsText (gs.drop (start + length))
    else groupsText gs

def text : SocketAddress → String
  | .v4 host port => octetsText host ++ ":" ++ toString port.toNat
  | .v6 host scope port =>
    let scopeText := if scope = 0 then "" else "%" ++ toString scope.toNat
    "[" ++ hostText host ++ scopeText ++ "]:" ++ toString port.toNat

end SocketAddress

end Montage
