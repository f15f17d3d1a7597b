import Montage.Json.Field
import Montage.Json.Text

/-!
# Reading text along a guide

A record that is read straight from a text names its fields before the text is seen.  Along such a
`Guide` a member with an unknown name is skipped, whatever stands in it; a known name may stand only
once; and a value of the wrong kind is a misfit as soon as it is met, before what follows it is
looked at.  What is read is an ordinary value that holds the known fields only.
-/

namespace Montage.Json

/-- Why a text cannot be read along a guide. -/
inductive Fault where
  /-- It is no JSON text. -/
  | malformed
  /-- It is a JSON text so far, but not of the shape that is asked for. -/
  | misfit
  deriving Repr, DecidableEq

/-- What a text is expected to hold. -/
inductive Guide where
  | any
  | bool
  | text
  /-- One of several words: a text, or an object with that word as its only name. -/
  | word
  | optional (inner : Guide)
  | list (inner : Guide)
  | record (fields : List (String × Guide))

namespace Guide

open Montage.Json.Text

def find (name : String) : List (String × Guide) → Option Guide
  | [] => none
  | (key, g) :: rest => if key = name then some g else find name rest

/-- The fault of a value of the wrong kind: a scalar is read before it is refused, a container is
refused at its first character. -/
def wrongKind (s : List Char) : Fault :=
  match skipGap s with
  | '[' :: _ | '\x7b' :: _ => .misfit
  | start => if (scalar? start).isSome then .misfit else .malformed

/-- Reads a value that is no container and that `keep` accepts. -/
def readScalar (keep : Json → Bool) (s : List Char) : Except Fault (Json × Rest s) :=
  match scalar? (skipGap s) with
  | some (v, ⟨rest, h⟩) =>
    if keep v then .ok (v, ⟨rest, Nat.lt_of_lt_of_le h (length_skipGap_le s)⟩)
    else .error .misfit
  | none => .error (wrongKind s)

/-- Reads what follows the first letter of `null`. -/
def afterN? (s : List Char) : Option (Rest s) :=
  match s with
  | 'u' :: 'l' :: 'l' :: _ => some (.behind 'u' (.behind 'l' .tail))
  | _ => none

/-- Reads what follows the brace of an object that holds one name and null. -/
def onlyName? (s : List Char) : Option (Json × Rest s) :=
  match name? s with
  | none => none
  | some (name, ⟨rest, hname⟩) =>
    match h : skipGap rest with
    | 'n' :: afterN =>
      match afterN? afterN with
      | none => none
      | some ⟨last, hlast⟩ =>
        match h' : skipGap last with
        | '\x7d' :: _ =>
          some (.obj [(name, .null)],
            .within hname (.within (length_lt_of_skipGap h) (.within hlast (.ofGap h'))))
        | _ => none
    | _ => none

def isBool : Json → Bool
  | .bool _ => true
  | _ => false

def isText : Json → Bool
  | .str _ => true
  | _ => false

mutual
/-- Reads a value along a guide, inside at most `depth` containers of its own. -/
def read (g : Guide) (depth : Nat) (s : List Char) : Except Fault (Json × Rest s) :=
  match g with
  | .any =>
    match value? depth s with
    | some result => .ok result
    | none => .error .malformed
  | .bool => readScalar isBool s
  | .text => readScalar isText s
  | .word =>
    match h : skipGap s with
    | '\x7b' :: rest =>
      match depth, onlyName? rest with
      | _ + 1, some (v, r) => .ok (v, .within (length_lt_of_skipGap h) r)
      | _, _ => .error .malformed
    | _ => readScalar isText s
  | .optional inner =>
    match h : skipGap s with
    | 'n' :: rest =>
      match afterN? rest with
      | some r => .ok (.null, .within (length_lt_of_skipGap h) r)
      | none => .error .malformed
    | _ => read inner depth s
  | .list inner =>
    match h : skipGap s with
    | '[' :: rest =>
      have hlt : rest.length < s.length := length_lt_of_skipGap h
      match depth with
      | 0 => .error .malformed
      | depth + 1 =>
        match h' : skipGap rest with
        | ']' :: _ => .ok (.arr [], .within hlt (.ofGap h'))
        | _ =>
          match readItems inner depth rest with
          | .error fault => .error fault
          | .ok (items, r) => .ok (.arr items, .within hlt r)
    | _ => .error (wrongKind s)
  | .record fields =>
    match h : skipGap s with
    | '[' :: rest =>
      have hlt : rest.length < s.length := length_lt_of_skipGap h
      match depth with
      | 0 => .error .malformed
      | depth + 1 =>
        match h' : skipGap rest with
        | ']' :: _ => .ok (.arr [], .within hlt (.ofGap h'))
        | _ =>
          match readPlaces fields depth rest with
          | .error fault => .error fault
          | .ok (items, r) => .ok (.arr items, .within hlt r)
    | '\x7b' :: rest =>
      have hlt : rest.length < s.length := length_lt_of_skipGap h
      match depth with
      | 0 => .error .malformed
      | depth + 1 =>
        match h' : skipGap rest with
        | '\x7d' :: _ => .ok (.obj [], .within hlt (.ofGap h'))
        | _ =>
          match readMembers fields [] depth rest with
          | .error fault => .error fault
          | .ok (members, r) => .ok (.obj members, .within hlt r)
    | _ => .error (wrongKind s)
termination_by (s.length, sizeOf g, 0)
/-- Reads the items of a list and its end; at least one item. -/
def readItems (g : Guide) (depth : Nat) (s : List Char) : Except Fault (List Json × Rest s) :=
  match read g depth s with
  | .error fault => .error fault
  | .ok (v, ⟨rest, hrest⟩) =>
    match h : skipGap rest with
    | ',' :: rest' =>
      have hlt : rest'.length < s.length := Nat.lt_trans (length_lt_of_skipGap h) hrest
      match readItems g depth rest' with
      | .error fault => .error fault
      | .ok (vs, r) => .ok (v :: vs, .within hlt r)
    | ']' :: _ => .ok ([v], .within hrest (.ofGap h))
    | _ => .error .malformed
termination_by (s.length, sizeOf g, 1)
/-- Reads the fields of a record in their order, and the end of the array. -/
def readPlaces (fields : List (String × Guide)) (depth : Nat) (s : List Char) :
    Except Fault (List Json × Rest s) :=
  match fields with
  | [] => .error .malformed
  | (_, g) :: fields =>
    match read g depth s with
    | .error fault => .error fault
    | .ok (v, ⟨rest, hrest⟩) =>
      match h : skipGap rest with
      | ',' :: rest' =>
        have hlt : rest'.length < s.length := Nat.lt_trans (length_lt_of_skipGap h) hrest
        match readPlaces fields depth rest' with
        | .error fault => .error fault
        | .ok (vs, r) => .ok (v :: vs, .within hlt r)
      | ']' :: _ => .ok ([v], .within hrest (.ofGap h))
      | _ => .error .malformed
termination_by (s.length, sizeOf fields, 0)
/-- Reads the members of a record and its end, given the known names met before; at least one
member. -/
def readMembers (fields : List (String × Guide)) (met : List String) (depth : Nat)
    (s : List Char) : Except Fault (List (String × Json) × Rest s) :=
  match h : skipGap s with
  | '\x22' :: afterQuote =>
    match stringBody? afterQuote with
    | none => .error .malformed
    | some (cs, ⟨afterName, hname⟩) =>
      let name := String.ofList cs
      if name ∈ met then .error .misfit
      else
        match h' : skipGap afterName with
        | ':' :: start =>
          have hstart : start.length < s.length :=
            Nat.lt_trans (length_lt_of_skipGap h')
              (Nat.lt_trans hname (length_lt_of_skipGap h))
          let step : Except Fault (Option Json × Rest s) :=
            match _hfind : find name fields with
            | none =>
              match skipValue? start with
              | none => .error .malformed
              | some r => .ok (none, .within hstart r)
            | some g =>
              match read g depth start with
              | .error fault => .error fault
              | .ok (v, r) => .ok (some v, .within hstart r)
          match step with
          | .error fault => .error fault
          | .ok (v, ⟨rest, hrest⟩) =>
            let found := (v.map fun v => (name, v)).toList
            let met := if v.isSome then name :: met else met
            match h'' : skipGap rest with
            | ',' :: rest' =>
              have hlt : rest'.length < s.length := Nat.lt_trans (length_lt_of_skipGap h'') hrest
              match readMembers fields met depth rest' with
              | .error fault => .error fault
              | .ok (ms, r) => .ok (found ++ ms, .within hlt r)
            | '\x7d' :: _ => .ok (found, .within hrest (.ofGap h''))
            | _ => .error .malformed
        | _ => .error .malformed
  | _ => .error .malformed
termination_by (s.length, sizeOf fields, 0)
end

/-- The containers that may stand around a place in a text. -/
def maxDepth : Nat := 127

/-- Reads the value at the head of a text; what follows it is not looked at. -/
def readHead (g : Guide) (s : String) : Except Fault Json :=
  (read g maxDepth s.toList).map (·.1)

/-- Reads the value that the whole text stands for. -/
def readWhole (g : Guide) (s : String) : Except Fault Json :=
  match read g maxDepth s.toList with
  | .error fault => .error fault
  | .ok (v, ⟨rest, _⟩) => if (skipGap rest).isEmpty then .ok v else .error .malformed

end Guide

end Montage.Json
