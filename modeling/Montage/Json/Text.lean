import Montage.Decimal.Scaled
import Montage.Json.Value
import Montage.Text.Ascii

/-!
# Reading JSON text

The strict grammar: blanks are space, tab, line feed and carriage return; strings hold no bare
control character and no lone surrogate; numbers have no leading zero; nothing may follow the last
item of a container but its end.  A value may stand inside a bounded number of containers, a
skipped value inside any number.

Every step returns the rest of the text with the fact that it is shorter, which is why the readers
end.
-/

namespace Montage.Json.Text

/-- What is left of `s` once at least one character is read. -/
abbrev Rest (s : List Char) := { r : List Char // r.length < s.length }

/-- What is left behind the first character. -/
def Rest.tail {c : Char} {s : List Char} : Rest (c :: s) := ⟨s, Nat.lt_succ_self _⟩

/-- What is left of a text is left of the text with one more character in front. -/
def Rest.behind (c : Char) {s : List Char} (r : Rest s) : Rest (c :: s) :=
  ⟨r.1, Nat.lt_succ_of_lt r.2⟩

/-- What is left of something that is left. -/
def Rest.within {s rest : List Char} (h : rest.length < s.length) (r : Rest rest) : Rest s :=
  ⟨r.1, Nat.lt_trans r.2 h⟩

/-- Space, tab, line feed, carriage return. -/
def isGap (c : Char) : Bool := c == ' ' || c == '\t' || c == '\n' || c == '\r'

/-- The text from its first character that is no blank. -/
def skipGap (s : List Char) : List Char := s.dropWhile isGap

theorem length_skipGap_le (s : List Char) : (skipGap s).length ≤ s.length :=
  (List.dropWhile_sublist _).length_le

theorem length_lt_of_skipGap {s rest : List Char} {c : Char} (h : skipGap s = c :: rest) :
    rest.length < s.length := by
  have := length_skipGap_le s
  rw [h] at this
  exact this

/-- What is left behind the first character that is no blank. -/
def Rest.ofGap {s rest : List Char} {c : Char} (h : skipGap s = c :: rest) : Rest s :=
  ⟨rest, length_lt_of_skipGap h⟩

/-! ## Strings -/

/-- The value of four hexadecimal digits. -/
def hexFour? (a b c d : Char) : Option Nat := do
  let a ← Text.hexDigit? a
  let b ← Text.hexDigit? b
  let c ← Text.hexDigit? c
  let d ← Text.hexDigit? d
  some (((a * 16 + b) * 16 + c) * 16 + d)

/-- The character of an escape with one letter. -/
def plainEscape? (c : Char) : Option Char :=
  match c with
  | '\x22' => some '\x22'
  | '\\' => some '\\'
  | '/' => some '/'
  | 'b' => some '\x08'
  | 'f' => some '\x0c'
  | 'n' => some '\n'
  | 'r' => some '\r'
  | 't' => some '\t'
  | _ => none

/-- Reads what follows a backslash.  A leading surrogate needs a trailing one right behind it. -/
def escape? (s : List Char) : Option (Char × Rest s) :=
  match s with
  | 'u' :: a :: b :: c :: d :: rest => do
    let first ← hexFour? a b c d
    if 0xDC00 ≤ first ∧ first ≤ 0xDFFF then none
    else if 0xD800 ≤ first ∧ first ≤ 0xDBFF then
      match hrest : rest with
      | '\\' :: 'u' :: e :: f :: g :: h :: rest' => do
        let second ← hexFour? e f g h
        if 0xDC00 ≤ second ∧ second ≤ 0xDFFF then
          some (Char.ofNat (0x10000 + (first - 0xD800) * 0x400 + (second - 0xDC00)),
            ⟨rest', by simp only [hrest, List.length_cons]; omega⟩)
        else none
      | _ => none
    else some (Char.ofNat first, ⟨rest, by simp only [List.length_cons]; omega⟩)
  | c :: rest => (plainEscape? c).map fun e => (e, .tail)
  | [] => none

/-- Reads a string up to its closing quote; the opening quote is already read. -/
def stringBody? (s : List Char) : Option (List Char × Rest s) :=
  match s with
  | [] => none
  | c :: rest =>
    if c = '\x22' then some ([], .tail)
    else if c = '\\' then
      match escape? rest with
      | none => none
      | some (e, ⟨rest', h⟩) =>
        match stringBody? rest' with
        | none => none
        | some (cs, r) => some (e :: cs, .behind c (.within h r))
    else if c.toNat < 0x20 then none
    else
      match stringBody? rest with
      | none => none
      | some (cs, r) => some (c :: cs, .behind c r)
termination_by s.length
decreasing_by all_goals (simp only [List.length_cons]; omega)

/-- Skips a string up to its closing quote.  Surrogates need not be paired. -/
def skipString? (s : List Char) : Option (Rest s) :=
  match s with
  | [] => none
  | '\\' :: 'u' :: a :: b :: c :: d :: rest =>
    match hexFour? a b c d, skipString? rest with
    | some _, some ⟨end', _⟩ => some ⟨end', by simp only [List.length_cons]; omega⟩
    | _, _ => none
  | '\\' :: c :: rest =>
    match plainEscape? c, skipString? rest with
    | some _, some r => some (.behind '\\' (.behind c r))
    | _, _ => none
  | c :: rest =>
    if c = '\x22' then some .tail
    else if c.toNat < 0x20 ∨ c = '\\' then none
    else (skipString? rest).map fun r => .behind c r

/-! ## Numbers and words -/

/-- The integer that a numeral stands for, if sixty-four bits hold it with its sign.  `-0` is none,
because an integer would lose the sign. -/
def integerOf? (negative : Bool) (n : Decimal.Numeral) : Option Int :=
  n.natural?.bind fun value =>
    if ¬negative then some value
    else if value ≠ 0 ∧ Int64.minValue.toInt ≤ -(value : Int) then some (-value)
    else none

/-- The value of a numeral: an integer if there is one, else a float, which has to be finite. -/
def numberOf? (negative : Bool) (n : Decimal.Numeral) : Option Json :=
  match integerOf? negative n with
  | some value => some (.int value)
  | none => (n.toFloat? negative).map .float

def number? (s : List Char) : Option (Json × Rest s) :=
  match s with
  | '-' :: digits =>
    match h : Decimal.numeral? digits with
    | none => none
    | some (n, rest) => (numberOf? true n).map fun v =>
      (v, ⟨rest, by have := Decimal.length_numeral?_lt h; simp only [List.length_cons]; omega⟩)
  | digits =>
    match h : Decimal.numeral? digits with
    | none => none
    | some (n, rest) => (numberOf? false n).map fun v => (v, ⟨rest, Decimal.length_numeral?_lt h⟩)

/-- Reads a value that is no container. -/
def scalar? (s : List Char) : Option (Json × Rest s) :=
  match s with
  | '\x22' :: rest =>
    (stringBody? rest).map fun (cs, r) => (.str (String.ofList cs), .behind '\x22' r)
  | 'n' :: 'u' :: 'l' :: 'l' :: rest => some (.null, ⟨rest, by simp only [List.length_cons]; omega⟩)
  | 't' :: 'r' :: 'u' :: 'e' :: rest =>
    some (.bool true, ⟨rest, by simp only [List.length_cons]; omega⟩)
  | 'f' :: 'a' :: 'l' :: 's' :: 'e' :: rest =>
    some (.bool false, ⟨rest, by simp only [List.length_cons]; omega⟩)
  | s => number? s

/-! ## Values -/

/-- Reads the name of a member and the colon behind it. -/
def name? (s : List Char) : Option (String × Rest s) :=
  match h : skipGap s with
  | '\x22' :: rest =>
    match stringBody? rest with
    | none => none
    | some (cs, ⟨rest', h'⟩) =>
      match h'' : skipGap rest' with
      | ':' :: _ =>
        some (String.ofList cs, .within (length_lt_of_skipGap h) (.within h' (.ofGap h'')))
      | _ => none
  | _ => none

mutual
/-- Reads a value inside at most `depth` containers of its own. -/
def value? (depth : Nat) (s : List Char) : Option (Json × Rest s) :=
  match h : skipGap s with
  | '[' :: rest =>
    have hlt : rest.length < s.length := length_lt_of_skipGap h
    match depth with
    | 0 => none
    | depth + 1 =>
      match h' : skipGap rest with
      | ']' :: _ => some (.arr [], .within hlt (.ofGap h'))
      | _ =>
        match items? depth rest with
        | none => none
        | some (items, r) => some (.arr items, .within hlt r)
  | '\x7b' :: rest =>
    have hlt : rest.length < s.length := length_lt_of_skipGap h
    match depth with
    | 0 => none
    | depth + 1 =>
      match h' : skipGap rest with
      | '\x7d' :: _ => some (.obj [], .within hlt (.ofGap h'))
      | _ =>
        match members? depth rest with
        | none => none
        | some (members, r) => some (.ofMembers members, .within hlt r)
  | start =>
    (scalar? start).map fun (v, ⟨rest, hlt⟩) =>
      (v, ⟨rest, Nat.lt_of_lt_of_le hlt (h ▸ length_skipGap_le s)⟩)
termination_by (s.length, 0)
/-- Reads the items of an array and its end; at least one item. -/
def items? (depth : Nat) (s : List Char) : Option (List Json × Rest s) :=
  match value? depth s with
  | none => none
  | some (v, ⟨rest, hrest⟩) =>
    match h : skipGap rest with
    | ',' :: rest' =>
      have hlt : rest'.length < s.length := Nat.lt_trans (length_lt_of_skipGap h) hrest
      match items? depth rest' with
      | none => none
      | some (vs, r) => some (v :: vs, .within hlt r)
    | ']' :: _ => some ([v], .within hrest (.ofGap h))
    | _ => none
termination_by (s.length, 1)
/-- Reads the members of an object and its end; at least one member. -/
def members? (depth : Nat) (s : List Char) : Option (List (String × Json) × Rest s) :=
  match name? s with
  | none => none
  | some (name, ⟨s', hname⟩) =>
    match value? depth s' with
    | none => none
    | some (v, ⟨rest, hrest'⟩) =>
      have hrest : rest.length < s.length := Nat.lt_trans hrest' hname
      match h : skipGap rest with
      | ',' :: rest' =>
        have hlt : rest'.length < s.length := Nat.lt_trans (length_lt_of_skipGap h) hrest
        match members? depth rest' with
        | none => none
        | some (ms, r) => some ((name, v) :: ms, .within hlt r)
      | '\x7d' :: _ => some ([(name, v)], .within hrest (.ofGap h))
      | _ => none
termination_by (s.length, 1)
end

/-! ## Skipped values -/

/-- Skips the name of a member and the colon behind it. -/
def skipName? (s : List Char) : Option (Rest s) :=
  match h : skipGap s with
  | '\x22' :: rest =>
    match skipString? rest with
    | none => none
    | some ⟨rest', h'⟩ =>
      match h'' : skipGap rest' with
      | ':' :: _ => some (.within (length_lt_of_skipGap h) (.within h' (.ofGap h'')))
      | _ => none
  | _ => none

/-- Skips a value that is no container; a number may have any size. -/
def skipScalar? (s : List Char) : Option (Rest s) :=
  match s with
  | '\x22' :: rest =>
    (skipString? rest).map fun r => .behind '\x22' r
  | 'n' :: 'u' :: 'l' :: 'l' :: rest => some ⟨rest, by simp only [List.length_cons]; omega⟩
  | 't' :: 'r' :: 'u' :: 'e' :: rest => some ⟨rest, by simp only [List.length_cons]; omega⟩
  | 'f' :: 'a' :: 'l' :: 's' :: 'e' :: rest => some ⟨rest, by simp only [List.length_cons]; omega⟩
  | '-' :: digits =>
    match h : Decimal.numeral? digits with
    | none => none
    | some (_, rest) =>
      some ⟨rest, by have := Decimal.length_numeral?_lt h; simp only [List.length_cons]; omega⟩
  | digits =>
    match h : Decimal.numeral? digits with
    | none => none
    | some (_, rest) => some ⟨rest, Decimal.length_numeral?_lt h⟩

mutual
/-- Skips a value inside any number of containers. -/
def skipValue? (s : List Char) : Option (Rest s) :=
  match h : skipGap s with
  | '[' :: rest =>
    have hlt : rest.length < s.length := length_lt_of_skipGap h
    match h' : skipGap rest with
    | ']' :: _ => some (.within hlt (.ofGap h'))
    | _ => (skipItems? rest).map fun r => .within hlt r
  | '\x7b' :: rest =>
    have hlt : rest.length < s.length := length_lt_of_skipGap h
    match h' : skipGap rest with
    | '\x7d' :: _ => some (.within hlt (.ofGap h'))
    | _ => (skipMembers? rest).map fun r => .within hlt r
  | start =>
    (skipScalar? start).map fun ⟨rest, hlt⟩ =>
      ⟨rest, Nat.lt_of_lt_of_le hlt (h ▸ length_skipGap_le s)⟩
termination_by (s.length, 0)
def skipItems? (s : List Char) : Option (Rest s) :=
  match skipValue? s with
  | none => none
  | some ⟨rest, hrest⟩ =>
    match h : skipGap rest with
    | ',' :: rest' =>
      have hlt : rest'.length < s.length := Nat.lt_trans (length_lt_of_skipGap h) hrest
      (skipItems? rest').map fun r => .within hlt r
    | ']' :: _ => some (.within hrest (.ofGap h))
    | _ => none
termination_by (s.length, 1)
/-- Skips the members of an object and its end. -/
def skipMembers? (s : List Char) : Option (Rest s) :=
  match skipName? s with
  | none => none
  | some ⟨s', hname⟩ =>
    match skipValue? s' with
    | none => none
    | some ⟨rest, hrest'⟩ =>
      have hrest : rest.length < s.length := Nat.lt_trans hrest' hname
      match h : skipGap rest with
      | ',' :: rest' =>
        have hlt : rest'.length < s.length := Nat.lt_trans (length_lt_of_skipGap h) hrest
        (skipMembers? rest').map fun r => .within hlt r
      | '\x7d' :: _ => some (.within hrest (.ofGap h))
      | _ => none
termination_by (s.length, 1)
end

end Montage.Json.Text

namespace Montage.Json

/-- The value that the whole text stands for, inside at most `depth` containers. -/
def parse? (depth : Nat) (s : String) : Option Json :=
  match Text.value? depth s.toList with
  | some (v, ⟨rest, _⟩) => if (Text.skipGap rest).isEmpty then some v else none
  | none => none

end Montage.Json
