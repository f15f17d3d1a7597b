import Montage.Text.Ascii

/-!
# Reading decimals

There are two grammars.  `numeral?` cuts the longest unsigned numeral of the strict kind off a text
(no leading zero, digits on both sides of the point) and takes it apart.  `ofText?` reads a whole
text of the free kind (sign, bare point, infinities) as the float nearest to it.
-/

namespace Montage.Decimal

/-- The float nearest to `± digits * 10 ^ exponent`; an infinity beyond the range.  Exponents far
outside the range are not worked out. -/
def nearest (negative : Bool) (digits : Nat) (exponent : Int) : Float :=
  let magnitude : Float :=
    if digits = 0 then 0.0
    else
      let top := exponent + (Nat.toDigits 10 digits).length
      if top > 400 then 1.0 / 0.0
      else if top < -400 then 0.0
      else if exponent ≥ 0 then Float.ofScientific digits false exponent.toNat
      else Float.ofScientific digits true (-exponent).toNat
  if negative then -magnitude else magnitude

/-- An unsigned numeral taken apart. -/
structure Numeral where
  /-- The digits before the point. -/
  whole : List Char
  /-- The digits after the point; none if there is no point. -/
  decimals : List Char
  /-- The exponent, if one is written. -/
  exponent : Option Int

/-- The leading decimal digits and what follows them. -/
def spanDigits (cs : List Char) : List Char × List Char :=
  (cs.takeWhile Char.isDigit, cs.dropWhile Char.isDigit)

/-- The fraction: a point and at least one digit, or nothing. -/
def fraction? (cs : List Char) : Option (List Char × List Char) :=
  match cs with
  | '.' :: rest =>
    let (digits, rest) := spanDigits rest
    if digits = [] then none else some (digits, rest)
  | _ => some ([], cs)

/-- The digits of an exponent after its mark, with an optional sign. -/
def exponentDigits? (cs : List Char) : Option (Int × List Char) :=
  let (negative, rest) := match cs with
    | '+' :: rest => (false, rest)
    | '-' :: rest => (true, rest)
    | _ => (false, cs)
  let (digits, rest) := spanDigits rest
  if digits = [] then none
  else
    let n : Int := Nat.ofDigitChars 10 digits 0
    some (if negative then -n else n, rest)

/-- The exponent, or nothing and zero. -/
def exponent? (cs : List Char) : Option (Option Int × List Char) :=
  match cs with
  | 'e' :: rest | 'E' :: rest => (exponentDigits? rest).map fun (n, rest) => (some n, rest)
  | _ => some (none, cs)

/-- Digits that may stand before the point: at least one, and no zero in front of others. -/
def isWholePart : List Char → Bool
  | [] => false
  | '0' :: rest => rest.isEmpty
  | _ => true

/-- The longest unsigned strict numeral at the head of the text: no leading zero, a digit before
the point and after it, a digit in the exponent. -/
def numeral? (cs : List Char) : Option (Numeral × List Char) :=
  if isWholePart (spanDigits cs).1 then
    (fraction? (spanDigits cs).2).bind fun (decimals, afterPoint) =>
      (exponent? afterPoint).map fun (exponent, afterAll) =>
        (⟨(spanDigits cs).1, decimals, exponent⟩, afterAll)
  else none

/-! ## What is left gets shorter -/

theorem length_spanDigits_le (cs : List Char) : (spanDigits cs).2.length ≤ cs.length := by
  unfold spanDigits
  exact (List.dropWhile_sublist _).length_le

theorem length_spanDigits_lt {cs : List Char} (h : (spanDigits cs).1 ≠ []) :
    (spanDigits cs).2.length < cs.length := by
  have hsum : (spanDigits cs).1.length + (spanDigits cs).2.length = cs.length := by
    unfold spanDigits
    rw [← List.length_append, List.takeWhile_append_dropWhile]
  have hpos : 0 < (spanDigits cs).1.length := List.length_pos_iff.2 h
  omega

theorem length_fraction?_le {cs ds rest : List Char} (h : fraction? cs = some (ds, rest)) :
    rest.length ≤ cs.length := by
  unfold fraction? at h
  split at h
  · next r =>
    have hle := length_spanDigits_le r
    simp only at h
    split at h
    · simp at h
    · simp only [Option.some.injEq, Prod.mk.injEq] at h
      rw [← h.2]
      simp only [List.length_cons]
      omega
  · simp_all

theorem length_exponentDigits?_le {cs rest : List Char} {n : Int}
    (h : exponentDigits? cs = some (n, rest)) : rest.length ≤ cs.length := by
  unfold exponentDigits? at h
  split at h
  next x negative r hr =>
  have hle : r.length ≤ cs.length := by
    split at hr <;> simp only [Prod.mk.injEq] at hr <;> rw [← hr.2] <;> simp
  have := length_spanDigits_le r
  simp only at h
  split at h
  · simp at h
  · simp only [Option.some.injEq, Prod.mk.injEq] at h
    rw [← h.2]
    omega

theorem length_exponent?_le {cs rest : List Char} {n : Option Int}
    (h : exponent? cs = some (n, rest)) : rest.length ≤ cs.length := by
  unfold exponent? at h
  split at h
  · simp only [Option.map_eq_some_iff, Prod.mk.injEq, Prod.exists] at h
    obtain ⟨m, r, hm, _, rfl⟩ := h
    have := length_exponentDigits?_le hm
    simp only [List.length_cons]
    omega
  · simp only [Option.map_eq_some_iff, Prod.mk.injEq, Prod.exists] at h
    obtain ⟨m, r, hm, _, rfl⟩ := h
    have := length_exponentDigits?_le hm
    simp only [List.length_cons]
    omega
  · simp_all

theorem length_numeral?_lt {cs rest : List Char} {n : Numeral}
    (h : numeral? cs = some (n, rest)) : rest.length < cs.length := by
  unfold numeral? at h
  split at h
  · next hw =>
    simp only [Option.bind_eq_some_iff, Option.map_eq_some_iff, Prod.exists, Prod.mk.injEq] at h
    obtain ⟨fs, r₁, hf, e, r₂, he, _, rfl⟩ := h
    have h₁ := length_fraction?_le hf
    have h₂ := length_exponent?_le he
    have h₃ : (spanDigits cs).2.length < cs.length :=
      length_spanDigits_lt fun hnil => by simp [hnil, isWholePart] at hw
    omega
  · simp at h

/-! ## Free numerals -/

/-- A whole text as a float: an optional sign, then digits with at most one point and at least one
digit, with an optional exponent; or `inf`, `infinity` or `nan` in any case. -/
def ofText? (s : String) : Option Float :=
  let (negative, body) := match s.toList with
    | '+' :: rest => (false, rest)
    | '-' :: rest => (true, rest)
    | cs => (false, cs)
  let signed (x : Float) : Float := if negative then -x else x
  let word := String.ofList (body.map Char.toLower)
  if word == "inf" || word == "infinity" then some (signed (1.0 / 0.0))
  else if word == "nan" then some (signed (0.0 / 0.0))
  else
    let (digits, rest) := spanDigits body
    let (decimals, rest) := match rest with
      | '.' :: rest => spanDigits rest
      | _ => ([], rest)
    if digits = [] ∧ decimals = [] then none
    else
      match exponent? rest with
      | some (exponent, []) =>
        let value := Nat.ofDigitChars 10 (digits ++ decimals) 0
        some (nearest negative value (exponent.getD 0 - decimals.length))
      | _ => none

end Montage.Decimal
