import Montage.Subtitle.Style

/-!
# Which texts are colours to a style

A colour is given by one of six names or by a mark and six digits, red first.  In a style it is
written blue first and in capitals.  A text that is neither is meant for the filter and has to stay
as it is (`Follows`).  That is so except for the texts with six digits behind more than one mark,
which are rewritten as well (`follows_color_iff`).
-/

namespace Montage

namespace Text

/-! ## Digits -/

/-- The digit with the value, in capitals. -/
def capitalDigit (n : Nat) : Char := (Nat.digitChar n).toUpper

theorem hexDigit?_capitalDigit {n : Nat} (h : n < 16) : hexDigit? (capitalDigit n) = some n := by
  have hall : ∀ n < 16, hexDigit? (capitalDigit n) = some n := by decide
  exact hall n h

/-- A digit tells its value, and its value tells the digit up to case. -/
theorem capitalDigit_of_hexDigit? {c : Char} {n : Nat} (h : hexDigit? c = some n) :
    n < 16 ∧ capitalDigit n = c.toUpper := by
  have hhex : isHexDigit c = true := by rw [← isSome_hexDigit?, h, Option.isSome_some]
  have hall : ∀ k < 128, ∀ m ∈ hexDigit? (Char.ofNat k),
      m < 16 ∧ capitalDigit m = (Char.ofNat k).toUpper := by decide
  have hc := hall c.toNat (toNat_lt_of_isHexDigit hhex) n
  rw [Char.ofNat_toNat] at hc
  exact hc h

end Text

namespace Subtitle

/-! ## Colours -/

/-- How much of a colour there is, as two digits. -/
def amount? (high low : Char) : Option UInt8 := do
  let h ← Text.hexDigit? high
  let l ← Text.hexDigit? low
  return UInt8.ofNat (16 * h + l)

def amountDigits (n : UInt8) : List Char :=
  [Text.capitalDigit (n.toNat / 16), Text.capitalDigit (n.toNat % 16)]

structure Rgb where
  red : UInt8
  green : UInt8
  blue : UInt8
deriving DecidableEq, Repr

/-- Two digits each, red first. -/
def Rgb.ofDigits? : List Char → Option Rgb
  | [r₁, r₂, g₁, g₂, b₁, b₂] => do
    let red ← amount? r₁ r₂
    let green ← amount? g₁ g₂
    let blue ← amount? b₁ b₂
    return ⟨red, green, blue⟩
  | _ => none

/-- A colour in a style: blue first. -/
def Rgb.inStyle (c : Rgb) : String :=
  String.ofList (['&', 'H', '0', '0'] ++
    (amountDigits c.blue ++ amountDigits c.green ++ amountDigits c.red) ++ ['&'])

/-- The colour that a style means. -/
def Rgb.ofStyle? (s : String) : Option Rgb :=
  match s.toList with
  | ['&', 'H', '0', '0', b₁, b₂, g₁, g₂, r₁, r₂, '&'] => Rgb.ofDigits? [r₁, r₂, g₁, g₂, b₁, b₂]
  | _ => none

theorem isSome_amount? (high low : Char) :
    (amount? high low).isSome = (Text.isHexDigit high && Text.isHexDigit low) := by
  rw [← Text.isSome_hexDigit?, ← Text.isSome_hexDigit?, amount?]
  cases Text.hexDigit? high with
  | none => rfl
  | some h =>
    cases Text.hexDigit? low with
    | none => rfl
    | some l => rfl

theorem amount?_amountDigits (n : UInt8) :
    amount? (Text.capitalDigit (n.toNat / 16)) (Text.capitalDigit (n.toNat % 16)) = some n := by
  have hsize : n.toNat < 256 := n.toNat_lt
  have hhigh : n.toNat / 16 < 16 := by omega
  have hlow : n.toNat % 16 < 16 := by omega
  rw [amount?, Text.hexDigit?_capitalDigit hhigh, Text.hexDigit?_capitalDigit hlow]
  show some (UInt8.ofNat (16 * (n.toNat / 16) + n.toNat % 16)) = some n
  rw [Nat.div_add_mod, UInt8.ofNat_toNat]

theorem amountDigits_of_amount? {high low : Char} {n : UInt8} (h : amount? high low = some n) :
    amountDigits n = [high.toUpper, low.toUpper] := by
  simp only [amount?, Option.bind_eq_bind, Option.bind_eq_some_iff, Option.pure_def,
    Option.some.injEq] at h
  obtain ⟨i, hi, j, hj, rfl⟩ := h
  obtain ⟨hi₁, hi₂⟩ := Text.capitalDigit_of_hexDigit? hi
  obtain ⟨hj₁, hj₂⟩ := Text.capitalDigit_of_hexDigit? hj
  have hn : (UInt8.ofNat (16 * i + j)).toNat = 16 * i + j := UInt8.toNat_ofNat_of_lt' (by
    show 16 * i + j < 256
    omega)
  have hhigh : (16 * i + j) / 16 = i := by omega
  have hlow : (16 * i + j) % 16 = j := by omega
  rw [amountDigits, hn, hhigh, hlow, hi₂, hj₂]

namespace Rgb

theorem ofDigits?_amountDigits (c : Rgb) :
    ofDigits? (amountDigits c.red ++ amountDigits c.green ++ amountDigits c.blue) = some c := by
  simp only [amountDigits, List.cons_append, List.nil_append, ofDigits?]
  rw [amount?_amountDigits, amount?_amountDigits, amount?_amountDigits]
  rfl

/-- A colour is read back from a style. -/
theorem ofStyle?_inStyle (c : Rgb) : ofStyle? c.inStyle = some c := by
  unfold ofStyle? inStyle
  rw [String.toList_ofList]
  exact ofDigits?_amountDigits c

theorem isSome_ofDigits? (r₁ r₂ g₁ g₂ b₁ b₂ : Char) :
    (ofDigits? [r₁, r₂, g₁, g₂, b₁, b₂]).isSome =
      [r₁, r₂, g₁, g₂, b₁, b₂].all Text.isHexDigit := by
  have hred := isSome_amount? r₁ r₂
  have hgreen := isSome_amount? g₁ g₂
  have hblue := isSome_amount? b₁ b₂
  simp only [ofDigits?, List.all_cons, List.all_nil, Bool.and_true]
  rw [← Bool.and_assoc, ← hred, ← Bool.and_assoc (Text.isHexDigit g₁), ← hgreen, ← hblue]
  cases amount? r₁ r₂ <;> cases amount? g₁ g₂ <;> cases amount? b₁ b₂ <;> rfl

/-- The digits of a colour are turned around two at a time and put in capitals. -/
theorem inStyle_of_ofDigits? {r₁ r₂ g₁ g₂ b₁ b₂ : Char} {c : Rgb}
    (h : ofDigits? [r₁, r₂, g₁, g₂, b₁, b₂] = some c) :
    c.inStyle = String.ofList (['&', 'H', '0', '0'] ++
      [b₁, b₂, g₁, g₂, r₁, r₂].map Char.toUpper ++ ['&']) := by
  simp only [ofDigits?, Option.bind_eq_bind, Option.bind_eq_some_iff, Option.pure_def,
    Option.some.injEq] at h
  obtain ⟨red, hred, green, hgreen, blue, hblue, rfl⟩ := h
  rw [inStyle, amountDigits_of_amount? hred, amountDigits_of_amount? hgreen,
    amountDigits_of_amount? hblue]
  rfl

/-- A mark is no digit. -/
theorem ofDigits?_mark (rest : List Char) : ofDigits? ('#' :: rest) = none := by
  unfold ofDigits?
  split
  · next heq =>
    cases heq
    rfl
  · rfl

/-- A colour in a style starts with another mark than any colour that is given. -/
theorem inStyle_ne {s : String} {rest : List Char} (h : s.toList = '#' :: rest) (c : Rgb) :
    c.inStyle ≠ s := by
  intro heq
  have hlist : c.inStyle.toList = '#' :: rest := by rw [heq, h]
  rw [inStyle, String.toList_ofList] at hlist
  cases hlist

end Rgb

/-- Six digits behind one mark or more. -/
def spelled? : List Char → Option Rgb
  | '#' :: rest => Rgb.ofDigits? (rest.dropWhile (· == '#'))
  | _ => none

/-- A text is written as the colour that its name stands for, or that it spells itself. -/
theorem color_eq (s : String) :
    color s =
      ((spelled? ((colorNames.lookup (Text.lower s)).getD s).toList).map Rgb.inStyle).getD s := by
  unfold color
  generalize ((colorNames.lookup (Text.lower s)).getD s).toList = hex
  simp only
  split
  · next rest =>
    rw [spelled?, List.dropWhile_cons_of_pos rfl]
    generalize rest.dropWhile (· == '#') = digits
    split
    · split
      · next hall =>
        rw [← Rgb.isSome_ofDigits?] at hall
        obtain ⟨c, hc⟩ := Option.isSome_iff_exists.1 hall
        rw [hc]
        exact (Rgb.inStyle_of_ofDigits? hc).symm
      · next hall =>
        rw [← Rgb.isSome_ofDigits?, Option.not_isSome_iff_eq_none] at hall
        rw [hall]
        rfl
    · next hlength =>
      have hnone : Rgb.ofDigits? digits = none := by
        unfold Rgb.ofDigits?
        split
        · exact absurd rfl (hlength _ _ _ _ _ _)
        · rfl
      rw [hnone]
      rfl
  · next hmark =>
    have hnone : spelled? hex = none := by
      unfold spelled?
      split
      · exact absurd rfl (hmark _)
      · rfl
    rw [hnone]
    rfl

/-! ## What a text means -/

/-- The colours that have a name. -/
def namedColors : List (String × Rgb) :=
  [("black", ⟨0, 0, 0⟩), ("white", ⟨255, 255, 255⟩), ("red", ⟨255, 0, 0⟩),
    ("green", ⟨0, 255, 0⟩), ("blue", ⟨0, 0, 255⟩), ("yellow", ⟨255, 255, 0⟩)]

/-- A mark and six digits. -/
def marked? : List Char → Option Rgb
  | '#' :: digits => Rgb.ofDigits? digits
  | _ => none

/-- Six digits behind more than one mark. -/
def overmarked? : List Char → Option Rgb
  | '#' :: '#' :: rest => Rgb.ofDigits? (rest.dropWhile (· == '#'))
  | _ => none

/-- The colour that is meant by a name, in letters of either case, or by a mark and six digits. -/
def meaning? (s : String) : Option Rgb :=
  (namedColors.lookup (Text.lower s)).or (marked? s.toList)

/-- What is written in place of a text: the colour that it means, which can be read back, and the
text itself if it means none. -/
def Follows (s written : String) : Prop :=
  match meaning? s with
  | some c => written = c.inStyle ∧ Rgb.ofStyle? written = some c
  | none => written = s

instance (s written : String) : Decidable (Follows s written) :=
  match h : meaning? s with
  | some c => decidable_of_iff (written = c.inStyle ∧ Rgb.ofStyle? written = some c)
      (by rw [Follows, h])
  | none => decidable_of_iff (written = s) (by rw [Follows, h])

theorem spelled?_eq (cs : List Char) : spelled? cs = (marked? cs).or (overmarked? cs) := by
  unfold spelled? marked? overmarked?
  split
  · next rest =>
    cases rest with
    | nil => rfl
    | cons c rest =>
      -- A second mark is no digit, so no text has both readings.
      by_cases hc : c = '#'
      · subst hc
        rw [Rgb.ofDigits?_mark, Option.none_or, List.dropWhile_cons_of_pos rfl]
        rfl
      · rw [List.dropWhile_cons_of_neg (by simpa using hc)]
        split
        · next heq => exact absurd (List.cons.inj (List.cons.inj heq).2).1 hc
        · rw [Option.or_none]
  · next hmark =>
    split
    · exact absurd rfl (hmark _)
    · rfl

/-- With more than one mark, a text has no meaning. -/
theorem exists_cons_of_overmarked? {cs : List Char} {c : Rgb} (h : overmarked? cs = some c) :
    ∃ rest, cs = '#' :: rest ∧ marked? cs = none := by
  unfold overmarked? at h
  split at h
  · next rest => exact ⟨_, rfl, Rgb.ofDigits?_mark rest⟩
  · cases h

/-- No name starts with a mark. -/
theorem lookup_of_mark {s : String} {rest : List Char} (h : s.toList = '#' :: rest) :
    namedColors.lookup (Text.lower s) = none := by
  rw [List.lookup_eq_none_iff]
  intro p hp
  have hstart : ∀ p ∈ namedColors, p.1.toList.head? ≠ some '#' := by decide
  rw [bne_iff_ne]
  intro hname
  apply hstart p hp
  rw [← hname, Text.lower, String.toList_ofList, h]
  rfl

theorem color_of_name {s : String} {c : Rgb} (h : namedColors.lookup (Text.lower s) = some c) :
    color s = c.inStyle := by
  have htable : ∀ p ∈ namedColors,
      (colorNames.lookup p.1).bind (fun hex => spelled? hex.toList) = some p.2 := by decide
  obtain ⟨before, after, hsplit, -⟩ := List.lookup_eq_some_iff.1 h
  have hmem : (Text.lower s, c) ∈ namedColors := by rw [hsplit]; simp
  obtain ⟨hex, hhex, hspelled⟩ := Option.bind_eq_some_iff.1 (htable _ hmem)
  rw [color_eq, hhex, Option.getD_some, hspelled]
  rfl

theorem color_of_no_name {s : String} (h : namedColors.lookup (Text.lower s) = none) :
    color s = (((marked? s.toList).or (overmarked? s.toList)).map Rgb.inStyle).getD s := by
  have hnames : ∀ p ∈ colorNames, ∃ q ∈ namedColors, q.1 = p.1 := by decide
  have hnone : colorNames.lookup (Text.lower s) = none := by
    rw [List.lookup_eq_none_iff] at h ⊢
    intro p hp
    obtain ⟨q, hq, hname⟩ := hnames p hp
    rw [← hname]
    exact h q hq
  rw [color_eq, hnone, Option.getD_none, spelled?_eq]

/-- Every text is written as it should be unless it has six digits behind more than one mark.  That
one is written as if it had one mark. -/
theorem follows_color_iff (s : String) :
    (Follows s (color s) ↔ overmarked? s.toList = none) ∧
      ∀ c ∈ overmarked? s.toList, color s = c.inStyle := by
  cases hover : overmarked? s.toList with
  | some c =>
    obtain ⟨rest, hmark, hnone⟩ := exists_cons_of_overmarked? hover
    have hname := lookup_of_mark hmark
    have hcolor : color s = c.inStyle := by
      rw [color_of_no_name hname, hnone, hover]
      rfl
    have hmeaning : meaning? s = none := by rw [meaning?, hname, hnone, Option.none_or]
    refine ⟨iff_of_false ?_ (by simp), by simpa using hcolor⟩
    rw [Follows, hmeaning, hcolor]
    exact Rgb.inStyle_ne hmark c
  | none =>
    refine ⟨iff_of_true ?_ rfl, by simp⟩
    have hcolor : color s = ((meaning? s).map Rgb.inStyle).getD s := by
      rw [meaning?]
      cases hname : namedColors.lookup (Text.lower s) with
      | some c => exact color_of_name hname
      | none => rw [color_of_no_name hname, hover, Option.or_none, Option.none_or]
    rw [Follows, hcolor]
    cases meaning? s with
    | some c => exact ⟨rfl, Rgb.ofStyle?_inStyle c⟩
    | none => rfl

theorem follows_color_iff_twoMarks :
    overmarked? "##ff8000".toList = some ⟨255, 128, 0⟩ ∧ color "##ff8000" = "&H000080FF&" :=
  ⟨by decide, (follows_color_iff "##ff8000").2 ⟨255, 128, 0⟩ (by decide)⟩

/-- A text with two marks means no colour, and is written as one. -/
theorem not_follows_twoMarks :
    meaning? "##ff8000" = none ∧ ¬ Follows "##ff8000" (color "##ff8000") := by
  decide

end Subtitle

end Montage
