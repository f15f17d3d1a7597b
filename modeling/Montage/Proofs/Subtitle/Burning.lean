import Montage.Proofs.Filter.Unescaped
import Montage.Proofs.Filter.Values
import Montage.Proofs.Graph.Rendering
import Montage.Proofs.Scene.Wiring

/-!
# What becomes of the paths of burned-in subtitles

A path is escaped for the reader of options only, while it passes through the reader of filters
first.  So the filter that burns subtitles in is not read as it was meant for every path:
`Stage.burned_iff` tells for which paths it is.
-/

namespace Montage

open Montage.Graph

namespace Filter

/-- A path with slashes for backslashes. -/
def slashed (s : String) : List Char := s.toList.map fun c => if c = '\\' then '/' else c

theorem mem_slashed_iff {s : String} {c : Char} (hslash : c ≠ '/') :
    c ∈ slashed s ↔ c ∈ s.toList ∧ c ≠ '\\' := by
  simp only [slashed, List.mem_map]
  constructor
  · rintro ⟨d, hd, rfl⟩
    split at hslash
    · exact absurd rfl hslash
    · next hback =>
      rw [if_neg hback]
      exact ⟨hd, hback⟩
  · rintro ⟨hc, hback⟩
    exact ⟨c, hc, if_neg hback⟩

theorem backslash_not_mem_slashed (s : String) : '\\' ∉ slashed s := fun h =>
  ((mem_slashed_iff (by decide)).1 h).2 rfl

/-- A path stands in an option as it is escaped for the reader of options. -/
theorem toList_path (s : String) : (path s).toList = escapeLevel optionEnds (slashed s) := by
  rw [path, String.toList_ofList, slashed, escapeLevel, List.flatMap_map]
  apply List.flatMap_congr
  intro c _
  unfold pathChar
  by_cases hback : c = '\\'
  · subst hback
    rfl
  · by_cases hcolon : c = ':'
    · subst hcolon
      rfl
    · by_cases hquote : c = quoteChar
      · subst hquote
        rfl
      · simp [hback, hcolon, hquote, isSpecial, optionEnds]

/-- The characters of a path that the readers take for something else. -/
def pathEnds : List Char := quoteChar :: ':' :: filterEnds

theorem forall_mem_slashed_iff {s : String} :
    (∀ c ∈ slashed s, c ∉ pathEnds) ↔ ∀ c ∈ s.toList, c ∉ pathEnds := by
  constructor
  · intro h c hc hend
    have hne : ∀ d ∈ pathEnds, d ≠ '/' ∧ d ≠ '\\' := by decide
    exact h c ((mem_slashed_iff (hne c hend).1).2 ⟨hc, (hne c hend).2⟩) hend
  · intro h c hc hend
    have hne : ∀ d ∈ pathEnds, d ≠ '/' := by decide
    exact h c ((mem_slashed_iff (hne c hend)).1 hc).1 hend

theorem isGap_slash (c : Char) : isGap (if c = '\\' then '/' else c) = isGap c := by
  split
  · next hback => rw [hback]; rfl
  · rfl

theorem startsFirm_slashed_iff {s : String} : StartsFirm (slashed s) ↔ StartsFirm s.toList := by
  simp only [StartsFirm, slashed, List.head?_map]
  cases s.toList.head? <;> simp [isGap_slash]

theorem endsFirm_slashed_iff {s : String} : EndsFirm (slashed s) ↔ EndsFirm s.toList := by
  simp only [EndsFirm, slashed, List.getLast?_map]
  cases s.toList.getLast? <;> simp [isGap_slash]

/-- Nothing in the text means something to the reader of options. -/
def Quotable (s : String) : Prop := ∀ c ∈ s.toList, isSpecial optionEnds c = false

instance (s : String) : Decidable (Quotable s) :=
  inferInstanceAs (Decidable (∀ c ∈ s.toList, isSpecial optionEnds c = false))

theorem Plain.quotable {s : String} (h : Plain s) : Quotable s := fun c hc =>
  not_isSpecial_comma (h c hc)

theorem quotable_append_iff {s s' : String} : Quotable (s ++ s') ↔ Quotable s ∧ Quotable s' := by
  unfold Quotable
  rw [String.toList_append, List.forall_mem_append]

theorem quotable_number (x : Float) : Quotable (number x) := (bare_number x).plain.quotable

end Filter

namespace Subtitle

open Montage.Filter

/-! ## The style -/

theorem not_isSpecial_toUpper {c : Char} (h : Text.isHexDigit c = true) :
    isSpecial optionEnds c.toUpper = false := by
  have hall : ∀ n < 128, Text.isHexDigit (Char.ofNat n) = true →
      isSpecial optionEnds (Char.ofNat n).toUpper = false := by decide
  have hc := hall c.toNat (Text.toNat_lt_of_isHexDigit h)
  rw [Char.ofNat_toNat] at hc
  exact hc h

theorem quotable_hex {digits : List Char} (h : ∀ d ∈ digits, Text.isHexDigit d = true) :
    Quotable (String.ofList (['&', 'H', '0', '0'] ++ digits.map Char.toUpper ++ ['&'])) := by
  unfold Quotable
  rw [String.toList_ofList, List.forall_mem_append, List.forall_mem_append]
  refine ⟨⟨by decide, fun c hc => ?_⟩, by decide⟩
  obtain ⟨d, hd, rfl⟩ := List.mem_map.1 hc
  exact not_isSpecial_toUpper (h d hd)

theorem quotable_color {s : String} (h : Quotable s) : Quotable (color s) := by
  unfold color
  generalize ((colorNames.lookup (Text.lower s)).getD s).toList = hex
  simp only
  split
  · split
    · next r₁ r₂ g₁ g₂ b₁ b₂ _ =>
      split
      · next hhex =>
        have hdigits : ∀ d ∈ [b₁, b₂, g₁, g₂, r₁, r₂], Text.isHexDigit d = true := by
          simp_all
        exact quotable_hex hdigits
      · exact h
    · exact h
  · exact h

/-- Nothing in the field means something to the reader of options. -/
def IsField (f : String × String) : Prop := Quotable f.1 ∧ Quotable f.2

instance (f : String × String) : Decidable (IsField f) :=
  inferInstanceAs (Decidable (Quotable f.1 ∧ Quotable f.2))

theorem isField_iff {name value : String} :
    IsField (name, value) ↔ Quotable name ∧ Quotable value := Iff.rfl

theorem isField_number {name : String} (hname : Quotable name) (x : Float) :
    IsField (name, number x) := isField_iff.2 ⟨hname, quotable_number x⟩

theorem isField_flag {name : String} (hname : Quotable name) (on : Bool) :
    IsField (name, flag on) := by
  cases on
  · exact isField_iff.2 ⟨hname, (by decide : Quotable "0")⟩
  · exact isField_iff.2 ⟨hname, (by decide : Quotable "-1")⟩

theorem isField_color {name shade : String} (hname : Quotable name) (h : Quotable shade) :
    IsField (name, color shade) := isField_iff.2 ⟨hname, quotable_color h⟩

theorem forall_mem_field? {name : String} {value : Option String} :
    (∀ f ∈ field? name value, IsField f) ↔ ∀ v ∈ value, IsField (name, v) := by
  cases value <;> simp [field?]

theorem forall_mem_field?_map {α : Type} {name : String} {value : Option α} {g : α → String}
    (h : ∀ v ∈ value, IsField (name, g v)) : ∀ f ∈ field? name (value.map g), IsField f := by
  rw [forall_mem_field?]
  intro v hv
  obtain ⟨w, hw, rfl⟩ := Option.map_eq_some_iff.1 hv
  exact h w hw

variable {style : TextStyle}

/-- Nothing in a style's fields means something to the reader of options, if nothing in the style's
own texts does. -/
theorem isField_of_mem_styleFields (hcolors : ∀ c ∈ style.colors, Quotable c)
    (hfamily : ∀ name ∈ style.fontFamily, Quotable name) (frame : Rect) (vertical : Bool)
    (stageW stageH : UInt32) :
    ∀ f ∈ styleFields style frame vertical stageW stageH, IsField f := by
  simp only [TextStyle.colors, List.forall_mem_cons, List.forall_mem_append,
    Option.mem_toList] at hcolors
  obtain ⟨hcolor, ⟨hborder, hback⟩, hshadow⟩ := hcolors
  have hbacks : ∀ c ∈ (style.shadow.bind (·.color)).or style.backgroundColor, Quotable c := by
    intro c hc
    rcases Option.or_eq_some_iff.1 hc with hc | ⟨-, hc⟩
    · exact hshadow c hc
    · exact hback c hc
  have hscale {name : String} (hname : Quotable name) :
      ∀ f ∈ field? name (style.scale.map number), IsField f :=
    forall_mem_field?_map fun x _ => isField_number hname x
  have hspacing (g : Float → Float) :
      ∀ f ∈ field? "Spacing" (style.charSpacing.map fun s => number (g s)), IsField f :=
    forall_mem_field?_map fun s _ => isField_number (by decide) (g s)
  have hname : ∀ f ∈ field? "Fontname" style.fontFamily, IsField f :=
    forall_mem_field?.2 fun name h => ⟨(by decide : Quotable "Fontname"), hfamily name h⟩
  have hborders : ∀ f ∈ field? "OutlineColour" (style.borderColor.map color), IsField f :=
    forall_mem_field?_map fun c hc => isField_color (by decide) (hborder c hc)
  have hbackground : ∀ f ∈ field? "BackColour"
      (((style.shadow.bind (·.color)).or style.backgroundColor).map color), IsField f :=
    forall_mem_field?_map fun c hc => isField_color (by decide) (hbacks c hc)
  cases vertical
  all_goals
    simp only [styleFields, List.forall_mem_append, List.forall_mem_cons, List.not_mem_nil,
      false_implies, implies_true, and_true, Bool.false_eq_true, if_false, if_true]
    refine ⟨⟨⟨⟨⟨⟨⟨⟨⟨hspacing _, by decide⟩, hscale (by decide)⟩, hscale (by decide)⟩,
      isField_flag (by decide) _, isField_flag (by decide) _, isField_flag (by decide) _,
      isField_flag (by decide) _, by decide, isField_number (by decide) _, by decide⟩, hborders⟩,
      isField_number (by decide) _, isField_color (by decide) hcolor⟩, hbackground⟩, hname⟩,
      isField_number (by decide) _, ?_⟩
  · exact ⟨by decide, isField_number (by decide) _⟩
  · exact ⟨isField_number (by decide) _, by decide⟩

theorem quotable_styleText (hcolors : ∀ c ∈ style.colors, Quotable c)
    (hfamily : ∀ name ∈ style.fontFamily, Quotable name) (frame : Rect) (vertical : Bool)
    (stageW stageH : UInt32) : Quotable (styleText style frame vertical stageW stageH) := by
  have hfields := isField_of_mem_styleFields hcolors hfamily frame vertical stageW stageH
  unfold styleText Quotable
  generalize styleFields style frame vertical stageW stageH = fields at hfields
  rw [String.toList_intercalate, List.map_map]
  induction fields with
  | nil => simp
  | cons f fields ih =>
    obtain ⟨⟨hkey, hvalue⟩, hrest⟩ := List.forall_mem_cons.1 hfields
    have hf : Quotable (f.1 ++ "=" ++ f.2) := by
      rw [quotable_append_iff, quotable_append_iff]
      exact ⟨⟨hkey, by decide⟩, hvalue⟩
    cases fields with
    | nil => simpa [Quotable] using hf
    | cons f' fields =>
      have hcomma : ∀ c ∈ ",".toList, isSpecial optionEnds c = false := by decide
      simp only [List.map_cons, List.intercalate_cons_cons, List.forall_mem_append] at ih ⊢
      exact ⟨⟨hf, hcomma⟩, ih hrest⟩

/-- The last field is a margin, so a style text does not end in a gap. -/
theorem endsFirm_styleText (style : TextStyle) (frame : Rect) (vertical : Bool)
    (stageW stageH : UInt32) : EndsFirm (styleText style frame vertical stageW stageH).toList := by
  obtain ⟨before, margin, hfields, hmargin⟩ : ∃ before margin,
      styleFields style frame vertical stageW stageH = before ++ [("MarginV", margin)] ∧
        Bare margin := by
    cases vertical
    · exact ⟨_, _, (List.append_assoc _ [_, _] [_]).symm, bare_number _⟩
    · exact ⟨_, _, (List.append_assoc _ [_, _] [_]).symm, by decide⟩
  unfold styleText
  rw [hfields, String.toList_intercalate, List.map_append, List.map_append]
  refine endsFirm_intercalate ?_ (by simp)
  show EndsFirm ("MarginV" ++ "=" ++ margin).toList
  apply endsFirm_of_bare
  intro c hc
  simp only [String.toList_append, List.mem_append] at hc
  rcases hc with hc | hc
  · exact (by decide : ∀ c ∈ "MarginV".toList ++ "=".toList, isBare c = true) c
      (List.mem_append.2 hc)
  · exact hmargin c hc

/-! ## The arguments -/

/-- The directory as it stands behind the other arguments. -/
def dirArgument : Option (List Char) → List Char
  | some dir => ':' :: escapeLevel optionEnds ("fontsdir=".toList ++ dir)
  | none => []

/-- The style as it stands between the path and the directory. -/
def styleArgument (styleText : List Char) : List Char :=
  ':' :: ("force_style=".toList ++ quoteChar :: (styleText ++ [quoteChar]))

/-- The arguments of the filter, of a path, a style text and a directory. -/
def argumentChars (path styleText : List Char) (dir : Option (List Char)) : List Char :=
  escapeLevel optionEnds path ++ (styleArgument styleText ++ dirArgument dir)

/-- The options that are meant by them. -/
def meantOptions (path styleText : List Char) (dir : Option (List Char)) : List (List Char) :=
  path :: ("force_style=".toList ++ styleText) ::
    (dir.map fun dir => "fontsdir=".toList ++ dir).toList

/-- The options behind the path, one behind the other. -/
def behindPath (styleText : List Char) (dir : Option (List Char)) : List Char :=
  ':' :: ("force_style=".toList ++ styleText) ++
    (dir.map fun dir => ':' :: ("fontsdir=".toList ++ dir)).getD []

section

variable {path styleText more : List Char} {dir : Option (List Char)}

theorem intercalate_meantOptions (path styleText : List Char) (dir : Option (List Char)) :
    [':'].intercalate (meantOptions path styleText dir) = path ++ behindPath styleText dir := by
  cases dir <;> simp [meantOptions, behindPath]

theorem not_isSpecial_of_mem_filterEnds {c : Char} (h : c ∈ filterEnds) :
    isSpecial optionEnds c = false ∧ isGap c = false :=
  (by decide : ∀ c ∈ filterEnds, isSpecial optionEnds c = false ∧ isGap c = false) c h

/-- A text that is escaped for the reader of options, and does not end a filter, passes through the
reader of filters. -/
theorem passes_escaped {cs : List Char} (h : ∀ c ∈ cs, c ∉ filterEnds) :
    Passes filterEnds (escapeLevel optionEnds cs) cs :=
  passes_escapeLevel ending_filterEnds fun c hc hend => absurd hend (h c hc)

theorem passes_styleArgument (hstyle : ∀ c ∈ styleText, isSpecial optionEnds c = false) :
    Passes filterEnds (styleArgument styleText) (':' :: ("force_style=".toList ++ styleText)) := by
  have hkey : Passes filterEnds (':' :: "force_style=".toList) (':' :: "force_style=".toList) :=
    passes_self ending_filterEnds (by decide)
  have hquote : quoteChar ∉ styleText := fun h => by simpa [isSpecial] using hstyle _ h
  exact hkey.append (passes_quoted ending_filterEnds hquote)

theorem passes_behindPath (hstyle : ∀ c ∈ styleText, isSpecial optionEnds c = false)
    (hdir : ∀ d ∈ dir, ∀ c ∈ d, c ∉ filterEnds) :
    Passes filterEnds (styleArgument styleText ++ dirArgument dir) (behindPath styleText dir) := by
  refine (passes_styleArgument hstyle).append ?_
  cases dir with
  | none => exact passes_nil
  | some d =>
    have hcolon : Passes filterEnds [':'] [':'] := passes_self ending_filterEnds (by decide)
    have hkey : ∀ c ∈ "fontsdir=".toList, c ∉ filterEnds := by decide
    exact hcolon.append (passes_escaped (List.forall_mem_append.2 ⟨hkey, hdir d rfl⟩))

/-- Gaps in front of the path are passed over. -/
theorem token_argumentChars (path styleText : List Char) (dir : Option (List Char))
    (more : List Char) : token filterEnds (argumentChars path styleText dir ++ more) =
      ((scan filterEnds .plain {} (argumentChars (path.dropWhile isGap) styleText dir ++ more)).1.value,
        (scan filterEnds .plain {} (argumentChars (path.dropWhile isGap) styleText dir ++ more)).2) := by
  have hdrop : (argumentChars path styleText dir ++ more).dropWhile isGap =
      argumentChars (path.dropWhile isGap) styleText dir ++ more := by
    simp only [argumentChars, styleArgument, List.append_assoc, List.cons_append]
    exact dropWhile_escapeLevel isGap_of_isSpecial_optionEnds path (by decide) _
  rw [token, hdrop]

/-- If the reader of filters gets to the end of the arguments, nothing in the path ends a filter. -/
theorem path_clear_of_token
    (h : (token filterEnds (argumentChars path styleText dir ++ more)).2 = more) :
    ∀ c ∈ path, c ∉ filterEnds := by
  intro c hc hend
  obtain ⟨hspecial, hgap⟩ := not_isSpecial_of_mem_filterEnds hend
  have hkept : c ∈ path.dropWhile isGap := by
    rw [← List.takeWhile_append_dropWhile (p := isGap) (l := path)] at hc
    refine (List.mem_append.1 hc).resolve_left fun hmem => ?_
    rw [List.all_eq_true.1 List.all_takeWhile c hmem] at hgap
    cases hgap
  rw [token_argumentChars, argumentChars, List.append_assoc] at h
  have hlt := length_lt_scan_escapeLevel ending_filterEnds hkept hend hspecial {}
    ((styleArgument styleText ++ dirArgument dir) ++ more)
  rw [h, List.length_append] at hlt
  omega

theorem passes_dropWhile (h : ∀ c ∈ path, c ∉ filterEnds) :
    Passes filterEnds (escapeLevel optionEnds (path.dropWhile isGap)) (path.dropWhile isGap) :=
  passes_escaped fun c hc => h c ((List.dropWhile_suffix isGap).subset hc)

/-- Nor does anything in the directory. -/
theorem dir_clear_of_token (hstyle : ∀ c ∈ styleText, isSpecial optionEnds c = false)
    (h : (token filterEnds (argumentChars path styleText dir ++ more)).2 = more) :
    ∀ d ∈ dir, ∀ c ∈ d, c ∉ filterEnds := by
  rintro d rfl c hc hend
  have hcolon : Passes filterEnds [':'] [':'] := passes_self ending_filterEnds (by decide)
  have hbefore := ((passes_dropWhile (path_clear_of_token h)).append
    (passes_styleArgument hstyle)).append hcolon
  obtain ⟨t, hscan, -⟩ := hbefore {} (escapeLevel optionEnds ("fontsdir=".toList ++ d) ++ more)
  have htext : argumentChars (path.dropWhile isGap) styleText (some d) ++ more =
      (escapeLevel optionEnds (path.dropWhile isGap) ++ styleArgument styleText ++ [':']) ++
        (escapeLevel optionEnds ("fontsdir=".toList ++ d) ++ more) := by
    simp [argumentChars, dirArgument]
  have hmem : c ∈ "fontsdir=".toList ++ d := List.mem_append_right _ hc
  have hlt := length_lt_scan_escapeLevel ending_filterEnds hmem hend
    (not_isSpecial_of_mem_filterEnds hend).1 t more
  rw [token_argumentChars, htext, hscan] at h
  rw [h] at hlt
  exact absurd hlt (Nat.lt_irrefl _)

/-- What the reader of filters gets, if nothing ends the filter early. -/
theorem mem_of_mem_token (hstyle : ∀ c ∈ styleText, isSpecial optionEnds c = false)
    (hpath : ∀ c ∈ path, c ∉ filterEnds) (hdir : ∀ d ∈ dir, ∀ c ∈ d, c ∉ filterEnds) {c : Char}
    (hc : c ∈ (token filterEnds (argumentChars path styleText dir ++ '[' :: more)).1) :
    c ∈ path ++ behindPath styleText dir := by
  have hpasses := (passes_dropWhile hpath).append (passes_behindPath hstyle hdir)
  obtain ⟨t, hscan, htext⟩ := hpasses {} ('[' :: more)
  rw [token_argumentChars, argumentChars, hscan, scan_end (by decide)] at hc
  have hmem := Token.mem_text_of_mem_value hc
  rw [htext] at hmem
  rcases List.mem_append.1 hmem with hmem | hmem
  · cases hmem
  · rcases List.mem_append.1 hmem with hmem | hmem
    · exact List.mem_append_left _ ((List.dropWhile_suffix isGap).subset hmem)
    · exact List.mem_append_right _ hmem

theorem forall_mem_behindPath {P : Char → Prop}
    (hkeys : ∀ c ∈ ':' :: ("force_style=".toList ++ "fontsdir=".toList), P c)
    (hstyle : ∀ c ∈ styleText, P c) (hdir : ∀ d ∈ dir, ∀ c ∈ d, P c) :
    ∀ c ∈ behindPath styleText dir, P c := by
  rw [List.forall_mem_cons, List.forall_mem_append] at hkeys
  obtain ⟨hcolon, hforce, hfonts⟩ := hkeys
  unfold behindPath
  rw [List.forall_mem_append, List.forall_mem_cons, List.forall_mem_append]
  refine ⟨⟨hcolon, hforce, hstyle⟩, ?_⟩
  cases dir with
  | none => exact List.forall_mem_nil P
  | some d =>
    rw [Option.map_some, Option.getD_some, List.forall_mem_cons, List.forall_mem_append]
    exact ⟨hcolon, hfonts, hdir d rfl⟩

theorem forall_mem_meantOptions {P : List Char → Prop} : (∀ o ∈ meantOptions path styleText dir, P o) ↔
    P path ∧ P ("force_style=".toList ++ styleText) ∧
      ∀ d ∈ dir, P ("fontsdir=".toList ++ d) := by
  cases dir <;> simp [meantOptions]

/-- What is read as it was meant has nothing in it that the readers take for something else. -/
theorem clear_of_options_eq (hpath : '\\' ∉ path) (hdir : ∀ d ∈ dir, '\\' ∉ d)
    (hstyle : ∀ c ∈ styleText, isSpecial optionEnds c = false) {args : List Char}
    (htoken : token filterEnds (argumentChars path styleText dir ++ '[' :: more) =
      (args, '[' :: more))
    (hoptions : options args = meantOptions path styleText dir) :
    ((∀ c ∈ path, c ∉ pathEnds) ∧ StartsFirm path ∧ EndsFirm path) ∧
      ∀ d ∈ dir, (∀ c ∈ d, c ∉ pathEnds) ∧ EndsFirm d := by
  have hend := congrArg Prod.snd htoken
  have hpathEnds := path_clear_of_token hend
  have hdirEnds := dir_clear_of_token hstyle hend
  have hargs : ∀ c ∈ args, c ∈ path ++ behindPath styleText dir := fun c hc =>
    mem_of_mem_token hstyle hpathEnds hdirEnds (by rwa [htoken])
  have hall {P : Char → Prop} (hkeys : ∀ c ∈ ':' :: ("force_style=".toList ++ "fontsdir=".toList), P c)
      (hp : ∀ c ∈ path, P c) (hs : ∀ c ∈ styleText, P c) (hd : ∀ d ∈ dir, ∀ c ∈ d, P c) :
      ∀ c ∈ args, P c := fun c hc =>
    (List.mem_append.1 (hargs c hc)).elim (hp c) (forall_mem_behindPath hkeys hs hd c)
  have hspecial : ∀ c ∈ styleText, c ≠ '\\' ∧ c ≠ quoteChar := fun c hc =>
    ⟨(not_isSpecial_iff.1 (hstyle c hc)).1, (not_isSpecial_iff.1 (hstyle c hc)).2.1⟩
  -- The reader of options finds no backslash, so no quote comes out of it, either.
  have hback : ∀ c ∈ args, c ≠ '\\' := hall (by decide) (fun c hc e => hpath (e ▸ hc))
    (fun c hc => (hspecial c hc).1) fun d hd c hc e => hdir d hd (e ▸ hc)
  have hquotes := hoptions ▸ quoteChar_not_mem_options fun hmem => hback _ hmem rfl
  obtain ⟨hpathQuote, -, hdirQuote⟩ := forall_mem_meantOptions.1 hquotes
  have hfree : ∀ c ∈ args, c ≠ '\\' ∧ c ≠ quoteChar := by
    refine hall (by decide) (fun c hc => ⟨fun e => hpath (e ▸ hc), fun e => hpathQuote (e ▸ hc)⟩)
      hspecial fun d hd c hc => ⟨fun e => hdir d hd (e ▸ hc), fun e => ?_⟩
    exact hdirQuote d hd (List.mem_append_right _ (e ▸ hc))
  -- So each option goes up to a colon, and loses the gaps around it.
  have hfirm := hoptions ▸ firm_of_mem_options hfree
  obtain ⟨⟨hpathColon, hstarts, hends⟩, -, hdirFirm⟩ := forall_mem_meantOptions.1 hfirm
  have hclear {cs : List Char} (hquote : quoteChar ∉ cs) (hcolon : ':' ∉ cs)
      (hends : ∀ c ∈ cs, c ∉ filterEnds) : ∀ c ∈ cs, c ∉ pathEnds := by
    intro c hc hmem
    rcases List.mem_cons.1 hmem with rfl | hmem
    · exact hquote hc
    · rcases List.mem_cons.1 hmem with rfl | hmem
      · exact hcolon hc
      · exact hends c hc hmem
  refine ⟨⟨hclear hpathQuote hpathColon hpathEnds, hstarts, hends⟩, fun d hd => ?_⟩
  obtain ⟨hcolon, -, hlast⟩ := hdirFirm d hd
  refine ⟨hclear (fun h => hdirQuote d hd (List.mem_append_right _ h))
    (fun h => hcolon (List.mem_append_right _ h)) (hdirEnds d hd), fun c hc => hlast c ?_⟩
  have hne : d ≠ [] := fun e => by simp [e] at hc
  rwa [getLast?_append_of_ne_nil _ hne]

/-- Nothing in the text ends a value, or is taken off. -/
theorem not_isSpecial_of_clear {cs : List Char} (hback : '\\' ∉ cs) (h : ∀ c ∈ cs, c ∉ pathEnds) :
    ∀ c ∈ cs, isSpecial optionEnds c = false := by
  intro c hc
  have hends := h c hc
  refine not_isSpecial_iff.2 ⟨fun e => hback (e ▸ hc), fun e => hends (e ▸ List.mem_cons_self ..), ?_⟩
  intro hmem
  rw [List.mem_singleton.1 hmem] at hends
  exact hends (by decide)

theorem not_mem_filterEnds_of_clear {cs : List Char} (h : ∀ c ∈ cs, c ∉ pathEnds) :
    ∀ c ∈ cs, c ∉ filterEnds := fun c hc hmem =>
  h c hc (List.mem_cons_of_mem _ (List.mem_cons_of_mem _ hmem))

theorem endsFirm_meantOptions (hstyle : EndsFirm styleText) (hpath : EndsFirm path)
    (hdir : ∀ d ∈ dir, EndsFirm d) : ∀ o ∈ meantOptions path styleText dir, EndsFirm o := by
  have hbehind {key cs : List Char} (hkey : EndsFirm key) (h : EndsFirm cs) :
      EndsFirm (key ++ cs) := by
    cases cs with
    | nil => rwa [List.append_nil]
    | cons c rest => exact EndsFirm.append key h (by simp)
  have hforce : EndsFirm "force_style=".toList := endsFirm_of_bare (by decide)
  have hfonts : EndsFirm "fontsdir=".toList := endsFirm_of_bare (by decide)
  exact forall_mem_meantOptions.2
    ⟨hpath, hbehind hforce hstyle, fun d hd => hbehind hfonts (hdir d hd)⟩

/-- A path and a directory in which the readers find nothing are read as they were meant. -/
theorem read_of_clear (hpath : '\\' ∉ path) (hdir : ∀ d ∈ dir, '\\' ∉ d)
    (hstyle : ∀ c ∈ styleText, isSpecial optionEnds c = false) (hlast : EndsFirm styleText)
    (hclear : ∀ c ∈ path, c ∉ pathEnds) (hstarts : StartsFirm path) (hends : EndsFirm path)
    (hdirs : ∀ d ∈ dir, (∀ c ∈ d, c ∉ pathEnds) ∧ EndsFirm d) (more : List Char) :
    token filterEnds (argumentChars path styleText dir ++ '[' :: more) =
        (path ++ behindPath styleText dir, '[' :: more) ∧
      options (path ++ behindPath styleText dir) = meantOptions path styleText dir := by
  have hfirm := endsFirm_meantOptions hlast hends fun d hd => (hdirs d hd).2
  obtain ⟨before, last, hsplit, hne⟩ : ∃ before last,
      meantOptions path styleText dir = before ++ [last] ∧ last ≠ [] := by
    cases dir with
    | none => exact ⟨[path], _, rfl, by simp⟩
    | some d => exact ⟨[path, "force_style=".toList ++ styleText], _, rfl, by simp⟩
  rw [← intercalate_meantOptions]
  constructor
  · have hpasses := (passes_escaped (not_mem_filterEnds_of_clear hclear)).append
      (passes_behindPath hstyle fun d hd => not_mem_filterEnds_of_clear (hdirs d hd).1)
    rw [← intercalate_meantOptions] at hpasses
    refine token_of_passes hpasses (by decide) (by decide) ?_ ?_
    · cases path with
      | nil => exact fun c hc => by cases hc; decide
      | cons c rest =>
        refine (startsFirm_escapeLevel hstarts).append ?_ _
        rw [escapeLevel_cons]
        split <;> simp
    · rw [hsplit]
      exact endsFirm_intercalate (hfirm last (by simp [hsplit])) hne
  · have hself : ∀ o ∈ meantOptions path styleText dir, escapeLevel optionEnds o = o := by
      have hkeys : (∀ c ∈ "force_style=".toList, isSpecial optionEnds c = false) ∧
          ∀ c ∈ "fontsdir=".toList, isSpecial optionEnds c = false := by decide
      refine forall_mem_meantOptions.2
        ⟨escapeLevel_eq_self (not_isSpecial_of_clear hpath hclear),
          escapeLevel_eq_self (List.forall_mem_append.2 ⟨hkeys.1, hstyle⟩), fun d hd => ?_⟩
      exact escapeLevel_eq_self (List.forall_mem_append.2
        ⟨hkeys.2, not_isSpecial_of_clear (hdir d hd) (hdirs d hd).1⟩)
    have hfirst : ∀ o ∈ meantOptions path styleText dir, StartsFirm o :=
      forall_mem_meantOptions.2 ⟨hstarts, (startsFirm_of_bare (by decide)).append (by decide) _,
        fun d _ => (startsFirm_of_bare (by decide)).append (by decide) _⟩
    have hread := options_intercalate hfirst fun o ho => by
      rw [hsplit, List.getLast?_concat] at ho
      cases ho
      exact hne
    rw [List.map_congr_left hself, List.map_id'] at hread
    rw [hread, List.map_congr_left fun o ho => trimEnd_eq_self_iff.2 (hfirm o ho), List.map_id']

end

/-! ## The filter -/

/-- The path of a subtitle file and the directory of a font hold nothing that the readers take for
something else, and no gap where gaps are dropped. -/
structure Legible (path : String) (dir : Option String) : Prop where
  path_clear : ∀ c ∈ path.toList, c ∉ pathEnds
  path_starts : StartsFirm path.toList
  path_ends : EndsFirm path.toList
  dir_clear : ∀ d ∈ dir, ∀ c ∈ d.toList, c ∉ pathEnds
  dir_ends : ∀ d ∈ dir, EndsFirm d.toList

/-- The arguments of the filter as they stand in its text. -/
def arguments (path : String) (style : TextStyle) (frame : Rect) (vertical : Bool)
    (stageW stageH : UInt32) : String :=
  Filter.path path ++ ":force_style='" ++ styleText style frame vertical stageW stageH ++ "'" ++
    match fontDir? style with
    | some dir => ":fontsdir=" ++ Filter.path dir
    | none => ""

/-- The options that are meant: the path, the style, and the directory of the font file if there is
one, with slashes for backslashes. -/
def options (path : String) (style : TextStyle) (frame : Rect) (vertical : Bool)
    (stageW stageH : UInt32) : List (List Char) :=
  meantOptions (slashed path) (styleText style frame vertical stageW stageH).toList
    ((fontDir? style).map slashed)

theorem filter_eq (path : String) (style : TextStyle) (frame : Rect) (vertical : Bool)
    (stageW stageH : UInt32) : filter path style frame vertical stageW stageH =
      "subtitles" ++ "=" ++ arguments path style frame vertical stageW stageH := by
  have hname : "subtitles=" = "subtitles" ++ "=" := rfl
  unfold filter arguments
  rw [hname]
  cases fontDir? style <;> simp only [String.append_assoc]

theorem toList_arguments (path : String) (style : TextStyle) (frame : Rect) (vertical : Bool)
    (stageW stageH : UInt32) : (arguments path style frame vertical stageW stageH).toList =
      argumentChars (slashed path) (styleText style frame vertical stageW stageH).toList
        ((fontDir? style).map slashed) := by
  have hkey (cs : List Char) : escapeLevel optionEnds ("fontsdir=".toList ++ cs) =
      "fontsdir=".toList ++ escapeLevel optionEnds cs := escapeLevel_append ..
  generalize htext : styleText style frame vertical stageW stageH = text
  cases hfont : fontDir? style with
  | none =>
    simp [arguments, argumentChars, styleArgument, dirArgument, toList_path, htext, hfont]
    rfl
  | some dir =>
    rw [Option.map_some, argumentChars, dirArgument, hkey]
    simp [arguments, styleArgument, toList_path, htext, hfont]
    rfl

variable {g : Graph} {steps : List Step} {input output : Label}

/-- The filter is read as it was meant exactly if its paths are legible. -/
theorem read_iff_legible {path : String} {frame : Rect} {vertical : Bool} {stageW stageH : UInt32}
    (hcolors : ∀ c ∈ style.colors, Quotable c) (hfamily : ∀ name ∈ style.fontFamily, Quotable name)
    (h : steps ++ [⟨[input], filter path style frame vertical stageW stageH, [output]⟩] <+:
      g.steps) :
    (∃ args, g.ArgumentsRead steps input "subtitles"
        (arguments path style frame vertical stageW stageH) output args ∧
      Filter.options args = options path style frame vertical stageW stageH) ↔
      Legible path (fontDir? style) := by
  have hstyle : ∀ c ∈ (styleText style frame vertical stageW stageH).toList,
      isSpecial optionEnds c = false :=
    quotable_styleText hcolors hfamily frame vertical stageW stageH
  have hlast := endsFirm_styleText style frame vertical stageW stageH
  have hback : '\\' ∉ slashed path := backslash_not_mem_slashed path
  have hdirBack : ∀ d ∈ (fontDir? style).map slashed, '\\' ∉ d := by
    intro d hd
    obtain ⟨dir, -, rfl⟩ := Option.map_eq_some_iff.1 hd
    exact backslash_not_mem_slashed dir
  rw [filter_eq] at h
  obtain ⟨more, hread⟩ := exists_argumentsRead_iff h
  simp only [hread, toList_arguments, options]
  generalize (styleText style frame vertical stageW stageH).toList = styleText at hstyle hlast ⊢
  constructor
  · rintro ⟨args, htoken, hoptions⟩
    obtain ⟨⟨hclear, hstarts, hends⟩, hdirs⟩ :=
      clear_of_options_eq hback hdirBack hstyle htoken hoptions
    have hdir (d : String) (hd : d ∈ fontDir? style) := hdirs (slashed d)
      (Option.map_eq_some_iff.2 ⟨d, hd, rfl⟩)
    exact ⟨forall_mem_slashed_iff.1 hclear, startsFirm_slashed_iff.1 hstarts,
      endsFirm_slashed_iff.1 hends, fun d hd => forall_mem_slashed_iff.1 (hdir d hd).1,
      fun d hd => endsFirm_slashed_iff.1 (hdir d hd).2⟩
  · intro hlegible
    have hdirs : ∀ d ∈ (fontDir? style).map slashed, (∀ c ∈ d, c ∉ pathEnds) ∧ EndsFirm d := by
      intro d hd
      obtain ⟨dir, hdir, rfl⟩ := Option.map_eq_some_iff.1 hd
      exact ⟨forall_mem_slashed_iff.2 (hlegible.dir_clear dir hdir),
        endsFirm_slashed_iff.2 (hlegible.dir_ends dir hdir)⟩
    exact ⟨_, read_of_clear hback hdirBack hstyle hlast
      (forall_mem_slashed_iff.2 hlegible.path_clear)
      (startsFirm_slashed_iff.2 hlegible.path_starts)
      (endsFirm_slashed_iff.2 hlegible.path_ends) hdirs more⟩

end Subtitle

/-! ## Subtitle nodes -/

namespace Stage

variable {τ : Type}

theorem exists_addNode_subtitle (s : Stage) (p : Program) (scene : Context) {n : Node τ}
    {path : String} {style : TextStyle} {vertical : Bool}
    (hkind : n.kind = .subtitle path style vertical) :
    ∃ r, s.addNode p scene n = .ok r ∧ r.2.graph.steps = p.graph.steps ++
      [⟨[scene.label], Subtitle.filter path style n.frame vertical s.width s.height,
        [r.1.label]⟩] :=
  ⟨p.applyAll scene [Subtitle.filter path style n.frame vertical s.width s.height] "sub",
    by rw [addNode, hkind], rfl⟩

/-- Wherever the graph goes on, the filter that burns subtitles in is read as it was meant, up to
the label of its output and option by option, exactly if the paths it is given are legible; colours
and the name of the font must hold no quote, backslash or colon. -/
theorem burned_iff (s : Stage) (p : Program) (scene : Context) {n : Node τ} {path : String}
    {style : TextStyle} {vertical : Bool} (hkind : n.kind = .subtitle path style vertical)
    (hcolors : ∀ c ∈ style.colors, Filter.Quotable c)
    (hfamily : ∀ name ∈ style.fontFamily, Filter.Quotable name) :
    ∃ r, s.addNode p scene n = .ok r ∧
      r.2.graph.steps = p.graph.steps ++ [⟨[scene.label],
        Subtitle.filter path style n.frame vertical s.width s.height, [r.1.label]⟩] ∧
      ∀ g : Graph, r.2.graph.steps <+: g.steps →
        ((∃ args, g.ArgumentsRead p.graph.steps scene.label "subtitles"
            (Subtitle.arguments path style n.frame vertical s.width s.height) r.1.label args ∧
          Filter.options args =
            Subtitle.options path style n.frame vertical s.width s.height) ↔
          Subtitle.Legible path (Subtitle.fontDir? style)) := by
  obtain ⟨r, hadd, hsteps⟩ := exists_addNode_subtitle s p scene hkind
  exact ⟨r, hadd, hsteps, fun g hg =>
    Subtitle.read_iff_legible hcolors hfamily (hsteps ▸ hg)⟩

def notoStyle : TextStyle where
  color := "yellow"
  fontFile := some "/work/fonts/Noto.ttf"
  fontFamily := some "Noto Sans"

def notoSubtitle : Node Timeline where
  kind := .subtitle "/work/cache/subtitle_0.srt" notoStyle false

theorem burned_iff_notoSubtitle :
    notoSubtitle.kind = .subtitle "/work/cache/subtitle_0.srt" notoStyle false ∧
      (∀ c ∈ notoStyle.colors, Filter.Quotable c) ∧
      (∀ name ∈ notoStyle.fontFamily, Filter.Quotable name) ∧
      ∃ r, Stage.addNode ⟨1280, 720, 25, 4.0⟩ (.empty "scene.mp4" 4.0) (.ofInput 0 .video)
          notoSubtitle = .ok r ∧
        r.2.graph.steps = (Program.empty "scene.mp4" 4.0).graph.steps ++
          [⟨[(Context.ofInput 0 .video).label], Subtitle.filter "/work/cache/subtitle_0.srt"
            notoStyle notoSubtitle.frame false 1280 720, [r.1.label]⟩] ∧
        ∀ g : Graph, r.2.graph.steps <+: g.steps →
          ((∃ args, g.ArgumentsRead (Program.empty "scene.mp4" 4.0).graph.steps
              (Context.ofInput 0 .video).label "subtitles"
              (Subtitle.arguments "/work/cache/subtitle_0.srt" notoStyle notoSubtitle.frame false
                1280 720) r.1.label args ∧
            Filter.options args = Subtitle.options "/work/cache/subtitle_0.srt" notoStyle
              notoSubtitle.frame false 1280 720) ↔
            Subtitle.Legible "/work/cache/subtitle_0.srt" (Subtitle.fontDir? notoStyle)) :=
  ⟨rfl, by decide, by decide, burned_iff ⟨1280, 720, 25, 4.0⟩ (.empty "scene.mp4" 4.0)
    (.ofInput 0 .video) rfl (by decide) (by decide)⟩

/-- Subtitles on a drive. -/
def driveSubtitle : Node Timeline where
  kind := .subtitle "C:/sub.srt" { } false

/-- The colon behind the drive ends the first option. -/
theorem not_burned_driveSubtitle :
    ∃ r, (⟨1280, 720, 25, 4.0⟩ : Stage).addNode (.empty "scene.mp4" 4.0) (.ofInput 0 .video)
        driveSubtitle = .ok r ∧
      ¬ ∃ args, r.2.graph.ArgumentsRead [] (inputLabel 0 .video) "subtitles"
          (Subtitle.arguments "C:/sub.srt" { } driveSubtitle.frame false 1280 720) r.1.label args ∧
        Filter.options args =
          Subtitle.options "C:/sub.srt" { } driveSubtitle.frame false 1280 720 := by
  obtain ⟨r, hadd, hsteps⟩ := exists_addNode_subtitle ⟨1280, 720, 25, 4.0⟩
    (.empty "scene.mp4" 4.0) (.ofInput 0 .video) (show driveSubtitle.kind = _ from rfl)
  refine ⟨r, hadd, ?_⟩
  rw [Subtitle.read_iff_legible (by decide) (by decide) (hsteps ▸ List.prefix_rfl)]
  intro hlegible
  exact hlegible.path_clear ':' (by decide) (by decide)

end Stage

end Montage
