import Mathlib.Data.List.Forall2
import Montage.Proofs.Filter.Legible
import Montage.Proofs.Graph.Rendering
import Montage.Proofs.Scene.Wiring

/-!
# Drawn texts are read as they were written

The filter that draws a text is read back option by option, whatever the text and the font file are
(`Stage.drawtext_survives`): what is escaped passes through both readers, and what is quoted or left
as it is holds nothing that means something to them, as long as the colours do not.
-/

namespace Montage

open Montage.Graph

namespace Drawtext

open Montage.Filter

variable {words : String} {style : TextStyle} {alpha : Option Interpolation}
  {opacity : Option Float}

/-- The keys of the options whose values are not escaped. -/
def plainKeys : List String :=
  ["line_spacing", "bordercolor", "borderw", "fontcolor", "fontsize", "box", "boxcolor",
    "shadowcolor", "shadowx", "shadowy", "alpha", "x", "y"]

/-- The keys of the options whose values are colours. -/
def colorKeys : List String := ["bordercolor", "fontcolor", "boxcolor", "shadowcolor"]

/-- What an option says before its value is protected against the readers. -/
def Setting.raw (words : String) (style : TextStyle) (s : Setting) : List Char :=
  if s.key = "text" then escapeLevel ['%'] words.toList
  else if s.key = "fontfile" then (style.fontFile.getD "").toList
  else s.value.toList

/-- The option in full, before its value is protected against the readers. -/
def Setting.rawOption (words : String) (style : TextStyle) (s : Setting) : List Char :=
  s.key.toList ++ '=' :: s.raw words style

/-- An option as a reader has taken it tells the setting's key, and its value before quoting; it
tells the words and the font file but for the gaps at their end. -/
def Setting.ReadAs (words : String) (style : TextStyle) (s : Setting) (option : List Char) : Prop :=
  ∃ value, Text.cut '=' option = some (s.key.toList, value) ∧
    if s.key = "text" then unescape value = trimEnd words.toList
    else if s.key = "fontfile" then
      style.fontFile.map (fun font => trimEnd font.toList) = some value
    else value = s.value.toList

/-! ## The settings -/

/-- The setting is not escaped, and needs not to be unless it is a colour. -/
def Setting.IsPlain (s : Setting) : Prop :=
  s.protection = .quoted ∧ s.key ∈ plainKeys ∧ (s.key ∈ colorKeys ∨ Legible s.value)

theorem mem_setting?_iff {key : String} {value : Option String} {s : Setting} :
    s ∈ setting? key value ↔ ∃ v ∈ value, s = { key, value := v } := by
  cases value <;> simp [setting?]

theorem isPlain_number {key : String} (hkey : key ∈ plainKeys) (x : Float) :
    Setting.IsPlain { key, value := number x } :=
  ⟨rfl, hkey, Or.inr (bare_number x).plain.legible⟩

theorem isPlain_color {key : String} (hkey : key ∈ plainKeys ∧ key ∈ colorKeys) (color : String) :
    Setting.IsPlain { key, value := color } := ⟨rfl, hkey.1, Or.inl hkey.2⟩

theorem isPlain_of_mem_number {key : String} (hkey : key ∈ plainKeys) {x : Option Float}
    {s : Setting} (h : s ∈ setting? key (x.map number)) : s.IsPlain := by
  obtain ⟨v, hv, rfl⟩ := mem_setting?_iff.1 h
  obtain ⟨y, -, rfl⟩ := Option.map_eq_some_iff.1 hv
  exact isPlain_number hkey y

theorem isPlain_of_mem_color {key : String} (hkey : key ∈ plainKeys ∧ key ∈ colorKeys)
    {color : Option String} {s : Setting} (h : s ∈ setting? key color) : s.IsPlain := by
  obtain ⟨c, -, rfl⟩ := mem_setting?_iff.1 h
  exact isPlain_color hkey c

theorem isPlain_of_mem_alphaSettings {s : Setting} (h : s ∈ alphaSettings alpha opacity) :
    s.IsPlain := by
  cases alpha with
  | some ramp =>
    rw [List.mem_singleton.1 h]
    exact ⟨rfl, (by decide : "alpha" ∈ plainKeys), Or.inr (plain_expr ramp (by decide)).legible⟩
  | none => exact isPlain_of_mem_number (by decide) h

theorem isPlain_of_mem_shadowSettings {shadow : Option Shadow} {s : Setting}
    (h : s ∈ shadowSettings shadow) : s.IsPlain := by
  cases shadow with
  | none => cases h
  | some shadow =>
    rcases List.mem_append.1 h with h | h
    · exact isPlain_of_mem_color (by decide) h
    · simp only [List.mem_cons, List.not_mem_nil, or_false] at h
      rcases h with rfl | rfl <;> exact isPlain_number (by decide) _

/-- A setting is the text, the font file, or not escaped. -/
theorem settings_cases {s : Setting} (h : s ∈ settings words style alpha opacity) :
    s = { key := "text", value := text words, protection := .escaped } ∨
      (∃ font ∈ style.fontFile,
        s = { key := "fontfile", value := option font, protection := .escaped }) ∨ s.IsPlain := by
  simp only [settings, List.mem_append, List.mem_cons, List.not_mem_nil, or_false] at h
  rcases h with (((((((((h | h) | h) | rfl) | h) | rfl) | h) | h) | rfl) | h) | rfl | rfl
  · exact Or.inr (Or.inr (isPlain_of_mem_number (by decide) h))
  · exact Or.inr (Or.inr (isPlain_of_mem_color (by decide) h))
  · exact Or.inr (Or.inr (isPlain_of_mem_number (by decide) h))
  · exact Or.inr (Or.inr (isPlain_color (by decide) _))
  · cases hfont : style.fontFile with
    | none => simp [hfont] at h
    | some font =>
      rw [hfont, List.mem_singleton] at h
      exact Or.inr (Or.inl ⟨font, rfl, h⟩)
  · exact Or.inr (Or.inr (isPlain_number (by decide) _))
  · cases hstyle : style.backgroundColor with
    | none => simp [hstyle] at h
    | some color =>
      simp only [hstyle, List.mem_cons, List.not_mem_nil, or_false] at h
      rcases h with rfl | rfl
      · exact Or.inr (Or.inr ⟨rfl, by decide, Or.inr (Plain.legible (by decide))⟩)
      · exact Or.inr (Or.inr (isPlain_color (by decide) color))
  · exact Or.inr (Or.inr (isPlain_of_mem_shadowSettings h))
  · exact Or.inl rfl
  · exact Or.inr (Or.inr (isPlain_of_mem_alphaSettings h))
  · exact Or.inr (Or.inr ⟨rfl, by decide, Or.inr (Plain.legible (by decide))⟩)
  · exact Or.inr (Or.inr ⟨rfl, by decide, Or.inr (Plain.legible (by decide))⟩)

theorem forall_mem_setting?_iff {P : Setting → Prop} {key : String} {value : Option String} :
    (∀ s ∈ setting? key value, P s) ↔ ∀ v ∈ value, P { key, value := v } := by
  cases value <;> simp [setting?]

/-- The settings whose keys are those of colours tell all colours of the style, and nothing else. -/
theorem forall_mem_colors_iff {P : String → Prop} (words : String) (style : TextStyle)
    (alpha : Option Interpolation) (opacity : Option Float) :
    (∀ color ∈ style.colors, P color) ↔
      ∀ s ∈ settings words style alpha opacity, s.key ∈ colorKeys → P s.value := by
  have hnumber {key : String} (hkey : key ∉ colorKeys) (x : Option Float) :
      (∀ s ∈ setting? key (x.map number), s.key ∈ colorKeys → P s.value) ↔ True :=
    iff_true_intro (forall_mem_setting?_iff.2 fun _ _ hmem => absurd hmem hkey)
  have hcolor {key : String} (hkey : key ∈ colorKeys) (color : Option String) :
      (∀ s ∈ setting? key color, s.key ∈ colorKeys → P s.value) ↔ ∀ c ∈ color, P c := by
    simp only [forall_mem_setting?_iff, hkey, true_imp_iff]
  have hshadow : (∀ s ∈ shadowSettings style.shadow, s.key ∈ colorKeys → P s.value) ↔
      ∀ c ∈ style.shadow.bind (·.color), P c := by
    cases style.shadow with
    | none => simp [shadowSettings]
    | some shadow =>
      simp only [shadowSettings, List.forall_mem_append, hcolor (by decide : "shadowcolor" ∈ _)]
      simp [colorKeys]
  have halpha : (∀ s ∈ alphaSettings alpha opacity, s.key ∈ colorKeys → P s.value) ↔ True := by
    cases alpha with
    | none => exact hnumber (by decide) opacity
    | some ramp => simp [alphaSettings, colorKeys]
  simp only [settings, List.forall_mem_append, hcolor (by decide : "bordercolor" ∈ colorKeys),
    hshadow, halpha, hnumber (by decide : "line_spacing" ∉ colorKeys),
    hnumber (by decide : "borderw" ∉ colorKeys), TextStyle.colors, List.forall_mem_cons,
    Option.mem_toList]
  cases style.fontFile <;> cases style.backgroundColor <;> simp [colorKeys] <;> tauto

/-! ## One setting -/

/-- A key as settings have it: not empty, and with nothing in it that means something. -/
def IsKey (key : String) : Prop := Bare key ∧ key.toList ≠ [] ∧ '=' ∉ key.toList

instance (key : String) : Decidable (IsKey key) :=
  inferInstanceAs (Decidable (Bare key ∧ key.toList ≠ [] ∧ '=' ∉ key.toList))

theorem isKey_of_mem {s : Setting} (h : s ∈ settings words style alpha opacity) : IsKey s.key := by
  obtain rfl | ⟨font, -, rfl⟩ | ⟨-, hkey, -⟩ := settings_cases h
  · show IsKey "text"
    decide
  · show IsKey "fontfile"
    decide
  · exact (by decide : ∀ key ∈ plainKeys, IsKey key) _ hkey

theorem raw_of_mem_plainKeys {s : Setting} (h : s.key ∈ plainKeys) :
    s.raw words style = s.value.toList := by
  have hkeys : ∀ key ∈ plainKeys, key ≠ "text" ∧ key ≠ "fontfile" := by decide
  rw [Setting.raw, if_neg (hkeys _ h).1, if_neg (hkeys _ h).2]

theorem escapeLevel_rawOption {s : Setting} (hkey : Bare s.key) :
    escapeLevel optionEnds (s.rawOption words style) =
      s.key.toList ++ '=' :: escapeLevel optionEnds (s.raw words style) := by
  have hself : escapeLevel optionEnds s.key.toList = s.key.toList :=
    hkey.plain.legible.escapeLevel_eq
  rw [Setting.rawOption, escapeLevel_append, hself, escapeLevel_cons]
  rfl

/-- The reader of filters reads a key as it is. -/
theorem passes_key {key : String} (h : IsKey key) :
    Passes filterEnds (key ++ "=").toList (key.toList ++ ['=']) := by
  rw [String.toList_append]
  exact (passes_bare ending_filterEnds filterEnds_subset h.1).append
    (passes_bare ending_filterEnds filterEnds_subset (by decide : Bare "="))

/-- An option passes through the reader of filters as it is escaped for the reader of options. -/
theorem passes_render {s : Setting} (h : s ∈ settings words style alpha opacity)
    (hcolor : s.key ∈ colorKeys → Legible s.value) :
    Passes filterEnds s.render.toList (escapeLevel optionEnds (s.rawOption words style)) := by
  have hkey := isKey_of_mem h
  have hescaped (cs : List Char) :
      Passes filterEnds (optionChars cs) (escapeLevel optionEnds cs) :=
    passes_escapeLevel ending_filterEnds fun _ _ hmem => isSpecial_of_mem hmem
  rw [escapeLevel_rawOption hkey.1, Setting.render, String.toList_append, List.append_cons]
  refine (passes_key hkey).append ?_
  obtain rfl | ⟨font, hfont, rfl⟩ | ⟨hquoted, hplain, hvalue⟩ := settings_cases h
  · simp only [Setting.raw, text, String.toList_ofList, if_true]
    exact hescaped _
  · have hfile : style.fontFile = some font := hfont
    simp only [Setting.raw, option, String.toList_ofList, hfile, Option.getD_some]
    exact hescaped _
  · have hlegible : Legible s.value := hvalue.elim hcolor id
    rw [hquoted, raw_of_mem_plainKeys hplain, hlegible.escapeLevel_eq]
    exact passes_quotedIfCommas hlegible

theorem startsFirm_rawOption {s : Setting} (h : s ∈ settings words style alpha opacity) :
    StartsFirm (s.rawOption words style) := by
  obtain ⟨hbare, hne, -⟩ := isKey_of_mem h
  exact (startsFirm_of_bare hbare).append hne _

/-- What the reader of options has taken off an option tells the setting. -/
theorem readAs_trimEnd {s : Setting} (h : s ∈ settings words style alpha opacity)
    (hcolor : s.key ∈ colorKeys → Legible s.value) :
    s.ReadAs words style (trimEnd (s.rawOption words style)) := by
  obtain ⟨-, -, hequals⟩ := isKey_of_mem h
  refine ⟨trimEnd (s.raw words style), ?_, ?_⟩
  · rw [Setting.rawOption, trimEnd_append_of_not_isGap (by decide)]
    exact Text.cut_append hequals _
  · obtain rfl | ⟨font, hfont, rfl⟩ | ⟨-, hplain, hvalue⟩ := settings_cases h
    · have hpercent : ∀ c, isSpecial ['%'] c = true → isGap c = false := by
        intro c hc
        have hcases : (c = '\\' ∨ c = quoteChar) ∨ c = '%' := by simpa [isSpecial] using hc
        rcases hcases with (rfl | rfl) | rfl <;> decide
      simp only [Setting.raw, if_true]
      rw [trimEnd_escapeLevel hpercent, unescape_escapeLevel]
    · have hfile : style.fontFile = some font := hfont
      simp [Setting.raw, hfile]
    · have hkeys : ∀ key ∈ plainKeys, key ≠ "text" ∧ key ≠ "fontfile" := by decide
      rw [if_neg (hkeys _ hplain).1, if_neg (hkeys _ hplain).2, raw_of_mem_plainKeys hplain]
      exact trimEnd_eq_self_iff.2 (hvalue.elim hcolor id).ends

/-! ## All settings -/

/-- The arguments of the filter. -/
def arguments (words : String) (style : TextStyle) (alpha : Option Interpolation)
    (opacity : Option Float) : String :=
  ":".intercalate ((settings words style alpha opacity).map Setting.render)

theorem filter_eq (words : String) (style : TextStyle) (alpha : Option Interpolation)
    (opacity : Option Float) :
    filter words style alpha opacity = "drawtext" ++ "=" ++ arguments words style alpha opacity :=
  rfl

theorem passes_intercalate {α : Type} {f g : α → List Char} {xs : List α}
    (h : ∀ x ∈ xs, Passes filterEnds (f x) (g x)) :
    Passes filterEnds ([':'].intercalate (xs.map f)) ([':'].intercalate (xs.map g)) := by
  have hcolon : Passes filterEnds [':'] [':'] := passes_self ending_filterEnds (by decide)
  induction xs with
  | nil => exact passes_nil
  | cons x xs ih =>
    obtain ⟨hx, hxs⟩ := List.forall_mem_cons.1 h
    cases xs with
    | nil => simpa using hx
    | cons y ys =>
      simp only [List.map_cons, List.intercalate_cons_cons] at ih ⊢
      exact (hx.append hcolon).append (ih hxs)

/-- The last setting is the vertical place, so nothing is dropped from the end of the arguments. -/
theorem endsFirm_rawOptions (words : String) (style : TextStyle) (alpha : Option Interpolation)
    (opacity : Option Float) :
    EndsFirm ([':'].intercalate ((settings words style alpha opacity).map fun s =>
      escapeLevel optionEnds (s.rawOption words style))) := by
  obtain ⟨before, hbefore⟩ : ∃ before, settings words style alpha opacity =
      before ++ [{ key := "y", value := "0" }] := ⟨_, (List.append_assoc _ [_] [_]).symm⟩
  have hlast : escapeLevel optionEnds
      (({ key := "y", value := "0" } : Setting).rawOption words style) = ['y', '=', '0'] := rfl
  rw [hbefore, List.map_append, List.map_singleton, hlast]
  exact endsFirm_intercalate (endsFirm_concat (by decide) ['y', '=']) (by simp)

/-- The arguments of the filter are read back option by option. -/
theorem forall₂_readAs (hcolors : ∀ color ∈ style.colors, Legible color) (words : String)
    (alpha : Option Interpolation) (opacity : Option Float) :
    Passes filterEnds (arguments words style alpha opacity).toList
        ([':'].intercalate ((settings words style alpha opacity).map fun s =>
          escapeLevel optionEnds (s.rawOption words style))) ∧
      List.Forall₂ (Setting.ReadAs words style) (settings words style alpha opacity)
        (options ([':'].intercalate ((settings words style alpha opacity).map fun s =>
          escapeLevel optionEnds (s.rawOption words style)))) := by
  have hcolor := (forall_mem_colors_iff words style alpha opacity).1 hcolors
  constructor
  · rw [arguments, String.toList_intercalate, List.map_map]
    exact passes_intercalate fun s hs => passes_render hs (hcolor s hs)
  · have hstart : ∀ cs ∈ (settings words style alpha opacity).map (·.rawOption words style),
        cs ≠ [] ∧ StartsFirm cs := by
      intro cs hcs
      obtain ⟨s, hs, rfl⟩ := List.mem_map.1 hcs
      exact ⟨by simp [Setting.rawOption], startsFirm_rawOption hs⟩
    have hread := options_intercalate (fun cs hcs => (hstart cs hcs).2)
      fun cs hcs => (hstart cs (List.mem_of_getLast? hcs)).1
    rw [List.map_map, List.map_map] at hread
    change options ([':'].intercalate ((settings words style alpha opacity).map fun s =>
      escapeLevel optionEnds (s.rawOption words style))) = _ at hread
    rw [hread, List.forall₂_map_right_iff, List.forall₂_same]
    exact fun s hs => readAs_trimEnd hs (hcolor s hs)

/-- One of the options has the key and the value. -/
def Tells (options : List (List Char)) (key : String) (value : List Char) : Prop :=
  ∃ option ∈ options, Text.cut '=' option = some (key.toList, value)

theorem exists_mem_of_forall₂ {α β : Type} {R : α → β → Prop} {xs : List α} {ys : List β}
    (h : List.Forall₂ R xs ys) {x : α} (hx : x ∈ xs) : ∃ y ∈ ys, R x y := by
  induction h with
  | nil => cases hx
  | cons hfirst _ ih =>
    rcases List.mem_cons.1 hx with rfl | hx
    · exact ⟨_, List.mem_cons_self, hfirst⟩
    · obtain ⟨y, hy, hrel⟩ := ih hx
      exact ⟨y, List.mem_cons_of_mem _ hy, hrel⟩

/-- Options that tell all settings tell the words, but for the escapes of their expansion. -/
theorem tells_text {options : List (List Char)}
    (h : List.Forall₂ (Setting.ReadAs words style) (settings words style alpha opacity) options) :
    ∃ value, Tells options "text" value ∧ unescape value = trimEnd words.toList := by
  have hmem : { key := "text", value := text words, protection := .escaped } ∈
      settings words style alpha opacity := by simp [settings]
  obtain ⟨option, hoption, value, hcut, hvalue⟩ := exists_mem_of_forall₂ h hmem
  rw [if_pos rfl] at hvalue
  exact ⟨value, ⟨option, hoption, hcut⟩, hvalue⟩

theorem tells_fontFile {options : List (List Char)}
    (h : List.Forall₂ (Setting.ReadAs words style) (settings words style alpha opacity) options)
    {font : String} (hfont : style.fontFile = some font) :
    Tells options "fontfile" (trimEnd font.toList) := by
  have hmem : { key := "fontfile", value := option font, protection := .escaped } ∈
      settings words style alpha opacity := by simp [settings, hfont]
  obtain ⟨option, hoption, value, hcut, hvalue⟩ := exists_mem_of_forall₂ h hmem
  obtain rfl : trimEnd font.toList = value := by simpa [hfont] using hvalue
  exact ⟨option, hoption, hcut⟩

/-- The arguments start with the key of the first setting. -/
theorem startsFirm_arguments (words : String) (style : TextStyle) (alpha : Option Interpolation)
    (opacity : Option Float) : StartsFirm (arguments words style alpha opacity).toList := by
  rw [arguments, String.toList_intercalate, List.map_map]
  apply startsFirm_intercalate (by decide)
  intro cs hcs
  obtain ⟨s, hs, rfl⟩ := List.mem_map.1 hcs
  obtain ⟨hbare, hne, -⟩ := isKey_of_mem hs
  simp only [Function.comp_apply, Setting.render, String.toList_append, List.append_assoc]
  exact (startsFirm_of_bare hbare).append hne _

end Drawtext

/-! ## Text nodes -/

namespace Stage

variable {τ : Type}

theorem steps_prefix_applyAll (g : Graph) (ctx : Context) (filters : List String) (tag : String) :
    g.steps <+: (g.applyAll ctx filters tag).2.steps := by
  induction filters generalizing g ctx with
  | nil => exact List.prefix_rfl
  | cons filter rest ih =>
    have hfirst : g.steps <+: (g.apply ctx filter tag).2.steps := List.prefix_append ..
    exact hfirst.trans (ih _ _)

theorem steps_prefix_lay (s : Stage) (p : Program) (scene picture : Context) (n : Node τ)
    (isText : Bool) : p.graph.steps <+: (s.lay p scene picture n isText).2.graph.steps :=
  (steps_prefix_applyAll ..).trans (List.prefix_append ..)

/-- The canvas of a text with the text drawn on it. -/
def drawText (s : Stage) (p : Program) (words : String) (style : TextStyle) (n : Node τ) :
    Context × Program :=
  let size := s.canvas "black@0" (canvasLength n.frame.w s.width) (canvasLength n.frame.h s.height)
  let (canvas, p) := p.combine [] size "txt"
  p.applyAll canvas
    [Composite.alphaFilter, Drawtext.filter words style n.resolve.alpha n.opacity] "txt"

theorem layText_eq (s : Stage) (p : Program) (scene : Context) (words : String) (style : TextStyle)
    (n : Node τ) : s.layText p scene words style n =
      s.lay (s.drawText p words style n).2 scene (s.drawText p words style n).1 n true := rfl

/-- A text is drawn by one step, which reads the canvas and puts the picture out. -/
theorem exists_steps_layText (s : Stage) (p : Program) (scene : Context) (words : String)
    (style : TextStyle) (n : Node τ) :
    ∃ steps canvas picture, p.graph.steps <+: steps ∧
      steps ++ [⟨[canvas], Drawtext.filter words style n.resolve.alpha n.opacity, [picture]⟩] <+:
        (s.layText p scene words style n).2.graph.steps := by
  rw [layText_eq]
  exact ⟨_, _, _, (List.prefix_append ..).trans (List.prefix_append ..),
    steps_prefix_lay s (s.drawText p words style n).2 ..⟩

theorem addNode_text (s : Stage) (p : Program) (scene : Context) {n : Node τ} {words : String}
    {style : TextStyle} (hkind : n.kind = .text words style)
    (hshown : Text.allBlank words = false) :
    s.addNode p scene n = .ok (s.layText p scene words style n) := by
  rw [addNode, hkind]
  simp only [hshown, Bool.false_eq_true, if_false]

/-- For every text that shows something, every font file, and colours without characters that mean
something to a reader: wherever the graph goes on, a reader takes the arguments of the filter that
draws the text up to the label of its output, and then finds one option for each setting, which
tells the setting.  Among them are an option with the text and, if there is a font file, one with
the font file, both but for the gaps at their end. -/
theorem drawtext_survives (s : Stage) (p : Program) (scene : Context) {n : Node τ} {words : String}
    {style : TextStyle} (hkind : n.kind = .text words style) (hshown : Text.allBlank words = false)
    (hcolors : ∀ color ∈ style.colors, Filter.Bare color) :
    ∃ r steps canvas picture, s.addNode p scene n = .ok r ∧ p.graph.steps <+: steps ∧
      steps ++ [⟨[canvas], Drawtext.filter words style n.resolve.alpha n.opacity, [picture]⟩] <+:
        r.2.graph.steps ∧
      ∀ g : Graph, r.2.graph.steps <+: g.steps →
        ∃ args, g.ArgumentsRead steps canvas "drawtext"
            (Drawtext.arguments words style n.resolve.alpha n.opacity) picture args ∧
          List.Forall₂ (Drawtext.Setting.ReadAs words style)
            (Drawtext.settings words style n.resolve.alpha n.opacity) (Filter.options args) ∧
          (∃ value, Drawtext.Tells (Filter.options args) "text" value ∧
            Filter.unescape value = Filter.trimEnd words.toList) ∧
          ∀ font, style.fontFile = some font →
            Drawtext.Tells (Filter.options args) "fontfile" (Filter.trimEnd font.toList) := by
  obtain ⟨steps, canvas, picture, hbefore, hsteps⟩ := exists_steps_layText s p scene words style n
  refine ⟨s.layText p scene words style n, steps, canvas, picture,
    addNode_text s p scene hkind hshown, hbefore, hsteps, fun g hg => ?_⟩
  obtain ⟨hpasses, hoptions⟩ := Drawtext.forall₂_readAs
    (fun c hc => (hcolors c hc).plain.legible) words n.resolve.alpha n.opacity
  rw [Drawtext.filter_eq] at hsteps
  exact ⟨_, argumentsRead_of_passes (hsteps.trans hg) hpasses
    (Drawtext.startsFirm_arguments words style _ _)
    (Drawtext.endsFirm_rawOptions words style _ _), hoptions, Drawtext.tells_text hoptions,
    fun _ hfont => Drawtext.tells_fontFile hoptions hfont⟩

/-- A text and a font file with all the characters that mean something to a reader. -/
def trickyWords : String := "Don't stop: 100%, [a;b] \\o/ \n"

def trickyStyle : TextStyle where
  color := "#ff8800"
  fontFile := some "C:\\fonts, [x;y]\\it's.ttf "
  shadow := some { x := 2.0, color := some "black@0.5" }

def trickyText : Node Timeline where
  kind := .text trickyWords trickyStyle
  animations := [{ motion := .fade 0.0 1.0, direction := .entering, start := 0.0, duration := 1.0 }]

theorem drawtext_survives_trickyText :
    let s : Stage := ⟨1280, 720, 25, 4.0⟩
    let alpha := trickyText.resolve.alpha
    trickyText.kind = .text trickyWords trickyStyle ∧ Text.allBlank trickyWords = false ∧
      (∀ color ∈ trickyStyle.colors, Filter.Bare color) ∧
      ∃ r steps canvas picture,
        s.addNode (.empty "scene.mp4" 4.0) (.ofInput 0 .video) trickyText = .ok r ∧
        (Program.empty "scene.mp4" 4.0).graph.steps <+: steps ∧
        steps ++ [⟨[canvas], Drawtext.filter trickyWords trickyStyle alpha none, [picture]⟩] <+:
          r.2.graph.steps ∧
        ∀ g : Graph, r.2.graph.steps <+: g.steps →
          ∃ args, g.ArgumentsRead steps canvas "drawtext" (Drawtext.arguments trickyWords
              trickyStyle alpha none) picture args ∧
            List.Forall₂ (Drawtext.Setting.ReadAs trickyWords trickyStyle)
              (Drawtext.settings trickyWords trickyStyle alpha none) (Filter.options args) ∧
            (∃ value, Drawtext.Tells (Filter.options args) "text" value ∧
              Filter.unescape value = Filter.trimEnd trickyWords.toList) ∧
            ∀ font, trickyStyle.fontFile = some font →
              Drawtext.Tells (Filter.options args) "fontfile" (Filter.trimEnd font.toList) :=
  ⟨rfl, by decide, by decide, drawtext_survives ⟨1280, 720, 25, 4.0⟩ (.empty "scene.mp4" 4.0)
    (.ofInput 0 .video) rfl (by decide) (by decide)⟩

end Stage

end Montage
