import Montage.Animation.Resolved
import Montage.Filter.Escape

/-!
# Drawn text

The filter that draws a text is a list of options.  The text itself and the font file are escaped;
any other value is put in single quotes if it holds a comma.
-/

namespace Montage.Drawtext

/-- How a value is protected against the readers of the filter. -/
inductive Guard where
  /-- The value is escaped already. -/
  | escaped
  /-- The value is quoted if it holds a comma. -/
  | quoted
  deriving Repr, DecidableEq

/-- One option of the filter. -/
structure Setting where
  key : String
  value : String
  protection : Guard := .quoted
  deriving Repr, DecidableEq

/-- The option as it stands in the filter. -/
def Setting.render (s : Setting) : String :=
  s.key ++ "=" ++ match s.protection with
    | .escaped => s.value
    | .quoted => Filter.quotedIfCommas s.value

/-- An option, if there is a value for it. -/
def setting? (key : String) : Option String → List Setting
  | some value => [{ key, value }]
  | none => []

def shadowSettings : Option Shadow → List Setting
  | some s =>
    setting? "shadowcolor" s.color ++
      [{ key := "shadowx", value := Filter.number s.x },
        { key := "shadowy", value := Filter.number s.y }]
  | none => []

/-- The opacity of the text: its fade, or else a fixed one. -/
def alphaSettings (alpha : Option Interpolation) (opacity : Option Float) : List Setting :=
  match alpha with
  | some ramp => [{ key := "alpha", value := ramp.expr "t" }]
  | none => setting? "alpha" (opacity.map Filter.number)

def settings (words : String) (style : TextStyle) (alpha : Option Interpolation)
    (opacity : Option Float) : List Setting :=
  setting? "line_spacing" (style.lineSpacing.map Filter.number) ++
    setting? "bordercolor" style.borderColor ++
    setting? "borderw" (style.borderWidth.map Filter.number) ++
    [{ key := "fontcolor", value := style.color }] ++
    (match style.fontFile with
      | some font =>
        [{ key := "fontfile", value := Filter.option font, protection := .escaped }]
      | none => []) ++
    [{ key := "fontsize", value := Filter.number style.fontSize }] ++
    (match style.backgroundColor with
      | some color => [{ key := "box", value := "1" }, { key := "boxcolor", value := color }]
      | none => []) ++
    shadowSettings style.shadow ++
    [{ key := "text", value := Filter.text words, protection := .escaped }] ++
    alphaSettings alpha opacity ++
    [{ key := "x", value := "0" }, { key := "y", value := "0" }]

/-- The filter that draws the words. -/
def filter (words : String) (style : TextStyle) (alpha : Option Interpolation)
    (opacity : Option Float) : String :=
  "drawtext=" ++ ":".intercalate ((settings words style alpha opacity).map Setting.render)

end Montage.Drawtext
