import Montage.Filter.Escape
import Montage.Geometry
import Montage.Path
import Montage.Text.Ascii

/-!
# How burned-in subtitles look

Subtitles are burned in by a filter that reads a subtitle file and a list of style fields.  Sizes
are given in points, colours in hexadecimal with blue first.
-/

namespace Montage.Subtitle

/-! ## Colours -/

def colorNames : List (String × String) :=
  [("black", "#000000"), ("white", "#ffffff"), ("red", "#ff0000"), ("green", "#00ff00"),
    ("blue", "#0000ff"), ("yellow", "#ffff00")]

/-- A hexadecimal colour with blue first; anything that is no known name and no hexadecimal colour
is left as it is. -/
def color (s : String) : String :=
  let hex := ((colorNames.lookup (Text.lower s)).getD s).toList
  match hex with
  | '#' :: _ =>
    match hex.dropWhile (· == '#') with
    | [r₁, r₂, g₁, g₂, b₁, b₂] =>
      if [r₁, r₂, g₁, g₂, b₁, b₂].all Text.isHexDigit then
        String.ofList (['&', 'H', '0', '0'] ++
          [b₁, b₂, g₁, g₂, r₁, r₂].map Char.toUpper ++ ['&'])
      else s
    | _ => s
  | _ => s

/-! ## Style fields -/

/-- Minus one for yes. -/
def flag (on : Bool) : String := if on then "-1" else "0"

/-- How far a text's shadow falls. -/
def shadowDepth : Option Shadow → Float
  | some s => if s.x != 0.0 then s.x else s.y
  | none => 0.0

/-- A field, if there is a value for it. -/
def field? (name : String) : Option String → List (String × String)
  | some value => [(name, value)]
  | none => []

/-- The style fields of subtitles in a frame on a stage. -/
def styleFields (style : TextStyle) (frame : Rect) (vertical : Bool)
    (stageW stageH : UInt32) : List (String × String) :=
  let dpi := stageDpi stageW stageH
  let points (px : Float) : String := Filter.number (toPoints px dpi)
  let (angle, alignment, marginL, marginV) :=
    if vertical then ("90", "7", points frame.x, "0")
    else ("0", "2", "0", points (stageH.toFloat - (frame.y + frame.h)))
  let back := (style.shadow.bind (·.color)).or style.backgroundColor
  field? "Spacing" (style.charSpacing.map fun s => points (s / 1000.0 * style.fontSize)) ++
    [("Angle", angle)] ++
    field? "ScaleX" (style.scale.map Filter.number) ++
    field? "ScaleY" (style.scale.map Filter.number) ++
    [("Bold", flag style.bold), ("Italic", flag style.italic),
      ("Underline", flag style.underline), ("Strikeout", flag style.strikeout),
      ("BorderStyle", "1"), ("Shadow", points (shadowDepth style.shadow)),
      ("Alignment", alignment)] ++
    field? "OutlineColour" (style.borderColor.map color) ++
    [("Outline", points (style.borderWidth.getD 0.0)), ("PrimaryColour", color style.color)] ++
    field? "BackColour" (back.map color) ++
    field? "Fontname" style.fontFamily ++
    [("Fontsize", points style.fontSize), ("MarginL", marginL), ("MarginV", marginV)]

def styleText (style : TextStyle) (frame : Rect) (vertical : Bool)
    (stageW stageH : UInt32) : String :=
  ",".intercalate ((styleFields style frame vertical stageW stageH).map fun (name, value) =>
    name ++ "=" ++ value)

/-- The directory of a font file, if it names one. -/
def fontDir? (style : TextStyle) : Option String :=
  match style.fontFile with
  | some font => (Path.parent? font).filter (!·.isEmpty)
  | none => none

/-- The filter that burns a subtitle file in. -/
def filter (path : String) (style : TextStyle) (frame : Rect) (vertical : Bool)
    (stageW stageH : UInt32) : String :=
  "subtitles=" ++ Filter.path path ++ ":force_style='" ++
    styleText style frame vertical stageW stageH ++ "'" ++
    match fontDir? style with
    | some dir => ":fontsdir=" ++ Filter.path dir
    | none => ""

end Montage.Subtitle
