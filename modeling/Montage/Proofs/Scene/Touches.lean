import Mathlib.Data.List.Basic
import Montage.Scene.Composite

/-!
# What is done to a picture

Between the filters that a node brings along, a picture is touched in up to six ways, in a fixed
order (`touches`): its size, its opacity, its fixed angle, a zoom, a turn, a fade.  Some of them
need an alpha channel, which one filter adds in front of the first that does
(`filters_eq_touches`).  However the touches are mixed, this filter is there once at most and stands
in front of all that need it (`count_withAlpha_le`, `alphaFilter_mem_of_withAlpha_eq`), and no
picture is turned or made see-through twice (`touched_withAlpha`).
-/

namespace Montage

/-! ## Names of filters -/

namespace Filter

/-- What stands in front of a filter's arguments. -/
def name (filter : String) : List Char := filter.toList.takeWhile (· != '=')

/-- The filter has one of these names. -/
def hasName (names : List String) (filter : String) : Bool :=
  names.any fun other => name filter == other.toList

/-- The filter is one of those that name files in their arguments. -/
def namesFiles (filter : String) : Bool :=
  name filter == "drawtext".toList || name filter == "subtitles".toList

/-- The filter has arguments, and is not one of those. -/
def Fileless (filter : String) : Prop := '=' ∈ filter.toList ∧ namesFiles filter = false

instance (filter : String) : Decidable (Fileless filter) := inferInstanceAs (Decidable (_ ∧ _))

theorem hasName_of_name_eq {filter other : String} (h : name filter = other.toList)
    (names : List String) : hasName names filter = names.contains other := by
  have heq : (fun listed : String => name filter == listed.toList) = (other == ·) := by
    funext listed
    rw [h, Bool.eq_iff_iff, beq_iff_eq, beq_iff_eq, String.toList_inj]
  rw [hasName, heq, List.any_beq]

theorem namesFiles_eq_hasName (filter : String) :
    namesFiles filter = hasName ["drawtext", "subtitles"] filter := by
  simp [namesFiles, hasName]

theorem name_append {s : String} (h : '=' ∈ s.toList) (rest : String) :
    name (s ++ rest) = name s := by
  obtain ⟨before, after, hs, hbefore⟩ := List.eq_append_cons_of_mem h
  have hall : ∀ c ∈ before, (c != '=') = true := fun c hc => by
    rw [bne_iff_ne]
    rintro rfl
    exact hbefore hc
  rw [name, name, String.toList_append, hs, List.append_assoc,
    List.takeWhile_append_of_pos hall, List.takeWhile_append_of_pos hall]
  rfl

/-- What a filter is depends on how it begins. -/
theorem mem_and_name_appendAll {head : String} (h : '=' ∈ head.toList) (rest : List String) :
    '=' ∈ (rest.foldl (· ++ ·) head).toList ∧ name (rest.foldl (· ++ ·) head) = name head := by
  induction rest generalizing head with
  | nil => exact ⟨h, rfl⟩
  | cons part rest ih =>
    have hpart : '=' ∈ (head ++ part).toList := by
      rw [String.toList_append]
      exact List.mem_append_left _ h
    obtain ⟨hmem, hname⟩ := ih hpart
    exact ⟨hmem, hname.trans (name_append h part)⟩

theorem name_appendAll (other : String) {head : String}
    (h : '=' ∈ head.toList ∧ name head = other.toList) (rest : List String) :
    name (rest.foldl (· ++ ·) head) = other.toList :=
  (mem_and_name_appendAll h.1 rest).2.trans h.2

theorem Fileless.appendAll {s : String} (h : Fileless s) (rest : List String) :
    Fileless (rest.foldl (· ++ ·) s) := by
  obtain ⟨hmem, hname⟩ := mem_and_name_appendAll h.1 rest
  refine ⟨hmem, ?_⟩
  rw [namesFiles, hname]
  exact h.2

theorem Fileless.append {s : String} (h : Fileless s) (rest : String) : Fileless (s ++ rest) :=
  h.appendAll [rest]

end Filter

namespace Composite

open Montage.Filter

/-! ## Touches -/

/-- One thing that is done to a picture. -/
inductive Touch where
  | size (frame : Rect)
  | opacity (value : Float)
  | rotation (degrees : Float) (box : Rect)
  | zoom (scale : Interpolation)
  | turn (angle : Interpolation)
  | fade (alpha : Interpolation)
  deriving Repr, DecidableEq

namespace Touch

def filter : Touch → String
  | size frame => "scale=" ++ number (Scalar.nearest frame.w) ++ ":" ++
      number (Scalar.nearest frame.h)
  | opacity value => "colorchannelmixer=aa=" ++ number value
  | rotation degrees box =>
    "rotate=" ++ number degrees ++ "*PI/180:ow=" ++ number (Scalar.nearest box.w) ++ ":oh=" ++
      number (Scalar.nearest box.h) ++ ":c=none"
  | zoom scale =>
    "scale=w='iw*(" ++ scale.expr "t" ++ ")':h='ih*(" ++ scale.expr "t" ++ ")':eval=frame"
  | turn angle => "rotate='(" ++ angle.expr "t" ++ ")*PI/180':ow='hypot(iw,ih)':oh=ow:c=none"
  | fade alpha => "geq=r='r(X,Y)':g='g(X,Y)':b='b(X,Y)':a='alpha(X,Y)*(" ++ alpha.expr "T" ++ ")'"

def name : Touch → String
  | size _ | zoom _ => "scale"
  | opacity _ => "colorchannelmixer"
  | rotation .. | turn _ => "rotate"
  | fade _ => "geq"

def needsAlpha : Touch → Bool
  | size _ | zoom _ => false
  | opacity _ | rotation .. | turn _ | fade _ => true

/-- The names of the filters that need an alpha channel. -/
def alphaNames : List String := ["colorchannelmixer", "rotate", "geq"]

variable (t : Touch)

theorem needsAlpha_eq : t.needsAlpha = alphaNames.contains t.name := by
  cases t <;> simp only [needsAlpha, name] <;> decide

theorem name_filter : Filter.name t.filter = t.name.toList := by
  cases t with
  | size => exact name_appendAll "scale" (by decide) [_, _, _]
  | opacity => exact name_appendAll "colorchannelmixer" (by decide) [_]
  | rotation => exact name_appendAll "rotate" (by decide) [_, _, _, _, _, _]
  | zoom => exact name_appendAll "scale" (by decide) [_, _, _, _]
  | turn => exact name_appendAll "rotate" (by decide) [_, _]
  | fade => exact name_appendAll "geq" (by decide) [_, _]

theorem hasName_filter (names : List String) :
    hasName names t.filter = names.contains t.name := hasName_of_name_eq t.name_filter names

theorem hasName_alphaFilter (names : List String) :
    hasName names alphaFilter = names.contains "format" := hasName_of_name_eq (by decide) names

theorem filter_ne_alphaFilter : t.filter ≠ alphaFilter := by
  intro h
  have hname := t.name_filter
  rw [h] at hname
  cases t <;> simp only [name] at hname
  all_goals exact absurd hname (by decide)

end Touch

/-! ## The alpha channel -/

/-- The filters of the touches, with an alpha channel added when the first of them needs it. -/
def withAlpha (hasAlpha : Bool) : List Touch → List String
  | [] => []
  | t :: rest =>
    if t.needsAlpha && !hasAlpha then alphaFilter :: t.filter :: withAlpha true rest
    else t.filter :: withAlpha hasAlpha rest

/-- The stretch with one more thing done to the picture. -/
def Stretch.touch (s : Stretch) (t : Touch) : Stretch :=
  if t.needsAlpha then s.addWithAlpha t.filter else s.add t.filter

theorem filters_foldl_touch (ts : List Touch) (s : Stretch) :
    (ts.foldl Stretch.touch s).filters = s.filters ++ withAlpha s.hasAlpha ts := by
  induction ts generalizing s with
  | nil => exact (List.append_nil _).symm
  | cons t rest ih =>
    rw [List.foldl_cons, ih]
    cases hneeds : t.needsAlpha <;> cases halpha : s.hasAlpha <;>
      simp [Stretch.touch, Stretch.addWithAlpha, Stretch.add, withAlpha, hneeds, halpha]

/-- A picture that has an alpha channel is given none. -/
theorem withAlpha_true (ts : List Touch) : withAlpha true ts = ts.map Touch.filter := by
  induction ts with
  | nil => rfl
  | cons t rest ih => simp [withAlpha, ih]

/-- But for the alpha channel, the filters are those of the touches in their order. -/
theorem filter_ne_withAlpha (hasAlpha : Bool) (ts : List Touch) :
    (withAlpha hasAlpha ts).filter (· != alphaFilter) = ts.map Touch.filter := by
  induction ts generalizing hasAlpha with
  | nil => rfl
  | cons t rest ih =>
    rw [withAlpha]
    split <;> simp [t.filter_ne_alphaFilter, ih]

/-- The filters of some names are those of the touches of these names. -/
theorem filter_hasName_withAlpha {names : List String} (hnames : "format" ∉ names)
    (hasAlpha : Bool) (ts : List Touch) :
    (withAlpha hasAlpha ts).filter (hasName names) =
      (ts.filter (names.contains ·.name)).map Touch.filter := by
  have halpha : hasName names alphaFilter = false := by
    rw [Touch.hasName_alphaFilter]
    simpa using hnames
  have hother : ∀ filter ∈ withAlpha hasAlpha ts,
      hasName names filter = (hasName names filter && filter != alphaFilter) := by
    intro filter _
    by_cases hfilter : filter = alphaFilter
    · rw [hfilter, halpha, Bool.false_and]
    · rw [bne_iff_ne.2 hfilter, Bool.and_true]
  have htouch : hasName names ∘ Touch.filter = (names.contains ·.name) :=
    funext (Touch.hasName_filter · names)
  rw [List.filter_congr hother, ← List.filter_filter, filter_ne_withAlpha, List.filter_map, htouch]

theorem alphaFilter_notMem_withAlpha_true (ts : List Touch) :
    alphaFilter ∉ withAlpha true ts := by
  rw [withAlpha_true, List.mem_map]
  rintro ⟨t, -, ht⟩
  exact t.filter_ne_alphaFilter ht

/-- An alpha channel is added once at most. -/
theorem count_withAlpha_le (hasAlpha : Bool) (ts : List Touch) :
    (withAlpha hasAlpha ts).count alphaFilter ≤ 1 := by
  induction ts generalizing hasAlpha with
  | nil => exact Nat.zero_le 1
  | cons t rest ih =>
    rw [withAlpha]
    split
    · have hrest := List.count_eq_zero_of_not_mem (alphaFilter_notMem_withAlpha_true rest)
      rw [List.count_cons_self, List.count_cons_of_ne t.filter_ne_alphaFilter]
      omega
    · rw [List.count_cons_of_ne t.filter_ne_alphaFilter]
      exact ih hasAlpha

/-- The alpha channel is there before the first filter that needs it. -/
theorem alphaFilter_mem_of_withAlpha_eq {ts : List Touch} {before after : List String}
    {filter : String} (h : withAlpha false ts = before ++ filter :: after)
    (hneeds : hasName Touch.alphaNames filter = true) : alphaFilter ∈ before := by
  induction ts generalizing before with
  | nil => exact absurd h.symm (List.append_ne_nil_of_right_ne_nil before (List.cons_ne_nil _ _))
  | cons t rest ih =>
    have halpha : hasName Touch.alphaNames alphaFilter = false := by
      rw [Touch.hasName_alphaFilter]
      decide
    cases ht : t.needsAlpha with
    | true =>
      cases before with
      | nil =>
        obtain ⟨rfl, -⟩ : alphaFilter = filter ∧ _ := by simpa [withAlpha, ht] using h
        rw [halpha] at hneeds
        cases hneeds
      | cons first before =>
        obtain ⟨rfl, -⟩ : alphaFilter = first ∧ _ := by simpa [withAlpha, ht] using h
        exact List.mem_cons_self
    | false =>
      cases before with
      | nil =>
        obtain ⟨rfl, -⟩ : t.filter = filter ∧ _ := by simpa [withAlpha, ht] using h
        rw [Touch.hasName_filter, ← Touch.needsAlpha_eq, ht] at hneeds
        cases hneeds
      | cons first before =>
        obtain ⟨-, hrest⟩ :
            t.filter = first ∧ withAlpha false rest = before ++ filter :: after := by
          simpa [withAlpha, ht] using h
        exact List.mem_cons_of_mem _ (ih hrest)

/-! ## The touches of a node -/

variable {τ : Type}

/-- The box that gives a picture its size unless the node brings filters for that. -/
def fittingBox? (n : Node τ) (isText : Bool) : Option Rect :=
  if n.preFilters.isEmpty && !isText && n.frame.isSized then some n.frame else none

/-- What is done to the picture of a node once it has its size. -/
def changes (n : Node τ) (r : Resolved) (isText : Bool) : List Touch :=
  (fixedOpacity? n r isText).toList.map .opacity ++
    (turnedBox? n r).toList.map (.rotation n.rotation) ++
    r.scale.toList.map .zoom ++
    r.angle.toList.map .turn ++
    (if isText then none else r.alpha).toList.map .fade

/-- What is done to the picture of a node: it is given its size, unless the node brings filters for
that; an opacity below one, unless it fades; an angle, unless it turns; and then a zoom, a turn and
a fade.  A text is drawn in its size and with its opacity. -/
def touches (n : Node τ) (r : Resolved) (isText : Bool) : List Touch :=
  (if n.preFilters = [] ∧ isText = false ∧ 0 < n.frame.w ∧ 0 < n.frame.h then [.size n.frame]
    else []) ++
  (match r.alpha, n.opacity with
    | none, some value => if isText = false ∧ value < 1.0 then [.opacity value] else []
    | _, _ => []) ++
  (if (n.rotation == 0.0) = false ∧ r.angle = none then
      [.rotation n.rotation (r.frame.turned n.rotation)]
    else []) ++
  r.scale.toList.map .zoom ++
  r.angle.toList.map .turn ++
  (if isText then [] else r.alpha.toList.map .fade)

theorem size_touches_eq (n : Node τ) (isText : Bool) :
    (if n.preFilters = [] ∧ isText = false ∧ 0 < n.frame.w ∧ 0 < n.frame.h then
      [Touch.size n.frame] else []) = (fittingBox? n isText).toList.map .size := by
  rw [fittingBox?]
  by_cases h : n.preFilters = [] ∧ isText = false ∧ 0 < n.frame.w ∧ 0 < n.frame.h
  · obtain ⟨hpre, rfl, hsized⟩ := h
    simp [hpre, hsized, Rect.isSized_iff.2 hsized]
  · rw [if_neg h, if_neg]
    · rfl
    · simpa [Rect.isSized_iff, and_assoc] using h

theorem opacity_touches_eq (n : Node τ) (r : Resolved) (isText : Bool) :
    (match r.alpha, n.opacity with
      | none, some value => if isText = false ∧ value < 1.0 then [Touch.opacity value] else []
      | _, _ => []) = (fixedOpacity? n r isText).toList.map .opacity := by
  rw [fixedOpacity?]
  cases r.alpha with
  | some ramp => simp
  | none =>
    cases n.opacity with
    | none => simp
    | some value =>
      by_cases hvalue : value < 1.0 <;> cases isText <;> simp [Option.filter, hvalue]

theorem rotation_touches_eq (n : Node τ) (r : Resolved) :
    (if (n.rotation == 0.0) = false ∧ r.angle = none then
      [Touch.rotation n.rotation (r.frame.turned n.rotation)] else []) =
      (turnedBox? n r).toList.map (.rotation n.rotation) := by
  rw [turnedBox?]
  cases r.angle with
  | some angle => simp
  | none => cases hzero : n.rotation == 0.0 <;> simp [bne, hzero]

theorem touches_eq (n : Node τ) (r : Resolved) (isText : Bool) :
    touches n r isText = (fittingBox? n isText).toList.map .size ++ changes n r isText := by
  rw [touches, changes, size_touches_eq, opacity_touches_eq, rotation_touches_eq]
  cases isText <;> simp

section

variable (s : Stretch)

theorem addRotation_eq_foldl (degrees : Float) (box : Option Rect) :
    addRotation s degrees box = (box.toList.map (.rotation degrees)).foldl Stretch.touch s := by
  cases box <;> rfl

theorem addZoom_eq_foldl (scale : Option Interpolation) :
    addZoom s scale = (scale.toList.map .zoom).foldl Stretch.touch s := by
  cases scale <;> rfl

theorem addTurn_eq_foldl (angle : Option Interpolation) :
    addTurn s angle = (angle.toList.map .turn).foldl Stretch.touch s := by
  cases angle <;> rfl

theorem addFade_eq_foldl (alpha : Option Interpolation) :
    addFade s alpha = (alpha.toList.map .fade).foldl Stretch.touch s := by
  cases alpha <;> rfl

end

/-- Only a picture without an alpha channel is given a fixed opacity, so the channel that it asks
for is never a second one. -/
theorem addOpacity_eq_foldl (n : Node τ) (r : Resolved) (isText : Bool) (before : List String) :
    addOpacity ⟨before, isText⟩ (fixedOpacity? n r isText) =
      ((fixedOpacity? n r isText).toList.map .opacity).foldl Stretch.touch ⟨before, isText⟩ := by
  cases isText with
  | true => rfl
  | false => cases fixedOpacity? n r false <;> rfl

/-- All that is added to a stretch is what is done to the picture. -/
theorem foldl_changes (n : Node τ) (r : Resolved) (isText : Bool) (before : List String) :
    (changes n r isText).foldl Stretch.touch ⟨before, isText⟩ =
      addFade (addTurn (addZoom (addRotation (addOpacity ⟨before, isText⟩
        (fixedOpacity? n r isText)) n.rotation (turnedBox? n r)) r.scale) r.angle)
        (if isText then none else r.alpha) := by
  rw [addFade_eq_foldl, addTurn_eq_foldl, addZoom_eq_foldl, addRotation_eq_foldl,
    addOpacity_eq_foldl]
  simp only [changes, List.foldl_append]

/-- The filters between the size of a picture and the node's further filters. -/
def between (n : Node τ) (r : Resolved) (isText : Bool) : Stretch :=
  let s := addOpacity ⟨[], isText⟩ (fixedOpacity? n r isText)
  let s := addRotation s n.rotation (turnedBox? n r)
  let s := addZoom s r.scale
  let s := addTurn s r.angle
  addFade s (if isText then none else r.alpha)

theorem filters_between (n : Node τ) (r : Resolved) (isText : Bool) :
    (between n r isText).filters = withAlpha isText (changes n r isText) := by
  rw [between, ← foldl_changes, filters_foldl_touch, List.nil_append]

theorem filters_eq (n : Node τ) (r : Resolved) (isText : Bool) :
    filters n r isText = sizeFilters n isText ++ (between n r isText).filters ++ n.filters := by
  rw [filters, ← foldl_changes, Stretch.addAll, filters_foldl_touch, filters_between]

theorem sizeFilters_eq (n : Node τ) (isText : Bool) :
    sizeFilters n isText =
      n.preFilters ++ ((fittingBox? n isText).toList.map Touch.size).map Touch.filter := by
  rw [sizeFilters, fittingBox?]
  split
  · next h =>
    have hnone : n.preFilters = [] := by
      simp only [Bool.and_eq_true, List.isEmpty_iff] at h
      exact h.1.1
    rw [hnone]
    rfl
  · exact (List.append_nil _).symm

/-- The node's filters before and behind what is done to its picture. -/
theorem filters_eq_touches (n : Node τ) (r : Resolved) (isText : Bool) :
    filters n r isText = n.preFilters ++ withAlpha isText (touches n r isText) ++ n.filters := by
  have hsize : withAlpha isText (touches n r isText) =
      ((fittingBox? n isText).toList.map Touch.size).map Touch.filter ++
        withAlpha isText (changes n r isText) := by
    rw [touches_eq]
    cases fittingBox? n isText <;> rfl
  rw [filters_eq, filters_between, sizeFilters_eq, hsize, ← List.append_assoc]

/-- What is done to a picture names no files. -/
theorem namesFiles_of_mem_between {n : Node τ} {r : Resolved} {isText : Bool} {filter : String}
    (h : filter ∈ (between n r isText).filters) : namesFiles filter = false := by
  have hname : ∀ t : Touch, ["drawtext", "subtitles"].contains t.name = false := by
    intro t
    cases t <;> simp only [Touch.name] <;> decide
  have hnone : (between n r isText).filters.filter (hasName ["drawtext", "subtitles"]) = [] := by
    rw [filters_between, filter_hasName_withAlpha (by decide),
      List.filter_eq_nil_iff.2 fun t _ => Bool.eq_false_iff.1 (hname t), List.map_nil]
  rw [namesFiles_eq_hasName]
  exact Bool.eq_false_iff.2 (List.filter_eq_nil_iff.1 hnone filter h)

/-! ## Opacity and angle -/

/-- What makes the picture of a node see-through: its fade, or else an opacity below one. -/
def veil? (n : Node τ) (r : Resolved) : Option Touch :=
  match r.alpha with
  | some ramp => some (.fade ramp)
  | none => (n.opacity.filter (· < 1.0)).map .opacity

/-- The opacity of a picture is touched by its veil, and that of a text not at all. -/
theorem filter_opacity_touches (n : Node τ) (r : Resolved) (isText : Bool) :
    (touches n r isText).filter (["colorchannelmixer", "geq"].contains ·.name) =
      if isText then [] else (veil? n r).toList := by
  cases isText <;> cases halpha : r.alpha <;>
    simp [touches_eq, changes, veil?, fixedOpacity?, halpha, List.filter_map, Function.comp_def,
      Touch.name, Option.toList_map]

/-- There is one angle at most: a fixed one is for a picture that does not turn. -/
theorem filter_rotate_touches (n : Node τ) (r : Resolved) (isText : Bool) :
    ((touches n r isText).filter (["rotate"].contains ·.name)).length ≤ 1 := by
  have hrotate : (touches n r isText).filter (["rotate"].contains ·.name) =
      (turnedBox? n r).toList.map (.rotation n.rotation) ++ r.angle.toList.map .turn := by
    simp [touches_eq, changes, List.filter_map, Function.comp_def, Touch.name]
  rw [hrotate, turnedBox?]
  cases r.angle with
  | none => split <;> simp
  | some angle => simp

/-- The filters are what is done to the picture of a node, with an alpha channel where one is
needed and no picture turned or made see-through twice. -/
structure Touched (n : Node τ) (r : Resolved) (isText : Bool) (own : List String) : Prop where
  order : own.filter (· != "format=rgba") = (touches n r isText).map Touch.filter
  alpha_once : own.count "format=rgba" ≤ 1
  /-- A text has an alpha channel from its canvas. -/
  alpha_never : isText = true → "format=rgba" ∉ own
  alpha_first : isText = false → ∀ before filter after, own = before ++ filter :: after →
    hasName Touch.alphaNames filter = true → "format=rgba" ∈ before
  rotate_once : own.countP (hasName ["rotate"]) ≤ 1
  opacity : own.filter (hasName ["colorchannelmixer", "geq"]) =
    if isText then [] else ((veil? n r).map Touch.filter).toList

theorem touched_withAlpha (n : Node τ) (r : Resolved) (isText : Bool) :
    Touched n r isText (withAlpha isText (touches n r isText)) where
  order := filter_ne_withAlpha isText (touches n r isText)
  alpha_once := count_withAlpha_le isText (touches n r isText)
  alpha_never := by
    rintro rfl
    exact alphaFilter_notMem_withAlpha_true _
  alpha_first := by
    rintro rfl before filter after h hneeds
    exact alphaFilter_mem_of_withAlpha_eq h hneeds
  rotate_once := by
    rw [List.countP_eq_length_filter, filter_hasName_withAlpha (by decide), List.length_map]
    exact filter_rotate_touches n r isText
  opacity := by
    rw [filter_hasName_withAlpha (by decide), filter_opacity_touches, Option.toList_map]
    cases isText <;> rfl

end Composite

end Montage
