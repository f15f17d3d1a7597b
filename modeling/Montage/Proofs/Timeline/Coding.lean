import Montage.Proofs.Timeline.Nesting
import Montage.Timeline.Decode
import Montage.Timeline.Encode

/-!
# Timelines written as data and read back

A timeline that is written as data is read back as it was, however deep its compositions are nested
(`Timeline.ofJson?_toJson_of_finite`), as long as all its floats are finite: any other float is
written as null.  Each type has a lemma of its own, `ofJson?_toJson`, over the list of its `floats`.
-/

namespace Montage

namespace Json

variable {α : Type} {read : Json → Option α} {write : α → Json}

/-! ## Fields of objects -/

@[simp] theorem isRecord_obj (members : List (String × Json)) (size : Nat) :
    (obj members).isRecord size = true := rfl

@[simp] theorem isObject_obj (members : List (String × Json)) : (obj members).isObject = true := rfl

section

variable (place : Nat) {name key : String} (v : Json) (rest : List (String × Json)) (default : α)

@[simp] theorem required_cons_self :
    (obj ((name, v) :: rest)).required place name read = read v := by
  rw [required, field, lookup, if_pos rfl, Option.bind_some]

@[simp] theorem required_cons_of_ne (h : key ≠ name) :
    (obj ((key, v) :: rest)).required place name read = (obj rest).required place name read := by
  rw [required, field, lookup, if_neg h]
  rfl

@[simp] theorem withDefault_cons_self :
    (obj ((name, v) :: rest)).withDefault place name read default = read v := by
  rw [withDefault, field, lookup, if_pos rfl]

@[simp] theorem withDefault_cons_of_ne (h : key ≠ name) :
    (obj ((key, v) :: rest)).withDefault place name read default =
      (obj rest).withDefault place name read default := by
  rw [withDefault, field, lookup, if_neg h]
  rfl

variable {members : List (String × Json)} {names : List String}

theorem lookup_append_of_not_mem (h : name ∉ members.map Prod.fst) :
    lookup name (members ++ rest) = lookup name rest := by
  induction members with
  | nil => rfl
  | cons m members ih =>
    rw [List.map_cons, List.mem_cons, not_or] at h
    rw [List.cons_append, lookup, if_neg (Ne.symm h.1), ih h.2]

/-- Fields with other names are passed over. -/
theorem required_append (hsub : members.map Prod.fst ⊆ names) (h : name ∉ names) :
    (obj (members ++ rest)).required place name read = (obj rest).required place name read := by
  rw [required, field, lookup_append_of_not_mem rest fun hmem => h (hsub hmem)]
  rfl

theorem withDefault_append (hsub : members.map Prod.fst ⊆ names) (h : name ∉ names) :
    (obj (members ++ rest)).withDefault place name read default =
      (obj rest).withDefault place name read default := by
  rw [withDefault, field, lookup_append_of_not_mem rest fun hmem => h (hsub hmem)]
  rfl

end

/-! ## Leaves -/

@[simp] theorem asFloat_ofFloat {x : Float} (h : x.isFinite = true) :
    asFloat (ofFloat x) = some x := by
  rw [ofFloat, if_pos h, asFloat]

theorem asOption_ofOption (hnull : read .null = none) {o : Option α}
    (h : ∀ a ∈ o, read (write a) = some a) : asOption read (ofOption write o) = some o := by
  cases o with
  | none => rfl
  | some a =>
    have ha := h a rfl
    rw [ofOption]
    unfold asOption
    split
    · next hwrite =>
      rw [hwrite, hnull] at ha
      cases ha
    · rw [ha]
      rfl

theorem asFloat_ofFloat? {x : Option Float} (h : ∀ y ∈ x, y.isFinite = true) :
    asOption asFloat (ofFloat? x) = some x :=
  asOption_ofOption rfl fun y hy => asFloat_ofFloat (h y hy)

@[simp] theorem asText_str (s : String) : asText (.str s) = some s := rfl

@[simp] theorem asBool_bool (b : Bool) : asBool (.bool b) = some b := rfl

@[simp] theorem asText_ofText? (s : Option String) : asOption asText (ofText? s) = some s :=
  asOption_ofOption rfl fun _ _ => rfl

theorem asList_ofList {xs : List α} (h : ∀ a ∈ xs, read (write a) = some a) :
    asList read (ofList write xs) = some xs := by
  rw [ofList, asList]
  induction xs with
  | nil => rfl
  | cons a rest ih =>
    obtain ⟨ha, hrest⟩ := List.forall_mem_cons.1 h
    rw [List.map_cons, List.mapM_cons, ha, ih hrest]
    rfl

theorem asNat_int {size n : Nat} (h : n < size) : asNat size (.int n) = some n := by
  rw [asNat, if_pos (by omega), Int.toNat_natCast]

@[simp] theorem asUInt8_int (n : UInt8) : asUInt8 (.int n.toNat) = some n := by
  rw [asUInt8, asNat_int n.toNat_lt_size, Option.map_some, UInt8.ofNat_toNat]

@[simp] theorem asUInt32_int (n : UInt32) : asUInt32 (.int n.toNat) = some n := by
  rw [asUInt32, asNat_int n.toNat_lt_size, Option.map_some, UInt32.ofNat_toNat]

@[simp] theorem asUInt64_int (n : UInt64) : asUInt64 (.int n.toNat) = some n := by
  rw [asUInt64, asNat_int n.toNat_lt_size, Option.map_some, UInt64.ofNat_toNat]

@[simp] theorem asInt64_int (n : Int64) : asInt64 (.int n.toInt) = some n := by
  rw [asInt64, asInt, if_pos ⟨n.minValue_le_toInt, n.toInt_le⟩, Option.map_some, Int64.ofInt_toInt]

end Json

open Json

/-! ## Floats -/

/-- All of the floats are finite. -/
def AllFinite (xs : List Float) : Prop := ∀ x ∈ xs, x.isFinite = true

instance (xs : List Float) : Decidable (AllFinite xs) :=
  inferInstanceAs (Decidable (∀ x ∈ xs, x.isFinite = true))

theorem allFinite_nil : AllFinite [] := fun _ h => by cases h

theorem allFinite_cons {x : Float} {xs : List Float} :
    AllFinite (x :: xs) ↔ x.isFinite = true ∧ AllFinite xs := List.forall_mem_cons

theorem allFinite_append {xs ys : List Float} :
    AllFinite (xs ++ ys) ↔ AllFinite xs ∧ AllFinite ys := List.forall_mem_append

theorem allFinite_toList {x : Option Float} :
    AllFinite x.toList ↔ ∀ y ∈ x, y.isFinite = true := by
  cases x <;> simp [AllFinite]

theorem allFinite_flatMap {α : Type} {f : α → List Float} {xs : List α} :
    AllFinite (xs.flatMap f) ↔ ∀ a ∈ xs, AllFinite (f a) := List.forall_mem_flatMap

def Point.floats (p : Point) : List Float := [p.x, p.y]

def Rect.floats (r : Rect) : List Float := [r.x, r.y, r.w, r.h]

def Motion.floats : Motion → List Float
  | .move start finish => start.floats ++ finish.floats
  | .fade start finish => [start, finish]
  | .zoom start finish => [start, finish]
  | .rotate start finish => [start, finish]
  | .effect _ => []

def Animation.floats (a : Animation) : List Float := a.motion.floats ++ [a.start, a.duration]

def Shadow.floats (s : Shadow) : List Float := [s.x, s.y]

def TextStyle.floats (s : TextStyle) : List Float :=
  s.fontSize :: (s.borderWidth.toList ++ s.lineSpacing.toList ++ s.charSpacing.toList ++
    s.scale.toList ++ s.shadow.toList.flatMap Shadow.floats)

def AudioTrack.floats (t : AudioTrack) : List Float :=
  t.start :: (t.readFrom.toList ++ t.readTo.toList ++ t.volume.toList ++ t.fadeIn.toList ++
    t.fadeOut.toList)

def TransitionSpec.floats (t : TransitionSpec) : List Float := [t.duration]

def SubtitleBlock.floats (b : SubtitleBlock) : List Float :=
  Rect.floats b.frame ++ b.style.floats ++ b.duration.toList

/-- The floats of a kind, those of its composition being listed already. -/
def NodeKind.floats : NodeKind (List Float) → List Float
  | .image _ => []
  | .video _ cutFrom cutTo _ => cutFrom.toList ++ cutTo.toList
  | .text _ style => style.floats
  | .subtitle _ style _ => style.floats
  | .audio track => track.floats
  | .composition inner _ => inner

def Node.floats (n : Node (List Float)) : List Float :=
  n.kind.floats ++ Rect.floats n.frame ++ n.rotation :: (n.opacity.toList ++ n.start.toList ++
    n.finish.toList ++ n.animations.flatMap Animation.floats)

def Scene.floats (s : Scene (List Float)) : List Float :=
  s.duration :: (s.transition.toList.flatMap TransitionSpec.floats ++ s.nodes.flatMap Node.floats ++
    s.subtitle.toList.flatMap SubtitleBlock.floats ++ s.audios.flatMap AudioTrack.floats ++
    s.audioVolume.toList)

/-- All floats of a timeline and of those nested in it. -/
def Timeline.floats : Timeline → List Float :=
  Timeline.fold fun _ scenes audios =>
    scenes.flatMap Scene.floats ++ audios.flatMap AudioTrack.floats

theorem Timeline.floats_eq (t : Timeline) :
    t.floats = (t.scenes.map (Scene.map Timeline.floats)).flatMap Scene.floats ++
      t.audios.flatMap AudioTrack.floats :=
  Timeline.fold_eq ..

/-! ## Records -/

@[simp] theorem Speed.ofJson?_name (lax : Bool) (s : Speed) :
    Speed.ofJson? lax (.str s.name) = some s := by
  cases s <;> rfl

@[simp] theorem Direction.ofJson?_name (lax : Bool) (d : Direction) :
    Direction.ofJson? lax (.str d.name) = some d := by
  cases d <;> rfl

theorem Settings.ofJson?_toJson (lax : Bool) (s : Settings) :
    Settings.ofJson? lax s.toJson = some s := by
  have hthreads : asOption asUInt32 (ofOption (fun n : UInt32 => .int n.toNat) s.threads) =
      some s.threads := asOption_ofOption rfl fun n _ => asUInt32_int n
  have hseed : asOption asUInt64 (ofOption (fun n : UInt64 => .int n.toNat) s.seed) =
      some s.seed := asOption_ofOption rfl fun n _ => asUInt64_int n
  simp [ofJson?, toJson, hthreads, hseed]

theorem Point.ofJson?_toJson {p : Point} (h : AllFinite p.floats) :
    Point.ofJson? p.toJson = some p := by
  simp only [floats, allFinite_cons, allFinite_nil, and_true] at h
  simp [ofJson?, toJson, h]

theorem Rect.ofJson?_toJson {r : Rect} (h : AllFinite (Rect.floats r)) :
    Rect.ofJson? (Rect.toJson r) = some r := by
  simp only [floats, allFinite_cons, allFinite_nil, and_true] at h
  simp [ofJson?, toJson, h]

theorem Shadow.ofJson?_toJson {s : Shadow} (h : AllFinite s.floats) :
    Shadow.ofJson? s.toJson = some s := by
  simp only [floats, allFinite_cons, allFinite_nil, and_true] at h
  simp [ofJson?, toJson, h]

theorem TextStyle.ofJson?_toJson {s : TextStyle} (h : AllFinite s.floats) :
    TextStyle.ofJson? s.toJson = some s := by
  simp only [floats, allFinite_cons, allFinite_append, allFinite_toList, allFinite_flatMap,
    Option.mem_toList] at h
  obtain ⟨hfontSize, ⟨⟨⟨hborder, hline⟩, hchar⟩, hscale⟩, hshadow⟩ := h
  have hshadow' : asOption Shadow.ofJson? (ofOption Shadow.toJson s.shadow) = some s.shadow :=
    asOption_ofOption rfl fun a ha => Shadow.ofJson?_toJson (hshadow a ha)
  simp [ofJson?, toJson, hfontSize, asFloat_ofFloat? hborder, asFloat_ofFloat? hline,
    asFloat_ofFloat? hchar, asFloat_ofFloat? hscale, hshadow']

theorem AudioTrack.ofJson?_toJson {t : AudioTrack} (h : AllFinite t.floats) :
    AudioTrack.ofJson? t.toJson = some t := by
  simp only [floats, allFinite_cons, allFinite_append, allFinite_toList] at h
  obtain ⟨hstart, ⟨⟨⟨hreadFrom, hreadTo⟩, hvolume⟩, hfadeIn⟩, hfadeOut⟩ := h
  simp [ofJson?, toJson, hstart, asFloat_ofFloat? hreadFrom, asFloat_ofFloat? hreadTo,
    asFloat_ofFloat? hvolume, asFloat_ofFloat? hfadeIn, asFloat_ofFloat? hfadeOut]

theorem TransitionSpec.ofJson?_toJson {t : TransitionSpec} (h : AllFinite t.floats) :
    TransitionSpec.ofJson? t.toJson = some t := by
  simp only [floats, allFinite_cons, allFinite_nil, and_true] at h
  simp [ofJson?, toJson, h]

theorem Background.ofJson?_toJson (lax : Bool) (b : Background) :
    Background.ofJson? lax b.toJson = some b := by
  cases b <;> simp [ofJson?, toJson, tag?, asWord]

theorem Cue.ofJson?_toJson (c : Cue) : Cue.ofJson? c.toJson = some c := by
  simp [ofJson?, toJson]

theorem SubtitleBlock.ofJson?_toJson {b : SubtitleBlock} (h : AllFinite b.floats) :
    SubtitleBlock.ofJson? b.toJson = some b := by
  simp only [floats, allFinite_append, allFinite_toList] at h
  obtain ⟨⟨hframe, hstyle⟩, hduration⟩ := h
  have hcues : asList Cue.ofJson? (ofList Cue.toJson b.cues) = some b.cues :=
    asList_ofList fun c _ => c.ofJson?_toJson
  simp [ofJson?, toJson, hcues, Rect.ofJson?_toJson hframe, TextStyle.ofJson?_toJson hstyle,
    asFloat_ofFloat? hduration]

/-! ## Animations -/

/-- The names of the fields of motions. -/
def Motion.fieldNames : List String := ["type", "from", "to", "name"]

theorem Motion.names_subset (m : Motion) : m.members.map Prod.fst ⊆ fieldNames := by
  cases m <;> simp [members, fieldNames]

/-- A motion is read from among other fields. -/
theorem Motion.ofJson?_members {m : Motion} (h : AllFinite m.floats)
    (rest : List (String × Json)) : Motion.ofJson? (.obj (m.members ++ rest)) = some m := by
  cases m with
  | move start finish =>
    obtain ⟨hstart, hfinish⟩ := allFinite_append.1 h
    simp [ofJson?, members, asTag, tags, Point.ofJson?_toJson hstart, Point.ofJson?_toJson hfinish]
  | effect name => simp [ofJson?, members, asTag, tags]
  | _ start finish =>
    simp only [floats, allFinite_cons, allFinite_nil, and_true] at h
    simp [ofJson?, members, asTag, tags, h]

theorem Animation.ofJson?_toJson (lax : Bool) {a : Animation} (h : AllFinite a.floats) :
    Animation.ofJson? lax a.toJson = some a := by
  simp only [floats, allFinite_append, allFinite_cons, allFinite_nil, and_true] at h
  obtain ⟨hmotion, hstart, hduration⟩ := h
  have hnames := a.motion.names_subset
  simp (disch := first | decide | assumption) [ofJson?, toJson, Motion.ofJson?_members hmotion,
    required_append _ _ hnames, withDefault_append _ _ _ hnames]

/-! ## Nodes, scenes, timelines -/

section

variable {τ : Type} {write : τ → Json} {floats : τ → List Float} {nested : Json → Option τ}

/-- The names of the fields of kinds. -/
def NodeKind.fieldNames : List String :=
  ["type", "path", "cut_from", "cut_to", "muted", "text", "style", "vertical", "track", "timeline",
    "output"]

theorem NodeKind.names_subset (k : NodeKind Json) : k.members.map Prod.fst ⊆ fieldNames := by
  cases k <;> simp [members, fieldNames]

/-- A kind is read from among other fields, if its composition is read back. -/
theorem NodeKind.ofJson?_members {k : NodeKind τ} (h : AllFinite (k.map floats).floats)
    (hnested : ∀ inner ∈ k.nested?, nested (write inner) = some inner)
    (rest : List (String × Json)) :
    NodeKind.ofJson? nested (.obj ((k.map write).members ++ rest)) = some k := by
  cases k with
  | image path => simp [ofJson?, map, members, asTag, tags]
  | video path cutFrom cutTo muted =>
    obtain ⟨hfrom, hto⟩ := allFinite_append.1 h
    rw [allFinite_toList] at hfrom hto
    simp [ofJson?, map, members, asTag, tags, asFloat_ofFloat? hfrom, asFloat_ofFloat? hto]
  | text words style =>
    simp [ofJson?, map, members, asTag, tags, TextStyle.ofJson?_toJson (s := style) h]
  | subtitle path style vertical =>
    simp [ofJson?, map, members, asTag, tags, TextStyle.ofJson?_toJson (s := style) h]
  | audio track =>
    simp [ofJson?, map, members, asTag, tags, AudioTrack.ofJson?_toJson (t := track) h]
  | composition timeline output =>
    simp [ofJson?, map, members, asTag, tags, hnested timeline rfl]

theorem Node.decode_encode (lax : Bool) {n : Node τ} (h : AllFinite (n.map floats).floats)
    (hnested : ∀ inner ∈ n.kind.nested?, nested (write inner) = some inner) :
    Node.decode nested lax (n.map write).encode = some n := by
  simp only [Node.floats, Node.map, allFinite_append, allFinite_cons, allFinite_toList,
    allFinite_flatMap] at h
  obtain ⟨⟨hkind, hframe⟩, hrotation, ⟨⟨hopacity, hstart⟩, hfinish⟩, hanimations⟩ := h
  have hnames := (n.kind.map write).names_subset
  have hanimations' : asList (Animation.ofJson? lax) (ofList Animation.toJson n.animations) =
      some n.animations :=
    asList_ofList fun a ha => Animation.ofJson?_toJson lax (hanimations a ha)
  have htexts (xs : List String) : asList asText (ofList .str xs) = some xs :=
    asList_ofList fun _ _ => rfl
  simp (disch := first | decide | assumption) [decode, encode, Node.map,
    NodeKind.ofJson?_members hkind hnested, withDefault_append _ _ _ hnames,
    Rect.ofJson?_toJson hframe, asFloat_ofFloat? hopacity, asFloat_ofFloat? hstart,
    asFloat_ofFloat? hfinish, hanimations', htexts]

theorem Scene.decode_encode (lax : Bool) {s : Scene τ} (h : AllFinite (s.map floats).floats)
    (hnested : ∀ n ∈ s.nodes, ∀ inner ∈ n.kind.nested?, nested (write inner) = some inner) :
    Scene.decode nested lax (s.map write).encode = some s := by
  simp only [Scene.floats, Scene.map, allFinite_append, allFinite_cons, allFinite_toList,
    allFinite_flatMap, List.forall_mem_map, Option.mem_toList] at h
  obtain ⟨hduration, ⟨⟨⟨htransition, hnodes⟩, hsubtitle⟩, haudios⟩, hvolume⟩ := h
  have hbackground : asOption (Background.ofJson? lax) (ofOption Background.toJson s.background) =
      some s.background := asOption_ofOption rfl fun b _ => b.ofJson?_toJson lax
  have htransition' : asOption TransitionSpec.ofJson? (ofOption TransitionSpec.toJson s.transition)
      = some s.transition :=
    asOption_ofOption rfl fun t ht => TransitionSpec.ofJson?_toJson (htransition t ht)
  have hnodes' : asList (Node.decode nested lax)
      (ofList Node.encode (s.nodes.map (Node.map write))) = some s.nodes := by
    rw [ofList, List.map_map]
    exact asList_ofList fun n hn => Node.decode_encode lax (hnodes n hn) (hnested n hn)
  have hsubtitle' : asOption SubtitleBlock.ofJson? (ofOption SubtitleBlock.toJson s.subtitle) =
      some s.subtitle :=
    asOption_ofOption rfl fun b hb => SubtitleBlock.ofJson?_toJson (hsubtitle b hb)
  have haudios' : asList AudioTrack.ofJson? (ofList AudioTrack.toJson s.audios) = some s.audios :=
    asList_ofList fun t ht => AudioTrack.ofJson?_toJson (haudios t ht)
  simp [decode, encode, Scene.map, hduration, hbackground, htransition', hnodes', hsubtitle',
    haudios', asFloat_ofFloat? hvolume]

end

namespace Timeline

theorem toJson_eq (t : Timeline) : t.toJson =
    .obj [("settings", t.settings.toJson), ("scenes", ofList Scene.toJson t.scenes),
      ("audios", ofList AudioTrack.toJson t.audios)] := by
  rw [toJson, fold_eq, Timeline.encode, ofList, List.map_map]
  rfl

/-- A composition's timeline is not as deep as the timeline it stands in. -/
theorem depth_toJson_lt {t inner : Timeline} {s : Scene Timeline} {n : Node Timeline}
    (hs : s ∈ t.scenes) (hn : n ∈ s.nodes) (hinner : inner ∈ n.kind.nested?) :
    inner.toJson.depth < t.toJson.depth := by
  have hkind : n.toJson.field 0 "timeline" = some inner.toJson := by
    rcases hkind : n.kind <;> rw [hkind] at hinner <;> cases hinner
    simp [Node.toJson, Node.encode, Node.map, NodeKind.map, NodeKind.members, hkind, field, lookup]
  have hnode : n.toJson ∈ s.toJson.items 3 "nodes" :=
    List.mem_map.2 ⟨n.map toJson, List.mem_map_of_mem hn, rfl⟩
  have hscene : s.toJson ∈ t.toJson.items 1 "scenes" := by
    rw [toJson_eq]
    exact List.mem_map_of_mem hs
  calc inner.toJson.depth
    _ < n.toJson.depth := depth_lt_of_field hkind
    _ < s.toJson.depth := depth_lt_of_mem_items hnode
    _ < t.toJson.depth := depth_lt_of_mem_items hscene

theorem exists_mem_compositions {t inner : Timeline} {s : Scene Timeline} {n : Node Timeline}
    (hs : s ∈ t.scenes) (hn : n ∈ s.nodes) (hinner : inner ∈ n.kind.nested?) :
    ∃ c ∈ compositions t.scenes, c.unit = inner := by
  obtain ⟨i, hi⟩ := List.mem_iff_getElem?.1 hs
  obtain ⟨j, hj⟩ := List.mem_iff_getElem?.1 hn
  refine ⟨⟨i, j, inner⟩, mem_compositions_iff.2 ?_, rfl⟩
  simp only [nestedAt?, Child.slot, hi, hj, Option.bind_some]
  exact hinner

/-- The floats of a composition are floats of the timeline it stands in. -/
theorem allFinite_nested {s : Scene Timeline} {n : Node Timeline} {inner : Timeline}
    (h : AllFinite (s.map floats).floats) (hn : n ∈ s.nodes) (hinner : inner ∈ n.kind.nested?) :
    AllFinite inner.floats := by
  simp only [Scene.floats, Scene.map, allFinite_append, allFinite_cons, allFinite_flatMap,
    List.forall_mem_map] at h
  obtain ⟨-, ⟨⟨⟨-, hnodes⟩, -⟩, -⟩, -⟩ := h
  have hkind := (allFinite_append.1 (allFinite_append.1 (hnodes n hn)).1).1
  rcases hcomposition : n.kind <;> rw [hcomposition] at hinner <;> cases hinner
  simpa only [Node.map, hcomposition, NodeKind.map, NodeKind.floats] using hkind

/-- What is written is read back, inside a composition and outside of one. -/
theorem decode_toJson (lax : Bool) (t : Timeline) (h : AllFinite t.floats) :
    Timeline.decode lax t.toJson = some t := by
  induction t using induction generalizing lax with
  | step t ih =>
    rw [floats_eq, allFinite_append, allFinite_flatMap, allFinite_flatMap, List.forall_mem_map] at h
    obtain ⟨hscenes, haudios⟩ := h
    have haudios' : asList AudioTrack.ofJson? (ofList AudioTrack.toJson t.audios) = some t.audios :=
      asList_ofList fun a ha => AudioTrack.ofJson?_toJson (haudios a ha)
    -- Whoever reads the compositions: all that counts is that theirs are read back.
    obtain ⟨nested, hnested⟩ : ∃ nested : Json → Option Timeline, nested = fun w =>
        if _h : w.depth < t.toJson.depth then Timeline.decode true w else none := ⟨_, rfl⟩
    have hscenes' : asList (Scene.decode nested lax) (ofList Scene.toJson t.scenes) =
        some t.scenes := by
      refine asList_ofList fun s hs =>
        Scene.decode_encode lax (hscenes s hs) fun n hn inner hinner => ?_
      obtain ⟨c, hc, rfl⟩ := exists_mem_compositions hs hn hinner
      rw [hnested]
      exact (dif_pos (depth_toJson_lt hs hn hinner)).trans
        (ih c hc true (allFinite_nested (hscenes s hs) hn hinner))
    have heta : (⟨t.settings, t.scenes, t.audios⟩ : Timeline) = t := by cases t; rfl
    rw [Timeline.decode, ← hnested, toJson_eq]
    simp [Settings.ofJson?_toJson, hscenes', haudios', heta]

/-- A timeline that is written as data is read back as it was, with all that is nested in it. -/
theorem ofJson?_toJson_of_finite (t : Timeline) (h : ∀ x ∈ t.floats, x.isFinite = true) :
    Timeline.ofJson? t.toJson = some t := decode_toJson false t h

/-- A tune over a scene whose composition holds a clip, a picture that comes and goes, and subtitles
on a picture. -/
def nestedReel : Timeline where
  settings := { width := 640, height := 360, threads := some 4, seed := some 18446744073709551615 }
  scenes := [
    { duration := 2.5, transition := some { name := "fade" }, audioVolume := some 0.5
      nodes := [
        { kind := .composition
            { settings := { width := 320, height := 180, speed := .high }
              scenes := [
                { duration := 1.0, background := some (.image "wall.png")
                  nodes := [
                    { kind := .video "clip.mp4" (some 0.25) none true, start := some (-0.0) },
                    { kind := .image "star.png"
                      animations := [
                        ⟨.move ⟨0.0, 1.5⟩ ⟨40.0, -2.0⟩, .entering, 0.0, 0.5⟩,
                        ⟨.effect "", .leaving, 0.5, 0.5⟩] }]
                  subtitle := some
                    { cues := [⟨-5, 900, "Hi\n"⟩], style := { shadow := some {}, bold := true } } }] }
            (some "inner.mp4"),
          opacity := some 0.75 }] }]
  audios := [{ path := "tune.mp3", looped := true, readTo := some 30.5 }]

theorem ofJson?_toJson_of_finite_nestedReel :
    (∀ x ∈ nestedReel.floats, x.isFinite = true) ∧
      Timeline.ofJson? nestedReel.toJson = some nestedReel :=
  ⟨by decide, nestedReel.ofJson?_toJson_of_finite (by decide)⟩

end Timeline

end Montage
