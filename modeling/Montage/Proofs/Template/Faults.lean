import Mathlib.Data.List.Lex
import Montage.Proofs.Template.Building

/-!
# What is wrong with a document

A document is a tree of parts: clips hold layers, and a layer that is a composition holds clips.
Each part has an address, the numbers of the parts on the way to it, and the lexicographic order of
addresses is the order of the document, in which a part stands in front of what it holds.  A
document becomes a timeline unless a part is faulty, and then the first faulty part is the error
(`Timeline.ofTemplate_first_fault`).
-/

namespace Montage.Template

/-- A part of a document: the value that is read for it. -/
inductive Part where
  | document (v : Json)
  | clip (v : Json)
  | layer (v : Json)

namespace Part

/-- What is wrong with the part itself, whatever stands inside. -/
def fault? : Part → Option CompileError
  | .document v => if (Head.ofJson? v).isSome then none else some .template
  | .clip v => if (ClipHead.ofJson? v).isSome then none else some .template
  | .layer v =>
    match LayerHead.ofJson? v with
    | some l => l.fault?
    | none => some .template

/-- The parts directly inside a part.  Only a composition holds clips. -/
def inside : Part → List Part
  | .document v => (clipValues v).map .clip
  | .clip v => (layerValues v).map .layer
  | .layer v =>
    match LayerHead.ofJson? v with
    | some l => if l.holdsClips then (innerValues v).map .clip else []
    | none => []

/-- The part at an address. -/
def at? (p : Part) : List Nat → Option Part
  | [] => some p
  | i :: rest => p.inside[i]?.bind (·.at? rest)

/-- What is wrong with the part at an address. -/
def faultAt? (p : Part) (address : List Nat) : Option CompileError :=
  (p.at? address).bind fault?

/-- The first faulty part, in the order of the document, has this fault. -/
def FirstFault (p : Part) (e : CompileError) : Prop :=
  ∃ address, p.faultAt? address = some e ∧
    ∀ earlier, List.Lex (· < ·) earlier address → p.faultAt? earlier = none

/-- Nothing is wrong with the part nor with what is inside. -/
def Sound (p : Part) : Prop := ∀ address, p.faultAt? address = none

/-- A sound part is built, and one that is not ends with its first fault. -/
def Yields {α : Type} (p : Part) (build : Except CompileError α) : Prop :=
  match build with
  | .ok _ => p.Sound
  | .error e => p.FirstFault e

section

variable {α β : Type} {p : Part}

theorem faultAt?_cons (p : Part) (i : Nat) (rest : List Nat) :
    p.faultAt? (i :: rest) = p.inside[i]?.bind (·.faultAt? rest) := by
  rw [faultAt?, at?, Option.bind_assoc]
  rfl

theorem Yields.map {build : Except CompileError α} (h : p.Yields build) (f : α → β) :
    p.Yields (build.map f) := by
  cases build <;> exact h

/-- A part that is faulty itself comes before all that is inside. -/
theorem yields_of_fault {e : CompileError} (h : p.fault? = some e) :
    p.Yields (.error e : Except CompileError α) :=
  ⟨[], h, fun _ hearlier => by cases hearlier⟩

theorem sound_of_inside (hfault : p.fault? = none) (h : ∀ q ∈ p.inside, q.Sound) : p.Sound := by
  intro address
  cases address with
  | nil => exact hfault
  | cons i rest =>
    rw [faultAt?_cons]
    cases hq : p.inside[i]? with
    | none => rfl
    | some q => exact h q (List.mem_of_getElem? hq) rest

/-- What is wrong inside counts in the order in which it stands there. -/
theorem firstFault_of_inside {q : Part} {e : CompileError} {i : Nat} (hfault : p.fault? = none)
    (hq : p.inside[i]? = some q) (h : q.FirstFault e)
    (hbefore : ∀ j < i, ∀ r, p.inside[j]? = some r → r.Sound) : p.FirstFault e := by
  obtain ⟨address, haddress, hfirst⟩ := h
  refine ⟨i :: address, ?_, fun earlier hearlier => ?_⟩
  · rw [faultAt?_cons, hq]
    exact haddress
  · cases hearlier with
    | nil => exact hfault
    | @rel j rest _ _ hj =>
      rw [faultAt?_cons]
      cases hr : p.inside[j]? with
      | none => rfl
      | some r => exact hbefore j hj r hr rest
    | cons hrest =>
      rw [faultAt?_cons, hq]
      exact hfirst _ hrest

/-- A part that is built from what is inside, one after another, is told by its first fault if each
of these is. -/
theorem yields_mapM {f : Json → Except CompileError α} {g : Json → Part} {vs : List Json}
    (hfault : p.fault? = none) (hinside : p.inside = vs.map g)
    (h : ∀ v ∈ vs, (g v).Yields (f v)) : p.Yields (vs.mapM f) := by
  have hget {i : Nat} {q : Part} (hq : p.inside[i]? = some q) :
      ∃ v, vs[i]? = some v ∧ g v = q := by
    rwa [hinside, List.getElem?_map, Option.map_eq_some_iff] at hq
  cases hbuild : vs.mapM f with
  | ok ys =>
    refine sound_of_inside hfault fun q hq => ?_
    rw [hinside] at hq
    obtain ⟨v, hv, rfl⟩ := List.mem_map.1 hq
    obtain ⟨y, hy⟩ := exists_of_mem_of_mapM hbuild hv
    have hyields := h v hv
    rwa [hy] at hyields
  | error e =>
    obtain ⟨i, v, hv, herror, hbefore⟩ := exists_of_mapM_eq_error hbuild
    have hyields := h v (List.mem_of_getElem? hv)
    rw [herror] at hyields
    have hq : p.inside[i]? = some (g v) := by rw [hinside, List.getElem?_map, hv, Option.map_some]
    refine firstFault_of_inside hfault hq hyields fun j hj r hr => ?_
    obtain ⟨w, hw, rfl⟩ := hget hr
    obtain ⟨z, hz⟩ := hbefore j hj w hw
    have hyields := h w (List.mem_of_getElem? hw)
    rwa [hz] at hyields

end

/-! ## Clips and layers -/

mutual
theorem yields_clip (settings : Settings) (volume : Option Float) (v : Json) :
    (Part.clip v).Yields (buildClip settings volume v) := by
  rw [buildClip_eq]
  cases hhead : ClipHead.ofJson? v with
  | none => exact yields_of_fault (by simp [fault?, hhead])
  | some head =>
    refine (yields_mapM (by simp [fault?, hhead]) rfl fun w hw => ?_).map _
    have hdepth : w.depth < v.depth := depth_lt_of_mem_layerValues hw
    exact yields_layer settings head.duration w
termination_by v.depth
theorem yields_layer (settings : Settings) (sceneDuration : Float) (v : Json) :
    (Part.layer v).Yields (buildLayer settings sceneDuration v) := by
  cases hl : LayerHead.ofJson? v with
  | none =>
    rw [buildLayer_of_unreadable hl]
    exact yields_of_fault (by simp [fault?, hl])
  | some l =>
    have hfault? : (Part.layer v).fault? = l.fault? := by simp [fault?, hl]
    have hbuilds := builds_layer hl settings sceneDuration
    generalize buildLayer settings sceneDuration v = build at hbuilds
    cases hbuilds with
    | faulty hfault => exact yields_of_fault (hfault?.trans hfault)
    | plain hfault hplain =>
      refine sound_of_inside (hfault?.trans hfault) fun q hq => ?_
      simp [inside, hl, hplain] at hq
    | empty hfault hholds hempty =>
      refine sound_of_inside (hfault?.trans hfault) fun q hq => ?_
      simp [inside, hl, hholds, hempty] at hq
    | composition hfault hholds hne =>
      have hinside : (Part.layer v).inside = (innerValues v).map .clip := by
        simp [inside, hl, hholds]
      refine (yields_mapM (hfault?.trans hfault) hinside fun w hw => ?_).map _
      have hdepth : w.depth < v.depth := depth_lt_of_mem_innerValues hw
      exact yields_clip (l.innerSettings settings) none w
termination_by v.depth
end

/-- A document that is no template is faulty itself. -/
theorem yields_document (v : Json) : (Part.document v).Yields (Timeline.ofTemplate v) := by
  rw [Timeline.ofTemplate_eq]
  cases hhead : Head.ofJson? v with
  | none => exact yields_of_fault (by simp [fault?, hhead])
  | some head =>
    exact (yields_mapM (by simp [fault?, hhead]) rfl fun w _ => yields_clip _ _ w).map _

/-! ## Documents -/

theorem FirstFault.unique {p : Part} {e e' : CompileError} (h : p.FirstFault e)
    (h' : p.FirstFault e') : e = e' := by
  obtain ⟨address, haddress, hfirst⟩ := h
  obtain ⟨address', haddress', hfirst'⟩ := h'
  have horder : List.Lex (· < ·) address address' ∨ address = address' ∨
      List.Lex (· < ·) address' address := Std.Trichotomous.rel_or_eq_or_rel_swap
  obtain hearlier | rfl | hearlier := horder
  · cases (hfirst' address hearlier).symm.trans haddress
  · exact Option.some.inj (haddress.symm.trans haddress')
  · cases (hfirst address' hearlier).symm.trans haddress'

/-- A part that yields an error does so for its first fault, and for no other. -/
theorem Yields.error_iff {α : Type} {p : Part} {build : Except CompileError α} (h : p.Yields build)
    (e : CompileError) : build = .error e ↔ p.FirstFault e := by
  cases build with
  | ok a =>
    constructor
    · intro hbuild
      cases hbuild
    · rintro ⟨address, haddress, -⟩
      cases (h address).symm.trans haddress
  | error e' =>
    rw [Except.error.injEq]
    exact ⟨fun heq => heq ▸ h, FirstFault.unique h⟩

theorem Yields.exists_error_iff {α : Type} {p : Part} {build : Except CompileError α}
    (h : p.Yields build) :
    (∃ e, build = .error e) ↔ ∃ address e, p.faultAt? address = some e := by
  constructor
  · rintro ⟨e, hbuild⟩
    obtain ⟨address, haddress, -⟩ := (h.error_iff e).1 hbuild
    exact ⟨address, e, haddress⟩
  · rintro ⟨address, e, haddress⟩
    cases build with
    | ok a => cases (h address).symm.trans haddress
    | error e' => exact ⟨e', rfl⟩

/-- The parts in front of the one with a given number, that one included, settle the first fault if
one of them is faulty. -/
theorem FirstFault.of_take {p q : Part} {e : CompileError} {n : Nat} (h : p.FirstFault e)
    (hp : p.fault? = none) (hq : q.fault? = none)
    (hfaulty : ∃ rest e', p.faultAt? (n :: rest) = some e')
    (htake : q.inside.take (n + 1) = p.inside.take (n + 1)) : q.FirstFault e := by
  have hsame {i : Nat} (hi : i ≤ n) (rest : List Nat) :
      q.faultAt? (i :: rest) = p.faultAt? (i :: rest) := by
    have hget : q.inside[i]? = p.inside[i]? := by
      rw [← List.getElem?_take_of_lt (Nat.lt_succ_of_le hi), htake,
        List.getElem?_take_of_lt (Nat.lt_succ_of_le hi)]
    rw [faultAt?_cons, faultAt?_cons, hget]
  obtain ⟨address, haddress, hfirst⟩ := h
  obtain ⟨back, e', hback⟩ := hfaulty
  cases address with
  | nil => cases hp.symm.trans haddress
  | cons i rest =>
    have hi : i ≤ n := by
      refine Nat.le_of_not_lt fun hlt => ?_
      cases (hfirst (n :: back) (.rel hlt)).symm.trans hback
    refine ⟨i :: rest, (hsame hi rest).trans haddress, fun earlier hearlier => ?_⟩
    have hnone := hfirst earlier hearlier
    cases hearlier with
    | nil => exact hq
    | rel hj => rwa [hsame (Nat.le_trans (Nat.le_of_lt hj) hi)]
    | cons hrest => rwa [hsame hi]

end Part

end Montage.Template

namespace Montage.Timeline

open Template

/-- A document becomes a timeline unless some part of it is faulty, and then the error is that of
the first faulty part.  So clips behind one with a faulty part have no influence. -/
theorem ofTemplate_first_fault (v : Json) :
    ((∃ e, ofTemplate v = .error e) ↔
        ∃ address e, (Part.document v).faultAt? address = some e) ∧
      (∀ e, ofTemplate v = .error e ↔ (Part.document v).FirstFault e) ∧
      (∀ s, guide.readWhole s = .ok v → ofTemplateText s = ofTemplate v) ∧
      ∀ (w : Json) (n : Nat), (Head.ofJson? v).isSome → (Head.ofJson? w).isSome →
        (∃ rest e, (Part.document v).faultAt? (n :: rest) = some e) →
        (clipValues w).take (n + 1) = (clipValues v).take (n + 1) →
        ofTemplate w = ofTemplate v := by
  have hyields := Part.yields_document v
  refine ⟨hyields.exists_error_iff, hyields.error_iff, fun s hs => by rw [ofTemplateText, hs],
    fun w n hv hw hfaulty htake => ?_⟩
  obtain ⟨rest, e', hrest⟩ := hfaulty
  obtain ⟨e, herror⟩ := hyields.exists_error_iff.2 ⟨_, _, hrest⟩
  have hinside : (Part.document w).inside.take (n + 1) = (Part.document v).inside.take (n + 1) := by
    rw [Part.inside, Part.inside, ← List.map_take, htake, List.map_take]
  rw [herror, (Part.yields_document w).error_iff]
  exact ((hyields.error_iff e).1 herror).of_take (by simp [Part.fault?, hv])
    (by simp [Part.fault?, hw]) ⟨rest, e', hrest⟩ hinside

/-- A template whose first clip has a composition with a picture that names no file, and other clips
behind it. -/
def pathlessTemplate (others : List Json) : Json :=
  .obj [("clips", .arr (.obj [("layers", .arr [.obj [("clips", .arr [.obj [("layers",
      .arr [.obj [("type", .str "text")], .obj [("type", .str "image")]])]]),
      ("type", .str "composition")]])] :: others)),
    ("height", .int 720), ("width", .int 1280)]

/-- The picture is the fault even in front of a clip that is none. -/
theorem ofTemplate_first_fault_pathlessTemplate :
    (Part.document (pathlessTemplate [])).FirstFault
        (.missingAsset "image layer without a path") ∧
      ofTemplate (pathlessTemplate [.bool true]) =
        .error (.missingAsset "image layer without a path") := by
  obtain ⟨-, herror, -, hcut⟩ := ofTemplate_first_fault (pathlessTemplate [])
  have hbuilt : ofTemplate (pathlessTemplate []) =
      .error (.missingAsset "image layer without a path") := by
    have hcomputed : (match ofTemplate (pathlessTemplate []) with
        | .error e => some e
        | .ok _ => none) = some (.missingAsset "image layer without a path") := by decide +kernel
    cases hload : ofTemplate (pathlessTemplate []) with
    | error e =>
      rw [hload] at hcomputed
      rw [Option.some.inj hcomputed]
    | ok t =>
      rw [hload] at hcomputed
      cases hcomputed
  have hfault : (Part.document (pathlessTemplate [])).faultAt? [0, 0, 0, 1] =
      some (.missingAsset "image layer without a path") := by decide +kernel
  refine ⟨(herror _).1 hbuilt, ?_⟩
  rw [hcut (pathlessTemplate [.bool true]) 0 (by decide +kernel) (by decide +kernel)
    ⟨_, _, hfault⟩ (by rfl), hbuilt]

end Montage.Timeline
