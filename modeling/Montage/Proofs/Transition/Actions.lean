import Montage.Proofs.Transition.Cuts
import Montage.Proofs.Transition.Lengths

/-!
# What a splice adds to a graph

`actions` lists what a splice does to the streams of segments that fit: it cuts each one in two,
crossfades each tail into the next body, and puts the parts one behind the other.
`spliced_eq_extended` shows that these are the steps that are added.  The labels are numbered in the
order of the steps: five numbers for each cut, then one for each crossfade and one for the joined
stream.
-/

namespace Montage.Transition

open Montage.Graph

/-! ## Actions -/

/-- The label of the body of a segment that is cut under the numbers from `base` on. -/
def bodyLabel (base : Nat) : Label := "trim" ++ toString (base + 2)

/-- The label of the tail of a segment that is cut under the numbers from `base` on. -/
def tailLabel (base : Nat) : Label := "trim" ++ toString (base + 4)

def fadeLabel (number : Nat) : Label := "trans" ++ toString number

def joinedLabel (number : Nat) : Label := "gl" ++ toString number

/-- Cuts a segment in two, under five numbers from `base` on. -/
def cutActions (base : Nat) (c : Cut) : List Action :=
  let first := "split" ++ toString base
  let second := "split" ++ toString (base + 1)
  let late := "trim" ++ toString (base + 3)
  [⟨[c.segment.input.label], .split, [first, second]⟩,
    ⟨[first], .trim 0 c.body, [bodyLabel base]⟩,
    ⟨[second], .trim c.body c.segment.duration, [late]⟩,
    ⟨[late], .restart, [tailLabel base]⟩]

/-- Cuts segments in two, one after another. -/
def allCutActions (base : Nat) (cs : List Cut) : List Action :=
  (cs.mapIdx fun i c => cutActions (base + 5 * i) c).flatten

/-- Crossfades the tail of the segment cut under `base` into the body of the next one. -/
def fadeAction (base number : Nat) (s : Segment) : Action :=
  ⟨[tailLabel base, bodyLabel (base + 5)], .crossfade s.transition s.transitionLength,
    [fadeLabel number]⟩

/-- Crossfades from a segment cut under `base` through the rest, under the numbers from `number`
on. -/
def fadeActions (base number : Nat) (rest : List Segment) : List Action :=
  rest.mapIdx fun i s => fadeAction (base + 5 * i) (number + i) s

/-- The first body, the crossfades and the last tail. -/
def partLabels (base number : Nat) (rest : List Segment) : List Label :=
  bodyLabel base :: (rest.mapIdx fun i _ => fadeLabel (number + i)) ++
    [tailLabel (base + 5 * rest.length)]

/-- Cuts all segments, crossfades them and joins the parts, under numbers from `base` on. -/
def actions (base : Nat) (segments : List Segment) : List Action :=
  let number := base + 5 * segments.length
  let rest := segments.drop 1
  allCutActions base (segments.mapIdx fun i s => ⟨s, outgoing segments i s⟩) ++
    fadeActions base number rest ++
    [⟨partLabels base number rest, .concat (segments.length + 1),
      [joinedLabel (number + rest.length)]⟩]

theorem actions_eq (base : Nat) (segments : List Segment) :
    actions base segments = allCutActions base (cuts segments) ++
      fadeActions base (base + 5 * segments.length) (segments.drop 1) ++
      [⟨partLabels base (base + 5 * segments.length) (segments.drop 1),
        .concat (segments.length + 1),
        [joinedLabel (base + 5 * segments.length + (segments.drop 1).length)]⟩] := by
  rw [cuts_eq_mapIdx]
  rfl

theorem allCutActions_cons (base : Nat) (c : Cut) (rest : List Cut) :
    allCutActions base (c :: rest) = cutActions base c ++ allCutActions (base + 5) rest := by
  simp only [allCutActions, List.mapIdx_cons, List.flatten_cons, Nat.mul_add, Nat.mul_one,
    Nat.mul_zero, Nat.add_zero, Nat.add_assoc, Nat.add_comm 5]

theorem fadeActions_cons (base number : Nat) (s : Segment) (rest : List Segment) :
    fadeActions base number (s :: rest) =
      fadeAction base number s :: fadeActions (base + 5) (number + 1) rest := by
  simp only [fadeActions, List.mapIdx_cons, Nat.mul_add, Nat.mul_one, Nat.mul_zero, Nat.add_zero,
    Nat.add_assoc, Nat.add_comm 5, Nat.add_comm 1]

theorem length_partLabels (base number : Nat) (rest : List Segment) :
    (partLabels base number rest).length = rest.length + 2 := by
  simp [partLabels]

/-! ## Steps -/

/-- The graph with the steps of some actions added and so many numbers used up. -/
def extended (g : Graph) (as : List Action) (count : Nat) : Graph :=
  ⟨g.steps ++ as.map Action.step, g.nextId + count⟩

theorem extended_extended (g : Graph) (as bs : List Action) (m n : Nat) :
    extended (extended g as m) bs n = extended g (as ++ bs) (m + n) := by
  simp only [extended, List.map_append, List.append_assoc, Nat.add_assoc]

theorem combine_eq_extended (g : Graph) (inputs : List Context) (operation : Operation)
    (tag : String) :
    g.combine inputs operation.filter tag = (⟨tag ++ toString g.nextId⟩,
      extended g [⟨inputs.map (·.label), operation, [tag ++ toString g.nextId]⟩] 1) := rfl

theorem lengthText_zero : lengthText 0 = "0" := by decide

theorem trim_filter_zero (finish : Int) :
    "trim=0:" ++ lengthText finish = (Operation.trim 0 finish).filter := by
  have hstart : "trim=0:" = "trim=" ++ lengthText 0 ++ ":" := by
    rw [lengthText_zero]
    decide
  exact congrArg (· ++ lengthText finish) hstart

/-- The labels of the two pieces of a segment that is cut under the numbers from `base` on. -/
def piecesAt (base : Nat) : Pieces := ⟨⟨bodyLabel base⟩, ⟨tailLabel base⟩⟩

theorem apply_eq_extended (c : Cut) (g : Graph) :
    c.apply g = (piecesAt g.nextId, extended g (cutActions g.nextId c) 5) := by
  simp only [Cut.apply, trim_filter_zero]
  simp only [splitTwo, fresh, Graph.apply, Graph.combine, push, extended, cutActions, Action.step,
    List.append_assoc, List.map_cons, List.map_nil]
  rfl

theorem applyCuts_eq_extended (cs : List Cut) (g : Graph) :
    applyCuts g cs = (cs.mapIdx fun i _ => piecesAt (g.nextId + 5 * i),
      extended g (allCutActions g.nextId cs) (5 * cs.length)) := by
  induction cs generalizing g with
  | nil => simp [applyCuts, extended, allCutActions]
  | cons c rest ih =>
    rw [applyCuts, apply_eq_extended]
    dsimp only
    rw [ih, extended_extended, allCutActions_cons, List.mapIdx_cons]
    simp only [extended, List.length_cons, Nat.mul_add, Nat.mul_one, Nat.mul_zero, Nat.add_zero,
      Nat.add_assoc, Nat.add_comm 5]

theorem crossfades_cons (base : Nat) (g : Graph) (s : Segment) (rest : List (Segment × Pieces)) :
    crossfades g ⟨tailLabel base⟩ ((s, piecesAt (base + 5)) :: rest) =
      let (others, g') := crossfades (extended g [fadeAction base g.nextId s] 1)
        ⟨tailLabel (base + 5)⟩ rest
      (⟨fadeLabel g.nextId⟩ :: others, g') := rfl

theorem crossfades_eq_extended (rest : List Segment) (base : Nat) (g : Graph) :
    crossfades g ⟨tailLabel base⟩ (rest.mapIdx fun i s => (s, piecesAt (base + 5 * (i + 1)))) =
      ((rest.mapIdx fun i _ => ⟨fadeLabel (g.nextId + i)⟩) ++
        [⟨tailLabel (base + 5 * rest.length)⟩],
      extended g (fadeActions base g.nextId rest) rest.length) := by
  induction rest generalizing base g with
  | nil => simp [crossfades, extended, fadeActions]
  | cons s rest ih =>
    have hshift : (rest.mapIdx fun i s => (s, piecesAt (base + 5 * (i + 1 + 1)))) =
        rest.mapIdx fun i s => (s, piecesAt (base + 5 + 5 * (i + 1))) := by
      simp only [Nat.mul_add, Nat.add_assoc, Nat.add_comm 5]
    rw [List.mapIdx_cons, hshift, crossfades_cons, ih, extended_extended, fadeActions_cons]
    simp only [extended, List.mapIdx_cons, List.length_cons, List.cons_append, Nat.mul_add,
      Nat.mul_one, Nat.add_zero, Nat.add_assoc, Nat.add_comm 1, Nat.add_comm 5]
    rfl

theorem zip_piecesAt (segments : List Segment) (base : Nat) :
    segments.zip ((cuts segments).mapIdx fun i _ => piecesAt (base + 5 * i)) =
      segments.mapIdx fun i s => (s, piecesAt (base + 5 * i)) :=
  List.ext_getElem (by simp) (by simp)

theorem map_mk_mapIdx (rest : List Segment) (label : Nat → Label) :
    (rest.mapIdx fun i _ => label i).map Context.mk = rest.mapIdx fun i _ => ⟨label i⟩ :=
  List.ext_getElem (by simp) (by simp)

theorem map_label_mk (labels : List Label) :
    (labels.map Context.mk).map (·.label) = labels := by
  rw [List.map_map]
  exact List.map_id labels

theorem parts_eq_extended (first : Segment) (rest : List Segment) (base : Nat) (g : Graph) :
    parts g ((first :: rest).mapIdx fun i s => (s, piecesAt (base + 5 * i))) =
      ((partLabels base g.nextId rest).map Context.mk,
        extended g (fadeActions base g.nextId rest) rest.length) := by
  rw [List.mapIdx_cons]
  change ((⟨bodyLabel base⟩ : Context) :: (crossfades g ⟨tailLabel base⟩ _).1,
    (crossfades g ⟨tailLabel base⟩ _).2) = _
  rw [crossfades_eq_extended, partLabels, List.cons_append, List.map_cons, List.map_append,
    map_mk_mapIdx]
  rfl

theorem extended_nextId (g : Graph) (as : List Action) (count : Nat) :
    (extended g as count).nextId = g.nextId + count := rfl

/-- Splicing segments adds the steps of `actions`. -/
theorem spliced_eq_extended (g : Graph) {segments : List Segment} (h : segments ≠ []) :
    spliced g segments =
      (⟨joinedLabel (g.nextId + 5 * segments.length + (segments.drop 1).length)⟩,
        extended g (actions g.nextId segments) (6 * segments.length)) := by
  obtain ⟨first, rest, rfl⟩ := List.exists_cons_of_ne_nil h
  have hfilter : "concat=n=" ++ toString ((partLabels g.nextId
      (g.nextId + 5 * (first :: rest).length) rest).map Context.mk).length =
      (Operation.concat ((first :: rest).length + 1)).filter := by
    rw [List.length_map, length_partLabels, List.length_cons]
    rfl
  simp only [spliced, applyCuts_eq_extended, zip_piecesAt, parts_eq_extended, extended_nextId,
    length_cuts]
  rw [hfilter, combine_eq_extended, extended_extended, extended_extended, extended_nextId,
    map_label_mk, actions_eq]
  have hnumber : g.nextId + 5 * (first :: rest).length + rest.length =
      g.nextId + (5 * (first :: rest).length + rest.length) := Nat.add_assoc ..
  have hcount : 6 * (first :: rest).length = 5 * (first :: rest).length + rest.length + 1 := by
    rw [List.length_cons]
    omega
  rw [List.drop_one, List.tail_cons, hnumber, hcount]
  rfl

end Montage.Transition
