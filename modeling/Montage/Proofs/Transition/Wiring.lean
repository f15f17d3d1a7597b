import Montage.Proofs.Graph.Wiring
import Montage.Proofs.Transition.Cuts

/-!
# The wiring of a splice

A splice takes the labels of its segments and hands one label back: if the segments' labels wait
before, the joined label waits behind it (`wired_spliced`).  In between the bodies and the tails
wait; each crossfade takes a tail and a body.
-/

namespace Montage.Transition

open Montage.Graph

variable {media : List Media} {g : Graph} {waiting : List Label}

/-! ## Cutting -/

/-- The labels of both pieces. -/
def Pieces.labels (pieces : Pieces) : List Label := [pieces.body.label, pieces.tail.label]

theorem wired_splitTwo {ctx : Context} (h : Graph.Wired media g (ctx.label :: waiting)) :
    Graph.Wired media (g.splitTwo ctx).2
      ((g.splitTwo ctx).1.1.label :: (g.splitTwo ctx).1.2.label :: waiting) := by
  change Graph.Wired media g ([_] ++ waiting) at h
  exact .step (splitFilter 2) ["split", "split"] (by decide) h

theorem wired_apply {c : Cut} (h : Graph.Wired media g (c.segment.input.label :: waiting)) :
    Graph.Wired media (c.apply g).2 ((c.apply g).1.labels ++ waiting) := by
  have htag : isTag "trim" = true := by decide
  have hbody := Graph.Wired.combine [_] (wired_splitTwo h)
    ("trim=0:" ++ lengthText c.body) htag
  have htrimmed := Graph.Wired.combine [_] (.perm (.swap ..) hbody)
    ("trim=" ++ lengthText c.body ++ ":" ++ lengthText c.segment.duration) htag
  have htail := Graph.Wired.combine [_] htrimmed "setpts=PTS-STARTPTS" htag
  exact .perm (.swap ..) htail

theorem length_applyCuts (g : Graph) (cs : List Cut) : (applyCuts g cs).1.length = cs.length := by
  induction cs generalizing g with
  | nil => rfl
  | cons c rest ih => exact congrArg (· + 1) (ih _)

theorem applyCuts_cons (g : Graph) (c : Cut) (rest : List Cut) :
    applyCuts g (c :: rest) = ((c.apply g).1 :: (applyCuts (c.apply g).2 rest).1,
      (applyCuts (c.apply g).2 rest).2) := rfl

/-- The pieces of all cuts wait behind the cuts. -/
theorem wired_applyCuts {cs : List Cut}
    (h : Graph.Wired media g (cs.map (·.segment.input.label) ++ waiting)) :
    Graph.Wired media (applyCuts g cs).2 ((applyCuts g cs).1.flatMap Pieces.labels ++ waiting) := by
  induction cs generalizing g waiting with
  | nil => exact h
  | cons c rest ih =>
    have hfirst := wired_apply (c := c) h
    have hrest := ih (.perm (List.perm_append_comm_assoc ..) hfirst)
    rw [applyCuts_cons, List.flatMap_cons, List.append_assoc]
    exact .perm (List.perm_append_comm_assoc ..) hrest

/-! ## Crossfading -/

/-- The labels of the pieces of segments. -/
def pieceLabels (xs : List (Segment × Pieces)) : List Label := xs.flatMap fun x => x.2.labels

/-- Each crossfade takes a tail and the next body, so the crossfades and the last tail wait behind
them. -/
theorem wired_crossfades {tail : Context} {xs : List (Segment × Pieces)}
    (h : Graph.Wired media g (tail.label :: (pieceLabels xs ++ waiting))) :
    Graph.Wired media (crossfades g tail xs).2
      ((crossfades g tail xs).1.map (·.label) ++ waiting) := by
  induction xs generalizing g tail waiting with
  | nil => exact h
  | cons x rest ih =>
    obtain ⟨s, pieces⟩ := x
    have hfaded := Graph.Wired.combine [tail, pieces.body] h s.crossfade
      (show isTag "trans" = true by decide)
    change Graph.Wired media _ ([_] ++ (pieces.tail.label :: pieceLabels rest ++ waiting)) at hfaded
    have hrest := ih (.perm (List.perm_append_comm_assoc ..) hfaded)
    exact .perm List.perm_middle hrest

theorem wired_parts {xs : List (Segment × Pieces)}
    (h : Graph.Wired media g (pieceLabels xs ++ waiting)) :
    Graph.Wired media (parts g xs).2 ((parts g xs).1.map (·.label) ++ waiting) := by
  cases xs with
  | nil => exact h
  | cons x rest =>
    obtain ⟨s, pieces⟩ := x
    change Graph.Wired media g ([_] ++ (pieces.tail.label :: pieceLabels rest ++ waiting)) at h
    exact .perm List.perm_middle
      (wired_crossfades (.perm (List.perm_append_comm_assoc ..) h))

/-! ## Splicing -/

theorem map_label_cuts (segments : List Segment) :
    (cuts segments).map (·.segment.input.label) = segments.map (·.input.label) := by
  conv_rhs => rw [← map_segment_cuts segments, List.map_map]
  rfl

theorem pieceLabels_zip {segments : List Segment} {pieces : List Pieces}
    (h : pieces.length = segments.length) :
    pieceLabels (segments.zip pieces) = pieces.flatMap Pieces.labels := by
  have hsnd : (segments.zip pieces).map Prod.snd = pieces := List.map_snd_zip (Nat.le_of_eq h)
  rw [pieceLabels, ← hsnd, List.flatMap_map, hsnd]

/-- If the segments wait to be read, the joined stream waits behind the splice. -/
theorem wired_spliced {segments : List Segment}
    (h : Graph.Wired media g (segments.map (·.input.label) ++ waiting)) :
    Graph.Wired media (spliced g segments).2 ((spliced g segments).1.label :: waiting) := by
  rw [← map_label_cuts] at h
  have hpieces := wired_applyCuts h
  rw [← pieceLabels_zip (by rw [length_applyCuts, length_cuts])] at hpieces
  exact Graph.Wired.combine _ (wired_parts hpieces) _ (by decide)

/-- The joined stream is the output of a step. -/
theorem exists_label_splice {segments : List Segment} {joined : Context} {total : Int}
    (h : (splice g segments).1 = .ok (joined, total)) :
    ∃ number : Nat, joined.label = "gl" ++ toString number := by
  obtain ⟨-, -, -, hresult⟩ := eq_of_splice_eq_ok h
  rw [Prod.mk.injEq] at hresult
  exact ⟨_, congrArg Context.label hresult.1⟩

end Montage.Transition
