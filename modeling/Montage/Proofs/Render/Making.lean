import Mathlib.Data.List.Induction
import Montage.Proofs.Render.Runs

/-!
# What a render has made

`Task.made` follows along a run where its files are: written, produced by a tool or moved there, and
since then neither moved away nor removed.  A file does stand at each of these places
(`Task.Runs.hasFile`).
-/

namespace Montage

namespace Action

/-- The place where there is a file once an action has been answered so. -/
def makes : (a : Action) → a.Reply → Place → Prop
  | .write path _, .ok _, q => q = .ofPath path
  | .move _ target, .ok _, q => q = .ofPath target
  | .produce path, .ok _, q => q = .ofPath path
  | _, _, _ => False

/-- The places that an action takes files from, or tries to. -/
def clears : Action → Place → Prop
  | .move source _, q => q = .ofPath source
  | .removeDir path, q => q.isWithin (.ofPath path) = true
  | .removeFile path, q => q = .ofPath path
  | _, _ => False

/-- The places with files of the render, given those before an action and its answer. -/
def leaves (a : Action) (reply : a.Reply) (m : Set Place) : Set Place :=
  {q | a.makes reply q ∨ q ∈ m ∧ ¬ a.clears q}

variable {a : Action} {reply : a.Reply} {m m' : Set Place} {q : Place}

theorem mem_leaves : q ∈ a.leaves reply m ↔ a.makes reply q ∨ q ∈ m ∧ ¬ a.clears q := Iff.rfl

/-- The action touches no file of the render. -/
structure IsQuiet (a : Action) : Prop where
  makes : ∀ reply q, ¬ a.makes reply q
  clears : ∀ q, ¬ a.clears q

theorem IsQuiet.leaves_eq (h : a.IsQuiet) (reply : a.Reply) (m : Set Place) :
    a.leaves reply m = m := by
  ext q
  simp [mem_leaves, h.makes reply q, h.clears q]

end Action

namespace World

variable {tools : Tools} {w : World} {m : Set Place}

/-- Where a file of the render is said to be there is one. -/
theorem hasFile_perform (hm : ∀ q ∈ m, w.files.HasFile q) (a : Action) :
    ∀ q ∈ a.leaves (w.perform tools a).1 m, (w.perform tools a).2.files.HasFile q := by
  intro q hq
  rcases Action.mem_leaves.1 hq with hmade | ⟨hq, hkept⟩
  · cases a with
    | write path contents =>
      rw [perform] at hmade ⊢
      rcases hwrite : w.files.write path contents with e | t <;> rw [hwrite] at hmade
      · exact absurd hmade id
      · rw [hmade]
        exact FileTree.hasFile_of_write hwrite
    | move source target =>
      rw [perform] at hmade ⊢
      rcases hmove : w.files.move source target with e | t <;> rw [hmove] at hmade
      · exact absurd hmade id
      · rw [hmade]
        exact FileTree.hasFile_of_move hmove
    | produce path =>
      rw [perform] at hmade ⊢
      rcases hwrite : w.files.write path produced with e | t <;> rw [hwrite] at hmade
      · exact absurd hmade id
      · rw [hmade]
        exact FileTree.hasFile_of_write hwrite
    | register | makeDirs | look | fetch | probe | start | progress | await | complete | removeDir
    | removeFile => exact absurd hmade id
  · have hfile := hm q hq
    cases a with
    | makeDirs path => exact hfile.makeDirs path
    | write path contents =>
      rw [perform]
      rcases hwrite : w.files.write path contents with e | t
      · exact hfile
      · exact hfile.write hwrite
    | move source target =>
      rw [perform]
      rcases hmove : w.files.move source target with e | t
      · exact hfile
      · exact hfile.move hkept hmove
    | produce path =>
      rw [perform]
      rcases hwrite : w.files.write path produced with e | t
      · exact hfile
      · exact hfile.write hwrite
    | removeDir path => exact hfile.removeDir hkept
    | removeFile path => exact hfile.removeFile hkept
    | register | look | fetch | probe | start | progress | await | complete => exact hfile

end World

namespace Task

/-- The places with files of the render behind a deed, given those before it. -/
def Deed.leaves (m : Set Place) (d : Deed) : Set Place :=
  d.action.leaves (d.before.perform d.tools d.action).1 m

/-- The places of the files that a render has made, after all that it has asked. -/
def made (deeds : List Deed) : Set Place := deeds.foldl Deed.leaves ∅

variable {c c' : Task × World} {deeds more : List Deed}

theorem made_append (deeds more : List Deed) :
    made (deeds ++ more) = more.foldl Deed.leaves (made deeds) :=
  List.foldl_append ..

/-- One of the deeds has made a file at the place, and none behind it takes a file from there. -/
def Supplied (deeds : List Deed) (q : Place) : Prop :=
  ∃ earlier d later, deeds = earlier ++ d :: later ∧
    d.action.makes (d.before.perform d.tools d.action).1 q ∧ ∀ x ∈ later, ¬ x.action.clears q

theorem supplied_of_mem_made {q : Place} (h : q ∈ made deeds) : Supplied deeds q := by
  induction deeds using List.reverseRecOn with
  | nil => exact absurd h id
  | append_singleton deeds d ih =>
    rw [made_append] at h
    rcases h with hmakes | ⟨hmade, hkept⟩
    · exact ⟨deeds, d, [], rfl, hmakes, nofun⟩
    · obtain ⟨earlier, d', later, rfl, hmakes, hlater⟩ := ih hmade
      refine ⟨earlier, d', later ++ [d], by simp, hmakes, fun x hx => ?_⟩
      rcases List.mem_append.1 hx with hx | hx
      · exact hlater x hx
      · exact List.mem_singleton.1 hx ▸ hkept

/-- Files that a render has made are there. -/
theorem Runs.hasFile (h : Runs c deeds c') :
    ∀ q ∈ made deeds, c'.2.files.HasFile q := by
  refine h.files_induction (P := fun deeds files => ∀ q ∈ made deeds, files.HasFile q)
    (fun _ hq => absurd hq id) fun deeds w tools a ih => ?_
  rw [made_append]
  exact World.hasFile_perform ih a

end Task

end Montage
