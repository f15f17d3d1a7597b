import Montage.Proofs.Timeline.Nesting

/-!
# Editing compositions

`editKind` changes what stands in one slot.  Where every composition is edited once, each node is
changed by its own edit and by no other, and nothing but compositions is changed
(`foldl_editKind`).
-/

namespace Montage

theorem modify_append_cons {β : Type} (f : β → β) (before : List β) (y : β) (after : List β) :
    (before ++ y :: after).modify before.length f = before ++ f y :: after := by
  induction before with
  | nil => rfl
  | cons x rest ih =>
    rw [List.cons_append, List.length_cons, List.modify_succ_cons, ih, List.cons_append]

/-- Modifying every entry of a list once, by its index, modifies it everywhere. -/
theorem foldl_modify_zipIdx {α β : Type} (g : α × Nat → β → β) (p : α → β) (xs : List α)
    (before : List β) :
    (xs.zipIdx before.length).foldl (fun ys x => ys.modify x.2 (g x)) (before ++ xs.map p) =
      before ++ (xs.zipIdx before.length).map fun x => g x (p x.1) := by
  induction xs generalizing before with
  | nil => rfl
  | cons x rest ih =>
    -- The entry that is modified first joins those that are done.
    have hrest := ih (before ++ [g (x, before.length) (p x)])
    rw [List.length_append, List.length_singleton] at hrest
    rw [List.zipIdx_cons, List.foldl_cons, List.map_cons, modify_append_cons, List.map_cons]
    simpa using hrest

section

variable {σ τ : Type}

/-- The scenes with another kind in a slot. -/
def editKind (scenes : List (Scene τ)) (slot : Slot) (f : NodeKind τ → NodeKind τ) :
    List (Scene τ) :=
  scenes.modify slot.1 fun s =>
    { s with nodes := s.nodes.modify slot.2 fun n => { n with kind := f n.kind } }

/-- The kind that a node with the given slot gets if compositions are edited. -/
def editedKind (edit : Child σ → NodeKind τ → NodeKind τ) (slot : Slot) (n : Node σ)
    (kind : NodeKind τ) : NodeKind τ :=
  match n.kind.nested? with
  | some inner => edit ⟨slot.1, slot.2, inner⟩ kind
  | none => kind

theorem foldl_editKind_nodes (edit : Child σ → NodeKind τ → NodeKind τ) (i : Nat)
    (nodes : List (Node σ × Nat)) (scenes : List (Scene τ)) :
    (nodes.filterMap fun (n, j) => n.kind.nested?.map fun unit => (⟨i, j, unit⟩ : Child σ)).foldl
        (fun scenes c => editKind scenes c.slot (edit c)) scenes =
      scenes.modify i fun s =>
        { s with
          nodes := nodes.foldl (fun ns x => ns.modify x.2 fun m =>
            { m with kind := editedKind edit (i, x.2) x.1 m.kind }) s.nodes } := by
  induction nodes generalizing scenes with
  | nil => exact (List.modify_id i scenes).symm
  | cons x rest ih =>
    rcases hnested : x.1.kind.nested? with _ | inner
    · have hkind (kind : NodeKind τ) : editedKind edit (i, x.2) x.1 kind = kind := by
        rw [editedKind, hnested]
      have hsame (ns : List (Node τ)) : (ns.modify x.2 fun m =>
          { m with kind := editedKind edit (i, x.2) x.1 m.kind }) = ns := by
        simp only [hkind]
        exact List.modify_id x.2 ns
      rw [List.filterMap_cons_none (by simp [hnested]), ih]
      simp only [List.foldl_cons, hsame]
    · have hkind (kind : NodeKind τ) :
          editedKind edit (i, x.2) x.1 kind = edit ⟨i, x.2, inner⟩ kind := by
        rw [editedKind, hnested]
      rw [List.filterMap_cons_some (b := ⟨i, x.2, inner⟩) (by simp [hnested]), List.foldl_cons, ih]
      simp only [List.foldl_cons, hkind]
      exact List.modify_modify_eq _ _ i scenes

/-- Editing every composition once edits each node by itself. -/
theorem foldl_editKind (edit : Child σ → NodeKind τ → NodeKind τ) (f : σ → τ)
    (scenes : List (Scene σ)) :
    (compositions scenes).foldl (fun scenes c => editKind scenes c.slot (edit c))
        (scenes.map (Scene.map f)) =
      scenes.zipIdx.map fun (s, i) =>
        { s.map f with
          nodes := s.nodes.zipIdx.map fun (n, j) =>
            { n.map f with kind := editedKind edit (i, j) n (n.map f).kind } } := by
  have hnodes (i : Nat) (s : Scene σ) := foldl_modify_zipIdx
    (fun x m => { m with kind := editedKind edit (i, x.2) x.1 m.kind }) (Node.map f) s.nodes []
  have hscenes := foldl_modify_zipIdx (fun x s =>
    { s with
      nodes := x.1.nodes.zipIdx.foldl (fun ns y => ns.modify y.2 fun m =>
        { m with kind := editedKind edit (x.2, y.2) y.1 m.kind }) s.nodes }) (Scene.map f) scenes []
  rw [compositions, List.foldl_flatMap]
  simp only [foldl_editKind_nodes]
  refine hscenes.trans (List.map_congr_left fun x _ => ?_)
  exact congrArg (fun nodes => { Scene.map f x.1 with nodes }) (hnodes x.2 x.1)

end

end Montage
