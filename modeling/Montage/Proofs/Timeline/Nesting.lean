import Mathlib.Data.List.Nodup
import Montage.Render.Unit

/-!
# Nested timelines

A composition is found by its slot, the number of its scene and its own number there
(`mem_compositions_iff`), and `compositions` lists them in the order of their slots
(`pairwise_compositions`).  A timeline at any depth is found by an address, the slots on the way to
it: `Timeline.addresses` lists each address once (`nodup_addresses`), and there is a timeline at
just these (`mem_addresses_iff`).
-/

namespace Montage

/-! ## Compositions -/

/-- The numbers of a node's scene and of the node in it. -/
abbrev Slot := Nat × Nat

def Child.slot {υ : Type} (c : Child υ) : Slot := (c.scene, c.node)

section

variable {τ : Type} {scenes : List (Scene τ)} {c : Child τ}

/-- The timeline nested in the node at a slot. -/
def nestedAt? (scenes : List (Scene τ)) (slot : Slot) : Option τ :=
  scenes[slot.1]?.bind fun s => s.nodes[slot.2]?.bind fun n => n.kind.nested?

theorem mem_compositions_iff : c ∈ compositions scenes ↔ nestedAt? scenes c.slot = some c.unit := by
  simp only [compositions, List.mem_flatMap, List.mem_filterMap, nestedAt?, Child.slot,
    Option.bind_eq_some_iff]
  constructor
  · rintro ⟨⟨s, i⟩, hs, ⟨n, j⟩, hn, hc⟩
    obtain ⟨inner, hinner, rfl⟩ := Option.map_eq_some_iff.1 hc
    exact ⟨s, List.mk_mem_zipIdx_iff_getElem?.1 hs, n, List.mk_mem_zipIdx_iff_getElem?.1 hn, hinner⟩
  · rintro ⟨s, hs, n, hn, hinner⟩
    refine ⟨(s, c.scene), List.mk_mem_zipIdx_iff_getElem?.2 hs, (n, c.node),
      List.mk_mem_zipIdx_iff_getElem?.2 hn, ?_⟩
    simp [hinner]

/-- The slot comes earlier in document order. -/
def Slot.Before (a b : Slot) : Prop := a.1 < b.1 ∨ a.1 = b.1 ∧ a.2 < b.2

theorem pairwise_zipIdx {α : Type} (xs : List α) : xs.zipIdx.Pairwise fun a b => a.2 < b.2 := by
  rw [← List.pairwise_map (f := Prod.snd), List.zipIdx_map_snd]
  exact List.pairwise_lt_range'

theorem pairwise_compositions (scenes : List (Scene τ)) :
    (compositions scenes).Pairwise fun c d => c.slot.Before d.slot := by
  rw [compositions, List.pairwise_flatMap]
  constructor
  · rintro ⟨s, i⟩ -
    rw [List.pairwise_filterMap]
    refine (pairwise_zipIdx s.nodes).imp ?_
    rintro ⟨n, j⟩ ⟨n', j'⟩ hlt c hc d hd
    obtain ⟨-, -, rfl⟩ := Option.map_eq_some_iff.1 hc
    obtain ⟨-, -, rfl⟩ := Option.map_eq_some_iff.1 hd
    exact Or.inr ⟨rfl, hlt⟩
  · refine (pairwise_zipIdx scenes).imp ?_
    rintro ⟨s, i⟩ ⟨s', i'⟩ hlt c hc d hd
    obtain ⟨⟨n, j⟩, -, hc⟩ := List.mem_filterMap.1 hc
    obtain ⟨⟨n', j'⟩, -, hd⟩ := List.mem_filterMap.1 hd
    obtain ⟨-, -, rfl⟩ := Option.map_eq_some_iff.1 hc
    obtain ⟨-, -, rfl⟩ := Option.map_eq_some_iff.1 hd
    exact Or.inl hlt

theorem nodup_slots (scenes : List (Scene τ)) :
    ((compositions scenes).map Child.slot).Nodup := by
  rw [List.Nodup, List.pairwise_map]
  refine (pairwise_compositions scenes).imp ?_
  intro c d hbefore e
  rw [e, Slot.Before] at hbefore
  omega

end

namespace Timeline

theorem sizeOf_lt_of_mem_compositions {t : Timeline} {c : Child Timeline}
    (h : c ∈ compositions t.scenes) : sizeOf c.unit < sizeOf t := by
  obtain ⟨s, hs, hnode⟩ := Option.bind_eq_some_iff.1 (mem_compositions_iff.1 h)
  obtain ⟨n, hn, hnested⟩ := Option.bind_eq_some_iff.1 hnode
  -- From the timeline to its scene, the node, the kind and the nested timeline, each is smaller.
  have hscene := List.sizeOf_lt_of_mem (List.mem_of_getElem? hs)
  have hnode := List.sizeOf_lt_of_mem (List.mem_of_getElem? hn)
  have hkind : sizeOf c.unit < sizeOf n.kind := by
    rcases hkind : n.kind <;> rw [hkind] at hnested <;> cases hnested
    simp
    omega
  cases t
  cases s
  cases n
  simp at hscene hnode hkind ⊢
  omega

/-- What holds of a timeline if it holds of those in its compositions holds of all timelines. -/
theorem induction {P : Timeline → Prop}
    (step : ∀ t : Timeline, (∀ c ∈ compositions t.scenes, P c.unit) → P t) (t : Timeline) : P t :=
  step t fun c _ => induction step c.unit
termination_by sizeOf t
decreasing_by exact sizeOf_lt_of_mem_compositions ‹_›

/-! ## Addresses -/

/-- The timeline at an address. -/
def at? (t : Timeline) : List Slot → Option Timeline
  | [] => some t
  | slot :: rest => (nestedAt? t.scenes slot).bind fun inner => inner.at? rest

/-- The addresses of the timeline and of all timelines nested in it, outer ones first. -/
def addresses : Timeline → List (List Slot) :=
  Timeline.fold fun _ scenes _ =>
    [] :: (compositions scenes).flatMap fun c => c.unit.map (c.slot :: ·)

theorem addresses_eq (t : Timeline) :
    t.addresses =
      [] :: (compositions t.scenes).flatMap fun c => c.unit.addresses.map (c.slot :: ·) := by
  rw [addresses, fold_eq, RenderUnit.compositions_map, List.flatMap_map]
  rfl

theorem at?_cons_of_mem {t : Timeline} {c : Child Timeline} (h : c ∈ compositions t.scenes)
    (rest : List Slot) : t.at? (c.slot :: rest) = c.unit.at? rest := by
  rw [at?, mem_compositions_iff.1 h]
  rfl

theorem mem_addresses_iff {t : Timeline} {address : List Slot} :
    address ∈ t.addresses ↔ (t.at? address).isSome := by
  induction address generalizing t with
  | nil =>
    rw [addresses_eq]
    simp [at?]
  | cons slot rest ih =>
    rw [addresses_eq]
    simp only [List.mem_cons, reduceCtorEq, false_or, List.mem_flatMap, List.mem_map,
      List.cons.injEq]
    constructor
    · rintro ⟨c, hc, rest', hrest, rfl, rfl⟩
      rw [at?_cons_of_mem hc]
      exact ih.1 hrest
    · intro h
      rw [at?] at h
      rcases hinner : nestedAt? t.scenes slot with _ | inner <;> rw [hinner] at h
      · cases h
      · have hc : (⟨slot.1, slot.2, inner⟩ : Child Timeline) ∈ compositions t.scenes :=
          mem_compositions_iff.2 hinner
        exact ⟨_, hc, rest, ih.2 h, rfl, rfl⟩

theorem nodup_addresses (t : Timeline) : t.addresses.Nodup := by
  induction t using induction with
  | step t ih =>
    rw [addresses_eq, List.nodup_cons]
    refine ⟨by simp, List.nodup_flatMap.2 ⟨fun c hc => ?_, ?_⟩⟩
    · exact (ih c hc).map fun rest rest' e => (List.cons.inj e).2
    · refine (List.pairwise_map.1 (nodup_slots t.scenes)).imp ?_
      intro c d hne address hc hd
      obtain ⟨rest, -, rfl⟩ := List.mem_map.1 hc
      obtain ⟨rest', -, e⟩ := List.mem_map.1 hd
      exact hne (List.cons.inj e).1.symm

end Timeline

end Montage
