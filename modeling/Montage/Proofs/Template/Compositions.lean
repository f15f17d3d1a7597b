import Montage.Proofs.Template.Scenes

/-!
# Compositions of templates

A layer becomes a composition only if it has clips, so no timeline nested in that of a template is
without scenes (`Timeline.filled_of_loaded`).
-/

namespace Montage

namespace Timeline

/-- Every timeline nested in this one has scenes. -/
def Filled (t : Timeline) : Prop :=
  ∀ address inner, address ≠ [] → t.at? address = some inner → inner.scenes ≠ []

/-- The timeline was loaded from a template. -/
def Loaded (t : Timeline) : Prop :=
  (∃ v, ofTemplate v = .ok t) ∨ ∃ s, ofTemplateText s = .ok t

end Timeline

theorem NodeKind.exists_eq_composition {τ : Type} {kind : NodeKind τ} {inner : τ}
    (h : kind.nested? = some inner) : ∃ output, kind = .composition inner output := by
  cases kind
  case composition timeline output =>
    cases h
    exact ⟨output, rfl⟩
  all_goals cases h

/-- By induction on the address: each composition on the way was loaded with scenes, and these show
clips again. -/
theorem Template.ShowsClips.filled {root : Settings} {t : Timeline} (h : ShowsClips root t) :
    t.Filled := by
  intro address inner hne hat
  induction address generalizing t with
  | nil => exact absurd rfl hne
  | cons slot rest ih =>
    obtain ⟨first, hfirst, hat⟩ := Option.bind_eq_some_iff.1 hat
    obtain ⟨s, hs, hnode⟩ := Option.bind_eq_some_iff.1 hfirst
    obtain ⟨n, hn, hnested⟩ := Option.bind_eq_some_iff.1 hnode
    obtain ⟨hloaded, hshows⟩ := h.asShown (List.mem_of_getElem? hs) (List.mem_of_getElem? hn)
    cases rest with
    | nil =>
      obtain ⟨output, hkind⟩ := NodeKind.exists_eq_composition hnested
      obtain ⟨-, hscenes, -⟩ := hloaded.composition first output hkind
      cases hat
      exact hscenes
    | cons next rest => exact ih (hshows first hnested) (List.cons_ne_nil next rest) hat

namespace Timeline

theorem filled_of_ofTemplate {v : Json} {t : Timeline} (h : ofTemplate v = .ok t) : t.Filled :=
  Template.ShowsClips.filled ⟨_, showsClip_of_ofTemplate h⟩

/-- No composition of a template is empty. -/
theorem filled_of_loaded {t : Timeline} (h : t.Loaded) : t.Filled := by
  rcases h with ⟨v, hv⟩ | ⟨s, hs⟩
  · exact filled_of_ofTemplate hv
  · rw [ofTemplateText] at hs
    split at hs
    · exact filled_of_ofTemplate hs
    · cases hs

end Timeline

end Montage
