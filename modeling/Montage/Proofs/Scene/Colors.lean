import Montage.Proofs.Scene.Drawing

/-!
# Which colours a drawn text can have

The colours of a text are the only values of its filter that are neither escaped nor made of
characters that mean nothing to a reader.  The filter is read option by option, with the colours as
they were given, exactly if each of them is legible (`Stage.carried_iff`).

An option is read where it stands as long as those in front of it are, so each colour is seen to be
legible in its turn (`legible_of_forall₂`).
-/

namespace Montage

open Montage.Graph

namespace Drawtext

open Montage.Filter

variable {words : String} {style : TextStyle} {alpha : Option Interpolation}
  {opacity : Option Float} {t : Filter.Token} {v more : List Char}

/-- An option as a reader has taken it tells the setting's key, and its value as it was given if
that is a colour. -/
def Setting.Carries (s : Setting) (option : List Char) : Prop :=
  ∃ value, Text.cut '=' option = some (s.key.toList, value) ∧
    (s.key ∈ colorKeys → value = s.value.toList)

theorem Setting.ReadAs.carries {s : Setting} {option : List Char}
    (h : s.ReadAs words style option) : s.Carries option := by
  obtain ⟨value, hcut, hvalue⟩ := h
  refine ⟨value, hcut, fun hcolor => ?_⟩
  have hkeys : ∀ key ∈ colorKeys, key ≠ "text" ∧ key ≠ "fontfile" := by decide
  rwa [if_neg (hkeys _ hcolor).1, if_neg (hkeys _ hcolor).2] at hvalue

/-- A colour that is carried by the first option that is read is legible. -/
theorem legible_of_carries {s : Setting} (hmem : s ∈ settings words style alpha opacity)
    (hcolor : s.key ∈ colorKeys)
    (hread : (scan filterEnds .plain t (s.render.toList ++ ':' :: more)).1.value = t.text ++ v)
    (hcarries : s.Carries (token optionEnds v).1) : Legible s.value := by
  have hkey := isKey_of_mem hmem
  have hquoted : s.protection = .quoted := by
    obtain rfl | ⟨font, -, rfl⟩ | ⟨hquoted, -⟩ := settings_cases hmem
    · exact absurd hcolor (by decide : "text" ∉ colorKeys)
    · exact absurd hcolor (by decide : "fontfile" ∉ colorKeys)
    · exact hquoted
  obtain ⟨t', hscan, htext⟩ := passes_key hkey t ((quotedIfCommas s.value).toList ++ ':' :: more)
  rw [Setting.render, hquoted, String.toList_append, List.append_assoc, hscan] at hread
  have hfirm : EndsFirm t'.text := by
    rw [htext, ← List.append_assoc]
    exact endsFirm_concat (by decide) _
  obtain ⟨v', hv', -⟩ := exists_value_scan filterEnds hfirm .plain
    ((quotedIfCommas s.value).toList ++ ':' :: more)
  have hv : v = s.key.toList ++ ['='] ++ v' := by
    rw [hread, htext, List.append_assoc, List.append_cancel_left_eq] at hv'
    exact hv'
  obtain ⟨value, hcut, hvalue⟩ := hcarries
  obtain ⟨htoken, -⟩ := Text.append_of_cut hcut
  rw [hvalue hcolor, List.append_cons, hv] at htoken
  refine legible_of_token_eq hfirm ((startsFirm_of_bare hkey.1).append hkey.2.1 _) (by simp)
    (endsFirm_concat (by decide) _) ?_ hv' htoken
  rw [List.forall_mem_append]
  exact ⟨fun c hc => not_isSpecial_of_isBare (hkey.1 c hc) optionEnds_subset, by decide⟩

/-- If the first options that are read carry the settings that they were made of, the colours among
these are legible. -/
theorem legible_of_forall₂ {first later : List Setting}
    (hfirst : first ⊆ settings words style alpha opacity)
    (hread : (scan filterEnds .plain t
      (first.flatMap (fun s => s.render.toList ++ [':']) ++ more)).1.value = t.text ++ v)
    (hcarries : List.Forall₂ Setting.Carries (first ++ later) (options v)) :
    ∀ s ∈ first, s.key ∈ colorKeys → Legible s.value := by
  induction first generalizing t v with
  | nil => exact fun s hs => nomatch hs
  | cons s rest ih =>
    obtain ⟨hs, hrest⟩ := List.cons_subset.1 hfirst
    have hne : v ≠ [] := fun e => by
      rw [e, options] at hcarries
      cases hcarries
    rw [options_eq hne, List.cons_append, List.forall₂_cons] at hcarries
    rw [List.flatMap_cons, List.append_assoc, List.append_assoc, List.singleton_append] at hread
    have hlegible (hcolor : s.key ∈ colorKeys) : Legible s.value :=
      legible_of_carries hs hcolor hread hcarries.1
    -- So the first option is read as it should be, and what is behind it is read from there on.
    have hcolon : Passes filterEnds [':'] [':'] := passes_self ending_filterEnds (by decide)
    obtain ⟨t', hscan, htext⟩ := (passes_render hs hlegible).append hcolon t
      (rest.flatMap (fun s => s.render.toList ++ [':']) ++ more)
    rw [List.append_cons, hscan] at hread
    have hfirm : EndsFirm t'.text := by
      rw [htext, ← List.append_assoc]
      exact endsFirm_concat (by decide) _
    obtain ⟨v', hv', -⟩ := exists_value_scan filterEnds hfirm .plain
      (rest.flatMap (fun s => s.render.toList ++ [':']) ++ more)
    have hv : v = escapeLevel optionEnds (s.rawOption words style) ++ ':' :: v' := by
      rw [hread, htext, List.append_assoc, List.append_assoc, List.append_cancel_left_eq] at hv'
      exact hv'
    have htoken : token optionEnds v = (trimEnd (s.rawOption words style), ':' :: v') := by
      rw [hv]
      exact token_escapeLevel (startsFirm_rawOption hs) fun x hx => by cases hx; decide
    rw [htoken, List.tail_cons] at hcarries
    exact List.forall_mem_cons.2 ⟨hlegible, ih hrest hv' hcarries.2⟩

/-! ## All settings -/

theorem intercalate_concat {α : Type} (sep : List α) (xs : List (List α)) (last : List α) :
    sep.intercalate (xs ++ [last]) = xs.flatMap (· ++ sep) ++ last := by
  induction xs with
  | nil => simp
  | cons x xs ih =>
    rw [List.cons_append, List.intercalate_cons_of_ne_nil (by simp), ih, List.flatMap_cons]
    simp only [List.append_assoc]

/-- In front of what ends a filter, the arguments are read as options that carry the settings
exactly if all colours are legible. -/
theorem forall₂_carries_iff (words : String) (style : TextStyle) (alpha : Option Interpolation)
    (opacity : Option Float) (more : List Char) :
    List.Forall₂ Setting.Carries (settings words style alpha opacity)
        (options (token filterEnds
          ((arguments words style alpha opacity).toList ++ '[' :: more)).1) ↔
      ∀ color ∈ style.colors, Legible color := by
  have hstarts := startsFirm_arguments words style alpha opacity
  constructor
  · intro h
    obtain ⟨first, hfirst⟩ : ∃ first, settings words style alpha opacity =
        first ++ [{ key := "y", value := "0" }] := ⟨_, (List.append_assoc _ [_] [_]).symm⟩
    have htext : (arguments words style alpha opacity).toList =
        first.flatMap (fun s => s.render.toList ++ [':']) ++ ['y', '=', '0'] := by
      rw [arguments, hfirst, List.map_append, List.map_singleton, String.toList_intercalate,
        List.map_append, List.map_singleton, intercalate_concat, List.flatMap_map,
        List.flatMap_map]
      rfl
    have hread : (scan filterEnds .plain {} (first.flatMap (fun s => s.render.toList ++ [':']) ++
        (['y', '=', '0'] ++ '[' :: more))).1.value = [] ++ (token filterEnds
          ((arguments words style alpha opacity).toList ++ '[' :: more)).1 := by
      rw [token, dropWhile_isGap_eq_self (hstarts.append (by simp [htext]) _), htext,
        List.append_assoc]
      rfl
    have hsub : first ⊆ settings words style alpha opacity := by
      rw [hfirst]
      exact List.subset_append_left ..
    rw [forall_mem_colors_iff words style alpha opacity]
    rw [hfirst] at h ⊢
    refine List.forall_mem_append.2 ⟨legible_of_forall₂ hsub hread h, ?_⟩
    exact List.forall_mem_singleton.2 fun hy => absurd hy (by decide)
  · intro hcolors
    obtain ⟨hpasses, hread⟩ := forall₂_readAs hcolors words alpha opacity
    have htoken : token filterEnds ((arguments words style alpha opacity).toList ++ '[' :: more) =
        (_, '[' :: more) := token_of_passes hpasses (by decide) (by decide) hstarts
      (endsFirm_rawOptions words style alpha opacity)
    rw [htoken]
    exact hread.imp fun _ _ => Setting.ReadAs.carries

end Drawtext

namespace Stage

variable {τ : Type}

/-- For every text that shows something, with any font file and any colours: wherever the graph goes
on, what a reader takes for the arguments of the filter that draws the text holds one option for
each setting, in order, with its key and with the colour as it was given, exactly if all colours are
legible. -/
theorem carried_iff (s : Stage) (p : Program) (scene : Context) {n : Node τ} {words : String}
    {style : TextStyle} (hkind : n.kind = .text words style)
    (hshown : Text.allBlank words = false) :
    ∃ r steps canvas picture, s.addNode p scene n = .ok r ∧ p.graph.steps <+: steps ∧
      steps ++ [⟨[canvas], Drawtext.filter words style n.resolve.alpha n.opacity, [picture]⟩] <+:
        r.2.graph.steps ∧
      ∀ g : Graph, r.2.graph.steps <+: g.steps →
        ∃ args, g.ArgumentsTaken steps canvas "drawtext"
            (Drawtext.arguments words style n.resolve.alpha n.opacity) picture args ∧
          (List.Forall₂ Drawtext.Setting.Carries
              (Drawtext.settings words style n.resolve.alpha n.opacity) (Filter.options args) ↔
            ∀ color ∈ style.colors, Filter.Legible color) := by
  obtain ⟨steps, canvas, picture, hbefore, hsteps⟩ := exists_steps_layText s p scene words style n
  refine ⟨s.layText p scene words style n, steps, canvas, picture,
    addNode_text s p scene hkind hshown, hbefore, hsteps, fun g hg => ?_⟩
  rw [Drawtext.filter_eq] at hsteps
  obtain ⟨more, htaken⟩ := exists_argumentsTaken (hsteps.trans hg)
  exact ⟨_, htaken, Drawtext.forall₂_carries_iff words style n.resolve.alpha n.opacity more⟩

/-- A text in a mix of two colours, given in the form that needs quotes. -/
def mixedText : Node Timeline where
  kind := .text "Hi" { color := "0x336699, 50%", borderColor := some " white@0.5" }

theorem carried_iff_mixedText :
    let style : TextStyle := { color := "0x336699, 50%", borderColor := some " white@0.5" }
    mixedText.kind = .text "Hi" style ∧ Text.allBlank "Hi" = false ∧
      ∃ r steps canvas picture,
        (⟨1280, 720, 25, 4.0⟩ : Stage).addNode (.empty "scene.mp4" 4.0) (.ofInput 0 .video)
          mixedText = .ok r ∧
        (Program.empty "scene.mp4" 4.0).graph.steps <+: steps ∧
        steps ++ [⟨[canvas], Drawtext.filter "Hi" style none none, [picture]⟩] <+:
          r.2.graph.steps ∧
        ∀ g : Graph, r.2.graph.steps <+: g.steps →
          ∃ args, g.ArgumentsTaken steps canvas "drawtext"
              (Drawtext.arguments "Hi" style none none) picture args ∧
            (List.Forall₂ Drawtext.Setting.Carries (Drawtext.settings "Hi" style none none)
                (Filter.options args) ↔ ∀ color ∈ style.colors, Filter.Legible color) :=
  ⟨rfl, by decide, carried_iff ⟨1280, 720, 25, 4.0⟩ (.empty "scene.mp4" 4.0)
    (.ofInput 0 .video) rfl (by decide)⟩

/-- A text whose colour has an option of its own behind it. -/
def shiftedText : Node Timeline where
  kind := .text "Hi" { color := "red:x=5" }

/-- The colon ends the colour, and what stands behind it is taken for one more option. -/
theorem not_carried_shiftedText :
    ∃ r steps canvas picture args,
      (⟨1280, 720, 25, 4.0⟩ : Stage).addNode (.empty "scene.mp4" 4.0) (.ofInput 0 .video)
        shiftedText = .ok r ∧
      steps ++ [⟨[canvas], Drawtext.filter "Hi" { color := "red:x=5" } none none, [picture]⟩] <+:
        r.2.graph.steps ∧
      r.2.graph.ArgumentsTaken steps canvas "drawtext"
        (Drawtext.arguments "Hi" { color := "red:x=5" } none none) picture args ∧
      ¬ List.Forall₂ Drawtext.Setting.Carries
        (Drawtext.settings "Hi" { color := "red:x=5" } none none) (Filter.options args) := by
  obtain ⟨steps, canvas, picture, -, hsteps⟩ := exists_steps_layText ⟨1280, 720, 25, 4.0⟩
    (.empty "scene.mp4" 4.0) (.ofInput 0 .video) "Hi" { color := "red:x=5" } shiftedText
  have hread := hsteps
  rw [Drawtext.filter_eq] at hread
  obtain ⟨more, htaken⟩ := exists_argumentsTaken hread
  refine ⟨_, steps, canvas, picture, _, addNode_text _ _ _ rfl (by decide), hsteps, htaken, ?_⟩
  intro hcarries
  have hlegible := (Drawtext.forall₂_carries_iff ..).1 hcarries "red:x=5" (List.mem_cons_self ..)
  exact absurd hlegible (by decide)

end Stage

end Montage
