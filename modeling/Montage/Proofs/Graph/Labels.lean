import Montage.Graph.Basic

/-!
# Labels of inputs and labels of steps

An input's label is read back as its number (`inputIndex?_inputLabel`).  A label that a graph hands
out is a tag followed by a number; as long as the tag does not end in a digit (`isTag`), such a
label names no input (`inputIndex?_tagged`), and its number can be told from it (`tagged_inj`).
-/

namespace Montage

/-! ## Digits -/

namespace Text

theorem cut_append {sep : Char} {before : List Char} (h : sep ∉ before) (after : List Char) :
    cut sep (before ++ sep :: after) = some (before, after) := by
  induction before with
  | nil => simp [cut]
  | cons c rest ih =>
    rw [List.mem_cons, not_or] at h
    rw [List.cons_append, cut, if_neg (Ne.symm h.1), ih h.2]
    rfl

theorem natOfDigits?_toDigits (n : Nat) : natOfDigits? (Nat.toDigits 10 n) = some n := by
  have hdigits : (Nat.toDigits 10 n).all Char.isDigit = true :=
    List.all_eq_true.2 fun _ hc => Nat.isDigit_of_mem_toDigits (by decide) (by decide) hc
  rw [natOfDigits?, if_pos ⟨Nat.toDigits_ne_nil, hdigits⟩, Nat.ofDigitChars_ten_toDigits]

theorem natOfDigits?_eq_none {c : Char} {cs : List Char} (hc : c ∈ cs) (h : c.isDigit = false) :
    natOfDigits? cs = none := by
  refine if_neg fun hall => ?_
  have := List.all_eq_true.1 hall.2 c hc
  simp [h] at this

theorem isDigit_of_mem_toString {n : Nat} {c : Char} (h : c ∈ (toString n).toList) :
    c.isDigit = true := by
  rw [Nat.toString_eq_repr, Nat.toList_repr] at h
  exact Nat.isDigit_of_mem_toDigits (by decide) (by decide) h

theorem toString_inj {n m : Nat} (h : (toString n).toList = (toString m).toList) : n = m := by
  rw [Nat.toString_eq_repr, Nat.toString_eq_repr, Nat.toList_repr, Nat.toList_repr] at h
  have := congrArg natOfDigits? h
  rwa [natOfDigits?_toDigits, natOfDigits?_toDigits, Option.some.injEq] at this

theorem toString_ne_nil (n : Nat) : (toString n).toList ≠ [] := by
  rw [Nat.toString_eq_repr, Nat.toList_repr]
  exact Nat.toDigits_ne_nil

end Text

namespace Graph

/-! ## Labels of inputs -/

theorem toList_mark (media : Media) : media.mark.toList = ['v'] ∨ media.mark.toList = ['a'] := by
  cases media
  · exact Or.inl rfl
  · exact Or.inr rfl

theorem toList_inputLabel (index : Nat) (media : Media) :
    (inputLabel index media).toList = (toString index).toList ++ ':' :: media.mark.toList := by
  simp only [inputLabel, String.toList_append, List.append_assoc]
  rfl

theorem cut_inputLabel (index : Nat) (media : Media) :
    Text.cut ':' (inputLabel index media).toList =
      some ((toString index).toList, media.mark.toList) := by
  rw [toList_inputLabel]
  refine Text.cut_append (fun h => ?_) _
  exact absurd (Text.isDigit_of_mem_toString h) (by decide)

/-- An input's label is read back as the number of the input, as far as a machine word goes. -/
theorem inputIndex?_inputLabel (index : Nat) (media : Media) :
    inputIndex? (inputLabel index media) = if index < UInt64.size then some index else none := by
  have hdigits : indexOf? (toString index).toList =
      if index < UInt64.size then some index else none := by
    rw [indexOf?, Nat.toString_eq_repr, Nat.toList_repr, Text.natOfDigits?_toDigits,
      Option.filter_some]
    simp only [decide_eq_true_eq]
  rw [inputIndex?, cut_inputLabel]
  simp only [if_pos (toList_mark media), hdigits]

theorem inputLabel_inj {index index' : Nat} {media media' : Media}
    (h : inputLabel index media = inputLabel index' media') : index = index' := by
  have hcut := cut_inputLabel index media
  rw [h, cut_inputLabel, Option.some.injEq, Prod.mk.injEq] at hcut
  exact (Text.toString_inj hcut.1).symm

/-! ## Labels of steps -/

/-- The text may stand in front of a number: it is not empty and does not end in a digit. -/
def isTag (tag : String) : Bool := (tag.toList.getLast?.map fun c => !c.isDigit).getD false

theorem exists_of_isTag {tag : String} (h : isTag tag = true) :
    ∃ before c, tag.toList = before ++ [c] ∧ c.isDigit = false := by
  rcases hlast : tag.toList.getLast? with _ | c
  · simp [isTag, hlast] at h
  · obtain ⟨before, hbefore⟩ := List.getLast?_eq_some_iff.1 hlast
    refine ⟨before, c, hbefore, ?_⟩
    simpa [isTag, hlast] using h

/-- The digits at the end of a label are its number. -/
theorem takeWhile_reverse_tagged {tag : String} (h : isTag tag = true) (n : Nat) :
    (tag ++ toString n).toList.reverse.takeWhile Char.isDigit = (toString n).toList.reverse := by
  obtain ⟨before, c, hbefore, hc⟩ := exists_of_isTag h
  have hdigits : ∀ d ∈ (toString n).toList.reverse, d.isDigit = true := fun d hd =>
    Text.isDigit_of_mem_toString (List.mem_reverse.1 hd)
  rw [String.toList_append, List.reverse_append, List.takeWhile_append_of_pos hdigits, hbefore]
  simp [hc]

/-- Labels of steps with the same text have the same number. -/
theorem tagged_inj {tag tag' : String} (h : isTag tag = true) (h' : isTag tag' = true) {n m : Nat}
    (e : tag ++ toString n = tag' ++ toString m) : n = m := by
  have hdigits := takeWhile_reverse_tagged h n
  rw [e, takeWhile_reverse_tagged h' m, List.reverse_inj] at hdigits
  exact (Text.toString_inj hdigits).symm

/-- The label of a step ends in a digit. -/
theorem getLast?_tagged (tag : String) (n : Nat) :
    ∃ d, (tag ++ toString n).toList.getLast? = some d ∧ d.isDigit = true := by
  have hne := Text.toString_ne_nil n
  refine ⟨(toString n).toList.getLast hne, ?_, Text.isDigit_of_mem_toString (List.getLast_mem hne)⟩
  rw [String.toList_append, List.getLast?_append, List.getLast?_eq_some_getLast hne]
  rfl

/-- A tag and a number name no input. -/
theorem inputIndex?_tagged {tag : String} (h : isTag tag = true) (n : Nat) :
    inputIndex? (tag ++ toString n) = none := by
  obtain ⟨before, c, hbefore, hc⟩ := exists_of_isTag h
  obtain ⟨d, hlast, hd⟩ := getLast?_tagged tag n
  rw [inputIndex?]
  rcases hcut : Text.cut ':' (tag ++ toString n).toList with _ | ⟨index, stream⟩
  · have hmem : c ∈ (tag ++ toString n).toList := by simp [hbefore]
    simp only [indexOf?, Text.natOfDigits?_eq_none hmem hc, Option.filter_none]
  · -- The text behind a colon ends in a digit, so it is no kind of stream.
    obtain ⟨happend, -⟩ := Text.append_of_cut hcut
    refine if_neg ?_
    rintro (rfl | rfl) <;> rw [happend] at hlast <;> simp at hlast <;> subst hlast <;>
      exact absurd hd (by decide)

/-- The label of a step is not the label of an input. -/
theorem tagged_ne_inputLabel (tag : String) (n index : Nat) (media : Media) :
    tag ++ toString n ≠ inputLabel index media := by
  intro e
  obtain ⟨d, hlast, hd⟩ := getLast?_tagged tag n
  rw [e, toList_inputLabel] at hlast
  rcases toList_mark media with h | h <;> rw [h] at hlast <;> simp at hlast <;> subst hlast <;>
    exact absurd hd (by decide)

end Graph

end Montage
