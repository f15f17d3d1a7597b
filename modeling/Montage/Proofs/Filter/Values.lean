import Montage.Animation.Interpolation
import Montage.Proofs.Filter.Reading
import Montage.Proofs.Graph.Labels

/-!
# The characters of values

A number is written in characters that mean nothing to any reader of filters (`bare_number`), and a
ramp in such characters and commas (`plain_expr`).
-/

namespace Montage

/-- All colours of a style. -/
def TextStyle.colors (style : TextStyle) : List String :=
  style.color :: (style.borderColor.toList ++ style.backgroundColor.toList ++
    (style.shadow.bind (·.color)).toList)

namespace Filter

/-! ## Characters -/

/-- The character means nothing to any reader, at no place of a value. -/
def isBare (c : Char) : Bool := !isSpecial (':' :: filterEnds) c && !isGap c

/-- Every character means nothing to any reader. -/
def Bare (s : String) : Prop := ∀ c ∈ s.toList, isBare c = true

/-- Every character means nothing to any reader, but for commas. -/
def Plain (s : String) : Prop := ∀ c ∈ s.toList, isBare c = true ∨ c = ','

instance (s : String) : Decidable (Bare s) :=
  inferInstanceAs (Decidable (∀ c ∈ s.toList, isBare c = true))

instance (s : String) : Decidable (Plain s) :=
  inferInstanceAs (Decidable (∀ c ∈ s.toList, isBare c = true ∨ c = ','))

theorem Bare.plain {s : String} (h : Bare s) : Plain s := fun c hc => Or.inl (h c hc)

theorem plain_append_iff {s s' : String} : Plain (s ++ s') ↔ Plain s ∧ Plain s' := by
  unfold Plain
  rw [String.toList_append, List.forall_mem_append]

theorem isBare_iff {c : Char} : isBare c = true ↔
    (c ≠ '\\' ∧ c ≠ quoteChar ∧ c ∉ ':' :: filterEnds) ∧ isGap c = false := by
  rw [isBare, Bool.and_eq_true, Bool.not_eq_true', Bool.not_eq_true', not_isSpecial_iff]

theorem not_isSpecial_of_isBare {c : Char} (h : isBare c = true) {specials : List Char}
    (hsub : specials ⊆ ':' :: filterEnds) : isSpecial specials c = false := by
  obtain ⟨⟨hback, hquote, hmem⟩, -⟩ := isBare_iff.1 h
  exact not_isSpecial_iff.2 ⟨hback, hquote, fun hc => hmem (hsub hc)⟩

theorem endsFirm_of_bare {s : String} (h : Bare s) : EndsFirm s.toList := fun c hc =>
  (isBare_iff.1 (h c (List.mem_of_getLast? hc))).2

theorem startsFirm_of_bare {s : String} (h : Bare s) : StartsFirm s.toList := fun c hc =>
  (isBare_iff.1 (h c (List.mem_of_head? hc))).2

theorem optionEnds_subset : optionEnds ⊆ ':' :: filterEnds := by decide

theorem filterEnds_subset : filterEnds ⊆ ':' :: filterEnds := List.subset_cons_self ..

theorem not_isDigit_of_isSpecial {c : Char} (h : isSpecial (':' :: filterEnds) c = true) :
    c.isDigit = false := by
  have hcases : (c = '\\' ∨ c = quoteChar) ∨ c = ':' ∨ c = '[' ∨ c = ']' ∨ c = ',' ∨ c = ';' := by
    simpa [isSpecial, filterEnds] using h
  rcases hcases with (rfl | rfl) | rfl | rfl | rfl | rfl | rfl <;> decide

theorem not_isDigit_of_isGap {c : Char} (h : isGap c = true) : c.isDigit = false := by
  have hcases : ((c = ' ' ∨ c = '\n') ∨ c = '\t') ∨ c = '\r' := by simpa [isGap] using h
  rcases hcases with ((rfl | rfl) | rfl) | rfl <;> decide

theorem isBare_of_isDigit {c : Char} (h : c.isDigit = true) : isBare c = true := by
  cases hspecial : isSpecial (':' :: filterEnds) c with
  | true => simp [not_isDigit_of_isSpecial hspecial] at h
  | false =>
    cases hgap : isGap c with
    | true => simp [not_isDigit_of_isGap hgap] at h
    | false => rw [isBare, hspecial, hgap]; rfl

/-! ## Numbers -/

theorem mem_of_mem_dropEnd {c d : Char} {cs : List Char} (h : d ∈ dropEnd c cs) : d ∈ cs := by
  unfold dropEnd at h
  rw [List.mem_reverse] at h
  exact List.mem_reverse.1 ((List.dropWhile_suffix (· == c)).subset h)

theorem isBare_of_mem_placesChars {places n : Nat} {c : Char}
    (h : c ∈ Decimal.placesChars places n) : isBare c = true := by
  have hdigits : ∀ d ∈ List.replicate (places + 1 - (Nat.toDigits 10 n).length) '0' ++
      Nat.toDigits 10 n, isBare d = true := by
    intro d hd
    apply isBare_of_isDigit
    rcases List.mem_append.1 hd with hd | hd
    · rw [List.eq_of_mem_replicate hd]
      decide
    · exact Nat.isDigit_of_mem_toDigits (by decide) (by decide) hd
  unfold Decimal.placesChars at h
  rcases List.mem_append.1 h with h | h
  · exact hdigits c (List.mem_of_mem_take h)
  · rcases List.mem_cons.1 h with rfl | h
    · decide
    · exact hdigits c (List.mem_of_mem_drop h)

theorem isBare_of_mem_fixedChars {places : Nat} {x : Float} {c : Char}
    (h : c ∈ Decimal.fixedChars places x) : isBare c = true := by
  have hsign (negative : Bool) : ∀ d ∈ (if negative then ['-'] else []), isBare d = true := by
    cases negative <;> decide
  unfold Decimal.fixedChars at h
  cases hparts : Decimal.Binary.ofFloat x with
  | nan =>
    rw [hparts] at h
    exact (by decide : ∀ d ∈ ['N', 'a', 'N'], isBare d = true) c h
  | infinite negative =>
    rw [hparts] at h
    rcases List.mem_append.1 h with h | h
    · exact hsign negative c h
    · exact (by decide : ∀ d ∈ ['i', 'n', 'f'], isBare d = true) c h
  | finite negative significand exponent =>
    rw [hparts] at h
    rcases List.mem_append.1 h with h | h
    · exact hsign negative c h
    · exact isBare_of_mem_placesChars h

/-- A number holds nothing that means something to a reader. -/
theorem bare_number (x : Float) : Bare (number x) := by
  intro c hc
  rw [number, String.toList_ofList] at hc
  simp only [numberChars] at hc
  split at hc
  · rw [List.mem_singleton.1 hc]
    decide
  · exact isBare_of_mem_fixedChars (mem_of_mem_dropEnd (mem_of_mem_dropEnd hc))

/-- A ramp holds nothing that means something to a reader, but for commas. -/
theorem plain_expr (i : Interpolation) {var : String} (hvar : Plain var) : Plain (i.expr var) := by
  have hnumber (x : Float) : Plain (number x) := (bare_number x).plain
  simp only [Interpolation.expr]
  split
  · simp only [plain_append_iff, hvar, hnumber, and_true]
    decide
  · simp only [plain_append_iff, hvar, hnumber, and_true]
    decide

/-! ## Values -/

theorem passes_bare {ends : List Char} (hends : Ending ends) (hsub : ends ⊆ ':' :: filterEnds)
    {s : String} (h : Bare s) : Passes ends s.toList s.toList :=
  passes_self hends fun c hc => not_isSpecial_of_isBare (h c hc) hsub

theorem not_isSpecial_comma {c : Char} (h : isBare c = true ∨ c = ',') :
    isSpecial optionEnds c = false := by
  rcases h with h | rfl
  · exact not_isSpecial_of_isBare h optionEnds_subset
  · decide

end Filter

end Montage
