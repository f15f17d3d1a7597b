import Montage.Proofs.Filter.Reading

/-!
# Reading what is not escaped

What is not escaped for a reader is not always read back.  A character that ends a value stops the
reader early (`length_lt_scan_escapeLevel`).  From a text without backslashes no quote is read
(`quoteChar_not_mem_options`), and from one without quotes, either, no colon and no gap at the ends
of an option (`firm_of_mem_options`).
-/

namespace Montage.Filter

variable {ends specials cs : List Char} {t : Token}

/-! ## Texts without backslashes -/

theorem Token.mem_text_of_mem_value {c : Char} (h : c ∈ t.value) : c ∈ t.text := by
  rcases List.mem_append.1 h with h | h
  · exact List.mem_append_left _ h
  · rw [trimEnd, List.mem_reverse] at h
    exact List.mem_append_right _ (List.mem_reverse.1 ((List.dropWhile_suffix isGap).subset h))

/-- Without backslashes no quote is read. -/
theorem quoteChar_not_mem_scan {mode : Mode} (hmode : mode ≠ .escaped) (h : '\\' ∉ cs)
    (ht : quoteChar ∉ t.text) : quoteChar ∉ (scan ends mode t cs).1.text := by
  induction cs generalizing mode t with
  | nil => cases mode <;> simpa [scan] using ht
  | cons c rest ih =>
    obtain ⟨hc, hrest⟩ := not_or.1 (mt List.mem_cons.2 h)
    have hpush (hquote : c ≠ quoteChar) : quoteChar ∉ (t.push c).text := by
      simp [ht, Ne.symm hquote]
    cases mode with
    | plain =>
      rw [scan]
      split
      · exact ht
      · rw [if_neg (Ne.symm hc)]
        split
        · exact ih (by decide) hrest ht
        · next hquote => exact ih (by decide) hrest (hpush hquote)
    | escaped => exact absurd rfl hmode
    | quoted =>
      rw [scan]
      split
      · exact ih (by decide) hrest (by simpa using ht)
      · next hquote => exact ih (by decide) hrest (hpush hquote)

/-- Without backslashes and quotes a value goes as far as the first character that ends it. -/
theorem scan_eq_takeWhile (h : ∀ c ∈ cs, c ≠ '\\' ∧ c ≠ quoteChar) (t : Token) :
    scan ends .plain t cs =
      ({ t with loose := t.loose ++ cs.takeWhile (· ∉ ends) }, cs.dropWhile (· ∉ ends)) := by
  induction cs generalizing t with
  | nil => simp [scan]
  | cons c rest ih =>
    obtain ⟨⟨hback, hquote⟩, hrest⟩ := List.forall_mem_cons.1 h
    by_cases hc : c ∈ ends
    · simp [scan, hc]
    · rw [scan, if_neg hc, if_neg hback, if_neg hquote, ih hrest]
      simp [hc, Token.push]

/-- What holds of the value read at any place of the text holds of all options. -/
theorem forall_mem_options {P : List Char → Prop}
    (h : ∀ cs', cs' <:+ cs → P (token optionEnds cs').1) : ∀ o ∈ options cs, P o := by
  fun_induction options cs with
  | case1 => exact fun _ ho => nomatch ho
  | case2 c rest ih =>
    have hrest : (token optionEnds (c :: rest)).2.tail <:+ c :: rest :=
      (List.tail_suffix _).trans (token_suffix ..)
    exact List.forall_mem_cons.2 ⟨h _ List.suffix_rfl, ih fun cs' hcs' => h cs' (hcs'.trans hrest)⟩

theorem quoteChar_not_mem_options (h : '\\' ∉ cs) : ∀ o ∈ options cs, quoteChar ∉ o := by
  refine forall_mem_options fun cs' hcs' hquote => ?_
  have hback : '\\' ∉ cs'.dropWhile isGap := fun hmem =>
    h (hcs'.subset ((List.dropWhile_suffix isGap).subset hmem))
  exact quoteChar_not_mem_scan (t := {}) (by decide) hback (List.not_mem_nil)
    (Token.mem_text_of_mem_value hquote)

theorem trimEnd_prefix_self (cs : List Char) : trimEnd cs <+: cs := by
  have hsuffix := List.dropWhile_suffix (l := cs.reverse) isGap
  rw [← List.reverse_prefix, List.reverse_reverse] at hsuffix
  exact hsuffix

theorem startsFirm_trimEnd (h : StartsFirm cs) : StartsFirm (trimEnd cs) := by
  obtain ⟨more, hmore⟩ := trimEnd_prefix_self cs
  intro c hc
  refine h c ?_
  rw [← hmore, List.head?_append, Option.mem_def.1 hc]
  rfl

theorem startsFirm_dropWhile (cs : List Char) : StartsFirm (cs.dropWhile isGap) := by
  intro c hc
  have hhead := List.head?_dropWhile_not isGap cs
  rw [Option.mem_def.1 hc] at hhead
  simpa using hhead

/-- Without backslashes and quotes an option has no colon in it and no gap at its ends. -/
theorem firm_of_mem_options (h : ∀ c ∈ cs, c ≠ '\\' ∧ c ≠ quoteChar) :
    ∀ o ∈ options cs, ':' ∉ o ∧ StartsFirm o ∧ EndsFirm o := by
  refine forall_mem_options fun cs' hcs' => ?_
  have hfree : ∀ c ∈ cs'.dropWhile isGap, c ≠ '\\' ∧ c ≠ quoteChar := fun c hc =>
    h c (hcs'.subset ((List.dropWhile_suffix isGap).subset hc))
  have hvalue : (token optionEnds cs').1 =
      trimEnd ((cs'.dropWhile isGap).takeWhile (· ∉ optionEnds)) := by
    rw [token, scan_eq_takeWhile hfree]
    rfl
  have hstart : StartsFirm ((cs'.dropWhile isGap).takeWhile (· ∉ optionEnds)) := by
    intro c hc
    have hfirst := startsFirm_dropWhile cs'
    cases hdrop : cs'.dropWhile isGap with
    | nil => simp [hdrop] at hc
    | cons d rest =>
      rw [hdrop] at hfirst hc
      rw [List.takeWhile_cons] at hc
      split at hc
      · exact hfirst c hc
      · cases hc
  rw [hvalue]
  refine ⟨fun hcolon => ?_, startsFirm_trimEnd hstart, endsFirm_trimEnd _⟩
  have hmem : ':' ∈ (cs'.dropWhile isGap).takeWhile (· ∉ optionEnds) :=
    Token.mem_text_of_mem_value (t := ⟨[], _⟩) hcolon
  have hno := List.all_eq_true.1 List.all_takeWhile _ hmem
  simp [optionEnds] at hno

/-! ## Stopping early -/

/-- A character that ends the value and is not escaped stops the reader before what follows. -/
theorem length_lt_scan_escapeLevel (hends : Ending ends) {c : Char} (hc : c ∈ cs)
    (hend : c ∈ ends) (hspecial : isSpecial specials c = false) (t : Token) (more : List Char) :
    more.length < (scan ends .plain t (escapeLevel specials cs ++ more)).2.length := by
  induction cs generalizing t with
  | nil => cases hc
  | cons d rest ih =>
    rw [escapeLevel_cons]
    cases hd : isSpecial specials d with
    | true =>
      have hne : c ≠ d := fun e => by simp [e, hd] at hspecial
      rw [if_pos rfl, List.append_assoc, List.cons_append, List.cons_append, List.nil_append,
        scan_escape hends]
      exact ih ((List.mem_cons.1 hc).resolve_left hne) _
    | false =>
      rw [if_neg Bool.false_ne_true, List.append_assoc, List.singleton_append]
      by_cases hmem : d ∈ ends
      · rw [scan_end hmem]
        simp only [List.length_cons, List.length_append]
        omega
      · have hne : c ≠ d := fun e => hmem (e ▸ hend)
        rw [scan_plain hmem hd]
        exact ih ((List.mem_cons.1 hc).resolve_left hne) _

end Montage.Filter
