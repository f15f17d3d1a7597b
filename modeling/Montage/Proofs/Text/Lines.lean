import Montage.Media.Report
import Montage.Proofs.Path.Components

/-!
# Lines of a text

A text that is put together from lines, with a newline behind each, is cut into the same lines
again (`splitWhere_unlines`, `lines_unlines`).  Every text is put together from lines and what
stands behind the last newline (`exists_unlines_append`), which is one more line unless it is empty
(`lines_unlines_append`).  A text has no empty line if there is something in it, and newlines stand
neither at its ends nor side by side (`nil_not_mem_splitWhere`).
-/

namespace Montage.Text

variable {cs line : List Char} {ls : List (List Char)}

/-- The text with these lines, a newline behind each. -/
def unlines (ls : List (List Char)) : List Char := ls.flatMap (· ++ ['\n'])

theorem unlines_cons (line : List Char) (ls : List (List Char)) :
    unlines (line :: ls) = line ++ '\n' :: unlines ls := by
  simp [unlines]

theorem unlines_append (ls ls' : List (List Char)) :
    unlines (ls ++ ls') = unlines ls ++ unlines ls' := List.flatMap_append ..

theorem unlines_eq_intercalate (h : ls ≠ []) :
    unlines ls = ['\n'].intercalate ls ++ ['\n'] := by
  induction ls with
  | nil => exact absurd rfl h
  | cons line ls ih =>
    rcases ls with _ | ⟨line', ls⟩
    · simp [unlines]
    · rw [unlines_cons, ih (List.cons_ne_nil _ _), List.intercalate_cons_cons]
      simp

theorem splitOnP_flatMap_append {α : Type} {p : α → Bool} {sep : α} {pieces : List (List α)}
    (hsep : p sep = true) (h : ∀ piece ∈ pieces, ∀ a ∈ piece, p a = false) (more : List α) :
    (pieces.flatMap (· ++ [sep]) ++ more).splitOnP p = pieces ++ more.splitOnP p := by
  induction pieces with
  | nil => rfl
  | cons piece pieces ih =>
    obtain ⟨hpiece, hrest⟩ := List.forall_mem_cons.1 h
    rw [List.flatMap_cons, List.append_assoc, List.append_assoc, List.singleton_append,
      List.splitOnP_append_cons_of_forall_mem hpiece sep hsep, ih hrest]
    rfl

theorem splitWhere_unlines_append (h : ∀ line ∈ ls, '\n' ∉ line) (hline : '\n' ∉ line) :
    splitWhere (· == '\n') (unlines ls ++ line) = ls ++ [line] := by
  have hplain {piece : List Char} (hpiece : '\n' ∉ piece) : ∀ c ∈ piece, (c == '\n') = false :=
    fun c hc => beq_eq_false_iff_ne.2 fun heq => hpiece (heq ▸ hc)
  rw [splitWhere_eq_splitOnP, unlines,
    splitOnP_flatMap_append (by decide) fun piece hpiece => hplain (h piece hpiece),
    List.splitOnP_eq_singleton (hplain hline)]

theorem splitWhere_unlines (h : ∀ line ∈ ls, '\n' ∉ line) :
    splitWhere (· == '\n') (unlines ls) = ls ++ [[]] := by
  have hpieces := splitWhere_unlines_append h List.not_mem_nil
  rwa [List.append_nil] at hpieces

theorem intercalate_splitWhere (cs : List Char) :
    ['\n'].intercalate (splitWhere (· == '\n') cs) = cs := by
  rw [splitWhere_eq_splitOnP]
  exact List.intercalate_splitOn '\n'

theorem unlines_splitWhere (cs : List Char) :
    unlines (splitWhere (· == '\n') cs) = cs ++ ['\n'] := by
  rw [unlines_eq_intercalate (splitWhere_ne_nil _ cs), intercalate_splitWhere]

theorem splitWhere_cons_of_ne {c : Char} (hc : c ≠ '\n') (rest : List Char) :
    ∃ piece pieces, splitWhere (· == '\n') rest = piece :: pieces ∧
      splitWhere (· == '\n') (c :: rest) = (c :: piece) :: pieces := by
  rcases hrest : splitWhere (· == '\n') rest with _ | ⟨piece, pieces⟩
  · exact absurd hrest (splitWhere_ne_nil _ rest)
  · exact ⟨piece, pieces, rfl, by rw [splitWhere, if_neg (by simpa using hc), hrest]⟩

theorem newline_not_mem_line (h : line ∈ splitWhere (· == '\n') cs) : '\n' ∉ line := by
  induction cs generalizing line with
  | nil =>
    rw [List.mem_singleton.1 h]
    exact List.not_mem_nil
  | cons c rest ih =>
    by_cases hc : c = '\n'
    · subst hc
      rcases List.mem_cons.1 h with rfl | h
      · exact List.not_mem_nil
      · exact ih h
    · obtain ⟨piece, pieces, hrest, hcons⟩ := splitWhere_cons_of_ne hc rest
      rw [hcons] at h
      rcases List.mem_cons.1 h with rfl | h
      · have hpiece := ih (hrest ▸ List.mem_cons_self)
        simp [hpiece, Ne.symm hc]
      · exact ih (hrest ▸ List.mem_cons_of_mem _ h)

theorem exists_unlines_append (cs : List Char) : ∃ ls last, (∀ line ∈ ls, '\n' ∉ line) ∧
    '\n' ∉ last ∧ cs = unlines ls ++ last := by
  obtain ⟨ls, last, hpieces⟩ : ∃ ls last, splitWhere (· == '\n') cs = ls ++ [last] :=
    ⟨_, _, (List.dropLast_concat_getLast (splitWhere_ne_nil _ cs)).symm⟩
  have hplain : ∀ line ∈ ls ++ [last], '\n' ∉ line := fun line hline =>
    newline_not_mem_line (hpieces ▸ hline)
  have hjoined := unlines_splitWhere cs
  have hlast : unlines [last] = last ++ ['\n'] := unlines_cons last []
  rw [hpieces, unlines_append, hlast, ← List.append_assoc] at hjoined
  exact ⟨ls, last, fun line hline => hplain line (List.mem_append_left _ hline),
    hplain last List.mem_concat_self, (List.append_cancel_right hjoined).symm⟩

/-! ## Empty lines -/

/-- A line behind the first one is empty only if its newline ends the text or has another newline
behind it. -/
theorem of_nil_mem_tail (h : [] ∈ (splitWhere (· == '\n') cs).tail) :
    cs.getLast? = some '\n' ∨ ['\n', '\n'] <:+: cs := by
  induction cs with
  | nil => cases h
  | cons c rest ih =>
    have hlater (h : rest.getLast? = some '\n' ∨ ['\n', '\n'] <:+: rest) :
        (c :: rest).getLast? = some '\n' ∨ ['\n', '\n'] <:+: c :: rest := by
      refine h.imp (fun h => ?_) fun h => List.infix_cons h
      rw [List.getLast?_cons, h]
      rfl
    by_cases hc : c = '\n'
    · subst hc
      have h : [] ∈ splitWhere (· == '\n') rest := h
      rcases rest with _ | ⟨d, rest⟩
      · exact Or.inl rfl
      · by_cases hd : d = '\n'
        · subst hd
          exact Or.inr ⟨[], rest, rfl⟩
        · obtain ⟨piece, pieces, -, hcons⟩ := splitWhere_cons_of_ne hd rest
          rw [hcons] at h ih
          exact hlater (ih (by simpa using h))
    · obtain ⟨piece, pieces, hrest, hcons⟩ := splitWhere_cons_of_ne hc rest
      rw [hcons] at h
      exact hlater (ih (by rw [hrest]; exact h))

/-- Where there is something, and newlines stand neither at the ends nor side by side, no line is
empty. -/
theorem nil_not_mem_splitWhere (hne : cs ≠ []) (hfirst : cs.head? ≠ some '\n')
    (hlast : cs.getLast? ≠ some '\n') (hdouble : ¬ ['\n', '\n'] <:+: cs) :
    [] ∉ splitWhere (· == '\n') cs := by
  obtain ⟨c, rest, rfl⟩ := List.exists_cons_of_ne_nil hne
  have hc : c ≠ '\n' := fun heq => hfirst (congrArg some heq)
  obtain ⟨piece, pieces, -, hcons⟩ := splitWhere_cons_of_ne hc rest
  intro hmem
  have htail : [] ∈ (splitWhere (· == '\n') (c :: rest)).tail := by
    rw [hcons] at hmem ⊢
    simpa using hmem
  exact (of_nil_mem_tail htail).elim hlast hdouble

end Montage.Text

namespace Montage.Media

open Text (unlines)

theorem dropReturn_eq_self {cs : List Char} (h : cs.getLast? ≠ some '\r') : dropReturn cs = cs :=
  if_neg h

/-- A text's lines are those with a newline behind them, and what stands behind the last newline
unless nothing is left of it. -/
theorem lines_unlines_append {ls : List (List Char)} {last : List Char}
    (h : ∀ line ∈ ls, '\n' ∉ line) (hlast : '\n' ∉ last) :
    lines (unlines ls ++ last) =
      ls.map dropReturn ++ if dropReturn last = [] then [] else [dropReturn last] := by
  unfold lines
  rw [Text.splitWhere_unlines_append h hlast, List.map_append, List.map_singleton]
  simp only [List.getLast?_concat, List.dropLast_concat, Option.some.injEq]
  split
  · rw [List.append_nil]
  · rfl

-- One carriage return is dropped from each line, and only the last line has to hold something.
example : lines "a\r\n\r\r\n\nb\n\r".toList = [['a'], ['\r'], [], ['b']] := by decide

/-- Lines that do not end in a carriage return are found again. -/
theorem lines_unlines {ls : List (List Char)} (h : ∀ line ∈ ls, '\n' ∉ line)
    (hreturn : ∀ line ∈ ls, line.getLast? ≠ some '\r') : lines (unlines ls) = ls := by
  have hmap : ls.map dropReturn = ls := by
    rw [List.map_congr_left fun line hline => dropReturn_eq_self (hreturn line hline), List.map_id']
  have hnil : dropReturn [] = [] := rfl
  have hlines := lines_unlines_append h List.not_mem_nil
  rwa [List.append_nil, hmap, if_pos hnil, List.append_nil] at hlines

end Montage.Media
