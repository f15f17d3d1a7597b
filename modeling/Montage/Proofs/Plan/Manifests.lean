import Montage.Plan.Manifest
import Montage.Proofs.Filter.Reading
import Montage.Proofs.Text.Lines

/-!
# Manifests are read back

Each line of a manifest is the keyword and a path in quotes.  Behind the keyword one pass of a
reader finds the path as it was and leaves nothing over, whatever quotes, backslashes and gaps are
in it (`token_quoted`); so a manifest is read back line by line (`read_render`).
-/

namespace Montage.Manifest

open Montage.Filter (Token token scan quoteChar)

/-- The word in front of each path. -/
def keyword : List Char := ['f', 'i', 'l', 'e', ' ']

/-- A path in quotes. -/
def quoted (path : List Char) : List Char :=
  quoteChar :: (path.flatMap quotedChar ++ [quoteChar])

/-- Reads a line: what the reader finds behind the keyword, and what is left over. -/
def read? (line : List Char) : Option (List Char × List Char) :=
  if keyword.isPrefixOf line then some (token [] (line.drop keyword.length)) else none

/-! ## Quotes -/

/-- Nothing ends a path but the end of its line. -/
theorem ending_nil : Filter.Ending [] := ⟨List.not_mem_nil, List.not_mem_nil⟩

/-- A quote in the path closes the quotes, is read behind a backslash, and opens them again. -/
theorem scan_quotedChar_quote (t : Token) (more : List Char) :
    scan [] .quoted t (quotedChar quoteChar ++ more) =
      scan [] .quoted (t.keep.push quoteChar).keep more := by
  have hclose : scan [] .quoted t (quotedChar quoteChar ++ more) =
      scan [] .plain t.keep ('\\' :: quoteChar :: quoteChar :: more) := by
    unfold quotedChar
    rw [if_pos rfl, List.cons_append, scan, if_pos rfl]
    rfl
  rw [hclose, Filter.scan_escape ending_nil, Filter.scan_open ending_nil]

theorem scan_quotedChar_of_ne {c : Char} (hc : c ≠ quoteChar) (t : Token) (more : List Char) :
    scan [] .quoted t (quotedChar c ++ more) = scan [] .quoted (t.push c) more := by
  unfold quotedChar
  rw [if_neg hc, List.singleton_append, scan, if_neg hc]

/-- Between the quotes the path is read character by character, and all of it stays. -/
theorem scan_quotedChars (path : List Char) (t : Token) :
    ∃ t', scan [] .quoted t (path.flatMap quotedChar ++ [quoteChar]) = (t', []) ∧
      t'.kept = t.text ++ path ∧ t'.loose = [] := by
  induction path generalizing t with
  | nil =>
    refine ⟨t.keep, ?_, ?_, rfl⟩
    · rw [List.flatMap_nil, List.nil_append, scan, if_pos rfl, scan]
    · rw [List.append_nil]
      rfl
  | cons c path ih =>
    rw [List.flatMap_cons, List.append_assoc]
    by_cases hc : c = quoteChar
    · subst hc
      obtain ⟨t', hscan, hkept, hloose⟩ := ih (t.keep.push quoteChar).keep
      refine ⟨t', ?_, ?_, hloose⟩
      · rw [scan_quotedChar_quote, hscan]
      · rw [hkept]
        simp
    · obtain ⟨t', hscan, hkept, hloose⟩ := ih (t.push c)
      refine ⟨t', ?_, ?_, hloose⟩
      · rw [scan_quotedChar_of_ne hc, hscan]
      · rw [hkept]
        simp

/-- A path in quotes is read back, and nothing is left over. -/
theorem token_quoted (path : List Char) : token [] (quoted path) = (path, []) := by
  obtain ⟨t, hscan, hkept, hloose⟩ := scan_quotedChars path {}
  have hstart : (quoted path).dropWhile Filter.isGap = quoted path :=
    List.dropWhile_cons_of_neg (by decide)
  unfold token
  rw [hstart, quoted, Filter.scan_open ending_nil, hscan]
  simp only [Token.value, hkept, hloose]
  exact congrArg (·, []) (List.append_nil _)

/-! ## Lines -/

theorem lineChars_eq (path : List Char) : lineChars path = keyword ++ quoted path ++ ['\n'] := by
  simp [lineChars, keyword, quoted]

theorem toList_render (paths : List String) :
    (render paths).toList = Text.unlines (paths.map fun p => keyword ++ quoted p.toList) := by
  unfold render Text.unlines
  rw [String.toList_ofList, List.flatMap_map]
  simp only [lineChars_eq]

theorem newline_not_mem_quoted {path : List Char} (h : '\n' ∉ path) : '\n' ∉ quoted path := by
  have hchar (c : Char) (hc : c ∈ path) : '\n' ∉ quotedChar c := by
    unfold quotedChar
    split
    · decide
    · rw [List.mem_singleton]
      rintro rfl
      exact h hc
  simp only [quoted, List.mem_cons, List.mem_append, List.mem_flatMap, List.not_mem_nil, or_false,
    not_or, not_exists, not_and]
  exact ⟨by decide, hchar, by decide⟩

theorem read?_line (path : List Char) : read? (keyword ++ quoted path) = some (path, []) := by
  unfold read?
  rw [if_pos (by simp), List.drop_left, token_quoted]

/-- The text has a line for each path, in order, and behind the keyword a reader finds the path in
it and nothing left over. -/
def Lists (text : String) (paths : List String) : Prop :=
  ∃ lines, text.toList = Text.unlines lines ∧
    lines.map read? = paths.map fun path => some (path.toList, [])

/-- A manifest of paths without line breaks has a line for each path, in order, and each line is
read back as its path with nothing left over. -/
theorem read_render (paths : List String) (h : ∀ path ∈ paths, '\n' ∉ path.toList) :
    (Media.lines (render paths).toList).map read? =
      paths.map fun path => some (path.toList, []) := by
  have hnewline : ∀ line ∈ paths.map fun p => keyword ++ quoted p.toList, '\n' ∉ line := by
    intro line hline
    obtain ⟨path, hpath, rfl⟩ := List.mem_map.1 hline
    have hkeyword : '\n' ∉ keyword := by decide
    simp [hkeyword, newline_not_mem_quoted (h path hpath)]
  have hreturn : ∀ line ∈ paths.map fun p => keyword ++ quoted p.toList,
      line.getLast? ≠ some '\r' := by
    intro line hline
    obtain ⟨path, -, rfl⟩ := List.mem_map.1 hline
    rw [quoted, ← List.cons_append, ← List.append_assoc, List.getLast?_concat]
    decide
  rw [toList_render, Media.lines_unlines hnewline hreturn, List.map_map]
  exact List.map_congr_left fun path _ => read?_line path.toList

theorem read_render_quotedPaths :
    let paths := ["it's", "'", "''a\\' ", " \\", ""]
    (∀ path ∈ paths, '\n' ∉ path.toList) ∧
      (Media.lines (render paths).toList).map read? =
        paths.map fun path => some (path.toList, []) := by
  intro paths
  have h : ∀ path ∈ paths, '\n' ∉ path.toList := by decide
  exact ⟨h, read_render paths h⟩

end Montage.Manifest
