import Mathlib.Data.List.DropRight
import Montage.Media.Report
import Montage.Proofs.Text.Bytes
import Montage.Proofs.Text.Lines
import Montage.Render.Error

/-!
# The last lines of an output

An output whose bytes are a text hands out the lines of that text, wherever its pieces end
(`Output.next?_of_line`, `Output.next?_of_last`).  What is kept are the last of the lines read so
far (`Tail.Recalls`): each line leaves it so (`Recalls.push`), and therefore the whole reading
(`Recalls.collect`).  So nothing that a report of the output tells is out of order, and it ends with
the newest line (`tailOf_lastLines`).
-/

namespace Montage.Media

open Text (encoded unlines)

/-! ## Lines of a text, from its bytes -/

namespace Output

variable {o : Output}

theorem newline_mem_encoded_iff {cs : List Char} : newline ∈ encoded cs ↔ '\n' ∈ cs :=
  Text.toUInt8_mem_encoded_iff (c := '\n') (by decide)

theorem bare_encoded (cs : List Char) : bare (encoded cs) = encoded (dropReturn cs) := by
  have hlast : (encoded cs).getLast? = some carriageReturn ↔ cs.getLast? = some '\r' :=
    Text.getLast?_encoded_eq_some_iff (c := '\r') (by decide)
  unfold bare dropReturn
  by_cases hreturn : cs.getLast? = some '\r'
  · rw [if_pos hreturn, if_pos (hlast.2 hreturn)]
    obtain ⟨front, rfl⟩ := List.getLast?_eq_some_iff.1 hreturn
    have hbyte : String.utf8EncodeChar '\r' = [carriageReturn] := by decide
    rw [Text.encoded_concat, hbyte, List.dropLast_concat, List.dropLast_concat]
  · rw [if_neg hreturn, if_neg (mt hlast.1 hreturn)]

theorem text?_encoded (cs : List Char) :
    text? (encoded cs) = some (String.ofList (dropReturn cs)) := by
  unfold text?
  rw [bare_encoded, Text.fromUTF8?_encoded]

theorem next?_of_line {line more : List Char} (ho : o.rest = encoded (line ++ '\n' :: more))
    (hline : '\n' ∉ line) :
    ∃ later, o.next? = some (some (String.ofList (dropReturn line)), later) ∧
      later.rest = encoded more := by
  have hrest : o.rest = encoded line ++ newline :: encoded more := by
    rw [ho, Text.encoded_append]
    rfl
  rw [← text?_encoded]
  exact next?_of_newline hrest (mt newline_mem_encoded_iff.1 hline)

theorem next?_of_last {last : List Char} (ho : o.rest = encoded last) (hlast : '\n' ∉ last) :
    o.next? = if dropReturn last = [] then none
      else some (some (String.ofList (dropReturn last)), ⟨[], []⟩) := by
  have hnewline : newline ∉ o.rest := by
    rw [ho]
    exact mt newline_mem_encoded_iff.1 hlast
  rw [next?_of_not_mem hnewline, ho, bare_encoded, text?_encoded]
  simp only [Text.encoded_eq_nil_iff]

end Output

/-! ## What is kept -/

namespace Tail

variable {t : Tail} {o later : Output} {seen : List String} {line : String}

/-- What is kept are the last of the lines seen. -/
def Recalls (t : Tail) (seen : List String) : Prop := t.kept = seen.rtake tailLength

theorem recalls_empty : empty.Recalls [] := rfl

theorem kept_push (t : Tail) (line : String) :
    (t.push line).kept =
      (if t.kept.length = tailLength then t.kept.tail else t.kept) ++ [line] := rfl

theorem Recalls.push (h : t.Recalls seen) (line : String) :
    (t.push line).Recalls (seen ++ [line]) := by
  unfold Recalls at h ⊢
  have hpos : 0 < tailLength := by decide
  -- With room made for the line, what is left of those seen before is one less than fits.
  have hroom : (if t.kept.length = tailLength then t.kept.tail else t.kept) =
      seen.rtake (tailLength - 1) := by
    rw [h]
    unfold List.rtake
    rw [List.length_drop]
    split
    · rw [List.tail_drop]
      congr 1
      omega
    · congr 1
      omega
  rw [kept_push, hroom]
  exact (List.rtake_concat_succ seen (tailLength - 1) line).symm

theorem collect_of_line (h : o.next? = some (some line, later)) :
    t.collect o = (t.push line).collect later := by
  rw [collect]
  split
  · next hnext =>
    rw [h, Option.some.injEq, Prod.mk.injEq, Option.some.injEq] at hnext
    rw [hnext.1, hnext.2]
  · next hnext => exact absurd h (hnext _ _)

theorem collect_of_end (h : o.next? = none) : t.collect o = t := by
  rw [collect]
  split
  · next hnext =>
    rw [h] at hnext
    cases hnext
  · rfl

/-- Reading the bytes of a text adds its lines to those seen. -/
theorem Recalls.collect {ls : List (List Char)} {last : List Char} (ht : t.Recalls seen)
    (hls : ∀ line ∈ ls, '\n' ∉ line) (hlast : '\n' ∉ last)
    (ho : o.rest = encoded (unlines ls ++ last)) :
    (t.collect o).Recalls (seen ++ (lines (unlines ls ++ last)).map String.ofList) := by
  rw [lines_unlines_append hls hlast]
  induction ls generalizing t o seen with
  | nil =>
    have ho : o.rest = encoded last := ho
    have hnext := Output.next?_of_last ho hlast
    by_cases hempty : dropReturn last = []
    · rw [if_pos hempty] at hnext
      rw [collect_of_end hnext, if_pos hempty]
      simpa using ht
    · rw [if_neg hempty] at hnext
      rw [collect_of_line hnext, collect_of_end rfl, if_neg hempty]
      exact ht.push _
  | cons line ls ih =>
    obtain ⟨hline, hls⟩ := List.forall_mem_cons.1 hls
    rw [Text.unlines_cons, List.append_assoc, List.cons_append] at ho
    obtain ⟨later, hnext, hlater⟩ := Output.next?_of_line ho hline
    have hrecalls := ih (ht.push (String.ofList (dropReturn line))) hls hlater
    rw [List.append_assoc] at hrecalls
    rw [collect_of_line hnext]
    exact hrecalls

end Tail

theorem exists_intercalate_concat (sep : String) (front : List String) (last : String) :
    ∃ text, sep.intercalate (front ++ [last]) = text ++ last := by
  by_cases hfront : front = []
  · exact ⟨"", by simp [hfront]⟩
  · rw [String.intercalate_append_of_ne_nil hfront (List.cons_ne_nil _ _)]
    exact ⟨sep.intercalate front ++ sep, by simp⟩

section TailOf

variable {s : String} {pieces : List (List UInt8)}

theorem tailOf_eq (h : pieces.flatten = bytes s) :
    tailOf pieces = "\n".intercalate (((lines s.toList).rtake tailLength).map String.ofList) := by
  obtain ⟨ls, last, hls, hlast, hs⟩ := Text.exists_unlines_append s.toList
  have hbytes : (⟨[], pieces⟩ : Output).rest = encoded (unlines ls ++ last) := by
    rw [← hs, Text.encoded_toList, Output.rest, h]
    rfl
  have hkept := Tail.recalls_empty.collect hls hlast hbytes
  rw [← hs, List.nil_append] at hkept
  rw [tailOf, Tail.text, hkept, List.rtake, List.length_map, ← List.map_drop]
  rfl

theorem exists_tailOf_eq_append (h : pieces.flatten = bytes s) {newest : List Char}
    (hnewest : (lines s.toList).getLast? = some newest) :
    ∃ front, tailOf pieces = front ++ String.ofList newest := by
  obtain ⟨others, hlines⟩ := List.getLast?_eq_some_iff.1 hnewest
  have hkept : (lines s.toList).rtake tailLength = others.rtake (tailLength - 1) ++ [newest] := by
    rw [hlines]
    exact List.rtake_concat_succ others (tailLength - 1) newest
  rw [tailOf_eq h, hkept, List.map_append, List.map_singleton]
  exact exists_intercalate_concat ..

/-- Wherever the pieces of a text's bytes end, what is kept of it are its last lines: forty or as
many as there are, in their order and joined by newlines.  So the report of a failed tool ends with
the newest line that the tool printed. -/
theorem tailOf_lastLines (h : pieces.flatten = bytes s) :
    ∃ earlier kept : List (List Char),
      lines s.toList = earlier ++ kept ∧
      kept.length = min 40 (lines s.toList).length ∧
      tailOf pieces = "\n".intercalate (kept.map String.ofList) ∧
      ∀ newest ∈ (lines s.toList).getLast?, ∀ (what : String) (code : Option Int) (stdout : String),
        ∃ front, (RenderError.toolFailed what code stdout (tailOf pieces)).report =
          front ++ String.ofList newest := by
  refine ⟨(lines s.toList).take ((lines s.toList).length - tailLength),
    (lines s.toList).rtake tailLength, (List.take_append_drop _ _).symm, ?_, tailOf_eq h, ?_⟩
  · rw [List.rtake, List.length_drop]
    unfold tailLength
    omega
  · intro newest hnewest what code stdout
    obtain ⟨front, hfront⟩ := exists_tailOf_eq_append h hnewest
    rw [hfront, RenderError.report]
    exact ⟨_, (String.append_assoc ..).symm⟩

end TailOf

/-- An output of 42 lines.  Its last pieces end within a character and behind a carriage return. -/
def cutOutput : List (List UInt8) := List.replicate 41 [120, 13, 10] ++ [[195], [169, 13]]

theorem tailOf_lastLines_cutOutput :
    let s := String.ofList ((List.replicate 41 ['x', '\r', '\n']).flatten ++ ['é', '\r'])
    cutOutput.flatten = bytes s ∧
      ∃ earlier kept : List (List Char),
        lines s.toList = earlier ++ kept ∧
        kept.length = min 40 (lines s.toList).length ∧
        tailOf cutOutput = "\n".intercalate (kept.map String.ofList) ∧
        ∀ newest ∈ (lines s.toList).getLast?, ∀ (what : String) (code : Option Int)
          (stdout : String), ∃ front,
            (RenderError.toolFailed what code stdout (tailOf cutOutput)).report =
              front ++ String.ofList newest := by
  intro s
  have h : cutOutput.flatten = bytes s := by decide +kernel
  exact ⟨h, tailOf_lastLines h⟩

-- A piece ends between a carriage return and its newline, another one within a character.
example : tailOf [[97, 13], [10, 195], [169, 13]] = "a\né" := by cbv

end Montage.Media
