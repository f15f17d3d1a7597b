import Mathlib.Data.List.Forall2
import Montage.Proofs.Graph.Labels
import Montage.Proofs.Text.Lines
import Montage.Subtitle.Srt

/-!
# Subtitle files are read back

A subtitle file is cut into blocks at its empty lines.  There is a block for each cue, in order: a
line with its number, a line with its times, and the lines of its text (`blocks_render`).  A time is
read back whatever its hours are (`readStamp?_stampChars`).
-/

namespace Montage.Subtitle

open Text (natOfDigits? padded splitWhere unlines)

/-! ## Numbers and times -/

/-- A number written with exactly so many digits, below a bound. -/
def readPart? (width bound : Nat) (cs : List Char) : Option Nat :=
  if cs.length = width then (natOfDigits? cs).filter (· < bound) else none

/-- Reads a time: hours of any width, minutes and seconds below sixty, milliseconds below a
thousand. -/
def readStamp? (cs : List Char) : Option Nat := do
  let (hours, cs) ← Text.cut ':' cs
  let (minutes, cs) ← Text.cut ':' cs
  let (seconds, millis) ← Text.cut ',' cs
  let hours ← natOfDigits? hours
  let minutes ← readPart? 2 60 minutes
  let seconds ← readPart? 2 60 seconds
  let millis ← readPart? 3 1000 millis
  return ((hours * 60 + minutes) * 60 + seconds) * 1000 + millis

/-- Reads the line with the times: two times with an arrow between them. -/
def readTimes? (line : List Char) : Option (Nat × Nat) :=
  match splitWhere (· == ' ') line with
  | [begins, arrow, ends] =>
    if arrow = ['-', '-', '>'] then
      match readStamp? begins, readStamp? ends with
      | some begins, some ends => some (begins, ends)
      | _, _ => none
    else none
  | _ => none

theorem isDigit_of_mem_padded {c : Char} {width n : Nat} (h : c ∈ padded width n) :
    c.isDigit = true := by
  rcases List.mem_append.1 h with h | h
  · rw [List.eq_of_mem_replicate h]
    rfl
  · exact Nat.isDigit_of_mem_toDigits (by decide) (by decide) h

theorem natOfDigits?_padded (width n : Nat) : natOfDigits? (padded width n) = some n := by
  have hne : padded width n ≠ [] := by
    simp [padded, Nat.toDigits_ne_nil]
  have hall : (padded width n).all Char.isDigit = true :=
    List.all_eq_true.2 fun _ => isDigit_of_mem_padded
  unfold natOfDigits?
  rw [if_pos ⟨hne, hall⟩, padded, Nat.ofDigitChars_append, Nat.ofDigitChars_replicate_zero,
    Nat.mul_zero, Nat.ofDigitChars_ten_toDigits]

theorem length_padded {width n : Nat} (hpos : 0 < width) (h : n < Nat.pow 10 width) :
    (padded width n).length = width := by
  have hle := (Nat.length_toDigits_le_iff (by decide) hpos).2 h
  simp only [padded, List.length_append, List.length_replicate]
  omega

theorem readPart?_padded {width bound n : Nat} (hpos : 0 < width) (h : n < bound)
    (hbound : bound ≤ Nat.pow 10 width) : readPart? width bound (padded width n) = some n := by
  unfold readPart?
  rw [if_pos (length_padded hpos (Nat.lt_of_lt_of_le h hbound)), natOfDigits?_padded]
  simp [h]

theorem not_mem_padded {c : Char} (hc : c.isDigit = false) (width n : Nat) :
    c ∉ padded width n := by
  intro h
  rw [isDigit_of_mem_padded h] at hc
  exact Bool.noConfusion hc

theorem cut_padded {sep : Char} (hsep : sep.isDigit = false) (width n : Nat) (more : List Char) :
    Text.cut sep (padded width n ++ sep :: more) = some (padded width n, more) :=
  Text.cut_append (not_mem_padded hsep width n) more

/-- A time is hours, minutes, seconds and milliseconds. -/
theorem parts_eq (millis : Nat) :
    ((millis / 3600000 * 60 + millis % 3600000 / 60000) * 60 + millis % 60000 / 1000) * 1000 +
      millis % 1000 = millis := by
  omega

theorem readStamp?_stampChars (millis : Nat) : readStamp? (stampChars millis) = some millis := by
  have hminutes : millis % 3600000 / 60000 < 60 := by omega
  have hseconds : millis % 60000 / 1000 < 60 := by omega
  have hmillis : millis % 1000 < 1000 := by omega
  unfold readStamp? stampChars
  simp only [List.append_assoc, List.cons_append]
  rw [cut_padded (by decide)]
  simp only [Option.bind_eq_bind, Option.bind_some]
  rw [cut_padded (by decide)]
  simp only [Option.bind_some]
  rw [cut_padded (by decide)]
  simp only [Option.bind_some, natOfDigits?_padded]
  rw [readPart?_padded (by decide) hminutes (by decide),
    readPart?_padded (by decide) hseconds (by decide),
    readPart?_padded (by decide) hmillis (by decide)]
  exact congrArg some (parts_eq millis)

theorem mem_stampChars {c : Char} {millis : Nat} (h : c ∈ stampChars millis) :
    c.isDigit = true ∨ c = ':' ∨ c = ',' := by
  simp only [stampChars, List.append_assoc, List.cons_append, List.mem_append, List.mem_cons] at h
  rcases h with h | rfl | h | rfl | h | rfl | h
  all_goals first
    | exact Or.inl (isDigit_of_mem_padded h)
    | simp

/-! ## Blocks -/

/-- The lines of a text in blocks, with empty lines between them. -/
def blocks (cs : List Char) : List (List (List Char)) :=
  ((splitWhere (· == '\n') cs).splitOnP (·.isEmpty)).filter (!·.isEmpty)

/-- There is something in a text, and no line of it is empty: newlines stand neither at its ends nor
side by side. -/
structure Solid (text : String) : Prop where
  ne_empty : text.toList ≠ []
  first : text.toList.head? ≠ some '\n'
  last : text.toList.getLast? ≠ some '\n'
  apart : ¬ ['\n', '\n'] <:+: text.toList

/-- A block is for a cue: a line with its number, a line that its times are read from, where a time
before zero counts as zero, and then the lines of its text. -/
structure Tells (block : List (List Char)) (number : Nat) (cue : Cue) : Prop where
  number_line : block[0]? = some (toString number).toList
  times_line : block[1]?.bind readTimes? =
    some ((max cue.beginTime.toInt 0).toNat, (max cue.endTime.toInt 0).toNat)
  text_lines : ['\n'].intercalate (block.drop 2) = cue.text.toList

/-- The line with a cue's times. -/
def timesLine (cue : Cue) : List Char :=
  stampChars cue.beginTime.toInt.toNat ++
    ' ' :: (['-', '-', '>'] ++ ' ' :: stampChars cue.endTime.toInt.toNat)

/-- The lines of a cue. -/
def blockOf (cue : Cue) (number : Nat) : List (List Char) :=
  (toString number).toList :: timesLine cue :: splitWhere (· == '\n') cue.text.toList

theorem readTimes?_timesLine (cue : Cue) :
    readTimes? (timesLine cue) = some (cue.beginTime.toInt.toNat, cue.endTime.toInt.toNat) := by
  have hplain (millis : Nat) : ∀ c ∈ stampChars millis, (c == ' ') = false := by
    intro c hc
    rcases mem_stampChars hc with h | rfl | rfl
    · refine beq_eq_false_iff_ne.2 fun heq => ?_
      rw [heq] at h
      exact absurd h (by decide)
    · rfl
    · rfl
  have hsplit : splitWhere (· == ' ') (timesLine cue) =
      [stampChars cue.beginTime.toInt.toNat, ['-', '-', '>'],
        stampChars cue.endTime.toInt.toNat] := by
    rw [Text.splitWhere_eq_splitOnP, timesLine,
      List.splitOnP_append_cons_of_forall_mem (hplain _) ' ' (by decide),
      List.splitOnP_append_cons_of_forall_mem (by decide) ' ' (by decide),
      List.splitOnP_eq_singleton (hplain _)]
  unfold readTimes?
  rw [hsplit]
  simp only [readStamp?_stampChars, if_true]

theorem tells_blockOf (cue : Cue) (number : Nat) : Tells (blockOf cue number) number cue where
  number_line := rfl
  times_line := by
    have hmax (t : Int) : (max t 0).toNat = t.toNat := by omega
    rw [hmax, hmax]
    exact readTimes?_timesLine cue
  text_lines := Text.intercalate_splitWhere _

theorem toList_renderCue (number : Nat) (cue : Cue) :
    (renderCue number cue).toList = unlines (blockOf cue number ++ [[]]) := by
  rw [Text.unlines_append, blockOf, Text.unlines_cons, Text.unlines_cons, Text.unlines_splitWhere]
  simp only [renderCue, stamp, timesLine, String.toList_append, String.toList_ofList,
    List.append_assoc, List.cons_append]
  rfl

theorem toList_renderFrom (number : Nat) (cues : List Cue) :
    (renderFrom number cues).toList =
      unlines (((cues.zipIdx number).map fun cue => blockOf cue.1 cue.2).flatMap (· ++ [[]])) := by
  induction cues generalizing number with
  | nil => rfl
  | cons cue rest ih =>
    rw [renderFrom, String.toList_append, toList_renderCue, ih, List.zipIdx_cons, List.map_cons,
      List.flatMap_cons, Text.unlines_append (blockOf cue number ++ [[]])]

/-- Lines that are put together from blocks without empty lines are cut into the same blocks. -/
theorem blocks_unlines {pieces : List (List (List Char))} (hne : ∀ piece ∈ pieces, piece ≠ [])
    (hsolid : ∀ piece ∈ pieces, [] ∉ piece)
    (hline : ∀ piece ∈ pieces, ∀ line ∈ piece, '\n' ∉ line) :
    blocks (unlines (pieces.flatMap (· ++ [[]]))) = pieces := by
  have hlines : ∀ line ∈ pieces.flatMap (· ++ [[]]), '\n' ∉ line := by
    intro line h
    obtain ⟨piece, hpiece, h⟩ := List.mem_flatMap.1 h
    rcases List.mem_append.1 h with h | h
    · exact hline piece hpiece line h
    · rw [List.mem_singleton.1 h]
      exact List.not_mem_nil
  have hfull : ∀ piece ∈ pieces, ∀ line ∈ piece, line.isEmpty = false := by
    intro piece hpiece line h
    refine List.isEmpty_eq_false_iff.2 fun heq => ?_
    exact hsolid piece hpiece (heq ▸ h)
  have hkept : pieces.filter (!·.isEmpty) = pieces :=
    List.filter_eq_self.2 fun piece hpiece => by simpa using hne piece hpiece
  unfold blocks
  rw [Text.splitWhere_unlines hlines, Text.splitOnP_flatMap_append rfl hfull, List.filter_append,
    hkept]
  exact List.append_nil pieces

theorem nil_not_mem_blockOf {cue : Cue} (h : Solid cue.text) (number : Nat) :
    [] ∉ blockOf cue number := by
  have htext := Text.nil_not_mem_splitWhere h.ne_empty h.first h.last h.apart
  have htimes : timesLine cue ≠ [] := by
    simp [timesLine]
  simp only [blockOf, List.mem_cons, not_or]
  exact ⟨(Text.toString_ne_nil number).symm, htimes.symm, htext⟩

theorem newline_not_mem_blockOf {cue : Cue} {number : Nat} {line : List Char}
    (h : line ∈ blockOf cue number) : '\n' ∉ line := by
  intro hmem
  rcases List.mem_cons.1 h with rfl | h
  · exact absurd (Text.isDigit_of_mem_toString hmem) (by decide)
  · rcases List.mem_cons.1 h with rfl | h
    · have hstamp (millis : Nat) : '\n' ∉ stampChars millis := fun h =>
        absurd (mem_stampChars h) (by decide)
      simp [timesLine, hstamp] at hmem
    · exact Text.newline_not_mem_line h hmem

/-- A subtitle file is read back.  It has one block for each cue, in order: the cue's number counted
from one, its times, and the lines of its text. -/
theorem blocks_render (cues : List Cue) (h : ∀ cue ∈ cues, Solid cue.text) :
    List.Forall₂ (fun block cue => Tells block cue.2 cue.1) (blocks (render cues).toList)
      (cues.zipIdx 1) := by
  have hsolid : ∀ piece ∈ (cues.zipIdx 1).map fun cue => blockOf cue.1 cue.2, [] ∉ piece := by
    intro piece hpiece
    obtain ⟨cue, hcue, rfl⟩ := List.mem_map.1 hpiece
    exact nil_not_mem_blockOf (h cue.1 (List.fst_mem_of_mem_zipIdx hcue)) cue.2
  have hread : blocks (render cues).toList =
      (cues.zipIdx 1).map fun cue => blockOf cue.1 cue.2 := by
    rw [render, toList_renderFrom]
    refine blocks_unlines ?_ hsolid ?_
    · intro piece hpiece
      obtain ⟨cue, -, rfl⟩ := List.mem_map.1 hpiece
      exact List.cons_ne_nil _ _
    · intro piece hpiece line hline
      obtain ⟨cue, -, rfl⟩ := List.mem_map.1 hpiece
      exact newline_not_mem_blockOf hline
  rw [hread, List.forall₂_map_left_iff]
  exact List.forall₂_same.2 fun cue _ => tells_blockOf cue.1 cue.2

/-- A cue that begins before zero and has two lines, and one that ends after a hundred hours. -/
def longCues : List Cue :=
  [{ beginTime := -40, endTime := 1500, text := "hello\nthere" },
    { beginTime := 1500, endTime := 363723004, text := "1" }]

theorem blocks_render_longCues :
    List.Forall₂ (fun block cue => Tells block cue.2 cue.1) (blocks (render longCues).toList)
      (longCues.zipIdx 1) := by
  refine blocks_render longCues fun cue hcue => ?_
  rcases List.mem_pair.1 hcue with rfl | rfl
  · exact ⟨by decide +kernel, by decide +kernel, by decide +kernel, by decide +kernel⟩
  · exact ⟨by decide +kernel, by decide +kernel, by decide +kernel, by decide +kernel⟩

end Montage.Subtitle
