/-!
# Reading an output by lines

A program writes bytes, and they arrive in pieces that end anywhere, also within a line or a
character.  `Output.next?` takes pieces in until a line is complete and hands out its text.
-/

namespace Montage.Media

def newline : UInt8 := 10

def carriageReturn : UInt8 := 13

/-- An output while it is read: the bytes that have arrived and are not handed out yet, and the
pieces that are still to come. -/
structure Output where
  arrived : List UInt8
  coming : List (List UInt8)
  deriving Repr, DecidableEq

namespace Output

/-- All the bytes that are not handed out yet. -/
def rest (o : Output) : List UInt8 := o.arrived ++ o.coming.flatten

/-- What stands before the first newline and what stands behind it. -/
def cutLine (bytes : List UInt8) : Option (List UInt8 × List UInt8) :=
  match bytes.dropWhile (· != newline) with
  | [] => none
  | _ :: more => some (bytes.takeWhile (· != newline), more)

/-- The bytes of a line without one carriage return at their end. -/
def bare (line : List UInt8) : List UInt8 :=
  if line.getLast? = some carriageReturn then line.dropLast else line

/-- The text of a line, if its bytes are one. -/
def text? (line : List UInt8) : Option String := String.fromUTF8? (bare line).toByteArray

/-- Takes pieces in until a newline has arrived or no piece is left. -/
def fill (arrived : List UInt8) : List (List UInt8) → Output
  | [] => ⟨arrived, []⟩
  | piece :: pieces =>
    if newline ∈ arrived then ⟨arrived, piece :: pieces⟩ else fill (arrived ++ piece) pieces

/-- The text of the next line, if it has one, and the output behind that line.  What stands behind
the last newline is a line as well, unless it is empty. -/
def next? (o : Output) : Option (Option String × Output) :=
  let filled := fill o.arrived o.coming
  match cutLine filled.arrived with
  | some (line, more) => some (text? line, ⟨more, filled.coming⟩)
  | none => if bare filled.arrived = [] then none else some (text? filled.arrived, ⟨[], []⟩)

/-! ## Which line comes next

It depends on the bytes alone, not on the pieces in which they arrive. -/

section Next

variable {bytes line more : List UInt8} {o later : Output} {text : Option String}

theorem bne_newline_of_not_mem (h : newline ∉ line) : ∀ b ∈ line, (b != newline) = true :=
  fun _ hb => bne_iff_ne.2 fun heq => h (heq ▸ hb)

theorem cutLine_append_newline (h : newline ∉ line) (more : List UInt8) :
    cutLine (line ++ newline :: more) = some (line, more) := by
  have hline := bne_newline_of_not_mem h
  unfold cutLine
  rw [List.dropWhile_append_of_pos hline, List.takeWhile_append_of_pos hline]
  simp

theorem cutLine_of_not_mem (h : newline ∉ bytes) : cutLine bytes = none := by
  have hbytes := bne_newline_of_not_mem h
  have hdrop : bytes.dropWhile (· != newline) = [] := by
    rw [← List.append_nil bytes, List.dropWhile_append_of_pos hbytes, List.dropWhile_nil]
  unfold cutLine
  rw [hdrop]

theorem rest_fill (arrived : List UInt8) (pieces : List (List UInt8)) :
    (fill arrived pieces).rest = arrived ++ pieces.flatten := by
  induction pieces generalizing arrived with
  | nil => rfl
  | cons piece pieces ih =>
    unfold fill
    split
    · rfl
    · rw [ih, List.flatten_cons, List.append_assoc]

theorem newline_mem_fill {arrived : List UInt8} {pieces : List (List UInt8)}
    (h : newline ∈ arrived ++ pieces.flatten) : newline ∈ (fill arrived pieces).arrived := by
  induction pieces generalizing arrived with
  | nil => simpa [fill] using h
  | cons piece pieces ih =>
    unfold fill
    split
    · assumption
    · exact ih (by simpa using h)

theorem fill_of_not_mem {arrived : List UInt8} {pieces : List (List UInt8)}
    (h : newline ∉ arrived ++ pieces.flatten) :
    fill arrived pieces = ⟨arrived ++ pieces.flatten, []⟩ := by
  induction pieces generalizing arrived with
  | nil => rw [List.flatten_nil, List.append_nil, fill]
  | cons piece pieces ih =>
    rw [List.flatten_cons, ← List.append_assoc] at h ⊢
    have harrived : newline ∉ arrived := fun hmem => h (by simp [hmem])
    rw [fill, if_neg harrived, ih h]

/-- Where a newline is still to come, the bytes before the first one are the next line. -/
theorem next?_of_newline (hrest : o.rest = line ++ newline :: more) (hline : newline ∉ line) :
    ∃ later, o.next? = some (text? line, later) ∧ later.rest = more := by
  have hfill : (fill o.arrived o.coming).rest = o.rest := rest_fill o.arrived o.coming
  have hmem : newline ∈ o.arrived ++ o.coming.flatten := by
    rw [← rest, hrest]
    simp
  obtain ⟨first, others, harrived, hfirst⟩ :=
    List.eq_append_cons_of_mem (newline_mem_fill hmem)
  have hnext := cutLine_append_newline hfirst others
  -- The pieces to come are behind the first newline, so all the bytes are cut at the same place.
  have hall := cutLine_append_newline hfirst (others ++ (fill o.arrived o.coming).coming.flatten)
  rw [← List.cons_append, ← List.append_assoc, ← harrived, ← rest, hfill, hrest,
    cutLine_append_newline hline, Option.some.injEq, Prod.mk.injEq] at hall
  obtain ⟨rfl, rfl⟩ := hall
  refine ⟨⟨others, (fill o.arrived o.coming).coming⟩, ?_, rfl⟩
  unfold next?
  simp only [harrived, hnext]

/-- Where no newline is to come, the bytes left are the last line, unless they are an empty one. -/
theorem next?_of_not_mem (h : newline ∉ o.rest) :
    o.next? = if bare o.rest = [] then none else some (text? o.rest, ⟨[], []⟩) := by
  have hfill : fill o.arrived o.coming = ⟨o.rest, []⟩ := fill_of_not_mem h
  unfold next?
  simp only [hfill, cutLine_of_not_mem h]

theorem length_rest_next? (h : o.next? = some (text, later)) :
    later.rest.length < o.rest.length := by
  by_cases hmem : newline ∈ o.rest
  · obtain ⟨line, more, hrest, hline⟩ := List.eq_append_cons_of_mem hmem
    obtain ⟨next, hnext, hmore⟩ := next?_of_newline hrest hline
    rw [h, Option.some.injEq, Prod.mk.injEq] at hnext
    rw [hnext.2, hmore, hrest, List.length_append, List.length_cons]
    omega
  · rw [next?_of_not_mem hmem] at h
    split at h
    · cases h
    · next hbare =>
      cases h
      refine List.length_pos_iff.2 fun hnil => hbare ?_
      rw [hnil]
      rfl

end Next

end Output

end Montage.Media
