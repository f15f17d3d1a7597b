import Montage.Proofs.Graph.Labels
import Montage.Proofs.Path.Components

/-!
# Names made of numbers

The files of a unit have names of one form: a word, some numbers with a dash in front of each, and
an ending.  `FileName` holds the parts; they can be told from the name (`FileName.chars_inj`), which
is one component of a path (`FileName.isName`).  Numbers behind separators can be told apart in
general (`Text.separated_append_inj`).
-/

namespace Montage

/-! ## Numbers in a text -/

namespace Text

/-- Numbers, each with a separator in front. -/
def separated (sep : Char) (numbers : List Nat) : List Char :=
  numbers.flatMap fun n => sep :: (toString n).toList

theorem separated_cons (sep : Char) (n : Nat) (rest : List Nat) :
    separated sep (n :: rest) = sep :: (toString n).toList ++ separated sep rest := rfl

/-- No number goes on in the text. -/
def EndsNumber (cs : List Char) : Prop := ∀ c ∈ cs.head?, c.isDigit = false

/-- A number is as long as its digits go. -/
theorem toString_append_inj {n m : Nat} {cs cs' : List Char} (hcs : EndsNumber cs)
    (hcs' : EndsNumber cs') (h : (toString n).toList ++ cs = (toString m).toList ++ cs') :
    n = m ∧ cs = cs' := by
  have htake {k : Nat} {tail : List Char} (htail : EndsNumber tail) :
      ((toString k).toList ++ tail).takeWhile Char.isDigit = (toString k).toList := by
    rw [List.takeWhile_append_of_pos fun c hc => isDigit_of_mem_toString hc]
    cases tail with
    | nil => simp
    | cons c rest => simp [htail c rfl]
  have hdigits := congrArg (List.takeWhile Char.isDigit) h
  rw [htake hcs, htake hcs'] at hdigits
  rw [hdigits] at h
  exact ⟨toString_inj hdigits, List.append_cancel_left h⟩

/-- The text goes on with neither a separator nor a digit. -/
def EndsNumbers (sep : Char) (cs : List Char) : Prop := ∀ c ∈ cs.head?, c ≠ sep ∧ c.isDigit = false

theorem endsNumber_separated_append {sep : Char} (hsep : sep.isDigit = false) (numbers : List Nat)
    {tail : List Char} (htail : EndsNumbers sep tail) :
    EndsNumber (separated sep numbers ++ tail) := by
  intro c hc
  cases numbers with
  | nil => exact (htail c hc).2
  | cons n rest =>
    obtain rfl : sep = c := by simpa [separated_cons] using hc
    exact hsep

/-- Numbers behind separators, and what follows them, can be told from the text. -/
theorem separated_append_inj {sep : Char} (hsep : sep.isDigit = false) {numbers numbers' : List Nat}
    {tail tail' : List Char} (htail : EndsNumbers sep tail) (htail' : EndsNumbers sep tail')
    (h : separated sep numbers ++ tail = separated sep numbers' ++ tail') :
    numbers = numbers' ∧ tail = tail' := by
  induction numbers generalizing numbers' with
  | nil =>
    cases numbers' with
    | nil => exact ⟨rfl, h⟩
    | cons m rest' =>
      subst h
      exact absurd rfl (htail sep rfl).1
  | cons n rest ih =>
    cases numbers' with
    | nil =>
      subst h
      exact absurd rfl (htail' sep rfl).1
    | cons m rest' =>
      simp only [separated_cons, List.cons_append, List.append_assoc, List.cons.injEq,
        true_and] at h
      obtain ⟨rfl, hrest⟩ := toString_append_inj (endsNumber_separated_append hsep rest htail)
        (endsNumber_separated_append hsep rest' htail') h
      obtain ⟨rfl, rfl⟩ := ih hrest
      exact ⟨rfl, rfl⟩

theorem separated_inj {sep : Char} (hsep : sep.isDigit = false) {numbers numbers' : List Nat}
    (h : separated sep numbers = separated sep numbers') : numbers = numbers' := by
  have hnil : EndsNumbers sep [] := fun c hc => by simp at hc
  exact (separated_append_inj hsep hnil hnil (by rw [h])).1

end Text

/-! ## Names of files -/

/-- The parts of a name: a word, numbers with a dash in front of each, and an ending. -/
structure FileName where
  word : String
  numbers : List Nat
  ending : String
  word_ne : word.toList ≠ [] := by decide
  word_plain : '-' ∉ word.toList ∧ '.' ∉ word.toList ∧ '/' ∉ word.toList := by decide
  ending_dot : ending.toList = [] ∨ ending.toList.head? = some '.' := by decide
  ending_plain : '/' ∉ ending.toList := by decide

namespace FileName

/-- The characters of the name. -/
def chars (x : FileName) : List Char :=
  x.word.toList ++ Text.separated '-' x.numbers ++ x.ending.toList

theorem isName (x : FileName) : Path.IsName x.chars := by
  obtain ⟨c, rest, hword⟩ := List.exists_cons_of_ne_nil x.word_ne
  have hchars : x.chars = c :: (rest ++ Text.separated '-' x.numbers ++ x.ending.toList) := by
    rw [chars, hword]
    rfl
  refine ⟨by simp [hchars], fun h => ?_, fun h => ?_⟩
  · rw [hchars] at h
    exact x.word_plain.2.1 (by simp [hword, (List.cons.inj h).1])
  · rw [chars, List.mem_append, List.mem_append] at h
    rcases h with (h | h) | h
    · exact x.word_plain.2.2 h
    · obtain ⟨n, -, hn⟩ := List.mem_flatMap.1 h
      rcases List.mem_cons.1 hn with hn | hn
      · exact absurd hn (by decide)
      · exact absurd (Text.isDigit_of_mem_toString hn) (by decide)
    · exact x.ending_plain h

theorem endsNumbers_ending (x : FileName) : Text.EndsNumbers '-' x.ending.toList := by
  intro c hc
  rcases x.ending_dot with h | h
  · simp [h] at hc
  · obtain rfl : '.' = c := by simpa [h] using hc
    decide

/-- The word is what stands in front of the first dash or dot. -/
theorem takeWhile_chars (x : FileName) :
    x.chars.takeWhile (fun c => c ≠ '-' ∧ c ≠ '.') = x.word.toList := by
  have hword : ∀ c ∈ x.word.toList, decide (c ≠ '-' ∧ c ≠ '.') = true := by
    intro c hc
    refine decide_eq_true ⟨?_, ?_⟩
    · rintro rfl
      exact x.word_plain.1 hc
    · rintro rfl
      exact x.word_plain.2.1 hc
  rw [chars, List.append_assoc, List.takeWhile_append_of_pos hword]
  cases x.numbers with
  | nil =>
    rcases x.ending_dot with h | h
    · simp [Text.separated, h]
    · obtain ⟨rest, hrest⟩ := List.head?_eq_some_iff.1 h
      simp [Text.separated, hrest]
  | cons n rest => simp [Text.separated_cons]

/-- The parts can be told from the name. -/
theorem chars_inj {x y : FileName} (h : x.chars = y.chars) : x = y := by
  have hword : x.word.toList = y.word.toList := by
    rw [← takeWhile_chars, h, takeWhile_chars]
  have hrest : Text.separated '-' x.numbers ++ x.ending.toList =
      Text.separated '-' y.numbers ++ y.ending.toList := by
    rw [chars, chars, hword, List.append_assoc, List.append_assoc] at h
    exact List.append_cancel_left h
  obtain ⟨hnumbers, hending⟩ :=
    Text.separated_append_inj rfl x.endsNumbers_ending y.endsNumbers_ending hrest
  cases x
  cases y
  cases String.toList_inj.1 hword
  cases hnumbers
  cases String.toList_inj.1 hending
  rfl

/-! ## The files of a unit -/

def scene (index : Nat) : FileName := { word := "scene", numbers := [index], ending := ".mp4" }

def subtitles (index : Nat) : FileName :=
  { word := "subtitle", numbers := [index], ending := ".srt" }

def manifest : FileName := { word := "scenes", numbers := [], ending := ".txt" }

/-- The directory of the composition at a node of a scene. -/
def directory (slot : Nat × Nat) : FileName :=
  { word := "composition", numbers := [slot.1, slot.2], ending := "" }

/-- The file that the composition becomes. -/
def video (slot : Nat × Nat) : FileName :=
  { word := "composition", numbers := [slot.1, slot.2], ending := ".mp4" }

end FileName

end Montage
