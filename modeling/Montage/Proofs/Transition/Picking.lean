import Montage.Proofs.Plan.Segments

/-!
# What names resolve to

A random name resolves to the next pick of the seed's stream (`pick`), every other name to what it
is looked up as, which leaves the stream alone.  So what the random names of a list resolve to
depends on the seed and on how many of them there are, whatever stands between them
(`resolveAll_picks`).

An index into the catalogue is sampled from one word or from two (`sampled`).  The carry that the
second word may bring never moves it to the end of the catalogue (`sampled_lt`).
-/

namespace Montage.Transition

/-! ## Looking up -/

/-- What a name is found as: the entry of the catalogue with its letters, or else the error with the
name as it is written. -/
def Finds (name : String) : Except CompileError String → Prop
  | .ok entry => entry ∈ catalogue ∧ Text.sameLetters entry name = true
  | .error e => e = .unknownTransition name ∧
      ∀ entry ∈ catalogue, ¬ Text.sameLetters entry name = true

theorem finds_lookup (name : String) : Finds name (lookup name) := by
  unfold lookup
  split
  · next entry hfind =>
    have hsame := List.find?_some hfind
    exact ⟨List.mem_of_find?_eq_some hfind, hsame⟩
  · next hfind => exact ⟨rfl, fun entry hentry => List.find?_eq_none.1 hfind entry hentry⟩

theorem lower_eq_of_mem_catalogue : ∀ entry ∈ catalogue, Text.lower entry = entry := by
  decide +kernel

/-- A name is found as one thing only. -/
theorem eq_lookup_of_finds {name : String} {result : Except CompileError String}
    (h : Finds name result) : result = lookup name := by
  have hlookup := finds_lookup name
  cases result with
  | ok entry =>
    rcases hfound : lookup name with e | entry' <;> rw [hfound] at hlookup
    · exact absurd h.2 (hlookup.2 entry h.1)
    · have hlower : Text.lower entry = Text.lower entry' :=
        (eq_of_beq h.2).trans (eq_of_beq hlookup.2).symm
      rw [lower_eq_of_mem_catalogue entry h.1, lower_eq_of_mem_catalogue entry' hlookup.1] at hlower
      rw [hlower]
  | error e =>
    rcases hfound : lookup name with e' | entry' <;> rw [hfound] at hlookup
    · rw [h.1, hlookup.1]
    · exact absurd hlookup.2 (h.2 entry' hlookup.1)

theorem finds_iff {name : String} {result : Except CompileError String} :
    Finds name result ↔ result = lookup name := by
  refine ⟨eq_lookup_of_finds, fun h => ?_⟩
  rw [h]
  exact finds_lookup name

namespace Picker

variable {p : Picker} {name : String} {names : List String}

/-! ## Sampling -/

/-- The number below a bound that two words give: the high half of the first one's product with the
bound, and one more where the low half is close to a full word and the high half of the second one's
product makes it one. -/
def sampled (bound : Nat) (w v : UInt32) : Nat :=
  if UInt32.size < low w bound + bound ∧ UInt32.size ≤ low w bound + high v bound then
    high w bound + 1
  else high w bound

theorem sampled_lt {bound : Nat} (hpos : 0 < bound) (w v : UInt32) : sampled bound w v < bound := by
  unfold sampled
  split
  · next h => exact succ_high_lt w h.1
  · exact high_lt w hpos

theorem val_below (p : Picker) {bound : Nat} (hpos : 0 < bound) :
    ((p.below bound hpos).1 : Nat) =
      sampled bound (word p.seed p.position) (word p.seed (p.position + 1)) := by
  unfold below sampled next
  dsimp only
  by_cases hclose : UInt32.size < low (word p.seed p.position) bound + bound
  · rw [dif_pos hclose]
    by_cases hcarry : UInt32.size ≤ low (word p.seed p.position) bound +
        high (word p.seed (p.position + 1)) bound
    · rw [if_pos hcarry, if_pos ⟨hclose, hcarry⟩]
    · rw [if_neg hcarry, if_neg fun h => hcarry h.2]
  · rw [dif_neg hclose, if_neg fun h => hclose h.1]

/-- What is drawn is the entry at the sampled index. -/
theorem getElem?_sampled (p : Picker) :
    catalogue[sampled catalogue.length (word p.seed p.position) (word p.seed (p.position + 1))]? =
      some p.draw.1 := by
  rw [← val_below p (by decide), draw]
  generalize p.below catalogue.length (by decide) = drawn
  exact List.getElem?_eq_getElem drawn.1.2

theorem draw_mem (p : Picker) : p.draw.1 ∈ catalogue := List.mem_of_getElem? (getElem?_sampled p)

/-! ## Drawing from the stream -/

/-- The picker after so many draws. -/
def after (p : Picker) : Nat → Picker
  | 0 => p
  | n + 1 => p.draw.2.after n

/-- A pick of a seed's stream. -/
def pick (seed : UInt64) (n : Nat) : String := (after { seed } n).draw.1

theorem snd_resolve_of_isRandom (h : isRandom name = true) : (p.resolve name).2 = p.draw.2 := by
  rw [resolve, if_pos h]

theorem snd_resolve_of_not_isRandom (h : ¬ isRandom name = true) : (p.resolve name).2 = p := by
  rw [resolve, if_neg h]

/-- What a name resolves to behind the names before it. -/
def resultAfter (p : Picker) (before : List String) (name : String) : Except CompileError String :=
  if isRandom name then .ok (p.after (before.countP isRandom)).draw.1 else lookup name

theorem resultAfter_cons (p : Picker) (first : String) (before : List String) (name : String) :
    (p.resolve first).2.resultAfter before name = p.resultAfter (first :: before) name := by
  unfold resultAfter
  by_cases hfirst : isRandom first = true
  · rw [snd_resolve_of_isRandom hfirst, List.countP_cons_of_pos hfirst, after]
  · rw [snd_resolve_of_not_isRandom hfirst, List.countP_cons_of_neg hfirst]

theorem fst_resolve (p : Picker) (name : String) : (p.resolve name).1 = p.resultAfter [] name := by
  unfold resultAfter
  by_cases h : isRandom name = true
  · rw [resolve_of_isRandom p h, if_pos h, List.countP_nil, after]
  · rw [resolve_of_not_isRandom p h, if_neg h]

theorem getElem?_resolveAll (p : Picker) (names : List String) (i : Nat) :
    (p.resolveAll names)[i]? = names[i]?.map (p.resultAfter (names.take i)) := by
  induction names generalizing p i with
  | nil => rfl
  | cons first rest ih =>
    cases i with
    | zero =>
      rw [resolveAll, List.getElem?_cons_zero, List.getElem?_cons_zero, fst_resolve]
      rfl
    | succ i =>
      rw [resolveAll, List.getElem?_cons_succ, List.getElem?_cons_succ, ih, List.take_succ_cons]
      exact congrArg (fun f => rest[i]?.map f) (funext (resultAfter_cons p first _))

/-- What the random names of a list resolve to, in order. -/
def drawn (p : Picker) (names : List String) : List (Except CompileError String) :=
  ((names.zip (p.resolveAll names)).filter fun x => isRandom x.1).map Prod.snd

theorem drawn_eq (p : Picker) (names : List String) :
    p.drawn names = (List.range (names.countP isRandom)).map fun n => .ok (p.after n).draw.1 := by
  unfold drawn
  induction names generalizing p with
  | nil => rfl
  | cons first rest ih =>
    rw [resolveAll, List.zip_cons_cons]
    by_cases hfirst : isRandom first = true
    · simp only [List.filter_cons, hfirst, if_true, List.map_cons]
      rw [ih, resolve_of_isRandom p hfirst, snd_resolve_of_isRandom hfirst,
        List.countP_cons_of_pos hfirst, List.range_succ_eq_map, List.map_cons, List.map_map]
      simp only [Function.comp_def, after]
    · simp only [List.filter_cons, hfirst, Bool.false_eq_true, if_false]
      rw [ih, snd_resolve_of_not_isRandom hfirst, List.countP_cons_of_neg hfirst]

/-! ## Resolving in order -/

theorem mem_catalogue_of_resolve {entry : String} (h : (p.resolve name).1 = .ok entry) :
    entry ∈ catalogue := by
  by_cases hname : isRandom name = true
  · rw [resolve_of_isRandom p hname, Except.ok.injEq] at h
    exact h ▸ draw_mem p
  · rw [resolve_of_not_isRandom p hname] at h
    have hfinds := finds_lookup name
    rw [h] at hfinds
    exact hfinds.1

theorem mem_catalogue_of_mem_resolveAll {entry : String} (h : .ok entry ∈ p.resolveAll names) :
    entry ∈ catalogue := by
  induction names generalizing p with
  | nil => cases h
  | cons first rest ih =>
    rcases List.mem_cons.1 h with h | h
    · exact mem_catalogue_of_resolve h.symm
    · exact ih h

/-- Names that one picker resolves in order.  A random one gets the pick of the seed's stream behind
as many as there are random names before it, every other one what it is looked up as, and what gets
through is of the catalogue.  Another list with as many random names has the same picks for them.  A
name that is not random leaves the picker as it is and is found as the entry with its letters or not
at all.  An index is sampled within the catalogue, whatever the words are, and the entry there is
drawn. -/
theorem resolveAll_picks (seed : UInt64) (names : List String) :
    (∀ i, (resolveAll { seed } names)[i]? = names[i]?.map fun name =>
      if isRandom name then .ok (pick seed ((names.take i).countP isRandom)) else lookup name) ∧
    (∀ entry, .ok entry ∈ resolveAll { seed } names → entry ∈ catalogue) ∧
    (∀ names', names'.countP isRandom = names.countP isRandom →
      drawn { seed } names' = drawn { seed } names) ∧
    (∀ (p : Picker) (name : String), ¬ isRandom name = true →
      (p.resolve name).2 = p ∧ ∀ result, Finds name result ↔ result = (p.resolve name).1) ∧
    (∀ w v, sampled catalogue.length w v < catalogue.length) ∧
    ∀ p : Picker, catalogue[sampled catalogue.length (word p.seed p.position)
      (word p.seed (p.position + 1))]? = some p.draw.1 := by
  refine ⟨getElem?_resolveAll { seed } names, fun _ => mem_catalogue_of_mem_resolveAll, ?_, ?_,
    sampled_lt (by decide), getElem?_sampled⟩
  · intro names' h
    rw [drawn_eq, drawn_eq, h]
  · intro p name hname
    refine ⟨snd_resolve_of_not_isRandom hname, fun result => ?_⟩
    rw [resolve_of_not_isRandom p hname]
    exact finds_iff

/-- Two random names resolve to the same whatever stands around them, and a known name gives its
entry. -/
theorem resolveAll_picks_mixedNames :
    drawn { seed := 7 } ["Fade", "random", "wobble", "RANDOM"] =
      drawn { seed := 7 } ["random", "random"] ∧
    (resolve { seed := 7 } "Fade").2 = { seed := 7 } ∧
    (resolve { seed := 7 } "Fade").1 = .ok "fade" ∧
    (resolve { seed := 7 } "wobble").1 = .error (.unknownTransition "wobble") := by
  obtain ⟨-, -, hdrawn, hother, -, -⟩ := resolveAll_picks 7 ["random", "random"]
  obtain ⟨hsame, hfade⟩ := hother { seed := 7 } "Fade" (by decide +kernel)
  have hwobble := (hother { seed := 7 } "wobble" (by decide +kernel)).2
  refine ⟨hdrawn _ (by decide +kernel), hsame, ?_, ?_⟩
  · exact ((hfade (.ok "fade")).1 ⟨by decide +kernel, by decide +kernel⟩).symm
  · exact ((hwobble (.error (.unknownTransition "wobble"))).1 ⟨rfl, by decide +kernel⟩).symm

/-- The transitions of a timeline's segments are what one picker resolves the scenes' names to. -/
theorem resolveAll_of_addSegments {τ : Type} {program program' : Program}
    {xs : List (Scene τ × String)} {segments : List Segment}
    (h : Timeline.addSegments p program xs = .ok (segments, program')) :
    p.resolveAll (xs.filterMap fun x => x.1.transition.map (·.name)) =
      segments.map fun s => .ok s.transition := by
  induction xs generalizing p program segments with
  | nil =>
    cases h
    rfl
  | cons x rest ih =>
    obtain ⟨spec, name, others, hspec, hname, hrest, rfl⟩ := Timeline.exists_of_addSegments_cons h
    have hfirst : x.1.transition.map (·.name) = some spec.name := by
      rw [hspec]
      rfl
    simp only [List.filterMap_cons, hfirst, resolveAll, ih hrest, List.map_cons, hname]

end Picker

end Montage.Transition
