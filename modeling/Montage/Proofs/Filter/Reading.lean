import Mathlib.Data.List.Induction
import Montage.Filter.Escape

/-!
# Readers of filters

`token` is one pass of a reader: it goes as far as the first character that ends a value, takes a
backslash off the character behind it, reads what stands between single quotes as it is, and drops
the gaps on both sides, as long as neither quotes nor backslashes keep them.  `options` cuts the
arguments of a filter into options by such passes.

What is escaped for a reader is read back by it (`scan_escapeLevel`, `token_escapeLevel`), and so
are options that are put one behind the other (`options_intercalate`).  A text that is drawn has its
escapes taken off once more, by `unescape`.
-/

namespace Montage.Filter

-- The library also decides `∀ c : Char, p c`, by trying all characters there are.
instance decidableForallMem (p : Char → Prop) [DecidablePred p] (cs : List Char) :
    Decidable (∀ c ∈ cs, p c) :=
  List.decidableBAll p cs

/-- The blanks that a reader passes over in front of a value and drops behind it. -/
def isGap (c : Char) : Bool := c == ' ' || c == '\n' || c == '\t' || c == '\r'

/-- The characters without the gaps at their end. -/
def trimEnd (cs : List Char) : List Char := (cs.reverse.dropWhile isGap).reverse

/-- What was read of a value: what stays in any case, and what came behind it, of which gaps at the
end do not stay. -/
structure Token where
  kept : List Char := []
  loose : List Char := []
  deriving Repr, DecidableEq

namespace Token

/-- All that was read. -/
def text (t : Token) : List Char := t.kept ++ t.loose

def push (t : Token) (c : Char) : Token := { t with loose := t.loose ++ [c] }

/-- From now on all that was read stays. -/
def keep (t : Token) : Token := ⟨t.text, []⟩

/-- What is left of the value once it has ended. -/
def value (t : Token) : List Char := t.kept ++ trimEnd t.loose

@[simp] theorem text_push (t : Token) (c : Char) : (t.push c).text = t.text ++ [c] :=
  (List.append_assoc ..).symm

@[simp] theorem text_keep (t : Token) : t.keep.text = t.text := List.append_nil _

end Token

/-- How the next character is taken. -/
inductive Mode where
  | plain
  /-- There is a backslash in front of it. -/
  | escaped
  /-- A single quote is open. -/
  | quoted
  deriving Repr, DecidableEq

/-- Reads on from some moment; yields what was read, and what stands from the end of the value on.
-/
def scan (ends : List Char) : Mode → Token → List Char → Token × List Char
  | .plain, t, [] => (t, [])
  | .escaped, t, [] | .quoted, t, [] => (t.keep, [])
  | .plain, t, c :: rest =>
    if c ∈ ends then (t, c :: rest)
    else if c = '\\' then scan ends .escaped t rest
    else if c = quoteChar then scan ends .quoted t rest
    else scan ends .plain (t.push c) rest
  | .escaped, t, c :: rest => scan ends .plain (t.push c).keep rest
  | .quoted, t, c :: rest =>
    if c = quoteChar then scan ends .plain t.keep rest
    else scan ends .quoted (t.push c) rest

/-- One pass: a value, and what stands from its end on. -/
def token (ends cs : List Char) : List Char × List Char :=
  let (t, rest) := scan ends .plain {} (cs.dropWhile isGap)
  (t.value, rest)

/-- Takes each backslash off the character behind it; one at the very end is lost. -/
def unescape : List Char → List Char
  | [] => []
  | c :: rest =>
    if c = '\\' then
      match rest with
      | [] => []
      | d :: rest => d :: unescape rest
    else c :: unescape rest

theorem scan_suffix (ends : List Char) (mode : Mode) (t : Token) (cs : List Char) :
    (scan ends mode t cs).2 <:+ cs := by
  induction cs generalizing mode t with
  | nil => cases mode <;> exact List.suffix_rfl
  | cons c rest ih =>
    have hlater (mode : Mode) (t : Token) : (scan ends mode t rest).2 <:+ c :: rest :=
      (ih mode t).trans (List.suffix_cons c rest)
    cases mode with
    | plain =>
      simp only [scan]
      split
      · exact List.suffix_rfl
      · split
        · exact hlater ..
        · split <;> exact hlater ..
    | escaped => exact hlater ..
    | quoted =>
      simp only [scan]
      split <;> exact hlater ..

theorem token_suffix (ends cs : List Char) : (token ends cs).2 <:+ cs :=
  (scan_suffix ..).trans (List.dropWhile_suffix isGap)

/-- The options of a filter, given its arguments.  What ends an option is passed over. -/
def options (cs : List Char) : List (List Char) :=
  match cs with
  | [] => []
  | c :: rest =>
    (token optionEnds (c :: rest)).1 :: options (token optionEnds (c :: rest)).2.tail
termination_by cs.length
decreasing_by
  have hle := (token_suffix optionEnds (c :: rest)).length_le
  rw [List.length_cons] at hle
  rw [List.length_tail, List.length_cons]
  omega

theorem options_eq {cs : List Char} (h : cs ≠ []) :
    options cs = (token optionEnds cs).1 :: options (token optionEnds cs).2.tail := by
  cases cs with
  | nil => exact absurd rfl h
  | cons c rest => rw [options]

/-! ## Gaps -/

theorem trimEnd_append_of_not_isGap {c : Char} (hc : isGap c = false) (before after : List Char) :
    trimEnd (before ++ c :: after) = before ++ c :: trimEnd after := by
  simp only [trimEnd, List.reverse_append, List.reverse_cons, List.append_assoc]
  rw [List.dropWhile_append]
  split
  · next hall =>
    rw [List.isEmpty_iff] at hall
    simp [hall, hc]
  · simp

/-- The characters do not end in a gap. -/
def EndsFirm (cs : List Char) : Prop := ∀ c ∈ cs.getLast?, isGap c = false

theorem endsFirm_concat {c : Char} (hc : isGap c = false) (cs : List Char) :
    EndsFirm (cs ++ [c]) := by
  simpa [EndsFirm] using hc

theorem getLast?_append_of_ne_nil (before : List Char) {after : List Char} (hne : after ≠ []) :
    (before ++ after).getLast? = after.getLast? := by
  rw [List.getLast?_append, List.getLast?_eq_some_getLast hne]
  rfl

theorem endsFirm_nil : EndsFirm [] := fun _ h => by cases h

theorem EndsFirm.append (before : List Char) {after : List Char} (h : EndsFirm after)
    (hne : after ≠ []) : EndsFirm (before ++ after) := by
  rw [EndsFirm, getLast?_append_of_ne_nil before hne]
  exact h

/-- The characters do not start with a gap. -/
def StartsFirm (cs : List Char) : Prop := ∀ c ∈ cs.head?, isGap c = false

theorem StartsFirm.append {cs : List Char} (h : StartsFirm cs) (hne : cs ≠ []) (more : List Char) :
    StartsFirm (cs ++ more) := by
  obtain ⟨c, rest, rfl⟩ := List.exists_cons_of_ne_nil hne
  exact h

theorem startsFirm_intercalate {c : Char} (hc : isGap c = false) {xs : List (List Char)}
    (h : ∀ cs ∈ xs, StartsFirm cs) : StartsFirm ([c].intercalate xs) := by
  cases xs with
  | nil => exact fun _ h => by cases h
  | cons cs xs =>
    have hcs := h cs (List.mem_cons_self ..)
    cases xs with
    | nil => simpa using hcs
    | cons cs' xs =>
      rw [List.intercalate_cons_cons]
      cases cs with
      | nil => simpa [StartsFirm] using hc
      | cons d rest => exact hcs

theorem dropWhile_isGap_eq_self {cs : List Char} (h : StartsFirm cs) : cs.dropWhile isGap = cs := by
  cases cs with
  | nil => rfl
  | cons c rest => simp [h c rfl]

theorem endsFirm_intercalate {sep cs : List Char} (h : EndsFirm cs) (hne : cs ≠ [])
    {xs : List (List Char)} : EndsFirm (sep.intercalate (xs ++ [cs])) := by
  suffices hend : EndsFirm (sep.intercalate (xs ++ [cs])) ∧ sep.intercalate (xs ++ [cs]) ≠ [] from
    hend.1
  induction xs with
  | nil => simpa using ⟨h, hne⟩
  | cons x xs ih =>
    rw [List.cons_append, List.intercalate_cons_of_ne_nil (by simp)]
    exact ⟨EndsFirm.append _ ih.1 ih.2, by simp [ih.2]⟩

theorem trimEnd_append {kept : List Char} (h : EndsFirm kept) (cs : List Char) :
    trimEnd (kept ++ cs) = kept ++ trimEnd cs := by
  rcases List.eq_nil_or_concat kept with rfl | ⟨before, c, rfl⟩
  · rfl
  · have hc : isGap c = false := h c (by simp)
    rw [List.concat_eq_append, List.append_assoc, List.singleton_append,
      trimEnd_append_of_not_isGap hc, List.append_assoc]
    rfl

theorem trimEnd_eq_self_iff {cs : List Char} : trimEnd cs = cs ↔ EndsFirm cs := by
  rcases List.eq_nil_or_concat cs with rfl | ⟨before, c, rfl⟩
  · exact ⟨fun _ => endsFirm_nil, fun _ => rfl⟩
  · rw [List.concat_eq_append]
    cases hc : isGap c with
    | false => exact ⟨fun _ => endsFirm_concat hc before, fun h => by
        rw [trimEnd_append_of_not_isGap hc]
        rfl⟩
    | true =>
      refine ⟨fun h => absurd (congrArg List.length h) ?_, fun h => ?_⟩
      · have hle := (List.dropWhile_suffix (l := before.reverse) isGap).length_le
        simp only [trimEnd, List.reverse_append, List.reverse_singleton, List.singleton_append,
          List.dropWhile_cons, hc, if_true, List.length_reverse, List.length_append,
          List.length_singleton] at hle ⊢
        omega
      · have hfirm := h c (by simp)
        rw [hc] at hfirm
        cases hfirm

theorem endsFirm_trimEnd (cs : List Char) : EndsFirm (trimEnd cs) := by
  intro c hc
  rw [trimEnd, List.getLast?_reverse] at hc
  have hhead := List.head?_dropWhile_not isGap cs.reverse
  rw [hc] at hhead
  simpa using hhead

/-! ## Values -/

namespace Token

variable {t : Token}

theorem value_of_endsFirm_text (h : EndsFirm t.text) : t.value = t.text := by
  have hloose : EndsFirm t.loose := by
    intro c hc
    have hne : t.loose ≠ [] := by
      rintro e
      rw [e] at hc
      cases hc
    exact h c (by rwa [text, getLast?_append_of_ne_nil _ hne])
  rw [value, trimEnd_eq_self_iff.2 hloose]
  rfl

theorem value_of_endsFirm_kept (h : EndsFirm t.kept) : t.value = trimEnd t.text :=
  (trimEnd_append h t.loose).symm

/-- What was read once all characters that are special were kept. -/
def feed (specials : List Char) (t : Token) (cs : List Char) : Token :=
  cs.foldl (fun t c => if isSpecial specials c then (t.push c).keep else t.push c) t

variable {specials : List Char}

theorem text_feed (t : Token) (cs : List Char) : (t.feed specials cs).text = t.text ++ cs := by
  induction cs generalizing t with
  | nil => exact (List.append_nil _).symm
  | cons c rest ih =>
    have hnext : (if isSpecial specials c then (t.push c).keep else t.push c).text =
        t.text ++ [c] := by split <;> simp
    rw [feed, List.foldl_cons, ← feed, ih, hnext, List.append_assoc]
    rfl

theorem endsFirm_feed (hspecials : ∀ c, isSpecial specials c → isGap c = false)
    (h : EndsFirm t.kept) (cs : List Char) : EndsFirm (t.feed specials cs).kept := by
  induction cs generalizing t with
  | nil => exact h
  | cons c rest ih =>
    rw [feed, List.foldl_cons]
    refine ih ?_
    split
    · next hspecial =>
      simp only [keep, text_push]
      exact endsFirm_concat (hspecials c hspecial) _
    · exact h

end Token

/-! ## Reading on -/

variable {ends specials cs : List Char} {t : Token}

theorem isSpecial_of_mem {c : Char} (h : c ∈ specials) : isSpecial specials c = true := by
  simp [isSpecial, h]

theorem not_isSpecial_iff {c : Char} :
    isSpecial specials c = false ↔ c ≠ '\\' ∧ c ≠ quoteChar ∧ c ∉ specials := by
  simp [isSpecial, and_assoc]

/-- The reader takes a backslash and a single quote for what they are. -/
def Ending (ends : List Char) : Prop := '\\' ∉ ends ∧ quoteChar ∉ ends

theorem ending_optionEnds : Ending optionEnds := ⟨by decide, by decide⟩

theorem ending_filterEnds : Ending filterEnds := ⟨by decide, by decide⟩

theorem scan_end {c : Char} (hc : c ∈ ends) (rest : List Char) :
    scan ends .plain t (c :: rest) = (t, c :: rest) := if_pos hc

theorem scan_plain {c : Char} (hends : c ∉ ends) (hspecial : isSpecial specials c = false)
    (rest : List Char) :
    scan ends .plain t (c :: rest) = scan ends .plain (t.push c) rest := by
  obtain ⟨hback, hquote, -⟩ := not_isSpecial_iff.1 hspecial
  rw [scan, if_neg hends, if_neg hback, if_neg hquote]

theorem scan_escape (hends : Ending ends) (c : Char) (rest : List Char) :
    scan ends .plain t ('\\' :: c :: rest) = scan ends .plain (t.push c).keep rest := by
  rw [scan, if_neg hends.1, if_pos rfl, scan]

theorem escapeLevel_cons (specials : List Char) (c : Char) (rest : List Char) :
    escapeLevel specials (c :: rest) =
      (if isSpecial specials c then ['\\', c] else [c]) ++ escapeLevel specials rest :=
  List.flatMap_cons ..

theorem escapeLevel_append (specials cs cs' : List Char) :
    escapeLevel specials (cs ++ cs') = escapeLevel specials cs ++ escapeLevel specials cs' :=
  List.flatMap_append ..

theorem escapeLevel_eq_self (h : ∀ c ∈ cs, isSpecial specials c = false) :
    escapeLevel specials cs = cs := by
  induction cs with
  | nil => rfl
  | cons c rest ih =>
    obtain ⟨hc, hrest⟩ := List.forall_mem_cons.1 h
    rw [escapeLevel_cons, hc, ih hrest]
    rfl

/-- Escaped characters are read back, if those that end the value are escaped. -/
theorem scan_escapeLevel (hends : Ending ends)
    (h : ∀ c ∈ cs, c ∈ ends → isSpecial specials c = true) (t : Token) (more : List Char) :
    scan ends .plain t (escapeLevel specials cs ++ more) =
      scan ends .plain (t.feed specials cs) more := by
  induction cs generalizing t with
  | nil => rfl
  | cons c rest ih =>
    obtain ⟨hc, hrest⟩ := List.forall_mem_cons.1 h
    rw [escapeLevel_cons, Token.feed, List.foldl_cons, ← Token.feed]
    cases hspecial : isSpecial specials c with
    | true => exact (scan_escape hends c _).trans (ih hrest _)
    | false =>
      have hplain : c ∉ ends := fun hmem => by
        rw [hc hmem] at hspecial
        cases hspecial
      exact (scan_plain hplain hspecial _).trans (ih hrest _)

/-- Inside quotes all is read as it is. -/
theorem scan_inside (ends : List Char) (h : quoteChar ∉ cs) (t : Token) (more : List Char) :
    ∃ t', scan ends .quoted t (cs ++ more) = scan ends .quoted t' more ∧
      t'.text = t.text ++ cs := by
  induction cs generalizing t with
  | nil => exact ⟨t, rfl, by simp⟩
  | cons c rest ih =>
    rw [List.mem_cons, not_or] at h
    obtain ⟨t', hscan, htext⟩ := ih h.2 (t.push c)
    refine ⟨t', ?_, by simp [htext]⟩
    rw [List.cons_append, scan, if_neg (Ne.symm h.1), hscan]

theorem scan_quoted (ends : List Char) (h : quoteChar ∉ cs) (t : Token) (more : List Char) :
    ∃ t', scan ends .quoted t (cs ++ quoteChar :: more) = scan ends .plain t' more ∧
      t'.text = t.text ++ cs := by
  obtain ⟨t', hscan, htext⟩ := scan_inside ends h t (quoteChar :: more)
  exact ⟨t'.keep, by rw [hscan, scan, if_pos rfl], by rw [Token.text_keep, htext]⟩

theorem scan_open (hends : Ending ends) (t : Token) (rest : List Char) :
    scan ends .plain t (quoteChar :: rest) = scan ends .quoted t rest := by
  rw [scan, if_neg hends.2, if_neg (by decide), if_pos rfl]

/-- Wherever the text is read, the reader reads these characters and goes on behind it. -/
def Passes (ends text cs : List Char) : Prop :=
  ∀ t more, ∃ t', scan ends .plain t (text ++ more) = scan ends .plain t' more ∧
    t'.text = t.text ++ cs

theorem Passes.append {text text' cs' : List Char} (h : Passes ends text cs)
    (h' : Passes ends text' cs') : Passes ends (text ++ text') (cs ++ cs') := by
  intro t more
  obtain ⟨t₁, hscan, htext⟩ := h t (text' ++ more)
  obtain ⟨t₂, hscan', htext'⟩ := h' t₁ more
  exact ⟨t₂, by rw [List.append_assoc, hscan, hscan'], by
    rw [htext', htext, List.append_assoc]⟩

theorem passes_nil : Passes ends [] [] := fun t _ => ⟨t, rfl, (List.append_nil _).symm⟩

theorem passes_escapeLevel (hends : Ending ends)
    (h : ∀ c ∈ cs, c ∈ ends → isSpecial specials c = true) :
    Passes ends (escapeLevel specials cs) cs := fun t more =>
  ⟨_, scan_escapeLevel hends h t more, Token.text_feed t cs⟩

theorem passes_self (hends : Ending ends) (h : ∀ c ∈ cs, isSpecial ends c = false) :
    Passes ends cs cs := by
  have hpasses : Passes ends (escapeLevel ends cs) cs :=
    passes_escapeLevel hends fun c _ hmem => isSpecial_of_mem hmem
  rwa [escapeLevel_eq_self h] at hpasses

theorem passes_quoted (hends : Ending ends) (h : quoteChar ∉ cs) :
    Passes ends (quoteChar :: (cs ++ [quoteChar])) cs := by
  intro t more
  obtain ⟨t', hscan, htext⟩ := scan_quoted ends h t more
  refine ⟨t', ?_, htext⟩
  rw [List.cons_append, List.append_assoc, scan_open hends]
  exact hscan

/-- A text that is read as it should be up to what ends the value. -/
theorem token_of_passes {text more : List Char} {c : Char} (h : Passes ends text cs)
    (hc : c ∈ ends) (hgap : isGap c = false) (hfirst : StartsFirm text) (hlast : EndsFirm cs) :
    token ends (text ++ c :: more) = (cs, c :: more) := by
  have hstart : (text ++ c :: more).dropWhile isGap = text ++ c :: more := by
    cases text with
    | nil => simp [hgap]
    | cons x rest => exact dropWhile_isGap_eq_self (hfirst.append (by simp) _)
  obtain ⟨t, hscan, htext⟩ := h {} (c :: more)
  replace htext : t.text = cs := htext
  rw [token, hstart, hscan, scan_end hc]
  simp only [t.value_of_endsFirm_text (htext ▸ hlast), htext]

/-! ## Options -/

theorem isGap_of_isSpecial_optionEnds (c : Char) (h : isSpecial optionEnds c = true) :
    isGap c = false := by
  have hcases : (c = '\\' ∨ c = quoteChar) ∨ c = ':' := by
    simpa [isSpecial, optionEnds] using h
  rcases hcases with (rfl | rfl) | rfl <;> decide

theorem scan_option (cs more : List Char) :
    (scan optionEnds .plain {} (escapeLevel optionEnds cs ++ more)) =
      scan optionEnds .plain (Token.feed optionEnds {} cs) more :=
  scan_escapeLevel ending_optionEnds (fun _ _ hmem => isSpecial_of_mem hmem) _ _

theorem value_feed_optionEnds (cs : List Char) :
    (Token.feed optionEnds {} cs).value = trimEnd cs := by
  rw [Token.value_of_endsFirm_kept (Token.endsFirm_feed isGap_of_isSpecial_optionEnds endsFirm_nil cs),
    Token.text_feed]
  rfl

theorem startsFirm_escapeLevel (h : StartsFirm cs) : StartsFirm (escapeLevel specials cs) := by
  cases cs with
  | nil => exact h
  | cons c rest =>
    rw [escapeLevel_cons]
    cases isSpecial specials c
    · exact h
    · exact fun d hd => by cases hd; decide

/-- An escaped option is read back, but for the gaps at its end. -/
theorem token_escapeLevel (h : StartsFirm cs) {more : List Char}
    (hmore : ∀ x ∈ more.head?, x ∈ optionEnds) :
    token optionEnds (escapeLevel optionEnds cs ++ more) = (trimEnd cs, more) := by
  have hstart : StartsFirm (escapeLevel optionEnds cs ++ more) := by
    cases cs with
    | nil =>
      intro x hx
      rw [List.mem_singleton.1 (hmore x hx)]
      decide
    | cons c rest =>
      refine (startsFirm_escapeLevel h).append ?_ more
      rw [escapeLevel_cons]
      split <;> simp
  rw [token, dropWhile_isGap_eq_self hstart, scan_option]
  have hvalue := value_feed_optionEnds cs
  cases more with
  | nil => exact Prod.ext hvalue rfl
  | cons x more =>
    rw [scan_end (hmore x rfl)]
    exact Prod.ext hvalue rfl

/-- Options that are escaped one by one are told apart and read back, but for an empty one at the
very end. -/
theorem options_intercalate {xs : List (List Char)} (hfirst : ∀ cs ∈ xs, StartsFirm cs)
    (hlast : ∀ cs ∈ xs.getLast?, cs ≠ []) :
    options ([':'].intercalate (xs.map (escapeLevel optionEnds))) = xs.map trimEnd := by
  induction xs with
  | nil => simp [options]
  | cons cs xs ih =>
    obtain ⟨hcs, hrest⟩ := List.forall_mem_cons.1 hfirst
    cases xs with
    | nil =>
      have htoken : token optionEnds (escapeLevel optionEnds cs ++ []) = (trimEnd cs, []) :=
        token_escapeLevel hcs nofun
      have hne : escapeLevel optionEnds cs ≠ [] := by
        obtain ⟨c, rest, rfl⟩ := List.exists_cons_of_ne_nil (hlast cs rfl)
        rw [escapeLevel_cons]
        split <;> simp
      rw [List.append_nil] at htoken
      simp only [List.map_cons, List.map_nil, List.intercalate_singleton]
      rw [options_eq hne, htoken]
      simp [options]
    | cons cs' xs =>
      have hsplit : [':'].intercalate ((cs :: cs' :: xs).map (escapeLevel optionEnds)) =
          escapeLevel optionEnds cs ++
            ':' :: [':'].intercalate ((cs' :: xs).map (escapeLevel optionEnds)) := by
        simp [List.intercalate]
      have hlater := ih hrest fun ds hds => hlast ds (by rwa [List.getLast?_cons_cons])
      rw [hsplit, options_eq (by simp), token_escapeLevel hcs (by simp [optionEnds]),
        List.tail_cons, hlater]
      rfl

theorem not_isSpecial_of_isGap (hspecials : ∀ c, isSpecial specials c = true → isGap c = false)
    {c : Char} (hgap : isGap c = true) : isSpecial specials c = false := by
  cases h : isSpecial specials c with
  | true => simp [hspecials c h] at hgap
  | false => rfl

/-- Gaps in front of an escaped text are passed over before or after escaping. -/
theorem dropWhile_escapeLevel (hspecials : ∀ c, isSpecial specials c = true → isGap c = false)
    (cs : List Char) {d : Char} (hd : isGap d = false) (more : List Char) :
    (escapeLevel specials cs ++ d :: more).dropWhile isGap =
      escapeLevel specials (cs.dropWhile isGap) ++ d :: more := by
  induction cs with
  | nil => exact List.dropWhile_cons_of_neg (by simp [hd])
  | cons c rest ih =>
    cases hgap : isGap c with
    | true =>
      rw [escapeLevel_cons, not_isSpecial_of_isGap hspecials hgap,
        List.dropWhile_cons_of_pos hgap, ← ih]
      exact List.dropWhile_cons_of_pos hgap
    | false =>
      have hfirm : StartsFirm (c :: rest) := fun x hx => by cases hx; exact hgap
      rw [dropWhile_isGap_eq_self hfirm]
      refine dropWhile_isGap_eq_self ((startsFirm_escapeLevel hfirm).append ?_ _)
      rw [escapeLevel_cons]
      split <;> simp

/-! ## Drawn texts -/

theorem unescape_backslash (c : Char) (rest : List Char) :
    unescape ('\\' :: c :: rest) = c :: unescape rest := rfl

theorem unescape_cons {c : Char} (hc : c ≠ '\\') (rest : List Char) :
    unescape (c :: rest) = c :: unescape rest := by
  cases rest <;> simp [unescape, hc]

theorem unescape_escapeLevel (specials cs : List Char) : unescape (escapeLevel specials cs) = cs := by
  induction cs with
  | nil => rfl
  | cons c rest ih =>
    rw [escapeLevel_cons]
    cases hspecial : isSpecial specials c with
    | true =>
      rw [if_pos rfl, List.cons_append, List.singleton_append, unescape_backslash, ih]
    | false =>
      have hback : c ≠ '\\' := (not_isSpecial_iff.1 hspecial).1
      rw [if_neg Bool.false_ne_true, List.singleton_append, unescape_cons hback, ih]

theorem trimEnd_concat_of_isGap {c : Char} (hc : isGap c = true) (cs : List Char) :
    trimEnd (cs ++ [c]) = trimEnd cs := by
  simp [trimEnd, hc]

/-- Gaps are dropped from the end before or after escaping. -/
theorem trimEnd_escapeLevel (hspecials : ∀ c, isSpecial specials c = true → isGap c = false)
    (cs : List Char) : trimEnd (escapeLevel specials cs) = escapeLevel specials (trimEnd cs) := by
  induction cs using List.reverseRecOn with
  | nil => rfl
  | append_singleton rest c ih =>
    rw [escapeLevel_append, escapeLevel_cons]
    cases hgap : isGap c with
    | true =>
      rw [not_isSpecial_of_isGap hspecials hgap, trimEnd_concat_of_isGap hgap, ← ih]
      exact trimEnd_concat_of_isGap hgap _
    | false =>
      have hlast : EndsFirm (escapeLevel specials rest ++
          ((if isSpecial specials c then ['\\', c] else [c]) ++ escapeLevel specials [])) := by
        cases isSpecial specials c
        · exact endsFirm_concat hgap _
        · exact EndsFirm.append _ (endsFirm_concat hgap ['\\']) (by simp)
      rw [trimEnd_eq_self_iff.2 hlast, trimEnd_eq_self_iff.2 (endsFirm_concat hgap rest),
        escapeLevel_append, escapeLevel_cons]

end Montage.Filter
