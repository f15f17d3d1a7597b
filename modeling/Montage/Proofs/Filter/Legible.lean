import Mathlib.Data.List.TakeWhile
import Montage.Proofs.Filter.Unescaped
import Montage.Proofs.Filter.Values

/-!
# Values that are not escaped

A value that is not escaped is put in single quotes if it holds a comma, and that is all.  Behind a
key and in front of other options it is read back exactly if it is `Legible`:
`passes_quotedIfCommas` for the one direction, `legible_of_token_eq` for the other.

What carries the other direction is the length of what stands in front of the first colon
(`exists_text_scan`).  No reader makes it longer, and a reader that meets a character that means
something to it makes it shorter.
-/

namespace Montage.Filter

variable {ends cs u v w : List Char} {t : Token}

/-- Both readers take the value for what it is, once it is quoted where it holds a comma. -/
structure Legible (s : String) : Prop where
  not_isSpecial : ∀ c ∈ s.toList, isSpecial optionEnds c = false
  ends : EndsFirm s.toList
  quoted : ',' ∈ s.toList ∨ ∀ c ∈ s.toList, c ∉ filterEnds

instance (cs : List Char) : Decidable (EndsFirm cs) :=
  inferInstanceAs (Decidable (∀ c ∈ cs.getLast?, isGap c = false))

instance (s : String) : Decidable (Legible s) :=
  decidable_of_iff ((∀ c ∈ s.toList, isSpecial optionEnds c = false) ∧ EndsFirm s.toList ∧
      (',' ∈ s.toList ∨ ∀ c ∈ s.toList, c ∉ filterEnds))
    ⟨fun ⟨h, h', h''⟩ => ⟨h, h', h''⟩, fun ⟨h, h', h''⟩ => ⟨h, h', h''⟩⟩

theorem Plain.legible {s : String} (h : Plain s) : Legible s where
  not_isSpecial c hc := not_isSpecial_comma (h c hc)
  ends c hc := by
    rcases h c (List.mem_of_getLast? hc) with hbare | rfl
    · exact (isBare_iff.1 hbare).2
    · decide
  quoted := by
    refine or_iff_not_imp_left.2 fun hcomma c hc => ?_
    have hbare := (h c hc).resolve_right fun e => hcomma (e ▸ hc)
    exact (not_isSpecial_iff.1 (not_isSpecial_of_isBare hbare filterEnds_subset)).2.2

theorem Legible.escapeLevel_eq {s : String} (h : Legible s) :
    escapeLevel optionEnds s.toList = s.toList := escapeLevel_eq_self h.not_isSpecial

theorem toList_quotedIfCommas_of_mem {s : String} (h : ',' ∈ s.toList) :
    (quotedIfCommas s).toList = quoteChar :: (s.toList ++ [quoteChar]) := by
  rw [quotedIfCommas, if_pos (List.contains_iff_mem.2 h), String.toList_append,
    String.toList_append]
  rfl

theorem toList_quotedIfCommas_of_not_mem {s : String} (h : ',' ∉ s.toList) :
    (quotedIfCommas s).toList = s.toList := by
  rw [quotedIfCommas, if_neg fun hcomma => h (List.contains_iff_mem.1 hcomma)]

/-- A legible value passes through the reader of filters. -/
theorem passes_quotedIfCommas {s : String} (h : Legible s) :
    Passes filterEnds (quotedIfCommas s).toList s.toList := by
  by_cases hcomma : ',' ∈ s.toList
  · have hquote : quoteChar ∉ s.toList := fun hmem =>
      (not_isSpecial_iff.1 (h.not_isSpecial _ hmem)).2.1 rfl
    rw [toList_quotedIfCommas_of_mem hcomma]
    exact passes_quoted ending_filterEnds hquote
  · rw [toList_quotedIfCommas_of_not_mem hcomma]
    refine passes_self ending_filterEnds fun c hc => ?_
    obtain ⟨hback, hquote, -⟩ := not_isSpecial_iff.1 (h.not_isSpecial c hc)
    exact not_isSpecial_iff.2 ⟨hback, hquote, h.quoted.resolve_left hcomma c hc⟩

/-! ## In front of the first colon -/

/-- What stands in front of the first colon. -/
def beforeColon (cs : List Char) : List Char := cs.takeWhile (· ≠ ':')

@[simp] theorem beforeColon_nil : beforeColon [] = [] := rfl

@[simp] theorem beforeColon_colon (rest : List Char) : beforeColon (':' :: rest) = [] := rfl

theorem beforeColon_cons {c : Char} (hc : c ≠ ':') (rest : List Char) :
    beforeColon (c :: rest) = c :: beforeColon rest :=
  List.takeWhile_cons_of_pos (by simpa using hc)

theorem beforeColon_append_of_not_mem (h : ':' ∉ u) (v : List Char) :
    beforeColon (u ++ v) = u ++ beforeColon v := by
  refine List.takeWhile_append_of_pos fun c hc => ?_
  have hne : c ≠ ':' := fun e => h (e ▸ hc)
  simpa using hne

theorem beforeColon_append_colon (h : ':' ∉ u) (v : List Char) :
    beforeColon (u ++ ':' :: v) = u := by
  rw [beforeColon_append_of_not_mem h, beforeColon_colon, List.append_nil]

theorem beforeColon_eq_self (h : ':' ∉ cs) : beforeColon cs = cs := by
  simpa using beforeColon_append_of_not_mem h []

theorem colon_not_mem_beforeColon (cs : List Char) : ':' ∉ beforeColon cs := fun h => by
  simpa using List.mem_takeWhile_imp h

theorem beforeColon_prefix_self (cs : List Char) : beforeColon cs <+: cs := List.takeWhile_prefix _

theorem exists_eq_beforeColon_append (h : ':' ∈ cs) :
    ∃ rest, cs = beforeColon cs ++ ':' :: rest := by
  obtain ⟨u, v, rfl, hu⟩ := List.eq_append_cons_of_mem h
  exact ⟨v, by rw [beforeColon_append_colon hu]⟩

theorem beforeColon_append_of_mem (h : ':' ∈ u) (v : List Char) :
    beforeColon (u ++ v) = beforeColon u := by
  obtain ⟨before, after, rfl, hbefore⟩ := List.eq_append_cons_of_mem h
  rw [List.append_assoc, List.cons_append, beforeColon_append_colon hbefore,
    beforeColon_append_colon hbefore]

/-- The text up to its first colon, in front of which `cs` may have one already. -/
theorem exists_append_colon_eq (cs more : List Char) :
    ∃ rest, cs ++ ':' :: more = beforeColon cs ++ ':' :: rest := by
  by_cases hcolon : ':' ∈ cs
  · obtain ⟨rest, hrest⟩ := exists_eq_beforeColon_append hcolon
    exact ⟨rest ++ ':' :: more, by
      rw [← List.cons_append, ← List.append_assoc, ← hrest]⟩
  · exact ⟨more, by rw [beforeColon_eq_self hcolon]⟩

theorem length_beforeColon_le (h : u <+: v) :
    (beforeColon u).length ≤ (beforeColon v).length := by
  obtain ⟨more, rfl⟩ := h
  by_cases hcolon : ':' ∈ u
  · rw [beforeColon_append_of_mem hcolon]
  · rw [beforeColon_append_of_not_mem hcolon, beforeColon_eq_self hcolon, List.length_append]
    omega

/-! ## What a reader makes of it -/

/-- How many characters are sure to be read that are not read yet. -/
def Mode.pending : Mode → Nat
  | .escaped => 1
  | .plain | .quoted => 0

/-- No more is read in front of a colon than what stands in front of it.  A single quote is not
read, or else the backslash in front of it is not. -/
theorem exists_text_scan (ends : List Char) (mode : Mode) (t : Token) (cs : List Char) :
    ∃ w, (scan ends mode t cs).1.text = t.text ++ w ∧
      (beforeColon w).length ≤ (beforeColon cs).length ∧
      (beforeColon w).length + (beforeColon cs).count quoteChar ≤
        (beforeColon cs).length + mode.pending := by
  induction cs generalizing mode t with
  | nil => cases mode <;> exact ⟨[], by simp [scan], by simp⟩
  | cons c rest ih =>
    -- The character is read, and the reader goes on with nothing pending.
    have hread (mode' : Mode) {t' : Token} (ht' : t'.text = t.text ++ [c])
        (hmode' : mode'.pending = 0) : ∃ w, (scan ends mode' t' rest).1.text = t.text ++ w ∧
          (beforeColon w).length ≤ (beforeColon (c :: rest)).length ∧
          (beforeColon w).length + (beforeColon (c :: rest)).count quoteChar ≤
            (beforeColon (c :: rest)).length + if c = quoteChar then 1 else 0 := by
      obtain ⟨w, hw, hlength, hcount⟩ := ih mode' t'
      refine ⟨c :: w, by rw [hw, ht', List.append_assoc]; rfl, ?_⟩
      by_cases hc : c = ':'
      · simp [hc]
      · simp only [beforeColon_cons hc, List.length_cons, List.count_cons, beq_iff_eq]
        omega
    -- The character is not read, and so one less is read than what stands there.
    have hskip {mode' : Mode} {t' : Token} (ht' : t'.text = t.text) (hc : c ≠ ':')
        (hpending : mode'.pending + (if c = quoteChar then 1 else 0) ≤ 1) :
        ∃ w, (scan ends mode' t' rest).1.text = t.text ++ w ∧
          (beforeColon w).length ≤ (beforeColon (c :: rest)).length ∧
          (beforeColon w).length + (beforeColon (c :: rest)).count quoteChar ≤
            (beforeColon (c :: rest)).length := by
      obtain ⟨w, hw, hlength, hcount⟩ := ih mode' t'
      refine ⟨w, by rw [hw, ht'], ?_⟩
      simp only [beforeColon_cons hc, List.length_cons, List.count_cons, beq_iff_eq]
      omega
    cases mode with
    | plain =>
      rw [scan]
      split
      · exact ⟨[], by simp, by simp, by simpa [Mode.pending] using List.count_le_length⟩
      · split
        · next hback => exact hskip rfl (by rw [hback]; decide) (by rw [hback]; decide)
        · split
          · next hquote => exact hskip rfl (by rw [hquote]; decide) (by rw [hquote]; decide)
          · next hquote => simpa [hquote, Mode.pending] using hread _ (t.text_push c) rfl
    | escaped =>
      obtain ⟨w, hw, hlength, hcount⟩ := hread .plain
        (by simp : (t.push c).keep.text = t.text ++ [c]) rfl
      refine ⟨w, hw, hlength, hcount.trans (Nat.add_le_add_left ?_ _)⟩
      split <;> simp [Mode.pending]
    | quoted =>
      rw [scan]
      split
      · next hquote => exact hskip t.text_keep (by rw [hquote]; decide) (by rw [hquote]; decide)
      · next hquote => simpa [hquote, Mode.pending] using hread _ (t.text_push c) rfl

/-- A reader that reads all of what stands in front of a colon has met nothing that means something
to it. -/
theorem not_isSpecial_of_length_le (h : (scan ends .plain t cs).1.text = t.text ++ w)
    (hle : (beforeColon cs).length ≤ (beforeColon w).length) :
    ∀ c ∈ beforeColon cs, isSpecial ends c = false := by
  induction cs generalizing t w with
  | nil => simp
  | cons c rest ih =>
    by_cases hc : c = ':'
    · simp [hc]
    rw [beforeColon_cons hc] at hle ⊢
    -- Had the character not been read, too little would have been read.
    have hshort (mode : Mode) {t' : Token} (ht' : t'.text = t.text)
        (hscan : scan ends .plain t (c :: rest) = scan ends mode t' rest) : False := by
      obtain ⟨w', hw', hlength, -⟩ := exists_text_scan ends mode t' rest
      rw [hscan, hw', ht', List.append_cancel_left_eq] at h
      rw [← h, List.length_cons] at hle
      omega
    have hends : c ∉ ends := fun hmem => by
      rw [scan_end hmem, List.self_eq_append_right] at h
      simp [h] at hle
    have hspecial : isSpecial ends c = false := by
      refine not_isSpecial_iff.2 ⟨fun hback => ?_, fun hquote => ?_, hends⟩
      · exact hshort .escaped rfl (by rw [scan, if_neg hends, if_pos hback])
      · have hback : c ≠ '\\' := by rw [hquote]; decide
        exact hshort .quoted rfl
          (by rw [scan, if_neg hends, if_neg hback, if_pos hquote])
    obtain ⟨w', hw', -⟩ := exists_text_scan ends .plain (t.push c) rest
    have hw : w = c :: w' := by
      rw [scan_plain hends hspecial, hw', Token.text_push, List.append_assoc,
        List.append_cancel_left_eq] at h
      exact h.symm
    rw [hw, beforeColon_cons hc, List.length_cons, List.length_cons] at hle
    rw [hw, scan_plain hends hspecial] at h
    exact List.forall_mem_cons.2 ⟨hspecial, ih hw' (Nat.le_of_succ_le_succ hle)⟩

/-! ## What is left of it -/

/-- What is read behind a text that does not end in a gap leaves it as it is. -/
theorem Token.exists_value_eq {t' : Token} (ht : EndsFirm t.text) (h : t'.text = t.text ++ w) :
    ∃ v, t'.value = t.text ++ v ∧ v <+: w := by
  rcases List.append_eq_append_iff.1 h with ⟨held, hkept, hloose⟩ | ⟨held, hkept, hw⟩
  · have hheld : EndsFirm held := fun c hc => by
      refine ht c ?_
      rw [hkept, List.getLast?_append, Option.mem_def.1 hc]
      rfl
    refine ⟨trimEnd w, ?_, trimEnd_prefix_self w⟩
    rw [Token.value, hloose, trimEnd_append hheld, ← List.append_assoc, ← hkept]
  · refine ⟨held ++ trimEnd t'.loose, by rw [Token.value, hkept, List.append_assoc], ?_⟩
    rw [hw]
    exact (List.prefix_append_right_inj held).2 (trimEnd_prefix_self _)

/-- What is left of a value that was read from some moment on. -/
theorem exists_value_scan (ends : List Char) (ht : EndsFirm t.text) (mode : Mode)
    (cs : List Char) :
    ∃ v, (scan ends mode t cs).1.value = t.text ++ v ∧
      (beforeColon v).length ≤ (beforeColon cs).length := by
  obtain ⟨w, hw, hlength, -⟩ := exists_text_scan ends mode t cs
  obtain ⟨v, hv, hprefix⟩ := Token.exists_value_eq ht hw
  exact ⟨v, hv, (length_beforeColon_le hprefix).trans hlength⟩

/-- A reader that has read a colon does not lose what it has read so far. -/
theorem exists_eq_append_colon {t' : Token} {mode : Mode} {rest : List Char}
    (ht' : t'.text = t.text ++ (u ++ [':']))
    (h : (scan ends mode t' rest).1.value = t.text ++ v) : ∃ rest, v = u ++ ':' :: rest := by
  have hfirm : EndsFirm t'.text := by
    rw [ht', ← List.append_assoc]
    exact endsFirm_concat (by decide) _
  obtain ⟨v', hv', -⟩ := exists_value_scan ends hfirm mode rest
  rw [hv', ht', List.append_assoc, List.append_assoc, List.append_cancel_left_eq] at h
  exact ⟨v', h.symm⟩

/-- If a reader leaves what stands in front of the first colon as long as it was, it leaves it as it
was. -/
theorem exists_eq_of_scan_plain (hends : Ending ends) (hcolon : ':' ∉ ends) (ht : EndsFirm t.text)
    {more : List Char} (h : (scan ends .plain t (cs ++ ':' :: more)).1.value = t.text ++ v)
    (hle : (beforeColon cs).length ≤ (beforeColon v).length) :
    (∃ rest, v = beforeColon cs ++ ':' :: rest) ∧
      ∀ c ∈ beforeColon cs, isSpecial ends c = false := by
  obtain ⟨rest, hrest⟩ := exists_append_colon_eq cs more
  have hself := beforeColon_append_colon (colon_not_mem_beforeColon cs) rest
  rw [hrest] at h
  obtain ⟨w, hw, -⟩ := exists_text_scan ends .plain t (beforeColon cs ++ ':' :: rest)
  obtain ⟨v', hv', hprefix⟩ := Token.exists_value_eq ht hw
  rw [h, List.append_cancel_left_eq] at hv'
  have hfree : ∀ c ∈ beforeColon cs, isSpecial ends c = false := by
    have hlength := length_beforeColon_le (hv' ▸ hprefix)
    have hall := not_isSpecial_of_length_le hw (by rw [hself]; omega)
    rwa [hself] at hall
  obtain ⟨t', hscan, htext⟩ := passes_self hends hfree t (':' :: rest)
  rw [hscan, scan_plain hcolon (by decide : isSpecial [] ':' = false)] at h
  exact ⟨exists_eq_append_colon (by rw [Token.text_push, htext, List.append_assoc]) h, hfree⟩

/-- If a quoted text has as much read in front of the first colon as stands there, it holds no
quote there. -/
theorem exists_eq_of_scan_quoted (hends : Ending ends) (hcolon : ':' ∉ ends) (ht : EndsFirm t.text)
    {more : List Char}
    (h : (scan ends .plain t (quoteChar :: (cs ++ quoteChar :: ':' :: more))).1.value = t.text ++ v)
    (hle : (beforeColon cs).length ≤ (beforeColon v).length) :
    ∃ rest, v = beforeColon cs ++ ':' :: rest := by
  rw [scan_open hends] at h
  obtain ⟨w, hw, -, hcount⟩ := exists_text_scan ends .quoted t (cs ++ quoteChar :: ':' :: more)
  obtain ⟨v', hv', hprefix⟩ := Token.exists_value_eq ht hw
  rw [h, List.append_cancel_left_eq] at hv'
  have hlength := length_beforeColon_le (hv' ▸ hprefix)
  by_cases hmem : ':' ∈ cs
  · -- The colon stands inside the quotes.
    obtain ⟨u, rest, rfl, hu⟩ := List.eq_append_cons_of_mem hmem
    rw [List.append_assoc, List.cons_append] at h hcount
    rw [beforeColon_append_colon hu] at hle hcount ⊢
    have hquote : quoteChar ∉ u ++ [':'] := by
      have hnone : u.count quoteChar = 0 := by
        simp only [Mode.pending] at hcount
        omega
      rw [List.mem_append, List.mem_singleton, not_or]
      exact ⟨List.count_eq_zero.1 hnone, by decide⟩
    obtain ⟨t', hscan, htext⟩ := scan_inside ends hquote t (rest ++ quoteChar :: ':' :: more)
    rw [List.append_cons, hscan] at h
    exact exists_eq_append_colon htext h
  · -- The colon is the one behind the quotes.
    rw [beforeColon_append_of_not_mem hmem, beforeColon_cons (by decide), beforeColon_colon,
      List.count_append, List.length_append, List.count_singleton_self,
      List.length_singleton] at hcount
    rw [beforeColon_eq_self hmem] at hle ⊢
    have hquote : quoteChar ∉ cs := by
      have hnone : cs.count quoteChar = 0 := by
        simp only [Mode.pending] at hcount
        omega
      exact List.count_eq_zero.1 hnone
    obtain ⟨t', hscan, htext⟩ := scan_quoted ends hquote t (':' :: more)
    rw [hscan, scan_plain hcolon (by decide : isSpecial [] ':' = false)] at h
    exact exists_eq_append_colon (by rw [Token.text_push, htext, List.append_assoc]) h

/-- A value that is read back behind its key, from what the reader of filters makes of it in front
of other options, is legible. -/
theorem legible_of_token_eq {s : String} {key more : List Char} (ht : EndsFirm t.text)
    (hstarts : StartsFirm key) (hne : key ≠ []) (hends : EndsFirm key)
    (hfree : ∀ c ∈ key, isSpecial optionEnds c = false)
    (hread : (scan filterEnds .plain t ((quotedIfCommas s).toList ++ ':' :: more)).1.value =
      t.text ++ v)
    (htoken : (token optionEnds (key ++ v)).1 = key ++ s.toList) : Legible s := by
  obtain ⟨t', hscan, htext⟩ := passes_self ending_optionEnds hfree {} v
  replace htext : t'.text = key := htext
  have hvalue : (scan optionEnds .plain t' v).1.value = key ++ s.toList := by
    rw [← hscan, ← htoken, token, dropWhile_isGap_eq_self (hstarts.append hne v)]
  obtain ⟨w, hw, hbound, -⟩ := exists_text_scan optionEnds .plain t' v
  obtain ⟨value, hvalue', hprefix⟩ := Token.exists_value_eq (htext ▸ hends) hw
  rw [hvalue, htext, List.append_cancel_left_eq] at hvalue'
  rw [← hvalue'] at hprefix
  -- Neither reader has made the part in front of the first colon shorter, ...
  have hle := length_beforeColon_le hprefix
  have hlength : (beforeColon s.toList).length ≤ (beforeColon v).length := hle.trans hbound
  obtain ⟨⟨rest, hv⟩, hquoted⟩ : (∃ rest, v = beforeColon s.toList ++ ':' :: rest) ∧
      (',' ∈ s.toList ∨ ∀ c ∈ beforeColon s.toList, c ∉ filterEnds) := by
    by_cases hcomma : ',' ∈ s.toList
    · rw [toList_quotedIfCommas_of_mem hcomma, List.cons_append, List.append_assoc,
        List.singleton_append] at hread
      exact ⟨exists_eq_of_scan_quoted ending_filterEnds (by decide) ht hread hlength, Or.inl hcomma⟩
    · rw [toList_quotedIfCommas_of_not_mem hcomma] at hread
      obtain ⟨heq, hplain⟩ :=
        exists_eq_of_scan_plain ending_filterEnds (by decide) ht hread hlength
      exact ⟨heq, Or.inr fun c hc => (not_isSpecial_iff.1 (hplain c hc)).2.2⟩
  have hself : beforeColon v = beforeColon s.toList := by
    rw [hv, beforeColon_append_colon (colon_not_mem_beforeColon _)]
  have hspecial := not_isSpecial_of_length_le hw (hself ▸ hle)
  rw [hself] at hspecial
  -- ... so the option ends at the first colon, and the value is what stands in front of it.
  have hescape : escapeLevel optionEnds (key ++ beforeColon s.toList) =
      key ++ beforeColon s.toList :=
    escapeLevel_eq_self (List.forall_mem_append.2 ⟨hfree, hspecial⟩)
  have hoption : token optionEnds
      (escapeLevel optionEnds (key ++ beforeColon s.toList) ++ ':' :: rest) =
        (trimEnd (key ++ beforeColon s.toList), ':' :: rest) :=
    token_escapeLevel (hstarts.append hne _) fun x hx => by cases hx; decide
  rw [hescape, List.append_assoc, ← hv] at hoption
  have htrim : trimEnd (beforeColon s.toList) = s.toList := by
    rw [hoption, trimEnd_append hends, List.append_cancel_left_eq] at htoken
    exact htoken
  have hall : beforeColon s.toList = s.toList := by
    refine (beforeColon_prefix_self _).eq_of_length_le ?_
    have hlong := (trimEnd_prefix_self (beforeColon s.toList)).length_le
    rwa [htrim] at hlong
  rw [hall] at htrim hspecial hquoted
  exact ⟨hspecial, trimEnd_eq_self_iff.1 htrim, hquoted⟩

end Montage.Filter
