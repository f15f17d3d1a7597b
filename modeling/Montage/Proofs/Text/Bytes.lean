import Mathlib.Data.List.Basic

/-!
# Texts as bytes

The bytes of a text are read back as the text (`fromUTF8?_encoded`).  A character below 128 is one
byte, and that byte is part of no other character (`eq_of_toUInt8_mem`), so it is found among the
bytes where it stands in the text (`toUInt8_mem_encoded_iff`, `getLast?_encoded_eq_some_iff`).
-/

namespace Montage.Text

/-- The bytes of the characters. -/
def encoded (cs : List Char) : List UInt8 := cs.flatMap String.utf8EncodeChar

variable {c d : Char} {cs : List Char}

theorem encoded_append (cs cs' : List Char) : encoded (cs ++ cs') = encoded cs ++ encoded cs' :=
  List.flatMap_append ..

theorem encoded_concat (cs : List Char) (c : Char) :
    encoded (cs ++ [c]) = encoded cs ++ String.utf8EncodeChar c := by
  rw [encoded_append, encoded, encoded, List.flatMap_singleton]

theorem encoded_eq_nil_iff : encoded cs = [] ↔ cs = [] := by
  cases cs with
  | nil => exact iff_of_true rfl rfl
  | cons c cs => simp [encoded]

theorem fromUTF8?_encoded (cs : List Char) :
    String.fromUTF8? (encoded cs).toByteArray = some (String.ofList cs) := by
  have hbytes : (encoded cs).toByteArray = (String.ofList cs).toByteArray :=
    String.toByteArray_ofList.symm
  rw [hbytes, String.fromUTF8?, dif_pos (String.ofList cs).isValidUTF8]
  rfl

theorem encoded_toList (s : String) : encoded s.toList = s.toUTF8.data.toList := by
  rw [String.toUTF8_eq_toByteArray, ← String.utf8Encode_toList, List.utf8Encode,
    List.data_toByteArray]
  rfl

/-! ## Characters below 128 -/

theorem utf8EncodeChar_of_lt (h : c.toNat < 128) : String.utf8EncodeChar c = [c.toUInt8] := by
  have hval : c.val.toNat ≤ 127 := Nat.le_of_lt_succ h
  unfold String.utf8EncodeChar
  simp only [if_pos hval]
  rfl

/-- A byte below 128 is a character of its own. -/
theorem toNat_of_mem_utf8EncodeChar {b : UInt8} (h : b ∈ String.utf8EncodeChar c)
    (hb : b.toNat < 128) : b.toNat = c.toNat := by
  unfold String.utf8EncodeChar at h
  simp only at h
  split at h
  · rw [List.mem_singleton] at h
    rw [h, UInt8.toNat_ofNat', Char.toNat]
    omega
  · -- All bytes of a longer character have their highest bit set.
    exfalso
    split at h
    · simp only [List.mem_cons, List.not_mem_nil, or_false] at h
      rcases h with rfl | rfl <;> rw [UInt8.toNat_ofNat'] at hb <;> omega
    · split at h
      · simp only [List.mem_cons, List.not_mem_nil, or_false] at h
        rcases h with rfl | rfl | rfl <;> rw [UInt8.toNat_ofNat'] at hb <;> omega
      · simp only [List.mem_cons, List.not_mem_nil, or_false] at h
        rcases h with rfl | rfl | rfl | rfl <;> rw [UInt8.toNat_ofNat'] at hb <;> omega

theorem eq_of_toUInt8_mem (hc : c.toNat < 128) (h : c.toUInt8 ∈ String.utf8EncodeChar d) :
    c = d := by
  have hbyte : c.toUInt8.toNat = c.toNat := by
    rw [Char.toUInt8, UInt32.toNat_toUInt8]
    exact Nat.mod_eq_of_lt (by rw [← Char.toNat]; omega)
  rw [← Char.toNat_inj, ← hbyte]
  exact toNat_of_mem_utf8EncodeChar h (by omega)

theorem toUInt8_mem_encoded_iff (hc : c.toNat < 128) : c.toUInt8 ∈ encoded cs ↔ c ∈ cs := by
  rw [encoded, List.mem_flatMap]
  constructor
  · rintro ⟨d, hd, hmem⟩
    exact eq_of_toUInt8_mem hc hmem ▸ hd
  · intro hmem
    exact ⟨c, hmem, by rw [utf8EncodeChar_of_lt hc]; exact List.mem_singleton_self _⟩

theorem getLast?_encoded_eq_some_iff (hc : c.toNat < 128) :
    (encoded cs).getLast? = some c.toUInt8 ↔ cs.getLast? = some c := by
  rcases List.eq_nil_or_concat cs with rfl | ⟨front, d, rfl⟩
  · simp [encoded]
  · rw [List.concat_eq_append, encoded_concat, List.getLast?_concat,
      List.getLast?_append_of_ne_nil _ String.utf8EncodeChar_ne_nil]
    constructor
    · exact fun h => congrArg some (eq_of_toUInt8_mem hc (List.mem_of_getLast? h)).symm
    · intro h
      rw [Option.some.inj h, utf8EncodeChar_of_lt hc]
      rfl

end Montage.Text
