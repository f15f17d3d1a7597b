import Montage.Asset.Remote
import Montage.Proofs.Files.Places
import Montage.Render.Resolve

/-!
# Where downloads lie

The name of a download begins with sixty-four hexadecimal digits.  So it is a plain name in the
cache directory, and never that of a composition's file (`Asset.IsDigestName.file_video_ne`).
-/

namespace Montage

namespace Sha256

theorem digitChar_mem {n : Nat} (h : n < 16) : Nat.digitChar n ∈ "0123456789abcdef".toList := by
  revert n
  decide

theorem mem_hexChars {s : String} {c : Char} (h : c ∈ hexChars s) :
    c ∈ "0123456789abcdef".toList := by
  obtain ⟨b, -, hc⟩ := List.mem_flatMap.1 h
  have hb : b.toNat < 256 := b.toNat_lt
  rcases List.mem_cons.1 hc with rfl | hc
  · exact digitChar_mem (by omega)
  · rw [List.mem_singleton.1 hc]
    exact digitChar_mem (by omega)

theorem length_hexChars (s : String) : (hexChars s).length = 64 := by
  simp [hexChars, hexByte, List.length_flatMap, List.map_const']

end Sha256

namespace Asset

/-- A name that begins with the digest of an address. -/
def IsDigestName (url name : String) : Prop :=
  ∃ rest : List Char, name.toList = Sha256.hexChars url ++ rest ∧ '/' ∉ rest

variable {url name : String}

theorem IsDigestName.length_le (h : IsDigestName url name) : 64 ≤ name.toList.length := by
  obtain ⟨rest, hname, -⟩ := h
  rw [hname, List.length_append, Sha256.length_hexChars]
  exact Nat.le_add_right ..

theorem IsDigestName.isName (h : IsDigestName url name) : Path.IsName name.toList := by
  have hlength := h.length_le
  refine ⟨?_, ?_, ?_⟩
  · intro e
    rw [e] at hlength
    simp at hlength
  · intro e
    rw [e] at hlength
    simp at hlength
  · obtain ⟨rest, hname, hrest⟩ := h
    rw [hname, List.mem_append, not_or]
    exact ⟨fun hmem => absurd (Sha256.mem_hexChars hmem) (by decide), hrest⟩

theorem IsDigestName.ne_up (h : IsDigestName url name) : name ≠ ".." := by
  rintro rfl
  exact absurd h.length_le (by decide)

/-- The second letter of a composition's file is no digit. -/
theorem IsDigestName.ne_video (h : IsDigestName url name) (slot : Nat × Nat) :
    name.toList ≠ (FileName.video slot).chars := by
  intro e
  obtain ⟨rest, hname, -⟩ := h
  obtain ⟨first, second, more, hhex⟩ : ∃ a b more, Sha256.hexChars url = a :: b :: more := by
    have hlength := Sha256.length_hexChars url
    rcases hchars : Sha256.hexChars url with _ | ⟨a, _ | ⟨b, more⟩⟩ <;> rw [hchars] at hlength
    · cases hlength
    · cases hlength
    · exact ⟨a, b, more, rfl⟩
  have hsecond : second = 'o' := by
    have hplace : name.toList[1]? = some 'o' := by
      rw [e]
      simp [FileName.chars, FileName.video]
    rw [hname, hhex] at hplace
    exact Option.some.inj hplace
  have hdigit : second ∈ "0123456789abcdef".toList :=
    Sha256.mem_hexChars (hhex ▸ List.mem_cons_of_mem _ List.mem_cons_self)
  rw [hsecond] at hdigit
  exact absurd hdigit (by decide)

theorem isDigestName_part (url : String) : IsDigestName url (key url ++ ".part") := by
  refine ⟨".part".toList, ?_, by decide⟩
  rw [String.toList_append, key, Sha256.hex, String.toList_ofList]

theorem isDigestName_download (url : String) : IsDigestName url (downloadName url) := by
  rw [downloadName, downloadNameChars]
  rcases hextension : extension? url with _ | ext
  · exact ⟨[], by rw [String.toList_ofList], List.not_mem_nil⟩
  · refine ⟨'.' :: ext, by rw [String.toList_ofList], ?_⟩
    have hplain : isPlainExtension ext = true := by
      rw [extension?] at hextension
      split at hextension
      · split at hextension
        · cases hextension
          assumption
        · cases hextension
      · cases hextension
    rw [List.mem_cons, not_or]
    refine ⟨by decide, fun hslash => ?_⟩
    simp only [isPlainExtension, Bool.and_eq_true, List.all_eq_true] at hplain
    exact absurd (hplain.2 '/' hslash) (by decide)

/-- The path of such a name in a directory leads one level down. -/
theorem IsDigestName.ofPath_join (h : IsDigestName url name) (cacheDir : String) :
    Place.ofPath (Path.join cacheDir name) = (Place.ofPath cacheDir).child name :=
  Place.ofPath_join cacheDir h.isName h.ne_up

theorem IsDigestName.isWithin (h : IsDigestName url name) (cacheDir : String) :
    (Place.ofPath (Path.join cacheDir name)).isWithin (.ofPath cacheDir) = true := by
  rw [h.ofPath_join]
  exact Place.child_isWithin _ _

theorem IsDigestName.file_video_ne (h : IsDigestName url name) (cacheDir : String)
    (slot : Nat × Nat) :
    (Place.ofPath cacheDir).file (.video slot) ≠ .ofPath (Path.join cacheDir name) := by
  rw [h.ofPath_join, Place.file]
  intro e
  refine h.ne_video slot ?_
  rw [← Place.child_inj e, String.toList_ofList]

end Asset

end Montage
