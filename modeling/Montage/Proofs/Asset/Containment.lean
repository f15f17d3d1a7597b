import Mathlib.Data.List.TakeWhile
import Montage.Proofs.Asset.Downloads
import Montage.Proofs.Render.Sites

/-!
# Downloads stay where they belong

A download is one name in the cache directory: sixty-four hexadecimal digits, and behind them the
extension that the last segment of the address's path has, if that is a short one of plain letters
and digits (`Asset.IsDownloadName`).  `IsLastSegment` says which characters of an address are its
last segment without cutting it.  No unit of a tree has a file or a directory of its own where a
download lies, whatever the address (`RenderUnit.download_apart`).
-/

namespace Montage

namespace Text

theorem cutLast_eq_some_iff {sep : Char} {cs before after : List Char} :
    cutLast sep cs = some (before, after) ↔ cs = before ++ sep :: after ∧ sep ∉ after := by
  rw [cutLast, Option.map_eq_some_iff]
  constructor
  · rintro ⟨⟨first, second⟩, hcut, heq⟩
    obtain ⟨rfl, rfl⟩ := Prod.mk.inj heq
    obtain ⟨hreverse, hnotin⟩ := append_of_cut hcut
    have hcs : cs = second.reverse ++ sep :: first.reverse := by
      rw [← List.reverse_reverse cs, hreverse]
      simp
    exact ⟨hcs, by rwa [List.mem_reverse]⟩
  · rintro ⟨rfl, hnotin⟩
    refine ⟨(after.reverse, before.reverse), ?_, by simp⟩
    rw [List.reverse_append, List.reverse_cons, List.append_assoc, List.singleton_append]
    exact cut_append (by rwa [List.mem_reverse]) _

theorem cutLast_eq_none_iff {sep : Char} {cs : List Char} :
    cutLast sep cs = none ↔ sep ∉ cs := by
  rw [cutLast, Option.map_eq_none_iff, cut_eq_none_iff, List.mem_reverse]

end Text

namespace Asset

/-! ## Last segments -/

/-- The character ends the path of an address. -/
def EndsPath (c : Char) : Prop := c = '?' ∨ c = '#'

/-- The characters are the last segment of an address's path: what stands behind its last slash, up
to the query or the fragment. -/
structure IsLastSegment (url segment : List Char) : Prop where
  no_slash : '/' ∉ segment
  exists_around : ∃ front tail, url = front ++ segment ++ tail ∧
    (∀ c ∈ front ++ segment, ¬ EndsPath c) ∧ (∀ c ∈ front.getLast?, c = '/') ∧
    ∀ c ∈ tail.head?, EndsPath c

theorem bne_and_bne_eq_true_iff {c : Char} : (c != '?' && c != '#') = true ↔ ¬ EndsPath c := by
  rw [EndsPath, not_or, Bool.and_eq_true, bne_iff_ne, bne_iff_ne]

/-- The path goes as far as none of its characters ends it. -/
theorem addressPath_append {path tail : List Char} (hpath : ∀ c ∈ path, ¬ EndsPath c)
    (htail : ∀ c ∈ tail.head?, EndsPath c) : addressPath (path ++ tail) = path := by
  unfold addressPath
  rw [List.takeWhile_append_of_pos fun c hc => bne_and_bne_eq_true_iff.2 (hpath c hc)]
  cases tail with
  | nil => exact List.append_nil path
  | cons c rest =>
    rw [List.takeWhile_cons, if_neg fun h => bne_and_bne_eq_true_iff.1 h (htail c rfl)]
    exact List.append_nil path

theorem exists_addressPath_append (url : List Char) :
    ∃ tail, url = addressPath url ++ tail ∧ (∀ c ∈ addressPath url, ¬ EndsPath c) ∧
      ∀ c ∈ tail.head?, EndsPath c := by
  refine ⟨url.dropWhile fun c => c != '?' && c != '#', List.takeWhile_append_dropWhile.symm,
    fun c hc => ?_, fun c hc => ?_⟩
  · have hkept := List.mem_takeWhile_imp (p := fun c => c != '?' && c != '#') hc
    exact bne_and_bne_eq_true_iff.1 hkept
  · by_contra hends
    have hhead := List.head?_dropWhile_not (fun c => c != '?' && c != '#') url
    rw [Option.mem_def.1 hc] at hhead
    exact absurd (bne_and_bne_eq_true_iff.2 hends) (by simpa using hhead)

theorem lastSegment_append {front segment : List Char} (hfront : ∀ c ∈ front.getLast?, c = '/')
    (hsegment : '/' ∉ segment) : lastSegment (front ++ segment) = segment := by
  unfold lastSegment
  rcases hlast : front.getLast? with _ | c
  · rw [List.getLast?_eq_none_iff.1 hlast, List.nil_append, Text.cutLast_eq_none_iff.2 hsegment]
  · obtain rfl := hfront c hlast
    obtain ⟨init, rfl⟩ := List.getLast?_eq_some_iff.1 hlast
    have hcut : Text.cutLast '/' (init ++ ['/'] ++ segment) = some (init, segment) :=
      Text.cutLast_eq_some_iff.2 ⟨by simp, hsegment⟩
    rw [hcut]

theorem exists_append_lastSegment (path : List Char) :
    ∃ front, path = front ++ lastSegment path ∧ (∀ c ∈ front.getLast?, c = '/') ∧
      '/' ∉ lastSegment path := by
  unfold lastSegment
  rcases hcut : Text.cutLast '/' path with _ | ⟨before, after⟩
  · exact ⟨[], rfl, by simp, Text.cutLast_eq_none_iff.1 hcut⟩
  · obtain ⟨hpath, hafter⟩ := Text.cutLast_eq_some_iff.1 hcut
    exact ⟨before ++ ['/'], by simp [hpath], by simp, hafter⟩

/-- An address has one last segment, and it is the one that is cut off. -/
theorem isLastSegment_iff {url segment : List Char} :
    IsLastSegment url segment ↔ lastSegment (addressPath url) = segment := by
  constructor
  · rintro ⟨hslash, front, tail, rfl, hpath, hfront, htail⟩
    rw [addressPath_append hpath htail, lastSegment_append hfront hslash]
  · rintro rfl
    obtain ⟨tail, hurl, hpath, htail⟩ := exists_addressPath_append url
    obtain ⟨front, hfront, hlast, hslash⟩ := exists_append_lastSegment (addressPath url)
    refine ⟨hslash, front, tail, ?_, ?_, hlast, htail⟩
    · rw [← hfront]
      exact hurl
    · rw [← hfront]
      exact hpath

/-! ## Extensions -/

/-- One to five letters and digits. -/
structure IsExtension (ext : List Char) : Prop where
  pos : 1 ≤ ext.length
  le_five : ext.length ≤ 5
  plain : ∀ c ∈ ext, c.isAlphanum = true

theorem isPlainExtension_iff {ext : List Char} : isPlainExtension ext = true ↔ IsExtension ext := by
  rw [isPlainExtension, maxExtension, Bool.and_eq_true, Bool.and_eq_true, List.all_eq_true,
    decide_eq_true_eq, Bool.not_eq_true', List.isEmpty_eq_false_iff, ← List.length_pos_iff]
  exact ⟨fun h => ⟨h.1.1, h.1.2, h.2⟩, fun h => ⟨⟨h.pos, h.le_five⟩, h.plain⟩⟩

theorem IsExtension.dot_not_mem {ext : List Char} (h : IsExtension ext) : '.' ∉ ext := fun hdot =>
  absurd (h.plain '.' hdot) (by decide)

/-- The extension is what stands behind the last dot of the last segment, if it can be one. -/
theorem extension?_eq_some_iff {url : String} {ext : List Char} :
    extension? url = some ext ↔
      IsExtension ext ∧ ∃ stem, IsLastSegment url.toList (stem ++ '.' :: ext) := by
  simp only [isLastSegment_iff]
  unfold extension?
  rcases hcut : Text.cutLast '.' (lastSegment (addressPath url.toList)) with _ | ⟨stem, after⟩
  · rw [Text.cutLast_eq_none_iff] at hcut
    refine iff_of_false nofun ?_
    rintro ⟨-, stem, hsegment⟩
    rw [hsegment] at hcut
    exact hcut (List.mem_append_right _ List.mem_cons_self)
  · obtain ⟨hsegment, hafter⟩ := Text.cutLast_eq_some_iff.1 hcut
    simp only [Option.ite_none_right_eq_some, Option.some.injEq, isPlainExtension_iff]
    constructor
    · rintro ⟨hext, rfl⟩
      exact ⟨hext, stem, hsegment⟩
    · rintro ⟨hext, stem', hsegment'⟩
      have hcut' := Text.cutLast_eq_some_iff.2 ⟨hsegment', hext.dot_not_mem⟩
      rw [hcut] at hcut'
      obtain rfl := (Prod.mk.inj (Option.some.inj hcut')).2
      exact ⟨hext, rfl⟩

/-- An address with slashes and dots in its query and in its fragment. -/
def photoAddress : String := "https://cdn.example.com/a.b/photo.JPG?x=1/y.mp4#z.png"

example : extension? photoAddress = some ['J', 'P', 'G'] := by decide

/-! ## Names of downloads -/

/-- What the name of a download ends in: the extension of the address, if it has one. -/
inductive HasEnding (url : List Char) : List Char → Prop
  | extension {stem ext : List Char} (h : IsLastSegment url (stem ++ '.' :: ext))
    (hext : IsExtension ext) : HasEnding url ('.' :: ext)
  | none (h : ∀ stem ext, IsLastSegment url (stem ++ '.' :: ext) → ¬ IsExtension ext) :
    HasEnding url []

/-- The name is that of a download: sixty-four hexadecimal digits in lower case and the extension of
the address, if it has one. -/
def IsDownloadName (url name : String) : Prop :=
  ∃ digits ending : List Char, name.toList = digits ++ ending ∧ digits.length = 64 ∧
    (∀ c ∈ digits, c ∈ "0123456789abcdef".toList) ∧ HasEnding url.toList ending

theorem isDownloadName_downloadName (url : String) : IsDownloadName url (downloadName url) := by
  rw [IsDownloadName, downloadName, String.toList_ofList, downloadNameChars]
  refine ⟨_, _, rfl, Sha256.length_hexChars url, fun c hc => Sha256.mem_hexChars hc, ?_⟩
  rcases hextension : extension? url with _ | ext
  · refine .none fun stem ext hsegment hext => ?_
    rw [extension?_eq_some_iff.2 ⟨hext, stem, hsegment⟩] at hextension
    cases hextension
  · obtain ⟨hext, stem, hsegment⟩ := extension?_eq_some_iff.1 hextension
    exact .extension hsegment hext

/-- The letters in front of the first dash or dot are the digits, which are more than the word of
any other name has. -/
theorem length_word_of_download {url : String} {x : FileName}
    (h : (downloadName url).toList = x.chars) : x.word.toList.length = 64 := by
  obtain ⟨digits, ending, hname, hlength, hdigits, hending⟩ := isDownloadName_downloadName url
  have hplain : ∀ c ∈ digits, decide (c ≠ '-' ∧ c ≠ '.') = true := by
    intro c hc
    have hall : ∀ d ∈ "0123456789abcdef".toList, decide (d ≠ '-' ∧ d ≠ '.') = true := by decide
    exact hall c (hdigits c hc)
  have hstop : ending.takeWhile (fun c => c ≠ '-' ∧ c ≠ '.') = [] := by
    cases hending with
    | extension => exact List.takeWhile_cons_of_neg (by decide)
    | none => rfl
  rw [← x.takeWhile_chars, ← h, hname, List.takeWhile_append_of_pos hplain, hstop,
    List.append_nil, hlength]

theorem components_downloadPath (cacheDir url : String) :
    Path.components (downloadPath cacheDir url) =
      Path.components cacheDir ++ [(downloadName url).toList] :=
  Path.components_join cacheDir (isDigestName_download url).isName

end Asset

/-! ## Units of a tree -/

namespace Site

open FileName (directory video)

variable {s : Site} {a b : List Slot} {url path : String}

/-- A path that leads along directories to another name is not that of a download. -/
theorem download_ne {x : FileName} (h : s.Leads path (b.map directory ++ [x]))
    (hword : x.word.toList.length ≠ 64) :
    Path.components path ≠
      Path.components (Asset.downloadPath (s.descend a).cacheDir url) := by
  intro e
  have hdirectory := leads_cacheDir s a
  rw [Leads] at h hdirectory
  rw [h, Asset.components_downloadPath, hdirectory, List.append_assoc, List.append_right_inj,
    List.map_append, List.map_singleton] at e
  have hlast := List.append_inj' e (by rw [List.length_singleton, List.length_singleton])
  exact hword (Asset.length_word_of_download (List.cons.inj hlast.2).1.symm)

theorem download_ne_kept (h : (s.descend b).layout.Keeps path) :
    Path.components path ≠ Path.components (Asset.downloadPath (s.descend a).cacheDir url) := by
  obtain ⟨x, hword, hleads⟩ := leads_kept h
  have hshort : ∀ word ∈ Layout.keptWords, word.toList.length ≠ 64 := by decide
  exact download_ne hleads (hshort x.word hword)

theorem download_ne_cacheDir (slot : Slot) :
    Path.components (s.descend (b ++ [slot])).cacheDir ≠
      Path.components (Asset.downloadPath (s.descend a).cacheDir url) := by
  have hleads := leads_cacheDir s (b ++ [slot])
  rw [List.map_append, List.map_singleton] at hleads
  exact download_ne hleads (show "composition".toList.length ≠ 64 by decide)

theorem download_ne_output (slot : Slot) :
    Path.components (s.descend (b ++ [slot])).output ≠
      Path.components (Asset.downloadPath (s.descend a).cacheDir url) :=
  download_ne (leads_output s b slot) (show "composition".toList.length ≠ 64 by decide)

end Site

namespace RenderUnit

/-- Whatever the address, a download of any unit of a tree is one name in the unit's directory, and
is none of the files that the plans of the tree keep and none of the directories and files of its
compositions. -/
theorem download_apart (site : Site) (t : Timeline) (url : String) {v : RenderUnit}
    (hv : v ∈ (build site t).units) :
    (∃ name, Asset.IsDownloadName url name ∧
      Asset.downloadPath v.site.cacheDir url = Path.join v.site.cacheDir name ∧
      Path.components (Asset.downloadPath v.site.cacheDir url) =
        Path.components v.site.cacheDir ++ [name.toList]) ∧
    (∀ w ∈ (build site t).units, ∀ path, w.site.layout.Keeps path →
      Path.components path ≠ Path.components (Asset.downloadPath v.site.cacheDir url)) ∧
    ∀ w ∈ unitsBelow (build site t).children,
      Path.components w.site.cacheDir ≠
          Path.components (Asset.downloadPath v.site.cacheDir url) ∧
        Path.components w.site.output ≠
          Path.components (Asset.downloadPath v.site.cacheDir url) := by
  obtain ⟨a, ha⟩ := site_of_mem_units hv
  rw [ha]
  refine ⟨⟨Asset.downloadName url, Asset.isDownloadName_downloadName url, rfl,
    Asset.components_downloadPath _ url⟩, fun w hw path hkept => ?_, fun w hw => ?_⟩
  · obtain ⟨b, hb⟩ := site_of_mem_units hw
    rw [hb] at hkept
    exact Site.download_ne_kept hkept
  · obtain ⟨b, slot, hb⟩ := site_of_mem_below hw
    rw [hb]
    exact ⟨Site.download_ne_cacheDir slot, Site.download_ne_output slot⟩

def posterSite : Site := ⟨"job", "/cache/job", "/out/job.mp4"⟩

/-- A timeline that shows another one. -/
def posterNest : Timeline where
  settings := { width := 640, height := 360 }
  scenes := [{
    duration := 1.0
    nodes := [{ kind := .composition { settings := { width := 320, height := 180 } } none }] }]

theorem download_apart_photo :
    let u := build posterSite posterNest
    let download := Asset.downloadPath "/cache/job" Asset.photoAddress
    u ∈ u.units ∧
    (∃ name, Asset.IsDownloadName Asset.photoAddress name ∧
      download = Path.join "/cache/job" name ∧
      Path.components download = Path.components "/cache/job" ++ [name.toList]) ∧
    Path.components "/cache/job/scene-0.mp4" ≠ Path.components download ∧
    (∃ w ∈ unitsBelow u.children, w.site.cacheDir = "/cache/job/composition-0-0" ∧
      Path.components w.site.cacheDir ≠ Path.components download ∧
      Path.components w.site.output ≠ Path.components download) := by
  intro u download
  have hroot : u ∈ u.units := by
    rw [units_eq]
    exact List.mem_cons_self
  have hbelow : ∃ w ∈ unitsBelow u.children, w.site.cacheDir = "/cache/job/composition-0-0" := by
    decide +kernel
  have hscene : u.site.layout.Keeps "/cache/job/scene-0.mp4" := by
    have hpath : u.site.layout.scenePath 0 = "/cache/job/scene-0.mp4" := by decide +kernel
    exact hpath ▸ .scene 0
  obtain ⟨w, hw, hdirectory⟩ := hbelow
  obtain ⟨hname, hkept, hcompositions⟩ :=
    download_apart posterSite posterNest Asset.photoAddress hroot
  exact ⟨hroot, hname, hkept u hroot _ hscene, w, hw, hdirectory, hcompositions w hw⟩

end RenderUnit

end Montage
