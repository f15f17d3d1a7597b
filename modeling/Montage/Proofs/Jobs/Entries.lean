import Mathlib.Data.List.Nodup
import Montage.Jobs.Delivery
import Montage.Proofs.Scalar.Order

/-!
# The entries of a registry

What each operation does to the entry of each job.  `Registry.Sound` is what holds of every
registry: no two jobs share a number, all numbers lie below the next one, a progress is a number,
and an error belongs to a job that failed.  Every operation keeps it.
-/

namespace Montage

namespace JobEntry

/-- The job has come to its end. -/
def Ended (e : JobEntry) : Prop := e.job.status.isTerminal = true

instance (e : JobEntry) : Decidable e.Ended := inferInstanceAs (Decidable (_ = true))

/-- The entry once its job is changed. -/
def changed (e : JobEntry) (now : Int) (change : Job → Job) : JobEntry :=
  ⟨change e.job, if (change e.job).status.isTerminal then none else e.token, now⟩

/-- The last change of an ended job lies back for as long as ended jobs are kept. -/
def Expired (e : JobEntry) (retention : Nat) (now : Int) : Prop :=
  e.Ended ∧ (retention : Int) ≤ now - e.updated

instance (e : JobEntry) (retention : Nat) (now : Int) : Decidable (e.Expired retention now) :=
  inferInstanceAs (Decidable (_ ∧ _))

end JobEntry

/-- What any change does to a job: its number stays, its progress does not fall, and an error comes
with failure alone. -/
structure Job.Tame (change : Job → Job) : Prop where
  id_eq : ∀ j, (change j).id = j.id
  number : ∀ j, j.progress.isNaN = false → (change j).progress.isNaN = false
  grows : ∀ j, j.progress.isNaN = false → j.progress ≤ (change j).progress
  error_failed : ∀ j, j.error = none → (change j).error ≠ none → (change j).status = .failed

theorem Job.tame_moved (status : JobStatus) (progress : Option Float) :
    Job.Tame (Job.moved status progress) where
  id_eq _ := rfl
  number j h := by
    cases progress with
    | none => exact h
    | some p => exact Scalar.isNaN_greatest p h
  grows j h := by
    cases progress with
    | none => exact Scalar.le_self h
    | some p => exact Scalar.le_greatest p h
  error_failed _ h herror := absurd h herror

theorem Job.tame_failed (error : String) : Job.Tame (Job.failed error) where
  id_eq _ := rfl
  number _ h := h
  grows _ h := Scalar.le_self h
  error_failed _ _ _ := rfl

namespace Registry

variable {r r' : Registry} {e e' : JobEntry} {id id' now : Int} {change : Job → Job}
  {event : JobEvent}

/-- What holds of every registry. -/
structure Sound (r : Registry) : Prop where
  nodup : (r.entries.map (·.job.id)).Nodup
  id_lt : ∀ e ∈ r.entries, e.job.id < r.nextId
  number : ∀ e ∈ r.entries, e.job.progress.isNaN = false
  error_failed : ∀ e ∈ r.entries, e.job.error ≠ none → e.job.status = .failed

theorem sound_empty (retention : Nat) : Sound { retention } where
  nodup := List.nodup_nil
  id_lt _ h := absurd h List.not_mem_nil
  number _ h := absurd h List.not_mem_nil
  error_failed _ h := absurd h List.not_mem_nil

/-! ## Looking up -/

theorem mem_of_find? (h : r.find? id = some e) : e ∈ r.entries := List.mem_of_find?_eq_some h

theorem id_of_find? (h : r.find? id = some e) : e.job.id = id := by
  simpa using List.find?_some h

theorem find?_eq_none : r.find? id = none ↔ ∀ e ∈ r.entries, e.job.id ≠ id := by
  simp [find?]

theorem Sound.eq_of_id_eq (h : r.Sound) (he : e ∈ r.entries) (he' : e' ∈ r.entries)
    (hid : e.job.id = e'.job.id) : e = e' :=
  List.inj_on_of_nodup_map h.nodup he he' hid

theorem Sound.find?_of_mem (h : r.Sound) (he : e ∈ r.entries) : r.find? e.job.id = some e := by
  rcases hfind : r.find? e.job.id with _ | e'
  · exact absurd rfl (find?_eq_none.1 hfind e he)
  · rw [h.eq_of_id_eq (mem_of_find? hfind) he (id_of_find? hfind)]

theorem Sound.find?_eq_some_iff (h : r.Sound) :
    r.find? id = some e ↔ e ∈ r.entries ∧ e.job.id = id :=
  ⟨fun hfind => ⟨mem_of_find? hfind, id_of_find? hfind⟩, fun ⟨he, hid⟩ => hid ▸ h.find?_of_mem he⟩

theorem Sound.find?_eq_none_of_le (h : r.Sound) (hid : r.nextId ≤ id) : r.find? id = none := by
  rw [find?_eq_none]
  intro e he e'
  have := h.id_lt e he
  omega

/-! ## Dropping and taking in -/

theorem keeps_eq_false_iff : r.keeps now e = false ↔ e.Expired r.retention now := by
  simp only [keeps, isExpired, Bool.not_eq_false', Bool.and_eq_true, decide_eq_true_eq,
    JobEntry.Expired, JobEntry.Ended]
  have := Int.natCast_nonneg r.retention
  constructor
  · rintro ⟨hended, -, hage⟩
    exact ⟨hended, hage⟩
  · rintro ⟨hended, hage⟩
    exact ⟨hended, by omega, hage⟩

theorem keeps_eq_true_iff : r.keeps now e = true ↔ ¬ e.Expired r.retention now := by
  rw [← keeps_eq_false_iff, Bool.not_eq_false]

theorem Sound.prune (h : r.Sound) (now : Int) : (r.prune now).2.Sound where
  nodup := (List.filter_sublist.map _).nodup h.nodup
  id_lt _ he := h.id_lt _ (List.mem_of_mem_filter he)
  number _ he := h.number _ (List.mem_of_mem_filter he)
  error_failed _ he := h.error_failed _ (List.mem_of_mem_filter he)

theorem Sound.find?_prune (h : r.Sound) (now id : Int) :
    (r.prune now).2.find? id = (r.find? id).filter (r.keeps now) := by
  rcases hfind : r.find? id with _ | e
  · rw [Option.filter_none, find?_eq_none]
    exact fun e he => find?_eq_none.1 hfind e (List.mem_of_mem_filter he)
  · rcases hkeeps : r.keeps now e
    · rw [Option.filter_some, hkeeps, if_neg Bool.false_ne_true, find?_eq_none]
      intro e' he' hid
      have heq := h.eq_of_id_eq (mem_of_find? hfind) (List.mem_of_mem_filter he')
        ((id_of_find? hfind).trans hid.symm)
      have hkept := List.of_mem_filter he'
      rw [← heq, hkeeps] at hkept
      cases hkept
    · rw [Option.filter_some, hkeeps, if_pos rfl, (h.prune now).find?_eq_some_iff]
      exact ⟨List.mem_filter.2 ⟨mem_of_find? hfind, hkeeps⟩, id_of_find? hfind⟩

/-- The entry of a job that is taken in. -/
def newEntry (now id : Int) (output : String) : JobEntry :=
  { job := { id, output }, updated := now }

theorem mem_enter {output : String} (h : e ∈ (r.enter now id output).entries) :
    e ∈ r.entries ∨ e = newEntry now id output := by
  rwa [enter, List.mem_append, List.mem_singleton] at h

theorem Sound.draw (h : r.Sound) : r.draw.Sound :=
  ⟨h.nodup, fun e he => Int.lt_add_one_of_le (Int.le_of_lt (h.id_lt e he)), h.number,
    h.error_failed⟩

/-- A job may be taken in under a number that was drawn and is not in use. -/
theorem Sound.enter (h : r.Sound) (hlt : id < r.nextId) (hfresh : r.find? id = none) (now : Int)
    (output : String) : (r.enter now id output).Sound where
  nodup := by
    rw [Registry.enter, List.map_append, List.nodup_append]
    refine ⟨h.nodup, List.nodup_singleton _, ?_⟩
    intro a ha b hb
    obtain ⟨e, he, rfl⟩ := List.mem_map.1 ha
    rw [List.mem_singleton.1 hb]
    exact find?_eq_none.1 hfresh e he
  id_lt e he := by
    rcases mem_enter he with he | rfl
    · exact h.id_lt e he
    · exact hlt
  number e he := by
    rcases mem_enter he with he | rfl
    · exact h.number e he
    · change (0.0 : Float).isNaN = false
      decide
  error_failed e he := by
    rcases mem_enter he with he | rfl
    · exact h.error_failed e he
    · exact fun herror => absurd rfl herror

theorem find?_enter (r : Registry) (now : Int) (output : String) (hne : id' ≠ id) :
    (r.enter now id output).find? id' = r.find? id' := by
  have hnew : [newEntry now id output].find? (·.job.id == id') = none := by
    simpa [newEntry] using hne.symm
  change (r.entries ++ [newEntry now id output]).find? (·.job.id == id') = _
  rw [List.find?_append, hnew, Option.or_none]
  rfl

theorem find?_enter_self (hfresh : r.find? id = none) (now : Int) (output : String) :
    (r.enter now id output).find? id = some (newEntry now id output) := by
  change (r.entries ++ [newEntry now id output]).find? (·.job.id == id) = _
  have hfresh : r.entries.find? (·.job.id == id) = none := hfresh
  rw [List.find?_append, hfresh, Option.none_or]
  simp [newEntry]

theorem Sound.insert (h : r.Sound) (now : Int) (output : String) :
    (r.insert now output).2.Sound :=
  h.draw.enter (Int.lt_succ r.nextId) (h.find?_eq_none_of_le (Int.le_refl _)) now output

theorem Sound.find?_insert_self (h : r.Sound) (now : Int) (output : String) :
    (r.insert now output).2.find? r.nextId = some (newEntry now r.nextId output) :=
  find?_enter_self (r := r.draw) (h.find?_eq_none_of_le (Int.le_refl _)) now output

/-! ## Replacing -/

theorem find?_replace (hentry : e.job.id = id) (id' : Int) :
    (r.replace id e).find? id' =
      (r.find? id').map fun e' => if e'.job.id == id then e else e' := by
  rw [replace, find?, List.find?_map]
  congr 2
  funext e'
  rw [Function.comp_apply]
  split
  · next hid => rw [hentry, beq_iff_eq.1 hid]
  · rfl

theorem find?_replace_of_ne (hentry : e.job.id = id) (hne : id' ≠ id) :
    (r.replace id e).find? id' = r.find? id' := by
  rw [find?_replace hentry]
  rcases hfind : r.find? id' with _ | e'
  · rfl
  · have hid : (e'.job.id == id) = false := by simpa [id_of_find? hfind] using hne
    rw [Option.map_some, hid, if_neg Bool.false_ne_true]

theorem find?_replace_self (hentry : e.job.id = id) (hfind : r.find? id = some e') :
    (r.replace id e).find? id = some e := by
  have hid : (e'.job.id == id) = true := by simpa using id_of_find? hfind
  rw [find?_replace hentry, hfind, Option.map_some, hid, if_pos rfl]

theorem mem_replace (h : e' ∈ (r.replace id e).entries) : e' = e ∨ e' ∈ r.entries := by
  obtain ⟨e₁, he₁, rfl⟩ := List.mem_map.1 h
  split
  · exact Or.inl rfl
  · exact Or.inr he₁

theorem map_id_replace (hentry : e.job.id = id) :
    (r.replace id e).entries.map (·.job.id) = r.entries.map (·.job.id) := by
  rw [replace, List.map_map]
  refine List.map_congr_left fun e' _ => ?_
  rw [Function.comp_apply]
  split
  · next hid => rw [hentry, beq_iff_eq.1 hid]
  · rfl

/-! ## Changing -/

theorem update_eq_some_iff : r.update now id change = some (event, r') ↔
    ∃ e, r.find? id = some e ∧ ¬ e.Ended ∧ event = (change e.job).event ∧
      r' = r.replace id (e.changed now change) := by
  rw [update]
  constructor
  · intro h
    split at h
    · cases h
    · next e hfind =>
      split at h
      · cases h
      · next hended =>
        cases h
        exact ⟨e, hfind, hended, rfl, rfl⟩
  · rintro ⟨e, hfind, hended, rfl, rfl⟩
    rw [hfind]
    exact if_neg hended

/-- A job that has ended, or is not there, does not change. -/
theorem update_of_ended (h : ∀ e, r.find? id = some e → e.Ended) (now : Int) (change : Job → Job) :
    r.update now id change = none := by
  rcases hupdate : r.update now id change with _ | ⟨event, r'⟩
  · rfl
  · obtain ⟨e, hfind, hended, -⟩ := update_eq_some_iff.1 hupdate
    exact absurd (h e hfind) hended

theorem update_of_not_ended (hfind : r.find? id = some e) (hended : ¬ e.Ended) (now : Int)
    (change : Job → Job) :
    r.update now id change =
      some ((change e.job).event, r.replace id (e.changed now change)) :=
  update_eq_some_iff.2 ⟨e, hfind, hended, rfl, rfl⟩

theorem id_changed (htame : Job.Tame change) (hfind : r.find? id = some e) (now : Int) :
    (e.changed now change).job.id = id :=
  (htame.id_eq _).trans (id_of_find? hfind)

theorem find?_replace_changed (htame : Job.Tame change) (hfind : r.find? id = some e) (now : Int) :
    (r.replace id (e.changed now change)).find? id = some (e.changed now change) :=
  find?_replace_self (id_changed htame hfind now) hfind

theorem Sound.replace_changed (h : r.Sound) (htame : Job.Tame change) (hfind : r.find? id = some e)
    (hended : ¬ e.Ended) (now : Int) : (r.replace id (e.changed now change)).Sound := by
  have he := mem_of_find? hfind
  have hid := id_changed htame hfind now
  have hfailed : e.job.error ≠ none → e.job.status = .failed := h.error_failed e he
  constructor
  · rw [map_id_replace hid]
    exact h.nodup
  all_goals
    intro e' he'
    rcases mem_replace he' with rfl | he'
  · rw [hid, ← id_of_find? hfind]
    exact h.id_lt e he
  · exact h.id_lt e' he'
  · exact htame.number _ (h.number e he)
  · exact h.number e' he'
  · refine htame.error_failed _ ?_
    by_contra herror
    exact hended (by rw [JobEntry.Ended, hfailed herror]; rfl)
  · exact h.error_failed e' he'

theorem Sound.update (h : r.Sound) (htame : Job.Tame change)
    (hupdate : r.update now id change = some (event, r')) : r'.Sound := by
  obtain ⟨e, hfind, hended, -, rfl⟩ := update_eq_some_iff.1 hupdate
  exact h.replace_changed htame hfind hended now

/-! ## Tokens -/

theorem find?_setToken (r : Registry) (id : Int) (token : Token) (id' : Int) :
    (r.setToken id token).find? id' =
      (r.find? id').map fun e => if e.job.id == id then { e with token := some token } else e := by
  rw [setToken, find?, List.find?_map]
  congr 2
  funext e
  rw [Function.comp_apply]
  split <;> rfl

theorem Sound.setToken (h : r.Sound) (id : Int) (token : Token) : (r.setToken id token).Sound := by
  have hmem {e : JobEntry} (he : e ∈ (r.setToken id token).entries) :
      ∃ e₁ ∈ r.entries, e.job = e₁.job := by
    obtain ⟨e₁, he₁, rfl⟩ := List.mem_map.1 he
    refine ⟨e₁, he₁, ?_⟩
    split <;> rfl
  constructor
  · have hids : (r.setToken id token).entries.map (·.job.id) = r.entries.map (·.job.id) := by
      rw [Registry.setToken, List.map_map]
      refine List.map_congr_left fun e _ => ?_
      rw [Function.comp_apply]
      split <;> rfl
    rw [hids]
    exact h.nodup
  all_goals
    intro e he
    obtain ⟨e₁, he₁, hjob⟩ := hmem he
    rw [hjob]
  · exact h.id_lt e₁ he₁
  · exact h.number e₁ he₁
  · exact h.error_failed e₁ he₁

theorem Sound.fire (h : r.Sound) (token : Token) : (r.fire token).Sound :=
  ⟨h.nodup, h.id_lt, h.number, h.error_failed⟩

theorem Sound.attach (h : r.Sound) (now id : Int) (token : Token) :
    (r.attach now id token).2.Sound := by
  have hset := h.setToken id token
  rw [Registry.attach]
  split
  · next hupdate => exact hset.update (Job.tame_moved _ _) hupdate
  · exact hset

end Registry

end Montage
