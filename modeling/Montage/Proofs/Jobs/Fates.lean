import Mathlib.Data.List.Basic
import Montage.Proofs.Jobs.Entries

/-!
# Commands to a registry

A registry obeys commands, each with readings of a clock that may be set back.  `Registry.Fate`
tells all that can become of a job: it is left alone, or changed and told of once, or dropped, or it
begins.  Every command has this effect on every job (`Registry.Sound.effect_obey`), and what it
answers for its own job is told case by case.
-/

namespace Montage.Registry

/-- What a registry is asked to do. -/
inductive Command where
  /-- The clock is read twice: for dropping ended jobs, and for the new one. -/
  | create (pruned now : Int) (output : String)
  | setStatus (now id : Int) (status : JobStatus) (progress : Option Float)
  | fail (now id : Int) (error : String)
  | cancel (now id : Int)
  | cancelAll (now : Int)
  | prune (now : Int)
  deriving Repr, DecidableEq

inductive Reply where
  | created (id : Int)
  | done (accepted : Bool)
  | count (n : Nat)
  deriving Repr, DecidableEq

namespace Command

/-- When the command drops ended jobs. -/
def pruning? : Command → Option Int
  | .create pruned _ _ => some pruned
  | .prune now => some now
  | _ => none

/-- The job that the command is for. -/
def target? : Command → Option Int
  | .setStatus _ id _ _ => some id
  | .fail _ id _ => some id
  | .cancel _ id => some id
  | _ => none

end Command

/-- What comes of a change that may be refused. -/
def settled (r : Registry) : Option (JobEvent × Registry) → Reply × List JobEvent × Registry
  | some (event, r) => (.done true, [event], r)
  | none => (.done false, [], r)

/-- Does what a command asks for. -/
def obey (r : Registry) : Command → Reply × List JobEvent × Registry
  | .create pruned now output =>
    let (id, r) := (r.prune pruned).2.insert now output
    (.created id, [], r)
  | .setStatus now id status progress => r.settled (r.setStatus now id status progress)
  | .fail now id error => r.settled (r.fail now id error)
  | .cancel now id =>
    let (done, events, r) := r.cancel now id
    (.done done, events, r)
  | .cancelAll now =>
    let (count, events, r) := r.cancelAll now
    (.count count, events, r)
  | .prune now =>
    let (count, r) := r.prune now
    (.count count, [], r)

/-- With one reading of the clock a new job is taken in by `Registry.create`. -/
theorem obey_create (r : Registry) (now : Int) (output : String) :
    r.obey (.create now now output) =
      (.created (r.create now output).1, [], (r.create now output).2) := rfl

/-- The events that tell of a job. -/
def about (id : Int) (events : List JobEvent) : List JobEvent := events.filter (·.job == id)

variable {r r' r'' : Registry} {e e' : JobEntry} {id id' now : Int} {change : Job → Job}
  {events events' : List JobEvent} {pruned : Option Int} {c : Command}

/-! ## What becomes of a job -/

/-- What becomes of a job between two states of a registry. -/
inductive Fate (r r' : Registry) (events : List JobEvent) (pruned : Option Int) (id : Int) : Prop
  | stays : r'.find? id = r.find? id → about id events = [] →
      (∀ now, pruned = some now → ∀ e, r.find? id = some e → ¬ e.Expired r.retention now) →
      Fate r r' events pruned id
  | moves {e e' : JobEntry} : r.find? id = some e → ¬ e.Ended → r'.find? id = some e' →
      e.job.progress ≤ e'.job.progress → about id events = [e'.job.event] →
      Fate r r' events pruned id
  | drops {e : JobEntry} {now : Int} : r.find? id = some e → pruned = some now →
      e.Expired r.retention now → r'.find? id = none → about id events = [] →
      Fate r r' events pruned id
  | begins {e : JobEntry} : id = r.nextId → r.find? id = none → r'.find? id = some e →
      ¬ e.Ended → about id events = [] → Fate r r' events pruned id

/-- What a command does to a registry. -/
structure Effect (r r' : Registry) (events : List JobEvent) (pruned : Option Int) : Prop where
  sound : r'.Sound
  nextId_le : r.nextId ≤ r'.nextId
  fate : ∀ id, Fate r r' events pruned id

/-- Nothing happens to the job, and nothing is told of it. -/
def Untouched (r r' : Registry) (events : List JobEvent) (id : Int) : Prop :=
  r'.find? id = r.find? id ∧ about id events = []

theorem Untouched.fate (h : Untouched r r' events id) : Fate r r' events none id :=
  .stays h.1 h.2 nofun

theorem about_append (id : Int) (events events' : List JobEvent) :
    about id (events ++ events') = about id events ++ about id events' :=
  List.filter_append ..

theorem about_singleton_self {j : Job} (h : j.id = id) : about id [j.event] = [j.event] := by
  simpa [about, Job.event] using h

theorem about_singleton_of_ne {j : Job} (h : j.id ≠ id) : about id [j.event] = [] := by
  simpa [about, Job.event] using h

theorem Untouched.trans (h : Untouched r r' events id) (h' : Untouched r' r'' events' id) :
    Untouched r r'' (events ++ events') id :=
  ⟨h'.1.trans h.1, by rw [about_append, h.2, h'.2, List.append_nil]⟩

theorem Untouched.fate_trans (h : Untouched r r' events id)
    (h' : Fate r' r'' events' none id) (hnext : r'.nextId = r.nextId) :
    Fate r r'' (events ++ events') none id := by
  have habout : about id (events ++ events') = about id events' := by
    rw [about_append, h.2, List.nil_append]
  cases h' with
  | stays hfind htold _ => exact .stays (hfind.trans h.1) (habout.trans htold) nofun
  | moves hfind hended hfind' hgrows htold =>
    exact .moves (h.1 ▸ hfind) hended hfind' hgrows (habout.trans htold)
  | drops _ hpruned => cases hpruned
  | begins hid hnone hfind hended htold =>
    exact .begins (hid.trans hnext) (h.1 ▸ hnone) hfind hended (habout.trans htold)

theorem Fate.trans_untouched (h : Fate r r' events none id)
    (h' : Untouched r' r'' events' id) : Fate r r'' (events ++ events') none id := by
  have habout : about id (events ++ events') = about id events := by
    rw [about_append, h'.2, List.append_nil]
  cases h with
  | stays hfind htold _ => exact .stays (h'.1.trans hfind) (habout.trans htold) nofun
  | moves hfind hended hfind' hgrows htold =>
    exact .moves hfind hended (h'.1.trans hfind') hgrows (habout.trans htold)
  | drops _ hpruned => cases hpruned
  | begins hid hnone hfind hended htold =>
    exact .begins hid hnone (h'.1.trans hfind) hended (habout.trans htold)

/-! ## Single changes -/

/-- A change touches no job but its own. -/
theorem Sound.effect_update (h : r.Sound) (htame : Job.Tame change) {event : JobEvent}
    (hupdate : r.update now id change = some (event, r')) :
    Effect r r' [event] none ∧ r'.nextId = r.nextId ∧ ∀ id' ≠ id, Untouched r r' [event] id' := by
  obtain ⟨e, hfind, hended, rfl, rfl⟩ := update_eq_some_iff.1 hupdate
  have hid := id_changed htame hfind now
  have hothers (id' : Int) (hne : id' ≠ id) :
      Untouched r (r.replace id (e.changed now change)) [(change e.job).event] id' :=
    ⟨find?_replace_of_ne hid hne, about_singleton_of_ne fun e => hne (e.symm.trans hid)⟩
  have hself : Fate r (r.replace id (e.changed now change)) [(change e.job).event] none id :=
    .moves hfind hended (find?_replace_changed htame hfind now)
      (htame.grows _ (h.number e (mem_of_find? hfind))) (about_singleton_self hid)
  refine ⟨⟨h.replace_changed htame hfind hended now, Int.le_refl _, fun id' => ?_⟩, rfl, hothers⟩
  by_cases hne : id' = id
  · exact hne ▸ hself
  · exact (hothers id' hne).fate

theorem Sound.effect_self (h : r.Sound) : Effect r r [] none :=
  ⟨h, Int.le_refl _, fun _ => .stays rfl rfl nofun⟩

theorem Sound.effect_settled (h : r.Sound) (htame : Job.Tame change) (now id : Int) :
    Effect r (r.settled (r.update now id change)).2.2
      (r.settled (r.update now id change)).2.1 none := by
  rcases hupdate : r.update now id change with _ | ⟨event, r'⟩
  · exact h.effect_self
  · exact (h.effect_update htame hupdate).1

/-! ## Cancelling -/

theorem cancellation_eq_refused (h : ∀ e, r.find? id = some e → e.Ended) :
    r.cancellation id = .refused := by
  rw [cancellation]
  split
  · rfl
  · next e hfind => exact if_pos (h e hfind)

theorem cancellation_of_not_ended (hfind : r.find? id = some e) (hended : ¬ e.Ended) :
    r.cancellation id = match e.token with
      | some token => .fire token
      | none => .finish := by
  rw [cancellation, hfind]
  exact if_neg hended

theorem carryOut_finish (r : Registry) (now id : Int) :
    r.carryOut now id .finish = match r.update now id (Job.moved .cancelled none) with
      | some (event, r') => (true, [event], r')
      | none => (false, [], r) := rfl

/-- Cancelling a job touches no other one. -/
theorem Sound.effect_carryOut (h : r.Sound) (now id : Int) (found : Cancellation) :
    Effect r (r.carryOut now id found).2.2 (r.carryOut now id found).2.1 none ∧
      (r.carryOut now id found).2.2.nextId = r.nextId ∧
      ∀ id' ≠ id, Untouched r (r.carryOut now id found).2.2 (r.carryOut now id found).2.1 id' := by
  have hnothing : ∀ id' ≠ id, Untouched r r [] id' := fun _ _ => ⟨rfl, rfl⟩
  cases found with
  | refused => exact ⟨h.effect_self, rfl, hnothing⟩
  | fire token =>
    exact ⟨⟨h.fire token, Int.le_refl _, fun _ => .stays rfl rfl nofun⟩, rfl, fun _ _ => ⟨rfl, rfl⟩⟩
  | finish =>
    rw [carryOut_finish]
    rcases hupdate : r.update now id (Job.moved .cancelled none) with _ | ⟨event, r'⟩
    · exact ⟨h.effect_self, rfl, hnothing⟩
    · exact h.effect_update (Job.tame_moved _ _) hupdate

/-- Each job is cancelled at most once, so at most one event tells of it. -/
theorem Sound.effect_cancelEach (h : r.Sound) (now : Int) {ids : List Int} (hids : ids.Nodup) :
    Effect r (r.cancelEach now ids).2.2 (r.cancelEach now ids).2.1 none ∧
      (r.cancelEach now ids).2.2.nextId = r.nextId ∧
      ∀ id ∉ ids, Untouched r (r.cancelEach now ids).2.2 (r.cancelEach now ids).2.1 id := by
  induction ids generalizing r with
  | nil => exact ⟨h.effect_self, rfl, fun _ _ => ⟨rfl, rfl⟩⟩
  | cons id rest ih =>
    obtain ⟨hnotin, hrest⟩ := List.nodup_cons.1 hids
    obtain ⟨hfirst, hnext, hothers⟩ := h.effect_carryOut now id (r.cancellation id)
    obtain ⟨heffect, hnext', huntouched⟩ := ih hfirst.sound hrest
    rw [cancelEach, cancel]
    refine ⟨⟨heffect.sound, Int.le_trans hfirst.nextId_le heffect.nextId_le, fun id' => ?_⟩,
      hnext'.trans hnext, fun id' hid' => ?_⟩
    · by_cases hid : id' = id
      · subst hid
        exact (hfirst.fate id').trans_untouched (huntouched id' hnotin)
      · exact (hothers id' hid).fate_trans (heffect.fate id') hnext
    · rw [List.mem_cons, not_or] at hid'
      exact (hothers id' hid'.1).trans (huntouched id' hid'.2)

theorem Sound.nodup_activeIds (h : r.Sound) : r.activeIds.Nodup :=
  (List.filter_sublist.map _).nodup h.nodup

/-! ## Dropping and taking in -/

theorem Sound.fate_prune (h : r.Sound) (now id : Int) :
    Fate r (r.prune now).2 [] (some now) id := by
  have hprune := h.find?_prune now id
  rcases hfind : r.find? id with _ | e <;> rw [hfind] at hprune
  · refine .stays (hprune.trans hfind.symm) rfl ?_
    rintro _ - e hsome
    cases hfind.symm.trans hsome
  · rcases hkeeps : r.keeps now e
    · refine .drops hfind rfl (keeps_eq_false_iff.1 hkeeps) ?_ rfl
      rw [hprune, Option.filter_some, hkeeps, if_neg Bool.false_ne_true]
    · rw [Option.filter_some, hkeeps, if_pos rfl] at hprune
      refine .stays (hprune.trans hfind.symm) rfl ?_
      rintro _ ⟨⟩ e' hsome
      cases hfind.symm.trans hsome
      exact keeps_eq_true_iff.1 hkeeps

theorem Sound.effect_create (h : r.Sound) (pruned now : Int) (output : String) :
    Effect r ((r.prune pruned).2.insert now output).2 [] (some pruned) := by
  have hprune := h.prune pruned
  refine ⟨hprune.insert now output, Int.le_add_one (Int.le_refl _), fun id => ?_⟩
  by_cases hid : id = r.nextId
  · subst hid
    refine .begins rfl (h.find?_eq_none_of_le (Int.le_refl _))
      (hprune.find?_insert_self now output) ?_ rfl
    exact Bool.false_ne_true
  · have hinsert : ((r.prune pruned).2.insert now output).2.find? id =
        (r.prune pruned).2.find? id :=
      find?_enter (r.prune pruned).2.draw now output hid
    cases h.fate_prune pruned id with
    | stays hfind _ hkept => exact .stays (hinsert.trans hfind) rfl hkept
    | moves _ _ _ _ htold => cases htold
    | drops hfind hpruned hexpired hnone _ =>
      exact .drops hfind hpruned hexpired (hinsert.trans hnone) rfl
    | begins hid' => exact absurd hid' hid

/-! ## Commands -/

theorem Sound.effect_obey (h : r.Sound) (c : Command) :
    Effect r (r.obey c).2.2 (r.obey c).2.1 c.pruning? := by
  cases c with
  | create pruned now output => exact h.effect_create pruned now output
  | setStatus now id status progress => exact h.effect_settled (Job.tame_moved ..) now id
  | fail now id error => exact h.effect_settled (Job.tame_failed _) now id
  | cancel now id => exact (h.effect_carryOut now id _).1
  | cancelAll now => exact (h.effect_cancelEach now h.nodup_activeIds).1
  | prune now => exact ⟨h.prune now, Int.le_refl _, h.fate_prune now⟩

/-- What is asked of an ended job is refused and changes nothing. -/
theorem obey_of_ended (htarget : c.target? = some id) (hfind : r.find? id = some e)
    (hended : e.Ended) : r.obey c = (.done false, [], r) := by
  have hall : ∀ e', r.find? id = some e' → e'.Ended := by
    intro e' hfind'
    cases hfind.symm.trans hfind'
    exact hended
  cases c <;> cases htarget
  · rw [obey, setStatus, update_of_ended hall]
    rfl
  · rw [obey, Registry.fail, update_of_ended hall]
    rfl
  · rw [obey, cancel, cancellation_eq_refused hall]
    rfl

/-- What the command makes of its job, if it is no cancellation. -/
def Command.change? : Command → Option (Int × Int × (Job → Job))
  | .setStatus now id status progress => some (now, id, Job.moved status progress)
  | .fail now id error => some (now, id, Job.failed error)
  | _ => none

theorem tame_of_change? (hchange : c.change? = some (now, id, change)) : Job.Tame change := by
  cases c <;> cases hchange
  · exact Job.tame_moved _ _
  · exact Job.tame_failed _

theorem obey_of_change (hchange : c.change? = some (now, id, change)) (hfind : r.find? id = some e)
    (hended : ¬ e.Ended) :
    r.obey c = (.done true, [(change e.job).event], r.replace id (e.changed now change)) := by
  cases c <;> cases hchange
  · rw [obey, setStatus, update_of_not_ended hfind hended]
    rfl
  · rw [obey, Registry.fail, update_of_not_ended hfind hended]
    rfl

/-- A job without a render is cancelled at once. -/
theorem obey_cancel_of_no_token (hfind : r.find? id = some e) (hended : ¬ e.Ended)
    (htoken : e.token = none) (now : Int) :
    r.obey (.cancel now id) = (.done true, [(Job.moved .cancelled none e.job).event],
      r.replace id (e.changed now (Job.moved .cancelled none))) := by
  rw [obey, cancel, cancellation_of_not_ended hfind hended, htoken]
  dsimp only
  rw [carryOut_finish, update_of_not_ended hfind hended]

/-- The render of a job is asked to stop, and the job waits for it. -/
theorem obey_cancel_of_token (hfind : r.find? id = some e) (hended : ¬ e.Ended) {token : Token}
    (htoken : e.token = some token) (now : Int) :
    r.obey (.cancel now id) = (.done true, [], r.fire token) := by
  rw [obey, cancel, cancellation_of_not_ended hfind hended, htoken]
  rfl

end Montage.Registry
