import Mathlib.Data.List.Perm.Basic
import Montage.Jobs.Desk
import Montage.Proofs.Jobs.History

/-!
# Turns at a desk

`Desk.Step` tells all that a turn can do to the jobs and to the events that tell of them.  Every
desk that was opened empty is in order (`Desk.Kept`): whatever it tells, or is going to tell, as the
end of a job is the end of that job.
-/

namespace Montage

/-- The job as its render leaves it. -/
def Job.settled : Outcome → Job → Job
  | .ok _ => Job.moved .completed (some 1.0)
  | .error e => if e.isCancelled then Job.moved .cancelled none else Job.failed e.report

theorem Job.tame_settled (o : Outcome) : Job.Tame (Job.settled o) := by
  rcases o with e | path
  · rw [Job.settled]
    split
    · exact Job.tame_moved _ _
    · exact Job.tame_failed _
  · exact Job.tame_moved .completed (some 1.0)

theorem Registry.deliverOutcome_eq (r : Registry) (now id : Int) (o : Outcome) :
    r.deliverOutcome now id o = r.update now id (Job.settled o) := by
  rcases o with e | path
  · rw [Registry.deliverOutcome, Job.settled]
    split <;> rfl
  · rfl

namespace Desk

open Registry (Effect Fate Untouched about)

variable {d d' : Desk} {t : Turn} {id id' now : Int} {change : Job → Job} {e : JobEntry}

/-! ## What a turn does -/

/-- What the turn makes of a job, if it changes one. -/
def Turn.change? : Turn → Option (Int × Int × (Job → Job))
  | .setStatus now id status progress => some (now, id, Job.moved status progress)
  | .fail now id error => some (now, id, Job.failed error)
  | .deliverProgress now id published => some (now, id, Job.moved .running (some published))
  | .deliverOutcome now id outcome => some (now, id, Job.settled outcome)
  | _ => none

theorem tame_of_change? (hchange : t.change? = some (now, id, change)) : Job.Tame change := by
  cases t <;> cases hchange
  · exact Job.tame_moved _ _
  · exact Job.tame_failed _
  · exact Job.tame_moved _ _
  · exact Job.tame_settled _

theorem take_of_change? (d : Desk) (hchange : t.change? = some (now, id, change)) :
    d.take t = d.changed (d.registry.update now id change) := by
  cases t <;> cases hchange
  · rfl
  · rfl
  · rfl
  · rw [take, Registry.deliverOutcome_eq]

/-- What a turn does to the jobs, the drawn numbers and the events. -/
inductive Step (d d' : Desk) : Prop
  | changes {events : List JobEvent} {pruned : Option Int} :
      Effect d.registry d'.registry events pruned → d'.drawn = d.drawn →
      d'.events.Perm (d.events ++ events) → Step d d'
  | draws : d'.registry = d.registry.draw → d'.drawn = d.drawn ++ [d.registry.nextId] →
      d'.events = d.events → Step d d'
  | enters {now id : Int} {place : Nat} {output : String} : d.drawn[place]? = some id →
      d'.registry = d.registry.enter now id output → d'.drawn = d.drawn.eraseIdx place →
      d'.events = d.events → Step d d'
  | follows {id : Int} {token : Token} : d'.registry = d.registry.setToken id token →
      d'.drawn = d.drawn → d'.events = d.events → Step d d'

theorem perm_events_tell {place : Nat} {event : JobEvent} (hplace : d.untold[place]? = some event) :
    (d.take (.tell place)).events.Perm d.events := by
  obtain ⟨hlt, rfl⟩ := List.getElem?_eq_some_iff.1 hplace
  have hevents : (d.take (.tell place)).events =
      d.channel.told ++ [d.untold[place]] ++ d.untold.eraseIdx place := by
    rw [take, hplace]
    rfl
  rw [hevents, List.append_assoc, events]
  exact (List.getElem_cons_eraseIdx_perm hlt).append_left _

theorem step_self (h : d.registry.Sound) (heq : d' = d) : Step d d' := by
  subst heq
  exact .changes h.effect_self rfl (by rw [List.append_nil])

theorem step_changed (h : d.registry.Sound) (htame : Job.Tame change) (now id : Int) :
    Step d (d.changed (d.registry.update now id change)) := by
  rcases hupdate : d.registry.update now id change with _ | ⟨event, r⟩
  · exact step_self h rfl
  · refine .changes (h.effect_update htame hupdate).1 rfl (List.Perm.of_eq ?_)
    exact (List.append_assoc ..).symm

theorem step_take (h : d.registry.Sound) (t : Turn) : Step d (d.take t) := by
  rcases hchange : t.change? with _ | ⟨now, id, change⟩
  · cases t with
    | prune now =>
      exact .changes ⟨h.prune now, Int.le_refl _, h.fate_prune now⟩ rfl
        (by rw [List.append_nil]; rfl)
    | draw => exact .draws rfl rfl rfl
    | enter now place output =>
      rcases hplace : d.drawn[place]? with _ | id
      · exact step_self h (by rw [take, hplace])
      · rw [take, hplace]
        exact .enters hplace rfl rfl rfl
    | follow id token => exact .follows rfl rfl rfl
    | setStatus | fail | deliverProgress | deliverOutcome => cases hchange
    | inquire id => exact .changes h.effect_self rfl (by rw [List.append_nil]; rfl)
    | carryOut now place =>
      rcases hplace : d.inquiries[place]? with _ | q
      · exact step_self h (by rw [take, hplace])
      · have heffect := (h.effect_carryOut now q.job q.found).1
        rw [take, hplace]
        exact .changes heffect rfl (List.Perm.of_eq (List.append_assoc ..).symm)
    | tell place =>
      rcases hplace : d.untold[place]? with _ | event
      · exact step_self h (by rw [take, hplace])
      · have hperm := perm_events_tell hplace
        rw [take, hplace] at hperm ⊢
        exact .changes h.effect_self rfl (by rwa [List.append_nil])
  · rw [take_of_change? d hchange]
    exact step_changed h (tame_of_change? hchange) now id

theorem Step.nextId_le (hstep : Step d d') : d.registry.nextId ≤ d'.registry.nextId := by
  cases hstep with
  | changes heffect => exact heffect.nextId_le
  | draws hregistry => rw [hregistry]; exact Int.le_add_one (Int.le_refl _)
  | enters _ hregistry => rw [hregistry]; exact Int.le_refl _
  | follows hregistry => rw [hregistry]; exact Int.le_refl _

theorem Step.not_drawn (hstep : Step d d') (hlt : id < d.registry.nextId)
    (hdrawn : id ∉ d.drawn) : id ∉ d'.drawn := by
  cases hstep with
  | changes _ heq => rwa [heq]
  | draws _ heq =>
    rw [heq, List.mem_append, List.mem_singleton, not_or]
    exact ⟨hdrawn, Int.ne_of_lt hlt⟩
  | enters _ _ heq =>
    rw [heq]
    exact fun hmem => hdrawn (List.mem_of_mem_eraseIdx hmem)
  | follows _ heq => rwa [heq]

/-! ## Jobs that are over -/

/-- The job has ended or is gone, and does not come back. -/
structure Over (d : Desk) (id : Int) : Prop where
  lt : id < d.registry.nextId
  not_drawn : id ∉ d.drawn
  ended : ∀ e, d.registry.find? id = some e → e.Ended

theorem find?_follows {token : Token} (hregistry : d'.registry = d.registry.setToken id' token)
    (hfind : d'.registry.find? id = some e) :
    ∃ e₀, d.registry.find? id = some e₀ ∧ e₀.job = e.job := by
  rw [hregistry, Registry.find?_setToken, Option.map_eq_some_iff] at hfind
  obtain ⟨e₀, hfind, rfl⟩ := hfind
  refine ⟨e₀, hfind, ?_⟩
  split <;> rfl

theorem get?_setToken (r : Registry) (id : Int) (token : Token) (id' : Int) :
    (r.setToken id token).get? id' = r.get? id' := by
  rw [Registry.get?, Registry.find?_setToken, Option.map_map, Registry.get?]
  congr 1
  funext e
  rw [Function.comp_apply]
  split <;> rfl

theorem about_perm {events events' : List JobEvent} (h : events.Perm events') (id : Int) :
    (about id events).Perm (about id events') := h.filter _

/-- No turn touches a job that is over, unless it is dropped, and nothing more is told of it. -/
theorem Over.step (h : d.Over id) (hstep : Step d d') :
    d'.Over id ∧ (d'.registry.get? id = d.registry.get? id ∨ d'.registry.get? id = none) ∧
      (about id d'.events).Perm (about id d.events) := by
  have hlt := Int.lt_of_lt_of_le h.lt hstep.nextId_le
  have hnot := hstep.not_drawn h.lt h.not_drawn
  have hsame (hfind : d'.registry.find? id = d.registry.find? id) :
      d'.Over id ∧ d'.registry.get? id = d.registry.get? id :=
    ⟨⟨hlt, hnot, fun e he => h.ended e (hfind ▸ he)⟩, congrArg (·.map (·.job)) hfind⟩
  cases hstep with
  | changes heffect _ hevents =>
    have habout := about_perm hevents id
    rw [Registry.about_append] at habout
    cases heffect.fate id with
    | stays hfind htold _ =>
      rw [htold, List.append_nil] at habout
      exact ⟨(hsame hfind).1, Or.inl (hsame hfind).2, habout⟩
    | moves hfind hended => exact absurd (h.ended _ hfind) hended
    | drops _ _ _ hnone htold =>
      rw [htold, List.append_nil] at habout
      exact ⟨⟨hlt, hnot, fun e he => by cases hnone.symm.trans he⟩,
        Or.inr (congrArg (·.map (·.job)) hnone), habout⟩
    | begins hnew =>
      have := h.lt
      omega
  | draws hregistry _ hevents =>
    have hfind : d'.registry.find? id = d.registry.find? id := by
      rw [hregistry]
      rfl
    exact ⟨(hsame hfind).1, Or.inl (hsame hfind).2, hevents ▸ List.Perm.refl _⟩
  | @enters now other place output hplace hregistry _ hevents =>
    have hne : id ≠ other := fun heq => h.not_drawn (heq ▸ List.mem_of_getElem? hplace)
    have hfind : d'.registry.find? id = d.registry.find? id := by
      rw [hregistry]
      exact Registry.find?_enter _ _ _ hne
    exact ⟨(hsame hfind).1, Or.inl (hsame hfind).2, hevents ▸ List.Perm.refl _⟩
  | follows hregistry _ hevents =>
    refine ⟨⟨hlt, hnot, fun e hfind => ?_⟩, Or.inl ?_, hevents ▸ List.Perm.refl _⟩
    · obtain ⟨e₀, hfind₀, hjob⟩ := find?_follows hregistry hfind
      have hended := h.ended e₀ hfind₀
      rwa [JobEntry.Ended, hjob] at hended
    · rw [hregistry, get?_setToken]

/-! ## Desks in order -/

/-- What holds of every desk. -/
structure Kept (d : Desk) : Prop where
  sound : d.registry.Sound
  drawn_nodup : d.drawn.Nodup
  /-- A drawn number is not in use yet. -/
  drawn_fresh : ∀ id ∈ d.drawn, id < d.registry.nextId ∧ d.registry.find? id = none
  /-- An event that ends a job tells the truth. -/
  told_ended : ∀ event ∈ d.events, event.status.isTerminal = true → d.Over event.job

theorem kept_opened (retention : Nat) : (opened retention).Kept where
  sound := Registry.sound_empty retention
  drawn_nodup := List.nodup_nil
  drawn_fresh _ h := absurd h List.not_mem_nil
  told_ended _ h := absurd h List.not_mem_nil

theorem Kept.not_drawn (h : d.Kept) (hfind : d.registry.find? id = some e) : id ∉ d.drawn :=
  fun hmem => by cases (h.drawn_fresh id hmem).2.symm.trans hfind

theorem Kept.over_of_ended (h : d.Kept) (hfind : d.registry.find? id = some e) (hended : e.Ended) :
    d.Over id where
  lt := h.sound.id_lt_of_find? hfind
  not_drawn := h.not_drawn hfind
  ended e' hfind' := by rwa [Option.some.inj (hfind'.symm.trans hfind)]

/-- As long as a job has not ended no event tells of its end. -/
theorem Kept.not_terminal (h : d.Kept) (hfind : d.registry.find? id = some e) (hended : ¬ e.Ended)
    {event : JobEvent} (hevent : event ∈ about id d.events) : event.status.isTerminal = false := by
  obtain ⟨hmem, hjob⟩ := List.mem_filter.1 hevent
  by_contra hterminal
  have hover := h.told_ended event hmem (Bool.not_eq_false _ ▸ hterminal)
  rw [beq_iff_eq.1 hjob] at hover
  exact hended (hover.ended e hfind)

theorem not_mem_eraseIdx {ids : List Int} (hids : ids.Nodup) {place : Nat}
    (hplace : ids[place]? = some id) : id ∉ ids.eraseIdx place := by
  obtain ⟨hlt, rfl⟩ := List.getElem?_eq_some_iff.1 hplace
  exact (List.nodup_cons.1 ((List.getElem_cons_eraseIdx_perm hlt).nodup_iff.2 hids)).1

theorem Kept.step (h : d.Kept) (hstep : Step d d') : d'.Kept := by
  -- What was told before stays true because the jobs that it ended are over.
  have hover : ∀ event ∈ d.events, event.status.isTerminal = true → d'.Over event.job :=
    fun event hmem hterminal => ((h.told_ended event hmem hterminal).step hstep).1
  cases hstep with
  | changes heffect hdrawn hevents =>
    have hfresh : ∀ id ∈ d'.drawn, id < d'.registry.nextId ∧ d'.registry.find? id = none := by
      intro id hid
      obtain ⟨hlt, hnone⟩ := h.drawn_fresh id (hdrawn ▸ hid)
      refine ⟨Int.lt_of_lt_of_le hlt heffect.nextId_le, ?_⟩
      cases heffect.fate id with
      | stays hfind => exact hfind.trans hnone
      | moves hfind | drops hfind => cases hnone.symm.trans hfind
      | begins hnew => omega
    refine ⟨heffect.sound, hdrawn ▸ h.drawn_nodup, hfresh, fun event hmem hterminal => ?_⟩
    rcases List.mem_append.1 (hevents.mem_iff.1 hmem) with hold | hnew
    · exact hover event hold hterminal
    · obtain ⟨e, hfind, hevent⟩ := heffect.exists_of_mem hnew
      have hended : e.Ended := by rwa [hevent] at hterminal
      refine ⟨heffect.sound.id_lt_of_find? hfind, fun hmem => ?_, fun e' hfind' => ?_⟩
      · cases (hfresh _ hmem).2.symm.trans hfind
      · rwa [Option.some.inj (hfind'.symm.trans hfind)]
  | draws hregistry hdrawn hevents =>
    have hnone := h.sound.find?_eq_none_of_le (Int.le_refl d.registry.nextId)
    refine ⟨?_, ?_, ?_, hevents ▸ hover⟩
    · rw [hregistry]
      exact h.sound.draw
    · rw [hdrawn, List.nodup_append]
      refine ⟨h.drawn_nodup, List.nodup_singleton _, fun id hid id' hid' => ?_⟩
      rw [List.mem_singleton.1 hid']
      exact Int.ne_of_lt (h.drawn_fresh id hid).1
    · intro id hid
      rw [hregistry]
      rw [hdrawn, List.mem_append, List.mem_singleton] at hid
      rcases hid with hid | rfl
      · obtain ⟨hlt, hfind⟩ := h.drawn_fresh id hid
        exact ⟨Int.lt_add_one_of_le (Int.le_of_lt hlt), hfind⟩
      · exact ⟨Int.lt_succ _, hnone⟩
  | @enters now other place output hplace hregistry hdrawn hevents =>
    obtain ⟨hlt, hnone⟩ := h.drawn_fresh other (List.mem_of_getElem? hplace)
    refine ⟨?_, ?_, ?_, hevents ▸ hover⟩
    · rw [hregistry]
      exact h.sound.enter hlt hnone now output
    · rw [hdrawn]
      exact h.drawn_nodup.sublist (List.eraseIdx_sublist ..)
    · intro id hid
      rw [hdrawn] at hid
      have hne : id ≠ other := by
        rintro rfl
        exact not_mem_eraseIdx h.drawn_nodup hplace hid
      obtain ⟨hlt', hnone'⟩ := h.drawn_fresh id (List.mem_of_mem_eraseIdx hid)
      rw [hregistry]
      exact ⟨hlt', (Registry.find?_enter _ _ _ hne).trans hnone'⟩
  | follows hregistry hdrawn hevents =>
    refine ⟨?_, hdrawn ▸ h.drawn_nodup, ?_, hevents ▸ hover⟩
    · rw [hregistry]
      exact h.sound.setToken ..
    · intro id hid
      obtain ⟨hlt, hnone⟩ := h.drawn_fresh id (hdrawn ▸ hid)
      rw [hregistry, Registry.find?_setToken, hnone]
      exact ⟨hlt, rfl⟩

theorem Kept.take (h : d.Kept) (t : Turn) : (d.take t).Kept := h.step (step_take h.sound t)

/-! ## Jobs and cancellations that a turn leaves alone -/

/-- The job that the turn is for. -/
def Turn.target? (d : Desk) : Turn → Option Int
  | .follow id _ | .setStatus _ id _ _ | .fail _ id _ | .deliverProgress _ id _
  | .deliverOutcome _ id _ => some id
  | .carryOut _ place => d.inquiries[place]?.map (·.job)
  | _ => none

theorem registry_carryOut {place : Nat} {q : Inquiry} (hplace : d.inquiries[place]? = some q)
    (now : Int) :
    (d.take (.carryOut now place)).registry = (d.registry.carryOut now q.job q.found).2.2 := by
  rw [take, hplace]

theorem target?_of_change? (hchange : t.change? = some (now, id, change)) :
    t.target? d = some id := by
  cases t <;> cases hchange <;> rfl

/-- A turn that is for another job leaves the job as it is, or drops it when it has ended. -/
theorem Kept.find?_take (h : d.Kept) (hdrawn : id ∉ d.drawn) (htarget : t.target? d ≠ some id) :
    (d.take t).registry.find? id = d.registry.find? id ∨
      (d.take t).registry.find? id = none ∧ ∃ e, d.registry.find? id = some e ∧ e.Ended := by
  rcases hchange : t.change? with _ | ⟨now, id', change⟩
  · cases t with
    | prune now =>
      cases h.sound.fate_prune now id with
      | stays hfind => exact Or.inl hfind
      | moves _ _ _ _ htold => cases htold
      | drops hfind _ hexpired hnone => exact Or.inr ⟨hnone, _, hfind, hexpired.1⟩
      | begins _ hnone hfind _ _ =>
        have hsome := (h.sound.find?_prune now id).symm.trans hfind
        rw [hnone] at hsome
        cases hsome
    | draw | inquire => exact Or.inl rfl
    | enter now place output =>
      refine Or.inl ?_
      rcases hplace : d.drawn[place]? with _ | other
      · rw [Desk.take, hplace]
      · have hne : id ≠ other := fun heq => hdrawn (heq ▸ List.mem_of_getElem? hplace)
        rw [Desk.take, hplace]
        exact Registry.find?_enter _ _ _ hne
    | follow other token =>
      refine Or.inl ?_
      rw [Desk.take, Registry.find?_setToken]
      rcases hfind : d.registry.find? id with _ | e
      · rfl
      · have hne : (e.job.id == other) = false := by
          rw [beq_eq_false_iff_ne, Registry.id_of_find? hfind]
          exact fun heq => htarget (congrArg some heq.symm)
        rw [Option.map_some, hne, if_neg Bool.false_ne_true]
    | setStatus | fail | deliverProgress | deliverOutcome => cases hchange
    | carryOut now place =>
      refine Or.inl ?_
      rcases hplace : d.inquiries[place]? with _ | q
      · rw [Desk.take, hplace]
      · have hne : id ≠ q.job := by
          rintro rfl
          exact htarget (by rw [Turn.target?, hplace]; rfl)
        rw [registry_carryOut hplace]
        exact ((h.sound.effect_carryOut now q.job q.found).2.2 id hne).1
    | tell place =>
      rw [Desk.take]
      split <;> exact Or.inl rfl
  · have hne : id ≠ id' := by
      rintro rfl
      exact htarget (target?_of_change? hchange)
    rw [take_of_change? d hchange]
    rcases hupdate : d.registry.update now id' change with _ | ⟨event, r⟩
    · exact Or.inl rfl
    · exact Or.inl ((h.sound.effect_update (tame_of_change? hchange) hupdate).2.2 id hne).1

theorem inquiries_changed (d : Desk) (update : Option (JobEvent × Registry)) :
    (d.changed update).inquiries = d.inquiries := by
  cases update <;> rfl

/-- A cancellation was under way before the turn, or it is looked into in the turn. -/
theorem mem_inquiries_take {q : Inquiry} (hq : q ∈ (d.take t).inquiries) :
    q ∈ d.inquiries ∨ q.found = d.registry.cancellation q.job := by
  rcases hchange : t.change? with _ | ⟨now, id, change⟩
  · cases t with
    | inquire id =>
      rcases List.mem_append.1 hq with hq | hq
      · exact Or.inl hq
      · cases List.mem_singleton.1 hq
        exact Or.inr rfl
    | carryOut now place =>
      rw [take] at hq
      split at hq
      · exact Or.inl (List.mem_of_mem_eraseIdx hq)
      · exact Or.inl hq
    | enter | tell =>
      rw [take] at hq
      split at hq <;> exact Or.inl hq
    | setStatus | fail | deliverProgress | deliverOutcome => cases hchange
    | prune | draw | follow => exact Or.inl hq
  · rw [take_of_change? d hchange, inquiries_changed] at hq
    exact Or.inl hq

/-! ## Runs -/

theorem run_append (d : Desk) (first rest : List Turn) :
    d.run (first ++ rest) = (d.run first).run rest := List.foldl_append ..

/-- What every turn keeps is kept by a run. -/
theorem run_induction {P : Desk → Prop} {Q : Turn → Prop} {turns : List Turn}
    (hstep : ∀ d, P d → ∀ t, Q t → P (d.take t)) (h : P d)
    (hturns : ∀ t ∈ turns, Q t) : P (d.run turns) := by
  induction turns generalizing d with
  | nil => exact h
  | cons t rest ih =>
    exact ih (hstep d h t (hturns t List.mem_cons_self)) fun t ht =>
      hturns t (List.mem_cons_of_mem _ ht)

theorem Kept.run (h : d.Kept) (turns : List Turn) : (d.run turns).Kept :=
  run_induction (Q := fun _ => True) (fun _ h t _ => h.take t) h fun _ _ => trivial

/-- Whatever happens, a job that is over stays as it is or is dropped, and nothing more is told of
it. -/
theorem Over.run (h : d.Over id) (hkept : d.Kept) (turns : List Turn) :
    (d.run turns).Over id ∧
      ((d.run turns).registry.get? id = d.registry.get? id ∨
        (d.run turns).registry.get? id = none) ∧
      (about id (d.run turns).events).Perm (about id d.events) := by
  induction turns generalizing d with
  | nil => exact ⟨h, Or.inl rfl, List.Perm.refl _⟩
  | cons t rest ih =>
    obtain ⟨hover, hget, habout⟩ := h.step (step_take hkept.sound t)
    obtain ⟨hover', hget', habout'⟩ := ih hover (hkept.take t)
    refine ⟨hover', ?_, habout'.trans habout⟩
    rcases hget with hget | hget
    · rwa [hget] at hget'
    · rw [hget, or_self_iff] at hget'
      exact Or.inr hget'

/-! ## Turns that are not interrupted -/

theorem run_create (hdrawn : d.drawn = []) (pruned now : Int) (output : String) :
    d.run [.prune pruned, .draw, .enter now 0 output] =
      { d with registry := ((d.registry.prune pruned).2.insert now output).2 } := by
  simp [run, take, hdrawn, Registry.insert, Registry.draw, Registry.prune]

theorem run_attach (d : Desk) (now id : Int) (token : Token) :
    d.run [.follow id token, .setStatus now id .running none] =
      { d with
        registry := (d.registry.attach now id token).2
        followed := ⟨id, token⟩ :: d.followed
        untold := d.untold ++ (d.registry.attach now id token).1 } := by
  rw [run, List.foldl_cons, List.foldl_cons, List.foldl_nil, take, take, Registry.attach]
  rcases (d.registry.setToken id token).setStatus now id .running none with _ | ⟨event, r⟩
  · simp [changed]
  · rfl

/-- The desk when a job was asked to be cancelled and nobody came in between. -/
def cancelled (d : Desk) (now id : Int) : Desk :=
  let (done, events, registry) := d.registry.cancel now id
  { d with
    registry
    granted := if done then id :: d.granted else d.granted
    untold := d.untold ++ events }

theorem run_cancel (hinquiries : d.inquiries = []) (now id : Int) :
    d.run [.inquire id, .carryOut now 0] = d.cancelled now id := by
  obtain ⟨registry, drawn, followed, inquiries, granted, untold, channel⟩ := d
  subst hinquiries
  rfl

theorem run_cancelEach (hinquiries : d.inquiries = []) (now : Int) (ids : List Int) :
    (d.run (ids.flatMap fun id => [.inquire id, .carryOut now 0])).registry =
        (d.registry.cancelEach now ids).2.2 ∧
      (d.run (ids.flatMap fun id => [.inquire id, .carryOut now 0])).untold =
        d.untold ++ (d.registry.cancelEach now ids).2.1 := by
  induction ids generalizing d with
  | nil => exact ⟨rfl, (List.append_nil _).symm⟩
  | cons id rest ih =>
    rw [List.flatMap_cons, run_append, run_cancel hinquiries, Registry.cancelEach]
    obtain ⟨hregistry, huntold⟩ := ih (d := d.cancelled now id) hinquiries
    exact ⟨hregistry, huntold.trans (List.append_assoc ..)⟩

end Desk

end Montage
