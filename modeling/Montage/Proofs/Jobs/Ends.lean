import Montage.Proofs.Jobs.Turns

/-!
# The end of a job is told once

Among all events at a desk there is at most one that ends a given job, and it shows the job as it
stands since then (`Desk.Chronicled`).
-/

namespace Montage

namespace Registry

/-- The events that end a job. -/
def endings (id : Int) (events : List JobEvent) : List JobEvent :=
  (about id events).filter (·.status.isTerminal)

variable {id : Int} {e : JobEvent} {events events' : List JobEvent}

@[simp] theorem endings_nil : endings id [] = [] := rfl

@[simp] theorem endings_append :
    endings id (events ++ events') = endings id events ++ endings id events' := by
  rw [endings, about_append, List.filter_append, ← endings, ← endings]

theorem mem_endings : e ∈ endings id events ↔
    e ∈ events ∧ e.job = id ∧ e.status.isTerminal = true := by
  rw [endings, List.mem_filter, about, List.mem_filter, beq_iff_eq, and_assoc]

theorem endings_of_not_terminal (h : e.status.isTerminal = false) : endings id [e] = [] :=
  List.eq_nil_iff_forall_not_mem.2 fun e' he' => by
    obtain ⟨hmem, -, hterminal⟩ := mem_endings.1 he'
    rw [List.mem_singleton.1 hmem, h] at hterminal
    cases hterminal

theorem endings_of_terminal (hjob : e.job = id) (h : e.status.isTerminal = true) :
    endings id [e] = [e] := by
  simp [endings, about, hjob, h]

theorem endings_of_ne (h : e.job ≠ id) : endings id [e] = [] :=
  List.eq_nil_iff_forall_not_mem.2 fun e' he' => by
    obtain ⟨hmem, hjob, -⟩ := mem_endings.1 he'
    rw [List.mem_singleton.1 hmem] at hjob
    exact h hjob

end Registry

namespace Desk

open Registry (Effect Fate about endings)

variable {d d' : Desk} {t : Turn} {id : Int} {e : JobEntry}

/-- The events that end a job. -/
def ends (d : Desk) (id : Int) : List JobEvent := endings id d.events

/-- Each job ends at most once, and the event that ends it shows it as it stands. -/
structure Chronicled (d : Desk) : Prop where
  once : ∀ id, (d.ends id).length ≤ 1
  shown : ∀ id e, d.registry.find? id = some e → e.Ended → d.ends id = [e.job.event]

/-- A job of which an event tells the end is over. -/
theorem Kept.over_of_mem_ends {event : JobEvent} (h : d.Kept) (hevent : event ∈ d.ends id) :
    d.Over id := by
  obtain ⟨hmem, rfl, hterminal⟩ := Registry.mem_endings.1 hevent
  exact h.told_ended event hmem hterminal

theorem Kept.ends_eq_nil (h : d.Kept) (hover : ¬ d.Over id) : d.ends id = [] :=
  List.eq_nil_iff_forall_not_mem.2 fun _ hevent => hover (h.over_of_mem_ends hevent)

theorem ends_perm {events : List JobEvent} (h : d'.events.Perm (d.events ++ events)) (id : Int) :
    (d'.ends id).Perm (d.ends id ++ endings id events) := by
  rw [ends, ends, ← Registry.endings_append]
  exact (about_perm h id).filter _

theorem Over.ends_perm (h : d.Over id) (hstep : Step d d') : (d'.ends id).Perm (d.ends id) :=
  (h.step hstep).2.2.filter _

/-- The turn tells nothing of the job, and what it makes of the job has not ended. -/
theorem Kept.chronicled_of_quiet (h : d.Kept) (hover : ¬ d.Over id)
    (hevents : (d'.ends id).Perm (d.ends id))
    (hopen : ∀ e, d'.registry.find? id = some e → ¬ e.Ended) :
    (d'.ends id).length ≤ 1 ∧
      ∀ e, d'.registry.find? id = some e → e.Ended → d'.ends id = [e.job.event] := by
  rw [h.ends_eq_nil hover, List.perm_nil] at hevents
  exact ⟨by rw [hevents]; exact Nat.zero_le 1, fun e hfind hended => absurd hended (hopen e hfind)⟩

theorem Chronicled.step (h : d.Chronicled) (hkept : d.Kept) (hstep : Step d d') :
    d'.Chronicled := by
  suffices hall : ∀ id, (d'.ends id).length ≤ 1 ∧
      ∀ e, d'.registry.find? id = some e → e.Ended → d'.ends id = [e.job.event] from
    ⟨fun id => (hall id).1, fun id => (hall id).2⟩
  intro id
  by_cases hover : d.Over id
  · have hperm := hover.ends_perm hstep
    refine ⟨hperm.length_eq ▸ h.once id, fun e hfind hended => ?_⟩
    have hget : d'.registry.get? id = some e.job := congrArg (·.map (·.job)) hfind
    -- A job that is over and still there has not changed.
    rcases (hover.step hstep).2.1 with hsame | hnone
    · obtain ⟨e₀, hfind₀, hjob⟩ := Option.map_eq_some_iff.1 (hsame.symm.trans hget)
      rw [h.shown id e₀ hfind₀ (hover.ended e₀ hfind₀), hjob] at hperm
      exact List.perm_singleton.1 hperm
    · cases hnone.symm.trans hget
  · have hopen (e : JobEntry) (hfind : d.registry.find? id = some e) : ¬ e.Ended :=
      fun hended => hover (hkept.over_of_ended hfind hended)
    cases hstep with
    | changes heffect _ hevents =>
      have hperm := ends_perm hevents id
      cases heffect.fate id with
      | stays hfind htold _ =>
        rw [endings, htold, List.filter_nil, List.append_nil] at hperm
        exact hkept.chronicled_of_quiet hover hperm fun e he => hopen e (hfind ▸ he)
      | @moves e e' _ _ hfind' _ htold =>
        rw [endings, htold, hkept.ends_eq_nil hover, List.nil_append] at hperm
        refine ⟨hperm.length_eq ▸ List.length_filter_le .., fun e₁ hfind₁ hended => ?_⟩
        cases hfind'.symm.trans hfind₁
        have hends : [e'.job.event].filter (·.status.isTerminal) = [e'.job.event] :=
          List.filter_cons_of_pos hended
        rw [hends] at hperm
        exact List.perm_singleton.1 hperm
      | drops hfind _ hexpired => exact absurd hexpired.1 (hopen _ hfind)
      | begins _ _ hfind hended htold =>
        rw [endings, htold, List.filter_nil, List.append_nil] at hperm
        refine hkept.chronicled_of_quiet hover hperm fun e he => ?_
        rwa [← Option.some.inj (hfind.symm.trans he)]
    | draws hregistry _ hevents =>
      have hperm : (d'.ends id).Perm (d.ends id) := by rw [ends, hevents, ← ends]
      refine hkept.chronicled_of_quiet hover hperm fun e he => hopen e ?_
      rw [hregistry] at he
      exact he
    | @enters now other place output hplace hregistry _ hevents =>
      have hperm : (d'.ends id).Perm (d.ends id) := by rw [ends, hevents, ← ends]
      refine hkept.chronicled_of_quiet hover hperm fun e he => ?_
      rw [hregistry] at he
      by_cases hid : id = other
      · subst hid
        have hnone := (hkept.drawn_fresh id (List.mem_of_getElem? hplace)).2
        cases (Registry.find?_enter_self hnone now output).symm.trans he
        exact Bool.false_ne_true
      · rw [Registry.find?_enter _ _ _ hid] at he
        exact hopen e he
    | follows hregistry _ hevents =>
      have hperm : (d'.ends id).Perm (d.ends id) := by rw [ends, hevents, ← ends]
      refine hkept.chronicled_of_quiet hover hperm fun e he => ?_
      obtain ⟨e₀, hfind₀, hjob⟩ := find?_follows hregistry he
      rw [JobEntry.Ended, ← hjob]
      exact hopen e₀ hfind₀

/-- An event that ends a job is the only one to do so. -/
theorem Chronicled.ends_eq {event : JobEvent} (h : d.Chronicled) (hevent : event ∈ d.ends id) :
    d.ends id = [event] := by
  rcases hends : d.ends id with _ | ⟨first, _ | ⟨second, rest⟩⟩
  · rw [hends] at hevent
    cases hevent
  · rw [hends] at hevent
    rw [List.mem_singleton.1 hevent]
  · have honce := h.once id
    rw [hends, List.length_cons, List.length_cons] at honce
    omega

/-- The event that ends a job shows the job as it stands, while it is there. -/
theorem Chronicled.eq_event {event : JobEvent} {j : Job} (h : d.Chronicled) (hkept : d.Kept)
    (hevent : event ∈ d.ends id) (hget : d.registry.get? id = some j) : event = j.event := by
  obtain ⟨entry, hfind, rfl⟩ := Option.map_eq_some_iff.1 hget
  rw [h.shown id entry hfind ((hkept.over_of_mem_ends hevent).ended entry hfind)] at hevent
  exact List.mem_singleton.1 hevent

/-- Before the event that ends a job none has been told that does. -/
theorem Chronicled.endings_eq_nil {event : JobEvent} {told later : List JobEvent}
    (h : d.Chronicled) (htold : d.channel.told = told ++ [event] ++ later)
    (hjob : event.job = id) (hterminal : event.status.isTerminal = true) :
    endings id told = [] := by
  have honce := h.once id
  rw [ends, events, htold] at honce
  simp only [Registry.endings_append, Registry.endings_of_terminal hjob hterminal,
    List.length_append, List.length_singleton] at honce
  exact List.eq_nil_of_length_eq_zero (by omega)

theorem chronicled_opened (retention : Nat) : (opened retention).Chronicled :=
  ⟨fun _ => Nat.zero_le 1, nofun⟩

theorem Chronicled.take (h : d.Chronicled) (hkept : d.Kept) (t : Turn) : (d.take t).Chronicled :=
  h.step hkept (step_take hkept.sound t)

end Desk

end Montage
