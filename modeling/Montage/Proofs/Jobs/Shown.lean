import Montage.Proofs.Jobs.Closing

/-!
# What is shown of a job

Nothing that is told of a job, and nothing that waits to be told, shows more progress than the job
does while it is kept, and changes wait in the order in which they were made.  What ends the job
shows the most (`Viewing.Ranked`).  This holds when a stream is opened and stays so with every turn
at the desk and every step of the stream (`Viewing.Ranked.run`).
-/

namespace Montage

open Registry (about)

/-- No event shows less progress than one in front of it. -/
def JobEvent.Rising (events : List JobEvent) : Prop :=
  events.Pairwise fun a b => a.progress ≤ b.progress

instance (events : List JobEvent) : Decidable (JobEvent.Rising events) :=
  inferInstanceAs (Decidable (events.Pairwise _))

theorem JobEvent.Rising.concat {told : List JobEvent} {e : JobEvent} (h : Rising told)
    (hle : ∀ a ∈ told, a.progress ≤ e.progress) : Rising (told ++ [e]) := by
  unfold Rising
  rw [List.pairwise_append]
  refine ⟨h, List.pairwise_singleton _ _, fun a ha b hb => ?_⟩
  rw [List.mem_singleton.1 hb]
  exact hle a ha

open JobEvent (Rising)

/-! ## What a turn is to one job -/

namespace Desk

variable {d : Desk} {t : Turn} {id : Int}

/-- The number was drawn and is not waiting for its job any more. -/
def Known (d : Desk) (id : Int) : Prop := id < d.registry.nextId ∧ id ∉ d.drawn

theorem Known.take (h : d.Known id) (hsound : d.registry.Sound) (t : Turn) :
    (d.take t).Known id := by
  have hstep := step_take hsound t
  exact ⟨Int.lt_of_lt_of_le h.1 hstep.nextId_le, hstep.not_drawn h.1 h.2⟩

theorem Kept.known {e : JobEntry} (h : d.Kept) (hfind : d.registry.find? id = some e) :
    d.Known id :=
  ⟨h.sound.id_lt_of_find? hfind, h.not_drawn hfind⟩

/-- What a turn is to one job. -/
inductive Bearing (d : Desk) (t : Turn) (id : Int) : Prop
  | rests : (d.take t).channel = d.channel → about id (d.take t).untold = about id d.untold →
      ((d.take t).registry.get? id = d.registry.get? id ∨ (d.take t).registry.get? id = none) →
      Bearing d t id
  | begins : (d.take t).channel = d.channel → about id (d.take t).untold = about id d.untold →
      ¬ d.Known id → Bearing d t id
  | moves {e e' : JobEntry} : (d.take t).channel = d.channel → d.registry.find? id = some e →
      ¬ e.Ended → (d.take t).registry.find? id = some e' → e.job.progress ≤ e'.job.progress →
      about id (d.take t).untold = about id d.untold ++ [e'.job.event] → Bearing d t id
  | tells {place : Nat} {event : JobEvent} : t = .tell place → d.untold[place]? = some event →
      (d.take t).registry = d.registry →
      (d.take t).channel.told = d.channel.told ++ [event] →
      (d.take t).untold = d.untold.eraseIdx place → Bearing d t id

/-- Only telling takes from what is still to be told. -/
theorem untold_take (ht : ∀ place, t ≠ .tell place) :
    (d.take t).channel = d.channel ∧ ∃ new, (d.take t).untold = d.untold ++ new := by
  rcases hchange : t.change? with _ | ⟨now, id, change⟩
  · cases t with
    | tell place => exact absurd rfl (ht place)
    | enter =>
      rw [take]
      split <;> exact ⟨rfl, [], (List.append_nil _).symm⟩
    | carryOut =>
      rw [take]
      split
      · exact ⟨rfl, _, rfl⟩
      · exact ⟨rfl, [], (List.append_nil _).symm⟩
    | setStatus | fail | deliverProgress | deliverOutcome => cases hchange
    | prune | draw | follow | inquire => exact ⟨rfl, [], (List.append_nil _).symm⟩
  · rw [take_of_change? d hchange]
    rcases d.registry.update now id change with _ | ⟨event, r⟩
    · exact ⟨rfl, [], (List.append_nil _).symm⟩
    · exact ⟨rfl, [event], rfl⟩

theorem bearing_tell (d : Desk) (place : Nat) (id : Int) : Bearing d (.tell place) id := by
  rcases hplace : d.untold[place]? with _ | event
  · have htake : d.take (.tell place) = d := by rw [take, hplace]
    refine .rests ?_ ?_ (Or.inl ?_) <;> rw [htake]
  · refine .tells rfl hplace ?_ ?_ ?_ <;> rw [take, hplace]
    rfl

theorem bearing_take (h : d.registry.Sound) (t : Turn) (id : Int) : Bearing d t id := by
  by_cases htell : ∃ place, t = .tell place
  · obtain ⟨place, rfl⟩ := htell
    exact bearing_tell d place id
  obtain ⟨hchannel, new, huntold⟩ := untold_take (d := d) fun place ht => htell ⟨place, ht⟩
  have hevents : (d.take t).events = d.events ++ new := by
    rw [events, hchannel, huntold, ← List.append_assoc]
    rfl
  have habout : about id (d.take t).untold = about id d.untold ++ about id new := by
    rw [huntold, Registry.about_append]
  have hquiet (hnew : about id new = []) : about id (d.take t).untold = about id d.untold := by
    rw [habout, hnew, List.append_nil]
  have hstill (hsame : (d.take t).events = d.events) :
      about id (d.take t).untold = about id d.untold := by
    refine hquiet ?_
    rw [List.append_right_eq_self.1 (hevents.symm.trans hsame)]
    rfl
  cases step_take h t with
  | @changes told _ heffect _ hperm =>
    rw [hevents] at hperm
    have hnew := about_perm ((List.perm_append_left_iff _).1 hperm) id
    cases heffect.fate id with
    | stays hfind htold _ =>
      rw [htold, List.perm_nil] at hnew
      exact .rests hchannel (hquiet hnew) (Or.inl (congrArg (·.map (·.job)) hfind))
    | moves hfind hended hfind' hgrows htold =>
      rw [htold, List.perm_singleton] at hnew
      exact .moves hchannel hfind hended hfind' hgrows (hnew ▸ habout)
    | drops _ _ _ hnone htold =>
      rw [htold, List.perm_nil] at hnew
      exact .rests hchannel (hquiet hnew) (Or.inr (congrArg (·.map (·.job)) hnone))
    | begins hid _ _ _ htold =>
      rw [htold, List.perm_nil] at hnew
      exact .begins hchannel (hquiet hnew) fun hknown => Int.ne_of_lt hknown.1 hid
  | draws hregistry _ hsame =>
    refine .rests hchannel (hstill hsame) (Or.inl ?_)
    rw [hregistry]
    rfl
  | @enters now other place output hplace hregistry _ hsame =>
    by_cases hid : id = other
    · refine .begins hchannel (hstill hsame) fun hknown => hknown.2 ?_
      exact hid ▸ List.mem_of_getElem? hplace
    · refine .rests hchannel (hstill hsame) (Or.inl ?_)
      rw [hregistry, Registry.get?, Registry.find?_enter _ _ _ hid]
      rfl
  | @follows other token hregistry _ hsame =>
    refine .rests hchannel (hstill hsame) (Or.inl ?_)
    rw [hregistry, get?_setToken]

end Desk

namespace Viewing

variable {v : Viewing} {s : EventStream} {step : Step}

/-! ## What has been shown of a job -/

/-- All that shows the job: what the stream has told and is to begin with, and all events at the
desk. -/
def shown (v : Viewing) : List JobEvent :=
  v.items ++ (v.stream.bind (·.snapshot)).toList ++ about v.job v.desk.events

theorem mem_shown {a : JobEvent} : a ∈ v.shown ↔
    a ∈ v.items ∨ a ∈ (v.stream.bind (·.snapshot)).toList ∨
      a ∈ about v.job v.desk.channel.told ∨ a ∈ about v.job v.desk.untold := by
  simp only [shown, Desk.events, Registry.about_append, List.mem_append, or_assoc]

/-- What holds of all that shows a job. -/
structure Ranked (v : Viewing) : Prop where
  known : ∀ a ∈ v.shown, v.desk.Known v.job
  below : ∀ a ∈ v.shown, ∀ j, v.desk.registry.get? v.job = some j → a.progress ≤ j.progress
  /-- Changes wait to be told in the order in which they were made. -/
  untold : Rising (about v.job v.desk.untold)
  /-- Nothing shows more than what ends the job. -/
  last : ∀ a ∈ v.shown, a.status.isTerminal = true → ∀ b ∈ v.shown, b.progress ≤ a.progress

theorem ranked_opened (retention : Nat) (job : Int) : (opened retention job).Ranked where
  known _ h := absurd h List.not_mem_nil
  below _ h := absurd h List.not_mem_nil
  untold := List.Pairwise.nil
  last _ h := absurd h List.not_mem_nil

/-- What ends the job is shown only when the job is over. -/
theorem Sound.over_of_shown (h : v.Sound) {a : JobEvent} (ha : a ∈ v.shown)
    (hterminal : a.status.isTerminal = true) : v.desk.Over v.job := by
  rcases List.mem_append.1 ha with ha | ha
  · rcases hs : v.stream with _ | s
    · rw [hs, h.silent hs] at ha
      cases ha
    · obtain ⟨earlier, e, hitems, hearlier, hlast, hends⟩ := (h.reading s hs).last
      have hitems : v.items ++ (v.stream.bind (·.snapshot)).toList = earlier ++ [e] := by
        rw [hs]
        exact hitems
      rw [hitems] at ha
      rcases List.mem_append.1 ha with ha | ha
      · exact absurd ((hearlier a ha).symm.trans hterminal) Bool.false_ne_true
      · rw [List.mem_singleton.1 ha, hlast] at hterminal
        exact h.kept.over_of_mem_ends (hends hterminal ▸ List.mem_singleton_self e)
  · obtain ⟨hmem, hjob⟩ := List.mem_filter.1 ha
    exact h.kept.over_of_mem_ends (Registry.mem_endings.2 ⟨hmem, beq_iff_eq.1 hjob, hterminal⟩)

/-- Nothing new is shown, and the job is where it was or gone. -/
theorem Ranked.mono {v' : Viewing} (h : v.Ranked) (hjob : v'.job = v.job)
    (hshown : ∀ a ∈ v'.shown, a ∈ v.shown) (hknown : v.desk.Known v.job → v'.desk.Known v.job)
    (hget : ∀ j, v'.desk.registry.get? v.job = some j → v.desk.registry.get? v.job = some j)
    (huntold : Rising (about v.job v'.desk.untold)) : v'.Ranked where
  known a ha := hjob ▸ hknown (h.known a (hshown a ha))
  below a ha j hj := h.below a (hshown a ha) j (hget j (hjob ▸ hj))
  untold := hjob ▸ huntold
  last a ha hterminal b hb := h.last a (hshown a ha) hterminal b (hshown b hb)

/-- The job is shown once more, as it stands. -/
theorem ranked_of_shown {v' : Viewing} {j : Job} (hjob : v'.job = v.job)
    (hshown : ∀ a ∈ v'.shown, a = j.event ∨ a ∈ v.shown) (hnumber : j.progress.isNaN = false)
    (hbelow : ∀ a ∈ v.shown, a.progress ≤ j.progress) (hknown : v'.desk.Known v.job)
    (hget : v'.desk.registry.get? v.job = some j)
    (hlast : ∀ a ∈ v.shown, a.status.isTerminal = true → a = j.event)
    (huntold : Rising (about v.job v'.desk.untold)) : v'.Ranked := by
  have hle : ∀ a ∈ v'.shown, a.progress ≤ j.progress := by
    intro a ha
    rcases hshown a ha with rfl | ha
    · exact Scalar.le_self hnumber
    · exact hbelow a ha
  refine ⟨fun _ _ => hjob ▸ hknown, fun a ha j' hj' => ?_, hjob ▸ huntold,
    fun a ha hterminal b hb => ?_⟩
  · rw [hjob, hget] at hj'
    exact Option.some.inj hj' ▸ hle a ha
  · have ha : a = j.event := by
      rcases hshown a ha with ha | ha
      · exact ha
      · exact hlast a ha hterminal
    rw [ha]
    exact hle b hb

theorem Ranked.turn (h : v.Ranked) (hsound : v.Sound) (t : Desk.Turn) :
    (v.take (.turn t)).Ranked := by
  have hshown (htold : about v.job (v.desk.take t).channel.told = about v.job v.desk.channel.told)
      (huntold : about v.job (v.desk.take t).untold = about v.job v.desk.untold) :
      ∀ a ∈ (v.take (.turn t)).shown, a ∈ v.shown := by
    intro a ha
    rw [mem_shown] at ha ⊢
    simpa only [take, htold, huntold] using ha
  cases Desk.bearing_take hsound.kept.sound t v.job with
  | rests hchannel huntold hget =>
    refine h.mono rfl (hshown (by rw [hchannel]) huntold)
      (fun hknown => hknown.take hsound.kept.sound t) (fun j hj => ?_) (huntold ▸ h.untold)
    rcases hget with hget | hget
    · exact hget ▸ hj
    · cases hget.symm.trans hj
  | begins hchannel huntold hnew =>
    have hnone : ∀ a, a ∉ v.shown := fun a ha => hnew (h.known a ha)
    have hnone' : ∀ a, a ∉ (v.take (.turn t)).shown := fun a ha =>
      hnone a (hshown (by rw [hchannel]) huntold a ha)
    exact ⟨fun a ha => absurd ha (hnone' a), fun a ha => absurd ha (hnone' a), huntold ▸ h.untold,
      fun a ha => absurd ha (hnone' a)⟩
  | @moves e e' hchannel hfind hended hfind' hgrows huntold =>
    have hkept := hsound.kept.take t
    have hbelow : ∀ a ∈ v.shown, a.progress ≤ e'.job.progress := fun a ha =>
      Scalar.le_trans (h.below a ha e.job (congrArg (·.map (·.job)) hfind)) hgrows
    have hnumber := hkept.sound.number e' (Registry.mem_of_find? hfind')
    refine ranked_of_shown (v := v) rfl (fun a ha => ?_) hnumber hbelow (hkept.known hfind')
      (congrArg (·.map (·.job)) hfind') (fun a ha hterminal => ?_) ?_
    · rw [mem_shown] at ha ⊢
      simp only [take, hchannel, huntold, List.mem_append, List.mem_singleton] at ha ⊢
      grind
    · exact absurd ((hsound.over_of_shown ha hterminal).ended e hfind) hended
    · change Rising (about v.job (v.desk.take t).untold)
      rw [huntold]
      refine h.untold.concat fun a ha => hbelow a ?_
      exact mem_shown.2 (Or.inr (Or.inr (Or.inr ha)))
  | @tells place event ht hplace hregistry htold huntold =>
    refine h.mono rfl (fun a ha => ?_) (fun hknown => hknown.take hsound.kept.sound t)
      (fun j hj => hregistry ▸ hj) ?_
    · rw [mem_shown] at ha ⊢
      simp only [take, htold, huntold, Registry.about_append, List.mem_append] at ha
      have hevent (ha : a ∈ about v.job [event]) : a ∈ about v.job v.desk.untold := by
        obtain ⟨hmem, hjob⟩ := List.mem_filter.1 ha
        rw [List.mem_singleton.1 hmem] at hjob ⊢
        exact List.mem_filter.2 ⟨List.mem_of_getElem? hplace, hjob⟩
      have hothers (ha : a ∈ about v.job (v.desk.untold.eraseIdx place)) :
          a ∈ about v.job v.desk.untold :=
        ((List.eraseIdx_sublist ..).filter _).subset ha
      grind
    · change Rising (about v.job (v.desk.take t).untold)
      rw [huntold]
      exact h.untold.sublist ((List.eraseIdx_sublist ..).filter _)

theorem Ranked.look (h : v.Ranked) (hsound : v.Sound) : (v.take .look).Ranked := by
  rcases hplace : v.place with _ | place
  · rw [take, hplace]
    exact h
  rcases hfind : v.desk.registry.find? v.job with _ | e
  · have hget : v.desk.registry.get? v.job = none := congrArg (·.map (·.job)) hfind
    rw [take_look hplace, hget]
    refine h.mono rfl (fun a ha => ?_) id (fun _ => id) h.untold
    rw [mem_shown] at ha ⊢
    simp only [Option.map_none, Option.bind_none, Option.toList_none, List.not_mem_nil,
      false_or] at ha
    grind
  · have hget : v.desk.registry.get? v.job = some e.job := congrArg (·.map (·.job)) hfind
    rw [take_look hplace, hget]
    refine ranked_of_shown (v := v) rfl (fun a ha => ?_)
      (hsound.kept.sound.number e (Registry.mem_of_find? hfind)) (fun a ha => h.below a ha _ hget)
      (hsound.kept.known hfind) hget (fun a ha hterminal => ?_) h.untold
    · rw [mem_shown] at ha ⊢
      simp only [Option.map_some, Option.bind_some, EventStream.ofJob, Option.toList_some,
        List.mem_singleton] at ha
      grind
    · have hnone := (hsound.place_le place hplace).2
      have hmem : a ∈ about v.job v.desk.events := by
        rw [shown, hsound.silent hnone, hnone] at ha
        exact ha
      obtain ⟨hmem, hjob⟩ := List.mem_filter.1 hmem
      exact hsound.chronicled.eq_event hsound.kept
        (Registry.mem_endings.2 ⟨hmem, beq_iff_eq.1 hjob, hterminal⟩) hget

/-- A read shows nothing that was not to be told already. -/
theorem mem_shown_of_read (h : v.Reading s) (hs : v.stream = some s) {a : JobEvent}
    (ha : a ∈ (v.take .read).shown) : a ∈ v.shown := by
  have hadvance := s.advance_next v.desk.channel
  rw [take_read hs] at ha
  rw [mem_shown] at ha ⊢
  generalize s.next v.desk.channel = moved at hadvance ha
  obtain ⟨move, s'⟩ := moved
  simp only [List.mem_append, hs, Option.bind_some] at ha ⊢
  cases hadvance with
  | shows hsnapshot =>
    simp only [told, List.mem_singleton, Option.toList_none, List.not_mem_nil] at ha
    simp only [hsnapshot, Option.toList_some, List.mem_singleton]
    grind
  | ends | waits | skips =>
    simp only [told, List.not_mem_nil] at ha
    grind
  | @tells e _ _ _ _ htake hjob =>
    have he : e ∈ about v.job v.desk.channel.told := by
      refine List.mem_filter.2 ⟨?_, beq_iff_eq.2 (hjob.trans h.job)⟩
      exact List.mem_of_mem_take (htake ▸ List.mem_append_right _ (List.mem_singleton_self e))
    simp only [told, List.mem_singleton] at ha
    rcases ha with (ha | rfl) | ha
    · exact Or.inl ha
    · exact Or.inr (Or.inr (Or.inl he))
    · exact Or.inr ha

theorem Ranked.take (h : v.Ranked) (hsound : v.Sound) (step : Step) : (v.take step).Ranked := by
  cases step with
  | turn t => exact h.turn hsound t
  | subscribe =>
    rw [Viewing.take]
    split
    · exact h
    · exact h.mono rfl (fun _ => id) id (fun _ => id) h.untold
  | look => exact h.look hsound
  | read =>
    rcases hs : v.stream with _ | s
    · rw [Viewing.take, hs]
      exact h
    · have hshown (a : JobEvent) := mem_shown_of_read (hsound.reading s hs) hs (a := a)
      rw [take_read hs] at hshown ⊢
      exact h.mono rfl hshown id (fun _ => id) h.untold

theorem Ranked.run (h : v.Ranked) (hsound : v.Sound) (steps : List Step) :
    (v.run steps).Ranked := by
  induction steps generalizing v with
  | nil => exact h
  | cons step rest ih => exact ih (h.take hsound step) (hsound.take step)

end Viewing

end Montage
