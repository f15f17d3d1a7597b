import Montage.Proofs.Jobs.Turns

/-!
# Jobs settle once

A job that was given its render is not dropped until the render has ended; then it ends as the
render did, one event tells of that, and nothing changes it any more (`Desk.settles_once`).
Meanwhile the job may be asked to be cancelled as often as anyone likes, for it ends only when the
render has.  Only a cancellation that was looked into before the render was there ends the job
behind the render's back (`Desk.not_settled_overtaken`).
-/

namespace Montage

/-- The job ended as its render did. -/
structure Job.Settled (j : Job) (o : Outcome) : Prop where
  completed : (j.status = .completed ∧ 1.0 ≤ j.progress) ↔ ∃ path, o = .ok path
  cancelled : j.status = .cancelled ↔ o = .error .cancelled
  failed : ∀ e, o = .error e → e ≠ .cancelled → j.status = .failed ∧ j.error = some e.report

theorem Job.settled_settled (o : Outcome) (j : Job) :
    (Job.settled o j).Settled o := by
  rcases o with e | path
  · by_cases he : e = .cancelled
    · subst he
      refine ⟨⟨nofun, nofun⟩, ⟨fun _ => rfl, fun _ => rfl⟩, ?_⟩
      rintro _ ⟨⟩ hne
      exact absurd rfl hne
    · have hsettled : Job.settled (.error e) j = Job.failed e.report j := by
        cases e <;> first | exact absurd rfl he | rfl
      rw [hsettled]
      refine ⟨⟨nofun, nofun⟩, ⟨nofun, fun h => absurd (by cases h; rfl) he⟩, ?_⟩
      rintro _ ⟨⟩ -
      exact ⟨rfl, rfl⟩
  · have hone : (1.0 : Float) ≤ (Job.settled (.ok path) j).progress :=
      Scalar.le_greatest_right j.progress (by decide)
    exact ⟨⟨fun _ => ⟨path, rfl⟩, fun _ => ⟨rfl, hone⟩⟩, ⟨nofun, nofun⟩, nofun⟩

theorem Job.isTerminal_settled (o : Outcome) (j : Job) :
    (Job.settled o j).status.isTerminal = true := by
  rcases o with e | path
  · rw [Job.settled]
    split <;> rfl
  · rfl

namespace Desk

open Registry (about)

variable {d : Desk} {t : Turn} {id now : Int} {change : Job → Job}

/-- The turn neither brings the job a render nor ends the job. -/
def Turn.Spares (id : Int) : Turn → Prop
  | .follow other _ | .fail _ other _ | .deliverOutcome _ other _ => other ≠ id
  | .setStatus _ other status _ => other = id → status = .running
  | _ => True

/-- The job has a render that has not ended yet, and whoever is about to cancel the job knows of the
render. -/
structure Rendering (d : Desk) (id : Int) : Prop where
  kept : d.Kept
  entry : ∃ e token, d.registry.find? id = some e ∧ ¬ e.Ended ∧ e.token = some token
  inquiries : ∀ q ∈ d.inquiries, q.job = id → q.found ≠ .finish

/-! ## While the render goes on -/

theorem exists_moved_of_spares (hspares : t.Spares id)
    (hchange : t.change? = some (now, id, change)) :
    ∃ progress, change = Job.moved .running progress := by
  cases t <;> cases hchange
  · rw [hspares rfl]
    exact ⟨_, rfl⟩
  · exact absurd rfl hspares
  · exact ⟨_, rfl⟩
  · exact absurd rfl hspares

theorem Rendering.entry_changed (h : d.Rendering id) (hspares : t.Spares id)
    (hchange : t.change? = some (now, id, change)) :
    ∃ e token, (d.take t).registry.find? id = some e ∧ ¬ e.Ended ∧ e.token = some token := by
  obtain ⟨e, token, hfind, hended, htoken⟩ := h.entry
  have hchanged := Registry.find?_replace_changed (tame_of_change? hchange) hfind now
  rw [take_of_change? d hchange, Registry.update_of_not_ended hfind hended]
  obtain ⟨progress, rfl⟩ := exists_moved_of_spares hspares hchange
  exact ⟨_, token, hchanged, Bool.false_ne_true, htoken⟩

/-- A cancellation that knows of the render leaves the job to it. -/
theorem Rendering.find?_carryOut (h : d.Rendering id) {place : Nat} {q : Inquiry}
    (hplace : d.inquiries[place]? = some q) (hid : q.job = id) (now : Int) :
    (d.take (.carryOut now place)).registry.find? id = d.registry.find? id := by
  have hfound := h.inquiries q (List.mem_of_getElem? hplace) hid
  rw [registry_carryOut hplace]
  rcases hq : q.found with _ | token | _
  · rfl
  · rfl
  · exact absurd hq hfound

theorem Rendering.entry_take (h : d.Rendering id) (hspares : t.Spares id) :
    ∃ e token, (d.take t).registry.find? id = some e ∧ ¬ e.Ended ∧ e.token = some token := by
  obtain ⟨e, token, hfind, hended, htoken⟩ := h.entry
  -- A turn for the job itself spares it; another one could only drop it, had it ended.
  by_cases htarget : t.target? d = some id
  · cases t with
    | follow => exact absurd (Option.some.inj htarget) hspares
    | setStatus | fail | deliverProgress | deliverOutcome =>
      cases htarget
      exact h.entry_changed hspares rfl
    | carryOut now place =>
      obtain ⟨q, hplace, hid⟩ := Option.map_eq_some_iff.1 htarget
      exact ⟨e, token, (h.find?_carryOut hplace hid now).trans hfind, hended, htoken⟩
    | prune | draw | enter | inquire | tell => cases htarget
  · rcases h.kept.find?_take (h.kept.not_drawn hfind) htarget with hsame | ⟨-, e', hfind', hended'⟩
    · exact ⟨e, token, hsame.trans hfind, hended, htoken⟩
    · cases hfind.symm.trans hfind'
      exact absurd hended' hended

/-- Whoever looks into a cancellation from now on finds the render. -/
theorem Rendering.inquiries_take (h : d.Rendering id) (t : Turn) :
    ∀ q ∈ (d.take t).inquiries, q.job = id → q.found ≠ .finish := by
  intro q hq hid
  rcases mem_inquiries_take hq with hq | hfound
  · exact h.inquiries q hq hid
  · obtain ⟨e, token, hfind, hended, htoken⟩ := h.entry
    rw [hfound, hid, Registry.cancellation_of_not_ended hfind hended, htoken]
    exact nofun

theorem Rendering.take (h : d.Rendering id) (hspares : t.Spares id) : (d.take t).Rendering id :=
  ⟨h.kept.take t, h.entry_take hspares, h.inquiries_take t⟩

theorem Rendering.run (h : d.Rendering id) {turns : List Turn}
    (hturns : ∀ t ∈ turns, t.Spares id) : (d.run turns).Rendering id :=
  run_induction (P := fun d => d.Rendering id) (fun _ h _ ht => h.take ht) h hturns

/-- A job that has not ended is rendered once it is given a render. -/
theorem rendering_follow (hkept : d.Kept) {e : JobEntry} (hfind : d.registry.find? id = some e)
    (hended : ¬ e.Ended) (hinquiries : ∀ q ∈ d.inquiries, q.job = id → q.found ≠ .finish)
    (token : Token) : (d.take (.follow id token)).Rendering id := by
  have hid : (e.job.id == id) = true := by simpa using Registry.id_of_find? hfind
  refine ⟨hkept.take _, ⟨{ e with token := some token }, token, ?_, hended, rfl⟩, hinquiries⟩
  rw [Desk.take, Registry.find?_setToken, hfind, Option.map_some, hid, if_pos rfl]

/-! ## When the render has ended -/

/-- The job has come to rest: it stands so until it is dropped, and one event tells how it ended. -/
structure Rests (d : Desk) (id : Int) (j : Job) : Prop where
  stands : d.registry.get? id = some j ∨ d.registry.get? id = none
  ignores : ∀ now published, d.take (.deliverProgress now id published) = d
  told_once : (about id d.events).filter (·.status.isTerminal) = [j.event]

theorem take_of_over (h : d.Over id) (hchange : t.change? = some (now, id, change)) :
    d.take t = d := by
  rw [take_of_change? d hchange, Registry.update_of_ended h.ended]
  rfl

theorem rests_of_over (h : d.Over id) (hkept : d.Kept) {j : Job}
    (hfind : d.registry.get? id = some j)
    (htold : (about id d.events).filter (·.status.isTerminal) = [j.event]) (turns : List Turn) :
    (d.run turns).Rests id j := by
  obtain ⟨hover, hget, habout⟩ := h.run hkept turns
  refine ⟨?_, fun now published => take_of_over hover rfl, ?_⟩
  · rwa [hfind] at hget
  · have hends := habout.filter (·.status.isTerminal)
    rwa [htold, List.perm_singleton] at hends

/-- The outcome of its render ends a job. -/
theorem Rendering.settles (h : d.Rendering id) (now : Int) (o : Outcome) :
    ∃ j, (d.take (.deliverOutcome now id o)).registry.get? id = some j ∧ j.Settled o ∧
      ∀ turns, ((d.take (.deliverOutcome now id o)).run turns).Rests id j := by
  obtain ⟨e, token, hfind, hended, htoken⟩ := h.entry
  have htame := Job.tame_settled o
  have htake : d.take (.deliverOutcome now id o) =
      d.changed (d.registry.update now id (Job.settled o)) := take_of_change? d rfl
  rw [Registry.update_of_not_ended hfind hended] at htake
  have hfind' : (d.take (.deliverOutcome now id o)).registry.find? id =
      some (e.changed now (Job.settled o)) := by
    rw [htake]
    exact Registry.find?_replace_changed htame hfind now
  have hget : (d.take (.deliverOutcome now id o)).registry.get? id = some (Job.settled o e.job) :=
    congrArg (·.map (·.job)) hfind'
  have hkept := h.kept.take (.deliverOutcome now id o)
  have hover := hkept.over_of_ended hfind' (Job.isTerminal_settled o e.job)
  have hevents : (d.take (.deliverOutcome now id o)).events =
      d.events ++ [(Job.settled o e.job).event] := by
    rw [htake]
    exact (List.append_assoc ..).symm
  -- Before the render ended no event told of an end of the job.
  have hnone : (about id d.events).filter (·.status.isTerminal) = [] := by
    refine List.filter_eq_nil_iff.2 fun event hevent => ?_
    rw [h.kept.not_terminal hfind hended hevent]
    exact Bool.false_ne_true
  have htold : (about id (d.take (.deliverOutcome now id o)).events).filter
      (·.status.isTerminal) = [(Job.settled o e.job).event] := by
    rw [hevents, Registry.about_append, List.filter_append, hnone, List.nil_append,
      Registry.about_singleton_self ((htame.id_eq _).trans (Registry.id_of_find? hfind))]
    exact List.filter_cons_of_pos (Job.isTerminal_settled o e.job)
  exact ⟨_, hget, Job.settled_settled o e.job, rests_of_over hover hkept hget htold⟩

/-- A pending job is given a render, and anything is done at the desk, apart from other renders for
the job and from other reports of its end.  Then the job is there until the render has ended, ends
as the render did, and comes to rest.  A cancellation that was looked into before there was a render
must not be under way, for it would end the job at once. -/
theorem settles_once (retention : Nat) (before : List Turn) (id : Int) (token : Token) (j : Job)
    (hjob : ((opened retention).run before).registry.get? id = some j)
    (hpending : j.status = .pending)
    (hinquiries : ∀ q ∈ ((opened retention).run before).inquiries,
      q.job = id → q.found ≠ .finish)
    (during : List Turn) (hduring : ∀ t ∈ during, t.Spares id) :
    let rendered := (((opened retention).run before).take (.follow id token)).run during
    (∃ j, rendered.registry.get? id = some j ∧ j.status.isTerminal = false) ∧
      ∀ now o, ∃ j, (rendered.take (.deliverOutcome now id o)).registry.get? id = some j ∧
        j.Settled o ∧
          ∀ after, ((rendered.take (.deliverOutcome now id o)).run after).Rests id j := by
  obtain ⟨e, hfind, rfl⟩ := Option.map_eq_some_iff.1 hjob
  have hended : ¬ e.Ended := by
    rw [JobEntry.Ended, hpending]
    exact Bool.false_ne_true
  have hrendering := (rendering_follow ((kept_opened retention).run before) hfind hended hinquiries
    token).run hduring
  obtain ⟨e', _, hfind', hended', -⟩ := hrendering.entry
  exact ⟨⟨e'.job, congrArg (·.map (·.job)) hfind', Bool.not_eq_true _ ▸ hended'⟩,
    hrendering.settles⟩

/-- The turns that take a job in. -/
def arrival : List Turn := [.prune 0, .draw, .enter 0 0 "out.mp4"]

theorem settles_once_arrival :
    ((opened 60).run arrival).registry.get? 1 = some { id := 1, output := "out.mp4" } ∧
      let during := [.inquire 1, .setStatus 2 1 .running none, .carryOut 3 0, .prune 100]
      let rendered := (((opened 60).run arrival).take (.follow 1 7)).run during
      ∃ j, (rendered.take (.deliverOutcome 101 1 (.error .cancelled))).registry.get? 1 = some j ∧
        j.Settled (.error .cancelled) ∧ ∀ after,
          ((rendered.take (.deliverOutcome 101 1 (.error .cancelled))).run after).Rests 1 j := by
  have hjob : ((opened 60).run arrival).registry.get? 1 = some { id := 1, output := "out.mp4" } :=
    by decide
  refine ⟨hjob, ?_⟩
  exact (settles_once 60 arrival 1 7 _ hjob rfl (by decide) _ (by simp [Turn.Spares])).2 101
    (.error .cancelled)

/-- A job is taken in, and a cancellation finds that it has no render yet. -/
def overtaken : List Turn := arrival ++ [.inquire 1]

/-- If that cancellation is carried out when the job has been given its render, the job shows as
cancelled while its render goes on, and stays so although the render returns its file. -/
theorem not_settled_overtaken :
    let rendered := (((opened 60).run overtaken).take (.follow 1 7)).run
      [.carryOut 1 0, .setStatus 2 1 .running none]
    ((opened 60).run overtaken).registry.get? 1 = some { id := 1, output := "out.mp4" } ∧
    (rendered.registry.get? 1).map (·.status) = some .cancelled ∧ rendered.registry.fired = [] ∧
    ((rendered.take (.deliverOutcome 3 1 (.ok "out.mp4"))).registry.get? 1).map (·.status) =
      some .cancelled ∧
    ¬ ∀ (retention : Nat) (before : List Turn) (id : Int) (token : Token) (j : Job),
      ((opened retention).run before).registry.get? id = some j → j.status = .pending →
      ∀ during : List Turn, (∀ t ∈ during, t.Spares id) → ∀ now o, ∃ j,
        (((((opened retention).run before).take (.follow id token)).run during).take
          (.deliverOutcome now id o)).registry.get? id = some j ∧ j.Settled o := by
  have hjob : ((opened 60).run overtaken).registry.get? 1 =
      some { id := 1, output := "out.mp4" } := by decide
  refine ⟨hjob, by decide, by decide, by decide, fun h => ?_⟩
  obtain ⟨j, hj, hsettled⟩ := h 60 overtaken 1 7 _ hjob rfl
    [.carryOut 1 0, .setStatus 2 1 .running none] (by simp [Turn.Spares]) 3 (.ok "out.mp4")
  have hcancelled : (some j).map (·.status) = some .cancelled := by
    rw [← hj]
    decide
  have hcompleted := (hsettled.completed.2 ⟨_, rfl⟩).1
  rw [Option.map_some, hcompleted] at hcancelled
  cases hcancelled

end Desk

end Montage
