import Montage.Proofs.Jobs.Turns

/-!
# Granted cancellations

Whoever is told that a job is going to be cancelled expects its render to be asked to stop.  That is
so when each job gets one render and gets it in time (`Desk.obeyed_of_timely`).  It is not so for a
render that comes late: a job without a render is cancelled at once, and the render that is brought
to it afterwards goes on (`Desk.not_obeyed_lateRender`).
-/

namespace Montage.Desk

variable {d : Desk} {t : Turn} {f : Following} {id now : Int} {change : Job → Job}

/-- The renders of all jobs whose cancellation was granted are asked to stop. -/
def Obeyed (d : Desk) : Prop := ∀ f ∈ d.followed, f.job ∈ d.granted → f.token ∈ d.registry.fired

instance (d : Desk) : Decidable d.Obeyed := inferInstanceAs (Decidable (∀ f ∈ _, _ → _))

/-- A render is brought in time: its job is there and has no other render, and nobody has cancelled
the job, or is about to, for want of a render. -/
def Turn.Timely (d : Desk) : Turn → Prop
  | .follow id _ => d.registry.find? id ≠ none ∧ (∀ f ∈ d.followed, f.job ≠ id) ∧ id ∉ d.granted ∧
      ∀ q ∈ d.inquiries, q.job = id → q.found = .refused
  | _ => True

/-- All renders are brought in time. -/
def Timely (d : Desk) : List Turn → Prop
  | [] => True
  | t :: rest => t.Timely d ∧ (d.take t).Timely rest

/-- Whoever cancels the job of a render stops the render. -/
structure Answers (d : Desk) (f : Following) : Prop where
  lt : f.job < d.registry.nextId
  not_drawn : f.job ∉ d.drawn
  token : ∀ e, d.registry.find? f.job = some e → e.Ended ∨ e.token = some f.token
  inquiries : ∀ q ∈ d.inquiries, q.job = f.job → q.found = .refused ∨ q.found = .fire f.token
  granted : f.job ∈ d.granted → f.token ∈ d.registry.fired

/-! ## Single turns -/

theorem Answers.token_changed (h : d.Answers f) (hchange : t.change? = some (now, f.job, change)) :
    ∀ e, (d.take t).registry.find? f.job = some e → e.Ended ∨ e.token = some f.token := by
  intro e hfind
  rw [take_of_change? d hchange] at hfind
  rcases hupdate : d.registry.update now f.job change with _ | ⟨event, r⟩
  · rw [hupdate] at hfind
    exact h.token e hfind
  · rw [hupdate] at hfind
    obtain ⟨e₀, hfind₀, hended, -, rfl⟩ := Registry.update_eq_some_iff.1 hupdate
    have hchanged := Registry.find?_replace_changed (tame_of_change? hchange) hfind₀ now
    cases hchanged.symm.trans hfind
    -- A job that ends loses its token, one that goes on keeps it.
    by_cases hterminal : (change e₀.job).status.isTerminal = true
    · exact Or.inl hterminal
    · refine Or.inr ?_
      rw [JobEntry.changed, if_neg hterminal]
      exact (h.token e₀ hfind₀).resolve_left hended

theorem Answers.token_take (h : d.Answers f) (hkept : d.Kept) (htimely : t.Timely d)
    (hf : f ∈ d.followed) :
    ∀ e, (d.take t).registry.find? f.job = some e → e.Ended ∨ e.token = some f.token := by
  by_cases htarget : t.target? d = some f.job
  · cases t with
    | follow id token => exact absurd (Option.some.inj htarget).symm (htimely.2.1 f hf)
    | setStatus | fail | deliverProgress | deliverOutcome =>
      cases htarget
      exact h.token_changed rfl
    | carryOut now place =>
      obtain ⟨q, hplace, hid⟩ := Option.map_eq_some_iff.1 htarget
      rw [registry_carryOut hplace]
      rcases h.inquiries q (List.mem_of_getElem? hplace) hid with hq | hq <;> rw [hq] <;>
        exact h.token
    | prune | draw | enter | inquire | tell => cases htarget
  · intro e hfind
    rcases hkept.find?_take h.not_drawn htarget with hsame | ⟨hnone, -⟩
    · exact h.token e (hsame.symm.trans hfind)
    · cases hnone.symm.trans hfind

theorem Answers.inquiries_take (h : d.Answers f) (t : Turn) :
    ∀ q ∈ (d.take t).inquiries, q.job = f.job → q.found = .refused ∨ q.found = .fire f.token := by
  intro q hq hid
  rcases mem_inquiries_take hq with hq | hfound
  · exact h.inquiries q hq hid
  · rw [hfound, hid]
    by_cases hall : ∀ e, d.registry.find? f.job = some e → e.Ended
    · exact Or.inl (Registry.cancellation_eq_refused hall)
    · push Not at hall
      obtain ⟨e, hfind, hended⟩ := hall
      rw [Registry.cancellation_of_not_ended hfind hended,
        (h.token e hfind).resolve_left hended]
      exact Or.inr rfl

theorem fired_update {r r' : Registry} {event : JobEvent}
    (hupdate : r.update now id change = some (event, r')) : r'.fired = r.fired := by
  obtain ⟨e, -, -, -, rfl⟩ := Registry.update_eq_some_iff.1 hupdate
  rfl

theorem fired_carryOut_subset (r : Registry) (now id : Int) (found : Registry.Cancellation) :
    r.fired ⊆ (r.carryOut now id found).2.2.fired := by
  rcases found with _ | token | _
  · exact List.Subset.refl _
  · exact List.subset_cons_self ..
  · rw [Registry.carryOut_finish]
    split
    · next hupdate => rw [fired_update hupdate]; exact List.Subset.refl _
    · exact List.Subset.refl _

/-- Only carrying a cancellation out grants it, or stops a render. -/
theorem granted_take (ht : ∀ now place, t ≠ .carryOut now place) :
    (d.take t).granted = d.granted ∧ (d.take t).registry.fired = d.registry.fired := by
  rcases hchange : t.change? with _ | ⟨now, id, change⟩
  · cases t with
    | prune | draw | follow | inquire => exact ⟨rfl, rfl⟩
    | setStatus | fail | deliverProgress | deliverOutcome => cases hchange
    | enter | tell =>
      rw [take]
      split <;> exact ⟨rfl, rfl⟩
    | carryOut now place => exact absurd rfl (ht now place)
  · rw [take_of_change? d hchange]
    rcases hupdate : d.registry.update now id change with _ | ⟨event, r⟩
    · exact ⟨rfl, rfl⟩
    · exact ⟨rfl, fired_update hupdate⟩

theorem Answers.granted_carryOut (h : d.Answers f) {place : Nat} {q : Inquiry}
    (hplace : d.inquiries[place]? = some q) (now : Int)
    (hgranted : f.job ∈ (d.take (.carryOut now place)).granted) :
    f.token ∈ (d.take (.carryOut now place)).registry.fired := by
  have hkeep : f.job ∈ d.granted → f.token ∈ (d.take (.carryOut now place)).registry.fired :=
    fun hmem => by
      rw [registry_carryOut hplace]
      exact fired_carryOut_subset _ _ _ _ (h.granted hmem)
  have heq : (d.take (.carryOut now place)).granted =
      if (d.registry.carryOut now q.job q.found).1 then q.job :: d.granted else d.granted := by
    rw [take, hplace]
  rw [heq] at hgranted
  split at hgranted
  · next hdone =>
    rcases List.mem_cons.1 hgranted with hid | hmem
    · rcases h.inquiries q (List.mem_of_getElem? hplace) hid.symm with hq | hq
      · rw [hq] at hdone
        cases hdone
      · rw [registry_carryOut hplace, hq]
        exact List.mem_cons_self
    · exact hkeep hmem
  · exact hkeep hgranted

theorem Answers.granted_take (h : d.Answers f) (t : Turn) (hgranted : f.job ∈ (d.take t).granted) :
    f.token ∈ (d.take t).registry.fired := by
  by_cases ht : ∃ now place, t = .carryOut now place
  · obtain ⟨now, place, rfl⟩ := ht
    rcases hplace : d.inquiries[place]? with _ | q
    · have htake : d.take (.carryOut now place) = d := by rw [take, hplace]
      rw [htake] at hgranted ⊢
      exact h.granted hgranted
    · exact h.granted_carryOut hplace now hgranted
  · push Not at ht
    obtain ⟨heq, hfired⟩ := Desk.granted_take (d := d) ht
    rw [heq] at hgranted
    rw [hfired]
    exact h.granted hgranted

theorem Answers.take (h : d.Answers f) (hkept : d.Kept) (htimely : t.Timely d)
    (hf : f ∈ d.followed) : (d.take t).Answers f where
  lt := Int.lt_of_lt_of_le h.lt (step_take hkept.sound t).nextId_le
  not_drawn := (step_take hkept.sound t).not_drawn h.lt h.not_drawn
  token := h.token_take hkept htimely hf
  inquiries := h.inquiries_take t
  granted := h.granted_take t

/-- A render that is brought in time answers. -/
theorem answers_follow (hkept : d.Kept) {token : Token}
    (htimely : (Turn.follow id token).Timely d) :
    (d.take (.follow id token)).Answers ⟨id, token⟩ := by
  obtain ⟨hthere, -, hgranted, hinquiries⟩ := htimely
  obtain ⟨e, hfind⟩ := Option.ne_none_iff_exists'.1 hthere
  refine ⟨hkept.sound.id_lt_of_find? hfind, hkept.not_drawn hfind, ?_,
    fun q hq hid => Or.inl (hinquiries q hq hid), fun hmem => absurd hmem hgranted⟩
  have hid : (e.job.id == id) = true := by simpa using Registry.id_of_find? hfind
  intro e' hfind'
  rw [Desk.take, Registry.find?_setToken, hfind, Option.map_some, hid, if_pos rfl] at hfind'
  cases hfind'
  exact Or.inr rfl

theorem mem_followed_take (hf : f ∈ (d.take t).followed) :
    f ∈ d.followed ∨ t = .follow f.job f.token := by
  rcases hchange : t.change? with _ | ⟨now, id, change⟩
  · cases t with
    | follow id token =>
      rcases List.mem_cons.1 hf with rfl | hf
      · exact Or.inr rfl
      · exact Or.inl hf
    | enter | carryOut | tell =>
      rw [take] at hf
      split at hf <;> exact Or.inl hf
    | setStatus | fail | deliverProgress | deliverOutcome => cases hchange
    | prune | draw | inquire => exact Or.inl hf
  · rw [take_of_change? d hchange] at hf
    rcases hupdate : d.registry.update now id change with _ | ⟨event, r⟩ <;>
      rw [hupdate] at hf <;> exact Or.inl hf

/-! ## Runs -/

theorem answers_run (hkept : d.Kept) (h : ∀ f ∈ d.followed, d.Answers f) {turns : List Turn}
    (htimely : d.Timely turns) : ∀ f ∈ (d.run turns).followed, (d.run turns).Answers f := by
  induction turns generalizing d with
  | nil => exact h
  | cons t rest ih =>
    obtain ⟨hfirst, hrest⟩ := htimely
    refine ih (hkept.take t) (fun f hf => ?_) hrest
    rcases mem_followed_take hf with hold | rfl
    · exact (h f hold).take hkept hfirst hold
    · exact answers_follow hkept hfirst

/-- When renders are brought in time, a granted cancellation stops the render of its job. -/
theorem obeyed_of_timely (retention : Nat) (turns : List Turn)
    (htimely : (opened retention).Timely turns) : ((opened retention).run turns).Obeyed :=
  fun f hf => (answers_run (kept_opened retention) nofun htimely f hf).granted

theorem obeyed_of_timely_cancelledTwice :
    (opened 60).Timely [.draw, .enter 0 0 "out.mp4", .follow 1 7, .inquire 1, .inquire 1,
        .carryOut 2 1, .setStatus 3 1 .running none, .carryOut 4 0] ∧
      ((opened 60).run [.draw, .enter 0 0 "out.mp4", .follow 1 7, .inquire 1, .inquire 1,
        .carryOut 2 1, .setStatus 3 1 .running none, .carryOut 4 0]).Obeyed := by
  have htimely : (opened 60).Timely [.draw, .enter 0 0 "out.mp4", .follow 1 7, .inquire 1,
      .inquire 1, .carryOut 2 1, .setStatus 3 1 .running none, .carryOut 4 0] := by
    refine ⟨trivial, trivial, ⟨by decide, by decide, by decide, by decide⟩, ?_⟩
    exact ⟨trivial, trivial, trivial, trivial, trivial, trivial⟩
  exact ⟨htimely, obeyed_of_timely 60 _ htimely⟩

/-- A job is taken in, a client asks for it to be cancelled, and only then its render is brought. -/
def lateRender : List Turn := [.prune 0, .draw, .enter 0 0 "out.mp4", .inquire 1, .carryOut 1 0,
  .follow 1 7, .setStatus 2 1 .running none]

/-- The client was told yes and the job shows as cancelled, yet nobody asks its render to stop. -/
theorem not_obeyed_lateRender : ¬ ((opened 60).run lateRender).Obeyed ∧
    ((opened 60).run lateRender).granted = [1] ∧
    ((opened 60).run lateRender).followed = [⟨1, 7⟩] ∧
    ((opened 60).run lateRender).registry.fired = [] ∧
    (((opened 60).run lateRender).registry.get? 1).map (·.status) = some .cancelled := by decide

end Montage.Desk
