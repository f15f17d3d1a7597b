import Montage.Proofs.Jobs.Fates

/-!
# Histories of a registry

A registry is given one command after another.  Numbers are not used again, an ended job stays as it
is until it is dropped, and nothing more is told of it (`Registry.history_lawful`).
-/

namespace Montage.Registry

/-- A command, and what came of it. -/
structure Exchange where
  before : Registry
  command : Command
  reply : Reply
  events : List JobEvent
  after : Registry

namespace Exchange

/-- The number of the job that was taken in. -/
def created? (x : Exchange) : Option Int :=
  match x.reply with
  | .created id => some id
  | _ => none

end Exchange

def exchange (r : Registry) (c : Command) : Exchange :=
  let (reply, events, after) := r.obey c
  ⟨r, c, reply, events, after⟩

/-- What comes of commands that follow each other. -/
def history (r : Registry) : List Command → List Exchange
  | [] => []
  | c :: rest => r.exchange c :: (r.exchange c).after.history rest

/-- What holds of every exchange. -/
structure Exchange.Lawful (x : Exchange) : Prop where
  /-- What becomes of each job. -/
  fate : ∀ id, Fate x.before x.after x.events x.command.pruning? id
  created_new : ∀ id, x.created? = some id → (∀ e ∈ x.before.entries, e.job.id < id) ∧
    ∃ e, x.after.find? id = some e ∧ e.job = { id, output := e.job.output }
  /-- An ended job is out of reach. -/
  refused : ∀ id e, x.command.target? = some id → x.before.find? id = some e → e.Ended →
    x.reply = .done false ∧ x.events = [] ∧ x.after = x.before
  changed : ∀ now id change e, x.command.change? = some (now, id, change) →
    x.before.find? id = some e → ¬ e.Ended → x.reply = .done true ∧
      x.events = [(change e.job).event] ∧ x.after.find? id = some (e.changed now change)
  cancelled : ∀ now id e, x.command = .cancel now id → x.before.find? id = some e → ¬ e.Ended →
    e.token = none → x.reply = .done true ∧
      x.events = [(Job.moved .cancelled none e.job).event] ∧
      x.after.find? id = some (e.changed now (Job.moved .cancelled none))
  fired : ∀ now id e token, x.command = .cancel now id → x.before.find? id = some e → ¬ e.Ended →
    e.token = some token → x.reply = .done true ∧ x.events = [] ∧ x.after = x.before.fire token
  pruned : ∀ now, x.command = .prune now →
    x.after.entries = x.before.entries.filter (¬ ·.Expired x.before.retention now) ∧
      x.reply = .count (x.before.entries.countP (·.Expired x.before.retention now))
  error_failed : ∀ e ∈ x.after.entries, e.job.error ≠ none → e.job.status = .failed

/-- What holds of every history. -/
structure Lawful (history : List Exchange) : Prop where
  exchanges : ∀ x ∈ history, x.Lawful
  created_lt : (history.filterMap Exchange.created?).Pairwise (· < ·)
  /-- Once a job has ended its entry stays as it is or is dropped. -/
  frozen : history.Pairwise fun x y => ∀ id e, x.after.find? id = some e → e.Ended →
    y.after.find? id = some e ∨ y.after.find? id = none
  gone : history.Pairwise fun x y => ∀ id e, x.before.find? id = some e →
    x.after.find? id = none → y.after.find? id = none
  /-- No event follows the one that ends its job. -/
  ends_once : (history.flatMap Exchange.events).Pairwise fun a b =>
    a.job = b.job → a.status.isTerminal = false

variable {r : Registry} {x y : Exchange} {commands : List Command} {id : Int} {e : JobEntry}

/-! ## Single exchanges -/

theorem Sound.effect_exchange (h : r.Sound) (c : Command) :
    Effect r (r.exchange c).after (r.exchange c).events c.pruning? := h.effect_obey c

/-- Each exchange of a history starts from a sound registry. -/
theorem Sound.of_mem_history (h : r.Sound) (hx : x ∈ r.history commands) :
    x.before.Sound ∧ r.nextId ≤ x.before.nextId ∧ x = x.before.exchange x.command := by
  induction commands generalizing r with
  | nil => cases hx
  | cons c rest ih =>
    have heffect := h.effect_exchange c
    rcases List.mem_cons.1 hx with rfl | hx
    · exact ⟨h, Int.le_refl _, rfl⟩
    · obtain ⟨hsound, hnext, hexchange⟩ := ih heffect.sound hx
      exact ⟨hsound, Int.le_trans heffect.nextId_le hnext, hexchange⟩

theorem Sound.id_lt_of_find? (h : r.Sound) (hfind : r.find? id = some e) : id < r.nextId := by
  rw [← id_of_find? hfind]
  exact h.id_lt e (mem_of_find? hfind)

/-- A job that has ended, or is gone, stays so, and nothing is told of it. -/
theorem Sound.quiet (h : r.Sound) (hid : id < r.nextId)
    (hended : ∀ e, r.find? id = some e → e.Ended) (hx : x ∈ r.history commands) :
    (x.after.find? id = r.find? id ∨ x.after.find? id = none) ∧ about id x.events = [] := by
  induction commands generalizing r with
  | nil => cases hx
  | cons c rest ih =>
    have heffect := h.effect_exchange c
    -- Of all fates only staying and being dropped are left.
    have hfirst : ((r.exchange c).after.find? id = r.find? id ∨
        (r.exchange c).after.find? id = none) ∧ about id (r.exchange c).events = [] := by
      cases heffect.fate id with
      | stays hfind htold _ => exact ⟨Or.inl hfind, htold⟩
      | moves hfind hnot _ _ _ => exact absurd (hended _ hfind) hnot
      | drops _ _ _ hnone htold => exact ⟨Or.inr hnone, htold⟩
      | begins hnew => omega
    rcases List.mem_cons.1 hx with rfl | hx
    · exact hfirst
    · have hended' : ∀ e, (r.exchange c).after.find? id = some e → e.Ended := by
        intro e hfind
        rcases hfirst.1 with hsame | hnone
        · exact hended e (hsame ▸ hfind)
        · cases hnone.symm.trans hfind
      obtain ⟨hafter, htold⟩ :=
        ih heffect.sound (Int.lt_of_lt_of_le hid heffect.nextId_le) hended' hx
      refine ⟨?_, htold⟩
      rcases hfirst.1 with hsame | hnone
      · rwa [hsame] at hafter
      · rw [hnone] at hafter
        exact Or.inr (or_self_iff.1 hafter)

/-- What holds of an exchange and all that follow holds of every two exchanges of a history. -/
theorem Sound.pairwise_history {P : Exchange → Exchange → Prop}
    (hstep : ∀ (r : Registry) (c : Command) (rest : List Command), r.Sound →
      ∀ y ∈ (r.exchange c).after.history rest, P (r.exchange c) y)
    (h : r.Sound) (commands : List Command) : (r.history commands).Pairwise P := by
  induction commands generalizing r with
  | nil => exact List.Pairwise.nil
  | cons c rest ih =>
    exact List.pairwise_cons.2 ⟨hstep r c rest h, ih (h.effect_exchange c).sound⟩

/-! ## Numbers -/

theorem settled_ne_created (r : Registry) (change : Option (JobEvent × Registry)) :
    (r.settled change).1 ≠ .created id := by
  cases change <;> exact nofun

/-- Only taking a job in yields a number, the next one. -/
theorem exists_of_created? {c : Command} (h : (r.exchange c).created? = some id) :
    ∃ pruned now output, c = .create pruned now output ∧ id = r.nextId := by
  have hreply : (r.obey c).1 = .created id := by
    rw [Exchange.created?] at h
    split at h
    · next hreply => rwa [Option.some.inj h] at hreply
    · cases h
  cases c with
  | create pruned now output => exact ⟨pruned, now, output, rfl, (Reply.created.inj hreply).symm⟩
  | setStatus | fail => exact absurd hreply (settled_ne_created _ _)
  | cancel | cancelAll | prune => cases hreply

theorem created_new_of_exchange (h : r.Sound) {c : Command}
    (hcreated : (r.exchange c).created? = some id) :
    (∀ e ∈ r.entries, e.job.id < id) ∧
      ∃ e, (r.exchange c).after.find? id = some e ∧ e.job = { id, output := e.job.output } := by
  obtain ⟨pruned, now, output, rfl, rfl⟩ := exists_of_created? hcreated
  exact ⟨h.id_lt, _, (h.prune pruned).find?_insert_self now output, rfl⟩

theorem created_lt_of_history (h : r.Sound) (commands : List Command) :
    ((r.history commands).filterMap Exchange.created?).Pairwise (· < ·) := by
  rw [List.pairwise_filterMap]
  refine Sound.pairwise_history (fun r c rest h y hy id hid id' hid' => ?_) h commands
  have heffect := h.effect_exchange c
  obtain ⟨_, hnext, hexchange⟩ := heffect.sound.of_mem_history hy
  rw [hexchange] at hid'
  obtain ⟨pruned, now, output, rfl, rfl⟩ := exists_of_created? hid
  obtain ⟨_, _, _, _, rfl⟩ := exists_of_created? hid'
  exact Int.lt_of_lt_of_le (Int.lt_succ r.nextId) hnext

/-! ## Events -/

theorem eq_singleton_of_about {events : List JobEvent} {a b : JobEvent} {j : Int}
    (h : about j events = [a]) (hb : b ∈ events) (hjob : b.job = j) : b = a := by
  have hmem : b ∈ about j events := List.mem_filter.2 ⟨hb, by simpa using hjob⟩
  rw [h] at hmem
  exact List.mem_singleton.1 hmem

/-- Where at most one event tells of each job, the events tell of different jobs. -/
theorem pairwise_of_length_about {events : List JobEvent}
    (h : ∀ id, (about id events).length ≤ 1) : events.Pairwise fun a b => a.job ≠ b.job := by
  induction events with
  | nil => exact List.Pairwise.nil
  | cons a rest ih =>
    have hcons (id : Int) : about id (a :: rest) =
        if a.job == id then a :: about id rest else about id rest := List.filter_cons
    refine List.pairwise_cons.2 ⟨fun b hb hjob => ?_, ih fun id => ?_⟩
    · have hmem : b ∈ about a.job rest := List.mem_filter.2 ⟨hb, by simpa using hjob.symm⟩
      have hlength := h a.job
      rw [hcons, if_pos (by simp), List.length_cons] at hlength
      have := List.length_pos_of_mem hmem
      omega
    · have hlength := h id
      rw [hcons] at hlength
      split at hlength
      · rw [List.length_cons] at hlength
        omega
      · exact hlength

theorem Effect.length_about_le {r' : Registry} {events : List JobEvent} {pruned : Option Int}
    (h : Effect r r' events pruned) (id : Int) : (about id events).length ≤ 1 := by
  cases h.fate id with
  | stays _ htold _ | moves _ _ _ _ htold | drops _ _ _ _ htold | begins _ _ _ _ htold =>
    simp [htold]

/-- An event tells where its job stands right after the change. -/
theorem Effect.exists_of_mem {r' : Registry} {events : List JobEvent} {pruned : Option Int}
    (h : Effect r r' events pruned) {a : JobEvent} (ha : a ∈ events) :
    ∃ e, r'.find? a.job = some e ∧ a = e.job.event := by
  have hmem : a ∈ about a.job events := List.mem_filter.2 ⟨ha, by simp⟩
  cases h.fate a.job with
  | stays _ htold _ | drops _ _ _ _ htold | begins _ _ _ _ htold =>
    rw [htold] at hmem
    cases hmem
  | moves _ _ hfind _ htold => exact ⟨_, hfind, eq_singleton_of_about htold ha rfl⟩

theorem ends_once_of_history (h : r.Sound) (commands : List Command) :
    ((r.history commands).flatMap Exchange.events).Pairwise fun a b =>
      a.job = b.job → a.status.isTerminal = false := by
  rw [List.pairwise_flatMap]
  constructor
  · intro x hx
    obtain ⟨hsound, -, hexchange⟩ := h.of_mem_history hx
    have heffect := hsound.effect_exchange x.command
    rw [← hexchange] at heffect
    exact (pairwise_of_length_about heffect.length_about_le).imp fun hne hjob => absurd hjob hne
  · refine Sound.pairwise_history (fun r c rest h y hy a ha b hb hjob => ?_) h commands
    have heffect := h.effect_exchange c
    obtain ⟨e, hfind, hevent⟩ := heffect.exists_of_mem ha
    by_contra hterminal
    have hended : e.Ended := by simpa [JobEntry.Ended, hevent, Job.event] using hterminal
    have htold := (heffect.sound.quiet (heffect.sound.id_lt_of_find? hfind)
      (fun e' hfind' => by rwa [Option.some.inj (hfind'.symm.trans hfind)]) hy).2
    have hmem : b ∈ about a.job y.events := List.mem_filter.2 ⟨hb, by simpa using hjob.symm⟩
    rw [htold] at hmem
    cases hmem

theorem prune_eq (r : Registry) (now : Int) :
    (r.prune now).2.entries = r.entries.filter (¬ ·.Expired r.retention now) ∧
      (r.prune now).1 = r.entries.countP (·.Expired r.retention now) := by
  have hkeeps : r.keeps now = fun e => decide (¬ e.Expired r.retention now) := by
    funext e
    rw [Bool.eq_iff_iff, keeps_eq_true_iff, decide_eq_true_iff]
  have hkept := List.length_eq_countP_add_countP (r.keeps now) (l := r.entries)
  refine ⟨congrArg r.entries.filter hkeeps, ?_⟩
  change r.entries.length - (r.entries.filter (r.keeps now)).length = _
  rw [← List.countP_eq_length_filter, hkept, Nat.add_sub_cancel_left, hkeeps]
  simp

theorem Sound.lawful_exchange (h : r.Sound) (c : Command) : (r.exchange c).Lawful where
  fate := (h.effect_exchange c).fate
  created_new id := created_new_of_exchange h
  refused id e htarget hfind hended := by
    have hobey := obey_of_ended htarget hfind hended
    exact ⟨congrArg Prod.fst hobey, congrArg (·.2.1) hobey, congrArg (·.2.2) hobey⟩
  changed now id change e hchange hfind hended := by
    have hobey := obey_of_change hchange hfind hended
    have hafter : (r.exchange c).after = r.replace id (e.changed now change) :=
      congrArg (·.2.2) hobey
    refine ⟨congrArg Prod.fst hobey, congrArg (·.2.1) hobey, ?_⟩
    rw [hafter]
    exact find?_replace_changed (tame_of_change? hchange) hfind now
  cancelled now id e hcommand hfind hended htoken := by
    have hobey := obey_cancel_of_no_token hfind hended htoken now
    rw [← hcommand] at hobey
    have hafter : (r.exchange c).after =
      r.replace id (e.changed now (Job.moved .cancelled none)) := congrArg (·.2.2) hobey
    refine ⟨congrArg Prod.fst hobey, congrArg (·.2.1) hobey, ?_⟩
    rw [hafter]
    exact find?_replace_changed (Job.tame_moved _ _) hfind now
  fired now id e token hcommand hfind hended htoken := by
    have hobey := obey_cancel_of_token hfind hended htoken now
    rw [← hcommand] at hobey
    exact ⟨congrArg Prod.fst hobey, congrArg (·.2.1) hobey, congrArg (·.2.2) hobey⟩
  pruned now hcommand := by
    have hcommand : c = .prune now := hcommand
    subst hcommand
    obtain ⟨hentries, hcount⟩ := prune_eq r now
    exact ⟨hentries, congrArg Reply.count hcount⟩
  error_failed := (h.effect_exchange c).sound.error_failed

/-! ## Histories -/

theorem frozen_of_history (h : r.Sound) (commands : List Command) :
    (r.history commands).Pairwise fun x y => ∀ id e, x.after.find? id = some e → e.Ended →
      y.after.find? id = some e ∨ y.after.find? id = none := by
  refine Sound.pairwise_history (fun r c rest h y hy id e hfind hended => ?_) h commands
  have hsound := (h.effect_exchange c).sound
  have hquiet := hsound.quiet (hsound.id_lt_of_find? hfind)
    (fun e' hfind' => by rwa [Option.some.inj (hfind'.symm.trans hfind)]) hy
  rw [← hfind]
  exact hquiet.1

theorem gone_of_history (h : r.Sound) (commands : List Command) :
    (r.history commands).Pairwise fun x y => ∀ id e, x.before.find? id = some e →
      x.after.find? id = none → y.after.find? id = none := by
  refine Sound.pairwise_history (fun r c rest h y hy id e hfind hnone => ?_) h commands
  have heffect := h.effect_exchange c
  have hid := Int.lt_of_lt_of_le (h.id_lt_of_find? hfind) heffect.nextId_le
  have hquiet := heffect.sound.quiet hid (fun e' hfind' => by cases hnone.symm.trans hfind') hy
  rw [hnone, or_self_iff] at hquiet
  exact hquiet.1

/-- Whatever a registry is asked to do, and whatever its clock shows, its history is lawful. -/
theorem history_lawful (r : Registry) (h : r.Sound) (commands : List Command) :
    Lawful (r.history commands) where
  exchanges x hx := by
    obtain ⟨hsound, -, hexchange⟩ := h.of_mem_history hx
    rw [hexchange]
    exact hsound.lawful_exchange x.command
  created_lt := created_lt_of_history h commands
  frozen := frozen_of_history h commands
  gone := gone_of_history h commands
  ends_once := ends_once_of_history h commands

/-- A registry with one job that is being rendered. -/
def oneRunning : Registry :=
  ((({ retention := 60 } : Registry).create 0 "out.mp4").2.attach 1 1 7).2

theorem history_lawful_oneRunning :
    oneRunning.Sound ∧
      Lawful (oneRunning.history [.cancel 2 1, .setStatus 3 1 .cancelled none, .fail 4 1 "late",
        .create 63 63 "next.mp4"]) := by
  have hsound : oneRunning.Sound :=
    (((sound_empty 60).prune 0).insert 0 "out.mp4").attach 1 1 7
  exact ⟨hsound, history_lawful oneRunning hsound _⟩

example : (oneRunning.history [.cancel 2 1, .setStatus 3 1 .cancelled none, .fail 4 1 "late",
    .create 63 63 "next.mp4"]).map (·.reply) =
      [.done true, .done true, .done false, .created 2] := by decide

end Montage.Registry
