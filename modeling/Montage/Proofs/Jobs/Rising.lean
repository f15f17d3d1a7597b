import Montage.Proofs.Jobs.Shown

/-!
# Streams that rise

The progress of a job never falls, and yet a stream may show it falling: a change may be told before
an earlier one, and a stream that is opened behind changes which are still on their way to it shows
the job as it stands before it shows them.  It rises if neither happens while it is watched
(`Viewing.InOrder`), and only then if it gets to see all that is told of the job
(`Viewing.stream_rises`).  Whatever happens, no item shows more than the job does, and none shows
more than the item that ends the job.
-/

namespace Montage

open Registry (about)

namespace JobEvent

variable {a e : JobEvent} {told earlier later : List JobEvent}

/-- Where nothing in front of it shows more, an event may be told before others if those show no
less. -/
theorem rising_advanced_iff (h : Rising (earlier ++ e :: later)) :
    Rising (told ++ [e] ++ (earlier ++ later)) ↔
      Rising (told ++ (earlier ++ e :: later)) ∧ ∀ a ∈ earlier, e.progress ≤ a.progress := by
  unfold Rising at h ⊢
  simp only [List.pairwise_append, List.pairwise_cons, List.mem_append,
    List.mem_cons] at h ⊢
  grind

/-- Events that show no more than the first of them rise if they show no less, either. -/
theorem rising_cons_iff (h : ∀ a ∈ told, a.progress ≤ e.progress) :
    Rising (e :: told) ↔ ∀ a ∈ told, e.progress ≤ a.progress := by
  unfold Rising
  rw [List.pairwise_cons]
  refine and_iff_left_of_imp fun hle => ?_
  exact List.pairwise_of_forall_mem_list fun a ha b hb => Scalar.le_trans (h a ha) (hle b hb)

end JobEvent

open JobEvent (Rising)

/-! ## What a stream has before it -/

theorem Channel.drop_eq_of_take_eq {c : Channel} {place later : Nat} {gone : List JobEvent}
    (h : c.told.take later = c.told.take place ++ gone) :
    c.told.drop place = gone ++ c.told.drop later := by
  have hsplit := List.take_append_drop later c.told
  rw [h, List.append_assoc] at hsplit
  exact List.append_cancel_left ((List.take_append_drop place c.told).trans hsplit.symm)

namespace EventStream

/-- The events of its job that a stream has still before it. -/
def ahead (c : Channel) (s : EventStream) : List JobEvent :=
  s.snapshot.toList ++ about s.job (c.told.drop s.place)

/-- A move takes from the front of what is ahead: what it tells, and what the channel has lost. -/
theorem ahead_next (c : Channel) (s : EventStream) :
    ∃ gone, s.ahead c = Viewing.told (s.next c).1 ++ gone ++ (s.next c).2.ahead c ∧
      (about s.job (c.lost s.place) = [] → gone = []) := by
  obtain ⟨job, place, snapshot, finished⟩ := s
  rcases snapshot with _ | e
  · rcases finished with _ | _
    · have hreceipt := c.receipt_receive place
      rcases hreceive : c.receive place with ⟨received, later⟩
      rw [hreceive] at hreceipt
      simp only [next, hreceive, ahead, Option.toList_none, List.nil_append, Bool.false_eq_true,
        if_false]
      cases hreceipt with
      | @event e _ _ htake =>
        rw [Channel.drop_eq_of_take_eq htake, Registry.about_append]
        by_cases hjob : e.job = job
        · refine ⟨[], ?_, fun _ => rfl⟩
          simp [about, hjob, Viewing.told]
        · refine ⟨[], ?_, fun _ => rfl⟩
          simp [about, hjob, Viewing.told]
      | lagged _ htake =>
        refine ⟨about job (c.lost place), ?_, id⟩
        rw [Channel.drop_eq_of_take_eq htake, Registry.about_append]
        rfl
      | nothing => exact ⟨[], rfl, fun _ => rfl⟩
    · exact ⟨[], rfl, fun _ => rfl⟩
  · exact ⟨[], rfl, fun _ => rfl⟩

end EventStream

namespace Viewing

variable {v : Viewing} {s : EventStream} {step : Step}

/-! ## The order in which a job is shown -/

/-- What the stream has told, has before it and is still to be told of its job, in this order. -/
def course (v : Viewing) : List JobEvent :=
  match v.stream with
  | some s => v.items ++ s.ahead v.desk.channel ++ about v.job v.desk.untold
  | none => []

/-- After the step the job is not shown going back if it was not before: the stream is opened when
nothing is on its way to it that shows less than the job does, and while it is open no change is
told in front of an earlier one that shows less. -/
def InOrder (v : Viewing) : Step → Prop
  | .look => ∀ place ∈ v.place, ∀ j ∈ v.desk.registry.get? v.job,
      ∀ e ∈ about v.job (v.desk.channel.told.drop place ++ v.desk.untold), j.progress ≤ e.progress
  | .turn (.tell place) => v.stream.isSome → ∀ event ∈ v.desk.untold[place]?, event.job = v.job →
      ∀ e ∈ about v.job (v.desk.untold.take place), event.progress ≤ e.progress
  | _ => True

/-- The channel has dropped nothing of the job before the stream reads. -/
def Spared (v : Viewing) : Step → Prop
  | .read => ∀ s ∈ v.stream, about v.job (v.desk.channel.lost s.place) = []
  | _ => True

/-- The condition holds of every step when it is taken. -/
def Throughout (P : Viewing → Step → Prop) (v : Viewing) : List Step → Prop
  | [] => True
  | step :: rest => P v step ∧ (v.take step).Throughout P rest

instance InOrder.decidable (v : Viewing) : (step : Step) → Decidable (v.InOrder step)
  | .look => inferInstanceAs (Decidable (∀ place ∈ v.place, _))
  | .turn (.tell _) => inferInstanceAs (Decidable (v.stream.isSome → _))
  | .turn (.prune _) | .turn .draw | .turn (.enter ..) | .turn (.follow ..) | .turn (.setStatus ..)
  | .turn (.fail ..) | .turn (.deliverProgress ..) | .turn (.deliverOutcome ..)
  | .turn (.inquire _) | .turn (.carryOut ..) | .subscribe | .read => isTrue trivial

instance Spared.decidable (v : Viewing) : (step : Step) → Decidable (v.Spared step)
  | .read => inferInstanceAs (Decidable (∀ s ∈ v.stream, _))
  | .turn _ | .subscribe | .look => isTrue trivial

instance Throughout.decidable {P : Viewing → Step → Prop} [∀ v step, Decidable (P v step)]
    (v : Viewing) : (steps : List Step) → Decidable (v.Throughout P steps)
  | [] => isTrue trivial
  | step :: rest =>
    have := Throughout.decidable (P := P) (v.take step) rest
    inferInstanceAs (Decidable (P v step ∧ (v.take step).Throughout P rest))

theorem inOrder_turn {t : Desk.Turn} (ht : ∀ place, t ≠ .tell place) : v.InOrder (.turn t) := by
  cases t with
  | tell place => exact absurd rfl (ht place)
  | _ => trivial

theorem course_eq (hs : v.stream = some s) :
    v.course = v.items ++ s.ahead v.desk.channel ++ about v.job v.desk.untold := by
  rw [course, hs]

theorem course_of_none (hs : v.stream = none) : v.course = [] := by
  rw [course, hs]

theorem about_drop_subset (c : Channel) (place : Nat) (id : Int) :
    about id (c.told.drop place) ⊆ about id c.told :=
  ((List.drop_sublist ..).filter _).subset

theorem mem_shown_of_mem_course (h : v.Reading s) (hs : v.stream = some s) {a : JobEvent}
    (ha : a ∈ v.course) : a ∈ v.shown := by
  have hdrop := about_drop_subset v.desk.channel s.place v.job (a := a)
  rw [course_eq hs, EventStream.ahead, h.job] at ha
  rw [mem_shown, hs, Option.bind_some]
  simp only [List.mem_append] at ha
  grind

theorem Ranked.rising_tell (h : v.Ranked) (hreading : v.Reading s) (hs : v.stream = some s)
    (place : Nat) : Rising (v.take (.turn (.tell place))).course ↔
      Rising v.course ∧ v.InOrder (.turn (.tell place)) := by
  rcases hplace : v.desk.untold[place]? with _ | event
  · have htake : v.take (.turn (.tell place)) = v := by rw [Viewing.take, Desk.take, hplace]
    rw [htake]
    refine (and_iff_left fun _ event hevent => ?_).symm
    cases hplace.symm.trans hevent
  have hchannel : (v.desk.take (.tell place)).channel = v.desk.channel.tell [event] := by
    rw [Desk.take, hplace]
  have huntold : (v.desk.take (.tell place)).untold = v.desk.untold.eraseIdx place := by
    rw [Desk.take, hplace]
  have horder : v.InOrder (.turn (.tell place)) ↔ (event.job = v.job →
      ∀ e ∈ about v.job (v.desk.untold.take place), event.progress ≤ e.progress) := by
    simp [InOrder, hplace, hs]
  obtain ⟨hlt, hevent⟩ := List.getElem?_eq_some_iff.1 hplace
  have hsplit : about v.job v.desk.untold = about v.job (v.desk.untold.take place) ++
      (about v.job [event] ++ about v.job (v.desk.untold.drop (place + 1))) := by
    rw [← Registry.about_append, ← Registry.about_append, List.singleton_append, ← hevent,
      ← List.drop_eq_getElem_cons hlt, List.take_append_drop]
  have herased : about v.job (v.desk.untold.eraseIdx place) =
      about v.job (v.desk.untold.take place) ++ about v.job (v.desk.untold.drop (place + 1)) := by
    rw [List.eraseIdx_eq_take_drop_succ, Registry.about_append]
  have hahead : s.ahead (v.desk.channel.tell [event]) =
      s.ahead v.desk.channel ++ about v.job [event] := by
    rw [EventStream.ahead, EventStream.ahead, Channel.tell,
      List.drop_append_of_le_length hreading.place_le, Registry.about_append, hreading.job,
      List.append_assoc]
  rw [course_eq hs, course_eq (v := v.take (.turn (.tell place))) hs, horder]
  change Rising (v.items ++ s.ahead (v.desk.take (.tell place)).channel ++
    about v.job (v.desk.take (.tell place)).untold) ↔ _
  rw [hchannel, huntold, hahead, herased, hsplit]
  by_cases hjob : event.job = v.job
  · have hself : about v.job [event] = [event] := by simp [about, hjob]
    have hrising := h.untold
    rw [hsplit, hself] at hrising
    rw [hself, ← List.append_assoc v.items, forall_prop_of_true hjob]
    exact JobEvent.rising_advanced_iff hrising
  · have hother : about v.job [event] = [] := by simp [about, hjob]
    rw [hother, List.append_nil, List.nil_append]
    exact (and_iff_left fun heq => absurd heq hjob).symm

theorem inOrder_turn_of_none (hs : v.stream = none) (t : Desk.Turn) : v.InOrder (.turn t) := by
  cases t with
  | tell place =>
    intro hsome
    rw [hs] at hsome
    cases hsome
  | _ => trivial

theorem Ranked.rising_turn (h : v.Ranked) (hsound : v.Sound) (t : Desk.Turn) :
    Rising (v.take (.turn t)).course ↔ Rising v.course ∧ v.InOrder (.turn t) := by
  rcases hs : v.stream with _ | s
  · rw [course_of_none hs, course_of_none (v := v.take (.turn t)) hs]
    exact (and_iff_left (inOrder_turn_of_none hs t)).symm
  have hreading := hsound.reading s hs
  by_cases htell : ∃ place, t = .tell place
  · obtain ⟨place, rfl⟩ := htell
    exact h.rising_tell hreading hs place
  have ht : ∀ place, t ≠ .tell place := fun place heq => htell ⟨place, heq⟩
  rw [and_iff_left (inOrder_turn ht), course_eq hs, course_eq (v := v.take (.turn t)) hs]
  change Rising (v.items ++ s.ahead (v.desk.take t).channel ++ about v.job (v.desk.take t).untold)
    ↔ _
  cases Desk.bearing_take hsound.kept.sound t v.job with
  | rests hchannel huntold | begins hchannel huntold => rw [hchannel, huntold]
  | @moves e e' hchannel hfind _ _ hgrows huntold =>
    rw [hchannel, huntold, ← List.append_assoc]
    refine ⟨fun hrising => (List.pairwise_append.1 hrising).1, fun hrising => ?_⟩
    refine hrising.concat fun a ha => ?_
    have hshown : a ∈ v.shown := mem_shown_of_mem_course hreading hs (course_eq hs ▸ ha)
    exact Scalar.le_trans (h.below a hshown e.job (congrArg (·.map (·.job)) hfind)) hgrows
  | tells heq => exact absurd heq (ht _)

theorem Ranked.rising_look (h : v.Ranked) (hsound : v.Sound) :
    Rising (v.take .look).course ↔ Rising v.course ∧ v.InOrder .look := by
  rcases hplace : v.place with _ | place
  · have htake : v.take .look = v := by rw [Viewing.take, hplace]
    rw [htake]
    refine (and_iff_left fun place hmem => ?_).symm
    cases hplace.symm.trans hmem
  have hnone := (hsound.place_le place hplace).2
  rw [take_look hplace, course_of_none hnone]
  rcases hget : v.desk.registry.get? v.job with _ | j
  · refine iff_of_true List.Pairwise.nil ⟨List.Pairwise.nil, fun _ _ j hj => ?_⟩
    cases hget.symm.trans hj
  have horder : v.InOrder .look ↔ ∀ e ∈ about v.job
      (v.desk.channel.told.drop place ++ v.desk.untold), j.progress ≤ e.progress := by
    simp [InOrder, hplace, hget]
  have hid : j.id = v.job := by
    obtain ⟨e, hfind, rfl⟩ := Option.map_eq_some_iff.1 hget
    exact Registry.id_of_find? hfind
  have hcourse : v.items ++ (EventStream.ofJob place j).ahead v.desk.channel ++
      about v.job v.desk.untold =
        j.event :: about v.job (v.desk.channel.told.drop place ++ v.desk.untold) := by
    rw [hsound.silent hnone, EventStream.ahead, EventStream.ofJob, hid, Registry.about_append]
    rfl
  have hbelow : ∀ a ∈ about v.job (v.desk.channel.told.drop place ++ v.desk.untold),
      a.progress ≤ j.event.progress := by
    intro a ha
    refine h.below a ?_ j hget
    have hdrop := about_drop_subset v.desk.channel place v.job (a := a)
    rw [Registry.about_append, List.mem_append] at ha
    rw [mem_shown]
    grind
  rw [Option.map_some, course_eq rfl, hcourse, JobEvent.rising_cons_iff hbelow, horder]
  exact (and_iff_right List.Pairwise.nil).symm

/-- A read takes from the course what the channel has dropped. -/
theorem Sound.course_read (h : v.Sound) :
    (v.take .read).course.Sublist v.course ∧
      (v.Spared .read → (v.take .read).course = v.course) := by
  rcases hs : v.stream with _ | s
  · rw [Viewing.take, hs]
    exact ⟨List.Sublist.refl _, fun _ => rfl⟩
  · have hreading := h.reading s hs
    obtain ⟨gone, hahead, hgone⟩ := s.ahead_next v.desk.channel
    rw [take_read hs, course_eq rfl, course_eq hs, hahead]
    simp only [List.append_assoc]
    refine ⟨?_, fun hspared => ?_⟩
    · exact ((List.Sublist.refl _).append ((List.sublist_append_right ..))).append_left _
    · rw [hgone (hreading.job.symm ▸ hspared s hs), List.nil_append]

theorem Ranked.rising_take (h : v.Ranked) (hsound : v.Sound) (hrising : Rising v.course)
    (horder : v.InOrder step) : Rising (v.take step).course := by
  cases step with
  | turn t => exact (h.rising_turn hsound t).2 ⟨hrising, horder⟩
  | subscribe =>
    rw [Viewing.take]
    split <;> exact hrising
  | look => exact (h.rising_look hsound).2 ⟨hrising, horder⟩
  | read => exact hrising.sublist hsound.course_read.1

theorem Ranked.rising_take_iff (h : v.Ranked) (hsound : v.Sound) (hspared : v.Spared step) :
    Rising (v.take step).course ↔ Rising v.course ∧ v.InOrder step := by
  cases step with
  | turn t => exact h.rising_turn hsound t
  | subscribe =>
    rw [Viewing.take]
    split <;> exact (and_iff_left trivial).symm
  | look => exact h.rising_look hsound
  | read =>
    rw [hsound.course_read.2 hspared]
    exact (and_iff_left trivial).symm

theorem Ranked.rising_run {steps : List Step} (h : v.Ranked) (hsound : v.Sound)
    (hrising : Rising v.course) (horder : v.Throughout InOrder steps) :
    Rising (v.run steps).course := by
  induction steps generalizing v with
  | nil => exact hrising
  | cons step rest ih =>
    exact ih (h.take hsound step) (hsound.take step) (h.rising_take hsound hrising horder.1)
      horder.2

/-- Where nothing is lost, the job is shown rising only if every step was in order. -/
theorem Ranked.rising_run_iff {steps : List Step} (h : v.Ranked) (hsound : v.Sound)
    (hspared : v.Throughout Spared steps) :
    Rising (v.run steps).course ↔ Rising v.course ∧ v.Throughout InOrder steps := by
  induction steps generalizing v with
  | nil => exact (and_iff_left trivial).symm
  | cons step rest ih =>
    have hrun : v.run (step :: rest) = (v.take step).run rest := rfl
    rw [hrun, ih (h.take hsound step) (hsound.take step) hspared.2,
      h.rising_take_iff hsound hspared.1, Throughout, and_assoc]

/-! ## What a stream shows -/

/-- The stream has told all that there is to tell of its job. -/
def Complete (v : Viewing) (s : EventStream) : Prop :=
  s.snapshot = none ∧ about v.job (v.desk.channel.told.drop s.place ++ v.desk.untold) = []

instance (s : EventStream) : Decidable (v.Complete s) := inferInstanceAs (Decidable (_ ∧ _))

theorem Complete.course_eq (h : v.Complete s) (hsound : v.Sound) (hs : v.stream = some s) :
    v.course = v.items := by
  obtain ⟨hsnapshot, hrest⟩ := h
  rw [Registry.about_append, List.append_eq_nil_iff] at hrest
  rw [Viewing.course_eq hs, EventStream.ahead, hsnapshot, (hsound.reading s hs).job, hrest.1,
    hrest.2]
  simp

/-- However the steps of the stream and the turns at the desk follow each other: the stream rises if
every step was in order, and only then if it has told all that there is to tell; no item shows more
than the job does, and none shows more than the one that ends the job. -/
theorem stream_rises (retention : Nat) (job : Int) (steps : List Step) (s : EventStream)
    (hs : ((opened retention job).run steps).stream = some s) :
    let v := (opened retention job).run steps
    ((opened retention job).Throughout InOrder steps → Rising v.items) ∧
      ((opened retention job).Throughout Spared steps → v.Complete s →
        (Rising v.items ↔ (opened retention job).Throughout InOrder steps)) ∧
      (∀ a ∈ v.items, ∀ j, v.desk.registry.get? v.job = some j → a.progress ≤ j.progress) ∧
      ∀ a ∈ v.items, a.status.isTerminal = true → ∀ b ∈ v.items, b.progress ≤ a.progress := by
  have hopened := sound_opened retention job
  have hsound := hopened.run steps
  have hranked := (ranked_opened retention job).run hopened steps
  have hshown (a : JobEvent) (ha : a ∈ ((opened retention job).run steps).items) :
      a ∈ ((opened retention job).run steps).shown := mem_shown.2 (Or.inl ha)
  refine ⟨fun horder => ?_, fun hspared hcomplete => ?_, fun a ha => hranked.below a (hshown a ha),
    fun a ha hterminal b hb => hranked.last a (hshown a ha) hterminal b (hshown b hb)⟩
  · have hrising := (ranked_opened retention job).rising_run hopened List.Pairwise.nil horder
    rw [course_eq hs, List.append_assoc] at hrising
    exact (List.pairwise_append.1 hrising).1
  · rw [← hcomplete.course_eq hsound hs,
      (ranked_opened retention job).rising_run_iff hopened hspared]
    exact and_iff_right List.Pairwise.nil

/-- The job has come so far, and that is still to be told. -/
def progressed (job : Int) (progress : Float) : Step :=
  .turn (.setStatus 1 job .running (some progress))

theorem stream_rises_rendered :
    let steps := arrival ++ [progressed 1 0.25, progressed 1 0.75, .turn (.tell 0), .turn (.tell 0),
      .read, .turn (.deliverOutcome 2 1 (.ok "out.mp4")), .turn (.tell 0), .read, .read]
    let v := (opened 60 1).run steps
    v.stream = some ⟨1, 3, none, true⟩ ∧ v.items.map (·.progress) = [0.0, 0.25, 0.75, 1.0] ∧
      v.Complete ⟨1, 3, none, true⟩ ∧ (opened 60 1).Throughout Spared steps ∧ Rising v.items := by
  intro steps v
  have hs : v.stream = some ⟨1, 3, none, true⟩ := by decide
  have hcomplete : v.Complete ⟨1, 3, none, true⟩ := by decide
  have hspared : (opened 60 1).Throughout Spared steps := by decide
  have horder : (opened 60 1).Throughout InOrder steps := by decide
  exact ⟨hs, by decide, hcomplete, hspared,
    ((stream_rises 60 1 steps _ hs).2.1 hspared hcomplete).2 horder⟩

/-- A change is told before an earlier one. -/
def crossed : List Step :=
  arrival ++ [progressed 1 0.25, progressed 1 0.75, .turn (.tell 1), .turn (.tell 0), .read, .read]

/-- A client takes its place, and looks at the job when two changes have been told. -/
def belated : List Step :=
  [.turn (.prune 0), .turn .draw, .turn (.enter 0 0 "out.mp4"), .subscribe,
    progressed 1 0.25, .turn (.tell 0), progressed 1 0.75, .turn (.tell 0), .look, .read, .read]

/-- A stream goes back if a change is told before an earlier one, and if what it begins with is
ahead of the changes that wait for it. -/
theorem not_rising_crossed :
    ((opened 60 1).run crossed).items.map (·.progress) = [0.0, 0.75, 0.25] ∧
      ((opened 60 1).run belated).items.map (·.progress) = [0.75, 0.25] ∧
      ¬ ∀ (retention : Nat) (job : Int) (steps : List Step),
        Rising ((opened retention job).run steps).items := by
  refine ⟨by decide, by decide, fun h => ?_⟩
  have hcrossed : ¬ Rising ((opened 60 1).run crossed).items := by decide
  exact hcrossed (h 60 1 crossed)

end Viewing

end Montage
