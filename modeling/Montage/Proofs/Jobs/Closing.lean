import Montage.Jobs.Viewing
import Montage.Proofs.Jobs.Ends

/-!
# Streams close behind the end of their job

Whatever else happens at the desk, a stream tells nothing behind the event that ends its job, and
when it has read all that the channel holds it has told that event, unless the channel had dropped
the event before the stream got to it (`Viewing.stream_closes`).  In that case the stream waits for
ever (`Viewing.not_told_overrun`).
-/

namespace Montage

open Registry (endings)

namespace Channel

/-- What a listener at the place misses if it reads now. -/
def lost (c : Channel) (place : Nat) : List JobEvent :=
  (c.told.take (c.told.length - capacity)).drop place

variable {c : Channel} {place : Nat}

theorem lost_of_le (h : c.told.length ≤ place + capacity) : c.lost place = [] :=
  List.drop_eq_nil_of_le (Nat.le_trans (List.length_take_le ..) (Nat.sub_le_of_le_add h))

/-- What can be got from the channel at a place. -/
inductive Receipt (c : Channel) (place : Nat) : Received → Nat → Prop
  | event {e : JobEvent} : c.lost place = [] → place + 1 ≤ c.told.length →
      c.told.take (place + 1) = c.told.take place ++ [e] → Receipt c place (.event e) (place + 1)
  | lagged {later : Nat} : later ≤ c.told.length →
      c.told.take later = c.told.take place ++ c.lost place → Receipt c place .lagged later
  | nothing : c.lost place = [] → c.told.take place = c.told → Receipt c place .nothing place

theorem receipt_receive (c : Channel) (place : Nat) :
    Receipt c place (c.receive place).1 (c.receive place).2 := by
  rw [receive]
  split
  case isTrue hlag =>
    have hkept : place ≤ c.told.length - capacity := by omega
    have hsplit := List.take_append_drop place (c.told.take (c.told.length - capacity))
    rw [List.take_take, Nat.min_eq_left hkept] at hsplit
    exact .lagged (Nat.sub_le ..) hsplit.symm
  case isFalse hnear =>
    have hlost : c.lost place = [] := lost_of_le (Nat.le_of_not_lt hnear)
    split
    case h_1 e he =>
      obtain ⟨hlt, rfl⟩ := List.getElem?_eq_some_iff.1 he
      exact .event hlost hlt (List.take_succ_eq_append_getElem hlt)
    case h_2 hnone =>
      exact .nothing hlost (List.take_of_length_le (List.getElem?_eq_none_iff.1 hnone))

end Channel

namespace EventStream

/-- What a stream can do next. -/
inductive Advance (c : Channel) (s : EventStream) : Move → EventStream → Prop
  | shows {e : JobEvent} : s.snapshot = some e → Advance c s (.tells e) { s with snapshot := none }
  | ends : s.snapshot = none → s.finished = true → Advance c s .ends s
  | waits : s.snapshot = none → s.finished = false → c.lost s.place = [] →
      c.told.take s.place = c.told → Advance c s .waits s
  | skips {later : Nat} {gone : List JobEvent} : s.snapshot = none → s.finished = false →
      later ≤ c.told.length → c.told.take later = c.told.take s.place ++ gone →
      endings s.job gone = endings s.job (c.lost s.place) →
      Advance c s .skips { s with place := later }
  | tells {e : JobEvent} : s.snapshot = none → s.finished = false → c.lost s.place = [] →
      s.place + 1 ≤ c.told.length → c.told.take (s.place + 1) = c.told.take s.place ++ [e] →
      e.job = s.job →
      Advance c s (.tells e) { s with place := s.place + 1, finished := e.status.isTerminal }

theorem advance_next (c : Channel) (s : EventStream) : Advance c s (s.next c).1 (s.next c).2 := by
  obtain ⟨job, place, snapshot, finished⟩ := s
  rcases snapshot with _ | e
  · rcases finished with _ | _
    · have hreceipt := c.receipt_receive place
      rcases hreceive : c.receive place with ⟨received, later⟩
      rw [hreceive] at hreceipt
      simp only [next, hreceive]
      cases hreceipt with
      | @event e hlost hle htake =>
        by_cases hjob : e.job = job
        · simp only [Bool.false_eq_true, if_false, if_pos hjob]
          exact .tells rfl rfl hlost hle htake hjob
        · simp only [Bool.false_eq_true, if_false, if_neg hjob]
          exact .skips rfl rfl hle htake (by rw [Registry.endings_of_ne hjob, hlost]; rfl)
      | lagged hle htake => exact .skips rfl rfl hle htake rfl
      | nothing hlost htake => exact .waits rfl rfl hlost htake
    · exact .ends rfl rfl
  · exact .shows rfl

end EventStream

theorem Desk.told_take (d : Desk) (t : Desk.Turn) :
    ∃ more, (d.take t).channel.told = d.channel.told ++ more := by
  rcases hchange : t.change? with _ | ⟨now, id, change⟩
  · cases t with
    | tell place =>
      rw [take]
      split
      · exact ⟨_, rfl⟩
      · exact ⟨[], (List.append_nil _).symm⟩
    | enter | carryOut =>
      rw [take]
      split <;> exact ⟨[], (List.append_nil _).symm⟩
    | setStatus | fail | deliverProgress | deliverOutcome => cases hchange
    | prune | draw | follow | inquire => exact ⟨[], (List.append_nil _).symm⟩
  · rw [take_of_change? d hchange]
    rcases d.registry.update now id change with _ | ⟨event, r⟩ <;>
      exact ⟨[], (List.append_nil _).symm⟩

namespace Viewing

variable {v : Viewing} {s : EventStream} {step : Step}

/-! ## What holds of a stream -/

/-- What holds of a stream: it shows the job from where the job stood when the stream was opened,
and no event but the last one that it tells, or is about to tell, ends the job. -/
structure Reading (v : Viewing) (s : EventStream) : Prop where
  job : s.job = v.job
  place_le : s.place ≤ v.desk.channel.told.length
  first : s.snapshot ≠ none → v.items = []
  about : ∀ e ∈ v.items ++ s.snapshot.toList, e.job = v.job
  last : ∃ earlier e, v.items ++ s.snapshot.toList = earlier ++ [e] ∧
    (∀ e ∈ earlier, e.status.isTerminal = false) ∧ e.status.isTerminal = s.finished ∧
    (s.finished = true → v.desk.ends v.job = [e])

/-- What holds whenever someone watches a job. -/
structure Sound (v : Viewing) : Prop where
  kept : v.desk.Kept
  chronicled : v.desk.Chronicled
  place_le : ∀ place, v.place = some place → place ≤ v.desk.channel.told.length ∧ v.stream = none
  silent : v.stream = none → v.items = []
  reading : ∀ s, v.stream = some s → v.Reading s

theorem sound_opened (retention : Nat) (job : Int) : (opened retention job).Sound where
  kept := Desk.kept_opened retention
  chronicled := Desk.chronicled_opened retention
  place_le := nofun
  silent _ := rfl
  reading := nofun

theorem Reading.turn (h : v.Reading s) (hkept : v.desk.Kept) (t : Desk.Turn) :
    (v.take (.turn t)).Reading s := by
  obtain ⟨more, hmore⟩ := v.desk.told_take t
  obtain ⟨earlier, e, hitems, hearlier, hterminal, hends⟩ := h.last
  refine ⟨h.job, Nat.le_trans h.place_le ?_, h.first, h.about,
    earlier, e, hitems, hearlier, hterminal, fun hfinished => ?_⟩
  · have hlength := congrArg List.length hmore
    rw [List.length_append] at hlength
    exact hlength ▸ Nat.le_add_right ..
  · have hover : v.desk.Over v.job :=
      hkept.over_of_mem_ends (hends hfinished ▸ List.mem_singleton_self e)
    have hperm := hover.ends_perm (Desk.step_take hkept.sound t)
    exact List.perm_singleton.1 (hends hfinished ▸ hperm)

theorem take_look {place : Nat} (hplace : v.place = some place) :
    v.take .look = { v with
      place := none
      stream := (v.desk.registry.get? v.job).map (.ofJob place) } := by
  rw [take, hplace]

/-- The stream of a job that was there begins with the job as it stood. -/
theorem Sound.reading_look (h : v.Sound) {place : Nat} (hplace : v.place = some place)
    (hs : (v.take .look).stream = some s) : (v.take .look).Reading s := by
  rw [take_look hplace] at hs ⊢
  obtain ⟨hle, hnone⟩ := h.place_le place hplace
  obtain ⟨j, hget, rfl⟩ := Option.map_eq_some_iff.1 hs
  obtain ⟨entry, hfind, rfl⟩ := Option.map_eq_some_iff.1 hget
  have hid : entry.job.id = v.job := Registry.id_of_find? hfind
  have hitems : v.items = [] := h.silent hnone
  refine ⟨hid, hle, fun _ => hitems, fun e he => ?_, [], entry.job.event, ?_, nofun, rfl,
    h.chronicled.shown v.job entry hfind⟩
  · rw [hitems] at he
    rw [List.mem_singleton.1 he]
    exact hid
  · rw [hitems]
    rfl

theorem take_read (hs : v.stream = some s) :
    v.take .read = { v with
      stream := some (s.next v.desk.channel).2
      items := v.items ++ told (s.next v.desk.channel).1 } := by
  rw [take, hs]

/-- A stream goes on as it began. -/
theorem Reading.read (h : v.Reading s) (hchronicled : v.desk.Chronicled)
    {move : EventStream.Move} {s' : EventStream} (hadvance : s.Advance v.desk.channel move s') :
    Reading { v with stream := some s', items := v.items ++ told move } s' := by
  obtain ⟨earlier, e, hitems, hearlier, hterminal, hends⟩ := h.last
  cases hadvance with
  | @shows e' hsnapshot =>
    have hsame : v.items ++ [e'] ++ [] = v.items ++ s.snapshot.toList := by
      rw [hsnapshot, List.append_nil]
      rfl
    exact ⟨h.job, h.place_le, fun hne => absurd rfl hne, hsame ▸ h.about,
      earlier, e, hsame.trans hitems, hearlier, hterminal, hends⟩
  | ends | waits =>
    rw [told, List.append_nil]
    exact ⟨h.job, h.place_le, h.first, h.about, earlier, e, hitems, hearlier, hterminal, hends⟩
  | skips _ _ hle =>
    rw [told, List.append_nil]
    exact ⟨h.job, hle, h.first, h.about, earlier, e, hitems, hearlier, hterminal, hends⟩
  | @tells e' hsnapshot hfinished _ hle htake hjob =>
    have habout := h.about
    rw [hsnapshot, Option.toList_none, List.append_nil] at hitems habout
    have he' : e' ∈ v.desk.channel.told :=
      List.mem_of_mem_take (htake ▸ List.mem_append_right _ (List.mem_singleton_self e'))
    refine ⟨h.job, hle, fun hne => absurd hsnapshot hne, fun x hx => ?_,
      earlier ++ [e], e', ?_, fun x hx => ?_, rfl, fun hfinished' => ?_⟩
    · rw [told, hsnapshot, Option.toList_none, List.append_nil, List.mem_append,
        List.mem_singleton] at hx
      rcases hx with hx | rfl
      · exact habout x hx
      · exact hjob.trans h.job
    · rw [told, hsnapshot, Option.toList_none, List.append_nil, hitems]
    · rcases List.mem_append.1 hx with hx | hx
      · exact hearlier x hx
      · rw [List.mem_singleton.1 hx, hterminal, hfinished]
    · exact hchronicled.ends_eq
        (Registry.mem_endings.2 ⟨List.mem_append_left _ he', hjob.trans h.job, hfinished'⟩)

theorem Sound.take (h : v.Sound) (step : Step) : (v.take step).Sound := by
  cases step with
  | turn t =>
    obtain ⟨more, hmore⟩ := v.desk.told_take t
    refine ⟨h.kept.take t, h.chronicled.take h.kept t, fun place hplace => ?_, h.silent,
      fun s hs => (h.reading s hs).turn h.kept t⟩
    obtain ⟨hle, hnone⟩ := h.place_le place hplace
    exact ⟨Nat.le_trans hle (by simp [Viewing.take, hmore]), hnone⟩
  | subscribe =>
    rw [Viewing.take]
    split
    case isTrue => exact h
    case isFalse hbusy =>
      rw [Bool.or_eq_true, not_or] at hbusy
      have hnone := Option.not_isSome_iff_eq_none.1 hbusy.2
      refine ⟨h.kept, h.chronicled, fun place hplace => ?_, h.silent, fun s hs => ?_⟩
      · cases hplace
        exact ⟨Nat.le_refl _, hnone⟩
      · cases hnone.symm.trans hs
  | look =>
    rcases hplace : v.place with _ | place
    · rw [Viewing.take, hplace]
      exact h
    · have hreading (s : EventStream) := h.reading_look hplace (s := s)
      have hnone := (h.place_le place hplace).2
      rw [take_look hplace] at hreading ⊢
      exact ⟨h.kept, h.chronicled, nofun, fun _ => h.silent hnone, hreading⟩
  | read =>
    rcases hs : v.stream with _ | s
    · rw [Viewing.take, hs]
      exact h
    · have hreading := (h.reading s hs).read h.chronicled (s.advance_next v.desk.channel)
      rw [take_read hs]
      refine ⟨h.kept, h.chronicled, fun place hplace => ?_, nofun, fun s' hs' => ?_⟩
      · cases hs.symm.trans (h.place_le place hplace).2
      · cases hs'
        exact hreading

theorem Sound.run (h : v.Sound) (steps : List Step) : (v.run steps).Sound := by
  induction steps generalizing v with
  | nil => exact h
  | cons step rest ih => exact ih (h.take step)

/-! ## Missing the end -/

/-- The stream would go on without having told the end of its job, which it has passed. -/
def Missed (v : Viewing) : Prop :=
  ∃ s, v.stream = some s ∧ s.finished = false ∧
    endings v.job (v.desk.channel.told.take s.place) ≠ []

/-- The channel has dropped the end of the job before the stream got to it. -/
def Overtaken (v : Viewing) : Prop :=
  ∃ s, v.stream = some s ∧ s.snapshot = none ∧ s.finished = false ∧
    endings v.job (v.desk.channel.lost s.place) ≠ []

/-- Whenever the stream reads, the channel still has the end of the job for it. -/
def Attentive (v : Viewing) : List Step → Prop
  | [] => True
  | step :: rest => (step = .read → ¬ v.Overtaken) ∧ (v.take step).Attentive rest

theorem missed_iff (hs : v.stream = some s) :
    v.Missed ↔ s.finished = false ∧ endings v.job (v.desk.channel.told.take s.place) ≠ [] := by
  simp [Missed, hs]

theorem overtaken_iff (hs : v.stream = some s) :
    v.Overtaken ↔ s.snapshot = none ∧ s.finished = false ∧
      endings v.job (v.desk.channel.lost s.place) ≠ [] := by
  simp [Overtaken, hs]

instance : Decidable v.Overtaken :=
  match hs : v.stream with
  | none => isFalse fun ⟨_, hs', _⟩ => nomatch hs.symm.trans hs'
  | some _ => decidable_of_iff _ (overtaken_iff hs).symm

instance Attentive.decidable (v : Viewing) : (steps : List Step) → Decidable (v.Attentive steps)
  | [] => isTrue trivial
  | step :: rest =>
    have := Attentive.decidable (v.take step) rest
    if hread : step matches .read then
      decidable_of_iff (¬ v.Overtaken ∧ (v.take step).Attentive rest) (by
        cases step <;> simp_all [Attentive])
    else
      decidable_of_iff ((v.take step).Attentive rest) (by cases step <;> simp_all [Attentive])

theorem missed_turn (hle : ∀ s, v.stream = some s → s.place ≤ v.desk.channel.told.length)
    (t : Desk.Turn) : (v.take (.turn t)).Missed ↔ v.Missed := by
  obtain ⟨more, hmore⟩ := v.desk.told_take t
  refine exists_congr fun s => and_congr_right fun hs => ?_
  rw [take, hmore, List.take_append_of_le_length (hle s hs)]

/-- A stream is not opened for a job whose end has been told, unless it shows that end. -/
theorem Sound.not_missed_look (h : v.Sound) {place : Nat} (hplace : v.place = some place) :
    ¬ (v.take .look).Missed := by
  rw [take_look hplace]
  rintro ⟨s, hs, hfinished, hbehind⟩
  obtain ⟨j, hget, rfl⟩ := Option.map_eq_some_iff.1 hs
  obtain ⟨entry, hfind, rfl⟩ := Option.map_eq_some_iff.1 hget
  obtain ⟨e, he⟩ := List.exists_mem_of_ne_nil _ hbehind
  obtain ⟨hmem, hjob⟩ := Registry.mem_endings.1 he
  have hover := h.kept.over_of_mem_ends
    (Registry.mem_endings.2 ⟨List.mem_append_left _ (List.mem_of_mem_take hmem), hjob⟩)
  have hended : entry.job.status.isTerminal = true := hover.ended entry hfind
  exact Bool.false_ne_true (hfinished.symm.trans hended)

/-- The stream misses the end when it reads what is left behind the end. -/
theorem Sound.missed_read (h : v.Sound) : (v.take .read).Missed ↔ v.Missed ∨ v.Overtaken := by
  rcases hs : v.stream with _ | s
  · simp [Viewing.take, Missed, Overtaken, hs]
  · rw [take_read hs, missed_iff rfl, missed_iff hs, overtaken_iff hs]
    have hjob := (h.reading s hs).job
    have hadvance := s.advance_next v.desk.channel
    generalize s.next v.desk.channel = moved at hadvance ⊢
    obtain ⟨move, s'⟩ := moved
    dsimp only at hadvance ⊢
    cases hadvance with
    | shows hsnapshot => simp [hsnapshot]
    | ends _ hfinished => simp [hfinished]
    | waits _ _ hlost => simp [hlost]
    | skips hsnapshot hfinished _ htake hgone =>
      rw [hjob] at hgone
      simp only [htake, Registry.endings_append, hgone, hsnapshot, hfinished]
      simp [or_iff_not_imp_left]
    | @tells e hsnapshot hfinished hlost _ htake hjob' =>
      simp only [htake, Registry.endings_append, hlost, hfinished]
      rcases hterminal : e.status.isTerminal with _ | _
      · simp [Registry.endings_of_not_terminal hterminal]
      · have hnone := h.chronicled.endings_eq_nil
          (htake ▸ (List.take_append_drop (s.place + 1) v.desk.channel.told).symm)
          (hjob'.trans hjob) hterminal
        simp [hnone]

theorem Sound.missed_take (h : v.Sound) (step : Step) :
    (v.take step).Missed ↔ v.Missed ∨ step = .read ∧ v.Overtaken := by
  cases step with
  | turn t => simp [missed_turn (fun s hs => (h.reading s hs).place_le) t]
  | subscribe =>
    rw [Viewing.take]
    split <;> simp [Missed]
  | look =>
    rcases hplace : v.place with _ | place
    · simp [Viewing.take, hplace]
    · have hnone := (h.place_le place hplace).2
      refine iff_of_false (h.not_missed_look hplace) ?_
      rintro (⟨s, hs, -⟩ | ⟨hstep, -⟩)
      · cases hnone.symm.trans hs
      · cases hstep
  | read => simp [h.missed_read]

theorem Sound.missed_run (h : v.Sound) (steps : List Step) :
    ¬ (v.run steps).Missed ↔ ¬ v.Missed ∧ v.Attentive steps := by
  induction steps generalizing v with
  | nil => exact (and_iff_left trivial).symm
  | cons step rest ih =>
    have hrun : v.run (step :: rest) = (v.take step).run rest := rfl
    rw [hrun, ih (h.take step), h.missed_take step, not_or, not_and, Attentive, and_assoc]

/-! ## What a stream tells -/

/-- What the stream has told ends with the end of the job, if it tells of that at all. -/
structure Truthful (v : Viewing) (s : EventStream) : Prop where
  about : ∀ e ∈ v.items, e.job = v.job
  closes : ∀ earlier e later, v.items = earlier ++ e :: later → e.status.isTerminal = true →
    later = [] ∧ (∀ e ∈ earlier, e.status.isTerminal = false) ∧ v.desk.ends v.job = [e] ∧
      (∀ j, v.desk.registry.get? v.job = some j → e = j.event) ∧
      (s.next v.desk.channel).1 = .ends

/-- The stream has read all that the channel holds for it. -/
def Drained (v : Viewing) (s : EventStream) : Prop :=
  (s.next v.desk.channel).1 = .waits ∨ (s.next v.desk.channel).1 = .ends

/-- Everybody knows how the job ended. -/
def EndTold (v : Viewing) : Prop :=
  ∃ e ∈ v.desk.channel.told, e.job = v.job ∧ e.status.isTerminal = true

instance (s : EventStream) : Decidable (v.Drained s) := inferInstanceAs (Decidable (_ ∨ _))

instance : Decidable v.EndTold := inferInstanceAs (Decidable (∃ e ∈ _, _))

theorem Sound.truthful (h : v.Sound) (hs : v.stream = some s) : v.Truthful s := by
  have hreading := h.reading s hs
  obtain ⟨earlier, e, hitems, hearlier, hterminal, hends⟩ := hreading.last
  refine ⟨fun e he => hreading.about e (List.mem_append_left _ he),
    fun first e' later heq hterminal' => ?_⟩
  have hsnapshot : s.snapshot = none := by
    by_contra hne
    rw [hreading.first hne] at heq
    exact List.append_ne_nil_of_right_ne_nil first (List.cons_ne_nil e' later) heq.symm
  rw [hsnapshot, Option.toList_none, List.append_nil, heq] at hitems
  -- An item with others behind it ends nothing.
  rcases List.eq_nil_or_concat later with rfl | ⟨rest, x, rfl⟩
  · obtain ⟨rfl, hlast⟩ := List.append_inj' hitems rfl
    obtain rfl : e' = e := List.singleton_inj.1 hlast
    have hfinished : s.finished = true := hterminal.symm.trans hterminal'
    refine ⟨rfl, hearlier, hends hfinished, fun j hget => ?_, ?_⟩
    · exact h.chronicled.eq_event h.kept (hends hfinished ▸ List.mem_singleton_self e') hget
    · simp [EventStream.next, hsnapshot, hfinished]
  · have hinit : first ++ e' :: rest = earlier := by
      rw [List.concat_eq_append, ← List.cons_append, ← List.append_assoc] at hitems
      exact (List.append_inj' hitems rfl).1
    have hopen := hearlier e' (hinit ▸ List.mem_append_right _ List.mem_cons_self)
    exact absurd (hopen.symm.trans hterminal') Bool.false_ne_true

/-- A stream that has read everything has told the end unless it has missed it. -/
theorem Sound.told_end_iff (h : v.Sound) (hs : v.stream = some s) (hend : v.EndTold)
    (hdrained : v.Drained s) : (∃ e ∈ v.items, e.status.isTerminal = true) ↔ ¬ v.Missed := by
  obtain ⟨event, hevent, hjob, hterminal⟩ := hend
  obtain ⟨earlier, e, hitems, hearlier, hlast, -⟩ := (h.reading s hs).last
  have hadvance := s.advance_next v.desk.channel
  rw [missed_iff hs]
  rcases hdrained with hmove | hmove <;> rw [hmove] at hadvance
  · generalize (s.next v.desk.channel).2 = s' at hadvance
    cases hadvance with
    | waits hsnapshot hfinished _ htake =>
      rw [hsnapshot, Option.toList_none, List.append_nil] at hitems
      have hpassed : endings v.job (v.desk.channel.told.take s.place) ≠ [] :=
        List.ne_nil_of_mem (Registry.mem_endings.2 ⟨htake.symm ▸ hevent, hjob, hterminal⟩)
      refine iff_of_false ?_ (not_not_intro ⟨hfinished, hpassed⟩)
      rintro ⟨x, hx, hx'⟩
      rcases List.mem_append.1 (hitems ▸ hx) with hx | hx
      · exact Bool.false_ne_true ((hearlier x hx).symm.trans hx')
      · rw [List.mem_singleton.1 hx, hlast, hfinished] at hx'
        cases hx'
  · generalize (s.next v.desk.channel).2 = s' at hadvance
    cases hadvance with
    | ends hsnapshot hfinished =>
      rw [hsnapshot, Option.toList_none, List.append_nil] at hitems
      refine iff_of_true ⟨e, ?_, hlast.trans hfinished⟩ ?_
      · rw [hitems]
        exact List.mem_append_right _ (List.mem_singleton_self e)
      · rw [hfinished]
        exact fun hmissed => Bool.false_ne_true hmissed.1.symm

theorem not_missed_opened (retention : Nat) (job : Int) : ¬ (opened retention job).Missed :=
  fun ⟨_, hs, _⟩ => nomatch hs

/-- However the steps of the stream and the turns at the desk follow each other: nothing comes
behind the end of the job, and a stream that has read everything has told the end unless the channel
had dropped it before. -/
theorem stream_closes (retention : Nat) (job : Int) (steps : List Step) (s : EventStream)
    (hs : ((opened retention job).run steps).stream = some s) :
    let v := (opened retention job).run steps
    v.Truthful s ∧
      (v.EndTold → v.Drained s →
        ((∃ e ∈ v.items, e.status.isTerminal = true) ↔
          (opened retention job).Attentive steps)) := by
  have hsound := (sound_opened retention job).run steps
  refine ⟨hsound.truthful hs, fun hend hdrained => ?_⟩
  rw [hsound.told_end_iff hs hend hdrained, (sound_opened retention job).missed_run steps,
    and_iff_right (not_missed_opened retention job)]

/-- The turns that take a job in, and a client who then opens the stream of the job. -/
def arrival : List Step :=
  [.turn (.prune 0), .turn .draw, .turn (.enter 0 0 "out.mp4"), .subscribe, .look, .read]

/-- A turn that changes a job, and the one that tells of the change. -/
def change (job : Int) (status : JobStatus) : List Step :=
  [.turn (.setStatus 1 job status none), .turn (.tell 0)]

theorem stream_closes_arrival :
    let steps := arrival ++ change 1 .running ++ change 1 .completed ++ [.read, .read]
    let v := (opened 60 1).run steps
    v.stream = some ⟨1, 2, none, true⟩ ∧ v.EndTold ∧ v.Drained ⟨1, 2, none, true⟩ ∧
      ∃ e ∈ v.items, e.status.isTerminal = true := by
  intro steps v
  have hs : v.stream = some ⟨1, 2, none, true⟩ := by decide
  have hend : v.EndTold := by decide
  have hdrained : v.Drained ⟨1, 2, none, true⟩ := by decide
  have hattentive : (opened 60 1).Attentive steps := by decide
  exact ⟨hs, hend, hdrained, ((stream_closes 60 1 steps _ hs).2 hend hdrained).2 hattentive⟩

/-- A job ends, and before its stream reads on so much is told of another job that the channel drops
the end. -/
def overrun : List Step :=
  arrival ++ [.turn .draw, .turn (.enter 0 0 "other.mp4")] ++ change 1 .completed ++
    (List.replicate Channel.capacity (change 2 .running)).flatten ++
    List.replicate (Channel.capacity + 1) .read

/-- Then the stream waits for ever: it has read everything and has not told the end. -/
theorem not_told_overrun :
    ¬ ∀ (retention : Nat) (job : Int) (steps : List Step) (s : EventStream),
      let v := (opened retention job).run steps
      v.stream = some s → v.EndTold → v.Drained s →
        (∃ e ∈ v.items, e.status.isTerminal = true) ∧ (s.next v.desk.channel).1 = .ends := by
  intro h
  have hrun : let v := (opened 60 1).run overrun
      v.stream = some ⟨1, 257, none, false⟩ ∧ v.EndTold ∧ v.Drained ⟨1, 257, none, false⟩ ∧
        ¬ ∃ e ∈ v.items, e.status.isTerminal = true := by
    decide +kernel
  obtain ⟨hs, hend, hdrained, hnone⟩ := hrun
  exact hnone (h 60 1 overrun _ hs hend hdrained).1

end Viewing

end Montage
