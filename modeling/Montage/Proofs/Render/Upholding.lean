import Montage.Proofs.Render.Contracts

/-!
# Contracts along runs

Operations that a dropped task has begun still change files when other tasks run.  A task upholds a
contract while such operations touch some places (`Task.Upholds`): where it is to leave files they
touch none of its places, and where they touch its places it only retreats, or the task that they
stem from has not closed yet.  A step keeps this (`Task.Upholds.step`), and so does an operation
that comes to its end, so a contract that is honoured at the start is upheld along every run
(`Task.Honours.runs`), and whatever is started has its files (`Task.Honours.backed`).
-/

namespace Montage

/-- The places that one of the actions touches. -/
def Action.touched (late : List Action) : Set Place := {q | ∃ a ∈ late, a.touches q}

namespace Task

variable {starts : Commands} {F F' m m' : Set Place} {c : Contract} {shares : List Contract}
  {task : Task} {parts : List Task} {a : Action} {x y : Task × World} {w : World}
  {deeds : List Deed}

/-! ## Operations that nobody waits for -/

theorem mem_pendingAll : a ∈ pendingAll parts ↔ ∃ task ∈ parts, a ∈ task.pending := by
  induction parts with
  | nil => simp [pendingAll]
  | cons task rest ih => simp [pendingAll, ih]

mutual
theorem isFileOperation_of_mem_pending : {task : Task} → a ∈ task.pending →
    a.isFileOperation = true
  | .act b _, h => by
    rw [pending] at h
    split at h
    · rwa [List.mem_singleton.1 h]
    · cases h
  | .join _ _, h => by
    rw [pending] at h
    exact isFileOperation_of_mem_pendingAll h
  | .watch _ _, h => by
    rw [pending] at h
    exact isFileOperation_of_mem_pending h
  | .done _, h => by simp [pending] at h
theorem isFileOperation_of_mem_pendingAll : {parts : List Task} → a ∈ pendingAll parts →
    a.isFileOperation = true
  | task :: rest, h => by
    rw [pendingAll, List.mem_append] at h
    exact h.elim isFileOperation_of_mem_pending isFileOperation_of_mem_pendingAll
  | [], h => by simp [pendingAll] at h
end

/-- Nobody waits any more for some of the operations that the task has waited for. -/
theorem Step.late (h : Step x deeds y) :
    ∃ lost, y.2.late = lost ++ x.2.late ∧ ∀ a ∈ lost, a ∈ x.1.pending := by
  induction h with
  | act => exact ⟨[], late_perform .., nofun⟩
  | part _ ih =>
    obtain ⟨lost, hlate, hlost⟩ := ih
    refine ⟨lost, hlate, fun a ha => ?_⟩
    rw [pending, mem_pendingAll]
    exact ⟨_, List.mem_append_right _ List.mem_cons_self, hlost a ha⟩
  | body _ ih => simpa [pending] using ih
  | finished | closed => exact ⟨[], rfl, nofun⟩
  | failed _ hlost => exact ⟨_, rfl, fun a ha => by
      rw [pending]
      exact hlost.subset ha⟩
  | dropped _ hlost => exact ⟨_, rfl, fun a ha => by
      rw [pending]
      exact hlost.subset ha⟩

/-- What a task leaves behind when it drops others touches the places that it keeps to. -/
theorem Step.touched_late {R : Set Place} (h : Step x deeds y)
    (hconfined : ∀ a ∈ x.1.pending, a.Confined R) {q : Place} (hq : q ∈ Action.touched y.2.late) :
    q ∈ Action.touched x.2.late ∨ q ∈ R := by
  obtain ⟨lost, hlate, hlost⟩ := h.late
  obtain ⟨a, ha, htouches⟩ := hq
  rw [hlate, List.mem_append] at ha
  rcases ha with ha | ha
  · exact Or.inr (hconfined a (hlost a ha) q htouches)
  · exact Or.inl ⟨a, ha, htouches⟩

theorem Runs.isFileOperation_of_mem_late (h : Runs x deeds y) (hx : x.2.late = []) :
    ∀ a ∈ y.2.late, a.isFileOperation = true := by
  induction h with
  | refl => simp [hx]
  | step _ hstep ih =>
    obtain ⟨lost, hlate, hlost⟩ := hstep.late
    rw [hlate, List.forall_mem_append]
    exact ⟨fun a ha => isFileOperation_of_mem_pending (hlost a ha), ih⟩
  | drift _ hdrift ih =>
    cases hdrift with
    | cancel => exact ih
    | land tools hlate =>
      rw [hlate, List.forall_mem_append, List.forall_mem_cons] at ih
      exact List.forall_mem_append.2 ⟨ih.1, ih.2.2⟩

/-! ## Upholding -/

mutual
/-- The task honours the contract while operations that nobody waits for touch the places `F`. -/
def Upholds (starts : Commands) (F : Set Place) : Task → Contract → Set Place → Prop
  | .done (.ok path), c, m => Disjoint F c.region ∧ c.post path m
  | .done (.error _), _, _ => True
  | .act a next, c, m =>
    (Disjoint F c.region ∧ Honours starts (.act a next) c m) ∨ Retreats c.region (.act a next)
  | .join parts next, c, m =>
    ∃ shares : List Contract, shares.Pairwise (fun d d' => Disjoint d.region d'.region) ∧
      (∀ d ∈ shares, d.region ⊆ c.region) ∧
      (∀ q ∈ c.region, q ∈ F → ∃ d ∈ shares, q ∈ d.region) ∧ UpholdAll starts F parts shares m ∧
      ∀ paths m', List.Forall₂ (fun (d : Contract) path => d.post path m') shares paths →
        Honours starts (next paths) c m'
  | .watch body close, c, m =>
    ∃ d : Contract, d.region = c.region ∧ Upholds starts F body d m ∧
      (∀ path m', d.post path m' → Honours starts (close (.ok path)) c m') ∧
      ∀ e, Retreats c.region (close (.error e))
/-- Each task upholds its own contract. -/
def UpholdAll (starts : Commands) (F : Set Place) : List Task → List Contract → Set Place → Prop
  | [], [], _ => True
  | task :: rest, d :: others, m => Upholds starts F task d m ∧ UpholdAll starts F rest others m
  | _, _, _ => False
end

theorem upholdAll_iff_forall₂ :
    UpholdAll starts F parts shares m ↔
      List.Forall₂ (fun task d => Upholds starts F task d m) parts shares := by
  induction parts generalizing shares with
  | nil => cases shares <;> simp [UpholdAll]
  | cons task rest ih => cases shares <;> simp [UpholdAll, ih]

theorem upholdAll_append_iff {before after : List Task} :
    UpholdAll starts F (before ++ task :: after) shares m ↔
      ∃ first d rest, shares = first ++ d :: rest ∧ UpholdAll starts F before first m ∧
        Upholds starts F task d m ∧ UpholdAll starts F after rest m := by
  simp only [upholdAll_iff_forall₂]
  exact forall₂_append_cons_iff

theorem Retreats.upholds (h : Retreats c.region task) : Upholds starts F task c m := by
  cases task with
  | done outcome =>
    obtain ⟨e, rfl⟩ := h
    trivial
  | act => exact Or.inr h
  | join | watch => exact absurd h id

mutual
/-- Where nothing else touches its places a task upholds what it honours. -/
theorem Honours.upholds : {task : Task} → {c : Contract} → Honours starts task c m →
    Disjoint F c.region → Upholds starts F task c m
  | .done (.ok _), _, h, hF => ⟨hF, h⟩
  | .done (.error _), _, _, _ => trivial
  | .act _ _, _, h, hF => Or.inl ⟨hF, h⟩
  | .join _ _, _, ⟨shares, hapart, hsub, hparts, hnext⟩, hF =>
    ⟨shares, hapart, hsub, fun _ hq hlate => absurd hq (Set.disjoint_left.1 hF hlate),
      hparts.upholdAll fun d hd => hF.mono_right (hsub d hd), hnext⟩
  | .watch _ _, _, ⟨d, hregion, hbody, hclose⟩, hF =>
    ⟨d, hregion, hbody.upholds (hregion ▸ hF), hclose⟩
theorem HonourAll.upholdAll : {parts : List Task} → {shares : List Contract} →
    HonourAll starts parts shares m → (∀ d ∈ shares, Disjoint F d.region) →
    UpholdAll starts F parts shares m
  | [], [], _, _ => trivial
  | _ :: _, _ :: _, ⟨hfirst, hrest⟩, hF =>
    ⟨hfirst.upholds (hF _ List.mem_cons_self),
      hrest.upholdAll fun d hd => hF d (List.mem_cons_of_mem _ hd)⟩
end

theorem disjoint_of_forall_mem {R : Set Place} (hF : Disjoint F R)
    (hsub : ∀ q ∈ R, q ∈ F' → q ∈ F) : Disjoint F' R :=
  Set.disjoint_left.2 fun q hq hR => Set.disjoint_left.1 hF (hsub q hR hq) hR

mutual
/-- A contract is still upheld when fewer of its places are touched, and whatever files there are at
those that are. -/
theorem Upholds.congr : {task : Task} → {c : Contract} → Upholds starts F task c m →
    (∀ q ∈ c.region, q ∈ F' → q ∈ F) → (∀ q ∈ c.region, q ∉ F → (q ∈ m ↔ q ∈ m')) →
    Upholds starts F' task c m'
  | .done (.ok _), c, ⟨hF, hpost⟩, hsub, hsame =>
    ⟨disjoint_of_forall_mem hF hsub,
      c.local_post (fun q hq => hsame q hq (Set.disjoint_right.1 hF hq)) hpost⟩
  | .done (.error _), _, _, _, _ => trivial
  | .act _ _, _, h, hsub, hsame => h.imp_left fun ⟨hF, hact⟩ =>
    ⟨disjoint_of_forall_mem hF hsub,
      hact.congr fun q hq => hsame q hq (Set.disjoint_right.1 hF hq)⟩
  | .join _ _, _, ⟨shares, hapart, hwithin, htrail, hparts, hnext⟩, hsub, hsame =>
    ⟨shares, hapart, hwithin, fun q hq hlate => htrail q hq (hsub q hq hlate),
      hparts.congr fun d hd q hq => ⟨hsub q (hwithin d hd hq), hsame q (hwithin d hd hq)⟩, hnext⟩
  | .watch _ _, _, ⟨d, hregion, hbody, hclose⟩, hsub, hsame =>
    ⟨d, hregion, hbody.congr (hregion ▸ hsub) (hregion ▸ hsame), hclose⟩
theorem UpholdAll.congr : {parts : List Task} → {shares : List Contract} →
    UpholdAll starts F parts shares m →
    (∀ d ∈ shares, ∀ q ∈ d.region, (q ∈ F' → q ∈ F) ∧ (q ∉ F → (q ∈ m ↔ q ∈ m'))) →
    UpholdAll starts F' parts shares m'
  | [], [], _, _ => trivial
  | _ :: _, d :: _, ⟨hfirst, hrest⟩, hsame =>
    ⟨hfirst.congr (fun q hq => (hsame d List.mem_cons_self q hq).1)
        fun q hq => (hsame d List.mem_cons_self q hq).2,
      hrest.congr fun d' hd' => hsame d' (List.mem_cons_of_mem _ hd')⟩
end

mutual
/-- What a task waits for keeps to the places of its contract. -/
theorem Upholds.confined : {task : Task} → {c : Contract} → Upholds starts F task c m →
    ∀ a ∈ task.pending, a.Confined c.region
  | .done _, _, _, _, ha => by simp [pending] at ha
  | .act b _, c, h, a, ha => by
    have hb : b.Confined c.region := by
      rcases h with ⟨-, hconfined, -⟩ | ⟨hconfined, -⟩
      · exact hconfined
      · exact hconfined
    rw [pending] at ha
    split at ha
    · rwa [List.mem_singleton.1 ha]
    · cases ha
  | .join _ _, _, ⟨_, _, hwithin, _, hparts, _⟩, a, ha => by
    rw [pending] at ha
    obtain ⟨d, hd, hconfined⟩ := hparts.confined a ha
    exact hconfined.mono (hwithin d hd)
  | .watch _ _, _, ⟨_, hregion, hbody, _⟩, a, ha => by
    rw [pending] at ha
    exact hregion ▸ hbody.confined a ha
theorem UpholdAll.confined : {parts : List Task} → {shares : List Contract} →
    UpholdAll starts F parts shares m →
    ∀ a ∈ pendingAll parts, ∃ d ∈ shares, a.Confined d.region
  | [], [], _, _, ha => by simp [pendingAll] at ha
  | _ :: _, d :: _, ⟨hfirst, hrest⟩, a, ha => by
    rw [pendingAll, List.mem_append] at ha
    rcases ha with ha | ha
    · exact ⟨d, List.mem_cons_self, hfirst.confined a ha⟩
    · obtain ⟨d', hd', hconfined⟩ := hrest.confined a ha
      exact ⟨d', List.mem_cons_of_mem _ hd', hconfined⟩
end

/-- Tasks that have all ended well have kept their promises, and nothing else touches their
places. -/
theorem of_upholdAll_done {paths : List String}
    (h : UpholdAll starts F (paths.map fun path => .done (.ok path)) shares m) :
    (∀ d ∈ shares, Disjoint F d.region) ∧
      List.Forall₂ (fun (d : Contract) path => d.post path m) shares paths := by
  rw [upholdAll_iff_forall₂, List.forall₂_map_left_iff] at h
  induction h with
  | nil => exact ⟨nofun, .nil⟩
  | cons hdone _ ih =>
    exact ⟨List.forall_mem_cons.2 ⟨hdone.1, ih.1⟩, .cons hdone.2 ih.2⟩

/-! ## Steps -/

/-- One of the tasks goes on and changes nothing outside its places.  The places of the others lie
apart, so they uphold their contracts as before. -/
theorem UpholdAll.replace {before after : List Task} {task' : Task}
    (hapart : shares.Pairwise fun d d' => Disjoint d.region d'.region)
    (h : UpholdAll starts F (before ++ task :: after) shares m)
    (hstep : ∀ d ∈ shares, Upholds starts F task d m → Upholds starts F' task' d m' ∧
      ∀ q ∉ d.region, (q ∈ F' → q ∈ F) ∧ (q ∈ m ↔ q ∈ m')) :
    UpholdAll starts F' (before ++ task' :: after) shares m' := by
  obtain ⟨first, d, rest, rfl, hfirst, htask, hrest⟩ := upholdAll_append_iff.1 h
  obtain ⟨htask', hsame⟩ := hstep d (List.mem_append_right _ List.mem_cons_self) htask
  obtain ⟨-, hlater, hcross⟩ := List.pairwise_append.1 hapart
  have hother (d' : Contract) (hdisjoint : Disjoint d'.region d.region) :
      ∀ q ∈ d'.region, (q ∈ F' → q ∈ F) ∧ (q ∉ F → (q ∈ m ↔ q ∈ m')) := by
    intro q hq
    obtain ⟨htouched, hfiles⟩ := hsame q (Set.disjoint_left.1 hdisjoint hq)
    exact ⟨htouched, fun _ => hfiles⟩
  exact upholdAll_append_iff.2 ⟨first, d, rest, rfl,
    hfirst.congr fun d' hd' => hother d' (hcross d' hd' d List.mem_cons_self), htask',
    hrest.congr fun d' hd' => hother d' ((List.pairwise_cons.1 hlater).1 d' hd').symm⟩

/-- A step upholds the contract and touches no other places; what it starts is backed. -/
theorem Upholds.step (hstep : Step x deeds y) {c : Contract} {m : Set Place}
    (h : Upholds starts (Action.touched x.2.late) x.1 c m) :
    Upholds starts (Action.touched y.2.late) y.1 c (deeds.foldl Deed.leaves m) ∧
      (∀ q ∉ c.region, q ∈ deeds.foldl Deed.leaves m ↔ q ∈ m) ∧
      ∀ d ∈ deeds, d.action.Backed starts (m ∩ c.region) := by
  induction hstep generalizing c m with
  | @act a next w tools hready =>
    dsimp only at h ⊢
    rw [late_perform]
    rcases h with ⟨hF, hconfined, hbacked, hnext⟩ | ⟨hconfined, hstarts, hnext⟩
    · refine ⟨(hnext _).upholds hF, fun q hq => hconfined.leaves_iff hq _, fun d hd => ?_⟩
      rw [List.mem_singleton.1 hd]
      exact hbacked
    · refine ⟨(hnext _).upholds, fun q hq => hconfined.leaves_iff hq _, fun d hd => ?_⟩
      rw [List.mem_singleton.1 hd]
      exact Action.backed_of_ne_start hstarts
  | @part before after task task' next w w' deeds hstep ih =>
    obtain ⟨shares, hapart, hwithin, htrail, hparts, hnext⟩ := h
    obtain ⟨first, d, rest, hshares, -, htask, -⟩ := upholdAll_append_iff.1 hparts
    have hmem : d ∈ shares := by
      rw [hshares]
      exact List.mem_append_right _ List.mem_cons_self
    obtain ⟨-, hframe, hbacked⟩ := ih htask
    have hparts' : UpholdAll starts (Action.touched w'.late) (before ++ task' :: after) shares
        (deeds.foldl Deed.leaves m) := by
      refine hparts.replace hapart fun d' _ htask' => ?_
      obtain ⟨hgoesOn, hframe', -⟩ := ih htask'
      exact ⟨hgoesOn, fun q hq => ⟨fun htouched =>
        (hstep.touched_late htask'.confined htouched).resolve_right hq, (hframe' q hq).symm⟩⟩
    refine ⟨⟨shares, hapart, hwithin, fun q hq htouched => ?_, hparts', hnext⟩,
      fun q hq => hframe q fun hq' => hq (hwithin d hmem hq'), fun x hx => ?_⟩
    · rcases hstep.touched_late htask.confined htouched with hbefore | hown
      · exact htrail q hq hbefore
      · exact ⟨d, hmem, hown⟩
    · exact (hbacked x hx).mono (Set.inter_subset_inter_right m (hwithin d hmem))
  | finished =>
    obtain ⟨shares, -, -, htrail, hparts, hnext⟩ := h
    obtain ⟨hfree, hpost⟩ := of_upholdAll_done hparts
    have hF := Set.disjoint_left.2 fun q hlate hq => by
      obtain ⟨d, hd, hqd⟩ := htrail q hq hlate
      exact Set.disjoint_left.1 (hfree d hd) hlate hqd
    exact ⟨(hnext _ _ hpost).upholds hF, fun _ _ => Iff.rfl, nofun⟩
  | failed => exact ⟨trivial, fun _ _ => Iff.rfl, nofun⟩
  | body hstep ih =>
    obtain ⟨d, hregion, hbody, hclose⟩ := h
    obtain ⟨hbody', hframe, hbacked⟩ := ih hbody
    rw [hregion] at hframe hbacked
    exact ⟨⟨d, hregion, hbody', hclose⟩, hframe, hbacked⟩
  | @closed outcome close w =>
    obtain ⟨d, hregion, hbody, hok, herror⟩ := h
    rcases outcome with e | path
    · exact ⟨(herror e).upholds, fun _ _ => Iff.rfl, nofun⟩
    · exact ⟨(hok path _ hbody.2).upholds (hregion ▸ hbody.1), fun _ _ => Iff.rfl, nofun⟩
  | dropped =>
    obtain ⟨d, -, -, -, herror⟩ := h
    exact ⟨(herror _).upholds, fun _ _ => Iff.rfl, nofun⟩

/-- An operation that nobody waits for comes to its end at places where that is upheld. -/
theorem Upholds.drift {w w' : World} (hdrift : Drift w deeds w')
    (h : Upholds starts (Action.touched w.late) task c m) :
    Upholds starts (Action.touched w'.late) task c (deeds.foldl Deed.leaves m) := by
  cases hdrift with
  | cancel => exact h
  | @land tools before after a hlate =>
    refine h.congr (fun q _ hq => ?_) fun q _ hq => ?_
    · obtain ⟨b, hb, htouches⟩ := hq
      refine ⟨b, ?_, htouches⟩
      rw [hlate]
      exact (List.Sublist.append_left (List.sublist_cons_self a after) before).subset hb
    · refine (Action.mem_leaves_iff_of_not_touches (fun htouches => hq ⟨a, ?_, htouches⟩) _).symm
      rw [hlate]
      exact List.mem_append_right _ List.mem_cons_self

/-! ## Runs -/

/-- A contract that is honoured at the start is upheld along the run. -/
theorem Honours.runs (h : Honours starts x.1 c ∅) (hx : x.2.late = []) (hruns : Runs x deeds y) :
    Upholds starts (Action.touched y.2.late) y.1 c (made deeds) := by
  induction hruns with
  | refl =>
    refine h.upholds (Set.disjoint_left.2 ?_)
    rintro q ⟨a, ha, -⟩
    simp [hx] at ha
  | step _ hstep ih =>
    rw [made_append]
    exact (ih.step hstep).1
  | drift _ hdrift ih =>
    rw [made_append]
    exact ih.drift hdrift

/-- Whatever is started has its files. -/
theorem Honours.backed (h : Honours starts x.1 c ∅) (hx : x.2.late = []) (hruns : Runs x deeds y)
    {earlier later : List Deed} {d : Deed} (hdeeds : deeds = earlier ++ d :: later) :
    d.action.Backed starts (made earlier) := by
  obtain ⟨c₁, hearlier, -, ⟨c₂, hstep⟩ | hlate⟩ := hruns.split hdeeds
  · have hbacked := ((h.runs hx hearlier).step hstep).2.2 d (List.mem_singleton_self d)
    exact hbacked.mono Set.inter_subset_left
  · have hfile := hearlier.isFileOperation_of_mem_late hx d.action hlate
    refine Action.backed_of_ne_start fun unit args hstart => ?_
    rw [hstart] at hfile
    cases hfile

end Task

end Montage
