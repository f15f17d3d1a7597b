import Mathlib.Data.List.Forall2
import Mathlib.Data.Set.Disjoint
import Mathlib.Data.Set.Insert
import Mathlib.Data.Set.Lattice
import Mathlib.Order.CompletePartialOrder
import Montage.Proofs.Render.Making
import Montage.Timeline.Assets

/-!
# Contracts of tasks

A contract gives a task some places of its own and says what holds there when the task ends well.  A
task honours it (`Task.Honours`) if it touches no other places, starts the tool only on commands
whose files the render has made there, and keeps what was promised, whatever is answered.  Tasks
beside each other have places apart, so none of them disturbs another one.  Where a task is dropped,
nothing but a retreat follows (`Task.Retreats`).
-/

namespace Montage

/-- The commands that may be started for a unit, each with paths of files that have to be there. -/
abbrev Commands := String → List String → List String → Prop

/-- Places, and what holds there for the path that is handed on in the end. -/
structure Contract where
  region : Set Place
  post : String → Set Place → Prop
  /-- The promise is about the places only. -/
  local_post : ∀ {path : String} {m m' : Set Place}, (∀ q ∈ region, q ∈ m ↔ q ∈ m') →
    post path m → post path m'

namespace Action

variable {starts : Commands} {a : Action} {R R' m m' : Set Place}

/-- The action may make a file at the place, or take one from there. -/
def touches (a : Action) (q : Place) : Prop := (∃ reply, a.makes reply q) ∨ a.clears q

/-- The action touches files of the render at these places only. -/
def Confined (R : Set Place) (a : Action) : Prop := ∀ q, a.touches q → q ∈ R

/-- If the action starts a command, it may be started and its files are at these places. -/
def Backed (starts : Commands) (m : Set Place) : Action → Prop
  | .start unit args => ∃ reads, starts unit args reads ∧ ∀ path ∈ reads, .ofPath path ∈ m
  | _ => True

theorem Backed.mono (h : a.Backed starts m) (hsub : m ⊆ m') : a.Backed starts m' := by
  cases a with
  | start unit args =>
    obtain ⟨reads, hstarts, hreads⟩ := h
    exact ⟨reads, hstarts, fun path hpath => hsub (hreads path hpath)⟩
  | _ => trivial

theorem backed_of_ne_start (h : ∀ unit args, a ≠ .start unit args) : a.Backed starts m := by
  cases a with
  | start unit args => exact absurd rfl (h unit args)
  | _ => trivial

theorem leaves_congr {q : Place} (h : q ∈ m ↔ q ∈ m') (reply : a.Reply) :
    q ∈ a.leaves reply m ↔ q ∈ a.leaves reply m' := by
  rw [mem_leaves, mem_leaves, h]

theorem mem_leaves_iff_of_not_touches {q : Place} (h : ¬ a.touches q) (reply : a.Reply) :
    q ∈ a.leaves reply m ↔ q ∈ m := by
  have hmakes : ¬ a.makes reply q := fun hmakes => h (Or.inl ⟨reply, hmakes⟩)
  have hclears : ¬ a.clears q := fun hclears => h (Or.inr hclears)
  simp [mem_leaves, hmakes, hclears]

theorem Confined.leaves_iff (h : a.Confined R) {q : Place} (hq : q ∉ R) (reply : a.Reply) :
    q ∈ a.leaves reply m ↔ q ∈ m :=
  mem_leaves_iff_of_not_touches (fun htouches => hq (h q htouches)) reply

theorem IsQuiet.confined (h : a.IsQuiet) (R : Set Place) : a.Confined R := by
  rintro q (⟨reply, hmakes⟩ | hclears)
  · exact absurd hmakes (h.makes reply q)
  · exact absurd hclears (h.clears q)

/-- The action makes a file at the path, unless it fails, and touches no other file. -/
structure OnlyMakes (a : Action) (path : String) : Prop where
  makes : ∀ reply q, a.makes reply q → q = .ofPath path
  clears : ∀ q, ¬ a.clears q

theorem onlyMakes_write (path contents : String) : (write path contents).OnlyMakes path where
  makes reply q h := by
    cases reply with
    | error => exact absurd h id
    | ok => exact h
  clears _ := id

theorem onlyMakes_produce (path : String) : (produce path).OnlyMakes path where
  makes reply q h := by
    cases reply with
    | error => exact absurd h id
    | ok => exact h
  clears _ := id

theorem Confined.mono (h : a.Confined R) (hsub : R ⊆ R') : a.Confined R' :=
  fun q hq => hsub (h q hq)

theorem OnlyMakes.confined {path : String} (h : a.OnlyMakes path) (hpath : .ofPath path ∈ R) :
    a.Confined R := by
  rintro q (⟨reply, hmakes⟩ | hclears)
  · exact h.makes reply q hmakes ▸ hpath
  · exact absurd hclears (h.clears q)

theorem OnlyMakes.insert_subset {path : String} (h : a.OnlyMakes path) {reply : a.Reply}
    (hmade : a.makes reply (.ofPath path)) : insert (.ofPath path) m ⊆ a.leaves reply m := by
  rintro q (rfl | hq)
  · exact Or.inl hmade
  · exact Or.inr ⟨hq, h.clears q⟩

end Action

namespace Task

/-- The task ends in error, whatever is answered.  On its way it starts no command and touches files
of the render at these places only. -/
def Retreats (R : Set Place) : Task → Prop
  | .done outcome => ∃ e, outcome = .error e
  | .act a next =>
    a.Confined R ∧ (∀ unit args, a ≠ .start unit args) ∧ ∀ reply, Retreats R (next reply)
  | .join _ _ | .watch _ _ => False

mutual
/-- The task honours the contract, where the render has files at the places `m`. -/
def Honours (starts : Commands) : Task → Contract → Set Place → Prop
  | .done (.ok path), c, m => c.post path m
  | .done (.error _), _, _ => True
  | .act a next, c, m =>
    a.Confined c.region ∧ a.Backed starts (m ∩ c.region) ∧
      ∀ reply, Honours starts (next reply) c (a.leaves reply m)
  | .join parts next, c, m =>
    ∃ shares : List Contract, shares.Pairwise (fun d d' => Disjoint d.region d'.region) ∧
      (∀ d ∈ shares, d.region ⊆ c.region) ∧ HonourAll starts parts shares m ∧
      ∀ paths m', List.Forall₂ (fun (d : Contract) path => d.post path m') shares paths →
        Honours starts (next paths) c m'
  | .watch body close, c, m =>
    ∃ d : Contract, d.region = c.region ∧ Honours starts body d m ∧
      (∀ path m', d.post path m' → Honours starts (close (.ok path)) c m') ∧
      ∀ e, Retreats c.region (close (.error e))
/-- Each task honours its own contract. -/
def HonourAll (starts : Commands) : List Task → List Contract → Set Place → Prop
  | [], [], _ => True
  | task :: rest, d :: others, m => Honours starts task d m ∧ HonourAll starts rest others m
  | _, _, _ => False
end

variable {starts : Commands} {m : Set Place} {shares : List Contract} {parts : List Task}

mutual
/-- Whether a contract is honoured depends on its places alone. -/
theorem Honours.congr : {task : Task} → {c : Contract} → {m m' : Set Place} →
    Honours starts task c m → (∀ q ∈ c.region, q ∈ m ↔ q ∈ m') → Honours starts task c m'
  | .done (.ok path), c, m, m', h, hsame => c.local_post hsame h
  | .done (.error _), _, _, _, _, _ => trivial
  | .act a next, c, m, m', ⟨hconfined, hbacked, hnext⟩, hsame => by
    have hinter : m ∩ c.region = m' ∩ c.region := by
      ext q
      exact and_congr_left fun hq => hsame q hq
    exact ⟨hconfined, hinter ▸ hbacked, fun reply =>
      (hnext reply).congr fun q hq => Action.leaves_congr (hsame q hq) reply⟩
  | .join parts next, c, m, m', ⟨shares, hapart, hsub, hparts, hnext⟩, hsame =>
    ⟨shares, hapart, hsub, hparts.congr fun d hd q hq => hsame q (hsub d hd hq), hnext⟩
  | .watch body close, c, m, m', ⟨d, hregion, hbody, hok, herror⟩, hsame =>
    ⟨d, hregion, hbody.congr fun q hq => hsame q (hregion ▸ hq), hok, herror⟩
theorem HonourAll.congr : {parts : List Task} → {shares : List Contract} →
    {m m' : Set Place} → HonourAll starts parts shares m →
    (∀ d ∈ shares, ∀ q ∈ d.region, q ∈ m ↔ q ∈ m') → HonourAll starts parts shares m'
  | [], [], _, _, _, _ => trivial
  | _ :: _, d :: _, _, _, ⟨hfirst, hrest⟩, hsame =>
    ⟨hfirst.congr (hsame d List.mem_cons_self),
      hrest.congr fun d' hd' => hsame d' (List.mem_cons_of_mem _ hd')⟩
end

end Task

/-! ## Scripts -/

namespace Script

variable {starts : Commands} {c : Contract} {m : Set Place} {α β : Type}

/-- Whatever honours the contract behind a script that has yielded a value like this makes the
script do so too. -/
def Yields (starts : Commands) (c : Contract) (s : Script α) (m : Set Place)
    (Q : α → Set Place → Prop) : Prop :=
  ∀ next : α → Task, (∀ x m', Q x m' → (next x).Honours starts c m') → (s next).Honours starts c m

variable {s : Script α} {Q Q' : α → Set Place → Prop}

theorem Yields.toTask {s : Script String} (h : Yields starts c s m c.post) :
    s.toTask.Honours starts c m := h _ fun _ _ hpost => hpost

theorem Yields.mono (h : Yields starts c s m Q) (hQ : ∀ x m', Q x m' → Q' x m') :
    Yields starts c s m Q' := fun next hnext => h next fun x m' hx => hnext x m' (hQ x m' hx)

theorem Yields.bind {f : α → Script β} {R : β → Set Place → Prop} (h : Yields starts c s m Q)
    (hf : ∀ x m', Q x m' → Yields starts c (f x) m' R) : Yields starts c (s >>= f) m R :=
  fun next hnext => h _ fun x m' hx => hf x m' hx next hnext

theorem yields_pure {x : α} (h : Q x m) : Yields starts c (pure x) m Q :=
  fun _ hnext => hnext x m h

theorem yields_fail (e : RenderError) : Yields starts c (fail e) m Q := fun _ _ => trivial

theorem yields_ask {a : Action} {Q : a.Reply → Set Place → Prop} (hconfined : a.Confined c.region)
    (hbacked : a.Backed starts (m ∩ c.region)) (h : ∀ reply, Q reply (a.leaves reply m)) :
    Yields starts c (ask a) m Q :=
  fun _ hnext => ⟨hconfined, hbacked, fun reply => hnext reply _ (h reply)⟩

theorem yields_check {r : Except RenderError α} (h : ∀ x, r = .ok x → Q x m) :
    Yields starts c (check r) m Q := by
  rcases r with e | x
  · exact yields_fail e
  · exact yields_pure (h x rfl)

theorem yields_checkFile {r : Except Trouble α} (h : ∀ x, r = .ok x → Q x m) :
    Yields starts c (checkFile r) m Q := by
  rcases r with t | x
  · exact yields_fail (.file t)
  · exact yields_pure (h x rfl)

theorem yields_join {parts : List Task} {shares : List Contract}
    {Q : List String → Set Place → Prop}
    (hapart : shares.Pairwise fun d d' => Disjoint d.region d'.region)
    (hsub : ∀ d ∈ shares, d.region ⊆ c.region) (hparts : Task.HonourAll starts parts shares m)
    (h : ∀ paths m', List.Forall₂ (fun (d : Contract) path => d.post path m') shares paths →
      Q paths m') :
    Yields starts c (join parts) m Q :=
  fun _ hnext => ⟨shares, hapart, hsub, hparts, fun paths m' hpost =>
    hnext paths m' (h paths m' hpost)⟩

/-- A quiet action changes nothing. -/
theorem yields_ask_quiet {a : Action} {Q : a.Reply → Set Place → Prop} (hquiet : a.IsQuiet)
    (hbacked : a.Backed starts (m ∩ c.region)) (h : ∀ reply, Q reply m) :
    Yields starts c (ask a) m Q :=
  yields_ask (hquiet.confined _) hbacked fun reply => by
    rw [hquiet.leaves_eq]
    exact h reply

/-- Where an action has made a file, that is there beside those before. -/
theorem yields_ask_makes {a : Action} {path : String} (hmakes : a.OnlyMakes path)
    (hpath : .ofPath path ∈ c.region) (hbacked : a.Backed starts (m ∩ c.region)) :
    Yields starts c (ask a) m fun reply m' =>
      a.makes reply (.ofPath path) → insert (.ofPath path) m ⊆ m' :=
  yields_ask (hmakes.confined hpath) hbacked fun _ hmade => hmakes.insert_subset hmade

/-- Wherever the files of the render satisfy a condition they still do so behind the script. -/
def Keeps (starts : Commands) (c : Contract) (I : Set Place → Prop) (s : Script α) : Prop :=
  ∀ m, I m → Yields starts c s m fun _ m' => I m'

variable {I : Set Place → Prop}

theorem keeps_pure (x : α) : Keeps starts c I (pure x) := fun _ hI => yields_pure hI

theorem keeps_fail (e : RenderError) : Keeps starts c I (fail e : Script α) :=
  fun _ _ => yields_fail e

theorem Keeps.bind {f : α → Script β} (h : Keeps starts c I s) (hf : ∀ x, Keeps starts c I (f x)) :
    Keeps starts c I (s >>= f) := fun m hI => (h m hI).bind fun x m' hI' => hf x m' hI'

theorem keeps_check (r : Except RenderError α) : Keeps starts c I (check r) :=
  fun _ hI => yields_check fun _ _ => hI

theorem keeps_checkFile (r : Except Trouble α) : Keeps starts c I (checkFile r) :=
  fun _ hI => yields_checkFile fun _ _ => hI

theorem keeps_ask_quiet {a : Action} (hquiet : a.IsQuiet) (hbacked : ∀ m, a.Backed starts m) :
    Keeps starts c I (ask a) := fun _ hI => yields_ask_quiet hquiet (hbacked _) fun _ => hI

theorem Keeps.mapOption {f : α → Script β} (h : ∀ x, Keeps starts c I (f x)) (o : Option α) :
    Keeps starts c I (mapOption f o) := by
  rcases o with _ | x
  · exact keeps_pure none
  · exact (h x).bind fun y => keeps_pure (some y)

theorem Keeps.mapList {f : α → Script β} (h : ∀ x, Keeps starts c I (f x)) (xs : List α) :
    Keeps starts c I (mapList f xs) := by
  induction xs with
  | nil => exact keeps_pure []
  | cons x rest ih => exact (h x).bind fun y => ih.bind fun ys => keeps_pure (y :: ys)

/-- A list is replaced item by item. -/
theorem yields_mapList {f : α → Script β} {R : α → β → Prop} {xs : List α} (hI : I m)
    (hf : ∀ x ∈ xs, ∀ m', I m' → Yields starts c (f x) m' fun y m'' => R x y ∧ I m'') :
    Yields starts c (mapList f xs) m fun ys m' => List.Forall₂ R xs ys ∧ I m' := by
  induction xs generalizing m with
  | nil => exact yields_pure ⟨.nil, hI⟩
  | cons x rest ih =>
    refine (hf x List.mem_cons_self m hI).bind fun y m' hy => ?_
    refine (ih hy.2 fun x' hx' => hf x' (List.mem_cons_of_mem _ hx')).bind fun ys m'' hys => ?_
    exact yields_pure ⟨.cons hy.1 hys.1, hys.2⟩

end Script

end Montage
