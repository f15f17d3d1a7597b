import Mathlib.Algebra.BigOperators.Field
import Mathlib.Algebra.Order.BigOperators.Group.Finset
import Mathlib.Algebra.Order.Field.Rat
import Mathlib.Data.List.Induction
import Montage.Render.Board

/-!
# Progress that is published

A board is told of units and of their fractions, in any order.  What it has recorded of a unit is
the greatest share that was reported (`top`), and what it has published is the greatest mean that
there was right after a report (`peak`).  So the published value never goes back; and where all
units are known before the first report it is the mean itself, whatever the order of the reports
(`Board.run_tells`).

Fractions are exact numbers here; all that is no finite number is one value.
-/

namespace Montage

/-! ## Exact numbers -/

/-- An exact number, or what is no finite number. -/
inductive Exact where
  | of (q : ℚ)
  | notFinite
  deriving DecidableEq

namespace Exact

/-- An operation on numbers. -/
def lift (f : ℚ → ℚ → ℚ) : Exact → Exact → Exact
  | of a, of b => of (f a b)
  | _, _ => notFinite

def quotient : Exact → Exact → Exact
  | of a, of b => if b = 0 then notFinite else of (a / b)
  | _, _ => notFinite

/-- One of two; the other one if one is no finite number. -/
def choose (f : ℚ → ℚ → ℚ) : Exact → Exact → Exact
  | of a, of b => of (f a b)
  | of a, notFinite => of a
  | notFinite, b => b

def less : Exact → Exact → Bool
  | of a, of b => a < b
  | _, _ => false

instance : Scalar Exact where
  add := lift (· + ·)
  sub := lift (· - ·)
  mul := lift (· * ·)
  div := quotient
  neg := lift (fun _ q => -q) (of 0)
  ofNat n := of n
  less := less
  least := choose min
  greatest := choose max
  finite x := x != notFinite

/-- What a reported fraction counts: between zero and one, and nothing if it is no finite number. -/
def share : Exact → ℚ
  | of q => max 0 (min q 1)
  | notFinite => 0

theorem zero_eq : (Scalar.zero : Exact) = of 0 := congrArg of Nat.cast_zero

theorem one_eq : (Scalar.one : Exact) = of 1 := congrArg of Nat.cast_one

theorem less_of_iff {a b : ℚ} : Scalar.less (of a) (of b) = true ↔ a < b := decide_eq_true_iff

theorem finite_of (q : ℚ) : Scalar.finite (of q) = true := bne_iff_ne.2 nofun

theorem bounded_eq (x : Exact) : Board.bounded x = of x.share := by
  cases x with
  | notFinite => exact zero_eq
  | of q =>
    rw [Board.bounded, if_pos (finite_of q), zero_eq, one_eq, Scalar.clamp, share]
    by_cases hlow : q < 0
    · rw [if_pos (less_of_iff.2 hlow), max_eq_left (le_of_lt (min_lt_of_left_lt hlow))]
    · rw [if_neg (mt less_of_iff.1 hlow)]
      by_cases hhigh : 1 < q
      · rw [if_pos (less_of_iff.2 hhigh), min_eq_right (le_of_lt hhigh), max_eq_right zero_le_one]
      · rw [if_neg (mt less_of_iff.1 hhigh), min_eq_left (not_lt.1 hhigh),
          max_eq_right (not_lt.1 hlow)]

theorem share_nonneg (x : Exact) : 0 ≤ x.share := by
  cases x with
  | of q => exact le_max_left _ _
  | notFinite => exact le_refl _

theorem share_le_one (x : Exact) : x.share ≤ 1 := by
  cases x with
  | of q => exact max_le zero_le_one (min_le_right _ _)
  | notFinite => exact zero_le_one

end Exact

/-! ## The greatest of some numbers -/

/-- The greatest of the numbers, but at least zero. -/
def greatestOf (xs : List ℚ) : ℚ := xs.foldr max 0

theorem greatestOf_cons (x : ℚ) (xs : List ℚ) : greatestOf (x :: xs) = max x (greatestOf xs) := rfl

theorem greatestOf_nonneg (xs : List ℚ) : 0 ≤ greatestOf xs := by
  induction xs with
  | nil => exact le_refl _
  | cons x rest ih => exact le_max_of_le_right ih

theorem greatestOf_append (xs ys : List ℚ) :
    greatestOf (xs ++ ys) = max (greatestOf xs) (greatestOf ys) := by
  induction xs with
  | nil => exact (max_eq_right (greatestOf_nonneg ys)).symm
  | cons x rest ih => rw [List.cons_append, greatestOf_cons, ih, greatestOf_cons, max_assoc]

theorem greatestOf_singleton {x : ℚ} (h : 0 ≤ x) : greatestOf [x] = x := max_eq_left h

theorem le_greatestOf {x : ℚ} {xs : List ℚ} (h : x ∈ xs) : x ≤ greatestOf xs := by
  induction xs with
  | nil => cases h
  | cons y rest ih =>
    rcases List.mem_cons.1 h with rfl | h
    · exact le_max_left _ _
    · exact le_max_of_le_right (ih h)

theorem greatestOf_mem (xs : List ℚ) : greatestOf xs = 0 ∨ greatestOf xs ∈ xs := by
  induction xs with
  | nil => exact Or.inl rfl
  | cons y rest ih =>
    rw [greatestOf_cons]
    rcases max_choice y (greatestOf rest) with h | h <;> rw [h]
    · exact Or.inr List.mem_cons_self
    · exact ih.imp_right (List.mem_cons_of_mem y)

theorem greatestOf_le {b : ℚ} (hb : 0 ≤ b) {xs : List ℚ} (h : ∀ x ∈ xs, x ≤ b) :
    greatestOf xs ≤ b := by
  rcases greatestOf_mem xs with hx | hx
  · rwa [hx]
  · exact h _ hx

theorem greatestOf_perm {xs ys : List ℚ} (h : xs.Perm ys) : greatestOf xs = greatestOf ys :=
  le_antisymm
    (greatestOf_le (greatestOf_nonneg ys) fun _ hx => le_greatestOf (h.mem_iff.1 hx))
    (greatestOf_le (greatestOf_nonneg xs) fun _ hx => le_greatestOf (h.mem_iff.2 hx))

namespace Board

/-! ## Calls -/

/-- What a board is told. -/
inductive Call where
  | register (unit : String)
  | report (unit : String) (fraction : Exact)

namespace Call

def unit : Call → String
  | register unit | report unit _ => unit

/-- What the call reports of a unit. -/
def shareOf (unit : String) : Call → Option ℚ
  | register _ => none
  | report other fraction => if other = unit then some fraction.share else none

def isReport : Call → Bool
  | register _ => false
  | report .. => true

end Call

/-- The board after a call. -/
def told (b : Board Exact) : Call → Board Exact
  | .register unit => b.register unit
  | .report unit fraction => b.report unit fraction

/-- A new board after calls in this order. -/
def run (calls : List Call) : Board Exact := calls.foldl told empty

/-- The units that are known. -/
def known (calls : List Call) : Finset String := (calls.map Call.unit).toFinset

/-- The greatest share that was reported for a unit; zero if there is no report. -/
def top (calls : List Call) (unit : String) : ℚ := greatestOf (calls.filterMap (Call.shareOf unit))

/-- The mean over the known units. -/
def average (calls : List Call) : ℚ := (∑ unit ∈ known calls, top calls unit) / (known calls).card

/-- The calls up to a report, for each report. -/
def moments (calls : List Call) : List (List Call) :=
  calls.inits.filter fun calls => (calls.getLast?.map Call.isReport).getD false

/-- The greatest mean that there was right after a report; zero if there is no report. -/
def peak (calls : List Call) : ℚ := greatestOf ((moments calls).map average)

variable {calls : List Call} {unit : String} {fraction : Exact} {c : Call}

theorem run_concat (calls : List Call) (c : Call) : run (calls ++ [c]) = (run calls).told c := by
  rw [run, List.foldl_append]
  rfl

theorem mem_known_iff : unit ∈ known calls ↔ ∃ c ∈ calls, c.unit = unit := by
  rw [known, List.mem_toFinset, List.mem_map]

theorem known_concat (calls : List Call) (c : Call) :
    known (calls ++ [c]) = insert c.unit (known calls) := by
  ext unit
  simp [known]

/-! ## The greatest share of a unit -/

theorem top_register (calls : List Call) (other unit : String) :
    top (calls ++ [Call.register other]) unit = top calls unit := by
  rw [top, List.filterMap_append]
  exact congrArg greatestOf (List.append_nil _)

theorem top_report_self (calls : List Call) (unit : String) (fraction : Exact) :
    top (calls ++ [Call.report unit fraction]) unit = max (top calls unit) fraction.share := by
  have hshare : [Call.report unit fraction].filterMap (Call.shareOf unit) = [fraction.share] := by
    simp [Call.shareOf]
  rw [top, List.filterMap_append, greatestOf_append, hshare,
    greatestOf_singleton fraction.share_nonneg, ← top]

theorem top_report_of_ne {other : String} (h : other ≠ unit) (calls : List Call)
    (fraction : Exact) : top (calls ++ [Call.report other fraction]) unit = top calls unit := by
  have hshare : [Call.report other fraction].filterMap (Call.shareOf unit) = [] := by
    simp [Call.shareOf, h]
  rw [top, List.filterMap_append, hshare, List.append_nil, ← top]

theorem top_le_concat (calls : List Call) (c : Call) (unit : String) :
    top calls unit ≤ top (calls ++ [c]) unit := by
  rw [top, top, List.filterMap_append, greatestOf_append]
  exact le_max_left _ _

theorem top_nonneg (calls : List Call) (unit : String) : 0 ≤ top calls unit := greatestOf_nonneg _

theorem top_le_one (calls : List Call) (unit : String) : top calls unit ≤ 1 := by
  refine greatestOf_le zero_le_one fun x hx => ?_
  obtain ⟨c, -, hc⟩ := List.mem_filterMap.1 hx
  cases c with
  | register => cases hc
  | report other fraction =>
    rw [Call.shareOf] at hc
    split at hc
    · cases hc
      exact fraction.share_le_one
    · cases hc

theorem top_of_not_known (h : unit ∉ known calls) : top calls unit = 0 := by
  have hnone : calls.filterMap (Call.shareOf unit) = [] := by
    refine List.filterMap_eq_nil_iff.2 fun c hc => ?_
    cases c with
    | register => rfl
    | report other fraction =>
      exact if_neg fun heq => h (mem_known_iff.2 ⟨_, hc, heq⟩)
  rw [top, hnone]
  rfl

/-! ## Means -/

theorem average_nonneg (calls : List Call) : 0 ≤ average calls :=
  div_nonneg (Finset.sum_nonneg fun unit _ => top_nonneg calls unit) (Nat.cast_nonneg _)

theorem average_le_one (calls : List Call) : average calls ≤ 1 := by
  refine div_le_one_of_le₀ ?_ (Nat.cast_nonneg _)
  have hsum := Finset.sum_le_card_nsmul (known calls) (top calls) 1 fun unit _ =>
    top_le_one calls unit
  rwa [nsmul_eq_mul, mul_one] at hsum

/-- The mean is one only if the share of each unit is. -/
theorem top_eq_one_of_average (h : average calls = 1) (hunit : unit ∈ known calls) :
    top calls unit = 1 := by
  have hcard : (0 : ℚ) < (known calls).card := Nat.cast_pos.2 (Finset.card_pos.2 ⟨unit, hunit⟩)
  rw [average, div_eq_one_iff_eq hcard.ne'] at h
  have hsum : ∑ unit ∈ known calls, top calls unit = ∑ unit ∈ known calls, (1 : ℚ) := by
    rw [h, Finset.sum_const, nsmul_eq_mul, mul_one]
  exact (Finset.sum_eq_sum_iff_of_le fun unit _ => top_le_one calls unit).1 hsum unit hunit

/-! ## The greatest mean -/

theorem moments_concat (calls : List Call) (c : Call) :
    moments (calls ++ [c]) =
      moments calls ++ if c.isReport = true then [calls ++ [c]] else [] := by
  rw [moments, List.inits_append, List.filter_append, ← moments]
  simp [List.filter_cons]

theorem peak_register (calls : List Call) (unit : String) :
    peak (calls ++ [Call.register unit]) = peak calls := by
  rw [peak, moments_concat]
  exact congrArg (fun ms => greatestOf (ms.map average)) (List.append_nil _)

theorem peak_report (calls : List Call) (unit : String) (fraction : Exact) :
    peak (calls ++ [Call.report unit fraction]) =
      max (peak calls) (average (calls ++ [Call.report unit fraction])) := by
  rw [peak, moments_concat, List.map_append, greatestOf_append, ← peak]
  exact congrArg (max (peak calls)) (greatestOf_singleton (average_nonneg _))

/-! ## What the board holds -/

/-- The board holds the known units with their greatest shares, and has published the greatest
mean. -/
structure Tracks (b : Board Exact) (calls : List Call) : Prop where
  nodup : (b.units.map Prod.fst).Nodup
  names : ∀ unit, unit ∈ b.units.map Prod.fst ↔ unit ∈ known calls
  shares : ∀ x ∈ b.units, x.2 = .of (top calls x.1)
  published : b.published = .of (peak calls)

variable {b : Board Exact}

theorem knows_iff (b : Board Exact) (unit : String) :
    b.knows unit = true ↔ unit ∈ b.units.map Prod.fst := by
  simp [knows]

theorem tracks_empty : Tracks empty [] := by
  refine ⟨List.nodup_nil, fun unit => ?_, fun _ h => absurd h List.not_mem_nil, Exact.zero_eq⟩
  simp [empty, known]

theorem Tracks.register (h : b.Tracks calls) (unit : String) :
    (b.register unit).Tracks (calls ++ [Call.register unit]) := by
  have hknown : known (calls ++ [Call.register unit]) = insert unit (known calls) :=
    known_concat calls _
  rw [Board.register]
  split
  · next hknows =>
    have hmem : unit ∈ known calls := (h.names unit).1 ((knows_iff b unit).1 hknows)
    refine ⟨h.nodup, fun other => ?_, fun x hx => ?_, ?_⟩
    · rw [hknown, Finset.insert_eq_of_mem hmem, h.names]
    · rw [top_register, h.shares x hx]
    · rw [peak_register, h.published]
  · next hknows =>
    have hnew : unit ∉ b.units.map Prod.fst := mt (knows_iff b unit).2 hknows
    refine ⟨?_, fun other => ?_, fun x hx => ?_, ?_⟩
    · rw [List.map_append, List.map_singleton, ← List.concat_eq_append]
      exact h.nodup.concat hnew
    · simp [hknown, ← h.names, or_comm]
    · rw [top_register]
      rcases List.mem_append.1 hx with hx | hx
      · exact h.shares x hx
      · rw [List.mem_singleton.1 hx, top_of_not_known (mt (h.names unit).2 hnew)]
        exact Exact.zero_eq
    · rw [peak_register, ← h.published]

/-- The units' shares once one of them is raised. -/
theorem Tracks.shares_raise (h : b.Tracks (calls ++ [Call.register unit])) (fraction : Exact) :
    ∀ x ∈ (b.raise unit (bounded fraction)).units,
      x.2 = .of (top (calls ++ [Call.report unit fraction]) x.1) := by
  intro x hx
  obtain ⟨⟨name, old⟩, hold, rfl⟩ := List.mem_map.1 hx
  have hshare : old = .of (top calls name) := by
    rw [← top_register calls unit name]
    exact h.shares _ hold
  change (if (name == unit) = true then _ else old) = _
  by_cases hname : name = unit
  · subst hname
    rw [if_pos (beq_self_eq_true name), hshare, Exact.bounded_eq, top_report_self]
    rfl
  · rw [if_neg (mt beq_iff_eq.1 hname), hshare, top_report_of_ne (Ne.symm hname)]

theorem foldl_shares {units : List (String × Exact)} {f : String → ℚ}
    (h : ∀ x ∈ units, x.2 = .of (f x.1)) (s : ℚ) :
    units.foldl (fun sum unit => sum + unit.2) (.of s) =
      Exact.of (s + ((units.map Prod.fst).map f).sum) := by
  induction units generalizing s with
  | nil => simp
  | cons x rest ih =>
    obtain ⟨hx, hrest⟩ := List.forall_mem_cons.1 h
    rw [List.foldl_cons, hx]
    refine (ih hrest (s + f x.1)).trans ?_
    rw [List.map_cons, List.map_cons, List.sum_cons, add_assoc]

theorem mean_eq (hnodup : (b.units.map Prod.fst).Nodup)
    (hnames : ∀ unit, unit ∈ b.units.map Prod.fst ↔ unit ∈ known calls)
    (hshares : ∀ x ∈ b.units, x.2 = .of (top calls x.1)) (hne : (known calls).Nonempty) :
    b.mean = .of (average calls) := by
  have hknown : (b.units.map Prod.fst).toFinset = known calls := by
    ext name
    rw [List.mem_toFinset, hnames]
  have hsum : ((b.units.map Prod.fst).map (top calls)).sum =
      ∑ unit ∈ known calls, top calls unit := by
    rw [← hknown, List.sum_toFinset _ hnodup]
  have hlength : (b.units.length : ℚ) = (known calls).card := by
    rw [← hknown, List.toFinset_card_of_nodup hnodup, List.length_map]
  have hcard : ((known calls).card : ℚ) ≠ 0 := Nat.cast_ne_zero.2 hne.card_ne_zero
  rw [mean, Exact.zero_eq, foldl_shares hshares, hsum, zero_add]
  change (if (b.units.length : ℚ) = 0 then _ else Exact.of (_ / (b.units.length : ℚ))) = _
  rw [hlength, if_neg hcard, average]

theorem Tracks.report (h : b.Tracks calls) (unit : String) (fraction : Exact) :
    (b.report unit fraction).Tracks (calls ++ [Call.report unit fraction]) := by
  have hregister := h.register unit
  have hknown : known (calls ++ [Call.report unit fraction]) =
      known (calls ++ [Call.register unit]) := by
    rw [known_concat, known_concat]
    rfl
  have hne : (known (calls ++ [Call.report unit fraction])).Nonempty := by
    rw [known_concat]
    exact Finset.insert_nonempty ..
  rw [Board.report]
  generalize hraised : (b.register unit).raise unit (bounded fraction) = raised
  have hfst : raised.units.map Prod.fst = (b.register unit).units.map Prod.fst := by
    rw [← hraised, raise, List.map_map]
    rfl
  have hnodup : (raised.units.map Prod.fst).Nodup := hfst ▸ hregister.nodup
  have hnames : ∀ name, name ∈ raised.units.map Prod.fst ↔
      name ∈ known (calls ++ [Call.report unit fraction]) := by
    intro name
    rw [hfst, hregister.names, hknown]
  have hshares : ∀ x ∈ raised.units, x.2 = .of (top (calls ++ [Call.report unit fraction]) x.1) :=
    hraised ▸ hregister.shares_raise fraction
  have hpublished : raised.published = .of (peak calls) := by
    rw [← hraised, ← peak_register calls unit]
    exact hregister.published
  have hpeak := peak_report calls unit fraction
  rw [publish, mean_eq hnodup hnames hshares hne, hpublished]
  by_cases hless : peak calls < average (calls ++ [Call.report unit fraction])
  · rw [if_pos (Exact.less_of_iff.2 hless)]
    rw [max_eq_right (le_of_lt hless)] at hpeak
    exact ⟨hnodup, hnames, hshares, by rw [hpeak]⟩
  · rw [if_neg (mt Exact.less_of_iff.1 hless)]
    rw [max_eq_left (not_lt.1 hless)] at hpeak
    exact ⟨hnodup, hnames, hshares, by rw [hpublished, hpeak]⟩

theorem tracks_run (calls : List Call) : (run calls).Tracks calls := by
  induction calls using List.reverseRecOn with
  | nil => exact tracks_empty
  | append_singleton calls c ih =>
    rw [run_concat]
    cases c with
    | register unit => exact ih.register unit
    | report unit fraction => exact ih.report unit fraction

/-! ## Units that are known from the start -/

/-- Whatever unit is ever named was registered before the first report. -/
def Settled (calls : List Call) : Prop :=
  ∀ before unit fraction after, calls = before ++ .report unit fraction :: after →
    ∀ name ∈ known calls, .register name ∈ before

/-- The calls that are reports. -/
def reports (calls : List Call) : List Call := calls.filter Call.isReport

theorem Settled.of_concat (h : Settled (calls ++ [c])) : Settled calls := by
  intro before unit fraction after heq name hname
  refine h before unit fraction (after ++ [c]) (by rw [heq]; simp) name ?_
  rw [known_concat]
  exact Finset.mem_insert_of_mem hname

theorem top_eq_of_reports {others : List Call} (h : (reports others).Perm (reports calls))
    (unit : String) : top others unit = top calls unit := by
  have hreports (calls : List Call) :
      (reports calls).filterMap (Call.shareOf unit) = calls.filterMap (Call.shareOf unit) := by
    rw [reports, List.filterMap_filter]
    refine List.filterMap_congr fun c _ => ?_
    cases c <;> rfl
  rw [top, top, ← hreports, ← hreports calls]
  exact greatestOf_perm (h.filterMap _)

theorem average_eq_zero (h : reports calls = []) : average calls = 0 := by
  have hnone : (reports calls).Perm (reports []) := List.Perm.of_eq h
  have htop (unit : String) : top calls unit = 0 := top_eq_of_reports hnone unit
  rw [average, Finset.sum_eq_zero fun unit _ => htop unit, zero_div]

/-- A unit that is registered after a report is known already. -/
theorem Settled.average_register (h : Settled (calls ++ [Call.register unit])) :
    average (calls ++ [Call.register unit]) = average calls := by
  by_cases hknown : unit ∈ known calls
  · have hsame : known (calls ++ [Call.register unit]) = known calls := by
      rw [known_concat]
      exact Finset.insert_eq_of_mem hknown
    simp only [average, hsame, top_register]
  · have hnone : reports calls = [] := by
      refine List.filter_eq_nil_iff.2 fun c hc hreport => hknown ?_
      cases c with
      | register => cases hreport
      | report other fraction =>
        obtain ⟨before, after, rfl⟩ := List.append_of_mem hc
        have hmem := h before other fraction (after ++ [Call.register unit]) (by simp) unit
          (by rw [known_concat]; exact Finset.mem_insert_self ..)
        exact mem_known_iff.2 ⟨_, List.mem_append_left _ hmem, rfl⟩
    have hnone' : reports (calls ++ [Call.register unit]) = [] := by
      rw [reports, List.filter_append, ← reports, hnone]
      rfl
    rw [average_eq_zero hnone, average_eq_zero hnone']

/-- A report of a unit that is known already does not lower the mean. -/
theorem Settled.average_le_report (h : Settled (calls ++ [Call.report unit fraction])) :
    average calls ≤ average (calls ++ [Call.report unit fraction]) := by
  have hmem := h calls unit fraction [] rfl unit
    (by rw [known_concat]; exact Finset.mem_insert_self ..)
  have hsame : known (calls ++ [Call.report unit fraction]) = known calls := by
    rw [known_concat]
    exact Finset.insert_eq_of_mem (mem_known_iff.2 ⟨_, hmem, rfl⟩)
  rw [average, average, hsame]
  exact div_le_div_of_nonneg_right
    (Finset.sum_le_sum fun name _ => top_le_concat calls _ name) (Nat.cast_nonneg _)

theorem Settled.peak_eq (h : Settled calls) : peak calls = average calls := by
  induction calls using List.reverseRecOn with
  | nil => exact (average_eq_zero rfl).symm
  | append_singleton calls c ih =>
    have hbefore := ih h.of_concat
    cases c with
    | register unit => rw [peak_register, hbefore, h.average_register]
    | report unit fraction => rw [peak_report, hbefore, max_eq_right h.average_le_report]

/-! ## What is published -/

theorem peak_le_append (calls more : List Call) : peak calls ≤ peak (calls ++ more) := by
  induction more using List.reverseRecOn with
  | nil => rw [List.append_nil]
  | append_singleton more c ih =>
    rw [← List.append_assoc]
    refine le_trans ih ?_
    cases c with
    | register unit => rw [peak_register]
    | report unit fraction =>
      rw [peak_report]
      exact le_max_left _ _

theorem peak_le_one (calls : List Call) : peak calls ≤ 1 := by
  refine greatestOf_le zero_le_one fun x hx => ?_
  obtain ⟨moment, -, rfl⟩ := List.mem_map.1 hx
  exact average_le_one moment

theorem exists_moment_of_peak (h : peak calls = 1) :
    ∃ moment ∈ moments calls, ∀ unit ∈ known moment, top moment unit = 1 := by
  rcases greatestOf_mem ((moments calls).map average) with hzero | hmem
  · rw [← peak, h] at hzero
    exact absurd hzero one_ne_zero
  · obtain ⟨moment, hmoment, haverage⟩ := List.mem_map.1 hmem
    exact ⟨moment, hmoment, fun unit => top_eq_one_of_average (haverage.trans h)⟩

/-- The board holds one share for each known unit. -/
theorem Tracks.mem_units_iff (h : b.Tracks calls) {share : Exact} :
    (unit, share) ∈ b.units ↔ unit ∈ known calls ∧ share = .of (top calls unit) := by
  constructor
  · intro hmem
    exact ⟨(h.names unit).1 (List.mem_map_of_mem hmem), h.shares _ hmem⟩
  · rintro ⟨hknown, rfl⟩
    obtain ⟨⟨name, share⟩, hmem, rfl⟩ := List.mem_map.1 ((h.names unit).2 hknown)
    rwa [← h.shares _ hmem]

/-- What a board says that was told of units and fractions. -/
structure Tells (b : Board Exact) (calls : List Call) : Prop where
  once : (b.units.map Prod.fst).Nodup
  recorded : ∀ unit share,
    (unit, share) ∈ b.units ↔ unit ∈ known calls ∧ share = .of (top calls unit)
  published : b.published = .of (peak calls)
  nonneg : 0 ≤ peak calls
  le_one : peak calls ≤ 1
  /-- What is published never goes back. -/
  forward : ∀ more, peak calls ≤ peak (calls ++ more)
  /-- The mean right after a report is not above what is published. -/
  mean_le : ∀ moment ∈ moments calls, average moment ≤ peak calls
  /-- All was done at some moment if one is published. -/
  complete : peak calls = 1 → ∃ moment ∈ moments calls, ∀ unit ∈ known moment, top moment unit = 1
  mean_eq : Settled calls → b.published = .of (average calls)
  /-- The order of the reports does not matter. -/
  any_order : Settled calls → ∀ others, Settled others → known others = known calls →
    (reports others).Perm (reports calls) → (run others).published = b.published

theorem run_tells (calls : List Call) : (run calls).Tells calls := by
  have htracks := tracks_run calls
  refine
    { once := htracks.nodup
      recorded := fun unit share => htracks.mem_units_iff
      published := htracks.published
      nonneg := greatestOf_nonneg _
      le_one := peak_le_one calls
      forward := peak_le_append calls
      mean_le := fun moment hmoment => le_greatestOf (List.mem_map_of_mem hmoment)
      complete := exists_moment_of_peak
      mean_eq := fun hsettled => by rw [htracks.published, hsettled.peak_eq]
      any_order := fun hsettled others hothers hknown hreports => ?_ }
  have haverage : average others = average calls := by
    simp only [average, hknown, top_eq_of_reports hreports]
  rw [(tracks_run others).published, htracks.published, hothers.peak_eq, hsettled.peak_eq, haverage]

end Board

end Montage
