import Tracium.GroupBy
import Tracium.Js.WholeNumber
import Tracium.Query.SteadyTraffic
import Mathlib.Data.Prod.Lex

/-! overview: the anomalies of the API grouped into incidents, one for each target and day.
A number is finite, as every number of a response is, so the sign of a difference is the
sign of the exact one; bucket_ms is a whole number. -/
namespace Tracium.Dashboard

open Js OrderedMap

inductive AnomalyMetric where
  | cost | errorRate | runs
  deriving DecidableEq

inductive AnomalyScope where
  | workspace | workflow
  deriving DecidableEq

def AnomalyScope.text : AnomalyScope → Text
  | .workspace => lit "workspace"
  | .workflow => lit "workflow"

inductive AnomalyDirection where
  | spike | drop
  deriving DecidableEq

inductive AnomalySeverity where
  | info | warning | critical
  deriving DecidableEq

/-- The rank in SEVERITY_META. -/
def AnomalySeverity.rank : AnomalySeverity → ℕ
  | .critical => 3
  | .warning => 2
  | .info => 1

structure VersionChange where
  workflow : Text
  version : Text
  firstSeenMs : Int
  deriving DecidableEq

structure Anomaly where
  metric : AnomalyMetric
  scope : AnomalyScope
  workflow : Text
  bucketMs : Int
  (observed expected deviation score : ℚ)
  direction : AnomalyDirection
  severity : AnomalySeverity
  summary : Text
  versionChange : Option VersionChange
  deriving DecidableEq

def bySeverity (a b : Anomaly) : ℚ :=
  let s : ℚ := b.severity.rank - a.severity.rank
  if s ≠ 0 then s
  else
    let z := |b.score| - |a.score|
    if z ≠ 0 then z else b.bucketMs - a.bucketMs

/-- Every anomaly for one target on one day, and there is one. -/
structure Incident where
  key : Text
  scope : AnomalyScope
  workflow : Text
  bucketMs : Int
  severity : AnomalySeverity
  anomalies : List Anomaly
  nonempty : anomalies ≠ []

def Incident.first (i : Incident) : Anomaly := i.anomalies.head i.nonempty

def incidentKey (a : Anomaly) : Text :=
  a.scope.text ++ lit ":" ++ a.workflow ++ lit ":" ++ intString a.bucketMs

/-- The incident of a target met for the first time. -/
def Incident.opened (a : Anomaly) : Incident :=
  ⟨incidentKey a, a.scope, a.workflow, a.bucketMs, a.severity, [a], List.cons_ne_nil a []⟩

def Incident.push (existing : Incident) (a : Anomaly) : Incident :=
  { existing with
    anomalies := existing.anomalies ++ [a]
    nonempty := List.concat_ne_nil a existing.anomalies
    severity := if a.severity.rank > existing.severity.rank then a.severity else existing.severity }

def addAnomaly (byKey : List (Text × Incident)) (a : Anomaly) : List (Text × Incident) :=
  match get byKey (incidentKey a) with
  | some existing => put byKey (incidentKey a) (existing.push a)
  | none => put byKey (incidentKey a) (.opened a)

/-- inc.anomalies.sort(bySeverity). -/
def Incident.sorted (inc : Incident) : Incident :=
  { inc with
    anomalies := Js.sort bySeverity inc.anomalies
    nonempty := sort_ne_nil bySeverity inc.nonempty }

/-- The comparator of the incidents. -/
def compareIncidents (x y : Incident) : ℚ :=
  let s : ℚ := y.severity.rank - x.severity.rank
  if s ≠ 0 then s
  else
    let z := |y.first.score| - |x.first.score|
    if z ≠ 0 then z else y.bucketMs - x.bucketMs

def groupIncidents (anomalies : List Anomaly) : List Incident :=
  let byKey := anomalies.foldl addAnomaly []
  let incidents := byKey.map fun e => e.2.sorted
  Js.sort compareIncidents incidents

/-! What is promised of the incidents. -/

/-- Two anomalies of the same scope, workflow and bucket. -/
def SameTarget (a b : Anomaly) : Prop :=
  a.scope = b.scope ∧ a.workflow = b.workflow ∧ a.bucketMs = b.bucketMs

/-- The member of an incident that comes first in a list of anomalies. -/
def Incident.firstIn (anomalies : List Anomaly) (i : Incident) : Option Anomaly :=
  anomalies.find? fun a => a.scope = i.scope ∧ a.workflow = i.workflow ∧ a.bucketMs = i.bucketMs

def AnomalySeverity.api : AnomalySeverity → Tracium.Anomaly.Severity
  | .info => .info
  | .warning => .warning
  | .critical => .critical

/-- An anomaly as the response carries it, as far as the order goes. -/
structure Received (sent : Query.Anomaly ℚ) (a : Anomaly) : Prop where
  severity : sent.severity = a.severity.api
  score : sent.score = a.score
  bucketMs : sent.bucketMs = a.bucketMs

/-- The order in which the API returns anomalies. -/
def InApiOrder (anomalies : List Anomaly) : Prop :=
  ∃ found, List.Forall₂ Received (Query.sortAnomalies found) anomalies

structure Grouped (anomalies : List Anomaly) (incidents : List Incident) : Prop where
  perm : (incidents.flatMap Incident.anomalies).Perm anomalies
  one : ∀ a ∈ anomalies, ∃! i, i ∈ incidents ∧ a ∈ i.anomalies
  shared : ∀ a ∈ anomalies, ∀ b ∈ anomalies,
    (∃ i ∈ incidents, a ∈ i.anomalies ∧ b ∈ i.anomalies) ↔ SameTarget a b
  target : ∀ i ∈ incidents, ∀ a ∈ i.anomalies,
    a.scope = i.scope ∧ a.workflow = i.workflow ∧ a.bucketMs = i.bucketMs
  worst : ∀ i ∈ incidents, (∀ a ∈ i.anomalies, a.severity.rank ≤ i.severity.rank) ∧
    ∃ a ∈ i.anomalies, a.severity = i.severity
  sorted : ∀ i ∈ incidents, i.anomalies.Pairwise fun a b => bySeverity a b ≤ 0
  carried : ∀ i ∈ incidents, i.first.severity = i.severity
  ordered : incidents.Pairwise fun x y => bySeverity x.first y.first ≤ 0
  inInputOrder : InApiOrder anomalies →
    (incidents.filterMap (Incident.firstIn anomalies)).Sublist anomalies

/-! The key names the target. -/

/-- The template prints the bucket as Number::toString does. -/
theorem incidentKey_prints {a : Anomaly} (safe : a.bucketMs.natAbs < 2 ^ 53) : incidentKey a =
    a.scope.text ++ lit ":" ++ a.workflow ++ lit ":" ++ numberToString a.bucketMs := by
  rw [incidentKey, numberToString_int safe]

theorem colon_notMem_intString (n : Int) : (0x3A : UInt16) ∉ intString n := by
  intro member
  rcases intString_units n 0x3A member with wrong | wrong
  · exact absurd wrong (by decide)
  · exact absurd wrong (by decide)

theorem incidentKey_eq_iff (a b : Anomaly) : incidentKey a = incidentKey b ↔ SameTarget a b := by
  constructor
  · intro same
    have split : ∀ a : Anomaly, incidentKey a =
        (a.scope.text ++ lit ":" ++ a.workflow) ++ 0x3A :: intString a.bucketMs := by
      intro a
      rw [incidentKey, List.append_assoc _ (lit ":")]
      rfl
    rw [split, split] at same
    obtain ⟨front, back⟩ :=
      last_separator (colon_notMem_intString _) (colon_notMem_intString _) same
    have buckets := intString_inj back
    -- the two scopes differ in their fifth letter
    cases hs : a.scope <;> cases ht : b.scope <;> rw [hs, ht] at front
    · exact ⟨by rw [hs, ht], List.append_cancel_left front, buckets⟩
    · simp [AnomalyScope.text, lit] at front
    · simp [AnomalyScope.text, lit] at front
    · exact ⟨by rw [hs, ht], List.append_cancel_left front, buckets⟩
  · rintro ⟨scope, workflow, bucket⟩
    rw [incidentKey, incidentKey, scope, workflow, bucket]

/-! The order: one key for the comparators here and the one of the API. -/

/-- What is compared, the most urgent least. -/
def urgencyOf (rank : ℕ) (score : ℚ) (bucketMs : Int) : ℚ ×ₗ ℚ ×ₗ ℚ :=
  toLex (-(rank : ℚ), toLex (-|score|, -(bucketMs : ℚ)))

def Anomaly.urgency (a : Anomaly) : ℚ ×ₗ ℚ ×ₗ ℚ := urgencyOf a.severity.rank a.score a.bucketMs

/-- A difference that decides unless it is zero. -/
theorem difference_nonpos (s rest : ℚ) :
    (if s ≠ 0 then s else rest) ≤ 0 ↔ s < 0 ∨ s = 0 ∧ rest ≤ 0 := by
  by_cases zero : s = 0
  · simp [zero]
  · rw [if_pos zero]
    constructor
    · intro nonpos
      exact Or.inl (lt_of_le_of_ne nonpos zero)
    · rintro (negative | ⟨wrong, -⟩)
      · exact le_of_lt negative
      · exact absurd wrong zero

theorem urgencyOf_le_iff (r r' : ℕ) (z z' : ℚ) (t t' : Int) :
    urgencyOf r z t ≤ urgencyOf r' z' t' ↔
      r' < r ∨ r = r' ∧ (|z'| < |z| ∨ |z| = |z'| ∧ t' ≤ t) := by
  simp only [urgencyOf, Prod.Lex.toLex_le_toLex, neg_lt_neg_iff, neg_inj, neg_le_neg_iff, Nat.cast_lt,
    Nat.cast_inj, Int.cast_le]

/-- The shape of both comparators. -/
theorem compare_nonpos_iff (r r' : ℕ) (z z' : ℚ) (t t' : Int) :
    (if (r' : ℚ) - r ≠ 0 then (r' : ℚ) - r else if |z'| - |z| ≠ 0 then |z'| - |z| else (t' : ℚ) - t) ≤ 0 ↔
      urgencyOf r z t ≤ urgencyOf r' z' t' := by
  rw [difference_nonpos, difference_nonpos, urgencyOf_le_iff]
  simp only [sub_neg, sub_eq_zero, sub_nonpos, Nat.cast_lt, Nat.cast_inj, Int.cast_le, eq_comm]

theorem bySeverity_orders : OrdersBy bySeverity Anomaly.urgency := by
  intro a b
  exact compare_nonpos_iff a.severity.rank b.severity.rank a.score b.score a.bucketMs b.bucketMs

theorem compareIncidents_orders :
    OrdersBy compareIncidents fun i => urgencyOf i.severity.rank i.first.score i.bucketMs := by
  intro x y
  exact compare_nonpos_iff x.severity.rank y.severity.rank x.first.score y.first.score x.bucketMs y.bucketMs

theorem AnomalySeverity.rank_api (s : AnomalySeverity) : s.api.rank = s.rank := by
  cases s <;> rfl

/-- The comparator of the API, on the anomalies it sends. -/
theorem ranksBefore_eq_false_iff (a b : Query.Anomaly ℚ) : Query.ranksBefore b a = false ↔
    urgencyOf a.severity.rank a.score a.bucketMs ≤ urgencyOf b.severity.rank b.score b.bucketMs := by
  rw [urgencyOf_le_iff, Query.ranksBefore]
  by_cases rank : b.severity.rank = a.severity.rank
  · rw [if_neg (not_not.mpr rank)]
    by_cases score : |b.score| = |a.score|
    · rw [if_neg (not_not.mpr score)]
      simp [rank, score]
    · rw [if_pos score, decide_eq_false_iff_not, not_lt]
      constructor
      · intro le
        exact Or.inr ⟨rank.symm, Or.inl (lt_of_le_of_ne le score)⟩
      · rintro (wrong | ⟨-, lt | ⟨wrong, -⟩⟩)
        · omega
        · exact le_of_lt lt
        · exact absurd wrong.symm score
  · rw [if_pos rank, decide_eq_false_iff_not]
    omega

theorem sortAnomalies_pairwise (found : List (Query.Anomaly ℚ)) :
    (Query.sortAnomalies found).Pairwise fun a b => Query.ranksBefore b a = false := by
  have total : Std.Total fun a b => Query.ranksBefore b a = false := ⟨fun a b => by
    rw [ranksBefore_eq_false_iff, ranksBefore_eq_false_iff]
    exact le_total _ _⟩
  have trans : IsTrans (Query.Anomaly ℚ) fun a b => Query.ranksBefore b a = false := ⟨fun a b c hab hbc => by
    rw [ranksBefore_eq_false_iff] at hab hbc ⊢
    exact le_trans hab hbc⟩
  exact List.pairwise_insertionSort _ found

/-- The comparator of the API keeps a before b where bySeverity does. -/
theorem ranksBefore_iff {sent sent' : Query.Anomaly ℚ} {a b : Anomaly} (ha : Received sent a)
    (hb : Received sent' b) : Query.ranksBefore sent' sent = false ↔ bySeverity a b ≤ 0 := by
  rw [ranksBefore_eq_false_iff, bySeverity_orders, Anomaly.urgency, Anomaly.urgency, ha.severity, hb.severity,
    AnomalySeverity.rank_api, AnomalySeverity.rank_api, ha.score, hb.score, ha.bucketMs, hb.bucketMs]

theorem sent_of_mem {sent : List (Query.Anomaly ℚ)} {anomalies : List Anomaly}
    (received : List.Forall₂ Received sent anomalies) {a : Anomaly} (member : a ∈ anomalies) :
    ∃ s ∈ sent, Received s a := by
  induction received with
  | nil => cases member
  | @cons s _ _ _ first _ ih =>
    rcases List.mem_cons.mp member with rfl | later
    · exact ⟨s, List.mem_cons_self, first⟩
    · obtain ⟨s', inSent, received⟩ := ih later
      exact ⟨s', List.mem_cons_of_mem s inSent, received⟩

/-- What the anomalies query returns is in its order, the cut at the limit included. -/
theorem anomalies_inApiOrder {zone : Query.Location} {quote : Go.Str → Go.Str} {reads : Query.AnomalyReads}
    {f : Query.AnomalyFilter} {anomalies : List Anomaly}
    (received : List.Forall₂ Received (Query.Anomalies zone quote reads f) anomalies) : InApiOrder anomalies := by
  refine ⟨Query.Anomalies zone quote reads f, ?_⟩
  have sorted : (Query.Anomalies zone quote reads f).Pairwise fun a b => Query.ranksBefore b a = false :=
    (sortAnomalies_pairwise _).sublist (List.take_sublist _ _)
  have same : Query.sortAnomalies (Query.Anomalies zone quote reads f) = Query.Anomalies zone quote reads f :=
    sorted.insertionSort_eq
  rwa [same]

theorem InApiOrder.pairwise {anomalies : List Anomaly} (inOrder : InApiOrder anomalies) :
    anomalies.Pairwise fun a b => bySeverity a b ≤ 0 := by
  obtain ⟨found, received⟩ := inOrder
  have sorted := sortAnomalies_pairwise found
  generalize Query.sortAnomalies found = sent at received sorted
  induction received with
  | nil => exact List.Pairwise.nil
  | cons first rest ih =>
    obtain ⟨before, later⟩ := List.pairwise_cons.mp sorted
    refine List.Pairwise.cons ?_ (ih later)
    intro b member
    obtain ⟨sent', inSent, received⟩ := sent_of_mem rest member
    exact (ranksBefore_iff first received).mp (before sent' inSent)

/-! Filling the map: what each incident holds of the anomalies seen so far. -/

/-- An incident holds the anomalies of its key in the order they came. -/
structure Incident.Holds (seen : List Anomaly) (key : Text) (i : Incident) : Prop where
  members : i.anomalies = seen.filter fun a => incidentKey a = key
  target : ∀ a ∈ i.anomalies, a.scope = i.scope ∧ a.workflow = i.workflow ∧ a.bucketMs = i.bucketMs
  worst : ∀ a ∈ i.anomalies, a.severity.rank ≤ i.severity.rank
  attained : ∃ a ∈ i.anomalies, a.severity = i.severity

structure Collected (seen : List Anomaly) (byKey : List (Text × Incident)) : Prop where
  distinct : DistinctKeys byKey
  covered : ∀ a ∈ seen, incidentKey a ∈ byKey.map Prod.fst
  holds : ∀ e ∈ byKey, e.2.Holds seen e.1
  order : (byKey.map fun e => e.2.first).Sublist seen

theorem Incident.Holds.other {seen : List Anomaly} {key : Text} {i : Incident} (holds : i.Holds seen key)
    {a : Anomaly} (other : incidentKey a ≠ key) : i.Holds (seen ++ [a]) key where
  members := by
    rw [holds.members, List.filter_append, List.filter_cons_of_neg (by simpa using other), List.filter_nil,
      List.append_nil]
  target := holds.target
  worst := holds.worst
  attained := holds.attained

theorem Incident.push_rank (i : Incident) (a : Anomaly) :
    (i.push a).severity.rank = max i.severity.rank a.severity.rank := by
  unfold Incident.push
  by_cases worse : a.severity.rank > i.severity.rank
  · simp only [if_pos worse]
    omega
  · simp only [if_neg worse]
    omega

/-- An anomaly with the key of the incident has its scope, workflow and bucket. -/
theorem Incident.Holds.target_of_key {seen : List Anomaly} {a : Anomaly} {i : Incident}
    (holds : i.Holds seen (incidentKey a)) :
    a.scope = i.scope ∧ a.workflow = i.workflow ∧ a.bucketMs = i.bucketMs := by
  have member : i.first ∈ i.anomalies := List.head_mem i.nonempty
  obtain ⟨scope, workflow, bucket⟩ := holds.target i.first member
  rw [holds.members, List.mem_filter, decide_eq_true_eq, incidentKey_eq_iff] at member
  obtain ⟨-, sameScope, sameWorkflow, sameBucket⟩ := member
  exact ⟨sameScope.symm.trans scope, sameWorkflow.symm.trans workflow, sameBucket.symm.trans bucket⟩

theorem Incident.Holds.push {seen : List Anomaly} {a : Anomaly} {i : Incident}
    (holds : i.Holds seen (incidentKey a)) : (i.push a).Holds (seen ++ [a]) (incidentKey a) where
  members := by
    rw [List.filter_append, List.filter_cons_of_pos (by simp), List.filter_nil, ← holds.members]
    rfl
  target := by
    intro b member
    rcases List.mem_append.mp member with old | new
    · exact holds.target b old
    · rw [List.mem_singleton.mp new]
      exact holds.target_of_key
  worst := by
    intro b member
    rw [Incident.push_rank]
    rcases List.mem_append.mp member with old | new
    · have bound := holds.worst b old
      omega
    · rw [List.mem_singleton.mp new]
      omega
  attained := by
    by_cases worse : a.severity.rank > i.severity.rank
    · exact ⟨a, List.mem_append_right _ List.mem_cons_self, by simp only [Incident.push, if_pos worse]⟩
    · obtain ⟨b, member, same⟩ := holds.attained
      refine ⟨b, List.mem_append_left _ member, ?_⟩
      simp only [Incident.push, if_neg worse]
      exact same

theorem Incident.opened_holds {seen : List Anomaly} {a : Anomaly}
    (fresh : ∀ b ∈ seen, incidentKey b ≠ incidentKey a) :
    (Incident.opened a).Holds (seen ++ [a]) (incidentKey a) where
  members := by
    have none : (seen.filter fun b => incidentKey b = incidentKey a) = [] := by
      rw [List.filter_eq_nil_iff]
      intro b member
      simpa using fresh b member
    rw [List.filter_append, none, List.filter_cons_of_pos (by simp)]
    rfl
  target := by
    intro b member
    rw [List.mem_singleton.mp member]
    exact ⟨rfl, rfl, rfl⟩
  worst := by
    intro b member
    rw [List.mem_singleton.mp member]
    exact le_refl _
  attained := ⟨a, List.mem_cons_self, rfl⟩

theorem Incident.push_first (i : Incident) (a : Anomaly) : (i.push a).first = i.first :=
  List.head_append_of_ne_nil i.nonempty

/-- Whatever is put under the key of an anomaly covers it. -/
theorem Collected.put_covered {seen : List Anomaly} {byKey : List (Text × Incident)}
    (collected : Collected seen byKey) (a : Anomaly) (v : Incident) :
    ∀ b ∈ seen ++ [a], incidentKey b ∈ (put byKey (incidentKey a) v).map Prod.fst := by
  intro b member
  rw [← get_isSome_iff]
  by_cases own : incidentKey a = incidentKey b
  · rw [own, get_put_same]
    rfl
  · rw [get_put_other byKey v own, get_isSome_iff]
    rcases List.mem_append.mp member with old | new
    · exact collected.covered b old
    · exact absurd (by rw [List.mem_singleton.mp new]) own

theorem Collected.put_holds {seen : List Anomaly} {byKey : List (Text × Incident)}
    (collected : Collected seen byKey) {a : Anomaly} {v : Incident} (new : v.Holds (seen ++ [a]) (incidentKey a)) :
    ∀ e ∈ put byKey (incidentKey a) v, e.2.Holds (seen ++ [a]) e.1 := by
  intro e member
  rcases mem_put collected.distinct member with rfl | ⟨old, other⟩
  · exact new
  · exact (collected.holds e old).other (Ne.symm other)

/-- One anomaly more. -/
theorem Collected.add {seen : List Anomaly} {byKey : List (Text × Incident)}
    (collected : Collected seen byKey) (a : Anomaly) : Collected (seen ++ [a]) (addAnomaly byKey a) := by
  unfold addAnomaly
  cases found : get byKey (incidentKey a) with
  | some existing =>
    have member := (get_eq_some_iff_mem collected.distinct).mp found
    exact {
      distinct := collected.distinct.put _ _
      covered := collected.put_covered a _
      holds := collected.put_holds (collected.holds _ member).push
      order := by
        rw [map_put_of_get found (existing.push_first a)]
        exact collected.order.trans (List.sublist_append_left seen [a]) }
  | none =>
    have fresh : ∀ b ∈ seen, incidentKey b ≠ incidentKey a := by
      intro b member same
      exact (get_eq_none_iff byKey _).mp found (same ▸ collected.covered b member)
    exact {
      distinct := collected.distinct.put _ _
      covered := collected.put_covered a _
      holds := collected.put_holds (Incident.opened_holds fresh)
      order := by
        rw [put_absent found, List.map_append]
        exact collected.order.append (List.Sublist.refl [a]) }

theorem collected_foldl {seen : List Anomaly} {byKey : List (Text × Incident)}
    (collected : Collected seen byKey) (anomalies : List Anomaly) :
    Collected (seen ++ anomalies) (anomalies.foldl addAnomaly byKey) := by
  induction anomalies generalizing seen byKey with
  | nil =>
    rw [List.append_nil]
    exact collected
  | cons a rest ih =>
    have later := ih (collected.add a)
    rwa [List.append_assoc, List.singleton_append] at later

theorem collected (anomalies : List Anomaly) : Collected anomalies (anomalies.foldl addAnomaly []) := by
  have start : Collected [] [] := {
    distinct := DistinctKeys.nil
    covered := by
      intro a member
      cases member
    holds := by
      intro e member
      cases member
    order := List.Sublist.refl [] }
  exact collected_foldl start anomalies

/-! The incidents themselves. -/

/-- The incidents before they are ordered: the members of each are. -/
def unordered (anomalies : List Anomaly) : List Incident :=
  (anomalies.foldl addAnomaly []).map fun e => e.2.sorted

theorem groupIncidents_perm (anomalies : List Anomaly) :
    (groupIncidents anomalies).Perm (unordered anomalies) :=
  sort_perm compareIncidents (unordered anomalies)

/-- What one incident says of the anomalies it was made from. -/
structure Incident.Complete (anomalies : List Anomaly) (i : Incident) : Prop where
  members : ∀ a, a ∈ i.anomalies ↔ a ∈ anomalies ∧ incidentKey a = incidentKey i.first
  target : ∀ a ∈ i.anomalies, a.scope = i.scope ∧ a.workflow = i.workflow ∧ a.bucketMs = i.bucketMs
  worst : ∀ a ∈ i.anomalies, a.severity.rank ≤ i.severity.rank
  attained : ∃ a ∈ i.anomalies, a.severity = i.severity
  sorted : i.anomalies.Pairwise fun a b => bySeverity a b ≤ 0

theorem AnomalySeverity.rank_inj {s t : AnomalySeverity} (same : s.rank = t.rank) : s = t := by
  cases s <;> cases t <;> first | rfl | cases same

/-- Where bySeverity puts a first, a has the higher rank. -/
theorem rank_of_bySeverity {a b : Anomaly} (first : bySeverity a b ≤ 0) : b.severity.rank ≤ a.severity.rank := by
  rw [bySeverity_orders, Anomaly.urgency, Anomaly.urgency, urgencyOf_le_iff] at first
  omega

theorem Incident.first_mem (i : Incident) : i.first ∈ i.anomalies := List.head_mem i.nonempty

theorem Incident.first_least {i : Incident} (sorted : i.anomalies.Pairwise fun a b => bySeverity a b ≤ 0) :
    ∀ a ∈ i.anomalies, a = i.first ∨ bySeverity i.first a ≤ 0 := by
  intro a member
  have split : i.anomalies = i.first :: i.anomalies.tail := (List.cons_head_tail i.nonempty).symm
  rw [split] at member sorted
  rcases List.mem_cons.mp member with same | later
  · exact Or.inl same
  · exact Or.inr (List.rel_of_pairwise_cons sorted later)

/-- The first member carries the severity of its incident. -/
theorem Incident.Complete.carried {anomalies : List Anomaly} {i : Incident} (complete : i.Complete anomalies) :
    i.first.severity = i.severity := by
  obtain ⟨a, member, same⟩ := complete.attained
  have bound := complete.worst i.first i.first_mem
  rcases i.first_least complete.sorted a member with first | before
  · rw [← first, same]
  · have other := rank_of_bySeverity before
    rw [same] at other
    apply AnomalySeverity.rank_inj
    omega

theorem Incident.Holds.complete {anomalies : List Anomaly} {key : Text} {i : Incident}
    (holds : i.Holds anomalies key) : i.sorted.Complete anomalies where
  members := by
    have inside : ∀ a, a ∈ i.sorted.anomalies ↔ a ∈ anomalies ∧ incidentKey a = key := by
      intro a
      have same : a ∈ i.sorted.anomalies ↔ a ∈ i.anomalies := (sort_perm bySeverity i.anomalies).mem_iff
      rw [same, holds.members, List.mem_filter, decide_eq_true_eq]
    have first := ((inside i.sorted.first).mp i.sorted.first_mem).2
    rwa [first]
  target := fun a member => holds.target a ((sort_perm bySeverity i.anomalies).mem_iff.mp member)
  worst := fun a member => holds.worst a ((sort_perm bySeverity i.anomalies).mem_iff.mp member)
  attained := by
    obtain ⟨a, member, same⟩ := holds.attained
    exact ⟨a, (sort_perm bySeverity i.anomalies).mem_iff.mpr member, same⟩
  sorted := sort_pairwise bySeverity_orders i.anomalies

theorem unordered_complete {anomalies : List Anomaly} {i : Incident} (member : i ∈ unordered anomalies) :
    i.Complete anomalies := by
  obtain ⟨e, inMap, rfl⟩ := List.mem_map.mp member
  exact ((collected anomalies).holds e inMap).complete

theorem groupIncidents_complete {anomalies : List Anomaly} {i : Incident}
    (member : i ∈ groupIncidents anomalies) : i.Complete anomalies :=
  unordered_complete ((groupIncidents_perm anomalies).mem_iff.mp member)

theorem unordered_flatMap (anomalies : List Anomaly) :
    ((unordered anomalies).flatMap Incident.anomalies).Perm anomalies := by
  have done := collected anomalies
  have groups : ((anomalies.foldl addAnomaly []).flatMap fun e => e.2.anomalies) =
      ((anomalies.foldl addAnomaly []).map Prod.fst).flatMap fun key =>
        anomalies.filter fun a => incidentKey a = key := by
    rw [List.flatMap_map]
    apply List.flatMap_congr
    intro e member
    exact (done.holds e member).members
  have sorted : ((unordered anomalies).flatMap Incident.anomalies).Perm
      ((anomalies.foldl addAnomaly []).flatMap fun e => e.2.anomalies) := by
    rw [unordered, List.flatMap_map]
    exact List.Perm.flatMap_left _ fun e _ => sort_perm bySeverity e.2.anomalies
  rw [groups] at sorted
  exact sorted.trans (GroupBy.flatMap_filter_perm incidentKey _ done.distinct anomalies done.covered)

/-- An anomaly is in an incident, and all its incidents are one. -/
theorem unordered_one {anomalies : List Anomaly} {a : Anomaly} (member : a ∈ anomalies) :
    ∃! i, i ∈ unordered anomalies ∧ a ∈ i.anomalies := by
  have done := collected anomalies
  have inside : ∀ e ∈ anomalies.foldl addAnomaly [], a ∈ e.2.sorted.anomalies ↔ incidentKey a = e.1 := by
    intro e inMap
    have same : a ∈ e.2.sorted.anomalies ↔ a ∈ e.2.anomalies := (sort_perm bySeverity e.2.anomalies).mem_iff
    rw [same, (done.holds e inMap).members, List.mem_filter, decide_eq_true_eq]
    exact and_iff_right member
  obtain ⟨e, inMap, key⟩ := List.mem_map.mp (done.covered a member)
  refine ⟨e.2.sorted, ⟨List.mem_map_of_mem inMap, (inside e inMap).mpr key.symm⟩, ?_⟩
  rintro i ⟨inIncidents, holds⟩
  obtain ⟨e', inMap', rfl⟩ := List.mem_map.mp inIncidents
  have key' := (inside e' inMap').mp holds
  have same : e' = e := List.inj_on_of_nodup_map done.distinct inMap' inMap (key'.symm.trans key.symm)
  rw [same]

/-- On complete incidents the comparator is bySeverity of the first members. -/
theorem compareIncidents_eq {anomalies : List Anomaly} {x y : Incident} (hx : x.Complete anomalies)
    (hy : y.Complete anomalies) : compareIncidents x y = bySeverity x.first y.first := by
  rw [compareIncidents, bySeverity, hx.carried, hy.carried, (hx.target x.first x.first_mem).2.2,
    (hy.target y.first y.first_mem).2.2]

theorem groupIncidents_ordered (anomalies : List Anomaly) :
    (groupIncidents anomalies).Pairwise fun x y => bySeverity x.first y.first ≤ 0 := by
  have sorted := sort_pairwise compareIncidents_orders (unordered anomalies)
  refine sorted.imp_of_mem fun {x y} hx hy before => ?_
  rwa [compareIncidents_eq (groupIncidents_complete hx) (groupIncidents_complete hy)] at before

/-! Anomalies in the order of the API are grouped without any reordering. -/

theorem Incident.sorted_of_pairwise {i : Incident} (sorted : i.anomalies.Pairwise fun a b => bySeverity a b ≤ 0) :
    i.sorted = i := by
  have same := sort_of_sorted sorted
  obtain ⟨key, scope, workflow, bucketMs, severity, anomalies, nonempty⟩ := i
  simp only [Incident.sorted, Incident.mk.injEq, true_and]
  exact same

theorem unordered_of_pairwise {anomalies : List Anomaly}
    (inOrder : anomalies.Pairwise fun a b => bySeverity a b ≤ 0) :
    unordered anomalies = (anomalies.foldl addAnomaly []).map Prod.snd := by
  apply List.map_congr_left
  intro e member
  apply Incident.sorted_of_pairwise
  rw [((collected anomalies).holds e member).members]
  exact inOrder.filter _

theorem groupIncidents_of_pairwise {anomalies : List Anomaly}
    (inOrder : anomalies.Pairwise fun a b => bySeverity a b ≤ 0) :
    groupIncidents anomalies = unordered anomalies := by
  have firsts : (unordered anomalies).map Incident.first =
      (anomalies.foldl addAnomaly []).map fun e => e.2.first := by
    rw [unordered_of_pairwise inOrder, List.map_map]
    rfl
  have heads : ((unordered anomalies).map Incident.first).Pairwise fun a b => bySeverity a b ≤ 0 := by
    rw [firsts]
    exact inOrder.sublist (collected anomalies).order
  apply sort_of_sorted
  refine (List.pairwise_map.mp heads).imp_of_mem fun {x y} hx hy before => ?_
  rwa [compareIncidents_eq (unordered_complete hx) (unordered_complete hy)]

/-- The first member of an incident that holds its anomalies in input order. -/
theorem Incident.Holds.firstIn {anomalies : List Anomaly} {key : Text} {i : Incident}
    (holds : i.Holds anomalies key) : i.firstIn anomalies = some i.first := by
  have member := i.first_mem
  have target := holds.target i.first member
  rw [holds.members, List.mem_filter, decide_eq_true_eq] at member
  have same : ∀ a, decide (a.scope = i.scope ∧ a.workflow = i.workflow ∧ a.bucketMs = i.bucketMs) =
      decide (incidentKey a = key) := by
    intro a
    rw [decide_eq_decide, ← member.2, incidentKey_eq_iff, SameTarget, target.1, target.2.1, target.2.2]
  unfold Incident.firstIn
  simp only [same]
  rw [← List.head?_filter, ← holds.members, Incident.first]
  exact List.head?_eq_some_head i.nonempty

theorem groupIncidents_inInputOrder {anomalies : List Anomaly}
    (inOrder : anomalies.Pairwise fun a b => bySeverity a b ≤ 0) :
    ((groupIncidents anomalies).filterMap (Incident.firstIn anomalies)).Sublist anomalies := by
  have firsts : (groupIncidents anomalies).filterMap (Incident.firstIn anomalies) =
      (anomalies.foldl addAnomaly []).map fun e => e.2.first := by
    rw [groupIncidents_of_pairwise inOrder, unordered_of_pairwise inOrder, List.filterMap_map,
      ← List.filterMap_eq_map]
    apply List.filterMap_congr
    intro e member
    exact ((collected anomalies).holds e member).firstIn
  rw [firsts]
  exact (collected anomalies).order

theorem groupIncidents_grouped (anomalies : List Anomaly) : Grouped anomalies (groupIncidents anomalies) where
  perm := ((groupIncidents_perm anomalies).flatMap_right _).trans (unordered_flatMap anomalies)
  one := by
    intro a member
    simp only [(groupIncidents_perm anomalies).mem_iff]
    exact unordered_one member
  shared := by
    intro a ha b hb
    constructor
    · rintro ⟨i, inIncidents, left, right⟩
      have complete := groupIncidents_complete inIncidents
      obtain ⟨-, left⟩ := (complete.members a).mp left
      obtain ⟨-, right⟩ := (complete.members b).mp right
      exact (incidentKey_eq_iff a b).mp (left.trans right.symm)
    · intro same
      obtain ⟨i, ⟨inIncidents, member⟩, -⟩ := unordered_one ha
      have complete := unordered_complete inIncidents
      obtain ⟨-, key⟩ := (complete.members a).mp member
      have sameKey := (incidentKey_eq_iff a b).mpr same
      exact ⟨i, (groupIncidents_perm anomalies).mem_iff.mpr inIncidents, member,
        (complete.members b).mpr ⟨hb, sameKey.symm.trans key⟩⟩
  target := fun i member => (groupIncidents_complete member).target
  worst := fun i member => ⟨(groupIncidents_complete member).worst, (groupIncidents_complete member).attained⟩
  sorted := fun i member => (groupIncidents_complete member).sorted
  carried := fun i member => (groupIncidents_complete member).carried
  ordered := groupIncidents_ordered anomalies
  inInputOrder := fun inOrder => groupIncidents_inInputOrder inOrder.pairwise

end Tracium.Dashboard
