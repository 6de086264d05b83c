import Mathlib.Order.Defs.LinearOrder
import Tracium.Go.Compare
import Tracium.Query.AnomalySeries

/-! The version change an anomaly is attributed to: of its own workflow, or of the one that
carried the most of the metric that day. The daily aggregates are a Go map, listed in the
order one iteration takes. -/
namespace Tracium.Query

open Go

def versionLeadMs : Int := 24 * 60 * 60 * 1000

/-- byWorkflow; a day that is missing reads as zero. -/
abbrev ByWorkflow (α : Type) := List (Str × (Int → DailyAgg α))

section Model

variable {α : Type} [LinearOrder α] [Zero α] [Div α] (float64 : Int → α)

/-- The volume of a day; for the error rate its errored runs. -/
def carried (metric : Metric) (d : DailyAgg α) : α :=
  if metric = .errorRate then float64 d.errRuns else (metricValue float64 d metric).2

def topStep (bucketMs : Int) (metric : Metric) (best : Str × α) (e : Str × (Int → DailyAgg α)) : Str × α :=
  let share := carried float64 metric (e.2 bucketMs)
  if best.2 < share ∨ (share = best.2 ∧ 0 < share ∧ less e.1 best.1 = true) then (e.1, share) else best

def topWorkflow (byWorkflow : ByWorkflow α) (bucketMs : Int) (metric : Metric) : Str :=
  (byWorkflow.foldl (topStep float64 bucketMs metric) ([], 0)).1

/-- The inner loop, from the change it has so far. -/
def latestChange (bucketMs : Int) (workflow : Str) : List VersionChange → Option VersionChange → Option VersionChange
  | [], found => found
  | v :: rest, found =>
    if bucketMs < v.firstSeenMs then found
    else latestChange bucketMs workflow rest
      (if bucketMs - versionLeadMs ≤ v.firstSeenMs ∧ v.workflow = workflow then some v else found)

/-- The workflow the inner loop compares with. -/
def relevantWorkflow (byWorkflow : ByWorkflow α) (a : Anomaly α) : Str :=
  if a.scope = .workspace then topWorkflow float64 byWorkflow a.bucketMs a.metric else a.workflow

def startedNear (v : VersionChange) : Str :=
  lit " Started near " ++ v.workflow ++ lit " " ++ v.version ++ lit " (first seen " ++
    formatDate v.firstSeenMs ++ lit ")."

/-- The loop body of attachVersionChanges. -/
def attachVersionChange (changes : List VersionChange) (byWorkflow : ByWorkflow α) (a : Anomaly α) : Anomaly α :=
  let change := latestChange a.bucketMs (relevantWorkflow float64 byWorkflow a) changes a.versionChange
  { a with versionChange := change, summary := a.summary ++ (change.map startedNear).getD [] }

def attachVersionChanges (anomalies : List (Anomaly α)) (changes : List VersionChange)
    (byWorkflow : ByWorkflow α) : List (Anomaly α) :=
  anomalies.map (attachVersionChange float64 changes byWorkflow)

/-! What it is for. -/

/-- Carried the most, and none that carried as much comes before it. -/
def IsTop (byWorkflow : ByWorkflow α) (bucketMs : Int) (metric : Metric) (name : Str) : Prop :=
  ∃ e ∈ byWorkflow, e.1 = name ∧ 0 < carried float64 metric (e.2 bucketMs) ∧
    ∀ o ∈ byWorkflow, carried float64 metric (o.2 bucketMs) < carried float64 metric (e.2 bucketMs) ∨
      (carried float64 metric (o.2 bucketMs) = carried float64 metric (e.2 bucketMs) ∧ less o.1 name = false)

/-- The workflow whose change is looked for. -/
inductive Relevant (byWorkflow : ByWorkflow α) (a : Anomaly α) : Option Str → Prop
  | own : a.scope = .workflow → Relevant byWorkflow a (some a.workflow)
  | top {name : Str} : a.scope = .workspace → IsTop float64 byWorkflow a.bucketMs a.metric name →
      Relevant byWorkflow a (some name)
  | nobody : a.scope = .workspace → (∀ e ∈ byWorkflow, ¬ 0 < carried float64 a.metric (e.2 a.bucketMs)) →
      Relevant byWorkflow a none

/-- The changes of a workflow on the bucket's day or within the day before. -/
def nearChanges (changes : List VersionChange) (bucketMs : Int) (workflow : Str) : List VersionChange :=
  changes.filter fun v => bucketMs - versionLeadMs ≤ v.firstSeenMs ∧ v.firstSeenMs ≤ bucketMs ∧ v.workflow = workflow

/-- What becomes of one anomaly. -/
structure Attributed (changes : List VersionChange) (byWorkflow : ByWorkflow α) (a b : Anomaly α) : Prop where
  change : ∃ workflow, Relevant float64 byWorkflow a workflow ∧
    b.versionChange = workflow.bind fun name => (nearChanges changes a.bucketMs name).getLast?
  kept : b = { a with versionChange := b.versionChange, summary := b.summary }

end Model

section Top

variable {α : Type} [LinearOrder α] [Zero α] [Div α] {float64 : Int → α} {bucketMs : Int} {metric : Metric}

/-- After some of the entries: nobody carried anything, or the best so far is on top. -/
def Best (float64 : Int → α) (bucketMs : Int) (metric : Metric) (done : ByWorkflow α) (best : Str × α) : Prop :=
  (best = ([], 0) ∧ ∀ o ∈ done, ¬ 0 < carried float64 metric (o.2 bucketMs)) ∨
    ∃ e ∈ done, best = (e.1, carried float64 metric (e.2 bucketMs)) ∧ 0 < best.2 ∧
      ∀ o ∈ done, carried float64 metric (o.2 bucketMs) < best.2 ∨
        (carried float64 metric (o.2 bucketMs) = best.2 ∧ less o.1 best.1 = false)

/-- An entry that takes the lead, by its share or by its name, is on top. -/
theorem Best.lead {done : ByWorkflow α} {best : Str × α} (b : Best float64 bucketMs metric done best)
    {e : Str × (Int → DailyAgg α)} (leads : best.2 < carried float64 metric (e.2 bucketMs) ∨
      (carried float64 metric (e.2 bucketMs) = best.2 ∧ 0 < carried float64 metric (e.2 bucketMs) ∧
        less e.1 best.1 = true)) :
    Best float64 bucketMs metric (done ++ [e]) (e.1, carried float64 metric (e.2 bucketMs)) := by
  right
  refine ⟨e, List.mem_append_right _ (List.mem_singleton_self e), rfl, ?_, ?_⟩
  · rcases leads with more | ⟨_, positive, _⟩
    · rcases b with ⟨rfl, _⟩ | ⟨_, _, _, positive, _⟩
      · exact more
      · exact positive.trans more
    · exact positive
  · intro o member
    rcases List.mem_append.mp member with earlier | here
    · rcases leads with more | ⟨tie, positive, first⟩
      · left
        rcases b with ⟨rfl, nobody⟩ | ⟨_, _, _, _, below⟩
        · exact (not_lt.mp (nobody o earlier)).trans_lt more
        · rcases below o earlier with less' | ⟨same, _⟩
          · exact less'.trans more
          · exact same.trans_lt more
      · rcases b with ⟨rfl, _⟩ | ⟨_, _, _, _, below⟩
        · exact absurd (tie ▸ positive) (lt_irrefl _)
        · rcases below o earlier with less' | ⟨same, notFirst⟩
          · exact .inl (less'.trans_eq tie.symm)
          · right
            refine ⟨same.trans tie.symm, ?_⟩
            by_contra before
            rw [less_trans (Bool.eq_true_of_not_eq_false before) first] at notFirst
            cases notFirst
    · obtain rfl := List.mem_singleton.mp here
      exact .inr ⟨rfl, less_irrefl _⟩

/-- An entry that stays behind changes nothing. -/
theorem Best.keep {done : ByWorkflow α} {best : Str × α} (b : Best float64 bucketMs metric done best)
    {e : Str × (Int → DailyAgg α)} (notMore : ¬best.2 < carried float64 metric (e.2 bucketMs))
    (notTie : ¬(carried float64 metric (e.2 bucketMs) = best.2 ∧
      0 < carried float64 metric (e.2 bucketMs) ∧ less e.1 best.1 = true)) :
    Best float64 bucketMs metric (done ++ [e]) best := by
  rcases b with ⟨rfl, nobody⟩ | ⟨top, member, same, positive, below⟩
  · left
    refine ⟨rfl, ?_⟩
    intro o member
    rcases List.mem_append.mp member with earlier | here
    · exact nobody o earlier
    · obtain rfl := List.mem_singleton.mp here
      exact notMore
  · right
    refine ⟨top, List.mem_append_left _ member, same, positive, ?_⟩
    intro o member
    rcases List.mem_append.mp member with earlier | here
    · exact below o earlier
    · obtain rfl := List.mem_singleton.mp here
      rcases lt_or_eq_of_le (not_lt.mp notMore) with less' | tie
      · exact .inl less'
      · right
        refine ⟨tie, ?_⟩
        by_contra before
        exact notTie ⟨tie, tie ▸ positive, Bool.eq_true_of_not_eq_false before⟩

theorem topStep_best {done : ByWorkflow α} {best : Str × α} (b : Best float64 bucketMs metric done best)
    (e : Str × (Int → DailyAgg α)) :
    Best float64 bucketMs metric (done ++ [e]) (topStep float64 bucketMs metric best e) := by
  simp only [topStep]
  split
  · rename_i leads
    exact b.lead leads
  · rename_i behind
    obtain ⟨notMore, notTie⟩ := not_or.mp behind
    exact b.keep notMore notTie

theorem topWorkflow_best (float64 : Int → α) (bucketMs : Int) (metric : Metric) (byWorkflow : ByWorkflow α) :
    Best float64 bucketMs metric byWorkflow (byWorkflow.foldl (topStep float64 bucketMs metric) ([], 0)) := by
  induction byWorkflow using List.reverseRecOn with
  | nil => exact .inl ⟨rfl, by simp⟩
  | append_singleton done e ih =>
    rw [List.foldl_concat]
    exact topStep_best ih e

theorem topWorkflow_cases (float64 : Int → α) (bucketMs : Int) (metric : Metric) (byWorkflow : ByWorkflow α) :
    IsTop float64 byWorkflow bucketMs metric (topWorkflow float64 byWorkflow bucketMs metric) ∨
      (topWorkflow float64 byWorkflow bucketMs metric = [] ∧
        ∀ e ∈ byWorkflow, ¬ 0 < carried float64 metric (e.2 bucketMs)) := by
  rcases topWorkflow_best float64 bucketMs metric byWorkflow with
    ⟨best, nobody⟩ | ⟨e, member, best, positive, below⟩
  · exact .inr ⟨congrArg Prod.fst best, nobody⟩
  · left
    rw [best] at positive below
    exact ⟨e, member, (congrArg Prod.fst best).symm, positive, fun o inMap => by
      rw [topWorkflow, best]
      exact below o inMap⟩

/-- There is one top at most. -/
theorem IsTop.unique {byWorkflow : ByWorkflow α} {name name' : Str}
    (top : IsTop float64 byWorkflow bucketMs metric name)
    (top' : IsTop float64 byWorkflow bucketMs metric name') : name = name' := by
  obtain ⟨e, member, rfl, _, below⟩ := top
  obtain ⟨e', member', rfl, _, below'⟩ := top'
  rcases below e' member' with less' | ⟨tie, notFirst⟩
  · rcases below' e member with more | ⟨same, _⟩
    · exact absurd (less'.trans more) (lt_irrefl _)
    · exact absurd (same ▸ less') (lt_irrefl _)
  · rcases below' e member with more | ⟨_, notFirst'⟩
    · exact absurd (tie ▸ more) (lt_irrefl _)
    · rcases less_trichotomy e.1 e'.1 with before | same | after
      · exact absurd (before.symm.trans notFirst') (by simp)
      · exact same
      · exact absurd (after.symm.trans notFirst) (by simp)

theorem topWorkflow_perm {byWorkflow byWorkflow' : ByWorkflow α} (perm : byWorkflow'.Perm byWorkflow) :
    topWorkflow float64 byWorkflow' bucketMs metric = topWorkflow float64 byWorkflow bucketMs metric := by
  rcases topWorkflow_cases float64 bucketMs metric byWorkflow with
    top | ⟨none, nobody⟩
  · rcases topWorkflow_cases float64 bucketMs metric byWorkflow' with
      top' | ⟨_, nobody'⟩
    · obtain ⟨e, member, same, positive, below⟩ := top'
      exact IsTop.unique ⟨e, perm.mem_iff.mp member, same, positive, fun o inMap => below o (perm.mem_iff.mpr inMap)⟩ top
    · obtain ⟨e, member, _, positive, _⟩ := top
      exact absurd positive (nobody' e (perm.mem_iff.mpr member))
  · rcases topWorkflow_cases float64 bucketMs metric byWorkflow' with
      ⟨e, member, _, positive, _⟩ | ⟨none', _⟩
    · exact absurd positive (nobody e (perm.mem_iff.mp member))
    · exact none'.trans none.symm

end Top

/-! The changes near a bucket. -/

/-- On changes in ascending order the break loses nothing, and the last match stays. -/
theorem latestChange_eq {changes : List VersionChange}
    (sorted : changes.Pairwise fun v w => v.firstSeenMs ≤ w.firstSeenMs) (bucketMs : Int) (workflow : Str)
    (found : Option VersionChange) :
    latestChange bucketMs workflow changes found = ((nearChanges changes bucketMs workflow).getLast?).or found := by
  induction changes generalizing found with
  | nil => rfl
  | cons v rest ih =>
    obtain ⟨first, sorted⟩ := List.pairwise_cons.mp sorted
    rw [latestChange]
    by_cases late : bucketMs < v.firstSeenMs
    · have none : nearChanges (v :: rest) bucketMs workflow = [] := by
        apply List.filter_eq_nil_iff.mpr
        intro w member
        have after : bucketMs < w.firstSeenMs := by
          rcases List.mem_cons.mp member with rfl | later
          · exact late
          · exact late.trans_le (first w later)
        simp [not_le.mpr after]
      rw [if_pos late, none]
      rfl
    · rw [if_neg late, ih sorted]
      by_cases near : bucketMs - versionLeadMs ≤ v.firstSeenMs ∧ v.workflow = workflow
      · have kept : nearChanges (v :: rest) bucketMs workflow = v :: nearChanges rest bucketMs workflow := by
          apply List.filter_cons_of_pos
          exact decide_eq_true ⟨near.1, not_lt.mp late, near.2⟩
        rw [if_pos near, kept, List.getLast?_cons]
        cases (nearChanges rest bucketMs workflow).getLast? <;> rfl
      · have dropped : nearChanges (v :: rest) bucketMs workflow = nearChanges rest bucketMs workflow := by
          apply List.filter_cons_of_neg
          simpa using fun lead _ same => near ⟨lead, same⟩
        rw [if_neg near, dropped]

theorem nearChanges_nil {changes : List VersionChange} (named : ∀ v ∈ changes, v.workflow ≠ [])
    (bucketMs : Int) : nearChanges changes bucketMs [] = [] := by
  apply List.filter_eq_nil_iff.mpr
  intro v member
  simp [named v member]

section Attach

variable {α : Type} [LinearOrder α] [Zero α] [Div α] {float64 : Int → α} {changes : List VersionChange}
  {byWorkflow : ByWorkflow α}

theorem attributed (sorted : changes.Pairwise fun v w => v.firstSeenMs ≤ w.firstSeenMs)
    (named : ∀ v ∈ changes, v.workflow ≠ []) {a : Anomaly α} (fresh : a.versionChange = none) :
    Attributed float64 changes byWorkflow a (attachVersionChange float64 changes byWorkflow a) := by
  refine ⟨?_, rfl⟩
  have change : (attachVersionChange float64 changes byWorkflow a).versionChange =
      (nearChanges changes a.bucketMs (relevantWorkflow float64 byWorkflow a)).getLast? := by
    rw [attachVersionChange, latestChange_eq sorted, fresh, Option.or_none]
  rw [change, relevantWorkflow]
  cases scope : a.scope with
  | workflow => exact ⟨_, .own scope, rfl⟩
  | workspace =>
    rw [if_pos rfl]
    rcases topWorkflow_cases float64 a.bucketMs a.metric byWorkflow with
      top | ⟨none, nobody⟩
    · exact ⟨_, .top scope top, rfl⟩
    · refine ⟨_, .nobody scope nobody, ?_⟩
      rw [none, nearChanges_nil named]
      rfl

/-- Changes in ascending order, of named workflows: every anomaly gets the last near change
of its relevant workflow, in whatever order the map is read, and no field but its summary
changes besides. -/
theorem attachVersionChanges_spec (float64 : Int → α) (anomalies : List (Anomaly α))
    (changes : List VersionChange) (byWorkflow : ByWorkflow α)
    (sorted : changes.Pairwise fun v w => v.firstSeenMs ≤ w.firstSeenMs)
    (named : ∀ v ∈ changes, v.workflow ≠ []) (fresh : ∀ a ∈ anomalies, a.versionChange = none) :
    List.Forall₂ (Attributed float64 changes byWorkflow) anomalies
      (attachVersionChanges float64 anomalies changes byWorkflow) ∧
    ∀ byWorkflow' : ByWorkflow α, byWorkflow'.Perm byWorkflow →
      attachVersionChanges float64 anomalies changes byWorkflow' =
        attachVersionChanges float64 anomalies changes byWorkflow := by
  constructor
  · rw [attachVersionChanges, List.forall₂_map_right_iff, List.forall₂_same]
    intro a member
    exact attributed sorted named (fresh a member)
  · intro byWorkflow' perm
    apply List.map_congr_left
    intro a _
    have same : relevantWorkflow float64 byWorkflow' a = relevantWorkflow float64 byWorkflow a := by
      rw [relevantWorkflow, relevantWorkflow, topWorkflow_perm perm]
    rw [attachVersionChange, attachVersionChange, same]

end Attach

/-- A planner's release on the day before a dear one. -/
def plannerReleases : List VersionChange :=
  [⟨lit "planner", lit "v2", 864000000⟩, ⟨lit "planner", lit "v3", 950400000⟩]

def plannerDay : ByWorkflow ℚ :=
  [(lit "planner", fun _ => ⟨9, 10, 0⟩), (lit "rewrite-message", fun _ => ⟨1, 40, 0⟩)]

def dearDay : Anomaly ℚ :=
  ⟨.cost, .workspace, [], 950400000, 10, 1, 9, 6, .spike, .critical, lit "x.", none⟩

example : (attachVersionChange count plannerReleases plannerDay dearDay).summary =
    lit "x. Started near planner v3 (first seen 1970-01-12)." := by
  decide +kernel

theorem attachVersionChanges_spec_planner :
    (∀ v ∈ plannerReleases, v.workflow ≠ []) ∧
      List.Forall₂ (Attributed count plannerReleases plannerDay) [dearDay]
        (attachVersionChanges count [dearDay] plannerReleases plannerDay) := by
  have named : ∀ v ∈ plannerReleases, v.workflow ≠ [] := by
    intro v member
    rcases List.mem_pair.mp member with rfl | rfl <;> decide
  exact ⟨named, (attachVersionChanges_spec count [dearDay] plannerReleases plannerDay (by decide) named
    (by simp [dearDay])).1⟩

end Tracium.Query
