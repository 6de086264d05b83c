import Mathlib.Data.List.Basic

/-! The detector behind the anomaly queries, over any arithmetic: what it says of a point
depends on that point and the few before it, and nothing it has said is taken back. -/
namespace Tracium.Anomaly

inductive Direction where
  | spike
  | drop
  deriving DecidableEq

inductive Severity where
  | none
  | info
  | warning
  | critical
  deriving DecidableEq

structure Point (α : Type) where
  bucketMs : Int
  value : α
  support : α
  deriving DecidableEq

/-- BaselineDays is a length here; on a negative one the source's slice panics. -/
structure Options (α : Type) where
  baselineDays : Nat
  (minBaseline minBaselineActive : Int)
  detectFromMs : Int
  (zInfo zWarning zCritical : α)
  (absFloor volumeFloor : α)
  (spike drop : Bool)

structure Result (α : Type) where
  bucketMs : Int
  (observed expected deviation score : α)
  direction : Direction
  severity : Severity
  deriving DecidableEq

/-- math.Abs, math.Copysign, sort.Float64s and the constant 1.4826 of the arithmetic. -/
structure Math (α : Type) where
  abs : α → α
  copysign : α → α → α
  float64s : List α → List α
  scale : α

section Model

variable {α : Type} [Zero α] [OfNat α 2] [Add α] [Sub α] [Mul α] [Div α] [LT α] [LE α]
  [DecidableLT α] [DecidableLE α] (m : Math α)

def medianOf (xs : List α) : α :=
  let n := xs.length
  let s := m.float64s xs
  if n = 0 then 0
  else if n % 2 = 1 then s.getD (n / 2) 0
  else (s.getD (n / 2 - 1) 0 + s.getD (n / 2) 0) / 2

def median (pts : List (Point α)) : α := medianOf m (pts.map Point.value)

def mad (pts : List (Point α)) (med : α) : α := medianOf m (pts.map fun p => m.abs (p.value - med))

def activePoints (base : List (Point α)) : List (Point α) := base.filter fun p => 0 < p.support

def medianSupport (base : List (Point α)) : α := medianOf m (base.map Point.support)

def severity (absZ : α) (o : Options α) : Severity :=
  if o.zCritical ≤ absZ then .critical
  else if o.zWarning ≤ absZ then .warning
  else if o.zInfo ≤ absZ then .info
  else .none

/-- `series[lo:i]`, of the points before index i. -/
def baseline (o : Options α) (before : List (Point α)) : List (Point α) :=
  before.drop (before.length - o.baselineDays)

/-- The direction's volume: the candidate's own for a spike, the baseline's for a drop. -/
def supportFor (dir : Direction) (p : Point α) (active : List (Point α)) : α :=
  match dir with
  | .spike => p.support
  | .drop => medianSupport m active

def directionOf (dev : α) : Direction := if dev < 0 then .drop else .spike

def Options.enables (o : Options α) : Direction → Bool
  | .spike => o.spike
  | .drop => o.drop

/-- The score of a deviation that has cleared the floors. -/
def robustZ (o : Options α) (active : List (Point α)) (med dev : α) : α :=
  let sigma := m.scale * mad m active med
  if 0 < sigma then dev / sigma else m.copysign o.zCritical dev

/-- The loop body once the baseline is trusted. -/
def scoreAgainst (o : Options α) (active : List (Point α)) (p : Point α) : Option (Result α) :=
  let med := median m active
  let dev := p.value - med
  let dir := directionOf dev
  if !o.enables dir then none
  else if supportFor m dir p active < o.volumeFloor then none
  else if m.abs dev < o.absFloor then none
  else
    let z := robustZ m o active med dev
    let sev := severity (m.abs z) o
    if sev = .none then none
    else some ⟨p.bucketMs, p.value, med, dev, z, dir, sev⟩

/-- The loop body at p, given the points before it. -/
def detectAt (o : Options α) (before : List (Point α)) (p : Point α) : Option (Result α) :=
  if p.bucketMs < o.detectFromMs then none
  else
    let base := baseline o before
    if (base.length : Int) < o.minBaseline then none
    else
      let active := activePoints base
      if (active.length : Int) < o.minBaselineActive then none
      else scoreAgainst m o active p

/-- The loop from the point after `before` on. -/
def detectFrom (o : Options α) : List (Point α) → List (Point α) → List (Result α)
  | _, [] => []
  | before, p :: rest => (detectAt m o before p).toList ++ detectFrom o (before ++ [p]) rest

def detect (series : List (Point α)) (o : Options α) : List (Result α) := detectFrom m o [] series

/-- The run over the series reports r at p, or nothing where r is none. -/
def ReportedAs (o : Options α) (before : List (Point α)) (p : Point α) (after : List (Point α))
    (r : Option (Result α)) : Prop :=
  detect m (before ++ p :: after) o = detect m before o ++ r.toList ++ detectFrom m o (before ++ [p]) after

/-- The results of some of the points, in their order, none from before the window. -/
def ReportsOf (o : Options α) (points : List (Point α)) (results : List (Result α)) : Prop :=
  (∃ reported : List (Point α), reported.Sublist points ∧
    results.map (fun r => (r.bucketMs, r.observed)) = reported.map fun p => (p.bucketMs, p.value)) ∧
  ∀ r ∈ results, o.detectFromMs ≤ r.bucketMs

end Model

/-- The baseline reaches back no further than its length. -/
theorem baseline_append {α : Type} {o : Options α} {far near : List (Point α)} (enough : o.baselineDays ≤ near.length) :
    baseline o (far ++ near) = baseline o near := by
  have skip : (far ++ near).length - o.baselineDays = far.length + (near.length - o.baselineDays) := by
    rw [List.length_append]
    omega
  rw [baseline, skip, List.drop_append, baseline]
  simp

section Runs

variable {α : Type} [Zero α] [OfNat α 2] [Add α] [Sub α] [Mul α] [Div α] [LT α] [LE α]
  [DecidableLT α] [DecidableLE α] {m : Math α} {o : Options α}

theorem detectFrom_append (before s t : List (Point α)) :
    detectFrom m o before (s ++ t) = detectFrom m o before s ++ detectFrom m o (before ++ s) t := by
  induction s generalizing before with
  | nil => simp [detectFrom]
  | cons p s ih =>
    rw [List.cons_append, detectFrom, detectFrom, ih, List.append_assoc, List.append_assoc]
    rfl

theorem detect_append (s t : List (Point α)) :
    detect m (s ++ t) o = detect m s o ++ detectFrom m o s t := by
  rw [detect, detect, detectFrom_append, List.nil_append]

/-- A run reports at a point what the loop body gives for it. -/
theorem reportedAs_iff {before after : List (Point α)} {p : Point α} {r : Option (Result α)} :
    ReportedAs m o before p after r ↔ r = detectAt m o before p := by
  have run : detect m (before ++ p :: after) o =
      detect m before o ++ (detectAt m o before p).toList ++ detectFrom m o (before ++ [p]) after := by
    rw [detect_append, detectFrom, List.append_assoc]
  rw [ReportedAs, run, List.append_left_inj, List.append_right_inj]
  cases r <;> cases detectAt m o before p <;> simp [eq_comm]

/-- A report is of a deviation in an enabled direction that clears both floors and the
lowest threshold. -/
theorem scoreAgainst_eq_some {active : List (Point α)} {p : Point α} {r : Result α} :
    scoreAgainst m o active p = some r ↔
      o.enables (directionOf (p.value - median m active)) = true ∧
      ¬ supportFor m (directionOf (p.value - median m active)) p active < o.volumeFloor ∧
      ¬ m.abs (p.value - median m active) < o.absFloor ∧
      severity (m.abs (robustZ m o active (median m active) (p.value - median m active))) o ≠ .none ∧
      r = ⟨p.bucketMs, p.value, median m active, p.value - median m active,
        robustZ m o active (median m active) (p.value - median m active),
        directionOf (p.value - median m active),
        severity (m.abs (robustZ m o active (median m active) (p.value - median m active))) o⟩ := by
  simp only [scoreAgainst, Option.ite_none_left_eq_some, Option.some.injEq, Bool.not_eq_true',
    Bool.not_eq_false, eq_comm (a := r)]

/-- A point is scored when it is in the window and the baseline is long and active enough. -/
def Scored (o : Options α) (before : List (Point α)) (p : Point α) : Prop :=
  o.detectFromMs ≤ p.bucketMs ∧ o.minBaseline ≤ (baseline o before).length ∧
    o.minBaselineActive ≤ (activePoints (baseline o before)).length

theorem detectAt_eq_some {before : List (Point α)} {p : Point α} {r : Result α} :
    detectAt m o before p = some r ↔
      Scored o before p ∧ scoreAgainst m o (activePoints (baseline o before)) p = some r := by
  simp only [detectAt, Option.ite_none_left_eq_some, Scored, Int.not_lt, and_assoc]

theorem detectAt_some {before : List (Point α)} {p : Point α} {r : Result α}
    (reported : detectAt m o before p = some r) :
    r.bucketMs = p.bucketMs ∧ r.observed = p.value ∧ o.detectFromMs ≤ p.bucketMs := by
  obtain ⟨⟨inWindow, _, _⟩, scored⟩ := detectAt_eq_some.mp reported
  obtain ⟨_, _, _, _, rfl⟩ := scoreAgainst_eq_some.mp scored
  exact ⟨rfl, rfl, inWindow⟩

theorem detectFrom_reportsOf (before points : List (Point α)) :
    ReportsOf o points (detectFrom m o before points) := by
  induction points generalizing before with
  | nil => exact ⟨⟨[], List.Sublist.refl _, rfl⟩, by simp [detectFrom]⟩
  | cons p rest ih =>
    obtain ⟨⟨reported, sub, same⟩, inWindow⟩ := ih (before ++ [p])
    rw [detectFrom]
    cases here : detectAt m o before p with
    | none => exact ⟨⟨reported, sub.cons p, same⟩, inWindow⟩
    | some r =>
      obtain ⟨bucket, observed, late⟩ := detectAt_some here
      refine ⟨⟨p :: reported, sub.cons_cons p, ?_⟩, ?_⟩
      · rw [Option.toList_some, List.singleton_append, List.map_cons, List.map_cons, same, bucket, observed]
      · intro q member
        rcases List.mem_cons.mp member with rfl | later
        · exact bucket ▸ late
        · exact inWindow q later

theorem detectAt_far (far far' : List (Point α)) {near : List (Point α)} (enough : o.baselineDays ≤ near.length) (p : Point α) :
    detectAt m o (far ++ near) p = detectAt m o (far' ++ near) p := by
  simp only [detectAt, baseline_append enough]

/-- Whatever the arithmetic: the results of a series stay when it goes on; a point's result
is settled by the baseline's length of points before it; and the results are those of points
of the series in order, from the window's start. -/
theorem detect_causal_local (m : Math α) (o : Options α) :
    (∀ s t, ∃ later, detect m (s ++ t) o = detect m s o ++ later ∧ ReportsOf o t later) ∧
      (∀ near, o.baselineDays ≤ near.length → ∀ p, ∃ r, ∀ far after, ReportedAs m o (far ++ near) p after r) ∧
      ∀ s, ReportsOf o s (detect m s o) := by
  refine ⟨?_, ?_, ?_⟩
  · intro s t
    exact ⟨detectFrom m o s t, detect_append s t, detectFrom_reportsOf s t⟩
  · intro near enough p
    refine ⟨detectAt m o near p, ?_⟩
    intro far after
    rw [reportedAs_iff]
    exact detectAt_far [] far enough p
  · intro s
    exact detectFrom_reportsOf [] s

end Runs

end Tracium.Anomaly
