import Mathlib.Algebra.Order.Field.Rat
import Tracium.Anomaly.Detect
import Tracium.OrderStatistics

/-! The detector in exact arithmetic: a worse deviation is not reported as a milder one, and
a minority of the active days does not move the baseline. -/
namespace Tracium.Anomaly

def exact : Math ℚ where
  abs x := |x|
  copysign f sign := if sign < 0 then -|f| else |f|
  float64s := List.insertionSort (· ≤ ·)
  scale := 1.4826

def Severity.rank : Severity → Nat
  | .none => 0
  | .info => 1
  | .warning => 2
  | .critical => 3

theorem medianOf_exact (xs : List ℚ) : medianOf exact xs = OrderStatistics.median xs := rfl

variable {o : Options ℚ}

theorem severity_mono {a b : ℚ} (le : a ≤ b) : (severity a o).rank ≤ (severity b o).rank := by
  by_cases critical : o.zCritical ≤ b
  · have most : severity b o = .critical := if_pos critical
    rw [most]
    cases severity a o <;> decide
  · have critical' : ¬ o.zCritical ≤ a := fun reached => critical (reached.trans le)
    rw [severity, severity, if_neg critical, if_neg critical']
    by_cases warning : o.zWarning ≤ b
    · rw [if_pos warning]
      split_ifs <;> decide
    · have warning' : ¬ o.zWarning ≤ a := fun reached => warning (reached.trans le)
      rw [if_neg warning, if_neg warning']
      by_cases info : o.zInfo ≤ b
      · rw [if_pos info]
        split_ifs <;> decide
      · have info' : ¬ o.zInfo ≤ a := fun reached => info (reached.trans le)
        rw [if_neg info, if_neg info']

theorem ne_none_of_rank {s t : Severity} (le : s.rank ≤ t.rank) (some : s ≠ .none) : t ≠ .none := by
  rintro rfl
  cases s
  · exact some rfl
  · cases le
  · cases le
  · cases le

section Worse

variable {dev dev' : ℚ}

theorem directionOf_spike : directionOf dev = .spike ↔ 0 ≤ dev := by
  rw [directionOf]
  by_cases neg : dev < 0
  · simp [neg]
  · simp [neg, not_lt.mp neg]

theorem directionOf_drop : directionOf dev = .drop ↔ dev < 0 := by
  rw [directionOf]
  by_cases neg : dev < 0
  · simp [neg]
  · simp [neg]

/-- Above the median the score grows with the deviation, on a flat baseline too. -/
theorem robustZ_spike (o : Options ℚ) (active : List (Point ℚ)) (med : ℚ) (nonneg : 0 ≤ dev) (le : dev ≤ dev') :
    0 ≤ robustZ exact o active med dev ∧
      robustZ exact o active med dev ≤ robustZ exact o active med dev' := by
  rw [robustZ, robustZ]
  by_cases spread : 0 < exact.scale * mad exact active med
  · rw [if_pos spread, if_pos spread]
    exact ⟨div_nonneg nonneg spread.le, div_le_div_of_nonneg_right le spread.le⟩
  · have sign : ¬ dev < 0 := not_lt.mpr nonneg
    have sign' : ¬ dev' < 0 := not_lt.mpr (nonneg.trans le)
    rw [if_neg spread, if_neg spread]
    simp only [exact, sign, sign', ↓reduceIte, le_refl, and_true]
    exact abs_nonneg _

theorem robustZ_drop (o : Options ℚ) (active : List (Point ℚ)) (med : ℚ) (neg : dev < 0) (le : dev' ≤ dev) :
    robustZ exact o active med dev ≤ 0 ∧
      robustZ exact o active med dev' ≤ robustZ exact o active med dev := by
  rw [robustZ, robustZ]
  by_cases spread : 0 < exact.scale * mad exact active med
  · rw [if_pos spread, if_pos spread]
    exact ⟨div_nonpos_of_nonpos_of_nonneg neg.le spread.le, div_le_div_of_nonneg_right le spread.le⟩
  · have neg' : dev' < 0 := le.trans_lt neg
    rw [if_neg spread, if_neg spread]
    simp only [exact, neg, neg', ↓reduceIte, le_refl, and_true]
    exact neg_nonpos.mpr (abs_nonneg _)

variable {active : List (Point ℚ)} {p p' : Point ℚ} {r : Result ℚ}

theorem scoreAgainst_spike (reported : scoreAgainst exact o active p = some r) (spike : r.direction = .spike)
    (value : p.value ≤ p'.value) (support : p.support ≤ p'.support) :
    ∃ r', scoreAgainst exact o active p' = some r' ∧ r'.direction = .spike ∧
      r.severity.rank ≤ r'.severity.rank ∧ r.score ≤ r'.score := by
  obtain ⟨enabled, volume, floor, some, rfl⟩ := scoreAgainst_eq_some.mp reported
  have dir : directionOf (p.value - median exact active) = .spike := spike
  have nonneg : 0 ≤ p.value - median exact active := directionOf_spike.mp dir
  have le : p.value - median exact active ≤ p'.value - median exact active := sub_le_sub_right value _
  have spike' : directionOf (p'.value - median exact active) = .spike :=
    directionOf_spike.mpr (nonneg.trans le)
  obtain ⟨zNonneg, zLe⟩ := robustZ_spike o active (median exact active) nonneg le
  have absLe : exact.abs (robustZ exact o active (median exact active) (p.value - median exact active)) ≤
      exact.abs (robustZ exact o active (median exact active) (p'.value - median exact active)) :=
    abs_le_abs_of_nonneg zNonneg zLe
  have rank := severity_mono (o := o) absLe
  rw [dir] at enabled volume
  refine ⟨_, scoreAgainst_eq_some.mpr ⟨?_, ?_, ?_, ne_none_of_rank rank some, rfl⟩, spike', rank, zLe⟩
  · rw [spike']
    exact enabled
  · rw [spike']
    exact not_lt.mpr ((not_lt.mp volume).trans support)
  · exact not_lt.mpr ((not_lt.mp floor).trans (abs_le_abs_of_nonneg nonneg le))

theorem scoreAgainst_drop (reported : scoreAgainst exact o active p = some r) (drop : r.direction = .drop)
    (value : p'.value ≤ p.value) :
    ∃ r', scoreAgainst exact o active p' = some r' ∧ r'.direction = .drop ∧
      r.severity.rank ≤ r'.severity.rank ∧ r'.score ≤ r.score := by
  obtain ⟨enabled, volume, floor, some, rfl⟩ := scoreAgainst_eq_some.mp reported
  have dir : directionOf (p.value - median exact active) = .drop := drop
  have neg : p.value - median exact active < 0 := directionOf_drop.mp dir
  have le : p'.value - median exact active ≤ p.value - median exact active := sub_le_sub_right value _
  have drop' : directionOf (p'.value - median exact active) = .drop :=
    directionOf_drop.mpr (le.trans_lt neg)
  obtain ⟨zNeg, zLe⟩ := robustZ_drop o active (median exact active) neg le
  have absLe : exact.abs (robustZ exact o active (median exact active) (p.value - median exact active)) ≤
      exact.abs (robustZ exact o active (median exact active) (p'.value - median exact active)) :=
    abs_le_abs_of_nonpos zNeg zLe
  have rank := severity_mono (o := o) absLe
  rw [dir] at enabled volume
  refine ⟨_, scoreAgainst_eq_some.mpr ⟨?_, ?_, ?_, ne_none_of_rank rank some, rfl⟩, drop', rank, zLe⟩
  · rw [drop']
    exact enabled
  · rw [drop']
    exact volume
  · exact not_lt.mpr ((not_lt.mp floor).trans (abs_le_abs_of_nonpos neg.le le))

end Worse

/-- A point further from the median, with everything else as it was, is still reported, no
milder and, for a spike, with no lower a score. The Support of a spike must not fall. -/
theorem worse_not_milder (o : Options ℚ) (before after : List (Point ℚ)) (p p' : Point ℚ) (r : Result ℚ)
    (bucket : p'.bucketMs = p.bucketMs) (reported : ReportedAs exact o before p after (some r)) :
    (r.direction = .spike → p.value ≤ p'.value → p.support ≤ p'.support →
      ∃ r', ReportedAs exact o before p' after (some r') ∧ r'.direction = .spike ∧
        r.severity.rank ≤ r'.severity.rank ∧ r.score ≤ r'.score) ∧
    (r.direction = .drop → p'.value ≤ p.value →
      ∃ r', ReportedAs exact o before p' after (some r') ∧ r'.direction = .drop ∧
        r.severity.rank ≤ r'.severity.rank) := by
  obtain ⟨gates, scored⟩ := detectAt_eq_some.mp (reportedAs_iff.mp reported).symm
  have gates' : Scored o before p' := by
    rw [Scored, bucket]
    exact gates
  constructor
  · intro spike value support
    obtain ⟨r', scored', rest⟩ := scoreAgainst_spike scored spike value support
    exact ⟨r', reportedAs_iff.mpr (detectAt_eq_some.mpr ⟨gates', scored'⟩).symm, rest⟩
  · intro drop value
    obtain ⟨r', scored', drop', rank, _⟩ := scoreAgainst_drop scored drop value
    exact ⟨r', reportedAs_iff.mpr (detectAt_eq_some.mpr ⟨gates', scored'⟩).symm, drop', rank⟩

/-- Four days at 20, and thresholds that one of them is enough for. -/
def fourDays : List (Point ℚ) := [⟨0, 20, 20⟩, ⟨1, 20, 20⟩, ⟨2, 20, 20⟩, ⟨3, 20, 20⟩]

def lowGates : Options ℚ := ⟨28, 1, 1, 4, 3, 4.5, 6, 5, 10, true, true⟩

theorem worse_not_milder_fourDays :
    ReportedAs exact lowGates fourDays ⟨4, 30, 30⟩ [] (some ⟨4, 30, 20, 10, 6, .spike, .critical⟩) ∧
      ∃ r', ReportedAs exact lowGates fourDays ⟨4, 90, 90⟩ [] (some r') ∧ r'.direction = .spike ∧
        Severity.critical.rank ≤ r'.severity.rank ∧ 6 ≤ r'.score := by
  have reported : ReportedAs exact lowGates fourDays ⟨4, 30, 30⟩ []
      (some ⟨4, 30, 20, 10, 6, .spike, .critical⟩) := by
    rw [reportedAs_iff]
    decide +kernel
  exact ⟨reported, (worse_not_milder lowGates fourDays [] ⟨4, 30, 30⟩ ⟨4, 90, 90⟩ _ rfl reported).1 rfl
    (by decide +kernel) (by decide +kernel)⟩

section Majority

variable {active : List (Point ℚ)} {v : ℚ}

/-- More than half of the active points lie at v. -/
def MajorityAt (v : ℚ) (active : List (Point ℚ)) : Prop :=
  active.length < 2 * (active.filter fun p => p.value = v).length

/-- A figure that has one value exactly at the points of the majority has it as its median. -/
theorem MajorityAt.median_eq (majority : MajorityAt v active) (f : Point ℚ → ℚ) (w : ℚ)
    (iff : ∀ p, f p = w ↔ p.value = v) : OrderStatistics.median (active.map f) = w := by
  apply OrderStatistics.median_of_majority
  have count : (active.map f).count w = (active.filter fun p => p.value = v).length := by
    rw [List.count, List.countP_map, List.countP_eq_length_filter]
    apply congrArg
    apply List.filter_congr
    intro p _
    rw [Function.comp_apply, Bool.eq_iff_iff, beq_iff_eq, decide_eq_true_iff]
    exact iff p
  rw [List.length_map, count]
  exact majority

theorem median_of_majorityAt (majority : MajorityAt v active) : median exact active = v := by
  rw [median, medianOf_exact]
  exact majority.median_eq _ _ fun _ => Iff.rfl

/-- The deviations of the majority are 0, so the baseline counts as flat. -/
theorem mad_of_majorityAt (majority : MajorityAt v active) : mad exact active v = 0 := by
  rw [mad, medianOf_exact]
  exact majority.median_eq _ _ fun p => abs_eq_zero.trans sub_eq_zero

theorem abs_copysign (f sign : ℚ) : exact.abs (exact.copysign f sign) = |f| := by
  simp only [exact]
  split_ifs
  · rw [abs_neg, abs_abs]
  · rw [abs_abs]

end Majority

/-- The deviation x − v clears the absolute floor, in an enabled direction whose volume
clears the other. -/
def Notable (o : Options ℚ) (active : List (Point ℚ)) (v : ℚ) (p : Point ℚ) : Prop :=
  o.absFloor ≤ |p.value - v| ∧
    ((v ≤ p.value ∧ o.spike = true ∧ o.volumeFloor ≤ p.support) ∨
      (p.value < v ∧ o.drop = true ∧ o.volumeFloor ≤ medianSupport exact active))

theorem scoreAgainst_majority {active : List (Point ℚ)} {v : ℚ} (majority : MajorityAt v active) (p : Point ℚ) :
    (Notable o active v p ↔ ∃ r, scoreAgainst exact o active p = some r) ∧
      ∀ r, scoreAgainst exact o active p = some r →
        r.expected = v ∧ r.severity = .critical ∧ |r.score| = |o.zCritical| := by
  have med := median_of_majorityAt majority
  have flat : ∀ dev, robustZ exact o active v dev = exact.copysign o.zCritical dev := by
    intro dev
    rw [robustZ, mad_of_majorityAt majority, mul_zero]
    exact if_neg (lt_irrefl 0)
  have critical : ∀ dev, severity (exact.abs (robustZ exact o active v dev)) o = .critical := by
    intro dev
    rw [flat, abs_copysign]
    exact if_pos (le_abs_self _)
  constructor
  · simp only [scoreAgainst_eq_some, med, critical]
    rcases lt_or_ge p.value v with below | above
    · have drop : directionOf (p.value - v) = .drop := directionOf_drop.mpr (sub_neg.mpr below)
      simp [Notable, drop, Options.enables, supportFor, below, not_le.mpr below, exact, and_comm, and_left_comm]
    · have spike : directionOf (p.value - v) = .spike := directionOf_spike.mpr (sub_nonneg.mpr above)
      simp [Notable, spike, Options.enables, supportFor, above, not_lt.mpr above, exact, and_comm, and_left_comm]
  · intro r reported
    obtain ⟨_, _, _, _, rfl⟩ := scoreAgainst_eq_some.mp reported
    simp only [med]
    exact ⟨trivial, critical _, (congrArg abs (flat _)).trans (abs_copysign _ _)⟩

/-- The active days of the baseline lie at v but for fewer than half, which are anything:
the expected value is v, and the point is reported exactly when it is notable against v, as
critical. -/
theorem outliers_do_not_poison (o : Options ℚ) (before after : List (Point ℚ)) (p : Point ℚ) (v : ℚ)
    (scored : Scored o before p) (majority : MajorityAt v (activePoints (baseline o before)))
    (ascending : 0 ≤ o.zInfo ∧ o.zInfo ≤ o.zWarning ∧ o.zWarning ≤ o.zCritical) :
    median exact (activePoints (baseline o before)) = v ∧
    ∃ r, ReportedAs exact o before p after r ∧
      (r.isSome ↔ Notable o (activePoints (baseline o before)) v p) ∧
      ∀ q ∈ r, q.expected = v ∧ q.severity = .critical ∧ |q.score| = o.zCritical := by
  obtain ⟨notable, each⟩ := scoreAgainst_majority (o := o) majority p
  refine ⟨median_of_majorityAt majority, detectAt exact o before p, reportedAs_iff.mpr rfl, ?_, ?_⟩
  · rw [notable, Option.isSome_iff_exists]
    exact exists_congr fun r => detectAt_eq_some.trans (and_iff_right scored)
  · intro q reported
    obtain ⟨expected, critical, score⟩ := each q (detectAt_eq_some.mp reported).2
    refine ⟨expected, critical, ?_⟩
    rw [score]
    exact abs_of_nonneg (ascending.1.trans (ascending.2.1.trans ascending.2.2))

/-- Three days at 20 and two that were anything. -/
def threeOfFive : List (Point ℚ) := [⟨0, 20, 20⟩, ⟨1, 900, 900⟩, ⟨2, 20, 20⟩, ⟨3, 1, 1⟩, ⟨4, 20, 20⟩]

theorem outliers_do_not_poison_threeOfFive :
    Scored lowGates threeOfFive ⟨5, 30, 30⟩ ∧
      ∃ r, ReportedAs exact lowGates threeOfFive ⟨5, 30, 30⟩ [] r ∧
        (r.isSome ↔ Notable lowGates (activePoints (baseline lowGates threeOfFive)) 20 ⟨5, 30, 30⟩) ∧
        ∀ q ∈ r, q.expected = 20 ∧ q.severity = .critical ∧ |q.score| = lowGates.zCritical := by
  have scored : Scored lowGates threeOfFive ⟨5, 30, 30⟩ := by
    rw [Scored]
    decide +kernel
  have majority : MajorityAt 20 (activePoints (baseline lowGates threeOfFive)) := by
    rw [MajorityAt]
    decide +kernel
  exact ⟨scored, (outliers_do_not_poison lowGates threeOfFive [] ⟨5, 30, 30⟩ 20 scored majority
    (by decide +kernel)).2⟩

end Tracium.Anomaly
