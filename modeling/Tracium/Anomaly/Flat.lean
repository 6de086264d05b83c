import Tracium.Anomaly.Exact

/-! The detector after days that were all alike: a day like them is never reported, and one
that is not is reported when it clears the floors. -/
namespace Tracium.Anomaly

/-- Every day had the value x and the support s, or no activity. -/
def FlatDays (x s : ℚ) (days : List (Point ℚ)) : Prop :=
  ∀ p ∈ days, (p.value = x ∧ p.support = s) ∨ p.support = 0

variable {o : Options ℚ} {before : List (Point ℚ)} {x s : ℚ}

theorem FlatDays.active (flat : FlatDays x s before) {p : Point ℚ}
    (member : p ∈ activePoints (baseline o before)) : p.value = x ∧ p.support = s := by
  obtain ⟨inBase, active⟩ := List.mem_filter.mp member
  rcases flat p (List.mem_of_mem_drop inBase) with same | idle
  · exact same
  · rw [idle] at active
    exact absurd (of_decide_eq_true active) (lt_irrefl 0)

theorem FlatDays.majority (flat : FlatDays x s before) (some : activePoints (baseline o before) ≠ []) :
    MajorityAt x (activePoints (baseline o before)) := by
  have all : (activePoints (baseline o before)).filter (fun p => p.value = x) =
      activePoints (baseline o before) := by
    rw [List.filter_eq_self]
    intro p member
    exact decide_eq_true (flat.active member).1
  have positive := List.length_pos_iff.mpr some
  rw [MajorityAt, all]
  omega

theorem FlatDays.medianSupport (flat : FlatDays x s before) (some : activePoints (baseline o before) ≠ []) :
    medianSupport exact (activePoints (baseline o before)) = s := by
  have all : ((activePoints (baseline o before)).map Point.support).count s =
      (activePoints (baseline o before)).length := by
    rw [← List.length_map (f := Point.support), List.count_eq_length]
    intro y member
    obtain ⟨p, inActive, rfl⟩ := List.mem_map.mp member
    exact (flat.active inActive).2.symm
  have positive := List.length_pos_iff.mpr some
  rw [Anomaly.medianSupport, medianOf_exact]
  apply OrderStatistics.median_of_majority
  rw [all, List.length_map]
  omega

/-- Above an activity gate the days are known to be alike in earnest. -/
theorem Scored.active_ne_nil {p : Point ℚ} (scored : Scored o before p) (gate : 0 < o.minBaselineActive) :
    activePoints (baseline o before) ≠ [] := by
  intro none
  have enough := scored.2.2
  rw [none, List.length_nil] at enough
  omega

/-- What is reported after flat days. -/
theorem FlatDays.detectAt_isSome (flat : FlatDays x s before) (gate : 0 < o.minBaselineActive) (p : Point ℚ) :
    (∃ r, detectAt exact o before p = some r) ↔ Scored o before p ∧ o.absFloor ≤ |p.value - x| ∧
      ((x ≤ p.value ∧ o.spike = true ∧ o.volumeFloor ≤ p.support) ∨
        (p.value < x ∧ o.drop = true ∧ o.volumeFloor ≤ s)) := by
  constructor
  · rintro ⟨r, reported⟩
    obtain ⟨scored, found⟩ := detectAt_eq_some.mp reported
    have some := scored.active_ne_nil gate
    have notable := (scoreAgainst_majority (o := o) (flat.majority some) p).1.mpr ⟨r, found⟩
    rw [Notable, flat.medianSupport some] at notable
    exact ⟨scored, notable⟩
  · rintro ⟨scored, notable⟩
    have some := scored.active_ne_nil gate
    have found : Notable o (activePoints (baseline o before)) x p := by
      rw [Notable, flat.medianSupport some]
      exact notable
    obtain ⟨r, reported⟩ := (scoreAgainst_majority (flat.majority some) p).1.mp found
    exact ⟨r, detectAt_eq_some.mpr ⟨scored, reported⟩⟩

theorem FlatDays.critical (flat : FlatDays x s before) (gate : 0 < o.minBaselineActive) {p : Point ℚ}
    {r : Result ℚ} (reported : detectAt exact o before p = some r) : r.severity = .critical := by
  obtain ⟨scored, found⟩ := detectAt_eq_some.mp reported
  exact ((scoreAgainst_majority (flat.majority (scored.active_ne_nil gate)) p).2 r found).2.1

/-- A day like the others is not reported. -/
theorem FlatDays.same_day (flat : FlatDays x s before) (gate : 0 < o.minBaselineActive)
    (floor : 0 < o.absFloor) {p : Point ℚ} (same : p.value = x) : detectAt exact o before p = none := by
  rw [Option.eq_none_iff_forall_ne_some]
  intro r reported
  obtain ⟨_, far, _⟩ := (flat.detectAt_isSome gate p).mp ⟨r, reported⟩
  rw [same, sub_self, abs_zero] at far
  exact absurd floor (not_lt.mpr far)

/-- What is scored has volume in the baseline. -/
theorem FlatDays.support_pos (flat : FlatDays x s before)
    (gate : 0 < o.minBaselineActive) {p : Point ℚ} (scored : Scored o before p) : 0 < s := by
  obtain ⟨p, member⟩ := List.exists_mem_of_ne_nil _ (scored.active_ne_nil gate)
  have active := of_decide_eq_true (List.mem_filter.mp member).2
  rwa [(flat.active member).2] at active

/-- Where drops are not asked for, a day that is not above the others is not reported. -/
theorem FlatDays.not_above (flat : FlatDays x s before)
    (gate : 0 < o.minBaselineActive) (floor : 0 < o.absFloor) (spikes : o.drop = false) {p : Point ℚ}
    (le : 0 < s → p.value ≤ x) : ¬ ∃ r, detectAt exact o before p = some r := by
  intro reported
  obtain ⟨scored, far, ⟨above, _⟩ | ⟨_, drop, _⟩⟩ := (flat.detectAt_isSome gate p).mp reported
  · have same : p.value = x := le_antisymm (le (flat.support_pos gate scored)) above
    rw [same, sub_self, abs_zero] at far
    exact absurd floor (not_lt.mpr far)
  · rw [spikes] at drop
    cases drop

/-- Ten active days at the end of the history are enough for gates of ten. -/
theorem scored_of_recent {older recent : List (Point ℚ)} {p : Point ℚ} (window : recent.length ≤ o.baselineDays)
    (active : ∀ q ∈ recent, 0 < q.support) (gate : o.minBaseline ≤ recent.length)
    (gateActive : o.minBaselineActive ≤ recent.length) (late : o.detectFromMs ≤ p.bucketMs) :
    Scored o (older ++ recent) p := by
  have tail : baseline o (older ++ recent) =
      older.drop ((older ++ recent).length - o.baselineDays) ++ recent := by
    rw [baseline, List.drop_append_of_le_length]
    rw [List.length_append]
    omega
  have all : activePoints recent = recent := by
    rw [activePoints, List.filter_eq_self]
    intro q member
    exact decide_eq_true (active q member)
  refine ⟨late, ?_, ?_⟩
  · rw [tail, List.length_append]
    omega
  · rw [tail, activePoints, List.filter_append, ← activePoints, ← activePoints, all, List.length_append]
    omega

section Grid

variable {α : Type} [Zero α] [OfNat α 2] [Add α] [Sub α] [Mul α] [Div α] [LT α] [LE α]
  [DecidableLT α] [DecidableLE α] {m : Math α}

/-- On a series given by index nothing is reported when nothing is at any index. -/
theorem detect_range_eq_nil {o : Options α} (point : Nat → Point α) (n : Nat) :
    detect m ((List.range n).map point) o = [] ↔
      ∀ i < n, detectAt m o ((List.range i).map point) (point i) = none := by
  induction n with
  | zero => simp [detect, detectFrom]
  | succ n ih =>
    rw [List.range_succ, List.map_append, List.map_singleton, detect_append, List.append_eq_nil_iff, ih,
      Nat.forall_lt_succ_right]
    simp [detectFrom]

end Grid

end Tracium.Anomaly
