import Mathlib.Algebra.BigOperators.Group.List.Basic
import Mathlib.Algebra.Order.Ring.Int
import Mathlib.Data.List.Dedup
import Tracium.OrderedMap

/-! GROUP BY over a list of rows, and a gap-free axis that a grouped result is laid out
on. Groups partition the rows, so any additive aggregate over the groups is the aggregate
over the rows; an axis that holds every key once sums to the same. -/
namespace GroupBy

open OrderedMap

variable {α κ M : Type} [DecidableEq κ]

def groupBy (key : α → κ) (rows : List α) : List (κ × List α) :=
  (rows.map key).dedup.map fun k => (k, rows.filter fun r => key r = k)

theorem groupBy_keys (key : α → κ) (rows : List α) :
    (groupBy key rows).map Prod.fst = (rows.map key).dedup := by
  simp [groupBy, Function.comp_def]

theorem groupBy_distinct (key : α → κ) (rows : List α) (value : κ × List α → M) :
    DistinctKeys ((groupBy key rows).map fun g => (g.1, value g)) := by
  have keys : ((groupBy key rows).map fun g => (g.1, value g)).map Prod.fst =
      (rows.map key).dedup := by
    rw [List.map_map, ← groupBy_keys]
    rfl
  rw [DistinctKeys, keys]
  exact List.nodup_dedup _

theorem groupBy_group {key : α → κ} {rows : List α} {g : κ × List α} (member : g ∈ groupBy key rows) :
    g.2 = rows.filter fun r => key r = g.1 := by
  obtain ⟨k, _, rfl⟩ := List.mem_map.mp member
  rfl

theorem groupBy_key_mem {key : α → κ} {rows : List α} {g : κ × List α} (member : g ∈ groupBy key rows) :
    ∃ r ∈ rows, key r = g.1 := by
  simp only [groupBy, List.mem_map, List.mem_dedup] at member
  obtain ⟨k, ⟨r, inRows, rfl⟩, rfl⟩ := member
  exact ⟨r, inRows, rfl⟩

/-- Relabelling the keys one to one relabels the groups. -/
theorem groupBy_relabel {κ' : Type} [DecidableEq κ'] (label : κ → κ')
    (injective : Function.Injective label) (key : α → κ) (rows : List α) :
    groupBy (fun r => label (key r)) rows =
      (groupBy key rows).map fun g => (label g.1, g.2) := by
  have keys : (rows.map fun r => label (key r)).dedup = (rows.map key).dedup.map label := by
    rw [← List.dedup_map_of_injective injective, List.map_map]
    rfl
  simp only [groupBy, keys, List.map_map]
  apply List.map_congr_left
  intro k _
  simp only [Function.comp_apply, injective.eq_iff]

/-- The groups that hold a row of some kind are counted by the keys such rows have. -/
theorem countP_groupBy_any (key : α → κ) (p : α → Bool) (rows : List α) :
    ((groupBy key rows).map Prod.snd).countP (·.any p) = ((rows.filter p).map key).dedup.length := by
  rw [groupBy, List.map_map, List.countP_map, List.countP_eq_length_filter]
  refine ((List.perm_ext_iff_of_nodup ((List.nodup_dedup _).filter _) (List.nodup_dedup _)).mpr
    fun k => ?_).length_eq
  simp only [List.mem_filter, List.mem_dedup, List.mem_map, Function.comp_apply, List.any_filter,
    List.any_eq_true, Bool.and_eq_true, decide_eq_true_eq]
  constructor
  · rintro ⟨-, r, inRows, own, hit⟩
    exact ⟨r, ⟨inRows, hit⟩, own⟩
  · rintro ⟨r, ⟨inRows, hit⟩, own⟩
    exact ⟨⟨r, inRows, own⟩, r, inRows, own, hit⟩

theorem dedup_filter (q : κ → Bool) (keys : List κ) : (keys.filter q).dedup = keys.dedup.filter q := by
  induction keys with
  | nil => rfl
  | cons k keys ih =>
    by_cases again : k ∈ keys <;> cases kept : q k <;>
      simp [kept, again, ih]

/-- The groups of the rows whose keys are kept are the groups that are kept. -/
theorem groupBy_filter (key : α → κ) (q : κ → Bool) (rows : List α) :
    groupBy key (rows.filter fun r => q (key r)) = (groupBy key rows).filter fun g => q g.1 := by
  have keys : ((rows.filter fun r => q (key r)).map key).dedup = (rows.map key).dedup.filter q := by
    rw [← dedup_filter, List.filter_map]
    rfl
  rw [groupBy, groupBy, keys, List.filter_map]
  refine List.map_congr_left fun k member => ?_
  have kept : q k = true := (List.mem_filter.mp member).2
  rw [List.filter_filter]
  refine congrArg (Prod.mk k) (List.filter_congr fun r _ => ?_)
  by_cases own : key r = k
  · simp [own, kept]
  · simp [own]

/-- The groups as a map that is filled row by row. -/
def collect (key : α → κ) (rows : List α) : List (κ × List α) :=
  rows.foldl (fun m r => put m (key r) ((get m (key r)).getD [] ++ [r])) []

theorem get_collect (key : α → κ) (rows : List α) (k : κ) :
    (get (collect key rows) k).getD [] = rows.filter fun r => key r = k := by
  have filled : ∀ m : List (κ × List α),
      (get (rows.foldl (fun m r => put m (key r) ((get m (key r)).getD [] ++ [r])) m) k).getD [] =
        (get m k).getD [] ++ rows.filter fun r => key r = k := by
    induction rows with
    | nil => simp
    | cons r rest ih =>
      intro m
      rw [List.foldl_cons, ih]
      by_cases own : key r = k
      · subst own
        rw [get_put_same, List.filter_cons_of_pos (by simp)]
        simp
      · rw [get_put_other _ _ own, List.filter_cons_of_neg (by simpa using own)]
  exact filled []

/-- The groups of distinct keys that cover the rows hold every row once. -/
theorem flatMap_filter_perm (key : α → κ) (keys : List κ) (distinct : keys.Nodup) (rows : List α)
    (covers : ∀ r ∈ rows, key r ∈ keys) :
    (keys.flatMap fun k => rows.filter fun r => key r = k).Perm rows := by
  induction keys generalizing rows with
  | nil =>
    have none : rows = [] := by
      rw [List.eq_nil_iff_forall_not_mem]
      intro r member
      cases covers r member
    rw [none]
    exact List.Perm.nil
  | cons k keys ih =>
    obtain ⟨fresh, rest⟩ := List.nodup_cons.mp distinct
    have others := ih rest (rows.filter fun r => !decide (key r = k)) fun r member => by
      obtain ⟨inRows, other⟩ := List.mem_filter.mp member
      rcases List.mem_cons.mp (covers r inRows) with own | later
      · simp [own] at other
      · exact later
    have same : (keys.flatMap fun k' => (rows.filter fun r => !decide (key r = k)).filter
        fun r => key r = k') = keys.flatMap fun k' => rows.filter fun r => key r = k' := by
      apply List.flatMap_congr
      intro k' member
      rw [List.filter_filter]
      apply List.filter_congr
      intro r _
      by_cases own : key r = k'
      · have apart : k' ≠ k := fun wrong => fresh (wrong ▸ member)
        simp [own, apart]
      · simp [own]
    rw [same] at others
    rw [List.flatMap_cons]
    exact (others.append_left _).trans (List.filter_append_perm (fun r => decide (key r = k)) rows)

section Sums

variable [AddCommMonoid M]

/-- An element adds up as often as it is listed. -/
theorem sum_if_eq (slots : List κ) (k : κ) (v : M) :
    (slots.map fun slot => if k = slot then v else 0).sum = slots.count k • v := by
  induction slots with
  | nil => simp
  | cons slot slots ih =>
    rw [List.map_cons, List.sum_cons, ih, List.count_cons]
    by_cases here : k = slot
    · simp [here, succ_nsmul, add_comm]
    · simp [here, Ne.symm here]

/-- In a list without repetition one element is met once. -/
theorem sum_single (slots : List κ) (distinct : slots.Nodup) (k : κ) (present : k ∈ slots) (v : M) :
    (slots.map fun slot => if k = slot then v else 0).sum = v := by
  rw [sum_if_eq, List.count_eq_one_of_mem distinct present, one_nsmul]

/-- A sum over the rows one test keeps, split by another. -/
theorem sum_filter_split (p q : α → Bool) (g : α → M) (l : List α) :
    ((l.filter p).map g).sum =
      ((l.filter fun a => q a && p a).map g).sum + ((l.filter fun a => !q a && p a).map g).sum := by
  rw [← List.filter_filter, ← List.filter_filter, ← List.sum_append, ← List.map_append]
  exact ((List.filter_append_perm q (l.filter p)).map g).sum_eq.symm

/-- Summing key by key, each row is summed once for each time its key is listed. -/
theorem sum_fibers_count (key : α → κ) (f : α → M) (rows : List α) (keys : List κ) :
    (keys.map fun k => ((rows.filter fun r => key r = k).map f).sum).sum =
      (rows.map fun r => keys.count (key r) • f r).sum := by
  induction rows with
  | nil => simp
  | cons r rows ih =>
    have split : ∀ k, (((r :: rows).filter fun r => key r = k).map f).sum =
        (if key r = k then f r else 0) + ((rows.filter fun r => key r = k).map f).sum := by
      intro k
      by_cases here : key r = k
      · simp [here]
      · simp [here]
    simp only [split]
    rw [List.sum_map_add, sum_if_eq, ih, List.map_cons, List.sum_cons]

/-- Summing group by group is summing row by row. -/
theorem sum_fibers (key : α → κ) (f : α → M) (rows : List α) (keys : List κ) (distinct : keys.Nodup)
    (covers : ∀ r ∈ rows, key r ∈ keys) :
    (keys.map fun k => ((rows.filter fun r => key r = k).map f).sum).sum = (rows.map f).sum := by
  rw [sum_fibers_count]
  apply congrArg List.sum
  apply List.map_congr_left
  intro r member
  rw [List.count_eq_one_of_mem distinct (covers r member), one_nsmul]

theorem sum_groupBy (key : α → κ) (f : α → M) (rows : List α) :
    ((groupBy key rows).map fun g => (g.2.map f).sum).sum = (rows.map f).sum := by
  rw [groupBy, List.map_map]
  apply sum_fibers key f rows _ (List.nodup_dedup _)
  intro r member
  exact List.mem_dedup.mpr (List.mem_map_of_mem member)

/-- Keeping whole groups keeps their rows. -/
theorem sum_groupBy_filter (key : α → κ) (q : κ → Bool) (f : α → M) (rows : List α) :
    (((groupBy key rows).filter fun g => q g.1).map fun g => (g.2.map f).sum).sum =
      ((rows.filter fun r => q (key r)).map f).sum := by
  have covers : ∀ r ∈ rows.filter fun r => q (key r), key r ∈ (rows.map key).dedup.filter q := by
    intro r member
    obtain ⟨inRows, kept⟩ := List.mem_filter.mp member
    exact List.mem_filter.mpr ⟨List.mem_dedup.mpr (List.mem_map_of_mem inRows), kept⟩
  rw [← sum_fibers key f _ _ ((List.nodup_dedup _).filter q) covers, groupBy, List.filter_map, List.map_map]
  apply congrArg List.sum
  apply List.map_congr_left
  intro k member
  have kept : q k = true := (List.mem_filter.mp member).2
  have group : (rows.filter fun r => q (key r)).filter (fun r => key r = k) =
      rows.filter fun r => key r = k := by
    rw [List.filter_filter]
    apply List.filter_congr
    intro r _
    by_cases same : key r = k
    · simp [same, kept]
    · simp [same]
  rw [group]
  rfl

theorem length_groupBy (key : α → κ) (rows : List α) :
    ((groupBy key rows).map fun g => (g.2.length : Int)).sum = rows.length := by
  have ones := sum_groupBy key (fun _ => (1 : Int)) rows
  simpa using ones

theorem countP_groupBy (key : α → κ) (p : α → Bool) (rows : List α) :
    ((groupBy key rows).map fun g => (g.2.countP p : Int)).sum = rows.countP p := by
  have hits : ∀ list : List α, (list.map fun r => if p r then (1 : Int) else 0).sum = list.countP p := by
    intro list
    induction list with
    | nil => rfl
    | cons r list ih => cases hit : p r <;> simp [hit, ih, Int.add_comm]
  have total := sum_groupBy key (fun r => if p r then (1 : Int) else 0) rows
  simpa only [hits] using total

/-- An axis that holds every key of a keyed result once sums to the result. -/
theorem sum_axis (slots : List κ) (distinct : slots.Nodup) (rows : List (κ × M))
    (keys : DistinctKeys rows) (onAxis : ∀ e ∈ rows, e.1 ∈ slots) :
    (slots.map fun slot => (get rows slot).getD 0).sum = (rows.map Prod.snd).sum := by
  induction rows with
  | nil => simp
  | cons e rows ih =>
    obtain ⟨fresh, rest⟩ := List.nodup_cons.mp keys
    have tail := ih rest fun e member => onAxis e (List.mem_cons_of_mem _ member)
    have split : ∀ slot, (get (e :: rows) slot).getD 0 =
        (if e.1 = slot then e.2 else 0) + (get rows slot).getD 0 := by
      intro slot
      rw [get_cons]
      by_cases here : e.1 = slot
      · have absent : get rows slot = none := get_eq_none (here ▸ fresh)
        simp [here, absent]
      · simp [here]
    simp only [split]
    rw [List.sum_map_add, sum_single slots distinct e.1 (onAxis e (List.mem_cons_self ..)), tail,
      List.map_cons, List.sum_cons]

end Sums

end GroupBy
