import Mathlib.Algebra.BigOperators.Group.Finset.Basic
import Mathlib.Algebra.Order.BigOperators.Group.Multiset
import Mathlib.Data.Multiset.Bind
import Tracium.GroupBy

/-! Tables of partial aggregates. A row carries a key and a measure; rows of one key may be
combined into one at any time, and inserting a block adds its groups. So every row carries some
of the rows inserted, each of these in one row. What a query may ask of such a table are its
totals, and these do not depend on how the rows were combined. -/
namespace PartialAggregates

open GroupBy

variable {ρ α κ M : Type} [AddCommMonoid M]

/-- The measures of the rows a key predicate keeps, added up. -/
def total (key : ρ → κ) (measure : ρ → M) (keep : κ → Bool) (table : Multiset ρ) : M :=
  ((table.filter fun r => keep (key r) = true).map measure).sum

section Totals

variable {key : ρ → κ} {measure : ρ → M} {keep : κ → Bool}

@[simp] theorem total_zero : total key measure keep 0 = 0 := by
  simp [total]

@[simp] theorem total_add (s t : Multiset ρ) :
    total key measure keep (s + t) = total key measure keep s + total key measure keep t := by
  simp [total]

theorem total_coe (rows : List ρ) :
    total key measure keep rows = ((rows.filter fun r => keep (key r)).map measure).sum := by
  simp [total]

/-- Rows of one key count together or not at all. -/
theorem total_same {part : Multiset ρ} {k : κ} (same : ∀ r ∈ part, key r = k) :
    total key measure keep part = if keep k then (part.map measure).sum else 0 := by
  unfold total
  split
  next kept => rw [Multiset.filter_eq_self.mpr fun r member => by rw [same r member, kept]]
  next dropped =>
    have none : (part.filter fun r => keep (key r) = true) = 0 :=
      Multiset.filter_eq_nil.mpr fun r member kept => dropped (same r member ▸ kept)
    rw [none]
    simp

end Totals

/-- The row has the key of these rows and their measures added up. -/
structure Carries (key : ρ → κ) (measure : ρ → M) (keyOf : α → κ) (value : α → M) (row : ρ)
    (part : Multiset α) : Prop where
  some : part ≠ 0
  keyed : ∀ a ∈ part, keyOf a = key row
  measured : measure row = (part.map value).sum

/-- The rows of the table carry the rows it was made from, each of them in one. -/
def MadeOf (key : ρ → κ) (measure : ρ → M) (keyOf : α → κ) (value : α → M) (table : Multiset ρ)
    (rows : Multiset α) : Prop :=
  ∃ parts : Multiset (ρ × Multiset α), parts.map Prod.fst = table ∧ parts.bind Prod.snd = rows ∧
    ∀ p ∈ parts, Carries key measure keyOf value p.1 p.2

/-- The table answers every total as the rows it was made from. -/
def Maintains (key : ρ → κ) (measure : ρ → M) (keyOf : α → κ) (value : α → M) (table : Multiset ρ)
    (rows : List α) : Prop :=
  ∀ keep, total key measure keep table = total keyOf value keep rows

variable {key : ρ → κ} {measure : ρ → M} {keyOf : α → κ} {value : α → M} {table : Multiset ρ}
  {rows : List α}

/-- What is split after a map is split before it. -/
theorem exists_split_of_map_eq_add {β γ : Type} {f : β → γ} {s : Multiset β} {part rest : Multiset γ}
    (split : s.map f = part + rest) : ∃ sub other, s = sub + other ∧ sub.map f = part ∧ other.map f = rest := by
  classical
  induction part using Multiset.induction_on generalizing s with
  | empty => exact ⟨0, s, (zero_add s).symm, rfl, split.trans (zero_add rest)⟩
  | cons c part ih =>
    rw [Multiset.cons_add] at split
    obtain ⟨b, among, same, others⟩ := (Multiset.map_eq_cons ..).mpr split
    obtain ⟨sub, other, whole, mapped, mapped'⟩ := ih others
    refine ⟨b ::ₘ sub, other, ?_, by rw [Multiset.map_cons, same, mapped], mapped'⟩
    rw [Multiset.cons_add, ← whole, Multiset.cons_erase among]

/-- A coarser measure adds up too. -/
theorem Carries.map {N : Type} [AddCommMonoid N] (f : M →+ N) {row : ρ} {part : Multiset α}
    (carries : Carries key measure keyOf value row part) : f (measure row) = (part.map fun a => f (value a)).sum := by
  rw [carries.measured, map_multiset_sum, Multiset.map_map]
  rfl

theorem sum_bind_snd (parts : Multiset (ρ × Multiset α)) :
    ((parts.bind Prod.snd).map value).sum = (parts.map fun p => (p.2.map value).sum).sum := by
  rw [Multiset.map_bind, Multiset.sum_bind]

namespace MadeOf

theorem empty : MadeOf key measure keyOf value 0 0 :=
  ⟨0, rfl, rfl, fun _ member => absurd member (Multiset.notMem_zero _)⟩

theorem add {rows block : Multiset α} {added : Multiset ρ} (made : MadeOf key measure keyOf value table rows)
    (new : MadeOf key measure keyOf value added block) :
    MadeOf key measure keyOf value (table + added) (rows + block) := by
  obtain ⟨parts, rfl, rfl, carries⟩ := made
  obtain ⟨parts', rfl, rfl, carries'⟩ := new
  refine ⟨parts + parts', Multiset.map_add .., Multiset.add_bind .., fun p member => ?_⟩
  rcases Multiset.mem_add.mp member with old | new
  exacts [carries p old, carries' p new]

/-- The groups of a block carry its rows. -/
theorem groups [DecidableEq κ] {toRow : κ × List α → ρ} (keyed : ∀ g, key (toRow g) = g.1)
    (measured : ∀ g, measure (toRow g) = (g.2.map value).sum) (block : List α) :
    MadeOf key measure keyOf value ((groupBy keyOf block).map toRow : List ρ) block := by
  refine ⟨((groupBy keyOf block).map fun g => (toRow g, (g.2 : Multiset α)) : List _), ?_, ?_, ?_⟩
  · rw [Multiset.map_coe, List.map_map]
    rfl
  · have once := flatMap_filter_perm keyOf (block.map keyOf).dedup (List.nodup_dedup _) block
      fun r member => List.mem_dedup.mpr (List.mem_map_of_mem member)
    rw [← Multiset.map_coe, Multiset.bind_map, groupBy, ← Multiset.map_coe, Multiset.bind_map]
    exact (Multiset.coe_bind _ _).trans (Multiset.coe_eq_coe.mpr once)
  · intro p member
    obtain ⟨g, group, rfl⟩ := List.mem_map.mp (Multiset.mem_coe.mp member)
    have own := groupBy_group group
    refine ⟨?_, fun a inGroup => ?_, ?_⟩
    · obtain ⟨r, inBlock, same⟩ := groupBy_key_mem group
      have here : r ∈ g.2 := own ▸ List.mem_filter.mpr ⟨inBlock, decide_eq_true same⟩
      exact fun none => Multiset.notMem_zero r (none ▸ Multiset.mem_coe.mpr here)
    · rw [Multiset.mem_coe, own] at inGroup
      exact (of_decide_eq_true (List.mem_filter.mp inGroup).2).trans (keyed g).symm
    · rw [Multiset.map_coe, Multiset.sum_coe]
      exact measured g

/-- Combining rows of one key into a row that has the sum of their measures. -/
theorem combine [DecidableEq ρ] {rows : Multiset α} (made : MadeOf key measure keyOf value table rows)
    {part : Multiset ρ} {row : ρ} (some : part ≠ 0) (among : part ≤ table)
    (same : ∀ r ∈ part, key r = key row) (sum : measure row = (part.map measure).sum) :
    MadeOf key measure keyOf value (table - part + {row}) rows := by
  obtain ⟨parts, mapped, rfl, carries⟩ := made
  have split : parts.map Prod.fst = part + (table - part) := by
    rw [mapped, add_comm, tsub_add_cancel_of_le among]
  obtain ⟨sub, other, rfl, rfl, rest⟩ := exists_split_of_map_eq_add split
  have carried := fun p member => carries p (Multiset.mem_add.mpr (.inl member))
  refine ⟨other + {(row, sub.bind Prod.snd)}, ?_, ?_, fun p member => ?_⟩
  · rw [Multiset.map_add, rest, Multiset.map_singleton]
  · rw [Multiset.add_bind, Multiset.singleton_bind, Multiset.add_bind, add_comm]
  rcases Multiset.mem_add.mp member with old | new
  · exact carries p (Multiset.mem_add.mpr (.inr old))
  obtain rfl := Multiset.mem_singleton.mp new
  refine ⟨?_, fun a member => ?_, ?_⟩
  · obtain ⟨_, inPart⟩ := Multiset.exists_mem_of_ne_zero some
    obtain ⟨p, inSub, -⟩ := Multiset.mem_map.mp inPart
    obtain ⟨a, inRow⟩ := Multiset.exists_mem_of_ne_zero (carried p inSub).some
    exact fun none => Multiset.notMem_zero a (none ▸ Multiset.mem_bind.mpr ⟨p, inSub, inRow⟩)
  · obtain ⟨p, inSub, inRow⟩ := Multiset.mem_bind.mp member
    exact ((carried p inSub).keyed a inRow).trans (same p.1 (Multiset.mem_map_of_mem _ inSub))
  · rw [sum, sum_bind_snd, Multiset.map_map]
    exact congrArg Multiset.sum (Multiset.map_congr rfl fun p inSub => (carried p inSub).measured)

/-- A row carries some of the rows the table was made from. -/
theorem row {rows : Multiset α} (made : MadeOf key measure keyOf value table rows) {r : ρ} (member : r ∈ table) :
    ∃ part ≤ rows, Carries key measure keyOf value r part := by
  obtain ⟨parts, rfl, rfl, carries⟩ := made
  obtain ⟨p, inParts, rfl⟩ := Multiset.mem_map.mp member
  exact ⟨p.2, Multiset.le_bind parts inParts, carries p inParts⟩

/-- Rows of one key count together or not at all, so no total tells the table from its rows. -/
theorem maintains (made : MadeOf key measure keyOf value table rows) :
    Maintains key measure keyOf value table rows := by
  intro keep
  obtain ⟨parts, rfl, whole, carries⟩ := made
  rw [← whole]
  clear whole
  induction parts using Multiset.induction_on with
  | empty => simp
  | cons p parts ih =>
    have carried := carries p (Multiset.mem_cons_self ..)
    have one : total key measure keep {p.1} = total keyOf value keep p.2 := by
      rw [total_same carried.keyed, total_same (k := key p.1) fun r member => by rw [Multiset.mem_singleton.mp member]]
      simp [carried.measured]
    rw [Multiset.map_cons, Multiset.cons_bind, ← Multiset.singleton_add, total_add, total_add, one,
      ih fun q member => carries q (Multiset.mem_cons_of_mem member)]

end MadeOf

/-- A total of a coarser measure. -/
theorem Maintains.map {N : Type} [AddCommMonoid N] (f : M →+ N)
    (maintains : Maintains key measure keyOf value table rows) :
    Maintains key (fun r => f (measure r)) keyOf (fun a => f (value a)) table rows := by
  intro keep
  have same := congrArg f (maintains keep)
  simpa [total, map_multiset_sum, Multiset.map_map, map_list_sum, Function.comp_def] using same

/-- Two tables made from the same rows, in either order. -/
theorem Maintains.between {σ : Type} {key' : σ → κ} {measure' : σ → M} {table' : Multiset σ} {rows' : List α}
    (maintains : Maintains key measure keyOf value table rows)
    (maintains' : Maintains key' measure' keyOf value table' rows') (same : rows.Perm rows') {left : List ρ}
    {right : List σ} (read : (left : Multiset ρ) = table) (read' : (right : Multiset σ) = table') :
    Maintains key measure key' measure' left right := by
  intro keep
  rw [read, read', maintains keep, maintains' keep, Multiset.coe_eq_coe.mpr same]

/-! Statements with a GROUP BY. The group of a label is a total, and which labels there are
follows from the totals of a weight that every row has. -/

/-- Two tables that no total tells apart, of rows that weigh something. -/
structure Alike (key : ρ → κ) (measure : ρ → M) (keyOf : α → κ) (value : α → M) (weight : M →+ ℕ)
    (table : List ρ) (rows : List α) : Prop where
  maintains : Maintains key measure keyOf value table rows
  weighs : ∀ r ∈ table, weight (measure r) ≠ 0
  weighs' : ∀ a ∈ rows, weight (value a) ≠ 0

/-- GROUP BY a label of the key, over the rows whose keys are kept. -/
def grouped {β R : Type} [DecidableEq β] (key : ρ → κ) (label : κ → β) (keep : κ → Bool)
    (row : β → List ρ → R) (table : List ρ) : List R :=
  (groupBy (fun r => label (key r)) (table.filter fun r => keep (key r))).map fun g => row g.1 g.2

section Alike

variable {weight : M →+ ℕ} {table : List ρ}
  (alike : Alike key measure keyOf value weight table rows)

include alike

theorem Alike.filter (keep : κ → Bool) :
    Alike key measure keyOf value weight (table.filter fun r => keep (key r))
      (rows.filter fun a => keep (keyOf a)) where
  maintains := by
    intro keep'
    have both := alike.maintains fun k => keep' k && keep k
    simpa only [total_coe, List.filter_filter] using both
  weighs := fun r member => alike.weighs r (List.mem_filter.mp member).1
  weighs' := fun a member => alike.weighs' a (List.mem_filter.mp member).1

theorem Alike.sum {N : Type} [AddCommMonoid N] (f : M →+ N) :
    (table.map fun r => f (measure r)).sum = (rows.map fun a => f (value a)).sum := by
  have all := alike.maintains.map f fun _ => true
  simpa [total_coe] using all

theorem Alike.keys (k : κ) : k ∈ table.map key ↔ k ∈ rows.map keyOf := by
  classical
  have one := (alike.filter fun k' => decide (k' = k)).sum weight
  have here {γ : Type} {keyOf : γ → κ} {weigh : γ → ℕ} {rows : List γ} (weighs : ∀ a ∈ rows, weigh a ≠ 0) :
      k ∈ rows.map keyOf ↔ ((rows.filter fun a => decide (keyOf a = k)).map weigh).sum ≠ 0 := by
    rw [ne_eq, List.sum_eq_zero_iff_forall_eq_nat, List.mem_map]
    constructor
    · rintro ⟨a, inRows, own⟩ none
      refine weighs a inRows (none _ (List.mem_map_of_mem ?_))
      exact List.mem_filter.mpr ⟨inRows, decide_eq_true own⟩
    · intro some
      by_contra absent
      refine some fun n member => ?_
      obtain ⟨a, kept, -⟩ := List.mem_map.mp member
      obtain ⟨inRows, own⟩ := List.mem_filter.mp kept
      exact absurd ⟨a, inRows, of_decide_eq_true own⟩ absent
  rw [here alike.weighs, here alike.weighs', one]

/-- Rows that are alike in every group make the same groups. -/
theorem Alike.grouped {β R : Type} [DecidableEq β] (label : κ → β) (keep : κ → Bool)
    (row : β → List ρ → R) (row' : β → List α → R)
    (same : ∀ l part part', Alike key measure keyOf value weight part part' → row l part = row' l part') :
    (PartialAggregates.grouped key label keep row table).Perm
      (PartialAggregates.grouped keyOf label keep row' rows) := by
  have kept := alike.filter keep
  unfold PartialAggregates.grouped groupBy
  rw [List.map_map, List.map_map]
  have labels : (((table.filter fun r => keep (key r)).map fun r => label (key r)).dedup).Perm
      (((rows.filter fun a => keep (keyOf a)).map fun a => label (keyOf a)).dedup) := by
    refine (List.perm_ext_iff_of_nodup (List.nodup_dedup _) (List.nodup_dedup _)).mpr fun l => ?_
    have both := exists_congr fun k => and_congr_left (c := label k = l) fun _ => kept.keys k
    simpa only [List.mem_dedup, List.mem_map, exists_exists_and_eq_and] using both
  refine (labels.map _).trans (List.Perm.of_eq (List.map_congr_left fun l _ => ?_))
  exact same l _ _ (kept.filter fun k => decide (label k = l))

end Alike

/-- A sum over the groups, laid out over any keys that cover the rows: a group that is not
there counts as the empty one. -/
theorem sum_groupBy_over [DecidableEq κ] {F : List α → M} (empty : F [] = 0) {keys : Finset κ}
    (covers : ∀ r ∈ rows, keyOf r ∈ keys) :
    ((groupBy keyOf rows).map fun g => F g.2).sum = ∑ k ∈ keys, F (rows.filter fun r => keyOf r = k) := by
  have list : ((groupBy keyOf rows).map fun g => F g.2).sum =
      ∑ k ∈ (rows.map keyOf).toFinset, F (rows.filter fun r => keyOf r = k) := by
    have same : (rows.map keyOf).toFinset = (rows.map keyOf).dedup.toFinset := by
      ext k
      simp
    rw [groupBy, List.map_map, same, List.sum_toFinset _ (List.nodup_dedup _)]
    rfl
  rw [list]
  refine Finset.sum_subset (fun k member => ?_) fun k _ absent => ?_
  · obtain ⟨r, inRows, rfl⟩ := List.mem_map.mp (List.mem_toFinset.mp member)
    exact covers r inRows
  · have none : rows.filter (fun r => keyOf r = k) = [] := by
      refine List.filter_eq_nil_iff.mpr fun r inRows same => absent ?_
      rw [List.mem_toFinset, ← of_decide_eq_true same]
      exact List.mem_map_of_mem inRows
    rw [none, empty]

end PartialAggregates
