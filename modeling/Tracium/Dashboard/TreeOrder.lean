import Tracium.Dashboard.TraceView

/-! The order of the spans in the view of a trace, for spans whose ids differ and are not
empty, whatever their parent links are. -/
namespace Tracium.Dashboard

open OrderedMap GroupBy TreeWalk Relation

variable {F : Type} {spans : List (Span F)}

/-- A span without a parent, or whose parent is not in the trace. -/
def Root (spans : List (Span F)) (r : Span F) : Prop :=
  r ∈ spans ∧ (r.parentSpanId = "" ∨ ∀ p ∈ spans, p.spanId ≠ r.parentSpanId)

def ChildOf (spans : List (Span F)) (p c : Span F) : Prop :=
  p ∈ spans ∧ c ∈ spans ∧ c.parentSpanId = p.spanId

def Reachable (spans : List (Span F)) (s : Span F) : Prop :=
  ∃ r, Root spans r ∧ ReflTransGen (ChildOf spans) r s

def Siblings (spans : List (Span F)) (a b : Span F) : Prop :=
  (Root spans a ∧ Root spans b) ∨
    ∃ p, Reachable spans p ∧ ChildOf spans p a ∧ ChildOf spans p b

/-- What the order of display promises; spans that no root reaches are listed too, since
the list is a permutation. -/
structure TreeOrder (spans : List (Span F)) (ordered : List (Span F × Nat)) : Prop where
  perm : (ordered.map Prod.fst).Perm spans
  roots : ∀ r, Root spans r → (r, 0) ∈ ordered
  children : ∀ p c, Reachable spans p → ChildOf spans p c →
    ∃ depth, [(p, depth), (c, depth + 1)].Sublist ordered
  contiguous : ∀ a, Reachable spans a → ∃ depth front below back,
    ordered = front ++ ((a, depth) :: below ++ back) ∧
      ∀ x, x ∈ below.map Prod.fst ↔ TransGen (ChildOf spans) a x
  siblings : ∀ a b, Siblings spans a b →
    a.startTimeMs < b.startTimeMs ∨ (a.startTimeMs = b.startTimeMs ∧ [a, b].Sublist spans) →
      [a, b].Sublist (ordered.map Prod.fst)

/-! The maps of ids and of children. -/

theorem isRoot_iff {s : Span F} (member : s ∈ spans) : isRoot spans s = true ↔ Root spans s := by
  have found : (get (byId spans) s.parentSpanId).isSome =
      decide (s.parentSpanId ∈ spans.map Span.spanId) := by
    have filled := isSome_get_foldl_put Span.spanId id spans [] s.parentSpanId
    simpa [byId] using filled
  have none_iff : (get (byId spans) s.parentSpanId).isNone = true ↔
      ∀ p ∈ spans, p.spanId ≠ s.parentSpanId := by
    rw [← Option.not_isSome, found]
    simp
  simp only [isRoot, Root, Bool.or_eq_true, decide_eq_true_eq, none_iff, member, true_and]

theorem childrenAt_eq (id : String) :
    childrenAt spans id = byStart (spans.filter fun s => groupKey spans s = id) := by
  unfold childrenAt childrenOf
  have sorted := get_map_value (collect (groupKey spans) spans) byStart id
  rw [sorted, ← get_collect]
  cases get (collect (groupKey spans) spans) id <;> simp [byStart]

theorem mem_childrenAt {c : Span F} {id : String} :
    c ∈ childrenAt spans id ↔ c ∈ spans ∧ groupKey spans c = id := by
  rw [childrenAt_eq, byStart, List.mem_mergeSort, List.mem_filter, decide_eq_true_eq]

theorem links (distinct : (spans.map Span.spanId).Nodup)
    (nonempty : ∀ s ∈ spans, s.spanId ≠ "") :
    Links Span.spanId (childrenAt spans) spans (groupKey spans) "" where
  distinct := distinct
  top_fresh := by
    intro member
    obtain ⟨s, inside, empty⟩ := List.mem_map.mp member
    exact nonempty s inside empty
  mem_children := fun _ _ => mem_childrenAt
  nodup := by
    intro id
    rw [childrenAt_eq]
    exact (List.mergeSort_perm _ _).nodup_iff.mpr (distinct.of_map.filter _)

theorem mem_roots {r : Span F} : r ∈ childrenAt spans "" ↔ Root spans r := by
  rw [mem_childrenAt]
  constructor
  · rintro ⟨member, filed⟩
    by_cases root : isRoot spans r = true
    · exact (isRoot_iff member).mp root
    · rw [groupKey, if_neg root] at filed
      exact absurd (by simp [isRoot, filed]) root
  · intro root
    exact ⟨root.1, by rw [groupKey, if_pos ((isRoot_iff root.1).mpr root)]⟩

theorem child_iff (nonempty : ∀ s ∈ spans, s.spanId ≠ "") {p c : Span F} (member : p ∈ spans) :
    Child Span.spanId (childrenAt spans) p c ↔ ChildOf spans p c := by
  unfold Child
  rw [mem_childrenAt]
  constructor
  · rintro ⟨inside, filed⟩
    by_cases root : isRoot spans c = true
    · rw [groupKey, if_pos root] at filed
      exact absurd filed.symm (nonempty p member)
    · rw [groupKey, if_neg root] at filed
      exact ⟨member, inside, filed⟩
  · rintro ⟨_, inside, parent⟩
    have notRoot : ¬isRoot spans c = true := by
      rw [isRoot_iff inside]
      rintro ⟨_, empty | absent⟩
      · exact nonempty p member (parent ▸ empty)
      · exact absent p member parent.symm
    exact ⟨inside, by rw [groupKey, if_neg notRoot, parent]⟩

theorem descendants_iff (nonempty : ∀ s ∈ spans, s.spanId ≠ "") {p x : Span F}
    (member : p ∈ spans) :
    TransGen (Child Span.spanId (childrenAt spans)) p x ↔ TransGen (ChildOf spans) p x := by
  constructor
  · intro path
    induction path with
    | single step => exact .single ((child_iff nonempty member).mp step)
    | tail path step ih =>
      obtain ⟨_, _, _, inside, _⟩ := TransGen.tail'_iff.mp ih
      exact .tail ih ((child_iff nonempty inside).mp step)
  · exact TransGen.mono (fun _ _ step => (child_iff nonempty step.1).mpr step) p x

theorem reachable_iff (nonempty : ∀ s ∈ spans, s.spanId ≠ "") {s : Span F} :
    Reachable spans s ↔
      ∃ r ∈ childrenAt spans "", ReflTransGen (Child Span.spanId (childrenAt spans)) r s := by
  apply exists_congr
  intro r
  rw [mem_roots]
  apply and_congr_right
  intro root
  rw [reflTransGen_iff_eq_or_transGen, reflTransGen_iff_eq_or_transGen,
    descendants_iff nonempty root.1]

theorem Reachable.mem {s : Span F} (reachable : Reachable spans s) : s ∈ spans := by
  obtain ⟨r, root, path⟩ := reachable
  rcases path.cases_tail with rfl | ⟨_, _, step⟩
  · exact root.1
  · exact step.2.1

/-! Siblings. -/

theorem pair_or_swap {α : Type} {a b : α} {l : List α} (first : a ∈ l) (second : b ∈ l)
    (apart : a ≠ b) : [a, b].Sublist l ∨ [b, a].Sublist l := by
  induction l with
  | nil => cases first
  | cons x rest ih =>
    rcases List.mem_cons.mp first with rfl | later
    · have behind := (List.mem_cons.mp second).resolve_left (Ne.symm apart)
      exact .inl ((List.singleton_sublist.mpr behind).cons_cons _)
    · rcases List.mem_cons.mp second with rfl | later'
      · exact .inr ((List.singleton_sublist.mpr later).cons_cons _)
      · exact (ih later later').imp (List.Sublist.cons x) (List.Sublist.cons x)

/-- The sort puts the earlier span first and keeps the order of spans that start together. -/
theorem byStart_before {l : List (Span F)} {a b : Span F} (first : a ∈ l) (second : b ∈ l)
    (before : a.startTimeMs < b.startTimeMs ∨
      (a.startTimeMs = b.startTimeMs ∧ [a, b].Sublist l)) : [a, b].Sublist (byStart l) := by
  have trans : ∀ x y z : Span F, decide (x.startTimeMs - y.startTimeMs ≤ 0) = true →
      decide (y.startTimeMs - z.startTimeMs ≤ 0) = true →
      decide (x.startTimeMs - z.startTimeMs ≤ 0) = true := by
    intro x y z le le'
    rw [decide_eq_true_eq] at le le' ⊢
    omega
  have total : ∀ x y : Span F, (decide (x.startTimeMs - y.startTimeMs ≤ 0) ||
      decide (y.startTimeMs - x.startTimeMs ≤ 0)) = true := by
    intro x y
    rw [Bool.or_eq_true, decide_eq_true_eq, decide_eq_true_eq]
    omega
  rcases before with earlier | ⟨tie, inOrder⟩
  · have apart : a ≠ b := by
      rintro rfl
      omega
    rcases pair_or_swap (List.mem_mergeSort.mpr first) (List.mem_mergeSort.mpr second) apart
      with sorted | swapped
    · exact sorted
    · have pairs := (List.pairwise_mergeSort trans total l).sublist swapped
      have late := (List.pairwise_cons.mp pairs).1 a (by simp)
      rw [decide_eq_true_eq] at late
      omega
  · exact List.pair_sublist_mergeSort trans total (by simp [tie]) inOrder

theorem childrenAt_before {a b : Span F} {id : String} (first : a ∈ childrenAt spans id)
    (second : b ∈ childrenAt spans id)
    (before : a.startTimeMs < b.startTimeMs ∨
      (a.startTimeMs = b.startTimeMs ∧ [a, b].Sublist spans)) :
    [a, b].Sublist (childrenAt spans id) := by
  have filed := (mem_childrenAt.mp first).2
  have filed' := (mem_childrenAt.mp second).2
  rw [childrenAt_eq] at first second ⊢
  apply byStart_before (List.mem_mergeSort.mp first) (List.mem_mergeSort.mp second)
  refine before.imp_right fun ⟨tie, inOrder⟩ => ⟨tie, ?_⟩
  have kept := inOrder.filter fun s => decide (groupKey spans s = id)
  simpa [filed, filed'] using kept

/-! The whole walk. -/

theorem ordered_eq (distinct : (spans.map Span.spanId).Nodup)
    (nonempty : ∀ s ∈ spans, s.spanId ≠ "") :
    ∃ trees others, Laid Span.spanId (childrenAt spans) (childrenAt spans "") 0 trees ∧
      ((trees ++ others).map Prod.fst).Perm spans ∧
      ∀ fuel, spans.length < fuel → ordered fuel spans = some (trees ++ others) := by
  have links := links distinct nonempty
  have members : ∀ s ∈ childrenAt spans "" ++ spans, s ∈ spans := by
    intro s member
    rcases List.mem_append.mp member with root | plain
    · exact links.inside "" s root
    · exact plain
  obtain ⟨out, visited, total⟩ := visitAll_total links.inside members
  obtain ⟨trees, others, rfl, onRoots, _⟩ := visited.append
  refine ⟨trees, others, onRoots.laid_top links, visited.perm links.inside distinct ?_, ?_⟩
  · exact fun s => ⟨members s, fun inside => List.mem_append_right _ inside⟩
  · intro fuel enough
    have run := congrArg (Option.map Walk.ordered) (total fuel enough)
    rwa [visitAll_append, Option.map_bind] at run

theorem ordered_treeOrder (distinct : (spans.map Span.spanId).Nodup)
    (nonempty : ∀ s ∈ spans, s.spanId ≠ "") :
    ∃ out, TreeOrder spans out ∧ ∀ fuel, spans.length < fuel → ordered fuel spans = some out := by
  obtain ⟨trees, others, laid, perm, total⟩ := ordered_eq distinct nonempty
  have listed : ∀ s, Reachable spans s → ∃ depth, (s, depth) ∈ trees := by
    intro s reachable
    obtain ⟨e, member, rfl⟩ := List.mem_map.mp
      ((laid.mem_iff s).mpr ((reachable_iff nonempty).mp reachable))
    exact ⟨e.2, member⟩
  have block : ∀ a, Reachable spans a → ∃ depth front below back,
      trees ++ others = front ++ ((a, depth) :: below ++ back) ∧
      Laid Span.spanId (childrenAt spans) (childrenAt spans a.spanId) (depth + 1) below := by
    intro a reachable
    obtain ⟨depth, member⟩ := listed a reachable
    obtain ⟨front, below, back, rfl, own⟩ := laid.block member
    exact ⟨depth, front, below, back ++ others, by simp, own⟩
  refine ⟨trees ++ others, ⟨perm, ?_, ?_, ?_, ?_⟩, total⟩
  · intro r root
    exact List.mem_append_left _ (laid.head_mem (mem_roots.mpr root))
  · intro p c reachable child
    obtain ⟨depth, front, below, back, split, own⟩ := block p reachable
    have under : (c, depth + 1) ∈ below := own.head_mem ((child_iff nonempty child.1).mpr child)
    refine ⟨depth, ?_⟩
    have inBlock : [(p, depth), (c, depth + 1)].Sublist ((p, depth) :: below) :=
      (List.singleton_sublist.mpr under).cons_cons _
    rw [split]
    exact (inBlock.trans (List.sublist_append_left _ back)).trans (List.sublist_append_right front _)
  · intro a reachable
    obtain ⟨depth, front, below, back, split, own⟩ := block a reachable
    refine ⟨depth, front, below, back, split, ?_⟩
    intro x
    rw [← descendants_iff nonempty reachable.mem]
    exact own.below_iff x
  · intro a b siblings before
    rcases siblings with ⟨rootA, rootB⟩ | ⟨p, reachable, childA, childB⟩
    · have inOrder := childrenAt_before (mem_roots.mpr rootA) (mem_roots.mpr rootB) before
      rw [List.map_append]
      exact (inOrder.trans laid.heads_fst).trans (List.sublist_append_left _ _)
    · obtain ⟨depth, front, below, back, split, own⟩ := block p reachable
      have inOrder := childrenAt_before ((child_iff nonempty childA.1).mpr childA)
        ((child_iff nonempty childB.1).mpr childB) before
      have whole : below.Sublist (trees ++ others) := by
        rw [split]
        exact (((List.Sublist.refl below).cons _).trans (List.sublist_append_left _ back)).trans
          (List.sublist_append_right front _)
      exact (inOrder.trans own.heads_fst).trans (whole.map Prod.fst)

def spanAt (id parent : String) (start : Int) : Span Int :=
  { spanId := id
    parentSpanId := parent
    name := id
    startTimeMs := start
    durationMs := 1
    model := ""
    modelNormalized := ""
    finishReason := ""
    inputTokens := 0
    outputTokens := 0
    costUsd := 0
    subtreeCostUsd := 0
    subtreeInputTokens := 0
    subtreeOutputTokens := 0
    errorType := ""
    errorMessage := ""
    kind := none
    input := none
    output := none }

/-- Two spans that name each other as parent, with one below them, beside a tree. -/
def crossedTrace : Trace Int :=
  { traceId := "t"
    name := "run"
    startTimeMs := 1000
    endTimeMs := 1010
    durationMs := 10
    userId := "u"
    hasError := false
    totalCostUsd := 0
    spans := [spanAt "x" "y" 1000, spanAt "late" "root" 1005, spanAt "root" "" 1000,
      spanAt "y" "x" 1000, spanAt "early" "root" 1000, spanAt "below" "y" 1000] }

end Tracium.Dashboard
