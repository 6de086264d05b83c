import Mathlib.Algebra.Order.Field.Rat
import Mathlib.Algebra.Group.Prod
import Mathlib.Algebra.Group.Submonoid.Operations
import Mathlib.Algebra.Order.Monoid.Submonoid
import Mathlib.Algebra.Order.BigOperators.Group.List
import Tracium.Go.Bytes
import Tracium.MemoTree

/-! The totals a trace's spans report for everything beneath them, against the totals of
the trace itself. Spans are found by span_id, and nothing keeps span ids apart: the table
is a plain MergeTree, and a trace id may be open in two workspaces. -/
namespace Tracium.Model

open Go OrderedMap MemoTree

/-- The fields of a span that its subtree totals are read from and written to. -/
structure Span where
  spanID : Str
  parentSpanID : Str
  costUSD : ℚ
  inputTokens : Int
  outputTokens : Int
  subtreeCostUSD : ℚ
  subtreeInputTokens : Int
  subtreeOutputTokens : Int
  deriving DecidableEq

/-- cost, inputTokens and outputTokens. -/
abbrev Totals := ℚ × Int × Int

def Span.totals (s : Span) : Totals := (s.costUSD, s.inputTokens, s.outputTokens)

/-- Where the children index files a span; one that names itself is filed nowhere. -/
def Span.parent (s : Span) : Option Str :=
  if s.parentSpanID ≠ [] ∧ s.parentSpanID ≠ s.spanID then some s.parentSpanID else none

def Span.withSubtree (s : Span) (t : Totals) : Span :=
  { s with subtreeCostUSD := t.1, subtreeInputTokens := t.2.1, subtreeOutputTokens := t.2.2 }

/-- The depth of the recursion is bounded by the number of ids. -/
def assignSubtreeTotals (spans : List Span) : Option (List Span) :=
  (subtrees Span.spanID Span.totals (childrenOf Span.parent spans) (spans.length + 1) [] spans).map
    fun out => List.zipWith Span.withSubtree spans out.1

/-- No parent, or one that is absent. -/
def Span.isRoot (spans : List Span) (s : Span) : Bool :=
  s.parentSpanID == [] || !(spans.map Span.spanID).contains s.parentSpanID

/-- No id is its own ancestor. -/
def Acyclic (spans : List Span) : Prop :=
  ∀ id, ¬ Relation.TransGen
    (fun p c => ∃ s ∈ spans, s.parentSpanID ≠ [] ∧ s.parentSpanID = p ∧ s.spanID = c) id id

/-- The roots report what the rows of the trace add up to; traceSelect's total_cost is
`sum(cost_usd)` of the same rows. -/
structure Reports (spans out : List Span) : Prop where
  cost : ((out.filter (Span.isRoot spans)).map Span.subtreeCostUSD).sum = (spans.map Span.costUSD).sum
  input : ((out.filter (Span.isRoot spans)).map Span.subtreeInputTokens).sum =
    (spans.map Span.inputTokens).sum
  output : ((out.filter (Span.isRoot spans)).map Span.subtreeOutputTokens).sum =
    (spans.map Span.outputTokens).sum

def Conserved (spans : List Span) : Prop :=
  ∃ out, assignSubtreeTotals spans = some out ∧ Reports spans out

/-- The same ids and parents, with any figures. -/
def SameLinks (spans spans' : List Span) : Prop :=
  spans'.map (fun s => (s.spanID, s.parentSpanID)) = spans.map fun s => (s.spanID, s.parentSpanID)

/-- The recursion returns on every list of rows, also on cyclic links. -/
theorem assignSubtreeTotals_total (spans : List Span) : ∃ out, assignSubtreeTotals spans = some out := by
  have inIds : ∀ k, ∀ child ∈ childrenOf Span.parent spans k, child.spanID ∈ spans.map Span.spanID :=
    fun k child below => List.mem_map_of_mem (List.mem_filter.mp below).1
  have enough : (spans.map Span.spanID).length < spans.length + 1 := by simp
  obtain ⟨out, run⟩ := subtrees_total Span.totals _ inIds enough spans
    (fun s member => List.mem_map_of_mem member) []
  exact ⟨_, by rw [assignSubtreeTotals, run]; rfl⟩

theorem Acyclic.links {spans : List Span} (acyclic : Acyclic spans) :
    MemoTree.Acyclic Span.spanID (childrenOf Span.parent spans) := by
  intro id loop
  apply acyclic id
  refine Relation.TransGen.mono ?_ _ _ loop
  rintro p c ⟨child, below, rfl⟩
  obtain ⟨member, filed⟩ := List.mem_filter.mp below
  rw [decide_eq_true_eq, Span.parent] at filed
  split at filed
  · exact ⟨child, member, ‹_ ∧ _›.1, Option.some.inj filed, rfl⟩
  · cases filed

/-- Without cycles no span names itself. -/
theorem Acyclic.isRoot_eq {spans : List Span} (acyclic : Acyclic spans) {s : Span} (member : s ∈ spans) :
    Span.isRoot spans s = MemoTree.isRoot Span.spanID Span.parent spans s := by
  rw [Bool.eq_iff_iff]
  by_cases orphan : s.parentSpanID = []
  · simp [Span.isRoot, MemoTree.isRoot, orphan, Span.parent]
  · have apart : s.parentSpanID ≠ s.spanID := by
      intro same
      exact acyclic s.spanID (.single ⟨s, member, orphan, same, rfl⟩)
    simp [Span.isRoot, MemoTree.isRoot, orphan, apart, Span.parent]

/-- Parents of lower rank than their children make no cycle. -/
theorem Acyclic.of_rank {spans : List Span} (rank : Str → Nat)
    (below : ∀ s ∈ spans, s.parentSpanID ≠ [] → rank s.parentSpanID < rank s.spanID) : Acyclic spans := by
  have lower : ∀ p c, Relation.TransGen
      (fun p c => ∃ s ∈ spans, s.parentSpanID ≠ [] ∧ s.parentSpanID = p ∧ s.spanID = c) p c →
      rank p < rank c := by
    intro p c path
    induction path with
    | single link =>
      obtain ⟨s, member, named, rfl, rfl⟩ := link
      exact below s member named
    | tail _ link ih =>
      obtain ⟨s, member, named, rfl, rfl⟩ := link
      exact ih.trans (below s member named)
  intro id loop
  exact absurd (lower id id loop) (Nat.lt_irrefl _)

/-- Every span reports the memo's entry for its id. -/
theorem assignSubtreeTotals_spec {spans : List Span} (acyclic : Acyclic spans) :
    ∃ visited memo, Table Span.spanID Span.totals (childrenOf Span.parent spans) visited memo ∧
      (∀ s ∈ visited, s ∈ spans) ∧
      (∀ s ∈ spans, ∃ total, get memo s.spanID = some total) ∧
      assignSubtreeTotals spans =
        some (spans.map fun s => s.withSubtree (entry Span.spanID memo s)) := by
  obtain ⟨out, assigned⟩ := assignSubtreeTotals_total spans
  obtain ⟨⟨reported, memo⟩, run, rfl⟩ := Option.map_eq_some_iff.mp assigned
  have below : ∀ k, ∀ child ∈ childrenOf Span.parent spans k, child ∈ spans :=
    fun k child member => (List.mem_filter.mp member).1
  obtain ⟨⟨ready, _⟩, rfl, complete⟩ :=
    subtrees_filled acyclic.links below (fun s member => member) Ready.start run
  obtain ⟨visited, table, inside⟩ := ready.table
  refine ⟨visited, memo, table, inside, complete, ?_⟩
  rw [assigned, List.zipWith_map_right, List.zipWith_self]

/-- What the roots report, as one sum. -/
theorem Reports.of_sum {spans : List Span} {f : Span → Totals}
    (sum : ((spans.filter (Span.isRoot spans)).map f).sum = (spans.map Span.totals).sum) :
    Reports spans (spans.map fun s => s.withSubtree (f s)) := by
  have roots : (spans.map fun s => s.withSubtree (f s)).filter (Span.isRoot spans) =
      (spans.filter (Span.isRoot spans)).map fun s => s.withSubtree (f s) := List.filter_map
  have part : ∀ {N : Type} [AddCommMonoid N] (g : Totals →+ N),
      ((spans.filter (Span.isRoot spans)).map (g ∘ f)).sum = (spans.map (g ∘ Span.totals)).sum := by
    intro N _ g
    rw [← List.map_map, ← List.map_map, ← map_list_sum, ← map_list_sum, sum]
  refine ⟨?_, ?_, ?_⟩
  · rw [roots, List.map_map]
    exact part (AddMonoidHom.fst _ _)
  · rw [roots, List.map_map]
    exact part ((AddMonoidHom.fst _ _).comp (AddMonoidHom.snd _ _))
  · rw [roots, List.map_map]
    exact part ((AddMonoidHom.snd _ _).comp (AddMonoidHom.snd _ _))

/-- Copies of a row carry its figures. -/
def EqualFigures (spans : List Span) : Prop :=
  ∀ s ∈ spans, ∀ t ∈ spans, s.spanID = t.spanID → s.totals = t.totals

/-- No id that several rows share is a parent. -/
def SingleParents (spans : List Span) : Prop :=
  ∀ c ∈ spans, c.parentSpanID ≠ [] → (spans.map Span.spanID).count c.parentSpanID ≤ 1

theorem Acyclic.parents_eq {spans : List Span} (acyclic : Acyclic spans) {c : Span} (member : c ∈ spans)
    (named : c.parentSpanID ≠ []) :
    parents Span.spanID Span.parent spans c = (spans.map Span.spanID).count c.parentSpanID := by
  have apart : c.parentSpanID ≠ c.spanID := by
    intro same
    exact acyclic c.spanID (.single ⟨c, member, named, same, rfl⟩)
  simp [parents, Span.parent, named, apart, List.count, List.countP_map, Function.comp_def, beq_eq_decide]

theorem conserved_of_single {spans : List Span} (acyclic : Acyclic spans) (figures : EqualFigures spans)
    (single : SingleParents spans) : Conserved spans := by
  obtain ⟨visited, memo, table, inside, complete, run⟩ := assignSubtreeTotals_spec acyclic
  refine ⟨_, run, Reports.of_sum ?_⟩
  rw [List.filter_congr fun s member => acyclic.isRoot_eq member]
  apply table.sum_roots figures _ inside complete
  intro c member
  by_cases named : c.parentSpanID ≠ []
  · rw [acyclic.parents_eq member named]
    exact single c member named
  · simp [parents, Span.parent, named]

theorem conserved_of_nodup {spans : List Span} (acyclic : Acyclic spans)
    (distinct : (spans.map Span.spanID).Nodup) : Conserved spans := by
  apply conserved_of_single acyclic
  · intro s member t member' same
    rw [List.inj_on_of_nodup_map distinct member member' same]
  · intro c _ _
    exact List.nodup_iff_count_le_one.mp distinct _

theorem SameLinks.ids {spans spans' : List Span} (links : SameLinks spans spans') :
    spans'.map Span.spanID = spans.map Span.spanID := by
  have ids := congrArg (List.map Prod.fst) links
  rw [List.map_map, List.map_map] at ids
  exact ids

theorem SameLinks.row {spans spans' : List Span} (links : SameLinks spans spans') {s : Span}
    (member : s ∈ spans') : ∃ t ∈ spans, t.spanID = s.spanID ∧ t.parentSpanID = s.parentSpanID := by
  have linked : (s.spanID, s.parentSpanID) ∈ spans'.map fun s => (s.spanID, s.parentSpanID) :=
    List.mem_map.mpr ⟨s, member, rfl⟩
  rw [links] at linked
  obtain ⟨t, inSpans, same⟩ := List.mem_map.mp linked
  exact ⟨t, inSpans, Prod.mk.inj same⟩

theorem SameLinks.acyclic {spans spans' : List Span} (links : SameLinks spans spans')
    (acyclic : Acyclic spans) : Acyclic spans' := by
  intro id loop
  apply acyclic id
  refine Relation.TransGen.mono ?_ _ _ loop
  rintro p c ⟨s, member, named, rfl, rfl⟩
  obtain ⟨t, inSpans, sameID, sameParent⟩ := links.row member
  exact ⟨t, inSpans, sameParent ▸ named, sameParent, sameID⟩

/-! Two rows of one id: only the row reached first enters any total. -/

/-- The row with figures of our choice. -/
def Span.marked (input output : Int) (s : Span) : Span :=
  { s with costUSD := 0, inputTokens := input, outputTokens := output }

/-- Two places of a list with one id. -/
theorem exists_shared {spans : List Span} (shared : ¬ (spans.map Span.spanID).Nodup) :
    ∃ before s between t after, spans = before ++ s :: (between ++ t :: after) ∧ s.spanID = t.spanID := by
  induction spans with
  | nil => simp at shared
  | cons first rest ih =>
    by_cases again : first.spanID ∈ rest.map Span.spanID
    · obtain ⟨t, member, same⟩ := List.mem_map.mp again
      obtain ⟨between, after, rfl⟩ := List.append_of_mem member
      exact ⟨[], first, between, t, after, rfl, same.symm⟩
    · have tail : ¬ (rest.map Span.spanID).Nodup :=
        fun distinct => shared (List.nodup_cons.mpr ⟨again, distinct⟩)
      obtain ⟨before, s, between, t, after, rfl, same⟩ := ih tail
      exact ⟨first :: before, s, between, t, after, rfl, same⟩

/-- A figure no visited row has is in nobody's total. -/
theorem unreported {spans visited : List Span} {memo : List (Str × Totals)}
    (table : Table Span.spanID Span.totals (childrenOf Span.parent spans) visited memo)
    (g : Totals →+ Int) (zero : ∀ s ∈ visited, g s.totals = 0) (roots : List Span) :
    (roots.map fun s => g (entry Span.spanID memo s)).sum = 0 := by
  apply List.sum_eq_zero
  intro x member
  obtain ⟨s, _, rfl⟩ := List.mem_map.mp member
  exact table.mem_submonoid (AddMonoidHom.mker g) zero s

/-- One row with an input token, another with an output token, nothing elsewhere. -/
def markPair (before between after : List Span) (s t : Span) : List Span :=
  before.map (Span.marked 0 0) ++
    s.marked 1 0 :: (between.map (Span.marked 0 0) ++ t.marked 0 1 :: after.map (Span.marked 0 0))

section MarkPair

variable {before between after : List Span} {s t : Span}

theorem markPair_links :
    SameLinks (before ++ s :: (between ++ t :: after)) (markPair before between after s t) := by
  simp [SameLinks, markPair, Span.marked, Function.comp_def]

theorem markPair_rows {r : Span} (member : r ∈ markPair before between after s t) :
    r = s.marked 1 0 ∨ r = t.marked 0 1 ∨ ∃ q : Span, r = q.marked 0 0 := by
  simp only [markPair, List.mem_append, List.mem_cons, List.mem_map] at member
  rcases member with ⟨q, _, rfl⟩ | rfl | ⟨q, _, rfl⟩ | rfl | ⟨q, _, rfl⟩
  · exact .inr (.inr ⟨q, rfl⟩)
  · exact .inl rfl
  · exact .inr (.inr ⟨q, rfl⟩)
  · exact .inr (.inl rfl)
  · exact .inr (.inr ⟨q, rfl⟩)

theorem markPair_input : ((markPair before between after s t).map Span.inputTokens).sum = 1 := by
  simp [markPair, Span.marked, Function.comp_def]

theorem markPair_output : ((markPair before between after s t).map Span.outputTokens).sum = 1 := by
  simp [markPair, Span.marked, Function.comp_def]

/-- The memo holds one row for each id, so one of the two tokens is lost. -/
theorem markPair_not_conserved (same : s.spanID = t.spanID)
    (acyclic : Acyclic (markPair before between after s t)) :
    ¬ Conserved (markPair before between after s t) := by
  rintro ⟨out, run, reports⟩
  obtain ⟨visited, memo, table, inside, _, run'⟩ := assignSubtreeTotals_spec acyclic
  obtain rfl := Option.some.inj (run.symm.trans run')
  by_cases first : s.marked 1 0 ∈ visited
  · have second : t.marked 0 1 ∉ visited := by
      intro both
      have one := List.inj_on_of_nodup_map table.nodup first both same
      simpa [Span.marked] using congrArg Span.inputTokens one
    have lost := unreported table ((AddMonoidHom.snd _ _).comp (AddMonoidHom.snd _ _)) (by
      intro r member
      rcases markPair_rows (inside r member) with rfl | rfl | ⟨q, rfl⟩
      · rfl
      · exact absurd member second
      · rfl)
    have output := reports.output
    rw [List.filter_map, List.map_map, markPair_output] at output
    exact absurd ((lost _).symm.trans output) (by decide)
  · have lost := unreported table ((AddMonoidHom.fst _ _).comp (AddMonoidHom.snd _ _)) (by
      intro r member
      rcases markPair_rows (inside r member) with rfl | rfl | ⟨q, rfl⟩
      · exact absurd member first
      · rfl
      · rfl)
    have input := reports.input
    rw [List.filter_map, List.map_map, markPair_input] at input
    exact absurd ((lost _).symm.trans input) (by decide)

end MarkPair

/-- Rows that share an id lose or repeat figures; the figures can be non-negative ones. -/
theorem shared_not_conserved {spans : List Span} (acyclic : Acyclic spans)
    (shared : ¬ (spans.map Span.spanID).Nodup) :
    ∃ spans', SameLinks spans spans' ∧
      (∀ r ∈ spans', 0 ≤ r.costUSD ∧ 0 ≤ r.inputTokens ∧ 0 ≤ r.outputTokens) ∧ ¬ Conserved spans' := by
  obtain ⟨before, s, between, t, after, rfl, same⟩ := exists_shared shared
  refine ⟨_, markPair_links, ?_, markPair_not_conserved same (markPair_links.acyclic acyclic)⟩
  intro r member
  rcases markPair_rows member with rfl | rfl | ⟨q, rfl⟩
  · simp [Span.marked]
  · simp [Span.marked]
  · simp [Span.marked]

/-! Copies of one row, as a batch that was inserted twice leaves them: what is lost or
repeated then is what hangs below a row that has copies. -/

/-- An input token on every row of one id. -/
def markID (id : Str) (spans : List Span) : List Span :=
  spans.map fun s => s.marked (if s.spanID = id then 1 else 0) 0

theorem markID_links (id : Str) (spans : List Span) : SameLinks spans (markID id spans) := by
  simp [SameLinks, markID, Span.marked, Function.comp_def]

theorem markID_figures (id : Str) (spans : List Span) : EqualFigures (markID id spans) := by
  intro s member t member' same
  obtain ⟨r, _, rfl⟩ := List.mem_map.mp member
  obtain ⟨r', _, rfl⟩ := List.mem_map.mp member'
  have ids : r.spanID = r'.spanID := same
  simp [Span.marked, Span.totals, ids]

/-- The input tokens of a total. -/
def tokens : Totals →+ Int := (AddMonoidHom.fst _ _).comp (AddMonoidHom.snd _ _)

theorem markID_tokens {id : Str} {spans : List Span} {s : Span} (member : s ∈ markID id spans) :
    tokens s.totals = if s.spanID = id then 1 else 0 := by
  obtain ⟨r, _, rfl⟩ := List.mem_map.mp member
  rfl

section MarkID

variable {id : Str} {spans visited : List Span} {memo : List (Str × Totals)}
  (table : Table Span.spanID Span.totals (childrenOf Span.parent (markID id spans)) visited memo)
  (inside : ∀ s ∈ visited, s ∈ markID id spans)

include table inside

theorem markID_entry_nonneg (s : Span) : 0 ≤ tokens (entry Span.spanID memo s) := by
  apply table.mem_submonoid ((AddSubmonoid.nonneg Int).comap tokens)
  intro s member
  rw [AddSubmonoid.mem_comap, AddSubmonoid.mem_nonneg, markID_tokens (inside s member)]
  split
  · exact Int.one_nonneg
  · exact le_rfl

theorem markID_entry_pos {s : Span} (filed : ∃ total, get memo s.spanID = some total)
    (here : s.spanID = id) : 0 < tokens (entry Span.spanID memo s) := by
  obtain ⟨r, seen, same⟩ := List.mem_map.mp ((table.get_isSome_iff _).mp filed)
  have own : tokens r.totals = 1 := by
    rw [markID_tokens (inside r seen), if_pos (same.trans here)]
  have below : 0 ≤ ((childrenOf Span.parent (markID id spans) r.spanID).map
      (tokens ∘ entry Span.spanID memo)).sum := by
    apply List.sum_nonneg
    intro x member
    obtain ⟨s, _, rfl⟩ := List.mem_map.mp member
    exact markID_entry_nonneg table inside s
  have total := congrArg tokens (table.entry_eq seen)
  rw [map_add, map_list_sum, List.map_map, own] at total
  have entries : entry Span.spanID memo r = entry Span.spanID memo s := by
    rw [entry, entry, same]
  rw [← entries, total]
  omega

end MarkID

/-- A parent met twice: its child's token is reported once too often. -/
theorem markID_not_conserved {spans : List Span} (acyclic : Acyclic spans) {c : Span} (member : c ∈ spans)
    (named : c.parentSpanID ≠ []) (twice : 1 < (spans.map Span.spanID).count c.parentSpanID) :
    ¬ Conserved (markID c.spanID spans) := by
  have links := markID_links c.spanID spans
  have acyclic' := links.acyclic acyclic
  rintro ⟨out, run, reports⟩
  obtain ⟨visited, memo, table, inside, complete, run'⟩ := assignSubtreeTotals_spec acyclic'
  obtain rfl := Option.some.inj (run.symm.trans run')
  -- what the roots report is the rows' tokens and a surplus, so the surplus is zero
  have surplus := congrArg tokens
    (table.sum_roots_add (markID_figures c.spanID spans) inside complete)
  rw [← List.filter_congr fun s member => acyclic'.isRoot_eq member, map_add, map_list_sum,
    map_list_sum, map_list_sum, List.map_map, List.map_map, List.map_map] at surplus
  have input := reports.input
  rw [List.filter_map, List.map_map] at input
  have none := add_eq_left.mp (surplus.symm.trans input)
  -- but the marked child is in it
  have marked : c.marked 1 0 ∈ markID c.spanID spans := List.mem_map.mpr ⟨c, member, by simp⟩
  have further : parents Span.spanID Span.parent (markID c.spanID spans) (c.marked 1 0) - 1 ≠ 0 := by
    rw [acyclic'.parents_eq marked named, links.ids]
    exact (Nat.sub_pos_of_lt twice).ne'
  have positive := nsmul_pos (markID_entry_pos table inside (complete _ marked) rfl) further
  have term := List.single_le_sum (l := (markID c.spanID spans).map
    (tokens ∘ fun s => (parents Span.spanID Span.parent (markID c.spanID spans) s - 1) •
      entry Span.spanID memo s)) (by
      intro x member
      obtain ⟨s, _, rfl⟩ := List.mem_map.mp member
      rw [Function.comp_apply, map_nsmul]
      exact nsmul_nonneg (markID_entry_nonneg table inside s) _) _ (List.mem_map_of_mem marked)
  rw [none, Function.comp_apply, map_nsmul] at term
  omega

/-- Rows whose copies carry equal figures: the roots report the trace's totals, whatever the
figures, exactly when no row that has copies has children. -/
theorem copies_conserved_iff (spans : List Span) (acyclic : Acyclic spans) :
    (∀ spans', SameLinks spans spans' → EqualFigures spans' → Conserved spans') ↔ SingleParents spans := by
  constructor
  · intro conserved c member named
    by_contra twice
    exact markID_not_conserved acyclic member named (by omega)
      (conserved _ (markID_links _ _) (markID_figures _ _))
  · intro single spans' links figures
    apply conserved_of_single (links.acyclic acyclic) figures
    intro c member named
    rw [links.ids]
    obtain ⟨s, inSpans, _, parent⟩ := links.row member
    rw [← parent] at named ⊢
    exact single s inSpans named

/-- For acyclic rows: whatever figures the rows carry, the roots report the trace's totals,
exactly when no two rows share a span id. -/
theorem subtree_totals_conserved_iff (spans : List Span) (acyclic : Acyclic spans) :
    (∀ spans', SameLinks spans spans' → Conserved spans') ↔ (spans.map Span.spanID).Nodup := by
  constructor
  · intro conserved
    by_contra shared
    obtain ⟨spans', links, _, broken⟩ := shared_not_conserved acyclic shared
    exact broken (conserved spans' links)
  · intro distinct spans' links
    apply conserved_of_nodup (links.acyclic acyclic)
    rw [links.ids]
    exact distinct

/-- An agent's run and its model call. -/
def agentRun : Span := ⟨lit "a", [], 1, 0, 0, 0, 0, 0⟩

def modelCall : Span := ⟨lit "b", lit "a", 2, 30, 40, 0, 0, 0⟩

theorem agentRun_acyclic {spans : List Span} (rows : ∀ s ∈ spans, s = agentRun ∨ s = modelCall) :
    Acyclic spans := by
  apply Acyclic.of_rank fun id => if id = lit "b" then 1 else 0
  intro s member
  rcases rows s member with rfl | rfl
  · decide
  · decide

theorem subtree_totals_conserved_agentRun :
    Acyclic [agentRun, modelCall] ∧
      ∀ spans', SameLinks [agentRun, modelCall] spans' → Conserved spans' := by
  have acyclic : Acyclic [agentRun, modelCall] := agentRun_acyclic (by simp)
  exact ⟨acyclic, (subtree_totals_conserved_iff _ acyclic).mpr (by decide)⟩

/-- A batch that was inserted twice: the trace cost 6, and its two roots report 10. -/
theorem subtree_totals_retried_batch :
    Acyclic [agentRun, agentRun, modelCall, modelCall] ∧
      ¬ Conserved [agentRun, agentRun, modelCall, modelCall] := by
  refine ⟨agentRun_acyclic (by simp), ?_⟩
  rintro ⟨out, assigned, reports⟩
  have reported : assignSubtreeTotals [agentRun, agentRun, modelCall, modelCall] =
      some [agentRun.withSubtree (5, 60, 80), agentRun.withSubtree (5, 60, 80),
        modelCall.withSubtree (2, 30, 40), modelCall.withSubtree (2, 30, 40)] := by
    decide +kernel
  obtain rfl := Option.some.inj (assigned.symm.trans reported)
  have cost := reports.cost
  revert cost
  decide +kernel

end Tracium.Model
