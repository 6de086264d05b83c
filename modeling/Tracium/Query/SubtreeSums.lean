import Mathlib.Algebra.Order.BigOperators.Group.List
import Mathlib.Algebra.Order.Monoid.Prod
import Tracium.MemoParts
import Tracium.Query.SubtreeTotals

/-! What every span's subtree totals are sums of, on any parent links: the recursion cuts a
cycle where it meets a span it is still summing, and what it has filed by then is reused. -/
namespace Tracium.Model

open Go OrderedMap MemoTree

/-- t names s as its parent. -/
def ChildOf (spans : List Span) (s t : Span) : Prop :=
  s ∈ spans ∧ t ∈ spans ∧ t.parentSpanID ≠ [] ∧ t.parentSpanID = s.spanID

/-- A transitive descendant. -/
def Descendant (spans : List Span) : Span → Span → Prop := Relation.TransGen (ChildOf spans)

open Classical in
/-- Every transitive descendant of s, in list order. -/
noncomputable def descendants (spans : List Span) (s : Span) : List Span :=
  spans.filter fun t => decide (Descendant spans s t)

theorem mem_descendants {spans : List Span} {s t : Span} :
    t ∈ descendants spans s ↔ t ∈ spans ∧ Descendant spans s t := by
  simp [descendants]

/-- The total counts distinct spans, which are s and descendants of it. -/
def CountsOnce (spans : List Span) (s : Span) (total : Totals) : Prop :=
  ∃ part : List Span, (part.map Span.spanID).Nodup ∧ s ∈ part ∧
    (∀ t ∈ part, t ∈ spans ∧ (t = s ∨ Descendant spans s t)) ∧ total = (part.map Span.totals).sum

section Links

variable {spans : List Span}

theorem mem_childrenOf {k : Str} {t : Span} (below : t ∈ childrenOf Span.parent spans k) :
    t ∈ spans ∧ t.parentSpanID ≠ [] ∧ t.parentSpanID = k := by
  obtain ⟨member, filed⟩ := List.mem_filter.mp below
  rw [decide_eq_true_eq, Span.parent] at filed
  split at filed
  · exact ⟨member, ‹_ ∧ _›.1, Option.some.inj filed⟩
  · cases filed

/-- A path of links from a span is a line of descent. -/
theorem descendant_of_links (distinct : (spans.map Span.spanID).Nodup) {s t : Span} (inSpans : s ∈ spans)
    (inSpans' : t ∈ spans)
    (path : Relation.ReflTransGen (Link Span.spanID (childrenOf Span.parent spans)) s.spanID t.spanID) :
    t = s ∨ Descendant spans s t := by
  have lift : ∀ k, Relation.ReflTransGen (Link Span.spanID (childrenOf Span.parent spans)) s.spanID k →
      ∃ u ∈ spans, u.spanID = k ∧ Relation.ReflTransGen (ChildOf spans) s u := by
    intro k path
    induction path with
    | refl => exact ⟨s, inSpans, rfl, .refl⟩
    | tail _ link ih =>
      obtain ⟨u, member, rfl, line⟩ := ih
      obtain ⟨child, below, rfl⟩ := link
      obtain ⟨isSpan, named, parent⟩ := mem_childrenOf below
      exact ⟨child, isSpan, rfl, line.tail ⟨member, isSpan, named, parent⟩⟩
  obtain ⟨u, member, same, line⟩ := lift _ path
  obtain rfl := List.inj_on_of_nodup_map distinct member inSpans' same
  exact Relation.reflTransGen_iff_eq_or_transGen.mp line

theorem Acyclic.not_descendant (acyclic : Acyclic spans) (s : Span) : ¬ Descendant spans s s := by
  intro loop
  apply acyclic s.spanID
  have ids : ∀ t, Descendant spans s t → Relation.TransGen
      (fun p c => ∃ s ∈ spans, s.parentSpanID ≠ [] ∧ s.parentSpanID = p ∧ s.spanID = c) s.spanID t.spanID := by
    intro t line
    induction line with
    | single link => exact .single ⟨_, link.2.1, link.2.2.1, link.2.2.2, rfl⟩
    | tail _ link ih => exact ih.tail ⟨_, link.2.1, link.2.2.1, link.2.2.2, rfl⟩
  exact ids s loop

/-- Without cycles a part that is closed under children holds every descendant. -/
theorem descendant_mem (acyclic : Acyclic spans) {part : List Span} {s t : Span} (top : s ∈ part)
    (closed : ∀ u ∈ part, ∀ c ∈ childrenOf Span.parent spans u.spanID, c ∈ part)
    (line : Descendant spans s t) : t ∈ part := by
  have child : ∀ {u c : Span}, ChildOf spans u c → c ∈ childrenOf Span.parent spans u.spanID := by
    rintro u c ⟨inSpans, isSpan, named, parent⟩
    have apart : c.parentSpanID ≠ c.spanID :=
      fun self => acyclic c.spanID (.single ⟨c, isSpan, named, self, rfl⟩)
    rw [childrenOf, List.mem_filter, Span.parent, if_pos ⟨named, apart⟩, parent]
    exact ⟨isSpan, decide_eq_true rfl⟩
  induction line with
  | single link => exact closed s top _ (child link)
  | tail _ link ih => exact closed _ ih _ (child link)

end Links

/-- Every span reports the sum of a part that hangs below it. -/
theorem assignSubtreeTotals_counted {spans : List Span} (distinct : (spans.map Span.spanID).Nodup) :
    ∃ memo : List (Str × Totals),
      assignSubtreeTotals spans = some (spans.map fun s => s.withSubtree (entry Span.spanID memo s)) ∧
      ∀ s ∈ spans, Counted Span.spanID Span.totals (childrenOf Span.parent spans) spans memo s
        (entry Span.spanID memo s) := by
  obtain ⟨out, assigned⟩ := assignSubtreeTotals_total spans
  obtain ⟨⟨reported, memo⟩, run, rfl⟩ := Option.map_eq_some_iff.mp assigned
  have below : ∀ k, ∀ child ∈ childrenOf Span.parent spans k, child ∈ spans :=
    fun k child member => (List.mem_filter.mp member).1
  obtain ⟨sound, _, rfl, complete⟩ := subtrees_counted (childrenOf_oneParent distinct) distinct
    (childrenOf_distinct distinct) below (fun s member => member) Sound.start run
  refine ⟨memo, ?_, ?_⟩
  · rw [assigned, List.zipWith_map_right, List.zipWith_self]
  · intro s member
    obtain ⟨total, found⟩ := complete s member
    have counted := sound.counted s member total found
    rwa [entry, found]

section Counted

variable {spans : List Span} (distinct : (spans.map Span.spanID).Nodup) {memo : List (Str × Totals)}
  {s : Span} {total : Totals}
  (counted : Counted Span.spanID Span.totals (childrenOf Span.parent spans) spans memo s total)

include distinct counted

theorem countsOnce (member : s ∈ spans) : CountsOnce spans s total := by
  obtain ⟨part, p, top, sum⟩ := counted
  refine ⟨part, p.distinct, top, ?_, sum⟩
  intro t inPart
  obtain ⟨only, single, path⟩ := p.reached t inPart
  obtain rfl := List.mem_singleton.mp single
  exact ⟨p.inNodes t inPart, descendant_of_links distinct member (p.inNodes t inPart) (LinkIn.links path)⟩

theorem total_eq_descendants (acyclic : Acyclic spans) (member : s ∈ spans) :
    total = s.totals + ((descendants spans s).map Span.totals).sum := by
  obtain ⟨part, p, top, rfl⟩ := counted
  have whole : part.Perm (s :: descendants spans s) := by
    have apart : s ∉ descendants spans s := by
      intro inside
      exact acyclic.not_descendant s (mem_descendants.mp inside).2
    have once : (descendants spans s).Nodup := (List.Nodup.of_map _ distinct).filter _
    rw [List.perm_ext_iff_of_nodup (List.Nodup.of_map _ p.distinct) (List.nodup_cons.mpr ⟨apart, once⟩)]
    intro t
    rw [List.mem_cons, mem_descendants]
    constructor
    · intro inPart
      obtain ⟨only, single, path⟩ := p.reached t inPart
      obtain rfl := List.mem_singleton.mp single
      have inSpans := p.inNodes t inPart
      exact (descendant_of_links distinct member inSpans (LinkIn.links path)).imp_right fun line => ⟨inSpans, line⟩
    · rintro (rfl | ⟨_, line⟩)
      · exact top
      · exact descendant_mem acyclic top (p.closed acyclic.links) line
  rw [(whole.map Span.totals).sum_eq, List.map_cons, List.sum_cons]

end Counted

/-- What is counted once is at least the span's own figures. -/
theorem CountsOnce.own_le {spans : List Span} {s : Span} {total : Totals} (counts : CountsOnce spans s total)
    (nonneg : ∀ t ∈ spans, 0 ≤ t.totals) : s.totals ≤ total := by
  obtain ⟨part, _, top, inside, rfl⟩ := counts
  refine List.single_le_sum ?_ _ (List.mem_map_of_mem top)
  intro x member
  obtain ⟨t, inPart, rfl⟩ := List.mem_map.mp member
  exact nonneg t (inside t inPart).1

theorem Acyclic.perm {spans spans' : List Span} (acyclic : Acyclic spans) (perm : spans'.Perm spans) :
    Acyclic spans' := by
  intro id loop
  apply acyclic id
  refine Relation.TransGen.mono ?_ _ _ loop
  rintro p c ⟨t, member, rest⟩
  exact ⟨t, perm.mem_iff.mp member, rest⟩

theorem descendants_perm {spans spans' : List Span} (perm : spans'.Perm spans) (s : Span) :
    (descendants spans' s).Perm (descendants spans s) := by
  have same : Descendant spans' = Descendant spans := by
    have links : ChildOf spans' = ChildOf spans := by
      funext u c
      simp only [ChildOf, perm.mem_iff]
    rw [Descendant, links]
    rfl
  rw [descendants, descendants, same]
  exact perm.filter _

/-- Two spans that name each other, and one below them. -/
def crossedSpans : List Span :=
  [⟨lit "a", lit "b", 1, 0, 0, 0, 0, 0⟩, ⟨lit "b", lit "a", 2, 0, 0, 0, 0, 0⟩,
    ⟨lit "c", lit "b", 4, 0, 0, 0, 0, 0⟩]

/-- The first span counts the whole cycle; the second was filed while the first was under
way, without it. -/
example : (assignSubtreeTotals crossedSpans).map (List.map Span.subtreeCostUSD) = some [7, 6, 4] := by
  decide +kernel

end Tracium.Model
