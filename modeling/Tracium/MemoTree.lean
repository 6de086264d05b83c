import Mathlib.Algebra.BigOperators.Group.List.Basic
import Mathlib.Algebra.Group.Submonoid.BigOperators
import Mathlib.Logic.Relation
import Tracium.GroupBy

/-! Subtree totals of a forest, summed depth first with a memo. Nodes are found by id:
several nodes may carry one id, and then the memo holds the node that was reached first.
The memo is a table in which every entry refers to earlier ones. -/
namespace MemoTree

open OrderedMap GroupBy

variable {α κ M : Type} [DecidableEq κ]

section Search

variable [AddCommMonoid M] (key : α → κ) (own : α → M) (children : κ → List α)

/-- The total of one node; `visiting` is the stack of ids under way. A node met while its
id is under way adds nothing. -/
def subtree : Nat → List κ → List (κ × M) → α → Option (M × List (κ × M))
  | 0, _, _, _ => none
  | fuel + 1, visiting, memo, node =>
    match get memo (key node) with
    | some total => some (total, memo)
    | none =>
      if key node ∈ visiting then some (0, memo)
      else
        ((children (key node)).foldlM
          (fun acc child => (subtree fuel (key node :: visiting) acc.2 child).map
            fun sub => (acc.1 + sub.1, sub.2))
          (own node, memo)).map fun acc => (acc.1, put acc.2 (key node) acc.1)

/-- The totals of the nodes in order, one memo for all. -/
def subtrees (fuel : Nat) : List (κ × M) → List α → Option (List M × List (κ × M))
  | memo, [] => some ([], memo)
  | memo, node :: rest =>
    (subtree key own children fuel [] memo node).bind fun sub =>
      (subtrees fuel sub.2 rest).map fun out => (sub.1 :: out.1, out.2)

/-- What the memo holds for a node. -/
def entry (memo : List (κ × M)) (node : α) : M := (get memo (key node)).getD 0

/-- The nodes entered so far, in the order they were finished, and the memo they make. -/
inductive Table : List α → List (κ × M) → Prop
  | nil : Table [] []
  | snoc {visited : List α} {memo : List (κ × M)} {node : α} :
      Table visited memo →
      get memo (key node) = none →
      (∀ child ∈ children (key node), ∃ total, get memo (key child) = some total) →
      Table (visited ++ [node])
        (memo ++ [(key node, own node + ((children (key node)).map (entry key memo)).sum)])

/-- Ids linked from parent to child. -/
def Link (p c : κ) : Prop := ∃ child ∈ children p, key child = c

def Acyclic : Prop := ∀ k, ¬ Relation.TransGen (Link key children) k k

end Search

/-- Every entry of the first memo is in the second. -/
def Extends (memo memo' : List (κ × M)) : Prop :=
  ∀ k total, get memo k = some total → get memo' k = some total

theorem Extends.refl (memo : List (κ × M)) : Extends memo memo := fun _ _ found => found

theorem Extends.trans {memo memo' memo'' : List (κ × M)} (first : Extends memo memo')
    (second : Extends memo' memo'') : Extends memo memo'' :=
  fun k total found => second k total (first k total found)

theorem Extends.snoc (memo : List (κ × M)) (e : κ × M) : Extends memo (memo ++ [e]) := by
  intro k total found
  rw [get_append_one, found]
  rfl

variable [AddCommMonoid M] {key : α → κ} {own : α → M} {children : κ → List α}

theorem Extends.entry_eq {memo memo' : List (κ × M)} (ext : Extends memo memo') {node : α}
    {total : M} (found : get memo (key node) = some total) :
    entry key memo' node = entry key memo node := by
  simp only [entry, found, ext _ _ found]

/-! The table. -/

theorem Table.keys {visited : List α} {memo : List (κ × M)} (table : Table key own children visited memo) :
    memo.map Prod.fst = visited.map key := by
  induction table with
  | nil => rfl
  | snoc _ _ _ ih => simp [ih]

theorem Table.get_isSome_iff {visited : List α} {memo : List (κ × M)}
    (table : Table key own children visited memo) (k : κ) :
    (∃ total, get memo k = some total) ↔ k ∈ visited.map key := by
  rw [← table.keys, ← OrderedMap.get_isSome_iff, Option.isSome_iff_exists]

/-- One node for each id. -/
theorem Table.nodup {visited : List α} {memo : List (κ × M)} (table : Table key own children visited memo) :
    (visited.map key).Nodup := by
  induction table with
  | nil => exact List.nodup_nil
  | snoc table absent _ ih =>
    rw [List.map_append, List.map_singleton, List.nodup_append]
    refine ⟨ih, List.nodup_singleton _, ?_⟩
    rintro k member _ last rfl
    obtain ⟨total, found⟩ := (table.get_isSome_iff k).mpr member
    rw [List.mem_singleton.mp last, absent] at found
    cases found

theorem Table.present {visited : List α} {memo : List (κ × M)}
    (table : Table key own children visited memo) {node child : α} (member : node ∈ visited)
    (below : child ∈ children (key node)) : ∃ total, get memo (key child) = some total := by
  induction table with
  | nil => cases member
  | snoc _ _ present ih =>
    rcases List.mem_append.mp member with old | last
    · obtain ⟨total, found⟩ := ih old
      exact ⟨total, Extends.snoc _ _ _ _ found⟩
    · obtain rfl := List.mem_singleton.mp last
      obtain ⟨total, found⟩ := present child below
      exact ⟨total, Extends.snoc _ _ _ _ found⟩

/-- Every entry is the node's own figure and the entries of its children. -/
theorem Table.entry_eq {visited : List α} {memo : List (κ × M)}
    (table : Table key own children visited memo) {node : α} (member : node ∈ visited) :
    entry key memo node = own node + ((children (key node)).map (entry key memo)).sum := by
  induction table with
  | nil => cases member
  | @snoc visited memo last table absent present ih =>
    have kept : ∀ k, (∀ child ∈ children k, ∃ total, get memo (key child) = some total) → ∀ e,
        (children k).map (entry key (memo ++ [e])) = (children k).map (entry key memo) := by
      intro k present e
      apply List.map_congr_left
      intro child below
      obtain ⟨total, found⟩ := present child below
      exact (Extends.snoc memo e).entry_eq found
    rcases List.mem_append.mp member with old | isLast
    · obtain ⟨total, found⟩ := (table.get_isSome_iff _).mpr (List.mem_map_of_mem old)
      rw [kept _ fun child below => table.present old below, (Extends.snoc memo _).entry_eq found]
      exact ih old
    · obtain rfl := List.mem_singleton.mp isLast
      rw [kept _ present, entry, get_append_one, absent]
      simp

/-- Sums that stay inside a submonoid: an id none of whose figures is used leaves no trace. -/
theorem Table.mem_submonoid {visited : List α} {memo : List (κ × M)}
    (table : Table key own children visited memo) (S : AddSubmonoid M)
    (inside : ∀ node ∈ visited, own node ∈ S) (node : α) : entry key memo node ∈ S := by
  induction table generalizing node with
  | nil => exact S.zero_mem
  | @snoc visited memo last table absent present ih =>
    have before := ih fun node member => inside node (List.mem_append_left _ member)
    have lastInside : own last ∈ S := inside last (by simp)
    simp only [entry, get_append_one]
    cases found : get memo (key node) with
    | some total =>
      have old := before node
      simpa [entry, found] using old
    | none =>
      by_cases same : key last = key node
      · simp only [same, ↓reduceIte, Option.none_or, Option.getD_some]
        apply S.add_mem lastInside
        apply list_sum_mem
        intro total member
        obtain ⟨child, _, rfl⟩ := List.mem_map.mp member
        exact before child
      · simp [same]

/-! The search. -/

/-- Between two calls: the memo is a table over the nodes, and no id of it is under way. -/
structure Ready (key : α → κ) (own : α → M) (children : κ → List α) (nodes : List α) (visiting : List κ)
    (memo : List (κ × M)) : Prop where
  table : ∃ visited, Table key own children visited memo ∧ ∀ node ∈ visited, node ∈ nodes
  off : ∀ k ∈ visiting, get memo k = none

section Run

variable {nodes : List α} {visiting : List κ} {memo memo' : List (κ × M)} {node : α} {total : M}

theorem Ready.start : Ready key own children nodes [] ([] : List (κ × M)) :=
  ⟨⟨[], .nil, by simp⟩, by simp⟩

theorem Ready.enter (ready : Ready key own children nodes visiting memo) {k : κ}
    (absent : get memo k = none) : Ready key own children nodes (k :: visiting) memo := by
  refine ⟨ready.table, ?_⟩
  intro other under
  rcases List.mem_cons.mp under with rfl | earlier
  · exact absent
  · exact ready.off other earlier

/-- A node whose children are in the table is added to it. -/
theorem Ready.leave (ready : Ready key own children nodes (key node :: visiting) memo)
    (member : node ∈ nodes) (fresh : key node ∉ visiting)
    (present : ∀ child ∈ children (key node), ∃ total, get memo (key child) = some total) :
    Ready key own children nodes visiting
      (memo ++ [(key node, own node + ((children (key node)).map (entry key memo)).sum)]) := by
  obtain ⟨visited, table, inside⟩ := ready.table
  refine ⟨⟨visited ++ [node], table.snoc (ready.off _ (List.mem_cons_self ..)) present, ?_⟩, ?_⟩
  · intro other inVisited
    rcases List.mem_append.mp inVisited with old | last
    · exact inside other old
    · exact List.mem_singleton.mp last ▸ member
  · intro k under
    have other : key node ≠ k := fun same => fresh (same ▸ under)
    rw [get_append_one, ready.off k (List.mem_cons_of_mem _ under)]
    simp [other]

/-- What a call makes of the memo, and the entry it leaves for its node. -/
def Filled (key : α → κ) (own : α → M) (children : κ → List α) (nodes : List α) (visiting : List κ)
    (memo memo' : List (κ × M)) : Prop :=
  Ready key own children nodes visiting memo' ∧ Extends memo memo'

/-- The children one after the other. -/
theorem fold_filled {call : List (κ × M) → α → Option (M × List (κ × M))} (siblings : List α)
    (each : ∀ child ∈ siblings, ∀ memo memo' total, Ready key own children nodes visiting memo →
      call memo child = some (total, memo') →
      Filled key own children nodes visiting memo memo' ∧ get memo' (key child) = some total)
    {start : M} (ready : Ready key own children nodes visiting memo)
    (run : siblings.foldlM (fun acc child => (call acc.2 child).map fun sub => (acc.1 + sub.1, sub.2))
      (start, memo) = some (total, memo')) :
    Filled key own children nodes visiting memo memo' ∧
      total = start + (siblings.map (entry key memo')).sum ∧
      ∀ child ∈ siblings, ∃ total, get memo' (key child) = some total := by
  induction siblings generalizing memo start with
  | nil =>
    obtain ⟨rfl, rfl⟩ : start = total ∧ memo = memo' := by simpa using run
    exact ⟨⟨ready, Extends.refl _⟩, by simp, by simp⟩
  | cons child rest ih =>
    rw [List.foldlM_cons] at run
    obtain ⟨⟨acc, mid⟩, first, run⟩ := Option.bind_eq_some_iff.mp run
    obtain ⟨⟨sub, mid'⟩, called, same⟩ := Option.map_eq_some_iff.mp first
    obtain ⟨rfl, rfl⟩ := Prod.mk.inj same
    obtain ⟨⟨ready', ext⟩, here⟩ := each child (List.mem_cons_self ..) memo mid' sub ready called
    obtain ⟨⟨ready'', ext'⟩, sum, present⟩ :=
      ih (fun c member => each c (List.mem_cons_of_mem _ member)) ready' run
    have kept : get memo' (key child) = some sub := ext' _ _ here
    refine ⟨⟨ready'', ext.trans ext'⟩, ?_, ?_⟩
    · rw [sum, List.map_cons, List.sum_cons, entry, kept, Option.getD_some, add_assoc]
    · intro c member
      rcases List.mem_cons.mp member with rfl | later
      · exact ⟨sub, kept⟩
      · exact present c later

/-- What a call can do: read the memo, meet its own id under way, or sum up the children and
file the sum. -/
theorem subtree_cases {fuel : Nat}
    (run : subtree key own children (fuel + 1) visiting memo node = some (total, memo')) :
    (get memo (key node) = some total ∧ memo' = memo) ∨
    (key node ∈ visiting ∧ total = 0 ∧ memo' = memo) ∨
    (get memo (key node) = none ∧ key node ∉ visiting ∧ ∃ mid,
      (children (key node)).foldlM (fun acc child =>
        (subtree key own children fuel (key node :: visiting) acc.2 child).map
          fun sub => (acc.1 + sub.1, sub.2)) (own node, memo) = some (total, mid) ∧
      memo' = put mid (key node) total) := by
  rw [subtree] at run
  cases cached : get memo (key node) with
  | some known =>
    rw [cached] at run
    obtain ⟨rfl, rfl⟩ : known = total ∧ memo = memo' := by simpa using run
    exact .inl ⟨rfl, rfl⟩
  | none =>
    rw [cached] at run
    by_cases under : key node ∈ visiting
    · simp only [under, ↓reduceIte, Option.some.injEq, Prod.mk.injEq] at run
      obtain ⟨rfl, rfl⟩ := run
      exact .inr (.inl ⟨under, rfl, rfl⟩)
    · simp only [under, ↓reduceIte, Option.map_eq_some_iff, Prod.mk.injEq] at run
      obtain ⟨⟨sum, mid⟩, fold, rfl, rfl⟩ := run
      exact .inr (.inr ⟨rfl, under, mid, fold, rfl⟩)

/-- Where the links have no cycle a node is never met under way: the stack holds the ids
above it. -/
theorem subtree_filled (acyclic : Acyclic key children) (inNodes : ∀ k, ∀ child ∈ children k, child ∈ nodes)
    {fuel : Nat} (member : node ∈ nodes)
    (above : ∀ k ∈ visiting, Relation.TransGen (Link key children) k (key node))
    (ready : Ready key own children nodes visiting memo)
    (run : subtree key own children fuel visiting memo node = some (total, memo')) :
    Filled key own children nodes visiting memo memo' ∧ get memo' (key node) = some total := by
  induction fuel generalizing visiting memo memo' node total with
  | zero => simp [subtree] at run
  | succ fuel ih =>
    rcases subtree_cases run with ⟨cached, rfl⟩ | ⟨under, _, _⟩ | ⟨cached, fresh, mid, fold, rfl⟩
    · exact ⟨⟨ready, Extends.refl _⟩, cached⟩
    · exact absurd (above _ under) (acyclic _)
    · have each : ∀ child ∈ children (key node), ∀ memo memo' total,
          Ready key own children nodes (key node :: visiting) memo →
          subtree key own children fuel (key node :: visiting) memo child = some (total, memo') →
          Filled key own children nodes (key node :: visiting) memo memo' ∧
            get memo' (key child) = some total := by
        intro child below memo memo' total ready called
        have link : Link key children (key node) (key child) := ⟨child, below, rfl⟩
        apply ih (inNodes _ child below) _ ready called
        intro k under
        rcases List.mem_cons.mp under with rfl | earlier
        · exact .single link
        · exact (above k earlier).tail link
      obtain ⟨⟨done, ext⟩, rfl, present⟩ := fold_filled _ each (ready.enter cached) fold
      have absent : get mid (key node) = none := done.off _ (List.mem_cons_self ..)
      rw [put_absent absent]
      refine ⟨⟨done.leave member fresh present, ext.trans (Extends.snoc _ _)⟩, ?_⟩
      simp [get_append_one, absent]

/-- The run over all nodes fills the memo, and reports each node's entry. -/
theorem subtrees_filled (acyclic : Acyclic key children) (inNodes : ∀ k, ∀ child ∈ children k, child ∈ nodes)
    {fuel : Nat} {rest : List α} {out : List M} (subset : ∀ node ∈ rest, node ∈ nodes)
    (ready : Ready key own children nodes [] memo)
    (run : subtrees key own children fuel memo rest = some (out, memo')) :
    Filled key own children nodes [] memo memo' ∧ out = rest.map (entry key memo') ∧
      ∀ node ∈ rest, ∃ total, get memo' (key node) = some total := by
  induction rest generalizing memo out with
  | nil =>
    obtain ⟨rfl, rfl⟩ : [] = out ∧ memo = memo' := by simpa [subtrees] using run
    exact ⟨⟨ready, Extends.refl _⟩, rfl, by simp⟩
  | cons node rest ih =>
    obtain ⟨⟨total, mid⟩, called, run⟩ := Option.bind_eq_some_iff.mp run
    obtain ⟨⟨outs, last⟩, tail, same⟩ := Option.map_eq_some_iff.mp run
    obtain ⟨rfl, rfl⟩ : total :: outs = out ∧ last = memo' := Prod.mk.inj same
    obtain ⟨⟨ready', ext⟩, here⟩ :=
      subtree_filled acyclic inNodes (subset node (List.mem_cons_self ..)) (by simp) ready called
    obtain ⟨⟨ready'', ext'⟩, reported, present⟩ :=
      ih (fun n member => subset n (List.mem_cons_of_mem _ member)) ready' tail
    have kept : get last (key node) = some total := ext' _ _ here
    refine ⟨⟨ready'', ext.trans ext'⟩, ?_, ?_⟩
    · rw [List.map_cons, entry, kept, Option.getD_some, reported]
    · intro n member
      rcases List.mem_cons.mp member with rfl | later
      · exact ⟨total, kept⟩
      · exact present n later

/-! The search ends: the ids under way are distinct, so the stack is no deeper than there
are ids. -/

omit [DecidableEq κ] in
theorem fold_total {call : List (κ × M) → α → Option (M × List (κ × M))} (siblings : List α)
    (each : ∀ child ∈ siblings, ∀ memo, ∃ sub, call memo child = some sub) (acc : M × List (κ × M)) :
    ∃ out, siblings.foldlM (fun acc child => (call acc.2 child).map fun sub => (acc.1 + sub.1, sub.2)) acc =
      some out := by
  induction siblings generalizing acc with
  | nil => exact ⟨acc, rfl⟩
  | cons child rest ih =>
    obtain ⟨sub, called⟩ := each child (List.mem_cons_self ..) acc.2
    obtain ⟨out, run⟩ := ih (fun c member => each c (List.mem_cons_of_mem _ member)) (acc.1 + sub.1, sub.2)
    refine ⟨out, ?_⟩
    rw [List.foldlM_cons, called]
    exact run

theorem subtree_total (own : α → M) (ids : List κ) (inIds : ∀ k, ∀ child ∈ children k, key child ∈ ids)
    (fuel : Nat) (visiting : List κ) (memo : List (κ × M)) (node : α) (member : key node ∈ ids)
    (distinct : visiting.Nodup) (subset : visiting ⊆ ids) (enough : ids.length < fuel + visiting.length) :
    ∃ out, subtree key own children fuel visiting memo node = some out := by
  induction fuel generalizing visiting memo node with
  | zero =>
    have shallow := (distinct.subperm subset).length_le
    omega
  | succ fuel ih =>
    rw [subtree]
    cases cached : get memo (key node) with
    | some known => exact ⟨_, rfl⟩
    | none =>
      by_cases under : key node ∈ visiting
      · simp [under]
      · have each : ∀ child ∈ children (key node), ∀ memo,
            ∃ sub, subtree key own children fuel (key node :: visiting) memo child = some sub := by
          intro child below memo
          apply ih _ memo child (inIds _ child below) (List.nodup_cons.mpr ⟨under, distinct⟩)
            (List.cons_subset.mpr ⟨member, subset⟩)
          rw [List.length_cons]
          omega
        obtain ⟨out, run⟩ := fold_total _ each (own node, memo)
        simp [under, run]

theorem subtrees_total (own : α → M) (ids : List κ) (inIds : ∀ k, ∀ child ∈ children k, key child ∈ ids)
    {fuel : Nat} (enough : ids.length < fuel) (rest : List α) (subset : ∀ node ∈ rest, key node ∈ ids)
    (memo : List (κ × M)) : ∃ out, subtrees key own children fuel memo rest = some out := by
  induction rest generalizing memo with
  | nil => exact ⟨_, rfl⟩
  | cons node rest ih =>
    obtain ⟨sub, called⟩ := subtree_total own ids inIds fuel [] memo node
      (subset node (List.mem_cons_self ..)) List.nodup_nil (List.nil_subset _) (by simpa using enough)
    obtain ⟨out, run⟩ := ih (fun n member => subset n (List.mem_cons_of_mem _ member)) sub.2
    exact ⟨_, by rw [subtrees, called, Option.bind_some, run]; rfl⟩

end Run

/-! The forest of a list of nodes that name their parents. -/

section Forest

variable (key : α → κ) (parent : α → Option κ) (nodes : List α)

def childrenOf (k : κ) : List α := nodes.filter fun node => parent node = some k

/-- A node is a root when its parent is none of the nodes. -/
def isRoot (node : α) : Bool := parent node ∉ nodes.map fun other => some (key other)

/-- How many nodes carry the id of the node's parent. -/
def parents (node : α) : Nat := nodes.countP fun other => some (key other) = parent node

variable {key parent nodes}

/-- Where nodes of one id have one figure: the nodes' totals add up to their own figures and
each node's total once for every node of its parent's id. -/
theorem Table.sum_entries {visited : List α} {memo : List (κ × M)}
    (copies : ∀ node ∈ nodes, ∀ other ∈ nodes, key node = key other → own node = own other)
    (table : Table key own (childrenOf parent nodes) visited memo)
    (inNodes : ∀ node ∈ visited, node ∈ nodes)
    (complete : ∀ node ∈ nodes, ∃ total, get memo (key node) = some total) :
    (nodes.map (entry key memo)).sum = (nodes.map own).sum +
      (nodes.map fun node => parents key parent nodes node • entry key memo node).sum := by
  have each : ∀ node ∈ nodes, entry key memo node =
      own node + ((childrenOf parent nodes (key node)).map (entry key memo)).sum := by
    intro node member
    obtain ⟨other, inVisited, same⟩ := List.mem_map.mp ((table.get_isSome_iff _).mp (complete node member))
    have reported := table.entry_eq inVisited
    rwa [copies other (inNodes other inVisited) node member same, entry, same] at reported
  have below : (nodes.map fun node => ((childrenOf parent nodes (key node)).map (entry key memo)).sum).sum =
      (nodes.map fun node => parents key parent nodes node • entry key memo node).sum := by
    have fibers := sum_fibers_count parent (entry key memo) nodes (nodes.map fun other => some (key other))
    simpa [List.count, List.countP_map, parents, childrenOf, Function.comp_def, beq_eq_decide] using fibers
  rw [← below, ← List.sum_map_add]
  exact congrArg List.sum (List.map_congr_left each)

/-- The roots report what is left of that: their own figures and a surplus for every node
below an id that several nodes carry. -/
theorem Table.sum_roots_add [IsCancelAdd M] {visited : List α} {memo : List (κ × M)}
    (copies : ∀ node ∈ nodes, ∀ other ∈ nodes, key node = key other → own node = own other)
    (table : Table key own (childrenOf parent nodes) visited memo)
    (inNodes : ∀ node ∈ visited, node ∈ nodes)
    (complete : ∀ node ∈ nodes, ∃ total, get memo (key node) = some total) :
    ((nodes.filter (isRoot key parent nodes)).map (entry key memo)).sum = (nodes.map own).sum +
      (nodes.map fun node => (parents key parent nodes node - 1) • entry key memo node).sum := by
  -- a root has no parent among the nodes, any other node at least one
  have each : ∀ node ∈ nodes, (if isRoot key parent nodes node then entry key memo node else 0) +
      parents key parent nodes node • entry key memo node =
        entry key memo node + (parents key parent nodes node - 1) • entry key memo node := by
    intro node _
    by_cases root : isRoot key parent nodes node = true
    · have orphan : parents key parent nodes node = 0 := by
        rw [parents, List.countP_eq_zero]
        simpa [isRoot] using root
      simp [root, orphan]
    · have below : 0 < parents key parent nodes node := by
        rw [parents, List.countP_pos_iff]
        simpa [isRoot] using root
      obtain ⟨n, more⟩ := Nat.exists_eq_succ_of_ne_zero below.ne'
      simp [root, more, succ_nsmul, add_comm]
  have sums := congrArg List.sum (List.map_congr_left each)
  rw [List.sum_map_add, List.sum_map_add, table.sum_entries copies inNodes complete,
    add_right_comm] at sums
  rw [← add_right_cancel sums]
  simp [List.sum_map_ite]

/-- Where no parent is met twice, the roots' totals add up to the nodes' own figures. -/
theorem Table.sum_roots [IsCancelAdd M] {visited : List α} {memo : List (κ × M)}
    (copies : ∀ node ∈ nodes, ∀ other ∈ nodes, key node = key other → own node = own other)
    (single : ∀ node ∈ nodes, parents key parent nodes node ≤ 1)
    (table : Table key own (childrenOf parent nodes) visited memo)
    (inNodes : ∀ node ∈ visited, node ∈ nodes)
    (complete : ∀ node ∈ nodes, ∃ total, get memo (key node) = some total) :
    ((nodes.filter (isRoot key parent nodes)).map (entry key memo)).sum = (nodes.map own).sum := by
  rw [table.sum_roots_add copies inNodes complete]
  have surplus : (nodes.map fun node => (parents key parent nodes node - 1) • entry key memo node) =
      nodes.map fun _ => 0 := by
    apply List.map_congr_left
    intro node member
    rw [Nat.sub_eq_zero_of_le (single node member), zero_nsmul]
  simp [surplus]

end Forest

end MemoTree
