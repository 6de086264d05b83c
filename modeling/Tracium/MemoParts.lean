import Tracium.MemoTree

/-! What the totals are sums of, whatever the links: a node's total counts a set of distinct
nodes beneath it. Where every id has one parent two siblings' sets are disjoint, because the
id they hang below is still under way and so in neither. -/
namespace MemoTree

open OrderedMap

variable {α κ M : Type} [DecidableEq κ]

section Parts

variable (key : α → κ) (own : α → M) (children : κ → List α) (nodes : List α)

/-- Links that start inside the part. -/
def LinkIn (part : List α) (p c : κ) : Prop := p ∈ part.map key ∧ Link key children p c

/-- Every id hangs below at most one other. -/
def OneParent : Prop := ∀ p q c, Link key children p c → Link key children q c → p = q

/-- Distinct nodes, all in the memo and reached from one of the tops without leaving the
part; without cycles nothing beneath the tops is missing. -/
structure Part (memo : List (κ × M)) (tops part : List α) : Prop where
  distinct : (part.map key).Nodup
  inNodes : ∀ node ∈ part, node ∈ nodes
  filed : ∀ node ∈ part, ∃ total, get memo (key node) = some total
  reached : ∀ node ∈ part,
    ∃ top ∈ tops, Relation.ReflTransGen (LinkIn key children part) (key top) (key node)
  full : Acyclic key children → ∀ top ∈ tops, top ∈ part
  closed : Acyclic key children → ∀ node ∈ part, ∀ child ∈ children (key node), child ∈ part

/-- The total of a node is the sum of a part below it that it is in. -/
def Counted [AddCommMonoid M] (memo : List (κ × M)) (node : α) (total : M) : Prop :=
  ∃ part, Part key children nodes memo [node] part ∧ node ∈ part ∧ total = (part.map own).sum

/-- Every entry is counted, and no id of the memo is under way. -/
structure Sound [AddCommMonoid M] (visiting : List κ) (memo : List (κ × M)) : Prop where
  counted : ∀ node ∈ nodes, ∀ total, get memo (key node) = some total →
    Counted key own children nodes memo node total
  off : ∀ k ∈ visiting, get memo k = none

end Parts

variable {key : α → κ} {own : α → M} {children : κ → List α} {nodes : List α}

section Paths

omit [DecidableEq κ]

theorem LinkIn.mono {part part' : List α} (subset : ∀ node ∈ part, node ∈ part') {p c : κ}
    (path : Relation.ReflTransGen (LinkIn key children part) p c) :
    Relation.ReflTransGen (LinkIn key children part') p c := by
  refine Relation.ReflTransGen.mono ?_ _ _ path
  rintro a b ⟨inside, below⟩
  obtain ⟨node, member, rfl⟩ := List.mem_map.mp inside
  exact ⟨List.mem_map_of_mem (subset node member), below⟩

theorem LinkIn.links {part : List α} {p c : κ}
    (path : Relation.ReflTransGen (LinkIn key children part) p c) :
    Relation.ReflTransGen (Link key children) p c :=
  Relation.ReflTransGen.mono (fun _ _ step => step.2) _ _ path

/-- Two paths into one id: one starts on the other. -/
theorem LinkIn.meet (one : OneParent key children) {part part' : List α} {p q c : κ}
    (first : Relation.ReflTransGen (LinkIn key children part) p c)
    (second : Relation.ReflTransGen (LinkIn key children part') q c) :
    Relation.ReflTransGen (LinkIn key children part) p q ∨
      Relation.ReflTransGen (LinkIn key children part') q p := by
  induction first generalizing q with
  | refl => exact .inr second
  | tail path step ih =>
    rcases Relation.ReflTransGen.cases_tail second with rfl | ⟨before, earlier, step'⟩
    · exact .inl (path.tail step)
    · obtain rfl := one _ _ _ step'.2 step.2
      exact ih earlier

/-- A path from a child of an id to another child of it goes through the id. -/
theorem LinkIn.through (one : OneParent key children) {part : List α} {k p c : κ}
    (below : Link key children k c) (apart : p ≠ c)
    (path : Relation.ReflTransGen (LinkIn key children part) p c) : k ∈ part.map key := by
  rcases Relation.ReflTransGen.cases_tail path with rfl | ⟨before, _, inside, link⟩
  · exact absurd rfl apart
  · exact one _ _ _ link below ▸ inside

end Paths

variable {memo memo' : List (κ × M)} {visiting : List κ} {tops part part' : List α} {node child : α}

theorem Part.start : Part key children nodes memo [] [] :=
  ⟨List.nodup_nil, by simp, by simp, by simp, by simp, by simp⟩

theorem Part.extend (p : Part key children nodes memo tops part) (ext : Extends memo memo') :
    Part key children nodes memo' tops part := by
  refine ⟨p.distinct, p.inNodes, ?_, p.reached, p.full, p.closed⟩
  intro node member
  obtain ⟨total, found⟩ := p.filed node member
  exact ⟨total, ext _ _ found⟩

theorem Part.not_mem (p : Part key children nodes memo tops part) {k : κ} (absent : get memo k = none) :
    k ∉ part.map key := by
  intro inside
  obtain ⟨node, member, rfl⟩ := List.mem_map.mp inside
  obtain ⟨total, found⟩ := p.filed node member
  cases absent.symm.trans found

/-- Parts below different children of one id have no node in common. -/
theorem Part.disjoint (one : OneParent key children) (p : Part key children nodes memo tops part)
    (p' : Part key children nodes memo [child] part') {k : κ} (absent : get memo k = none)
    (siblings : ∀ top ∈ tops, top ∈ children k) (below : child ∈ children k)
    (fresh : key child ∉ tops.map key) : ∀ a ∈ part, ∀ b ∈ part', key a ≠ key b := by
  intro a inPart b inPart' same
  obtain ⟨top, member, path⟩ := p.reached a inPart
  obtain ⟨only, single, path'⟩ := p'.reached b inPart'
  obtain rfl := List.mem_singleton.mp single
  have apart : key top ≠ key only := fun equal => fresh (equal ▸ List.mem_map_of_mem member)
  rcases LinkIn.meet one path (same ▸ path') with down | down
  · exact p.not_mem absent (LinkIn.through one ⟨only, below, rfl⟩ apart down)
  · exact p'.not_mem absent (LinkIn.through one ⟨top, siblings top member, rfl⟩ apart.symm down)

/-- The next sibling's part beside those of the siblings before it. -/
theorem Part.join (one : OneParent key children) (p : Part key children nodes memo tops part)
    (p' : Part key children nodes memo [child] part') {k : κ} (absent : get memo k = none)
    (siblings : ∀ top ∈ tops, top ∈ children k) (below : child ∈ children k)
    (fresh : key child ∉ tops.map key) :
    Part key children nodes memo (tops ++ [child]) (part ++ part') := by
  refine ⟨?_, ?_, ?_, ?_, ?_, ?_⟩
  · rw [List.map_append, List.nodup_append]
    refine ⟨p.distinct, p'.distinct, ?_⟩
    intro a inPart b inPart'
    obtain ⟨x, member, rfl⟩ := List.mem_map.mp inPart
    obtain ⟨y, member', rfl⟩ := List.mem_map.mp inPart'
    exact p.disjoint one p' absent siblings below fresh x member y member'
  · intro node member
    rcases List.mem_append.mp member with first | second
    · exact p.inNodes node first
    · exact p'.inNodes node second
  · intro node member
    rcases List.mem_append.mp member with first | second
    · exact p.filed node first
    · exact p'.filed node second
  · intro node member
    rcases List.mem_append.mp member with first | second
    · obtain ⟨top, isTop, path⟩ := p.reached node first
      exact ⟨top, List.mem_append_left _ isTop, LinkIn.mono (fun _ => List.mem_append_left _) path⟩
    · obtain ⟨top, isTop, path⟩ := p'.reached node second
      exact ⟨top, List.mem_append_right _ isTop, LinkIn.mono (fun _ => List.mem_append_right _) path⟩
  · intro acyclic top member
    rcases List.mem_append.mp member with first | second
    · exact List.mem_append_left _ (p.full acyclic top first)
    · exact List.mem_append_right _ (p'.full acyclic top second)
  · intro acyclic node member c link
    rcases List.mem_append.mp member with first | second
    · exact List.mem_append_left _ (p.closed acyclic node first c link)
    · exact List.mem_append_right _ (p'.closed acyclic node second c link)

/-- A child met under way brings nothing; without cycles there is none. -/
theorem Part.skip (p : Part key children nodes memo tops part) (cyclic : ¬ Acyclic key children) :
    Part key children nodes memo (tops ++ [child]) part := by
  refine ⟨p.distinct, p.inNodes, p.filed, ?_, fun acyclic => absurd acyclic cyclic, p.closed⟩
  intro node member
  obtain ⟨top, isTop, path⟩ := p.reached node member
  exact ⟨top, List.mem_append_left _ isTop, path⟩

/-- The node on top of its children's parts. -/
theorem Part.leave (p : Part key children nodes memo (children (key node)) part) (member : node ∈ nodes)
    (absent : get memo (key node) = none) (total : M) :
    Part key children nodes (memo ++ [(key node, total)]) [node] (node :: part) := by
  have ext : Extends memo (memo ++ [(key node, total)]) := Extends.snoc _ _
  have inside : ∀ other ∈ part, other ∈ node :: part := fun _ => List.mem_cons_of_mem _
  refine ⟨?_, ?_, ?_, ?_, ?_, ?_⟩
  · exact List.nodup_cons.mpr ⟨p.not_mem absent, p.distinct⟩
  · intro other inPart
    rcases List.mem_cons.mp inPart with rfl | below
    · exact member
    · exact p.inNodes other below
  · intro other inPart
    rcases List.mem_cons.mp inPart with rfl | below
    · exact ⟨total, by simp [get_append_one, absent]⟩
    · exact (p.extend ext).filed other below
  · intro other inPart
    refine ⟨node, List.mem_singleton_self _, ?_⟩
    rcases List.mem_cons.mp inPart with rfl | below
    · exact .refl
    · obtain ⟨top, isTop, path⟩ := p.reached other below
      have first : LinkIn key children (node :: part) (key node) (key top) :=
        ⟨List.mem_cons_self .., top, isTop, rfl⟩
      exact .head first (LinkIn.mono inside path)
  · intro _ top isTop
    rw [List.mem_singleton.mp isTop]
    exact List.mem_cons_self ..
  · intro acyclic other inPart c link
    rcases List.mem_cons.mp inPart with rfl | below
    · exact inside c (p.full acyclic c link)
    · exact inside c (p.closed acyclic other below c link)

/-! The search. -/

variable [AddCommMonoid M]

theorem Counted.extend {total : M} (counted : Counted key own children nodes memo node total)
    (ext : Extends memo memo') : Counted key own children nodes memo' node total := by
  obtain ⟨part, p, member, sum⟩ := counted
  exact ⟨part, p.extend ext, member, sum⟩

theorem Sound.start : Sound key own children nodes [] ([] : List (κ × M)) := by
  refine ⟨?_, by simp⟩
  intro node _ total found
  cases found

theorem Sound.enter (sound : Sound key own children nodes visiting memo) {k : κ}
    (absent : get memo k = none) : Sound key own children nodes (k :: visiting) memo := by
  refine ⟨sound.counted, ?_⟩
  intro other under
  rcases List.mem_cons.mp under with rfl | earlier
  · exact absent
  · exact sound.off other earlier

/-- A node is filed once its children are: its part is the node on top of theirs. -/
theorem Sound.leave (apart : (nodes.map key).Nodup)
    (sound : Sound key own children nodes (key node :: visiting) memo)
    (p : Part key children nodes memo (children (key node)) part) (member : node ∈ nodes)
    (under : key node ∉ visiting) :
    Sound key own children nodes visiting (memo ++ [(key node, own node + (part.map own).sum)]) := by
  have absent : get memo (key node) = none := sound.off _ (List.mem_cons_self ..)
  refine ⟨?_, ?_⟩
  · intro other inNodes total found
    rw [get_append_one] at found
    cases old : get memo (key other) with
    | some known =>
      obtain rfl : known = total := by simpa [old] using found
      exact (sound.counted other inNodes known old).extend (Extends.snoc _ _)
    | none =>
      have same : key node = key other := by
        by_contra differ
        simp [old, differ] at found
      obtain rfl := List.inj_on_of_nodup_map apart member inNodes same
      obtain rfl : own node + (part.map own).sum = total := by simpa [old] using found
      exact ⟨node :: part, p.leave member absent _, List.mem_cons_self .., by simp⟩
  · intro k up
    have other : key node ≠ k := fun same => under (same ▸ up)
    rw [get_append_one, sound.off k (List.mem_cons_of_mem _ up)]
    simp [other]

/-- What a call leaves: a sound memo, and its own entry unless the node is under way. -/
structure Called (key : α → κ) (own : α → M) (children : κ → List α) (nodes : List α)
    (visiting : List κ) (memo memo' : List (κ × M)) (node : α) (total : M) : Prop where
  sound : Sound key own children nodes visiting memo'
  ext : Extends memo memo'
  value : get memo' (key node) = some total ∨ total = 0 ∧ key node ∈ visiting

/-- The children one after the other: their totals are the sum of one part. -/
theorem fold_part (one : OneParent key children) {call : List (κ × M) → α → Option (M × List (κ × M))}
    {k : κ} (first rest : List α) (below : first ++ rest = children k)
    (distinct : ((children k).map key).Nodup) (inNodes : ∀ child ∈ children k, child ∈ nodes)
    (above : ∀ u ∈ visiting, ∀ child ∈ children k, Relation.TransGen (Link key children) u (key child))
    (under : k ∈ visiting)
    (each : ∀ child ∈ children k, ∀ memo memo' total, Sound key own children nodes visiting memo →
      call memo child = some (total, memo') →
      Called key own children nodes visiting memo memo' child total)
    {start total : M} (sound : Sound key own children nodes visiting memo)
    (before : Part key children nodes memo first part)
    (run : rest.foldlM (fun acc child => (call acc.2 child).map fun sub => (acc.1 + sub.1, sub.2))
      (start + (part.map own).sum, memo) = some (total, memo')) :
    Sound key own children nodes visiting memo' ∧ Extends memo memo' ∧
      ∃ whole, Part key children nodes memo' (children k) whole ∧ total = start + (whole.map own).sum := by
  induction rest generalizing first memo part with
  | nil =>
    obtain ⟨rfl, rfl⟩ : start + (part.map own).sum = total ∧ memo = memo' := by simpa using run
    rw [← below, List.append_nil]
    exact ⟨sound, Extends.refl _, part, before, rfl⟩
  | cons child rest ih =>
    rw [List.foldlM_cons] at run
    obtain ⟨⟨acc, mid⟩, step, run⟩ := Option.bind_eq_some_iff.mp run
    obtain ⟨⟨sub, mid'⟩, called, same⟩ := Option.map_eq_some_iff.mp step
    obtain ⟨rfl, rfl⟩ := Prod.mk.inj same
    have isChild : child ∈ children k := below ▸ by simp
    have earlier : ∀ top ∈ first, top ∈ children k := by
      intro top member
      rw [← below]
      exact List.mem_append_left _ member
    obtain ⟨sound', ext, value⟩ := each child isChild memo mid' sub sound called
    have rest_below : (first ++ [child]) ++ rest = children k := by
      rw [← below, List.append_assoc]
      rfl
    have fresh : key child ∉ first.map key := by
      rw [← below, List.map_append, List.map_cons, List.nodup_append] at distinct
      intro member
      exact distinct.2.2 _ member _ (List.mem_cons_self ..) rfl
    rcases value with found | ⟨rfl, met⟩
    · obtain ⟨branch, tree, _, rfl⟩ := sound'.counted child (inNodes child isChild) sub found
      have absent : get mid' k = none := sound'.off k under
      have joined := (before.extend ext).join one tree absent earlier isChild fresh
      have sum : start + (part.map own).sum + (branch.map own).sum =
          start + ((part ++ branch).map own).sum := by
        rw [List.map_append, List.sum_append, add_assoc]
      rw [sum] at run
      obtain ⟨sound'', ext', rest⟩ := ih _ rest_below sound' joined run
      exact ⟨sound'', ext.trans ext', rest⟩
    · have cyclic : ¬ Acyclic key children := fun acyclic => acyclic _ (above _ met child isChild)
      rw [add_zero] at run
      obtain ⟨sound'', ext', rest⟩ := ih _ rest_below sound' ((before.extend ext).skip cyclic) run
      exact ⟨sound'', ext.trans ext', rest⟩

/-- A call keeps the memo sound, on cyclic links too. -/
theorem subtree_called (one : OneParent key children) (apart : (nodes.map key).Nodup)
    (distinct : ∀ k, ((children k).map key).Nodup) (inNodes : ∀ k, ∀ child ∈ children k, child ∈ nodes)
    {fuel : Nat} {total : M} (member : node ∈ nodes)
    (above : ∀ u ∈ visiting, Relation.TransGen (Link key children) u (key node))
    (sound : Sound key own children nodes visiting memo)
    (run : subtree key own children fuel visiting memo node = some (total, memo')) :
    Called key own children nodes visiting memo memo' node total := by
  induction fuel generalizing visiting memo memo' node total with
  | zero => simp [subtree] at run
  | succ fuel ih =>
    rcases subtree_cases run with ⟨cached, rfl⟩ | ⟨under, rfl, rfl⟩ | ⟨cached, under, mid, fold, rfl⟩
    · exact ⟨sound, Extends.refl _, .inl cached⟩
    · exact ⟨sound, Extends.refl _, .inr ⟨rfl, under⟩⟩
    · have aboveChild : ∀ u ∈ key node :: visiting, ∀ child ∈ children (key node),
          Relation.TransGen (Link key children) u (key child) := by
        intro u up child below
        have link : Link key children (key node) (key child) := ⟨child, below, rfl⟩
        rcases List.mem_cons.mp up with rfl | earlier
        · exact .single link
        · exact (above u earlier).tail link
      have each : ∀ child ∈ children (key node), ∀ memo memo' total,
          Sound key own children nodes (key node :: visiting) memo →
          subtree key own children fuel (key node :: visiting) memo child = some (total, memo') →
          Called key own children nodes (key node :: visiting) memo memo' child total := by
        intro child below memo memo' total sound called
        exact ih (inNodes _ child below) (fun u up => aboveChild u up child below) sound called
      have fold' : (children (key node)).foldlM (fun acc child =>
          (subtree key own children fuel (key node :: visiting) acc.2 child).map
            fun sub => (acc.1 + sub.1, sub.2)) (own node + (([] : List α).map own).sum, memo) =
          some (total, mid) := by
        rw [List.map_nil, List.sum_nil, add_zero]
        exact fold
      obtain ⟨done, ext, part, p, rfl⟩ := fold_part one [] _ rfl (distinct _) (inNodes _) aboveChild
        (List.mem_cons_self ..) each (sound.enter cached) Part.start fold'
      have absent : get mid (key node) = none := done.off _ (List.mem_cons_self ..)
      rw [put_absent absent]
      have filed := done.leave apart p member under
      exact ⟨filed, ext.trans (Extends.snoc _ _), .inl (by simp [get_append_one, absent])⟩

/-- Every reported total is counted. -/
theorem subtrees_counted (one : OneParent key children) (apart : (nodes.map key).Nodup)
    (distinct : ∀ k, ((children k).map key).Nodup) (inNodes : ∀ k, ∀ child ∈ children k, child ∈ nodes)
    {fuel : Nat} {rest : List α} {out : List M} (subset : ∀ node ∈ rest, node ∈ nodes)
    (sound : Sound key own children nodes [] memo)
    (run : subtrees key own children fuel memo rest = some (out, memo')) :
    Sound key own children nodes [] memo' ∧ Extends memo memo' ∧ out = rest.map (entry key memo') ∧
      ∀ node ∈ rest, ∃ total, get memo' (key node) = some total := by
  induction rest generalizing memo out with
  | nil =>
    obtain ⟨rfl, rfl⟩ : [] = out ∧ memo = memo' := by simpa [subtrees] using run
    exact ⟨sound, Extends.refl _, rfl, by simp⟩
  | cons node rest ih =>
    obtain ⟨⟨total, mid⟩, called, run⟩ := Option.bind_eq_some_iff.mp run
    obtain ⟨⟨outs, last⟩, tail, same⟩ := Option.map_eq_some_iff.mp run
    obtain ⟨rfl, rfl⟩ : total :: outs = out ∧ last = memo' := Prod.mk.inj same
    obtain ⟨sound', ext, value⟩ := subtree_called one apart distinct inNodes
      (subset node (List.mem_cons_self ..)) (by simp) sound called
    have here : get mid (key node) = some total := value.resolve_right (by simp)
    obtain ⟨sound'', ext', reported, present⟩ :=
      ih (fun n member => subset n (List.mem_cons_of_mem _ member)) sound' tail
    have kept : get last (key node) = some total := ext' _ _ here
    refine ⟨sound'', ext.trans ext', ?_, ?_⟩
    · rw [List.map_cons, entry, kept, Option.getD_some, reported]
    · intro n member
      rcases List.mem_cons.mp member with rfl | later
      · exact ⟨total, kept⟩
      · exact present n later

/-! The children of a list of nodes that name their parents. -/

section Forest

variable {parent : α → Option κ}

omit [AddCommMonoid M] in
theorem childrenOf_oneParent (apart : (nodes.map key).Nodup) : OneParent key (childrenOf parent nodes) := by
  rintro p q c ⟨child, below, rfl⟩ ⟨other, below', same⟩
  obtain ⟨member, named⟩ := List.mem_filter.mp below
  obtain ⟨member', named'⟩ := List.mem_filter.mp below'
  obtain rfl := List.inj_on_of_nodup_map apart member' member same
  exact Option.some.inj ((of_decide_eq_true named).symm.trans (of_decide_eq_true named'))

theorem childrenOf_distinct (apart : (nodes.map key).Nodup) (k : κ) :
    ((childrenOf parent nodes k).map key).Nodup :=
  apart.sublist (List.filter_sublist.map key)

end Forest

end MemoTree
