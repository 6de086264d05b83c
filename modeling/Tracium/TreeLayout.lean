import Tracium.TreeWalk

/-! The walk of TreeWalk over links that give every node one parent. What hangs below the
top is laid out as a forest: no node of it is met twice, so nothing is skipped. -/
namespace TreeWalk

variable {α κ : Type}

section Trees

variable (key : α → κ) (children : κ → List α)

/-- The nodes laid out as trees: each is followed by what hangs below it. -/
inductive Laid : List α → Nat → List (α × Nat) → Prop
  | nil {depth : Nat} : Laid [] depth []
  | cons {node : α} {nodes : List α} {depth : Nat} {below after : List (α × Nat)} :
      Laid (children (key node)) (depth + 1) below → Laid nodes depth after →
      Laid (node :: nodes) depth ((node, depth) :: below ++ after)

def Child (p c : α) : Prop := c ∈ children (key p)

/-- The links of a list of nodes: `up` names the parent, or `top` where there is none. -/
structure Links (all : List α) (up : α → κ) (top : κ) : Prop where
  distinct : (all.map key).Nodup
  top_fresh : top ∉ all.map key
  mem_children : ∀ k c, c ∈ children k ↔ c ∈ all ∧ up c = k
  nodup : ∀ k, (children k).Nodup

end Trees

variable {key : α → κ} {children : κ → List α} {all : List α} {up : α → κ} {top : κ}

/-! A layout. -/

theorem Laid.heads {nodes : List α} {depth : Nat} {out : List (α × Nat)}
    (laid : Laid key children nodes depth out) :
    (nodes.map fun node => (node, depth)).Sublist out := by
  induction laid with
  | nil => exact List.Sublist.slnil
  | cons _ _ _ onRest => exact (onRest.trans (List.sublist_append_right _ _)).cons_cons _

theorem Laid.heads_fst {nodes : List α} {depth : Nat} {out : List (α × Nat)}
    (laid : Laid key children nodes depth out) : nodes.Sublist (out.map Prod.fst) := by
  have listed := laid.heads.map Prod.fst
  simpa [Function.comp_def] using listed

theorem Laid.head_mem {nodes : List α} {depth : Nat} {out : List (α × Nat)}
    (laid : Laid key children nodes depth out) {node : α} (member : node ∈ nodes) :
    (node, depth) ∈ out := laid.heads.subset (List.mem_map_of_mem member)

/-- The block of a listed node: what hangs below it, directly behind it. -/
theorem Laid.block {nodes : List α} {depth : Nat} {out : List (α × Nat)}
    (laid : Laid key children nodes depth out) {e : α × Nat} (member : e ∈ out) :
    ∃ front below back, out = front ++ (e :: below ++ back) ∧
      Laid key children (children (key e.1)) (e.2 + 1) below := by
  induction laid with
  | nil => cases member
  | @cons node nodes depth below after hangs _ onBelow onAfter =>
    rcases List.mem_append.mp member with inFront | inAfter
    · rcases List.mem_cons.mp inFront with rfl | inBelow
      · exact ⟨[], below, after, rfl, hangs⟩
      · obtain ⟨front, own, back, rfl, laidOwn⟩ := onBelow inBelow
        exact ⟨(node, depth) :: front, own, back ++ after, by simp, laidOwn⟩
    · obtain ⟨front, own, back, rfl, laidOwn⟩ := onAfter inAfter
      exact ⟨(node, depth) :: below ++ front, own, back, by simp, laidOwn⟩

/-- A layout lists what is reached from its nodes. -/
theorem Laid.mem_iff {nodes : List α} {depth : Nat} {out : List (α × Nat)}
    (laid : Laid key children nodes depth out) (x : α) :
    x ∈ out.map Prod.fst ↔ ∃ node ∈ nodes, Relation.ReflTransGen (Child key children) node x := by
  induction laid with
  | nil => simp
  | @cons node nodes depth below after _ _ onBelow onAfter =>
    have parts : x ∈ ((node, depth) :: below ++ after).map Prod.fst ↔
        (x = node ∨ x ∈ below.map Prod.fst) ∨ x ∈ after.map Prod.fst := by
      rw [List.map_append, List.map_cons, List.mem_append, List.mem_cons]
    have own : (x = node ∨ x ∈ below.map Prod.fst) ↔
        Relation.ReflTransGen (Child key children) node x := by
      rw [onBelow, Relation.ReflTransGen.cases_head_iff]
      exact or_congr_left eq_comm
    rw [parts, own, onAfter]
    simp only [List.mem_cons, exists_eq_or_imp]

/-- Below a listed node stands exactly what is reached from it in one step or more. -/
theorem Laid.below_iff {node : α} {depth : Nat} {below : List (α × Nat)}
    (laid : Laid key children (children (key node)) depth below) (x : α) :
    x ∈ below.map Prod.fst ↔ Relation.TransGen (Child key children) node x := by
  rw [laid.mem_iff, Relation.TransGen.head'_iff]
  rfl

/-! The links of a list. -/

theorem Links.inside (links : Links key children all up top) : ∀ k, ∀ c ∈ children k, c ∈ all :=
  fun k c member => ((links.mem_children k c).mp member).1

theorem Links.up_eq (links : Links key children all up top) {c : α} (member : c ∈ children k) :
    up c = k := ((links.mem_children k c).mp member).2

theorem Links.eq_of_key (links : Links key children all up top) {a b : α} (inside : a ∈ all)
    (inside' : b ∈ all) (same : key a = key b) : a = b :=
  List.inj_on_of_nodup_map links.distinct inside inside' same

theorem Links.key_ne_top (links : Links key children all up top) {a : α} (inside : a ∈ all) :
    key a ≠ top := fun same => links.top_fresh (same ▸ List.mem_map_of_mem inside)

/-- The parent of every node met so far was met before, or the node has none. -/
def Closed (key : α → κ) (all : List α) (up : α → κ) (top : κ) (seen : List κ) : Prop :=
  ∀ x ∈ all, key x ∈ seen → up x = top ∨ up x ∈ seen

/-- Nodes with one parent that was met, or with none, and none of them met yet. -/
structure Awaiting (key : α → κ) (all : List α) (up : α → κ) (top : κ) (seen : List κ)
    (nodes : List α) : Prop where
  inside : ∀ c ∈ nodes, c ∈ all
  siblings : ∃ k, (k = top ∨ k ∈ seen) ∧ ∀ c ∈ nodes, up c = k
  nodup : nodes.Nodup
  fresh : ∀ c ∈ nodes, key c ∉ seen

theorem Closed.enter (links : Links key children all up top) {seen : List κ} {node : α}
    {nodes : List α} (closed : Closed key all up top seen)
    (awaiting : Awaiting key all up top seen (node :: nodes)) :
    Closed key all up top (seen ++ [key node]) := by
  obtain ⟨k, met, above⟩ := awaiting.siblings
  intro x inside member
  rcases List.mem_append.mp member with old | last
  · exact (closed x inside old).imp_right (List.mem_append_left _)
  · have same : x = node :=
      links.eq_of_key inside (awaiting.inside node List.mem_cons_self) (List.mem_singleton.mp last)
    rw [same, above node List.mem_cons_self]
    exact met.imp_right (List.mem_append_left _)

/-- The children of a node that is being entered were not met: they hang below it alone. -/
theorem Awaiting.below (links : Links key children all up top) {seen : List κ} {node : α}
    {nodes : List α} (closed : Closed key all up top seen)
    (awaiting : Awaiting key all up top seen (node :: nodes)) :
    Awaiting key all up top (seen ++ [key node]) (children (key node)) := by
  have inAll := awaiting.inside node List.mem_cons_self
  have notMet := awaiting.fresh node List.mem_cons_self
  have notTop := links.key_ne_top inAll
  obtain ⟨k, met, above⟩ := awaiting.siblings
  refine ⟨links.inside _, ⟨key node, .inr (by simp), fun c member => links.up_eq member⟩,
    links.nodup _, ?_⟩
  intro c child member
  have parent : up c = key node := links.up_eq child
  rcases List.mem_append.mp member with old | last
  · rcases closed c (links.inside _ c child) old with isTop | before
    · exact notTop (parent ▸ isTop)
    · exact notMet (parent ▸ before)
  · -- the node would be its own parent
    have same : c = node :=
      links.eq_of_key (links.inside _ c child) inAll (List.mem_singleton.mp last)
    have own : key node = k := by rw [← parent, same, above node List.mem_cons_self]
    rcases met with isTop | before
    · exact notTop (own.trans isTop)
    · exact notMet (own ▸ before)

/-- What is listed below a node hangs below it or below something listed there. -/
theorem Visits.up_listed (links : Links key children all up top) {seen : List κ} {k : κ}
    {depth : Nat} {below : List (α × Nat)} (visited : Visits key children seen (children k) depth below) :
    ∀ e ∈ below, up e.1 = k ∨ up e.1 ∈ keys key below := by
  intro e member
  rcases visited.linked e member with child | ⟨p, held, child⟩
  · exact .inl (links.up_eq child)
  · exact .inr (mem_keys.mpr ⟨p, held, (links.up_eq child).symm⟩)

/-- The subtree of one sibling leaves the links closed. -/
theorem Closed.rest (links : Links key children all up top) {seen : List κ} {node : α}
    {nodes : List α} {depth : Nat} {below : List (α × Nat)} (closed : Closed key all up top seen)
    (awaiting : Awaiting key all up top seen (node :: nodes))
    (visited : Visits key children (seen ++ [key node]) (children (key node)) depth below) :
    Closed key all up top (seen ++ [key node] ++ keys key below) := by
  intro x inside member
  rcases List.mem_append.mp member with old | listed
  · exact (closed.enter links awaiting x inside old).imp_right (List.mem_append_left _)
  · obtain ⟨e, held, sameKey⟩ := mem_keys.mp listed
    obtain rfl := links.eq_of_key (visited.inside links.inside (links.inside _) e held) inside sameKey
    right
    rcases visited.up_listed links e held with parent | parent
    · rw [parent]
      simp
    · exact List.mem_append_right _ parent

/-- The subtree of one sibling does not meet the others. -/
theorem Awaiting.rest (links : Links key children all up top) {seen : List κ} {node : α}
    {nodes : List α} {depth : Nat} {below : List (α × Nat)}
    (awaiting : Awaiting key all up top seen (node :: nodes))
    (visited : Visits key children (seen ++ [key node]) (children (key node)) depth below) :
    Awaiting key all up top (seen ++ [key node] ++ keys key below) nodes := by
  have inBelow := visited.inside links.inside (links.inside _)
  have inAll := awaiting.inside node List.mem_cons_self
  obtain ⟨k, met, above⟩ := awaiting.siblings
  have apart : k ≠ key node := by
    rintro rfl
    rcases met with isTop | before
    · exact links.key_ne_top inAll isTop
    · exact awaiting.fresh node List.mem_cons_self before
  have notBelow : k ∉ keys key below := by
    intro listed
    rcases met with rfl | before
    · obtain ⟨e, held, sameKey⟩ := mem_keys.mp listed
      exact links.key_ne_top (inBelow e held) sameKey
    · exact visited.fresh.2 k listed (List.mem_append_left _ before)
  obtain ⟨notAmong, nodup⟩ := List.nodup_cons.mp awaiting.nodup
  refine ⟨fun c member => awaiting.inside c (List.mem_cons_of_mem _ member), ⟨k, ?_, ?_⟩, nodup, ?_⟩
  · exact met.imp_right fun before => List.mem_append_left _ (List.mem_append_left _ before)
  · exact fun c member => above c (List.mem_cons_of_mem _ member)
  · intro c member listed
    have inside := awaiting.inside c (List.mem_cons_of_mem _ member)
    have parent : up c = k := above c (List.mem_cons_of_mem _ member)
    rcases List.mem_append.mp listed with front | listedBelow
    · rcases List.mem_append.mp front with old | last
      · exact awaiting.fresh c (List.mem_cons_of_mem _ member) old
      · exact notAmong (links.eq_of_key inside inAll (List.mem_singleton.mp last) ▸ member)
    · obtain ⟨e, held, sameKey⟩ := mem_keys.mp listedBelow
      obtain rfl := links.eq_of_key (inBelow e held) inside sameKey
      rcases visited.up_listed links e held with isNode | below'
      · exact apart (parent ▸ isNode)
      · exact notBelow (parent ▸ below')

/-- Below met parents the walk skips nothing. -/
theorem Visits.laid (links : Links key children all up top) {seen : List κ} {nodes : List α}
    {depth : Nat} {out : List (α × Nat)} (visited : Visits key children seen nodes depth out)
    (closed : Closed key all up top seen) (awaiting : Awaiting key all up top seen nodes) :
    Laid key children nodes depth out := by
  induction visited with
  | nil => exact .nil
  | skip met _ _ => exact absurd met (awaiting.fresh _ List.mem_cons_self)
  | enter _ below _ onBelow onAfter =>
    exact .cons (onBelow (closed.enter links awaiting) (awaiting.below links closed))
      (onAfter (closed.rest links awaiting below) (awaiting.rest links below))

theorem Visits.laid_top (links : Links key children all up top) {depth : Nat}
    {out : List (α × Nat)} (visited : Visits key children [] (children top) depth out) :
    Laid key children (children top) depth out :=
  visited.laid links (fun _ _ met => absurd met List.not_mem_nil)
    ⟨links.inside top, ⟨top, .inl rfl, fun _ member => links.up_eq member⟩, links.nodup top,
      fun _ _ => List.not_mem_nil⟩

end TreeWalk
