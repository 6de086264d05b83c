import Mathlib.Data.Finset.Card
import Mathlib.Data.List.Nodup
import Mathlib.Logic.Relation

/-! A depth-first walk that lists nodes in pre-order with their depth and skips what it
has seen. The links may form any graph; where they form a tree the walk lays the tree out,
every node directly in front of what hangs below it. -/
namespace TreeWalk

variable {α κ : Type}

structure Walk (α κ : Type) where
  seen : List κ
  ordered : List (α × Nat)

section Search

variable (key : α → κ) (children : κ → List α)

def visit [DecidableEq κ] : Nat → Walk α κ → α → Nat → Option (Walk α κ)
  | 0, _, _, _ => none
  | fuel + 1, w, node, depth =>
    if key node ∈ w.seen then some w
    else (children (key node)).foldlM (fun w child => visit fuel w child (depth + 1))
      ⟨w.seen ++ [key node], w.ordered ++ [(node, depth)]⟩

/-- A loop that visits the nodes in order. -/
def visitAll [DecidableEq κ] (fuel : Nat) (w : Walk α κ) (nodes : List α) (depth : Nat) : Option (Walk α κ) :=
  nodes.foldlM (fun w node => visit key children fuel w node depth) w

def keys (out : List (α × Nat)) : List κ := out.map fun e => key e.1

/-- What the loop appends when `seen` holds the keys met before. -/
inductive Visits : List κ → List α → Nat → List (α × Nat) → Prop
  | nil {seen : List κ} {depth : Nat} : Visits seen [] depth []
  | skip {seen : List κ} {node : α} {nodes : List α} {depth : Nat} {out : List (α × Nat)} :
      key node ∈ seen → Visits seen nodes depth out → Visits seen (node :: nodes) depth out
  | enter {seen : List κ} {node : α} {nodes : List α} {depth : Nat} {below after : List (α × Nat)} :
      key node ∉ seen →
      Visits (seen ++ [key node]) (children (key node)) (depth + 1) below →
      Visits (seen ++ [key node] ++ keys key below) nodes depth after →
      Visits seen (node :: nodes) depth ((node, depth) :: below ++ after)

end Search

variable {key : α → κ} {children : κ → List α} {all : List α}

@[simp] theorem keys_nil : keys key [] = [] := rfl

@[simp] theorem keys_cons (e : α × Nat) (out : List (α × Nat)) :
    keys key (e :: out) = key e.1 :: keys key out := rfl

@[simp] theorem keys_append (front back : List (α × Nat)) :
    keys key (front ++ back) = keys key front ++ keys key back := List.map_append

theorem mem_keys {out : List (α × Nat)} {k : κ} :
    k ∈ keys key out ↔ ∃ e ∈ out, key e.1 = k := List.mem_map

/-! What any walk lists. -/

/-- The links and what was seen before decide what is appended. -/
theorem Visits.unique {seen : List κ} {nodes : List α} {depth : Nat} {out out' : List (α × Nat)}
    (visited : Visits key children seen nodes depth out)
    (visited' : Visits key children seen nodes depth out') : out = out' := by
  induction visited generalizing out' with
  | nil =>
    cases visited'
    rfl
  | skip met _ ih =>
    cases visited' with
    | skip _ rest => exact ih rest
    | enter fresh _ _ => exact absurd met fresh
  | enter fresh _ _ onBelow onAfter =>
    cases visited' with
    | skip met _ => exact absurd met fresh
    | enter _ below after =>
      obtain rfl := onBelow below
      obtain rfl := onAfter after
      rfl

/-- Whatever is listed was asked for or hangs below something listed. -/
theorem Visits.linked {seen : List κ} {nodes : List α} {depth : Nat} {out : List (α × Nat)}
    (visited : Visits key children seen nodes depth out) :
    ∀ e ∈ out, e.1 ∈ nodes ∨ ∃ p ∈ out, e.1 ∈ children (key p.1) := by
  induction visited with
  | nil => simp
  | skip _ _ ih =>
    intro e member
    exact (ih e member).imp_left (List.mem_cons_of_mem _)
  | @enter seen node nodes depth below after _ _ _ onBelow onAfter =>
    intro e member
    rcases List.mem_append.mp member with front | inAfter
    · rcases List.mem_cons.mp front with rfl | inBelow
      · exact .inl List.mem_cons_self
      · rcases onBelow e inBelow with child | ⟨p, held, child⟩
        · exact .inr ⟨(node, depth), by simp, child⟩
        · exact .inr ⟨p, List.mem_append_left _ (List.mem_cons_of_mem _ held), child⟩
    · rcases onAfter e inAfter with asked | ⟨p, held, child⟩
      · exact .inl (List.mem_cons_of_mem _ asked)
      · exact .inr ⟨p, List.mem_append_right _ held, child⟩

theorem Visits.inside {seen : List κ} {nodes : List α} {depth : Nat} {out : List (α × Nat)}
    (visited : Visits key children seen nodes depth out) (inside : ∀ k, ∀ c ∈ children k, c ∈ all)
    (members : ∀ node ∈ nodes, node ∈ all) : ∀ e ∈ out, e.1 ∈ all := by
  intro e member
  rcases visited.linked e member with asked | ⟨p, _, child⟩
  · exact members e.1 asked
  · exact inside _ e.1 child

theorem Visits.append {seen : List κ} {front back : List α} {depth : Nat} {out : List (α × Nat)}
    (visited : Visits key children seen (front ++ back) depth out) :
    ∃ first later, out = first ++ later ∧ Visits key children seen front depth first ∧
      Visits key children (seen ++ keys key first) back depth later := by
  induction front generalizing seen out with
  | nil => exact ⟨[], out, rfl, .nil, by simpa using visited⟩
  | cons node rest ih =>
    cases visited with
    | skip met visited =>
      obtain ⟨first, later, rfl, onFront, onBack⟩ := ih visited
      exact ⟨first, later, rfl, .skip met onFront, onBack⟩
    | enter fresh below after =>
      obtain ⟨first, later, rfl, onFront, onBack⟩ := ih after
      exact ⟨_, later, by simp, .enter fresh below onFront, by simpa using onBack⟩

theorem Visits.fresh {seen : List κ} {nodes : List α} {depth : Nat} {out : List (α × Nat)}
    (visited : Visits key children seen nodes depth out) :
    (keys key out).Nodup ∧ ∀ k ∈ keys key out, k ∉ seen := by
  induction visited with
  | nil => simp
  | skip _ _ ih => exact ih
  | @enter seen node nodes depth below after fresh _ _ onBelow onAfter =>
    obtain ⟨nodupBelow, apartBelow⟩ := onBelow
    obtain ⟨nodupAfter, apartAfter⟩ := onAfter
    simp only [List.mem_append, List.mem_singleton, not_or] at apartBelow apartAfter
    refine ⟨?_, ?_⟩
    · rw [List.cons_append, keys_cons, keys_append, List.nodup_cons, List.nodup_append]
      refine ⟨?_, nodupBelow, nodupAfter, ?_⟩
      · intro member
        rcases List.mem_append.mp member with inBelow | inAfter
        · exact (apartBelow _ inBelow).2 rfl
        · exact (apartAfter _ inAfter).1.2 rfl
      · rintro k inBelow _ inAfter rfl
        exact (apartAfter k inAfter).2 inBelow
    · intro k member
      rw [List.cons_append, keys_cons, keys_append, List.mem_cons, List.mem_append] at member
      rcases member with rfl | inBelow | inAfter
      · exact fresh
      · exact (apartBelow k inBelow).1
      · exact (apartAfter k inAfter).1.1

theorem Visits.covers {seen : List κ} {nodes : List α} {depth : Nat} {out : List (α × Nat)}
    (visited : Visits key children seen nodes depth out) :
    ∀ node ∈ nodes, key node ∈ seen ∨ key node ∈ keys key out := by
  induction visited with
  | nil => simp
  | skip met _ ih =>
    intro node member
    rcases List.mem_cons.mp member with rfl | other
    · exact .inl met
    · exact ih node other
  | enter _ _ _ _ onAfter =>
    intro node member
    rcases List.mem_cons.mp member with rfl | other
    · exact .inr (by simp)
    · have placed := onAfter node other
      simp only [List.mem_append, List.mem_singleton] at placed
      simp only [List.cons_append, keys_cons, keys_append, List.mem_cons, List.mem_append]
      tauto

/-- A walk over all nodes lists each of them once. -/
theorem Visits.perm {nodes : List α} {depth : Nat} {out : List (α × Nat)}
    (visited : Visits key children [] nodes depth out) (inside : ∀ k, ∀ c ∈ children k, c ∈ all)
    (distinct : (all.map key).Nodup) (members : ∀ node, node ∈ nodes ↔ node ∈ all) :
    (out.map Prod.fst).Perm all := by
  have outKeys : (out.map Prod.fst).map key = keys key out := List.map_map ..
  have nodup : (out.map Prod.fst).Nodup := by
    apply List.Nodup.of_map key
    rw [outKeys]
    exact visited.fresh.1
  rw [List.perm_ext_iff_of_nodup nodup distinct.of_map]
  intro a
  constructor
  · intro member
    obtain ⟨e, held, rfl⟩ := List.mem_map.mp member
    exact visited.inside inside (fun node asked => (members node).mp asked) e held
  · intro member
    obtain ⟨e, held, sameKey⟩ := mem_keys.mp
      ((visited.covers a ((members a).mpr member)).resolve_left List.not_mem_nil)
    have inAll := visited.inside inside (fun node asked => (members node).mp asked) e held
    have same : e.1 = a := List.inj_on_of_nodup_map distinct inAll member sameKey
    exact List.mem_map.mpr ⟨e, held, same⟩

variable [DecidableEq κ]

/-! The loop and the relation. -/

theorem visitAll_cons (fuel : Nat) (w : Walk α κ) (node : α) (nodes : List α) (depth : Nat) :
    visitAll key children fuel w (node :: nodes) depth =
      (visit key children fuel w node depth).bind
        fun w => visitAll key children fuel w nodes depth := List.foldlM_cons

theorem visitAll_append (fuel : Nat) (w : Walk α κ) (front back : List α) (depth : Nat) :
    visitAll key children fuel w (front ++ back) depth =
      (visitAll key children fuel w front depth).bind
        fun w => visitAll key children fuel w back depth := List.foldlM_append

theorem visit_succ (fuel : Nat) (w : Walk α κ) (node : α) (depth : Nat) :
    visit key children (fuel + 1) w node depth =
      if key node ∈ w.seen then some w
      else visitAll key children fuel ⟨w.seen ++ [key node], w.ordered ++ [(node, depth)]⟩
        (children (key node)) (depth + 1) := rfl

theorem visits_of_visitAll {fuel : Nat} {w w' : Walk α κ} {nodes : List α} {depth : Nat}
    (run : visitAll key children fuel w nodes depth = some w') :
    ∃ out, Visits key children w.seen nodes depth out ∧
      w' = ⟨w.seen ++ keys key out, w.ordered ++ out⟩ := by
  induction fuel generalizing w w' nodes depth with
  | zero =>
    cases nodes with
    | nil =>
      obtain rfl := Option.some.inj run
      exact ⟨[], .nil, by simp⟩
    | cons node rest => cases run
  | succ fuel ih =>
    induction nodes generalizing w with
    | nil =>
      obtain rfl := Option.some.inj run
      exact ⟨[], .nil, by simp⟩
    | cons node rest onRest =>
      rw [visitAll_cons, visit_succ] at run
      by_cases met : key node ∈ w.seen
      · rw [if_pos met] at run
        obtain ⟨out, visited, same⟩ := onRest run
        exact ⟨out, .skip met visited, same⟩
      · rw [if_neg met] at run
        obtain ⟨between, inside, later⟩ := Option.bind_eq_some_iff.mp run
        obtain ⟨below, visitedBelow, rfl⟩ := ih inside
        obtain ⟨after, visitedAfter, rfl⟩ := onRest later
        refine ⟨_, .enter met visitedBelow visitedAfter, ?_⟩
        simp

/-! Termination: every node entered is one fewer that can still be entered. -/

def unseen (key : α → κ) (all : List α) (seen : List κ) : Finset κ :=
  (all.map key).toFinset \ seen.toFinset

theorem unseen_append_lt {seen : List κ} {node : α} (inside : node ∈ all)
    (fresh : key node ∉ seen) :
    (unseen key all (seen ++ [key node])).card < (unseen key all seen).card := by
  apply Finset.card_lt_card
  refine ⟨?_, ?_⟩
  · intro k member
    simp only [unseen, Finset.mem_sdiff, List.mem_toFinset, List.mem_append] at member ⊢
    exact ⟨member.1, fun old => member.2 (.inl old)⟩
  · intro subset
    have member : key node ∈ unseen key all seen := by
      simp only [unseen, Finset.mem_sdiff, List.mem_toFinset]
      exact ⟨List.mem_map_of_mem inside, fresh⟩
    have kept := subset member
    simp [unseen] at kept

theorem unseen_append_le (key : α → κ) (all : List α) (seen more : List κ) :
    (unseen key all (seen ++ more)).card ≤ (unseen key all seen).card := by
  apply Finset.card_le_card
  intro k member
  simp only [unseen, Finset.mem_sdiff, List.mem_toFinset, List.mem_append] at member ⊢
  exact ⟨member.1, fun old => member.2 (.inl old)⟩

theorem visitAll_isSome (inside : ∀ k, ∀ c ∈ children k, c ∈ all) {fuel : Nat} {w : Walk α κ}
    {nodes : List α} {depth : Nat} (members : ∀ node ∈ nodes, node ∈ all)
    (enough : (unseen key all w.seen).card < fuel) :
    ∃ w', visitAll key children fuel w nodes depth = some w' := by
  induction fuel generalizing w nodes depth with
  | zero => omega
  | succ fuel ih =>
    induction nodes generalizing w with
    | nil => exact ⟨w, rfl⟩
    | cons node rest onRest =>
      obtain ⟨member, others⟩ := List.forall_mem_cons.mp members
      rw [visitAll_cons, visit_succ]
      by_cases met : key node ∈ w.seen
      · rw [if_pos met]
        exact onRest others enough
      · rw [if_neg met]
        have fewer := unseen_append_lt member met
        have room : (unseen key all (w.seen ++ [key node])).card < fuel := by omega
        obtain ⟨between, entered⟩ : ∃ w', visitAll key children fuel
            ⟨w.seen ++ [key node], w.ordered ++ [(node, depth)]⟩ (children (key node)) (depth + 1) =
              some w' := ih (inside (key node)) room
        obtain ⟨below, _, rfl⟩ := visits_of_visitAll entered
        rw [entered]
        apply onRest others
        have still := unseen_append_le key all (w.seen ++ [key node]) (keys key below)
        exact Nat.lt_of_le_of_lt still (by omega)

/-- With the nodes and one more as fuel the walk ends, and more fuel changes nothing. -/
theorem visitAll_total (inside : ∀ k, ∀ c ∈ children k, c ∈ all) {nodes : List α} {depth : Nat}
    (members : ∀ node ∈ nodes, node ∈ all) :
    ∃ out, Visits key children [] nodes depth out ∧ ∀ fuel, all.length < fuel →
      visitAll key children fuel ⟨[], []⟩ nodes depth = some ⟨keys key out, out⟩ := by
  have bound : (unseen key all []).card ≤ all.length := by
    have counted := List.toFinset_card_le (all.map key)
    rw [List.length_map] at counted
    simpa [unseen] using counted
  have ends : ∀ fuel, all.length < fuel → ∃ out, Visits key children [] nodes depth out ∧
      visitAll key children fuel ⟨[], []⟩ nodes depth = some ⟨keys key out, out⟩ := by
    intro fuel enough
    obtain ⟨w', run⟩ : ∃ w', visitAll key children fuel ⟨[], []⟩ nodes depth = some w' :=
      visitAll_isSome inside members (Nat.lt_of_le_of_lt bound enough)
    obtain ⟨out, visited, rfl⟩ := visits_of_visitAll run
    exact ⟨out, visited, run⟩
  obtain ⟨out, visited, _⟩ := ends (all.length + 1) (Nat.lt_succ_self _)
  refine ⟨out, visited, ?_⟩
  intro fuel enough
  obtain ⟨out', visited', run⟩ := ends fuel enough
  rwa [visited.unique visited']

end TreeWalk
