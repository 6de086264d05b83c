import Tracium.Js.JsonPrint

/-! The syntax trees that reading and printing leave as they are: every literal is written
as JSON.stringify writes its value, and the keys of every object are distinct and in the
order of its properties. -/
namespace Js.Json

open OrderedMap

/-! The order of the properties. -/

/-- A property of key a comes before one of key b. -/
def KeyBefore (a b : Text) : Prop := ∀ j ∈ arrayIndex b, ∃ i ∈ arrayIndex a, i < j

theorem arrayIndex_inj {a b : Text} {i : Nat} (ha : arrayIndex a = some i) (hb : arrayIndex b = some i) : a = b := by
  have print : ∀ key, arrayIndex key = some i → natString i = key := by
    intro key found
    unfold arrayIndex at found
    dsimp only at found
    split at found
    · rename_i canonical
      rw [← Option.some.inj found]
      exact canonical.1
    · cases found
  rw [← print a ha, print b hb]

/-- A key that is no index may come after any other. -/
theorem keyBefore_of_none {a b : Text} (none : arrayIndex b = none) : KeyBefore a b := by
  intro j found
  rw [Option.mem_def.mp found] at none
  cases none

/-- The index keys are listed in ascending order. -/
theorem indexed_pairwise {α : Type} (l : List (Text × α))
    (nodup : (((l.filter fun p => (arrayIndex p.1).isSome).insertionSort fun p q =>
      (arrayIndex p.1).getD 0 ≤ (arrayIndex q.1).getD 0).map Prod.fst).Nodup) :
    (((l.filter fun p => (arrayIndex p.1).isSome).insertionSort fun p q =>
      (arrayIndex p.1).getD 0 ≤ (arrayIndex q.1).getD 0).map Prod.fst).Pairwise KeyBefore := by
  have total : Std.Total fun p q : Text × α => (arrayIndex p.1).getD 0 ≤ (arrayIndex q.1).getD 0 :=
    ⟨fun p q => Nat.le_total _ _⟩
  have trans : IsTrans (Text × α) fun p q => (arrayIndex p.1).getD 0 ≤ (arrayIndex q.1).getD 0 :=
    ⟨fun p q r => Nat.le_trans⟩
  have sorted := List.pairwise_insertionSort (fun p q : Text × α => (arrayIndex p.1).getD 0 ≤ (arrayIndex q.1).getD 0)
    (l.filter fun p => (arrayIndex p.1).isSome)
  rw [List.pairwise_map]
  refine (sorted.and (List.pairwise_map.mp nodup)).imp_of_mem fun {p q} hp _ related => ?_
  obtain ⟨le, apart⟩ := related
  intro j found
  have index := (List.mem_filter.mp ((List.mem_insertionSort _).mp hp)).2
  obtain ⟨i, own⟩ := Option.isSome_iff_exists.mp index
  rw [Option.mem_def] at found
  rw [own, found, Option.getD_some, Option.getD_some] at le
  refine ⟨i, own, Nat.lt_of_le_of_ne le ?_⟩
  rintro rfl
  exact apart (arrayIndex_inj own found)

/-- Properties of distinct keys are listed in the order of their keys. -/
theorem ownProperties_pairwise {α : Type} {l : List (Text × α)} (distinct : DistinctKeys l) :
    ((ownProperties l).map Prod.fst).Pairwise KeyBefore := by
  have nodup : ((ownProperties l).map Prod.fst).Nodup := ((ownProperties_perm l).map Prod.fst).nodup_iff.mpr distinct
  rw [ownProperties, List.map_append, List.nodup_append] at nodup
  have last : ∀ a, ∀ b ∈ (l.filter fun p => (arrayIndex p.1).isNone).map Prod.fst, KeyBefore a b := by
    intro a b member
    obtain ⟨q, inside, rfl⟩ := List.mem_map.mp member
    exact keyBefore_of_none (Option.isNone_iff_eq_none.mp (List.mem_filter.mp inside).2)
  rw [ownProperties, List.map_append, List.pairwise_append]
  refine ⟨indexed_pairwise l nodup.1, ?_, ?_⟩
  · apply List.pairwise_of_forall_mem_list
    intro a _ b member
    exact last a b member
  · intro a _ b member
    exact last a b member

/-- Without an index key in front the index keys are all there is behind. -/
theorem filter_none_of_before {α : Type} {p : Text × α} {l : List (Text × α)} (other : arrayIndex p.1 = none)
    (before : ∀ q ∈ l, KeyBefore p.1 q.1) : (l.filter fun q => (arrayIndex q.1).isSome) = [] := by
  rw [List.filter_eq_nil_iff]
  intro q member index
  obtain ⟨j, found⟩ := Option.isSome_iff_exists.mp index
  obtain ⟨i, own, -⟩ := before q member j found
  rw [other] at own
  cases own

theorem ownProperties_of_pairwise {α : Type} {l : List (Text × α)} (ordered : (l.map Prod.fst).Pairwise KeyBefore) :
    ownProperties l = l := by
  rw [List.pairwise_map] at ordered
  have sorted : (l.filter fun p => (arrayIndex p.1).isSome).insertionSort (fun p q : Text × α =>
      (arrayIndex p.1).getD 0 ≤ (arrayIndex q.1).getD 0) = l.filter fun p => (arrayIndex p.1).isSome := by
    apply List.Pairwise.insertionSort_eq
    refine (ordered.filter _).imp_of_mem fun {p q} _ hq before => ?_
    obtain ⟨j, found⟩ := Option.isSome_iff_exists.mp (List.mem_filter.mp hq).2
    obtain ⟨i, own, lt⟩ := before j found
    rw [Option.mem_def] at own
    rw [own, found]
    exact Nat.le_of_lt lt
  rw [ownProperties, sorted]
  clear sorted
  induction l with
  | nil => rfl
  | cons p l ih =>
    obtain ⟨before, later⟩ := List.pairwise_cons.mp ordered
    cases own : arrayIndex p.1 with
    | some i =>
      rw [List.filter_cons_of_pos (by rw [own]; rfl), List.filter_cons_of_neg (by simp [own]), List.cons_append, ih later]
    | none =>
      have rest : (l.filter fun q => (arrayIndex q.1).isNone) = l := by
        have whole := ih later
        rwa [filter_none_of_before own before, List.nil_append] at whole
      rw [List.filter_cons_of_neg (by simp [own]), filter_none_of_before own before,
        List.filter_cons_of_pos (by rw [own]; rfl), rest, List.nil_append]

/-! Creating properties one by one. -/

theorem createProperties_distinct {α : Type} (members : List (Text × α)) : DistinctKeys (createProperties members) := by
  have kept : ∀ properties : List (Text × α), DistinctKeys properties →
      DistinctKeys (members.foldl (fun properties m => put properties m.1 m.2) properties) := by
    induction members with
    | nil => exact fun _ distinct => distinct
    | cons m members ih => exact fun properties distinct => ih _ (distinct.put m.1 m.2)
  exact kept [] DistinctKeys.nil

theorem createProperties_of_distinct {α : Type} {members : List (Text × α)} (distinct : DistinctKeys members) :
    createProperties members = members := by
  have appended : ∀ properties : List (Text × α), DistinctKeys (properties ++ members) →
      members.foldl (fun properties m => put properties m.1 m.2) properties = properties ++ members := by
    clear distinct
    induction members with
    | nil => exact fun properties _ => (List.append_nil properties).symm
    | cons m members ih =>
      intro properties distinct
      have fresh : get properties m.1 = none := by
        rw [DistinctKeys, List.map_append, List.nodup_append] at distinct
        apply get_eq_none
        intro member
        exact distinct.2.2 m.1 member m.1 (List.mem_map_of_mem List.mem_cons_self) rfl
      have shape : properties ++ m :: members = (properties ++ [(m.1, m.2)]) ++ members := by simp
      rw [List.foldl_cons, put_absent fresh, shape]
      rw [shape] at distinct
      exact ih _ distinct
  exact appended [] distinct

/-! The trees that printing leaves as they are. -/

/-- Keys as the literals of an object name them. -/
def keysOf {α : Type} (members : List (Text × α)) : List Text := members.map fun m => stringValue m.1

/-- A keyword, a number spelled as Number::toString spells the nearest double, or a string
written as QuoteJSONString writes it. -/
def Literal.Canonical : Literal → Prop
  | .word raw => (keyword raw).isSome ∨ ∃ q, readNumber raw = some q ∧ numberText (toNumber q) = raw
  | .string raw => Quoted raw

/-- Every literal is written as JSON.stringify writes its value, and the keys of every
object are distinct and in the order of its properties. -/
def Canonical : Syntax → Prop :=
  Tree.fold Literal.Canonical (fun items => ∀ item ∈ items, item) fun members =>
    (keysOf members).Nodup ∧ (keysOf members).Pairwise KeyBefore ∧ ∀ m ∈ members, Quoted m.1 ∧ m.2

theorem keyword_literal {raw : Text} {s : Scalar} (found : keyword raw = some s) : s.literal = .word raw := by
  unfold keyword at found
  split at found
  · rename_i same
    rw [← Option.some.inj found, same]
    rfl
  split at found
  · rename_i same
    rw [← Option.some.inj found, same]
    rfl
  split at found
  · rename_i same
    rw [← Option.some.inj found, same]
    rfl
  · cases found

/-- What is printed for the value of a literal is the literal. -/
theorem scalar_literal_iff (l : Literal) : l.scalar.literal = l ↔ l.Canonical := by
  cases l with
  | word raw =>
    rw [Literal.scalar, Literal.read, Literal.Canonical]
    cases found : keyword raw with
    | some s => simp [keyword_literal found]
    | none =>
      cases number : readNumber raw with
      | none =>
        have other : raw ≠ lit "null" := by
          rintro rfl
          cases found
        simpa [Scalar.literal] using other.symm
      | some q => simp [Scalar.literal]
  | string raw =>
    rw [Literal.Canonical, ← quoteBody_stringValue_iff, stringValue, Literal.scalar, Literal.read]
    cases decoded : decodeString raw with
    | some s => simp [Scalar.literal]
    | none =>
      have empty : raw ≠ [] := by
        rintro rfl
        cases decoded
      constructor
      · intro wrong
        cases wrong
      · intro wrong
        exact absurd wrong.symm empty

theorem syntaxOf_valueOf_leaf (l : Literal) : syntaxOf (valueOf (.leaf l)) = .leaf l.scalar.literal := rfl

theorem syntaxOf_valueOf_array (items : List Syntax) :
    syntaxOf (valueOf (.array items)) = .array (items.map fun t => syntaxOf (valueOf t)) := by
  rw [valueOf, Tree.fold_array, syntaxOf, Tree.fold_array, List.map_map]
  rfl

theorem syntaxOf_valueOf_object (members : List (Text × Syntax)) : syntaxOf (valueOf (.object members)) =
    .object ((ownProperties (createProperties (members.map fun m => (stringValue m.1, valueOf m.2)))).map fun p =>
      (quoteBody p.1, syntaxOf p.2)) := by
  have parts := ownProperties_map syntaxOf (createProperties (members.map fun m => (stringValue m.1, valueOf m.2)))
  rw [valueOf, Tree.fold_object, List.map_map, syntaxOf, Tree.fold_object, ← syntaxOf]
  exact congrArg Tree.object ((congrArg (List.map _) parts).trans (List.map_map ..))

theorem canonical_array_iff (items : List Syntax) : Canonical (.array items) ↔ ∀ t ∈ items, Canonical t := by
  rw [Canonical, Tree.fold_array, List.forall_mem_map]

theorem canonical_object_iff (members : List (Text × Syntax)) : Canonical (.object members) ↔
    (keysOf members).Nodup ∧ (keysOf members).Pairwise KeyBefore ∧
      ∀ m ∈ members, Quoted m.1 ∧ Canonical m.2 := by
  rw [Canonical, Tree.fold_object, List.forall_mem_map, keysOf, List.map_map]
  rfl

theorem map_eq_self_iff {α : Type} (f : α → α) (l : List α) : l.map f = l ↔ ∀ a ∈ l, f a = a := by
  have same := List.map_inj_left (l := l) (f := f) (g := id)
  rwa [List.map_id] at same

/-- Distinct keys in the order of the properties: the object keeps its members. -/
theorem syntaxOf_valueOf_ordered {members : List (Text × Syntax)} (distinct : (keysOf members).Nodup)
    (ordered : (keysOf members).Pairwise KeyBefore) : syntaxOf (valueOf (.object members)) =
      .object (members.map fun m => (quoteBody (stringValue m.1), syntaxOf (valueOf m.2))) := by
  have keys : (members.map fun m => (stringValue m.1, valueOf m.2)).map Prod.fst = keysOf members := by
    rw [keysOf, List.map_map]
    rfl
  rw [← keys] at distinct ordered
  rw [syntaxOf_valueOf_object, createProperties_of_distinct distinct, ownProperties_of_pairwise ordered, List.map_map]
  rfl

/-- The keys of what is printed for an object. -/
theorem keys_of_kept {members : List (Text × Syntax)} (kept : syntaxOf (valueOf (.object members)) = .object members) :
    (keysOf members).Nodup ∧ (keysOf members).Pairwise KeyBefore := by
  rw [syntaxOf_valueOf_object] at kept
  have shown := Tree.object.inj kept
  generalize source : createProperties (members.map fun m => (stringValue m.1, valueOf m.2)) = properties at shown
  have distinct : DistinctKeys properties := source ▸ createProperties_distinct _
  have keys : keysOf members = (ownProperties properties).map Prod.fst := by
    rw [← shown, keysOf, List.map_map]
    apply List.map_congr_left
    intro p _
    exact stringValue_quoteBody p.1
  rw [keys]
  exact ⟨((ownProperties_perm properties).map Prod.fst).nodup_iff.mpr distinct, ownProperties_pairwise distinct⟩

/-- Reading a tree and printing the value gives the tree back exactly when it is
canonical. -/
theorem syntaxOf_valueOf_iff (t : Syntax) : syntaxOf (valueOf t) = t ↔ Canonical t := by
  induction t using Tree.induction with
  | leaf l =>
    rw [syntaxOf_valueOf_leaf, Tree.leaf.injEq]
    exact scalar_literal_iff l
  | array items ih =>
    rw [syntaxOf_valueOf_array, Tree.array.injEq, map_eq_self_iff, canonical_array_iff]
    exact forall₂_congr ih
  | object members ih =>
    rw [canonical_object_iff]
    have parts : ∀ distinct : (keysOf members).Nodup, ∀ ordered : (keysOf members).Pairwise KeyBefore,
        syntaxOf (valueOf (.object members)) = .object members ↔
          ∀ m ∈ members, Quoted m.1 ∧ Canonical m.2 := by
      intro distinct ordered
      rw [syntaxOf_valueOf_ordered distinct ordered, Tree.object.injEq, map_eq_self_iff]
      apply forall₂_congr
      intro m member
      rw [← ih m member, ← quoteBody_stringValue_iff, Prod.ext_iff]
    constructor
    · intro kept
      obtain ⟨distinct, ordered⟩ := keys_of_kept kept
      exact ⟨distinct, ordered, (parts distinct ordered).mp kept⟩
    · rintro ⟨distinct, ordered, members⟩
      exact (parts distinct ordered).mpr members

end Js.Json
