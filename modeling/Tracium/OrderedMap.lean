import Mathlib.Data.List.Induction
import Mathlib.Data.List.Nodup
import Mathlib.Logic.Function.Basic

/-! Ordered association lists that tolerate duplicate keys. A read takes the first
entry, a write updates the first entry or appends, a snapshot into a plain map keeps
the last entry. Two maps that agree outside a set of keys are compared by removing it. -/
namespace OrderedMap

variable {κ ν α : Type} [DecidableEq κ]

def get (m : List (κ × ν)) (k : κ) : Option ν := m.lookup k

def put : List (κ × ν) → κ → ν → List (κ × ν)
  | [], k, v => [(k, v)]
  | e :: rest, k, v => if e.1 = k then (k, v) :: rest else e :: put rest k v

def removeIf (p : κ → Bool) (m : List (κ × ν)) : List (κ × ν) := m.filter fun e => !p e.1

/-- Copying into a plain map entry by entry: a later duplicate overwrites. -/
def snapshot (f : ν → α) (m : List (κ × ν)) : κ → Option α :=
  m.foldl (fun out e => Function.update out e.1 (some (f e.2))) fun _ => none

def DistinctKeys (m : List (κ × ν)) : Prop := (m.map Prod.fst).Nodup

instance (m : List (κ × ν)) : Decidable (DistinctKeys m) :=
  inferInstanceAs (Decidable (List.Nodup _))

/-- Both maps hold the same entries in the same order once the keys of `p` are gone. -/
def AgreeOff (p : κ → Bool) (m m' : List (κ × ν)) : Prop := removeIf p m = removeIf p m'

@[simp] theorem get_nil (k : κ) : get ([] : List (κ × ν)) k = none := rfl

theorem get_cons (e : κ × ν) (m : List (κ × ν)) (k : κ) :
    get (e :: m) k = if e.1 = k then some e.2 else get m k := by
  obtain ⟨key, value⟩ := e
  by_cases same : key = k
  · simp [get, same]
  · have other : (k == key) = false := by simpa using Ne.symm same
    simp [get, List.lookup_cons, other, same]

theorem get_eq_none_iff (m : List (κ × ν)) (k : κ) : get m k = none ↔ k ∉ m.map Prod.fst := by
  induction m with
  | nil => simp
  | cons e rest ih =>
    rw [get_cons, List.map_cons, List.mem_cons, not_or, ← ih]
    by_cases same : e.1 = k
    · simp [same]
    · simp [same, Ne.symm same]

theorem get_eq_none {m : List (κ × ν)} (absent : k ∉ m.map Prod.fst) : get m k = none :=
  (get_eq_none_iff m k).mpr absent

theorem get_isSome_iff (m : List (κ × ν)) (k : κ) : (get m k).isSome ↔ k ∈ m.map Prod.fst := by
  rw [Option.isSome_iff_ne_none, Ne, get_eq_none_iff, not_not]

@[simp] theorem get_put_same (m : List (κ × ν)) (k : κ) (v : ν) : get (put m k v) k = some v := by
  induction m with
  | nil => simp [put, get_cons]
  | cons e rest ih =>
    by_cases same : e.1 = k
    · simp [put, same, get_cons]
    · simp [put, same, get_cons, ih]

theorem get_map_value (m : List (κ × ν)) (h : ν → α) (k : κ) :
    get (m.map fun e => (e.1, h e.2)) k = (get m k).map h := by
  induction m with
  | nil => rfl
  | cons e rest ih =>
    rw [List.map_cons, get_cons, get_cons, ih]
    split <;> rfl

theorem get_put_other (m : List (κ × ν)) {k other : κ} (v : ν) (h : k ≠ other) :
    get (put m k v) other = get m other := by
  induction m with
  | nil => simp [put, get_cons, h]
  | cons e rest ih =>
    by_cases same : e.1 = k
    · simp [put, same, get_cons, h]
    · simp [put, same, get_cons, ih]

theorem get_append (m m' : List (κ × ν)) (k : κ) :
    get (m ++ m') k = (get m k).or (get m' k) := by
  induction m with
  | nil => rfl
  | cons x m ih =>
    rw [List.cons_append, get_cons, get_cons, ih]
    split <;> rfl

theorem get_append_one (m : List (κ × ν)) (e : κ × ν) (k : κ) :
    get (m ++ [e]) k = (get m k).or (if e.1 = k then some e.2 else none) := by
  rw [get_append, get_cons, get_nil]

/-- A map filled row by row holds the keys of the rows. -/
theorem isSome_get_foldl_put (key : α → κ) (value : α → ν) (rows : List α) (m : List (κ × ν))
    (k : κ) : (get (rows.foldl (fun m r => put m (key r) (value r)) m) k).isSome =
      ((get m k).isSome || decide (k ∈ rows.map key)) := by
  induction rows generalizing m with
  | nil => simp
  | cons r rest ih =>
    rw [List.foldl_cons, ih]
    by_cases own : key r = k
    · subst own
      simp
    · rw [get_put_other m (value r) own]
      simp [Ne.symm own]

/-- Overwriting a value with one that reads the same changes no reading. -/
theorem map_put_of_get {m : List (κ × ν)} {k : κ} {old v : ν} {g : κ × ν → α}
    (found : get m k = some old) (same : g (k, v) = g (k, old)) : (put m k v).map g = m.map g := by
  induction m with
  | nil => cases found
  | cons e rest ih =>
    rw [get_cons] at found
    by_cases own : e.1 = k
    · rw [if_pos own] at found
      obtain rfl := own
      obtain rfl := Option.some.inj found
      simp [put, same]
    · rw [if_neg own] at found
      rw [put, if_neg own, List.map_cons, ih found, List.map_cons]

/-- An entry of an updated map is the new one or an old one of another key. -/
theorem mem_put {m : List (κ × ν)} (distinct : DistinctKeys m) {k : κ} {v : ν} {e : κ × ν}
    (member : e ∈ put m k v) : e = (k, v) ∨ (e ∈ m ∧ e.1 ≠ k) := by
  induction m with
  | nil => exact Or.inl (List.mem_singleton.mp member)
  | cons x rest ih =>
    obtain ⟨fresh, rest_distinct⟩ := List.nodup_cons.mp distinct
    by_cases own : x.1 = k
    · rw [put, if_pos own] at member
      rcases List.mem_cons.mp member with new | old
      · exact Or.inl new
      · right
        refine ⟨List.mem_cons_of_mem x old, fun same => fresh ?_⟩
        rw [own, ← same]
        exact List.mem_map_of_mem old
    · rw [put, if_neg own] at member
      rcases List.mem_cons.mp member with rfl | later
      · exact Or.inr ⟨List.mem_cons_self, own⟩
      · rcases ih rest_distinct later with new | ⟨old, other⟩
        · exact Or.inl new
        · exact Or.inr ⟨List.mem_cons_of_mem x old, other⟩

/-- A new key goes to the end. -/
theorem put_absent {m : List (κ × ν)} {k : κ} (absent : get m k = none) (v : ν) :
    put m k v = m ++ [(k, v)] := by
  induction m with
  | nil => rfl
  | cons e rest ih =>
    rw [get_cons] at absent
    by_cases same : e.1 = k
    · simp [same] at absent
    · rw [if_neg same] at absent
      simp [put, same, ih absent]

theorem get_removeIf (p : κ → Bool) (m : List (κ × ν)) (k : κ) :
    get (removeIf p m) k = if p k then none else get m k := by
  induction m with
  | nil => simp [removeIf]
  | cons e rest ih =>
    simp only [removeIf] at ih ⊢
    by_cases gone : p e.1
    · rw [List.filter_cons_of_neg (by simp [gone]), ih, get_cons]
      by_cases same : e.1 = k
      · simp [← same, gone]
      · simp [same]
    · rw [List.filter_cons_of_pos (by simp [gone]), get_cons, get_cons, ih]
      by_cases same : e.1 = k
      · simp [← same, gone]
      · simp [same]

/-! Snapshots. -/

theorem snapshot_append_one (f : ν → α) (m : List (κ × ν)) (e : κ × ν) :
    snapshot f (m ++ [e]) = Function.update (snapshot f m) e.1 (some (f e.2)) := by
  simp [snapshot, List.foldl_append]

/-- What a snapshot holds under `k` is the last entry with that key. -/
theorem snapshot_eq_last (f : ν → α) (m : List (κ × ν)) (k : κ) :
    snapshot f m k = (get m.reverse k).map f := by
  induction m using List.reverseRecOn with
  | nil => rfl
  | append_singleton m e ih =>
    rw [snapshot_append_one, List.reverse_append, List.reverse_singleton, List.singleton_append,
      get_cons]
    by_cases same : e.1 = k
    · simp [same]
    · simp [same, Ne.symm same, ih]

theorem snapshot_removeIf (f : ν → α) (p : κ → Bool) (m : List (κ × ν)) (k : κ) :
    snapshot f (removeIf p m) k = if p k then none else snapshot f m k := by
  have reversed : (removeIf p m).reverse = removeIf p m.reverse := by
    simp [removeIf, List.filter_reverse]
  rw [snapshot_eq_last, snapshot_eq_last, reversed, get_removeIf]
  split <;> rfl

/-- A put of another key changes no entry a read of `other` could see. -/
theorem removeIf_put (p : κ → Bool) (m : List (κ × ν)) (k : κ) (v : ν) :
    removeIf p (put m k v) = if p k then removeIf p m else put (removeIf p m) k v := by
  induction m with
  | nil => by_cases gone : p k <;> simp [put, removeIf, gone]
  | cons e rest ih =>
    simp only [removeIf] at ih ⊢
    by_cases same : e.1 = k
    · by_cases gone : p k
      · simp [put, same, gone]
      · simp [put, same, gone]
    · by_cases goneE : p e.1 <;> by_cases gone : p k <;>
        simp_all [put]

theorem get_reverse_of_distinct (m : List (κ × ν)) (distinct : DistinctKeys m) (k : κ) :
    get m.reverse k = get m k := by
  induction m with
  | nil => rfl
  | cons e rest ih =>
    have fresh : e.1 ∉ rest.map Prod.fst := (List.nodup_cons.mp distinct).1
    have tail := ih (List.nodup_cons.mp distinct).2
    rw [List.reverse_cons, get_append_one, tail, get_cons]
    by_cases same : e.1 = k
    · have absent : get rest k = none := get_eq_none (same ▸ fresh)
      simp [same, absent]
    · simp [same]

/-- Without duplicates a read finds every entry. -/
theorem get_eq_some_iff_mem {m : List (κ × ν)} (distinct : DistinctKeys m) :
    get m k = some v ↔ (k, v) ∈ m := by
  induction m with
  | nil => simp
  | cons e rest ih =>
    obtain ⟨fresh, tail⟩ := List.nodup_cons.mp distinct
    rw [get_cons, List.mem_cons, ← ih tail]
    by_cases same : e.1 = k
    · have absent : get rest k = none := get_eq_none (same ▸ fresh)
      subst same
      cases e
      simp [absent, eq_comm]
    · have other : (k, v) ≠ e := fun eq => same (eq ▸ rfl)
      simp [same, other]

omit [DecidableEq κ] in
theorem DistinctKeys.nil : DistinctKeys ([] : List (κ × ν)) := List.nodup_nil

/-- A put keeps the keys, or adds one at the end. -/
theorem keys_put (m : List (κ × ν)) (k : κ) (v : ν) :
    (put m k v).map Prod.fst =
      if get m k = none then m.map Prod.fst ++ [k] else m.map Prod.fst := by
  induction m with
  | nil => simp [put]
  | cons e rest ih =>
    by_cases same : e.1 = k
    · simp [put, same, get_cons]
    · rw [put, if_neg same, List.map_cons, ih, get_cons, if_neg same]
      split <;> rfl

theorem DistinctKeys.put {m : List (κ × ν)} (distinct : DistinctKeys m) (k : κ) (v : ν) :
    DistinctKeys (put m k v) := by
  unfold DistinctKeys at distinct ⊢
  rw [keys_put]
  split
  · rename_i absent
    rw [List.nodup_append]
    refine ⟨distinct, List.nodup_singleton k, ?_⟩
    rintro a member b single rfl
    rw [List.mem_singleton.mp single] at member
    exact (get_eq_none_iff m k).mp absent member
  · exact distinct

omit [DecidableEq κ] in
theorem DistinctKeys.filter {m : List (κ × ν)} (distinct : DistinctKeys m) (p : κ × ν → Bool) :
    DistinctKeys (m.filter p) := (List.filter_sublist.map Prod.fst).nodup distinct

/-- Dropping entries of a map with distinct keys drops what reads of their keys see. -/
theorem get_filter {m : List (κ × ν)} (distinct : DistinctKeys m) (p : κ × ν → Bool) (k : κ) :
    get (m.filter p) k = (get m k).filter fun v => p (k, v) := by
  apply Option.ext
  intro v
  rw [get_eq_some_iff_mem (distinct.filter p), List.mem_filter, Option.filter_eq_some_iff,
    get_eq_some_iff_mem distinct]

theorem snapshot_of_distinct (f : ν → α) (m : List (κ × ν)) (distinct : DistinctKeys m) (k : κ) :
    snapshot f m k = (get m k).map f := by
  rw [snapshot_eq_last, get_reverse_of_distinct m distinct]

/-! Agreement outside a set of keys. -/

theorem AgreeOff.get {p : κ → Bool} {m m' : List (κ × ν)} (agree : AgreeOff p m m')
    (visible : p k = false) : get m k = get m' k := by
  have left := get_removeIf p m k
  have right := get_removeIf p m' k
  simp only [visible, Bool.false_eq_true, ↓reduceIte] at left right
  rw [← left, ← right, agree]

theorem AgreeOff.snapshot {p : κ → Bool} {m m' : List (κ × ν)} (f : ν → α)
    (agree : AgreeOff p m m') (visible : p k = false) : snapshot f m k = snapshot f m' k := by
  have left := snapshot_removeIf f p m k
  have right := snapshot_removeIf f p m' k
  simp only [visible, Bool.false_eq_true, ↓reduceIte] at left right
  rw [← left, ← right, agree]

theorem AgreeOff.put_hidden {p : κ → Bool} {m m' : List (κ × ν)} (agree : AgreeOff p m m')
    (hidden : p k = true) (v : ν) : AgreeOff p (OrderedMap.put m k v) m' := by
  unfold AgreeOff
  rw [removeIf_put, hidden]
  exact agree

omit [DecidableEq κ] in
theorem AgreeOff.symm {p : κ → Bool} {m m' : List (κ × ν)} (agree : AgreeOff p m m') :
    AgreeOff p m' m := Eq.symm agree

omit [DecidableEq κ] in
theorem AgreeOff.trans {p : κ → Bool} {m m' m'' : List (κ × ν)} (first : AgreeOff p m m')
    (second : AgreeOff p m' m'') : AgreeOff p m m'' := Eq.trans first second

omit [DecidableEq κ] in
theorem AgreeOff.refl (p : κ → Bool) (m : List (κ × ν)) : AgreeOff p m m := rfl

omit [DecidableEq κ] in
/-- Hiding more keys keeps an agreement. -/
theorem AgreeOff.mono {p q : κ → Bool} {m m' : List (κ × ν)} (agree : AgreeOff p m m')
    (wider : ∀ k, p k = true → q k = true) : AgreeOff q m m' := by
  have through : ∀ l : List (κ × ν), OrderedMap.removeIf q l =
      OrderedMap.removeIf q (OrderedMap.removeIf p l) := by
    intro l
    simp only [OrderedMap.removeIf, List.filter_filter]
    apply List.filter_congr
    intro e _
    cases hp : p e.1
    · simp
    · simp [wider e.1 hp]
  unfold AgreeOff
  rw [through m, through m', agree]

omit [DecidableEq κ] in
theorem AgreeOff.removeIf_subset {p q : κ → Bool} {m m' : List (κ × ν)} (agree : AgreeOff p m m') :
    AgreeOff p (OrderedMap.removeIf q m) (OrderedMap.removeIf q m') := by
  have swap : ∀ l : List (κ × ν), OrderedMap.removeIf p (OrderedMap.removeIf q l) =
      OrderedMap.removeIf q (OrderedMap.removeIf p l) := by
    intro l
    simp only [OrderedMap.removeIf, List.filter_filter, Bool.and_comm]
  unfold AgreeOff
  rw [swap, swap, agree]

end OrderedMap
