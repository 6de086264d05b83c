import Mathlib.Data.Multiset.Filter

/-! Parametrised SQL statements, and scripts that ask one statement after another. A
statement is the text between its placeholders, in textual order; a WHERE clause over a
table is a piece of its own. The driver gives the i-th placeholder the i-th argument. What
the engine then computes is any function of the texts, the values and the rows that each
WHERE clause leaves. -/
namespace Tracium.Sql

inductive Op
  | eq
  | ge
  | le
  | lt
  deriving DecidableEq

variable {T C R V Row : Type}

/-- A condition of a conjunction. A placeholder is named by what it stands for, or, once
bound, by its value. `text` conditions are opaque. -/
inductive Cond (C R : Type)
  | cmp (column : C) (op : Op) (hole : R)
  | oneOf (column : C) (holes : List R)
  | never
  | text (text : String) (holes : List R)

inductive Piece (T C R : Type)
  | text (text : String)
  | hole (hole : R)
  | source (table : T) (conds : List (Cond C R))

namespace Cond

def holes : Cond C R → List R
  | .cmp _ _ hole => [hole]
  | .oneOf _ holes => holes
  | .never => []
  | .text _ holes => holes

def map (f : R → V) : Cond C R → Cond C V
  | .cmp column op hole => .cmp column op (f hole)
  | .oneOf column holes => .oneOf column (holes.map f)
  | .never => .never
  | .text t holes => .text t (holes.map f)

end Cond

/-- The placeholders of a conjunction, in textual order. -/
def condHoles (conds : List (Cond C R)) : List R := conds.flatMap Cond.holes

namespace Piece

def holes : Piece T C R → List R
  | .text _ => []
  | .hole h => [h]
  | .source _ conds => condHoles conds

def map (f : R → V) : Piece T C R → Piece T C V
  | .text t => .text t
  | .hole h => .hole (f h)
  | .source table conds => .source table (conds.map (Cond.map f))

end Piece

/-- The placeholders of a statement, in textual order. -/
def holes (sql : List (Piece T C R)) : List R := sql.flatMap Piece.holes

@[simp] theorem condHoles_nil : condHoles ([] : List (Cond C R)) = [] := rfl

@[simp] theorem condHoles_cons (c : Cond C R) (conds : List (Cond C R)) :
    condHoles (c :: conds) = c.holes ++ condHoles conds := List.flatMap_cons

@[simp] theorem condHoles_append (a b : List (Cond C R)) :
    condHoles (a ++ b) = condHoles a ++ condHoles b := List.flatMap_append

@[simp] theorem holes_nil : holes ([] : List (Piece T C R)) = [] := rfl

@[simp] theorem holes_cons (p : Piece T C R) (sql : List (Piece T C R)) :
    holes (p :: sql) = p.holes ++ holes sql := List.flatMap_cons

@[simp] theorem holes_append (a b : List (Piece T C R)) :
    holes (a ++ b) = holes a ++ holes b := List.flatMap_append

/-! The driver's positional binding. -/

/-- The first `n` arguments and the rest, when there are that many. -/
def take? (n : Nat) (args : List V) : Option (List V × List V) :=
  if n ≤ args.length then some (args.splitAt n) else none

def Cond.bind (args : List V) : Cond C R → Option (Cond C V × List V)
  | .cmp column op _ => match args with
    | v :: rest => some (.cmp column op v, rest)
    | [] => none
  | .oneOf column holes => (take? holes.length args).map fun (vs, rest) => (.oneOf column vs, rest)
  | .never => some (.never, args)
  | .text t holes => (take? holes.length args).map fun (vs, rest) => (.text t vs, rest)

def bindConds (args : List V) : List (Cond C R) → Option (List (Cond C V) × List V)
  | [] => some ([], args)
  | c :: conds => do
    let (c, rest) ← c.bind args
    let (conds, rest) ← bindConds rest conds
    some (c :: conds, rest)

def Piece.bind (args : List V) : Piece T C R → Option (Piece T C V × List V)
  | .text t => some (.text t, args)
  | .hole _ => match args with
    | v :: rest => some (.hole v, rest)
    | [] => none
  | .source table conds => (bindConds args conds).map fun (conds, rest) => (.source table conds, rest)

/-- The bound statement; `none` when there are too few or too many arguments. -/
def bind (args : List V) : List (Piece T C R) → Option (List (Piece T C V))
  | [] => if args.isEmpty then some [] else none
  | p :: sql => do
    let (p, rest) ← p.bind args
    let sql ← bind rest sql
    some (p :: sql)

section Binding

variable (f : R → V)

theorem take?_map (holes : List R) (rest : List V) :
    take? holes.length (holes.map f ++ rest) = some (holes.map f, rest) := by
  simp [take?, List.splitAt_eq]

theorem Cond.bind_map (c : Cond C R) (rest : List V) :
    c.bind (c.holes.map f ++ rest) = some (c.map f, rest) := by
  cases c <;> simp [Cond.bind, Cond.holes, Cond.map, take?_map]

theorem bindConds_map (conds : List (Cond C R)) (rest : List V) :
    bindConds ((condHoles conds).map f ++ rest) conds = some (conds.map (Cond.map f), rest) := by
  induction conds with
  | nil => rfl
  | cons c conds ih =>
    simp [bindConds, List.append_assoc, Cond.bind_map, ih]

theorem Piece.bind_map (p : Piece T C R) (rest : List V) :
    p.bind (p.holes.map f ++ rest) = some (p.map f, rest) := by
  cases p <;> simp [Piece.bind, Piece.holes, Piece.map, bindConds_map]

/-- Arguments in the order of the placeholders give each placeholder its own. -/
theorem bind_map (sql : List (Piece T C R)) :
    bind ((holes sql).map f) sql = some (sql.map (Piece.map f)) := by
  induction sql with
  | nil => rfl
  | cons p sql ih =>
    simp [bind, Piece.bind_map, ih]

end Binding

/-! Rows. -/

/-- How rows and conditions are read. -/
structure Reading (C V Row : Type) where
  get : Row → C → V
  le : V → V → Bool
  other : String → List V → Row → Bool

variable [DecidableEq V]

def Op.holds (r : Reading C V Row) (a b : V) : Op → Bool
  | .eq => a = b
  | .ge => r.le b a
  | .le => r.le a b
  | .lt => !r.le b a

def Cond.test (r : Reading C V Row) (row : Row) : Cond C V → Bool
  | .cmp column op v => op.holds r (r.get row column) v
  | .oneOf column vs => r.get row column ∈ vs
  | .never => false
  | .text t vs => r.other t vs row

/-- What the engine gets to see of a bound piece. -/
inductive Input (T V Row : Type)
  | text (text : String)
  | value (v : V)
  | rows (table : T) (rows : Multiset Row)

def Piece.input (r : Reading C V Row) (store : T → Multiset Row) : Piece T C V → Input T V Row
  | .text t => .text t
  | .hole v => .value v
  | .source table conds =>
    .rows table ((store table).filter fun row => conds.all (Cond.test r row) = true)

/-- A source sees two stores as one when its conditions admit only rows they agree on. -/
theorem Piece.input_congr (r : Reading C V Row) {store store' : T → Multiset Row}
    {visible : Row → Prop} [DecidablePred visible]
    (agree : ∀ table, (store table).filter visible = (store' table).filter visible)
    (p : Piece T C V)
    (guarded : ∀ table conds, p = .source table conds → ∀ row,
      conds.all (Cond.test r row) = true → visible row) :
    p.input r store = p.input r store' := by
  cases p with
  | text | hole => rfl
  | source table conds =>
    have narrow : ∀ rows : Multiset Row,
        rows.filter (fun row => conds.all (Cond.test r row) = true) =
          (rows.filter visible).filter fun row => conds.all (Cond.test r row) = true := by
      intro rows
      rw [Multiset.filter_filter]
      refine Multiset.filter_congr fun row _ => ?_
      exact ⟨fun passes => ⟨passes, guarded table conds rfl row passes⟩, fun both => both.1⟩
    rw [Piece.input, Piece.input, narrow, agree, ← narrow]

/-! Scripts. -/

/-- A program that asks a question and goes on with the answer. -/
inductive Script (Q A : Type)
  | done
  | ask (q : Q) (next : A → Script Q A)

variable {Q A : Type}

/-- The questions asked and the answers got. -/
def Script.transcript (answer : Q → A) : Script Q A → List (Q × A)
  | .done => []
  | .ask q next => (q, answer q) :: (next (answer q)).transcript answer

/-- Whatever the answers, every question meets `P`. -/
def Script.All (P : Q → Prop) : Script Q A → Prop
  | .done => True
  | .ask q next => P q ∧ ∀ a, (next a).All P

theorem Script.transcript_congr {P : Q → Prop} {answer answer' : Q → A}
    (agree : ∀ q, P q → answer q = answer' q) (s : Script Q A) (all : s.All P) :
    s.transcript answer = s.transcript answer' := by
  induction s with
  | done => rfl
  | ask q next ih =>
    rw [transcript, transcript, agree q all.1, ih _ (all.2 _)]

theorem Script.asked {P : Q → Prop} {answer : Q → A} (s : Script Q A) (all : s.All P) :
    ∀ e ∈ s.transcript answer, P e.1 := by
  induction s with
  | done =>
    intro e member
    cases member
  | ask q next ih =>
    intro e member
    rcases List.mem_cons.mp member with rfl | later
    exacts [all.1, ih _ (all.2 _) e later]

end Tracium.Sql
