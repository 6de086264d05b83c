import Tracium.Exclusive
import Tracium.Migrations.Apply

/-! Apply statement by statement, and any number of calls of it at once. The advisory
lock is taken by the first statement of the transaction and held to its end, so each of
the later statements sees what the calls before it have committed. -/
namespace Tracium.Migrations

open Go OrderedMap Exclusive

variable {R : Type}

structure Plan where
  namespaceName : Str
  dir : Dir

/-- The statement, or the check between statements, that comes next. -/
inductive Stage where
  | create
  | select
  | check (applied : List (Str × Str))
  | file (applied : List (Str × Str)) (names executed : List Str)
  | record (applied : List (Str × Str)) (name : Str) (names executed : List Str)

variable (rt : Runtime R)

/-- The checks on one file, and its text when it is new. -/
def nextFile (plan : Plan) (applied : List (Str × Str)) (name : Str) (rest executed : List Str)
    (work : Database R) : Next (Plan × Stage) (Database R) Result :=
  match OrderedMap.get applied name with
  | some old =>
    if old ≠ rt.checksum (plan.dir.read name) then
      .rollback (.error (changed plan.namespaceName name))
    else .go (plan, .file applied rest executed) work
  | none =>
    match applied.find? fun e => name < e.1 with
    | some e => .rollback (.error (precedes plan.namespaceName name e.1))
    | none =>
      match rt.exec (plan.dir.read name) work with
      | .error err => .rollback (.error (failed plan.namespaceName name err))
      | .ok work' => .go (plan, .record applied name rest executed) work'

def nextStage (plan : Plan) (work : Database R) :
    Stage → Next (Plan × Stage) (Database R) Result
  | .create => .go (plan, .select) work.createLedger
  | .select => .go (plan, .check (work.applied plan.namespaceName)) work
  | .check applied =>
    match applied.find? fun e => !plan.dir.names.contains e.1 with
    | some e => .rollback (.error (missing plan.namespaceName e.1))
    | none => .go (plan, .file applied plan.dir.names []) work
  | .file _ [] executed => .commit work (.ok executed)
  | .file applied (name :: rest) executed => nextFile rt plan applied name rest executed work
  | .record applied name rest executed =>
    match work.insert (ledgerRow rt plan.namespaceName plan.dir name) with
    | .error err => .rollback (.error err)
    | .ok work' => .go (plan, .file applied rest (executed ++ [name])) work'

/-- Apply as a program under the lock. -/
def program : Program MigrationSet (Plan × Stage) (Database R) Result where
  start set :=
    match set.files with
    | none => .error (.error (invalidSet rt set))
    | some dir =>
      if validNamespace set.namespaceName then .ok (⟨set.namespaceName, dir⟩, .create)
      else .error (.error (invalidSet rt set))
  next p work := nextStage rt p.1 work p.2

variable {rt} {plan : Plan} {base work after : Database R} {r : Result}

/-- The loop, statement by statement, ends as migrate says. -/
theorem ends_file {applied : List (Str × Str)} {names executed : List Str}
    (ends : Ends (program rt) base (plan, .file applied names executed) work after r) :
    (after, r) = commitOrRollback base
      (migrate rt plan.namespaceName plan.dir applied names executed work) := by
  induction names generalizing executed work with
  | nil =>
    obtain ⟨rfl, rfl⟩ := ends.of_commit rfl
    rfl
  | cons name rest ih =>
    have here : (program rt).next (plan, .file applied (name :: rest) executed) work =
        nextFile rt plan applied name rest executed work := rfl
    unfold nextFile at here
    rw [migrate]
    cases found : OrderedMap.get applied name with
    | some old =>
      simp only [found] at here ⊢
      by_cases different : old ≠ rt.checksum (plan.dir.read name)
      · rw [if_pos different] at here ⊢
        obtain ⟨rfl, rfl⟩ := ends.of_rollback here
        rfl
      · rw [if_neg different] at here ⊢
        exact ih (ends.of_go here)
    | none =>
      simp only [found] at here ⊢
      cases later : applied.find? fun e => decide (name < e.1) with
      | some e =>
        simp only [later] at here ⊢
        obtain ⟨rfl, rfl⟩ := ends.of_rollback here
        rfl
      | none =>
        simp only [later] at here ⊢
        cases ran : rt.exec (plan.dir.read name) work with
        | error err =>
          simp only [ran] at here ⊢
          obtain ⟨rfl, rfl⟩ := ends.of_rollback here
          rfl
        | ok middle =>
          simp only [ran] at here ⊢
          have recording := ends.of_go here
          have there : (program rt).next (plan, .record applied name rest executed) middle =
              nextStage rt plan middle (.record applied name rest executed) := rfl
          unfold nextStage at there
          cases recorded : middle.insert (ledgerRow rt plan.namespaceName plan.dir name) with
          | error err =>
            simp only [recorded] at there ⊢
            obtain ⟨rfl, rfl⟩ := recording.of_rollback there
            rfl
          | ok last =>
            simp only [recorded] at there ⊢
            exact ih (recording.of_go there)

theorem ends_transaction (ends : Ends (program rt) base (plan, .create) base after r) :
    (after, r) = commitOrRollback base (transaction rt plan.namespaceName plan.dir base) := by
  have created : Ends (program rt) base (plan, .select) base.createLedger after r :=
    ends.of_go rfl
  have selected : Ends (program rt) base
      (plan, .check (base.createLedger.applied plan.namespaceName)) base.createLedger after r :=
    created.of_go rfl
  have here : (program rt).next (plan, .check (base.createLedger.applied plan.namespaceName))
      base.createLedger = nextStage rt plan base.createLedger
        (.check (base.createLedger.applied plan.namespaceName)) := rfl
  unfold nextStage at here
  unfold transaction
  cases absent : (base.createLedger.applied plan.namespaceName).find? fun e =>
      !plan.dir.names.contains e.1 with
  | some e =>
    simp only [absent] at here ⊢
    obtain ⟨rfl, rfl⟩ := selected.of_rollback here
    rfl
  | none =>
    simp only [absent] at here ⊢
    exact ends_file (selected.of_go here)

/-- One call on its own is Apply. -/
theorem alone_eq_apply {set : MigrationSet} (alone : Alone (program rt) set base after r) :
    apply rt set base = (after, r) := by
  have start : (program rt).start set = match set.files with
    | none => .error (.error (invalidSet rt set))
    | some dir =>
      if validNamespace set.namespaceName then .ok (⟨set.namespaceName, dir⟩, .create)
      else .error (.error (invalidSet rt set)) := rfl
  unfold Alone at alone
  unfold apply
  cases files : set.files with
  | none =>
    simp only [start, files] at alone ⊢
    rw [alone.1, alone.2]
  | some dir =>
    simp only [start, files] at alone ⊢
    by_cases valid : validNamespace set.namespaceName = true
    · simp only [valid, ↓reduceIte] at alone ⊢
      exact (ends_transaction alone).symm
    · simp only [valid, Bool.false_eq_true, ↓reduceIte] at alone ⊢
      rw [alone.1, alone.2]

variable (rt) in
/-- The calls one after the other, each with its result, from one database to another. -/
def Sequential (db : Database R) : List (Nat × MigrationSet × Result) → Database R → Prop
  | [], last => last = db
  | (_, set, r) :: rest, last => (apply rt set db).2 = r ∧ Sequential (apply rt set db).1 rest last

theorem Sequential.snoc {db last : Database R} {order : List (Nat × MigrationSet × Result)}
    (sequential : Sequential rt db order last) (t : Nat) (set : MigrationSet) :
    Sequential rt db (order ++ [(t, set, (apply rt set last).2)]) (apply rt set last).1 := by
  induction order generalizing db with
  | nil =>
    obtain rfl : last = db := sequential
    exact ⟨rfl, rfl⟩
  | cons call rest ih => exact ⟨sequential.1, ih sequential.2⟩

theorem sequential_of_serial {db last : Database R} {order : List (Nat × MigrationSet × Result)}
    (serial : Serial (program rt) db order last) : Sequential rt db order last := by
  induction serial with
  | nil => rfl
  | @snoc order d d' t set r before alone ih =>
    have same := alone_eq_apply alone
    have next := ih.snoc t set
    rwa [same] at next

/-! The runner. -/

/-- A set Apply accepts: a valid namespace and a directory. -/
structure ValidSet where
  namespaceName : Str
  dir : Dir
  valid : validNamespace namespaceName = true

def ValidSet.toSet (set : ValidSet) : MigrationSet := ⟨set.namespaceName, some set.dir⟩

theorem apply_valid (set : ValidSet) (db : Database R) : apply rt set.toSet db =
    commitOrRollback db (transaction rt set.namespaceName set.dir db) := by
  unfold apply ValidSet.toSet
  simp only [set.valid, ↓reduceIte]

theorem commitOrRollback_ok {db after : Database R}
    {out : Except Str (Database R × List Str)} {executed : List Str} :
    commitOrRollback db out = (after, .ok executed) ↔ out = .ok (after, executed) := by
  cases out with
  | error err => simp [commitOrRollback]
  | ok result => simp [commitOrRollback, Prod.ext_iff]

/-- The migration runner, for files whose texts leave the ledger to it. -/
theorem migration_runner (rt : Runtime R) :
    (∀ (set : ValidSet) (db : Database R), LeavesLedger rt set.dir →
      -- When it succeeds.
      ((∃ executed, (apply rt set.toSet db).2 = .ok executed) ↔
        ∃ front back, set.dir.names = front ++ back ∧
          LedgerHolds rt set.namespaceName set.dir front db ∧
          SqlSucceeds rt set.namespaceName set.dir back db.createLedger) ∧
      -- What it has done then.
      (∀ after executed, apply rt set.toSet db = (after, .ok executed) →
        (∃ front, set.dir.names = front ++ executed ∧
          LedgerHolds rt set.namespaceName set.dir front db) ∧
        executed.Pairwise (· < ·) ∧
        Executes rt set.namespaceName set.dir executed db.createLedger after ∧
        LedgerHolds rt set.namespaceName set.dir set.dir.names after ∧
        after.rows = db.rows ++ executed.map (ledgerRow rt set.namespaceName set.dir) ∧
        apply rt set.toSet after = (after, .ok []))) ∧
    -- What a failure leaves.
    (∀ (set : MigrationSet) (db : Database R) err, (apply rt set db).2 = .error err →
      (apply rt set db).1 = db) ∧
    -- Any number of calls at once.
    ∀ (db : Database R) (actions : List (Action MigrationSet))
      (s : Store MigrationSet (Plan × Stage) (Database R) Result),
      Steps.run (step (program rt)) (Store.initial db) actions = some s →
      ∃ order, Sequential rt db order s.committed ∧ (order.map Prod.fst).Nodup ∧
        ∀ t set r, (t, set, r) ∈ order ↔ s.calls t = some (set, .done r) := by
  refine ⟨?_, ?_, ?_⟩
  · intro set db leaves
    constructor
    · rw [← transaction_ok_iff leaves, apply_valid]
      cases ran : transaction rt set.namespaceName set.dir db with
      | error err => simp [commitOrRollback]
      | ok out => simp [commitOrRollback]
    · intro after executed applied
      rw [apply_valid, commitOrRollback_ok] at applied
      obtain ⟨⟨front, split, holds⟩, executes, complete, rows, there⟩ :=
        transaction_effect leaves applied
      have sorted := names_sorted set.dir
      rw [split] at sorted
      refine ⟨⟨front, split, holds⟩, (List.pairwise_append.mp sorted).2.1, executes, complete,
        rows, ?_⟩
      rw [apply_valid, transaction_again complete there]
      rfl
  · intro set db err failure
    unfold apply at failure ⊢
    cases files : set.files with
    | none => rfl
    | some dir =>
      simp only [files] at failure ⊢
      split
      · rename_i valid
        rw [if_pos valid] at failure
        cases ran : transaction rt set.namespaceName dir db with
        | error err => rfl
        | ok out =>
          rw [ran] at failure
          cases failure
      · rfl
  · intro db actions s ran
    obtain ⟨order, serial, distinct, finished⟩ := run_serial ran
    exact ⟨order, sequential_of_serial serial, distinct, finished⟩

def createA : Str := lit "CREATE TABLE a();"

def createB : Str := lit "CREATE TABLE b();"

/-- A text that writes its own ledger row. -/
def insertOwnRow : Str :=
  lit "INSERT INTO app_schema_migrations(namespace,filename,checksum) VALUES('core','001.sql','x');"

def create (table : Str) (db : Database (List Str)) : Except Str (Database (List Str)) :=
  if db.rest.contains table then .error (lit "relation already exists")
  else .ok { db with rest := db.rest ++ [table] }

/-- Postgres on these three texts, over the set of tables. -/
def postgres : Runtime (List Str) where
  exec text db :=
    if text = createA then create (lit "a") db
    else if text = createB then create (lit "b") db
    else if text = insertOwnRow then db.insert ⟨lit "core", lit "001.sql", lit "x"⟩
    else .ok db
  checksum text :=
    if text = createA then
      lit "a8244c304686a6281431292e1c92c63f5803194fe5453363a2a91372397548b7"
    else if text = createB then
      lit "0bbed3ebe7cd68edd2cc7bbe94bf599060272f03b525106378089fc981eb293d"
    else if text = insertOwnRow then
      lit "512bd6b7c10007519ff83953943ce8d978e622ee787f53f09acbac8c6a6845bc"
    else []
  quote name := lit "\"" ++ name ++ lit "\""

theorem core_valid : validNamespace (lit "core") = true := by decide +kernel

def emptyDatabase : Database (List Str) := ⟨none, []⟩

/-- Two migrations and a file that is none, as the directory lists them. -/
def coreFiles : List Entry :=
  [⟨lit "002.sql", false, createB⟩, ⟨lit "README.md", false, []⟩, ⟨lit "001.sql", false, createA⟩]

def coreSet : ValidSet where
  namespaceName := lit "core"
  dir := ⟨coreFiles, by decide +kernel⟩
  valid := core_valid

/-- The database with 001.sql applied. -/
def migratedOnce : Database (List Str) :=
  ⟨some ⟨[ledgerRow postgres (lit "core") coreSet.dir (lit "001.sql")], List.nodup_singleton _⟩,
    [lit "a"]⟩

theorem create_ledger {table : Str} {db db' : Database (List Str)} (ran : create table db = .ok db') :
    db'.ledger = db.ledger := by
  unfold create at ran
  split at ran
  · cases ran
  · obtain rfl := Except.ok.inj ran
    rfl

theorem coreSet_leavesLedger : LeavesLedger postgres coreSet.dir := by
  have texts : ∀ name ∈ coreSet.dir.names,
      coreSet.dir.read name = createA ∨ coreSet.dir.read name = createB := by decide +kernel
  have apart : createB ≠ createA := by decide +kernel
  intro name member db db' ran
  rcases texts name member with text | text
  · rw [text] at ran
    exact create_ledger ran
  · rw [text] at ran
    simp only [postgres, apart, ↓reduceIte] at ran
    exact create_ledger ran

/-- A run over the first migration's ledger executes the second alone; the next does nothing. -/
theorem migration_runner_core :
    (apply postgres coreSet.toSet migratedOnce).2 = .ok [lit "002.sql"] ∧
    (apply postgres coreSet.toSet migratedOnce).1.rest = [lit "a", lit "b"] ∧
    LedgerHolds postgres (lit "core") coreSet.dir coreSet.dir.names
      (apply postgres coreSet.toSet migratedOnce).1 ∧
    apply postgres coreSet.toSet (apply postgres coreSet.toSet migratedOnce).1 =
      ((apply postgres coreSet.toSet migratedOnce).1, .ok []) := by
  have first : (apply postgres coreSet.toSet migratedOnce).2 = .ok [lit "002.sql"] := by
    decide +kernel
  have whole : apply postgres coreSet.toSet migratedOnce =
      ((apply postgres coreSet.toSet migratedOnce).1, .ok [lit "002.sql"]) := Prod.ext rfl first
  obtain ⟨_, _, _, complete, _, again⟩ := ((migration_runner postgres).1 coreSet migratedOnce
    coreSet_leavesLedger).2 _ _ whole
  exact ⟨first, by decide +kernel, complete, again⟩

/-- A directory of one migration, 001.sql. -/
def ownRowSet : ValidSet where
  namespaceName := lit "core"
  dir := ⟨[⟨lit "001.sql", false, insertOwnRow⟩], List.nodup_singleton _⟩
  valid := core_valid

/-- A migration that writes its own ledger row: nothing is in the ledger and its text
succeeds, but Apply fails on the row it inserts itself. -/
theorem migration_own_row_fails :
    ¬ ((∃ executed, (apply postgres ownRowSet.toSet emptyDatabase).2 = .ok executed) ↔
      ∃ front back, ownRowSet.dir.names = front ++ back ∧
        LedgerHolds postgres (lit "core") ownRowSet.dir front emptyDatabase ∧
        SqlSucceeds postgres (lit "core") ownRowSet.dir back
          emptyDatabase.createLedger) := by
  have failure : (apply postgres ownRowSet.toSet emptyDatabase).2 =
      .error (lit "duplicate key value violates unique constraint app_schema_migrations_pkey") := by
    decide +kernel
  rintro ⟨_, succeeds⟩
  have apart : insertOwnRow ≠ createA ∧ insertOwnRow ≠ createB := by decide +kernel
  obtain ⟨db', inserted⟩ : ∃ db', emptyDatabase.createLedger.insert
      ⟨lit "core", lit "001.sql", lit "x"⟩ = .ok db' :=
    insert_succeeds rfl (by simp [emptyDatabase, Database.createLedger, Database.rows])
  obtain ⟨executed, ok⟩ := succeeds ⟨[], [lit "001.sql"], by decide +kernel, .nil, db', by
    have text : ownRowSet.dir.read (lit "001.sql") = insertOwnRow := by decide +kernel
    rw [text]
    simp only [postgres, apart, ↓reduceIte]
    exact inserted, fun _ _ => trivial⟩
  rw [failure] at ok
  cases ok

end Tracium.Migrations
