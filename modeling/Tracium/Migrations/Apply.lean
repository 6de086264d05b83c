import Tracium.Go.Bytes
import Tracium.OrderedMap
import Mathlib.Data.List.Sort

/-! The migration runner. Apply runs in one transaction under one advisory lock: it
compares the ledger of the namespace with the files, file by file, and executes those
that are not in it. Postgres executing a file and SHA-256 are parameters. -/
namespace Tracium.Migrations

open Go OrderedMap

variable {R : Type}

/-! The database. -/

structure LedgerRow where
  namespaceName : Str
  filename : Str
  checksum : Str
  deriving DecidableEq

def LedgerRow.key (row : LedgerRow) : Str × Str := (row.namespaceName, row.filename)

/-- The table app_schema_migrations. -/
structure Ledger where
  rows : List LedgerRow
  primaryKey : (rows.map LedgerRow.key).Nodup

/-- The ledger the session reaches, once it exists, and everything else. -/
structure Database (R : Type) where
  ledger : Option Ledger
  rest : R

def Database.rows (db : Database R) : List LedgerRow := db.ledger.elim [] Ledger.rows

def Database.createLedger (db : Database R) : Database R :=
  { db with ledger := some (db.ledger.getD ⟨[], List.nodup_nil⟩) }

/-- What the SELECT puts into `applied`: filename and checksum. -/
def Database.applied (db : Database R) (namespaceName : Str) : List (Str × Str) :=
  (db.rows.filter fun row => row.namespaceName = namespaceName).map fun row =>
    (row.filename, row.checksum)

theorem Ledger.insert_key {ledger : Ledger} {row : LedgerRow}
    (fresh : row.key ∉ ledger.rows.map LedgerRow.key) :
    ((ledger.rows ++ [row]).map LedgerRow.key).Nodup := by
  rw [List.map_append, List.nodup_append]
  refine ⟨ledger.primaryKey, List.nodup_singleton _, ?_⟩
  rintro key member _ last rfl
  rw [List.map_singleton, List.mem_singleton] at last
  exact fresh (last ▸ member)

/-- The INSERT into the ledger. -/
def Database.insert (db : Database R) (row : LedgerRow) : Except Str (Database R) :=
  match db.ledger with
  | none => .error (lit "relation app_schema_migrations does not exist")
  | some ledger =>
    if fresh : row.key ∉ ledger.rows.map LedgerRow.key then
      .ok { db with ledger := some ⟨ledger.rows ++ [row], Ledger.insert_key fresh⟩ }
    else .error (lit "duplicate key value violates unique constraint app_schema_migrations_pkey")

/-! The files. -/

structure Entry where
  name : Str
  isDir : Bool
  content : Str

/-- A directory: no two entries have one name. -/
structure Dir where
  entries : List Entry
  distinct : (entries.map Entry.name).Nodup

/-- Set; `files` is `none` for a nil file system. -/
structure MigrationSet where
  namespaceName : Str
  files : Option Dir

/-- path.Ext: from the last dot on, not past a slash. -/
def ext (name : Str) : Str :=
  let tail := name.reverse.takeWhile fun b => b != 0x2E && b != 0x2F
  match name.reverse.drop tail.length with
  | 0x2E :: _ => 0x2E :: tail.reverse
  | _ => []

def isLower (b : UInt8) : Bool := 0x61 ≤ b && b ≤ 0x7A

/-- namespacePattern: a lower-case letter, then letters, digits, `_` and `-`. -/
def validNamespace : Str → Bool
  | [] => false
  | b :: rest => isLower b &&
      rest.all fun b => isLower b || (0x30 ≤ b && b ≤ 0x39) || b == 0x5F || b == 0x2D

/-- The names of the migrations, sorted. -/
def Dir.names (dir : Dir) : List Str :=
  ((dir.entries.filter fun e => !e.isDir && ext e.name == lit ".sql").map Entry.name).insertionSort
    (· ≤ ·)

def Dir.read (dir : Dir) (name : Str) : Str :=
  (dir.entries.find? fun e => e.name == name).elim [] Entry.content

/-! Apply. -/

/-- What Apply calls outside the repository: Postgres executing the text of a file, the
SHA-256 of a file in hex, and `%q`. -/
structure Runtime (R : Type) where
  exec : Str → Database R → Except Str (Database R)
  checksum : Str → Str
  quote : Str → Str

abbrev Result := Except Str (List Str)

variable (rt : Runtime R)

def invalidSet (set : MigrationSet) : Str := lit "invalid migration set " ++ rt.quote set.namespaceName

/-- `namespace/name`. -/
def label (namespaceName name : Str) : Str := namespaceName ++ lit "/" ++ name

def missing (namespaceName name : Str) : Str :=
  lit "missing applied migration " ++ label namespaceName name

def changed (namespaceName name : Str) : Str := lit "migration changed: " ++ label namespaceName name

def precedes (namespaceName name old : Str) : Str :=
  lit "migration " ++ label namespaceName name ++ lit " precedes applied migration " ++ old

def failed (namespaceName name err : Str) : Str :=
  lit "migration " ++ label namespaceName name ++ lit ": " ++ err

variable (namespaceName : Str) (dir : Dir)

/-- The ledger row of a file. -/
def ledgerRow (name : Str) : LedgerRow := ⟨namespaceName, name, rt.checksum (dir.read name)⟩

/-- The loop over the files. `applied` is a Go map and is not updated; which of several
offending entries an error names is up to its iteration order. -/
def migrate (applied : List (Str × Str)) :
    List Str → List Str → Database R → Except Str (Database R × List Str)
  | [], executed, db => .ok (db, executed)
  | name :: rest, executed, db =>
    match OrderedMap.get applied name with
    | some old =>
      if old ≠ rt.checksum (dir.read name) then .error (changed namespaceName name)
      else migrate applied rest executed db
    | none =>
      match applied.find? fun e => name < e.1 with
      | some e => .error (precedes namespaceName name e.1)
      | none =>
        match rt.exec (dir.read name) db with
        | .error err => .error (failed namespaceName name err)
        | .ok db' =>
          match db'.insert (ledgerRow rt namespaceName dir name) with
          | .error err => .error err
          | .ok db'' => migrate applied rest (executed ++ [name]) db''

/-- The transaction from the lock to the end of the loop. -/
def transaction (db : Database R) : Except Str (Database R × List Str) :=
  let db := db.createLedger
  let applied := db.applied namespaceName
  match applied.find? fun e => !dir.names.contains e.1 with
  | some e => .error (missing namespaceName e.1)
  | none => migrate rt namespaceName dir applied dir.names [] db

/-- What a transaction leaves: its changes, or what was there. -/
def commitOrRollback (db : Database R) : Except Str (Database R × List Str) → Database R × Result
  | .error err => (db, .error err)
  | .ok (db', executed) => (db', .ok executed)

/-- Apply: the database after it and its error; `.ok` lists the files it executed. -/
def apply (set : MigrationSet) (db : Database R) : Database R × Result :=
  match set.files with
  | none => (db, .error (invalidSet rt set))
  | some dir =>
    if validNamespace set.namespaceName then
      commitOrRollback db (transaction rt set.namespaceName dir db)
    else (db, .error (invalidSet rt set))

/-! Names in order. -/

theorem names_nodup : dir.names.Nodup := by
  apply (List.perm_insertionSort _ _).nodup_iff.mpr
  exact dir.distinct.sublist (List.filter_sublist.map _)

theorem names_sorted : dir.names.Pairwise (· < ·) := by
  have ordered : dir.names.Pairwise (· ≤ ·) := List.pairwise_insertionSort _ _
  apply (ordered.and (names_nodup dir)).imp
  rintro a b ⟨le, ne⟩
  by_contra notLt
  exact ne (List.le_antisymm le notLt)

/-- In a sorted list the elements of a downward closed set come first. -/
theorem filter_eq_takeWhile {p : Str → Bool} {names : List Str} (sorted : names.Pairwise (· < ·))
    (closed : ∀ a ∈ names, ∀ b ∈ names, p b = true → a < b → p a = true) :
    names.filter p = names.takeWhile p := by
  induction names with
  | nil => rfl
  | cons name rest ih =>
    obtain ⟨before, later⟩ := List.pairwise_cons.mp sorted
    cases first : p name with
    | true =>
      rw [List.filter_cons_of_pos first, List.takeWhile_cons_of_pos first, ih later]
      intro a inside b also
      exact closed a (List.mem_cons_of_mem _ inside) b (List.mem_cons_of_mem _ also)
    | false =>
      have none : ∀ b ∈ rest, ¬p b = true := by
        intro b member holds
        have whole := closed name List.mem_cons_self b (List.mem_cons_of_mem _ member) holds
          (before b member)
        rw [first] at whole
        cases whole
      rw [List.filter_cons_of_neg (by simp [first]), List.takeWhile_cons_of_neg (by simp [first]),
        List.filter_eq_nil_iff.mpr none]

/-! The ledger. -/

theorem applied_distinct (db : Database R) : DistinctKeys (db.applied namespaceName) := by
  have keys : (db.rows.map LedgerRow.key).Nodup := by
    unfold Database.rows
    cases db.ledger with
    | none => exact List.nodup_nil
    | some ledger => exact ledger.primaryKey
  unfold DistinctKeys Database.applied List.Nodup
  rw [List.map_map, List.pairwise_map]
  have apart := (List.pairwise_map.mp keys).filter fun row =>
    decide (row.namespaceName = namespaceName)
  apply apart.imp_of_mem
  intro a b left right different same
  have inside := (List.mem_filter.mp left).2
  have also := (List.mem_filter.mp right).2
  simp only [decide_eq_true_eq] at inside also
  exact different (Prod.ext (inside.trans also.symm) same)

theorem insert_ok {db db' : Database R} {row : LedgerRow} (inserted : db.insert row = .ok db') :
    db'.rows = db.rows ++ [row] ∧ db'.ledger.isSome = true := by
  unfold Database.insert at inserted
  split at inserted
  · cases inserted
  · rename_i ledger found
    split at inserted
    · obtain rfl := Except.ok.inj inserted
      simp [Database.rows, found]
    · cases inserted

theorem insert_succeeds {db : Database R} {row : LedgerRow} (exists_ : db.ledger.isSome = true)
    (fresh : row.key ∉ db.rows.map LedgerRow.key) : ∃ db', db.insert row = .ok db' := by
  obtain ⟨ledger, found⟩ := Option.isSome_iff_exists.mp exists_
  have absent : row.key ∉ ledger.rows.map LedgerRow.key := by
    simpa [Database.rows, found] using fresh
  unfold Database.insert
  rw [found]
  simp only [absent, not_false_eq_true, ↓reduceDIte]
  exact ⟨_, rfl⟩

theorem applied_append {db db' : Database R} {rows : List LedgerRow}
    (grown : db'.rows = db.rows ++ rows) (own : ∀ row ∈ rows, row.namespaceName = namespaceName) :
    db'.applied namespaceName =
      db.applied namespaceName ++ rows.map fun row => (row.filename, row.checksum) := by
  have kept : rows.filter (fun row => decide (row.namespaceName = namespaceName)) = rows := by
    rw [List.filter_eq_self]
    intro row member
    simp [own row member]
  unfold Database.applied
  rw [grown, List.filter_append, List.map_append, kept]

/-! What the loop does. -/

/-- Name and checksum of a file. -/
def stamp (name : Str) : Str × Str := (name, rt.checksum (dir.read name))

/-- The texts of the files run in turn, each followed by its ledger row. -/
inductive Executes : List Str → Database R → Database R → Prop where
  | nil (db : Database R) : Executes [] db db
  | cons {name : Str} {rest : List Str} {db middle after last : Database R}
      (ran : rt.exec (dir.read name) db = .ok middle)
      (recorded : middle.insert (ledgerRow rt namespaceName dir name) = .ok after)
      (later : Executes rest after last) : Executes (name :: rest) db last

/-- Every text succeeds where its turn comes. -/
def SqlSucceeds : List Str → Database R → Prop
  | [], _ => True
  | name :: rest, db => ∃ db', rt.exec (dir.read name) db = .ok db' ∧
      ∀ db'', db'.insert (ledgerRow rt namespaceName dir name) = .ok db'' → SqlSucceeds rest db''

variable {rt namespaceName dir}

theorem migrate_front {applied : List (Str × Str)} {front back executed : List Str}
    (matching : ∀ name ∈ front, OrderedMap.get applied name = some (rt.checksum (dir.read name)))
    (db : Database R) :
    migrate rt namespaceName dir applied (front ++ back) executed db =
      migrate rt namespaceName dir applied back executed db := by
  induction front with
  | nil => rfl
  | cons name front ih =>
    have first := matching name List.mem_cons_self
    have later := ih fun name member => matching name (List.mem_cons_of_mem _ member)
    simp only [List.cons_append, migrate, first, ne_eq, not_true_eq_false, ↓reduceIte, later]

/-- A file that is not in the ledger, and no file of the ledger comes after it. -/
def New (applied : List (Str × Str)) (name : Str) : Prop :=
  OrderedMap.get applied name = none ∧ ∀ e ∈ applied, ¬name < e.1

theorem find_later_eq_none {applied : List (Str × Str)} {name : Str} :
    (applied.find? fun e => decide (name < e.1)) = none ↔ ∀ e ∈ applied, ¬name < e.1 := by
  simp only [List.find?_eq_none, decide_eq_true_eq]

theorem find_missing_eq_none {applied : List (Str × Str)} {names : List Str} :
    (applied.find? fun e => !names.contains e.1) = none ↔ ∀ e ∈ applied, e.1 ∈ names := by
  simp only [List.find?_eq_none, Bool.not_eq_true', Bool.not_eq_false, List.contains_iff_mem]

/-- A loop that succeeds has found each file in the ledger as it is, or new. -/
theorem migrate_checks {applied : List (Str × Str)} {names executed : List Str} {db : Database R}
    {out : Database R × List Str}
    (ok : migrate rt namespaceName dir applied names executed db = .ok out) :
    ∀ name ∈ names, OrderedMap.get applied name = some (rt.checksum (dir.read name)) ∨
      New applied name := by
  induction names generalizing executed db with
  | nil => exact fun name member => (List.not_mem_nil member).elim
  | cons name rest ih =>
    rw [List.forall_mem_cons]
    simp only [migrate] at ok
    split at ok
    · rename_i old found
      split at ok
      · cases ok
      · rename_i same
        rw [not_not] at same
        exact ⟨.inl (by rw [found, same]), ih ok⟩
    · rename_i absent
      split at ok
      · cases ok
      · rename_i none
        split at ok
        · cases ok
        · split at ok
          · cases ok
          · exact ⟨.inr ⟨absent, find_later_eq_none.mp none⟩, ih ok⟩

/-- Over new files the loop executes and records them all. -/
theorem migrate_new {applied : List (Str × Str)} {names executed : List Str} {db : Database R}
    {out : Database R × List Str} (new : ∀ name ∈ names, New applied name)
    (ok : migrate rt namespaceName dir applied names executed db = .ok out) :
    out.2 = executed ++ names ∧ Executes rt namespaceName dir names db out.1 ∧
      SqlSucceeds rt namespaceName dir names db := by
  induction names generalizing executed db with
  | nil =>
    obtain rfl := Except.ok.inj ok
    exact ⟨(List.append_nil executed).symm, .nil db, trivial⟩
  | cons name rest ih =>
    obtain ⟨⟨absent, last⟩, others⟩ := List.forall_mem_cons.mp new
    have none := find_later_eq_none.mpr last
    simp only [migrate, absent, none] at ok
    split at ok
    · cases ok
    · rename_i middle ran
      split at ok
      · cases ok
      · rename_i after recorded
        obtain ⟨list, executes, succeeds⟩ := ih others ok
        refine ⟨by rw [list, List.append_assoc]; rfl, .cons ran recorded executes, middle, ran, ?_⟩
        intro db'' again
        rw [recorded] at again
        obtain rfl := Except.ok.inj again
        exact succeeds

/-- The texts of the files leave the ledger to Apply, and with it how the session reaches
it: its search_path and its role. -/
def LeavesLedger (rt : Runtime R) (dir : Dir) : Prop :=
  ∀ name ∈ dir.names, ∀ db db', rt.exec (dir.read name) db = .ok db' → db'.ledger = db.ledger

theorem rows_of_ledger {db db' : Database R} (same : db'.ledger = db.ledger) : db'.rows = db.rows := by
  unfold Database.rows
  rw [same]

/-- What executing files does to the ledger: one row for each. -/
theorem Executes.rows (leaves : LeavesLedger rt dir) {names : List Str} {db last : Database R}
    (executes : Executes rt namespaceName dir names db last) (inside : names ⊆ dir.names)
    (exists_ : db.ledger.isSome = true) :
    last.rows = db.rows ++ names.map (ledgerRow rt namespaceName dir) ∧
      last.ledger.isSome = true := by
  induction executes with
  | nil db => exact ⟨(List.append_nil _).symm, exists_⟩
  | @cons name rest db middle after last ran recorded later ih =>
    have untouched := leaves name (inside List.mem_cons_self) db middle ran
    obtain ⟨grown, there⟩ := insert_ok recorded
    obtain ⟨all, still⟩ := ih (List.subset_of_cons_subset inside) there
    rw [all, grown, rows_of_ledger untouched, List.append_assoc]
    exact ⟨rfl, still⟩

/-- Over new files of a sorted list the loop succeeds when every text does. -/
theorem migrate_succeeds (leaves : LeavesLedger rt dir) {applied : List (Str × Str)}
    {names executed : List Str} {db : Database R} (inside : names ⊆ dir.names)
    (distinct : names.Nodup) (new : ∀ name ∈ names, New applied name)
    (exists_ : db.ledger.isSome = true)
    (fresh : ∀ name ∈ names, (namespaceName, name) ∉ db.rows.map LedgerRow.key)
    (succeeds : SqlSucceeds rt namespaceName dir names db) :
    ∃ out, migrate rt namespaceName dir applied names executed db = .ok out := by
  induction names generalizing executed db with
  | nil => exact ⟨_, rfl⟩
  | cons name rest ih =>
    obtain ⟨⟨absent, last⟩, others⟩ := List.forall_mem_cons.mp new
    obtain ⟨notLater, apart⟩ := List.nodup_cons.mp distinct
    obtain ⟨unused, unusedLater⟩ := List.forall_mem_cons.mp fresh
    have none := find_later_eq_none.mpr last
    obtain ⟨middle, ran, onward⟩ := succeeds
    have untouched := leaves name (inside List.mem_cons_self) db middle ran
    have sameRows := rows_of_ledger untouched
    obtain ⟨after, recorded⟩ : ∃ after, middle.insert (ledgerRow rt namespaceName dir name) =
        .ok after := by
      apply insert_succeeds
      · rw [untouched]
        exact exists_
      · rw [sameRows]
        exact unused
    obtain ⟨grown, there⟩ := insert_ok recorded
    have stillFresh : ∀ other ∈ rest, (namespaceName, other) ∉ after.rows.map LedgerRow.key := by
      intro other member
      rw [grown, sameRows, List.map_append, List.mem_append]
      rintro (old | own)
      · exact unusedLater other member old
      · simp only [ledgerRow, LedgerRow.key, List.map_cons, List.map_nil, List.mem_singleton,
          Prod.mk.injEq, true_and] at own
        exact notLater (own ▸ member)
    obtain ⟨out, ok⟩ := ih (List.subset_of_cons_subset inside) apart others there stillFresh
      (onward after recorded)
    refine ⟨out, ?_⟩
    simp only [migrate, absent, none, ran, recorded]
    exact ok

/-! Acceptance. -/

variable (rt namespaceName dir) in
/-- The ledger holds exactly these files with their checksums. -/
def LedgerHolds (names : List Str) (db : Database R) : Prop :=
  (db.applied namespaceName).Perm (names.map (stamp rt dir))

theorem rows_createLedger (db : Database R) : db.createLedger.rows = db.rows := by
  unfold Database.createLedger Database.rows
  cases db.ledger <;> rfl

theorem applied_createLedger (db : Database R) :
    db.createLedger.applied namespaceName = db.applied namespaceName := by
  unfold Database.applied
  rw [rows_createLedger]

/-- Files in the ledger with their checksum are found there with it. -/
theorem LedgerHolds.get {names : List Str} {db : Database R}
    (holds : LedgerHolds rt namespaceName dir names db) {name : Str} (member : name ∈ names) :
    OrderedMap.get (db.applied namespaceName) name = some (rt.checksum (dir.read name)) := by
  rw [get_eq_some_iff_mem (applied_distinct namespaceName db), holds.mem_iff]
  exact List.mem_map_of_mem member

/-- The files behind an initial segment that is in the ledger are new. -/
theorem LedgerHolds.new {front back : List Str} {db : Database R}
    (holds : LedgerHolds rt namespaceName dir front db)
    (sorted : (front ++ back).Pairwise (· < ·)) :
    ∀ name ∈ back, New (db.applied namespaceName) name := by
  intro name member
  have before : ∀ old ∈ front, old < name := fun old first =>
    (List.pairwise_append.mp sorted).2.2 old first name member
  constructor
  · apply get_eq_none
    intro found
    obtain ⟨e, inside, rfl⟩ := List.mem_map.mp found
    obtain ⟨old, first, rfl⟩ := List.mem_map.mp (holds.mem_iff.mp inside)
    exact List.lt_irrefl _ (before old first)
  · intro e inside later
    obtain ⟨old, first, rfl⟩ := List.mem_map.mp (holds.mem_iff.mp inside)
    exact List.lt_irrefl _ (List.lt_trans later (before old first))

theorem stamps_nodup {names : List Str} (distinct : names.Nodup) : (names.map (stamp rt dir)).Nodup := by
  apply List.Nodup.of_map Prod.fst
  have same : (Prod.fst ∘ stamp rt dir) = id := rfl
  rw [List.map_map, same, List.map_id]
  exact distinct

/-- The three checks together: a loop that succeeds over files that include all of the
ledger's has found an initial segment of them there. -/
theorem holds_of_checks {db : Database R}
    (present : ∀ e ∈ db.applied namespaceName, e.1 ∈ dir.names)
    (checks : ∀ name ∈ dir.names,
      OrderedMap.get (db.applied namespaceName) name = some (rt.checksum (dir.read name)) ∨
        New (db.applied namespaceName) name) :
    ∃ front back, dir.names = front ++ back ∧ LedgerHolds rt namespaceName dir front db := by
  have sorted := names_sorted dir
  have distinct := applied_distinct namespaceName db
  obtain ⟨p, inLedger⟩ : ∃ p : Str → Bool, ∀ name, p name = true ↔
      (OrderedMap.get (db.applied namespaceName) name).isSome = true := ⟨_, fun _ => Iff.rfl⟩
  have closed : ∀ a ∈ dir.names, ∀ b ∈ dir.names, p b = true → a < b → p a = true := by
    intro a inside b _ found lower
    rw [inLedger] at found ⊢
    obtain ⟨sum, entry⟩ := Option.isSome_iff_exists.mp found
    rcases checks a inside with same | ⟨_, last⟩
    · rw [same]
      rfl
    · exact absurd lower (last (b, sum) ((get_eq_some_iff_mem distinct).mp entry))
  have whole := filter_eq_takeWhile sorted closed
  refine ⟨dir.names.takeWhile p, dir.names.dropWhile p, List.takeWhile_append_dropWhile.symm, ?_⟩
  rw [← whole]
  have left : (db.applied namespaceName).Nodup := List.Nodup.of_map _ distinct
  have right : ((dir.names.filter p).map (stamp rt dir)).Nodup := stamps_nodup ((names_nodup dir).filter p)
  unfold LedgerHolds
  rw [List.perm_ext_iff_of_nodup left right]
  rintro ⟨name, sum⟩
  constructor
  · intro member
    have found := (get_eq_some_iff_mem distinct).mpr member
    have inside : name ∈ dir.names := present _ member
    rcases checks name inside with same | ⟨absent, _⟩
    · rw [found, Option.some.injEq] at same
      refine List.mem_map.mpr ⟨name, List.mem_filter.mpr ⟨inside, ?_⟩, by rw [same]; rfl⟩
      rw [inLedger, found]
      rfl
    · rw [found] at absent
      cases absent
  · intro member
    obtain ⟨other, kept, eq⟩ := List.mem_map.mp member
    obtain ⟨rfl, rfl⟩ := Prod.mk.inj eq
    obtain ⟨inside, found⟩ := List.mem_filter.mp kept
    rw [inLedger] at found
    rcases checks other inside with same | ⟨absent, _⟩
    · exact (get_eq_some_iff_mem distinct).mp same
    · rw [absent] at found
      cases found

/-- The transaction when the ledger holds an initial segment: only the rest is looked at. -/
theorem transaction_of_holds {front back : List Str} {db : Database R}
    (split : dir.names = front ++ back) (holds : LedgerHolds rt namespaceName dir front db) :
    transaction rt namespaceName dir db =
      migrate rt namespaceName dir (db.applied namespaceName) back [] db.createLedger := by
  have present : ((db.applied namespaceName).find? fun e => !dir.names.contains e.1) = none := by
    rw [find_missing_eq_none]
    intro e member
    obtain ⟨name, first, rfl⟩ := List.mem_map.mp (holds.mem_iff.mp member)
    rw [split]
    exact List.mem_append_left _ first
  simp only [transaction, applied_createLedger, present]
  rw [split]
  exact migrate_front (fun name member => holds.get member) _

/-- A transaction succeeds exactly over a ledger that holds an initial segment, when every
remaining text does. -/
theorem transaction_ok_iff (leaves : LeavesLedger rt dir) (db : Database R) :
    (∃ out, transaction rt namespaceName dir db = .ok out) ↔
      ∃ front back, dir.names = front ++ back ∧ LedgerHolds rt namespaceName dir front db ∧
        SqlSucceeds rt namespaceName dir back db.createLedger := by
  have sorted := names_sorted dir
  constructor
  · rintro ⟨out, ok⟩
    have ran := ok
    simp only [transaction, applied_createLedger] at ran
    split at ran
    · cases ran
    · rename_i none
      obtain ⟨front, back, split, holds⟩ :=
        holds_of_checks (find_missing_eq_none.mp none) (migrate_checks ran)
      rw [transaction_of_holds split holds] at ok
      rw [split] at sorted
      exact ⟨front, back, split, holds, (migrate_new (holds.new sorted) ok).2.2⟩
  · rintro ⟨front, back, split, holds, succeeds⟩
    rw [split] at sorted
    have inside : back ⊆ dir.names := split ▸ List.subset_append_right front back
    have distinct : back.Nodup := (List.nodup_append.mp (split ▸ names_nodup dir)).2.1
    rw [transaction_of_holds split holds]
    apply migrate_succeeds leaves inside distinct (holds.new sorted) rfl _ succeeds
    intro name member found
    obtain ⟨row, there, key⟩ := List.mem_map.mp found
    obtain ⟨own, named⟩ := Prod.mk.inj key
    have entry : (name, row.checksum) ∈ db.createLedger.applied namespaceName :=
      List.mem_map.mpr ⟨row, List.mem_filter.mpr ⟨there, by simpa using own⟩, by rw [named]⟩
    rw [applied_createLedger] at entry
    have absent := (holds.new sorted name member).1
    rw [(get_eq_some_iff_mem (applied_distinct namespaceName db)).mpr entry] at absent
    cases absent

/-- What a transaction that succeeds has done. -/
theorem transaction_effect (leaves : LeavesLedger rt dir) {db : Database R}
    {out : Database R × List Str} (ok : transaction rt namespaceName dir db = .ok out) :
    (∃ front, dir.names = front ++ out.2 ∧ LedgerHolds rt namespaceName dir front db) ∧
      Executes rt namespaceName dir out.2 db.createLedger out.1 ∧
      LedgerHolds rt namespaceName dir dir.names out.1 ∧
      out.1.rows = db.rows ++ out.2.map (ledgerRow rt namespaceName dir) ∧
      out.1.ledger.isSome = true := by
  obtain ⟨front, back, split, holds, _⟩ := (transaction_ok_iff leaves db).mp ⟨out, ok⟩
  have sorted := names_sorted dir
  rw [split] at sorted
  rw [transaction_of_holds split holds] at ok
  obtain ⟨executed, executes, _⟩ := migrate_new (holds.new sorted) ok
  rw [List.nil_append] at executed
  rw [← executed] at split executes
  have inside : out.2 ⊆ dir.names := split ▸ List.subset_append_right front out.2
  obtain ⟨grown, there⟩ := executes.rows leaves inside rfl
  have grownApplied := applied_append namespaceName grown fun row member => by
    obtain ⟨name, _, rfl⟩ := List.mem_map.mp member
    rfl
  rw [rows_createLedger] at grown
  refine ⟨⟨front, split, holds⟩, executes, ?_, grown, there⟩
  unfold LedgerHolds
  rw [grownApplied, applied_createLedger, split, List.map_append, List.map_map]
  exact holds.append_right _

/-- An immediate second run finds everything done. -/
theorem transaction_again {db : Database R} (holds : LedgerHolds rt namespaceName dir dir.names db)
    (exists_ : db.ledger.isSome = true) : transaction rt namespaceName dir db = .ok (db, []) := by
  have same : db.createLedger = db := by
    obtain ⟨ledger, found⟩ := Option.isSome_iff_exists.mp exists_
    cases db
    simp only at found
    subst found
    rfl
  rw [transaction_of_holds (List.append_nil _).symm holds, same]
  rfl

end Tracium.Migrations
