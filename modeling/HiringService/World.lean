import HiringService.CsvParser
import HiringService.Effect.Contract
import HiringService.Metrics.Queries
import HiringService.Txn.Server

/-!
# The world around the code

Everything that a use case or a worker calls: the PostgreSQL sessions behind the unit of work, the
object storage, the cache, the analytics connection and the clock. `exec` says what one call of a
process does.

A call may fail in two ways. The database refuses a statement that violates a constraint, and the
environment may make any call raise: a `Fault` says what is raised and how far the call had come.
Sessions are read committed. A statement that needs a key or a row which another open transaction
has written waits for that transaction.

Two things are taken to happen in one step although they do not. An INSERT inserts all its rows, or
waits and has inserted none of them; `HiringService.Service.Rows` lets it keep the rows before the
one that it waits for. And a query is executed and its rows are fetched, although the requests share
one DuckDB connection, which does not keep their calls apart.
-/

namespace HiringService

/-- A process: one request or one background task, with a session of its own. -/
abbrev Pid := ℕ

/-- Where an object is stored. -/
structure ObjectKey where
  bucket : String
  key : String
  deriving DecidableEq

/-- What the history keeps: committed transactions and deletions that were issued to the cache. -/
inductive Event
  | commit (pid : Pid) (writes : List Write)
  | cacheDelete (pid : Pid) (keys : List String)
  deriving DecidableEq

/-- The state of the world. `slot` is the field `_savepoint` of each unit of work. -/
structure World where
  server : Txn.Server Pid Db Write
  slot : Pid → Option ℕ
  storage : ObjectKey → Option Bytes
  cache : String → Option (List Row)
  clock : ℕ
  history : List Event

/-- What a process reads in the database. -/
def World.view (w : World) (pid : Pid) : Db := w.server.view Db.apply pid

/-- The committed database. -/
abbrev World.db (w : World) : Db := w.server.committed

/-- A world with fresh sessions and an empty cache. -/
def World.initial (db : Db) (storage : ObjectKey → Option Bytes) : World where
  server := { committed := db, pending := [], sessions := fun _ => default, level_lt := nofun }
  slot _ := none
  storage := storage
  cache _ := none
  clock := 0
  history := []

/-! ## Statements -/

/-- The statements of the repositories. -/
inductive Statement
  | addBatch (batchId : BatchId) (status : IngestionBatchStatus)
  | updateStatus (batchId : BatchId) (status : IngestionBatchStatus) (errors : List String)
  | insertReference (table : ReferenceTable) (rows : List ReferenceRow)
  | insertEmployees (rows : List EmployeeValues)
  deriving DecidableEq

/-- The write of a statement that is executed at time `now`. -/
def Statement.write (now : ℕ) : Statement → Write
  | .addBatch batchId status => .insertBatch ⟨batchId, status, none, now⟩
  | .updateStatus batchId status errors => .updateBatch batchId status errors
  | .insertReference table rows => .insertReference table rows
  | .insertEmployees rows => .insertEmployees rows

/-- The range of an `integer` column. -/
def storableInt (n : ℤ) : Prop := -2147483648 ≤ n ∧ n ≤ 2147483647

/-- Neither `varchar` nor `jsonb` stores U+0000. -/
def storableText (s : String) : Prop := '\x00' ∉ s.toList

instance (n : ℤ) : Decidable (storableInt n) := by unfold storableInt; infer_instance
instance (s : String) : Decidable (storableText s) := by unfold storableText; infer_instance

/-- The columns can store the values of the row. -/
def ReferenceRow.storable (r : ReferenceRow) : Prop := storableInt r.id ∧ storableText r.name

/-- The offsets that PostgreSQL reads at the end of a date: whole seconds, short of 16 hours. -/
def readableOffset (offset : ℤ) : Prop := |offset| < 16 * 3600 * 1000000 ∧ offset % 1000000 = 0

instance (offset : ℤ) : Decidable (readableOffset offset) := by
  unfold readableOffset; infer_instance

/-- The columns can store the values; a date without an offset is always one that can be read. -/
def EmployeeValues.storable (r : EmployeeValues) : Prop :=
  storableInt r.id ∧ storableText r.name ∧ storableInt r.departmentId ∧ storableInt r.jobId ∧
    ∀ offset ∈ r.offset, readableOffset offset

instance (r : ReferenceRow) : Decidable r.storable := by
  unfold ReferenceRow.storable; infer_instance
instance (r : EmployeeValues) : Decidable r.storable := by
  unfold EmployeeValues.storable; infer_instance

/-- The columns can store the values of the write. -/
def Write.storable : Write → Prop
  | .insertBatch _ => True
  | .updateBatch _ _ errors => ∀ e ∈ errors, storableText e
  | .insertReference _ rows => ∀ r ∈ rows, r.storable
  | .insertEmployees rows => ∀ r ∈ rows, r.storable

instance : (w : Write) → Decidable w.storable
  | .insertBatch _ => .isTrue trivial
  | .updateBatch _ _ errors => inferInstanceAs (Decidable (∀ e ∈ errors, storableText e))
  | .insertReference _ rows => inferInstanceAs (Decidable (∀ r ∈ rows, r.storable))
  | .insertEmployees rows => inferInstanceAs (Decidable (∀ r ∈ rows, r.storable))

/-- The name of a reference table. -/
def ReferenceTable.name : ReferenceTable → String
  | .departments => "departments"
  | .jobs => "jobs"

/-- The table of a key. -/
def Key.table : Key → String
  | .batch _ => "ingestion_batches"
  | .reference t _ => t.name
  | .employee _ => "employees"

/-- The id of a key, as a message shows it. -/
def Key.idText : Key → String
  | .batch id => toString id
  | .reference _ id => toString id
  | .employee id => toString id

/-- A foreign key of a row: the key that has to exist. -/
structure ForeignKey where
  table : String
  column : String
  target : Key

/-- The foreign keys of a write. -/
def Write.foreignKeys : Write → List ForeignKey
  | .insertBatch _ => []
  | .updateBatch .. => []
  | .insertReference t rows => rows.map fun r => ⟨t.name, "batch_id", .batch r.batchId⟩
  | .insertEmployees rows => rows.flatMap fun r =>
      [⟨"employees", "batch_id", .batch r.batchId⟩,
        ⟨"employees", "department_id", .reference .departments r.departmentId⟩,
        ⟨"employees", "job_id", .reference .jobs r.jobId⟩]

/-- The message of a primary key violation; SQLAlchemy appends the statement and its parameters. -/
def pkMessage (key : Key) (sql : String) : String :=
  "(psycopg2.errors.UniqueViolation) duplicate key value violates unique constraint \"" ++
    key.table ++ "_pkey\"\nDETAIL:  Key (id)=(" ++ key.idText ++ ") already exists.\n" ++ sql

/-- The message of a foreign key violation. -/
def fkMessage (fk : ForeignKey) (sql : String) : String :=
  "(psycopg2.errors.ForeignKeyViolation) insert or update on table \"" ++ fk.table ++
    "\" violates foreign key constraint \"" ++ fk.table ++ "_" ++ fk.column ++
    "_fkey\"\nDETAIL:  Key (" ++ fk.column ++ ")=(" ++ fk.target.idText ++
    ") is not present in table \"" ++ fk.target.table ++ "\".\n" ++ sql

/-- The message for `INSERT … DEFAULT VALUES`, which SQLAlchemy makes of an empty list of rows. -/
def nullMessage (sql : String) : String :=
  "(psycopg2.errors.NotNullViolation) null value in column \"id\" violates not-null constraint\n" ++
    sql

/-- Whether the keys of an insert are free. -/
inductive Claim
  | granted
  | conflict (key : Key)
  | wait
  deriving DecidableEq

/-- Claim keys in order: `taken` are visible to the session, `held` belong to other open
transactions. -/
def claimKeys (taken held : List Key) : List Key → Claim
  | [] => .granted
  | k :: ks =>
      if k ∈ taken then .conflict k
      else if k ∈ held then .wait
      else claimKeys (k :: taken) held ks

/-- What the database makes of a statement. -/
inductive Plan
  | write (w : Write)
  | skip
  | refuse (e : Exn)
  | wait

/-- An insert without rows. -/
def Write.isEmpty : Write → Bool
  | .insertReference _ rows => rows.isEmpty
  | .insertEmployees rows => rows.isEmpty
  | _ => false

/-- An insert: the values, then the primary keys row by row, then the foreign keys. An insert that
has to wait for a key has not inserted the rows before it either. -/
def planInsert (view : Db) (held : List Write) (sql : String) (w : Write) : Plan :=
  if w.isEmpty then .refuse (.integrity (nullMessage sql))
  else if ¬ w.storable then .refuse (.data sql)
  else match claimKeys view.keys (held.flatMap Write.keys) w.keys with
    | .conflict key => .refuse (.integrity (pkMessage key sql))
    | .wait => .wait
    | .granted =>
        match w.foreignKeys.find? fun fk => fk.target ∉ view.keys with
        | some fk => .refuse (.integrity (fkMessage fk sql))
        | none => .write w

/-- The write updates the row of the batch, and so locks it. -/
def Write.locks (batchId : BatchId) : Write → Bool
  | .updateBatch id _ _ => id = batchId
  | _ => false

/-- What the database makes of a statement when the session sees `view` and the other open
transactions have written `held`. -/
def Statement.plan (view : Db) (held : List Write) (now : ℕ) (sql : String) (s : Statement) : Plan :=
  match s with
  | .updateStatus batchId _ _ =>
      if ¬ (s.write now).storable then .refuse (.data sql)
      else if held.any (Write.locks batchId) then .wait
      else if Key.batch batchId ∈ view.keys then .write (s.write now)
      else .skip
  | _ => planInsert view held sql (s.write now)

/-! ## Calls -/

/-- The calls that the code makes to its ports. -/
inductive Op
  | statement (s : Statement)
  | batchGet (batchId : BatchId)
  | commit
  | rollback
  | beginNested
  | rollbackToSavepoint
  | uploadFile (key : ObjectKey) (file : Bytes)
  | streamFile (key : ObjectKey)
  | cacheGet (key : String)
  | cacheSet (key : String) (value : List Row) (ttl : ℕ)
  | cacheDelete (keys : List String)
  | query (metric : Metric)
  | now
  deriving DecidableEq

/-- What a call returns. -/
abbrev Reply : Op → Type
  | .batchGet _ => Option IngestionBatch
  | .streamFile _ => List Bytes
  | .cacheGet _ => Option (List Row)
  | .query _ => List Row
  | .now => ℕ
  | _ => Unit

/-- A call raises `exn`. What it had done to the session or to the store by then stays if it is
`effective`, and the transaction cannot go on without a rollback if it `aborts`. -/
structure Fault where
  exn : Exn
  effective : Bool
  aborts : Bool

/-- What the environment chooses at a call: a fault, the sizes of the chunks in which a file is
read, the text of the statement in an error message, and for a commit how many savepoints it can
close before Python's recursion limit. -/
structure Choice where
  fault : Option Fault
  cuts : List ℕ
  sql : String
  nested : ℕ+

/-- Nothing goes wrong. A level of the recursion takes three frames of the default limit of 1000. -/
def Choice.calm : Choice := ⟨none, [], "", 333⟩

instance : Inhabited Choice := ⟨.calm⟩

/-- A file in chunks of the given sizes, the last chunk being what is left. -/
def cutFile : List ℕ → Bytes → List Bytes
  | _, [] => []
  | [], file => [file]
  | n :: cuts, file => file.take n :: cutFile cuts (file.drop n)

/-- Publish the transaction of `pid`. -/
def World.publish (w : World) (pid : Pid) : World :=
  { w with
    server := w.server.commit Db.apply pid
    history := w.history ++ [.commit pid (w.server.writes pid)] }

/-- The session of `pid` is closed. -/
def World.close (w : World) (pid : Pid) : World :=
  { w with server := w.server.rollback pid, slot := Function.update w.slot pid none }

/-- The session of `pid` opens a savepoint. -/
def World.savepoint (w : World) (pid : Pid) : World :=
  { w with server := w.server.savepoint pid }

/-- Drop keys of the cache. -/
def World.uncache (w : World) (keys : List String) : World :=
  { w with cache := fun key => if key ∈ keys then none else w.cache key }

/-- What `pid`'s call does when the environment does not interfere. `session.commit()` calls itself
for the savepoint around the one that it has closed, so it raises `RecursionError` when too many are
open, and leaves the outer ones. A query is `execute`, `description` and `fetchall` in one step: it is
assumed that no other request uses the shared connection in between. -/
def attempt (w : World) (pid : Pid) (c : Choice) :
    (op : Op) → Option (Except Exn (Reply op) × World)
  | .statement s =>
      if (w.server.sessions pid).failed then some (.error .pendingRollback, w)
      else match s.plan (w.view pid) (w.server.others pid) w.clock c.sql with
        | .write wr => some (.ok (), { w with server := w.server.record pid wr })
        | .skip => some (.ok (), w)
        | .refuse e => some (.error e, { w with server := w.server.fail pid })
        | .wait => none
  | .batchGet batchId =>
      if (w.server.sessions pid).failed then some (.error .pendingRollback, w)
      else some (.ok ((w.view pid).batch batchId), w)
  | .commit =>
      if (w.server.sessions pid).failed then some (.error .pendingRollback, w)
      else if c.nested < (w.server.sessions pid).savepoints.length then
        some (.error .recursion, { w with server := w.server.release pid c.nested })
      else some (.ok (), w.publish pid)
  | .rollback => some (.ok (), { w with server := w.server.rollback pid })
  | .beginNested =>
      if (w.server.sessions pid).failed then some (.error .pendingRollback, w)
      else some (.ok (), { w.savepoint pid with
        slot := Function.update w.slot pid (some (w.server.sessions pid).next) })
  | .rollbackToSavepoint =>
      match w.slot pid with
      | none => some (.ok (), w)
      | some h =>
          match w.server.rollbackTo pid h with
          | none => some (.error .resourceClosed, w)
          | some server =>
              some (.ok (), { w with server := server, slot := Function.update w.slot pid none })
  | .uploadFile key file =>
      some (.ok (), { w with storage := Function.update w.storage key (some file) })
  | .streamFile key =>
      match w.storage key with
      | none => some (.error (.other "object not found"), w)
      | some file => some (.ok (cutFile c.cuts file), w)
  | .cacheGet key => some (.ok (w.cache key), w)
  | .cacheSet key value _ => some (.ok (), { w with cache := Function.update w.cache key (some value) })
  | .cacheDelete keys =>
      some (.ok (), { w.uncache keys with history := w.history ++ [.cacheDelete pid keys] })
  | .query metric => some (.ok (metric.rows w.db), w)
  | .now => some (.ok w.clock, w)

/-- The world after `pid`'s call has raised `f`. A commit that raises an `OperationalError` may have
taken effect, when only its acknowledgement was lost; any other exception comes before that, at the
latest when the savepoints have been released. -/
def disturbed (w : World) (pid : Pid) (c : Choice) (f : Fault) : Op → World
  | .statement s =>
      match s.plan (w.view pid) (w.server.others pid) w.clock c.sql with
      | .write wr =>
          if f.effective ∧ ¬ (w.server.sessions pid).failed then
            { w with server := w.server.record pid wr }
          else w
      | _ => w
  | .commit =>
      if f.effective then
        if f.exn.isOperational ∧ ¬ (w.server.sessions pid).failed then w.publish pid
        else { w with server := w.server.release pid (w.server.sessions pid).savepoints.length }
      else w
  | .rollback => if f.effective then { w with server := w.server.rollback pid } else w
  | .beginNested => if f.effective then w.savepoint pid else w
  | .rollbackToSavepoint =>
      match w.slot pid with
      | none => w
      | some h =>
          match w.server.rollbackTo pid h with
          | none => w
          | some server => if f.effective then { w with server := server } else w
  | .uploadFile key file =>
      if f.effective then { w with storage := Function.update w.storage key (some file) } else w
  | .cacheSet key value _ =>
      if f.effective then { w with cache := Function.update w.cache key (some value) } else w
  | .cacheDelete keys =>
      { (if f.effective then w.uncache keys else w) with
        history := w.history ++ [.cacheDelete pid keys] }
  | _ => w

/-- One call of `pid`; `none` while it has to wait. -/
def exec (pid : Pid) (c : Choice) (w : World) (op : Op) :
    Option (Except Exn (Reply op) × World) :=
  match c.fault with
  | none => attempt w pid c op
  | some f =>
      let w' := disturbed w pid c f op
      some (.error f.exn, if f.aborts then { w' with server := w'.server.fail pid } else w')

/-- The programs of the code. -/
abbrev Prog (α : Type) := Effect.Program Op Reply Exn α

/-- A call; its exception is raised in the program. -/
abbrev call (op : Op) : Prog (Reply op) := Effect.Program.request op

/-- The machine on which the programs of process `pid` run. -/
abbrev machine (pid : Pid) : Effect.Machine Op Reply Exn World := ⟨Choice, exec pid⟩

end HiringService
