import AsyncSqlite.Sqlite.Submission

/-!
# AsyncSqlite.Sqlite.Api — the functions of the `async` namespace

Every function of `SQLite/async_sqlite3.cpp` passes its arguments on to one
function of the SQLite library: through the blocking helper `AsyncInvoke`,
through the future helper `AsyncInvokeFuture`, or by calling it on the spot.
`wrapper` says which, and which of the arguments are handles.

`apiLts` is the interface of `Sqlite.Model` with this table: a program calls
functions by name, every call of a helper knows the library function that it
passes on, and a library call that a wrapper makes on the spot is in progress
on the thread of its caller until it returns.

Reading guide:

* The wrappers under `SQLITE_ENABLE_COLUMN_METADATA` and
  `SQLITE_ENABLE_UNLOCK_NOTIFY` are always there.
* A direct library call takes no callback, so its thread takes no other step
  before it returns. A function that was passed to a helper may call back into
  the program; `Sys` has that already.
* `CreateThread` stays a step of its own (`sqlite3_init_async` calls it behind
  its library call, which takes no handle), on whichever thread.
-/

namespace AsyncSqlite

universe u

/-! ## The wrappers -/

/-- The functions of the namespace, in the order of the source. -/
inductive Api where
  | sqlite3GetThread | sqlite3InitAsync | sqlite3TraceV2 | sqlite3ProgressHandler | sqlite3Open
  | sqlite3Open16 | sqlite3OpenV2 | sqlite3Close | sqlite3CloseV2 | sqlite3Initialize
  | sqlite3Shutdown | sqlite3ExtendedResultCodes | sqlite3LastInsertRowid
  | sqlite3SetLastInsertRowid | sqlite3Changes | sqlite3Changes64 | sqlite3TotalChanges
  | sqlite3TotalChanges64 | sqlite3Interrupt | sqlite3IsInterrupted | sqlite3Complete
  | sqlite3Complete16 | sqlite3Prepare | sqlite3PrepareV2 | sqlite3PrepareV3 | sqlite3Prepare16
  | sqlite3Prepare16V2 | sqlite3Prepare16V3 | sqlite3Sql | sqlite3ExpandedSql | sqlite3StmtReadonly
  | sqlite3StmtIsexplain | sqlite3StmtExplain | sqlite3StmtBusy | sqlite3Finalize | sqlite3Reset
  | sqlite3Step | sqlite3DataCount | sqlite3ColumnCount | sqlite3ColumnName | sqlite3ColumnName16
  | sqlite3Exec | sqlite3ExecBegin | sqlite3ExecCommit | sqlite3ExecRollback | sqlite3DbStatus
  | sqlite3ColumnBlob | sqlite3ColumnDouble | sqlite3ColumnInt | sqlite3ColumnInt64
  | sqlite3ColumnText | sqlite3ColumnText16 | sqlite3ColumnValue | sqlite3ColumnBytes
  | sqlite3ColumnBytes16 | sqlite3ColumnType | sqlite3Malloc | sqlite3Malloc64 | sqlite3Realloc
  | sqlite3Realloc64 | sqlite3Free | sqlite3Msize | sqlite3UriParameter | sqlite3UriBoolean
  | sqlite3UriInt64 | sqlite3UriKey | sqlite3FilenameDatabase | sqlite3FilenameJournal
  | sqlite3FilenameWal | sqlite3DatabaseFileObject | sqlite3CreateFilename | sqlite3FreeFilename
  | sqlite3Errcode | sqlite3ExtendedErrcode | sqlite3Errmsg | sqlite3Errmsg16 | sqlite3Errstr
  | sqlite3ErrorOffset | sqlite3Limit | sqlite3MemoryUsed | sqlite3MemoryHighwater
  | sqlite3Randomness | sqlite3SetAuthorizer | sqlite3GetTable | sqlite3FreeTable
  | sqlite3BusyTimeout | sqlite3BusyHandler | sqlite3BindBlob | sqlite3BindBlob64
  | sqlite3BindDouble | sqlite3BindInt | sqlite3BindInt64 | sqlite3BindNull | sqlite3BindText
  | sqlite3BindText16 | sqlite3BindText64 | sqlite3BindValue | sqlite3BindPointer
  | sqlite3BindZeroblob | sqlite3BindZeroblob64 | sqlite3BindParameterCount
  | sqlite3BindParameterName | sqlite3BindParameterIndex | sqlite3ClearBindings
  | sqlite3ColumnDatabaseName | sqlite3ColumnDatabaseName16 | sqlite3ColumnTableName
  | sqlite3ColumnTableName16 | sqlite3ColumnOriginName | sqlite3ColumnOriginName16
  | sqlite3ColumnDecltype | sqlite3ColumnDecltype16 | sqlite3ResultBlob | sqlite3ResultBlob64
  | sqlite3ResultDouble | sqlite3ResultError | sqlite3ResultError16 | sqlite3ResultErrorToobig
  | sqlite3ResultErrorNomem | sqlite3ResultErrorCode | sqlite3ResultInt | sqlite3ResultInt64
  | sqlite3ResultNull | sqlite3ResultText | sqlite3ResultText64 | sqlite3ResultText16
  | sqlite3ResultText16le | sqlite3ResultText16be | sqlite3ResultValue | sqlite3ResultPointer
  | sqlite3ResultZeroblob | sqlite3ResultZeroblob64 | sqlite3ResultSubtype | sqlite3CreateCollation
  | sqlite3CreateCollationV2 | sqlite3CreateCollation16 | sqlite3CollationNeeded
  | sqlite3CollationNeeded16 | sqlite3Sleep | sqlite3DbHandle | sqlite3DbName | sqlite3DbFilename
  | sqlite3DbReadonly | sqlite3NextStmt | sqlite3ReleaseMemory | sqlite3DbReleaseMemory
  | sqlite3TableColumnMetadata | sqlite3LoadExtension | sqlite3EnableLoadExtension | sqlite3StrNew
  | sqlite3StrFinish | sqlite3StrAppend | sqlite3StrAppendall | sqlite3StrAppendchar
  | sqlite3StrReset | sqlite3StrErrcode | sqlite3StrLength | sqlite3StrValue | sqlite3Status
  | sqlite3Status64 | sqlite3StmtStatus | sqlite3BackupInit | sqlite3BackupStep
  | sqlite3BackupFinish | sqlite3BackupRemaining | sqlite3BackupPagecount | sqlite3UnlockNotify
  | sqlite3Stricmp | sqlite3Strnicmp | sqlite3Strglob | sqlite3Strlike | sqlite3WalAutocheckpoint
  | sqlite3WalCheckpoint | sqlite3WalCheckpointV2 | sqlite3DbCacheflush | sqlite3SystemErrno
  | sqlite3Serialize | sqlite3Deserialize | sqlite3ExecFuture | sqlite3StepFuture
  | sqlite3FinalizeFuture | sqlite3ExecCommitFuture | sqlite3ExecRollbackFuture
  | sqlite3BackupStepFuture | sqlite3SerializeFuture | sqlite3DeserializeFuture
deriving DecidableEq

/-- A `sqlite3*` or a `sqlite3_stmt*`. -/
inductive Handle where
  | connection | statement
deriving DecidableEq, Repr

/-- How a wrapper reaches the library. -/
inductive Route where
  | direct | asyncInvoke | asyncInvokeFuture
deriving DecidableEq, Repr

/-- A wrapper: its route, and the handles among the arguments that it passes on
to the library. -/
structure Wrapper where
  route : Route
  handles : List Handle
deriving DecidableEq, Repr

namespace Wrapper

def blocking (handles : List Handle) : Wrapper := ⟨.asyncInvoke, handles⟩

def future (handles : List Handle) : Wrapper := ⟨.asyncInvokeFuture, handles⟩

def direct (handles : List Handle) : Wrapper := ⟨.direct, handles⟩

end Wrapper

open Wrapper in
/-- The body of every function of the namespace. -/
def wrapper : Api → Wrapper
  | .sqlite3GetThread => direct []
  | .sqlite3InitAsync => direct []
  | .sqlite3TraceV2 => blocking [.connection]
  | .sqlite3ProgressHandler => blocking [.connection]
  | .sqlite3Open => blocking []
  | .sqlite3Open16 => blocking []
  | .sqlite3OpenV2 => blocking []
  | .sqlite3Close => blocking [.connection]
  | .sqlite3CloseV2 => blocking [.connection]
  | .sqlite3Initialize => direct []
  | .sqlite3Shutdown => blocking []
  | .sqlite3ExtendedResultCodes => blocking [.connection]
  | .sqlite3LastInsertRowid => blocking [.connection]
  | .sqlite3SetLastInsertRowid => blocking [.connection]
  | .sqlite3Changes => blocking [.connection]
  | .sqlite3Changes64 => blocking [.connection]
  | .sqlite3TotalChanges => blocking [.connection]
  | .sqlite3TotalChanges64 => blocking [.connection]
  | .sqlite3Interrupt => direct [.connection]
  | .sqlite3IsInterrupted => direct [.connection]
  | .sqlite3Complete => blocking []
  | .sqlite3Complete16 => blocking []
  | .sqlite3Prepare => blocking [.connection]
  | .sqlite3PrepareV2 => blocking [.connection]
  | .sqlite3PrepareV3 => blocking [.connection]
  | .sqlite3Prepare16 => blocking [.connection]
  | .sqlite3Prepare16V2 => blocking [.connection]
  | .sqlite3Prepare16V3 => blocking [.connection]
  | .sqlite3Sql => blocking [.statement]
  | .sqlite3ExpandedSql => blocking [.statement]
  | .sqlite3StmtReadonly => direct [.statement]
  | .sqlite3StmtIsexplain => direct [.statement]
  | .sqlite3StmtExplain => blocking [.statement]
  | .sqlite3StmtBusy => direct [.statement]
  | .sqlite3Finalize => blocking [.statement]
  | .sqlite3Reset => blocking [.statement]
  | .sqlite3Step => blocking [.statement]
  | .sqlite3DataCount => blocking [.statement]
  | .sqlite3ColumnCount => blocking [.statement]
  | .sqlite3ColumnName => blocking [.statement]
  | .sqlite3ColumnName16 => blocking [.statement]
  | .sqlite3Exec => blocking [.connection]
  | .sqlite3ExecBegin => blocking [.connection]
  | .sqlite3ExecCommit => blocking [.connection]
  | .sqlite3ExecRollback => blocking [.connection]
  | .sqlite3DbStatus => blocking [.connection]
  | .sqlite3ColumnBlob => blocking [.statement]
  | .sqlite3ColumnDouble => blocking [.statement]
  | .sqlite3ColumnInt => blocking [.statement]
  | .sqlite3ColumnInt64 => blocking [.statement]
  | .sqlite3ColumnText => blocking [.statement]
  | .sqlite3ColumnText16 => blocking [.statement]
  | .sqlite3ColumnValue => blocking [.statement]
  | .sqlite3ColumnBytes => blocking [.statement]
  | .sqlite3ColumnBytes16 => blocking [.statement]
  | .sqlite3ColumnType => blocking [.statement]
  | .sqlite3Malloc => blocking []
  | .sqlite3Malloc64 => blocking []
  | .sqlite3Realloc => blocking []
  | .sqlite3Realloc64 => blocking []
  | .sqlite3Free => blocking []
  | .sqlite3Msize => blocking []
  | .sqlite3UriParameter => blocking []
  | .sqlite3UriBoolean => blocking []
  | .sqlite3UriInt64 => blocking []
  | .sqlite3UriKey => blocking []
  | .sqlite3FilenameDatabase => blocking []
  | .sqlite3FilenameJournal => blocking []
  | .sqlite3FilenameWal => blocking []
  | .sqlite3DatabaseFileObject => blocking []
  | .sqlite3CreateFilename => blocking []
  | .sqlite3FreeFilename => blocking []
  | .sqlite3Errcode => blocking [.connection]
  | .sqlite3ExtendedErrcode => blocking [.connection]
  | .sqlite3Errmsg => blocking [.connection]
  | .sqlite3Errmsg16 => blocking [.connection]
  | .sqlite3Errstr => blocking []
  | .sqlite3ErrorOffset => blocking [.connection]
  | .sqlite3Limit => blocking [.connection]
  | .sqlite3MemoryUsed => blocking []
  | .sqlite3MemoryHighwater => blocking []
  | .sqlite3Randomness => blocking []
  | .sqlite3SetAuthorizer => blocking [.connection]
  | .sqlite3GetTable => blocking [.connection]
  | .sqlite3FreeTable => blocking []
  | .sqlite3BusyTimeout => blocking [.connection]
  | .sqlite3BusyHandler => blocking [.connection]
  | .sqlite3BindBlob => blocking [.statement]
  | .sqlite3BindBlob64 => blocking [.statement]
  | .sqlite3BindDouble => blocking [.statement]
  | .sqlite3BindInt => blocking [.statement]
  | .sqlite3BindInt64 => blocking [.statement]
  | .sqlite3BindNull => blocking [.statement]
  | .sqlite3BindText => blocking [.statement]
  | .sqlite3BindText16 => blocking [.statement]
  | .sqlite3BindText64 => blocking [.statement]
  | .sqlite3BindValue => blocking [.statement]
  | .sqlite3BindPointer => blocking [.statement]
  | .sqlite3BindZeroblob => blocking [.statement]
  | .sqlite3BindZeroblob64 => blocking [.statement]
  | .sqlite3BindParameterCount => blocking [.statement]
  | .sqlite3BindParameterName => blocking [.statement]
  | .sqlite3BindParameterIndex => blocking [.statement]
  | .sqlite3ClearBindings => blocking [.statement]
  | .sqlite3ColumnDatabaseName => blocking [.statement]
  | .sqlite3ColumnDatabaseName16 => blocking [.statement]
  | .sqlite3ColumnTableName => blocking [.statement]
  | .sqlite3ColumnTableName16 => blocking [.statement]
  | .sqlite3ColumnOriginName => blocking [.statement]
  | .sqlite3ColumnOriginName16 => blocking [.statement]
  | .sqlite3ColumnDecltype => blocking [.statement]
  | .sqlite3ColumnDecltype16 => blocking [.statement]
  | .sqlite3ResultBlob => blocking []
  | .sqlite3ResultBlob64 => blocking []
  | .sqlite3ResultDouble => blocking []
  | .sqlite3ResultError => blocking []
  | .sqlite3ResultError16 => blocking []
  | .sqlite3ResultErrorToobig => blocking []
  | .sqlite3ResultErrorNomem => blocking []
  | .sqlite3ResultErrorCode => blocking []
  | .sqlite3ResultInt => blocking []
  | .sqlite3ResultInt64 => blocking []
  | .sqlite3ResultNull => blocking []
  | .sqlite3ResultText => blocking []
  | .sqlite3ResultText64 => blocking []
  | .sqlite3ResultText16 => blocking []
  | .sqlite3ResultText16le => blocking []
  | .sqlite3ResultText16be => blocking []
  | .sqlite3ResultValue => blocking []
  | .sqlite3ResultPointer => blocking []
  | .sqlite3ResultZeroblob => blocking []
  | .sqlite3ResultZeroblob64 => blocking []
  | .sqlite3ResultSubtype => blocking []
  | .sqlite3CreateCollation => blocking [.connection]
  | .sqlite3CreateCollationV2 => blocking [.connection]
  | .sqlite3CreateCollation16 => blocking [.connection]
  | .sqlite3CollationNeeded => blocking [.connection]
  | .sqlite3CollationNeeded16 => blocking [.connection]
  | .sqlite3Sleep => blocking []
  | .sqlite3DbHandle => direct [.statement]
  | .sqlite3DbName => direct [.connection]
  | .sqlite3DbFilename => direct [.connection]
  | .sqlite3DbReadonly => direct [.connection]
  | .sqlite3NextStmt => blocking [.connection, .statement]
  | .sqlite3ReleaseMemory => blocking []
  | .sqlite3DbReleaseMemory => blocking [.connection]
  | .sqlite3TableColumnMetadata => blocking [.connection]
  | .sqlite3LoadExtension => blocking [.connection]
  | .sqlite3EnableLoadExtension => blocking [.connection]
  | .sqlite3StrNew => blocking [.connection]
  | .sqlite3StrFinish => blocking []
  | .sqlite3StrAppend => blocking []
  | .sqlite3StrAppendall => blocking []
  | .sqlite3StrAppendchar => blocking []
  | .sqlite3StrReset => blocking []
  | .sqlite3StrErrcode => blocking []
  | .sqlite3StrLength => blocking []
  | .sqlite3StrValue => blocking []
  | .sqlite3Status => blocking []
  | .sqlite3Status64 => blocking []
  | .sqlite3StmtStatus => blocking [.statement]
  | .sqlite3BackupInit => blocking [.connection, .connection]
  | .sqlite3BackupStep => blocking []
  | .sqlite3BackupFinish => blocking []
  | .sqlite3BackupRemaining => blocking []
  | .sqlite3BackupPagecount => blocking []
  | .sqlite3UnlockNotify => blocking [.connection]
  | .sqlite3Stricmp => blocking []
  | .sqlite3Strnicmp => blocking []
  | .sqlite3Strglob => blocking []
  | .sqlite3Strlike => blocking []
  | .sqlite3WalAutocheckpoint => blocking [.connection]
  | .sqlite3WalCheckpoint => blocking [.connection]
  | .sqlite3WalCheckpointV2 => blocking [.connection]
  | .sqlite3DbCacheflush => blocking [.connection]
  | .sqlite3SystemErrno => blocking [.connection]
  | .sqlite3Serialize => blocking [.connection]
  | .sqlite3Deserialize => blocking [.connection]
  | .sqlite3ExecFuture => future [.connection]
  | .sqlite3StepFuture => future [.statement]
  | .sqlite3FinalizeFuture => future [.statement]
  | .sqlite3ExecCommitFuture => future [.connection]
  | .sqlite3ExecRollbackFuture => future [.connection]
  | .sqlite3BackupStepFuture => future []
  | .sqlite3SerializeFuture => future [.connection]
  | .sqlite3DeserializeFuture => future [.connection]

namespace Api

/-- The library call of the wrapper takes a handle that SQLite leaves to one
thread at a time; `sqlite3_interrupt` may be called from any thread. -/
def UsesHandle (f : Api) : Prop := (wrapper f).handles ≠ [] ∧ f ≠ .sqlite3Interrupt

instance (f : Api) : Decidable f.UsesHandle := inferInstanceAs (Decidable (_ ∧ _))

/-- The wrapper makes such a call on the thread of its caller. -/
def Bypasses (f : Api) : Prop := (wrapper f).route = .direct ∧ f.UsesHandle

instance (f : Api) : Decidable f.Bypasses := inferInstanceAs (Decidable (_ ∧ _))

/-- The wrappers that reach a handle past the worker. -/
theorem bypasses_iff (f : Api) :
    f.Bypasses ↔ f ∈ [.sqlite3IsInterrupted, .sqlite3StmtReadonly, .sqlite3StmtIsexplain,
      .sqlite3StmtBusy, .sqlite3DbHandle, .sqlite3DbName, .sqlite3DbFilename,
      .sqlite3DbReadonly] := by
  cases f <;> decide

end Api

/-! ## Who makes a step -/

/-- The thread that makes a step of `Thread`; `CreateThread` is nobody's own. -/
def ThreadLabel.actor {V : Type u} (s : Sys V) : ThreadLabel → Option Tid
  | .createThread | .createClear | .createSpawn | .createStart _ => none
  | .exitThread t | .exitPush t | .exitJoin t | .exitReset t => some t
  | .dispatchDelegate m | .dispatchHasValue m | .dispatchLocked m | .dispatchWake m
  | .dispatchTimeout m => some (s.calls m.id).caller
  | .processStart w | .processLoop w | .processTake w | .processWake w | .processSwitch w _
  | .invokeReturn w _ | .invokeThrow w _ => some (.worker w)

/-- The thread that makes a step of the interface. -/
def SysLabel.actor {V : Type u} (s : Sys V) : SysLabel V → Option Tid
  | .thread k => k.actor s
  | .asyncInvoke t _ | .asyncInvokeFuture t | .get t _ | .gotten t _ => some t
  | .blockExecute c _ => some (.client c)
  | .wait i _ | .future i _ | .inPlaceReturn i _ | .inPlaceThrow i => some (s.calls i).caller
  | .invoke w _ _ | .task w _ _ => some (.worker w)

/-- The steps that issue a call of one of the helpers. -/
def SysLabel.isHelper {V : Type u} : SysLabel V → Bool
  | .asyncInvoke _ _ | .asyncInvokeFuture _ => true
  | _ => false

/-! ## The transition system -/

/-- The interface with the functions that its calls were made for. -/
structure ApiSys (V : Type u) where
  sys : Sys V
  /-- the wrapper that issued call `i`; `none` for a block execute -/
  fn : ℕ → Option Api
  /-- the library call that thread `t` is in, past the helpers -/
  direct : Tid → Option Api

inductive ApiLabel (V : Type u) where
  /-- a step of the interface that calls no helper -/
  | sys (l : SysLabel V)
  /-- the program of `t` calls `f`; `forever` is a timeout of `MAX_WAIT` -/
  | call (t : Tid) (f : Api) (forever : Bool)
  | directReturn (t : Tid)
deriving DecidableEq

namespace ApiSys

variable {V : Type u}

def initial : ApiSys V := ⟨Sys.initial, fun _ => none, fun _ => none⟩

/-- The body of wrapper `f` on thread `t`, up to the dispatch or into the
library. -/
def call (s : ApiSys V) (t : Tid) (f : Api) (forever : Bool) : ApiSys V :=
  match (wrapper f).route with
  | .direct => { s with direct := Function.update s.direct t (some f) }
  | .asyncInvoke =>
    { s with
      sys := s.sys.asyncInvoke t forever
      fn := Function.update s.fn s.sys.ncalls (some f) }
  | .asyncInvokeFuture =>
    { s with
      sys := s.sys.asyncInvokeFuture t
      fn := Function.update s.fn s.sys.ncalls (some f) }

/-- A thread inside a direct library call makes no step but its return. -/
def guard : ApiLabel V → ApiSys V → Prop
  | .sys l, s =>
    Sys.guard l s.sys ∧ l.isHelper = false ∧ ∀ t, l.actor s.sys = some t → s.direct t = none
  | .call t _ _, s => s.sys.mayAct t ∧ s.direct t = none
  | .directReturn t, s => (s.direct t).isSome = true

def update : ApiLabel V → ApiSys V → ApiSys V
  | .sys l, s => { s with sys := Sys.update l s.sys }
  | .call t f forever, s => s.call t f forever
  | .directReturn t, s => { s with direct := Function.update s.direct t none }

instance (s : ApiSys V) (o : Option Tid) : Decidable (∀ t, o = some t → s.direct t = none) :=
  match o with
  | none => isTrue (by simp)
  | some t => decidable_of_iff (s.direct t = none) (by simp)

instance [DecidableEq V] (l : ApiLabel V) (s : ApiSys V) : Decidable (guard l s) := by
  cases l <;> simp only [guard] <;> infer_instance

/-- Thread `t` is inside the library call of wrapper `f`. -/
inductive Executing (s : ApiSys V) : Tid → Api → Prop
  /-- the target of a message -/
  | target (w i : ℕ) (f : Api) : s.fn i = some f →
      (s.sys.thread.worker w).pc = .invoking (message i) →
      (s.sys.state i).targetRunning = true → Executing s (.worker w) f
  /-- a function that the blocking helper runs in place -/
  | inPlace (i : ℕ) (f : Api) : s.fn i = some f → s.sys.state i = .inPlace .running →
      Executing s (s.sys.calls i).caller f
  | direct (t : Tid) (f : Api) : s.direct t = some f → Executing s t f

end ApiSys

/-- The `async` namespace with all its callers. -/
def apiLts (V : Type u) : Lts (ApiSys V) (ApiLabel V) where
  init := fun s => s = ApiSys.initial
  guard := ApiSys.guard
  update := ApiSys.update

instance {V : Type u} [DecidableEq V] (l : ApiLabel V) (s : ApiSys V) :
    Decidable ((apiLts V).guard l s) :=
  inferInstanceAs (Decidable (ApiSys.guard l s))

namespace ApiSys

variable {V : Type u}

/-- Behind a step of the namespace the interface has made a step, or none. -/
theorem sys_step {l : ApiLabel V} {s : ApiSys V} (hg : guard l s) :
    (update l s).sys = s.sys ∨
      ∃ k, Sys.guard k s.sys ∧ (update l s).sys = Sys.update k s.sys ∧
        (l = .sys k ∨ k.isHelper = true) ∧ ∀ t, k.actor s.sys = some t → s.direct t = none := by
  cases l with
  | sys k => exact Or.inr ⟨k, hg.1, rfl, Or.inl rfl, hg.2.2⟩
  | call t f forever =>
    have hfree : ∀ u, some t = some u → s.direct u = none := by
      rintro u heq
      cases heq
      exact hg.2
    show (s.call t f forever).sys = s.sys ∨ ∃ k, _ ∧ (s.call t f forever).sys = _ ∧ _
    unfold call
    cases (wrapper f).route with
    | direct => exact Or.inl rfl
    | asyncInvoke => exact Or.inr ⟨.asyncInvoke t forever, hg.1, rfl, Or.inr rfl, hfree⟩
    | asyncInvokeFuture => exact Or.inr ⟨.asyncInvokeFuture t, hg.1, rfl, Or.inr rfl, hfree⟩
  | directReturn t => exact Or.inl rfl

end ApiSys

end AsyncSqlite
