import DeltaTxn.Conc.Prog
import DeltaTxn.Spec.Mapping
import DeltaTxn.Spec.Operation

/-!
# What the handlers ask of the outside

Every call by which a handler touches the world: delta-rs calls on storage, the lock table,
and the channel of a streaming response. What a call answers is left to the setting a handler
runs in.
-/

namespace DeltaTxn

/-- A partition value, `Scalar`: null, or what `serialize` gives. -/
inductive Scalar
  | null
  | value (serialized : String)

/-- One active file of a snapshot, `LogicalFileView`. -/
structure LogicalFileView where
  path : String
  size : Int64
  modificationTime : Int64
  /-- The `StructData` of the partition values: its fields and its values. -/
  partitionValues : Option (List String × List Scalar)
  stats : Option String

/-- A loaded snapshot, `DeltaTableState`, with what its file stream will yield. -/
structure DeltaTableState where
  version : Version
  metadata : Kernel.Metadata
  protocol : Kernel.Protocol
  fileViews : List (Except DeltaTableError LogicalFileView)

/-- An opened table, `DeltaTable`: its location, and what `snapshot()` answers. -/
structure DeltaTable where
  url : Url
  snapshot : Except DeltaTableError DeltaTableState

def DeltaTable.version (t : DeltaTable) : Option Version :=
  match t.snapshot with
  | .ok s => some s.version
  | .error _ => none

/-- An item of a ListActiveFiles stream. -/
abbrev StreamItem : Type := Except Status Pb.ListActiveFilesResponse

/-- **The calls of a handler.** -/
inductive Op
  /-- `ensure_table_uri`. -/
  | ensureTableUri (tableUri : String)
  /-- `TableLockManager::lock_for`, answered by the new `TableLock`. -/
  | lockFor (tableUri : String)
  /-- `TableLock::lock`. -/
  | lock (handle : ℕ)
  /-- `DeltaTableBuilder::from_url`, `with_storage_options`, `build`. -/
  | buildTable (url : Url) (storageOptions : HashMap String)
  /-- `LogStore::is_delta_table_location`. -/
  | isDeltaTableLocation (url : Url)
  /-- `open_table_with_storage_options`, answered by what `snapshot()` of the table answers. -/
  | openTable (url : Url) (storageOptions : HashMap String)
  /-- `CommitBuilder::build`, from the snapshot at `base`, or without one. -/
  | commitBuilder (url : Url) (base : Option Version) (actions : List Kernel.Action)
      (operation : DeltaOperation)
  /-- `Sender::send` on the channel of a stream; it fails once the receiver is gone. -/
  | send (item : StreamItem)

/-- What each call answers. -/
abbrev Ans : Op → Type
  | .ensureTableUri _ => Except DeltaTableError Url
  | .lockFor _ => ℕ
  | .lock _ => Unit
  | .buildTable _ _ => Except DeltaTableError Unit
  | .isDeltaTableLocation _ => Except DeltaTableError Bool
  | .openTable _ _ => Except DeltaTableError (Except DeltaTableError DeltaTableState)
  | .commitBuilder _ _ _ _ => Except DeltaTableError Version
  | .send _ => Except Unit Unit

/-- A computation of the service that may fail with an error of type `ε`. -/
abbrev Eff (ε : Type) : Type → Type := Conc.Fallible Op Ans ε

/-- One call of a handler, with its answer. -/
abbrev Call : Type := Conc.Call Op Ans

/-- Make the call `o`. -/
abbrev perform (o : Op) : Conc.Prog Op Ans (Ans o) := Conc.Prog.call o

open Conc.Prog (mapErr)

/-- `OpenFailed(e.to_string())`. -/
def openFailed (e : DeltaTableError) : DeltaTxnError := .openFailed e.text

/-- `CommitFailed(e.to_string())`. -/
def commitFailed (e : DeltaTableError) : DeltaTxnError := .commitFailed e.text

/-! ## `delta/table.rs` -/

def openTable (tableUrl : Url) (storageOptions : HashMap String) : Eff DeltaTxnError DeltaTable := do
  let snapshot ← mapErr openFailed (perform (.openTable tableUrl storageOptions))
  return ⟨tableUrl, snapshot⟩

def tableExists (tableUrl : Url) (storageOptions : HashMap String) : Eff DeltaTxnError Bool := do
  mapErr openFailed (perform (.buildTable tableUrl storageOptions))
  mapErr openFailed (perform (.isDeltaTableLocation tableUrl))

/-! ## `delta/commit.rs`, the calls -/

def commitActions (table : DeltaTable) (actions : List Kernel.Action) : Eff DeltaTxnError Int64 := do
  let tableState ← table.snapshot.mapError commitFailed
  let operation := buildOperation actions
  let result ← mapErr commitFailed
    (perform (.commitBuilder table.url (some tableState.version) actions operation))
  return result.toInt64

def createTable (tableUrl : Url) (storageOptions : HashMap String) (actions : List Kernel.Action)
    (protocol : Kernel.Protocol) (metadata : Kernel.Metadata) : Eff DeltaTxnError Int64 := do
  mapErr openFailed (perform (.buildTable tableUrl storageOptions))
  let operation := DeltaOperation.create .errorIfExists tableUrl protocol metadata
  let result ← mapErr commitFailed
    (perform (.commitBuilder tableUrl none actions operation))
  let version := result.toInt64
  -- the write has landed by now, whatever the answer
  if version ≠ 0 then
    throw (.versionConflict 0 version)
  else
    return version

end DeltaTxn
