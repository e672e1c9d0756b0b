import DeltaTxn.Conc.Channel
import DeltaTxn.Spec.Effects
import DeltaTxn.Spec.Storage

/-!
# The handlers (`grpc/server.rs`)

The three RPCs as programs over the calls of `Spec/Effects`. `commit` is split where its
source branches: `commitLocked` is what runs while the table's lock is held, `commitCreate`
and `commitUpdate` are its two paths. The lock and its guard are dropped when the handler
ends, however it ends; drops are not calls of the handler.
-/

namespace DeltaTxn

open Conc.Prog (mapErr)

def fileBatchSize : ℕ := 1000

def streamChannelCapacity : ℕ := 4

/-- The configuration of `DeltaTxnGrpcServer`. -/
structure DeltaTxnGrpcServer where
  storageOpts : HashMap String
  allowedTablePrefixes : Option (List String)

variable (cr : Crates) (srv : DeltaTxnGrpcServer)

def checkTableUriAllowed (tableUri : String) : Except Status Unit :=
  if isTableUriAllowed tableUri srv.allowedTablePrefixes then .ok ()
  else .error (.permissionDenied ("table_uri '" ++ tableUri ++ "' is not in the configured allowlist"))

/-- The check of the raw string, skipped without an explicit scheme. -/
def checkRawTableUri (tableUri : String) : Except Status Unit :=
  if Str.contains tableUri "://" then checkTableUriAllowed srv tableUri else .ok ()

def normalizeAndCheckTableUri (tableUri : String) : Eff Status Url := do
  checkRawTableUri srv tableUri
  let normalizedTableUri ← mapErr (fun e => .invalidArgument e.text) (perform (.ensureTableUri tableUri))
  -- this check decides: the URL is what everything below is done with
  checkTableUriAllowed srv normalizedTableUri.asStr
  return normalizedTableUri

def buildMetadataAndProtocol (snapshot : DeltaTableState) :
    Except Status (Pb.TableMetadata × Pb.Protocol) := do
  let metadata := snapshot.metadata
  let protocol := snapshot.protocol
  let schema ← (cr.parseSchema metadata.schemaString).mapError fun _ =>
    Status.internal "internal error parsing table schema"
  let schemaString ← (cr.schemaToString schema).mapError fun _ =>
    Status.internal "internal error serializing table schema"
  return (
    { id := metadata.id
      name := metadata.name.getD ""
      description := metadata.description.getD ""
      schemaString
      partitionColumns := metadata.partitionColumns
      configuration := metadata.configuration
      createdTime := metadata.createdTime.getD 0 },
    { minReaderVersion := protocol.minReaderVersion
      minWriterVersion := protocol.minWriterVersion })

/-! ## Commit -/

/-- The path of `commit` that creates the table. -/
def commitCreate (r : Pb.CommitRequest) (url : Url) (actions : List Kernel.Action) :
    Eff Status Pb.CommitResponse := do
  if r.expectedVersion.isSome then
    throw (.failedPrecondition
      "expected_version was set but table_uri does not exist yet -- omit expected_version on the Commit that creates a new table")
  else
    match findProtocol actions, findMetadata actions with
    | some protocol, some metadata =>
      let version ← mapErr DeltaTxnError.toStatus
        (createTable url srv.storageOpts actions protocol metadata)
      return ⟨version⟩
    | _, _ =>
      throw (.failedPrecondition
        "table_uri does not exist yet -- the Commit that creates a new table must include both a Protocol and a TableMetadata action")

/-- The `expected_version` check of `commit`. -/
def checkExpectedVersion (r : Pb.CommitRequest) (table : DeltaTable) : Except Status Unit :=
  match r.expectedVersion with
  | none => .ok ()
  | some expected =>
    match table.version with
    | none => .error (.failedPrecondition "table not initialized")
    | some version =>
      let current := version.toInt64
      if current ≠ expected then .error (DeltaTxnError.versionConflict expected current).toStatus
      else .ok ()

/-- The path of `commit` that appends to an existing table. -/
def commitUpdate (r : Pb.CommitRequest) (url : Url) (actions : List Kernel.Action) :
    Eff Status Pb.CommitResponse := do
  let table ← mapErr DeltaTxnError.toStatus (openTable url srv.storageOpts)
  checkExpectedVersion r table
  let version ← mapErr DeltaTxnError.toStatus (commitActions table actions)
  return ⟨version⟩

/-- What `commit` does while it holds the table's lock. -/
def commitLocked (r : Pb.CommitRequest) (url : Url) (actions : List Kernel.Action) :
    Eff Status Pb.CommitResponse := do
  if ← mapErr DeltaTxnError.toStatus (tableExists url srv.storageOpts) then
    commitUpdate srv r url actions
  else
    commitCreate srv r url actions

def commit (r : Pb.CommitRequest) : Eff Status Pb.CommitResponse := do
  let url ← normalizeAndCheckTableUri srv r.tableUri
  let actions ← (mapActions cr r.actions).mapError Status.invalidArgument
  let lock ← perform (.lockFor url.asStr)
  perform (.lock lock)
  -- the guard is held to the end of the handler
  commitLocked srv r url actions

/-! ## GetTable -/

/-- The status of a table_uri that holds no table. -/
def doesNotExist (url : Url) : Status := .notFound ("table_uri '" ++ url.asStr ++ "' does not exist")

/-- The steps GetTable and ListActiveFiles share: exists, open, snapshot, metadata. -/
def readTable (url : Url) :
    Eff Status (DeltaTableState × Pb.TableMetadata × Pb.Protocol) := do
  if !(← mapErr DeltaTxnError.toStatus (tableExists url srv.storageOpts)) then
    throw (doesNotExist url)
  else
    let table ← mapErr DeltaTxnError.toStatus (openTable url srv.storageOpts)
    let snapshot ← table.snapshot.mapError mapOpenOrSnapshotError
    let (metadata, protocol) ← buildMetadataAndProtocol cr snapshot
    return (snapshot, metadata, protocol)

def getTable (r : Pb.GetTableRequest) : Eff Status Pb.GetTableResponse := do
  let url ← normalizeAndCheckTableUri srv r.tableUri
  let (snapshot, metadata, protocol) ← readTable cr srv url
  return { version := snapshot.version.toInt64, metadata := some metadata, protocol := some protocol }

/-! ## ListActiveFiles -/

/-- The partition values of a file view, as `stream_active_files_inner` collects them. -/
def partitionValuesOf (v : LogicalFileView) : HashMap (Option String) :=
  match v.partitionValues with
  | none => ∅
  | some (fields, values) =>
    Std.ExtTreeMap.ofList ((fields.zip values).map fun
      | (field, .null) => (field, none)
      | (field, .value s) => (field, some s)) compare

/-- The wire form of a file view. -/
def fileViewToPb (v : LogicalFileView) : Pb.AddFile :=
  mapActiveFileToPb cr v.path v.size v.modificationTime (partitionValuesOf v) v.stats

/-- The header message. -/
def headerMessage (snapshot : DeltaTableState) (metadata : Pb.TableMetadata) (protocol : Pb.Protocol) :
    Pb.ListActiveFilesResponse :=
  ⟨some (.header ⟨snapshot.version.toInt64, some metadata, some protocol⟩)⟩

/-- A batch message. -/
def batchMessage (files : List Pb.AddFile) : Pb.ListActiveFilesResponse := ⟨some (.batch ⟨files⟩)⟩

/-- The loop of `stream_active_files_inner` over the file stream, and the batch left at its end. -/
def streamFiles : List (Except DeltaTableError LogicalFileView) → List Pb.AddFile → Eff Status Unit
  | [], batch => do
    if !batch.isEmpty then
      -- nothing follows, so it does not matter whether this send fails
      let _ ← perform (.send (.ok (batchMessage batch)))
  -- the files of a batch begun are not sent
  | .error _ :: _, _ => throw (.internal "internal error streaming active files")
  | .ok view :: rest, batch => do
    let batch := batch ++ [fileViewToPb cr view]
    if batch.length ≥ fileBatchSize then
      match ← perform (.send (.ok (batchMessage batch))) with
      -- the client is gone: nothing left to report
      | .error _ => return ()
      | .ok _ => streamFiles rest []
    else
      streamFiles rest batch

def streamActiveFilesInner (url : Url) : Eff Status Unit := do
  let (snapshot, metadata, protocol) ← readTable cr srv url
  match ← perform (.send (.ok (headerMessage snapshot metadata protocol))) with
  | .error _ => return ()
  | .ok _ => streamFiles cr snapshot.fileViews []

/-- `stream_active_files`, the spawned task. -/
def streamActiveFiles (url : Url) : Conc.Prog Op Ans Unit := do
  match ← (streamActiveFilesInner cr srv url).run with
  | .error status =>
    let _ ← perform (.send (.error status))
  | .ok _ => return ()

/-- The channel `list_active_files` makes for the task's items. -/
def streamChannel : Conc.Channel Op Ans StreamItem where
  capacity := streamChannelCapacity
  capacity_pos := by decide
  send
    | .send item => some ⟨item, .ok (), .error ()⟩
    | _ => none

/-- `list_active_files`: on success, the task it has spawned. -/
def listActiveFiles (r : Pb.ListActiveFilesRequest) : Eff Status (Conc.Prog Op Ans Unit) := do
  let url ← normalizeAndCheckTableUri srv r.tableUri
  return streamActiveFiles cr srv url

end DeltaTxn
