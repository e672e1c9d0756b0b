import DeltaTxn.Spec.World

/-!
# A deployment

Requests of all three RPCs at once, any number of each, handled by any number of replicas. They
run in the world of `Spec/World` and their calls are answered as there, also by errors that come after
the write. In addition an opened table is assumed to show what its log says. delta-rs replays a log
from its latest version back to the first, each version in the order of its actions, and what comes
first in this order wins: the snapshot at a version has the first Protocol and the first Metadata, and
its file stream yields the files whose first action adds them, in some order, unless it breaks off with
an error.
-/

namespace DeltaTxn

variable {ρ ι : Type}

/-! ## What a log says -/

/-- What tells two deletion vectors of one table apart. -/
def Kernel.DeletionVectorDescriptor.uniqueId (d : Kernel.DeletionVectorDescriptor) :
    String × String × Option Int32 :=
  (d.storageType, d.pathOrInlineDv, d.offset)

/-- The logical file that an action is about. -/
def Kernel.Action.file : Kernel.Action → Option (String × Option (String × String × Option Int32))
  | .add a => some (a.path, a.deletionVector.map (·.uniqueId))
  | .remove r => some (r.path, r.deletionVector.map (·.uniqueId))
  | .protocol _ | .metadata _ | .commitInfo _ => none

/-- In the replay of `actions` the file of `a` is active as `a` has it: no action before this one is
about that file. -/
def ActiveIn (actions : List Kernel.Action) (a : Kernel.Add) : Prop :=
  ∃ before after, actions = before ++ .add a :: after ∧
    ∀ x ∈ before, x.file ≠ (Kernel.Action.add a).file

/-- The actions up to version `v` as they are replayed: the latest version first, each version in the
order of its actions. -/
def Log.replay (log : Log ι) (v : Version) : List Kernel.Action :=
  (List.range (v.toNat + 1)).reverse.flatMap fun n =>
    ((log (UInt64.ofNat n)).map LogEntry.actions).getD []

/-- A stream yields all of `items`, or breaks off with an error. -/
def Yields {α : Type} (stream : List (Except DeltaTableError α)) (items : List α) : Prop :=
  stream = items.map .ok ∨
    ∃ before e rest, before <+: items ∧ stream = before.map .ok ++ .error e :: rest

/-- **The snapshot `s` shows `actions`**, a replay, where `view` is how the snapshot of a table with
given metadata presents an active file. -/
structure Shows (view : Kernel.Metadata → Kernel.Add → LogicalFileView) (actions : List Kernel.Action)
    (s : DeltaTableState) : Prop where
  protocol : findProtocol actions = some s.protocol
  metadata : findMetadata actions = some s.metadata
  files : ∃ adds : List Kernel.Add, (adds.map fun a => (Kernel.Action.add a).file).Nodup ∧
    (∀ a, a ∈ adds ↔ ActiveIn actions a) ∧ Yields s.fileViews (adds.map (view s.metadata))

/-- No table has a gap below one of its versions. -/
def LogsContiguous (log : Url → Version → Option (List Kernel.Action)) : Prop :=
  ∀ url m n, m ≤ n → (log url n).isSome = true → (log url m).isSome = true

/-! ## The requests -/

/-- A request of one of the three RPCs. -/
inductive Rpc
  | commit (r : Pb.CommitRequest)
  | getTable (r : Pb.GetTableRequest)
  | listActiveFiles (r : Pb.ListActiveFilesRequest)

def Rpc.tableUri : Rpc → String
  | commit r => r.tableUri
  | getTable r => r.tableUri
  | listActiveFiles r => r.tableUri

/-- The actions that a request means to write. -/
def Rpc.actions : Rpc → List Pb.Action
  | commit r => r.actions
  | getTable _ | listActiveFiles _ => []

/-- How a request has ended. A ListActiveFiles has ended when the task that it spawned has. -/
inductive Reply
  | commit (a : Except Status Pb.CommitResponse)
  | getTable (a : Except Status Pb.GetTableResponse)
  | listActiveFiles (a : Except Status Unit)

/-- What a request runs: its handler, and for ListActiveFiles the task that the handler spawns. -/
def Rpc.program (cr : Crates) (srv : DeltaTxnGrpcServer) : Rpc → Conc.Prog Op Ans Reply
  | commit r => .commit <$> (DeltaTxn.commit cr srv r).run
  | getTable r => .getTable <$> (DeltaTxn.getTable cr srv r).run
  | listActiveFiles r =>
    .listActiveFiles <$> (do
      let task ← DeltaTxn.listActiveFiles cr srv r
      liftM task : Eff Status Unit).run

/-- **A deployment**: as `Setting`, with requests of all three RPCs, and how snapshots present
active files. -/
structure Deployment (ρ ι : Type) where
  cr : Crates
  srv : ρ → DeltaTxnGrpcServer
  home : ι → ρ
  resolve : ι → String → Except DeltaTableError Url
  rpc : ι → Rpc
  view : Kernel.Metadata → Kernel.Add → LogicalFileView

namespace Deployment

variable [DecidableEq ρ] (D : Deployment ρ ι)

/-- The setting of the calls. How a call is answered does not depend on the message of a Commit. -/
def setting : Setting ρ ι where
  cr := D.cr
  srv := D.srv
  home := D.home
  resolve := D.resolve
  req i := ⟨(D.rpc i).tableUri, none, (D.rpc i).actions⟩
  lateErrors := true

/-- An opened table shows what its log says. -/
def Faithful (w : World ρ ι) : (o : Op) → Ans o → Prop
  | .openTable url _, .ok (.ok s) => Shows D.view ((w.log url).replay s.version) s
  | _, _ => True

/-- The deployment as a machine. -/
def machine : Conc.Machine ι Op Ans (World ρ ι) where
  exec i o b w w' := D.setting.Exec i o b w w' ∧ D.Faithful w o b
  drop := D.setting.Drop

/-- What request `i` runs. -/
def program (i : ι) : Conc.Prog Op Ans Reply := (D.rpc i).program D.cr (D.srv (D.home i))

/-- A state of the requests and the world. -/
abbrev State (_ : Deployment ρ ι) : Type := Conc.Config ι Op Ans Reply (World ρ ι)

/-- Before any step. -/
def init (log : Url → Version → Option (List Kernel.Action)) : D.State :=
  Conc.Config.init D.program (World.start log)

/-- **Reachable**: by any interleaving of the requests' steps, ends, cancellations and drops. -/
def Reachable [DecidableEq ι] (log : Url → Version → Option (List Kernel.Action)) (c : D.State) :
    Prop :=
  Conc.Config.Reach D.machine (D.init log) c

end Deployment

end DeltaTxn
