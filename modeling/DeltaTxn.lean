import DeltaTxn.Data.Bytes
import DeltaTxn.Data.HashMap
import DeltaTxn.Data.Related
import DeltaTxn.Data.Str
import DeltaTxn.Data.Traverse
import DeltaTxn.Conc.Prog
import DeltaTxn.Conc.Machine
import DeltaTxn.Conc.Channel
import DeltaTxn.Conc.Steps
import DeltaTxn.Conc.Sim
import DeltaTxn.Conc.Service
import DeltaTxn.Conc.Front
import DeltaTxn.Conc.Linear
import DeltaTxn.Conc.Progress
import DeltaTxn.Spec.Json
import DeltaTxn.Spec.Pb
import DeltaTxn.Spec.Status
import DeltaTxn.Spec.Kernel
import DeltaTxn.Spec.Mapping
import DeltaTxn.Spec.Operation
import DeltaTxn.Spec.Storage
import DeltaTxn.Spec.Effects
import DeltaTxn.Spec.Server
import DeltaTxn.Spec.TableLock
import DeltaTxn.Spec.World
import DeltaTxn.Spec.Deployment
import DeltaTxn.Spec.Ledger
import DeltaTxn.Spec.Metrics
import DeltaTxn.Spec.Health
import DeltaTxn.Spec.Auth
import DeltaTxn.Spec.Middleware
import DeltaTxn.Spec.Startup
import DeltaTxn.Spec.Fleet
import DeltaTxn.Proof.Stats
import DeltaTxn.Proof.FlatStats
import DeltaTxn.Proof.Definition
import DeltaTxn.Proof.Params
import DeltaTxn.Proof.Actions
import DeltaTxn.Proof.OperationKind
import DeltaTxn.Proof.TableLock
import DeltaTxn.Proof.Removal
import DeltaTxn.Proof.CommitRuns
import DeltaTxn.Proof.Log
import DeltaTxn.Proof.Solo
import DeltaTxn.Proof.Creation
import DeltaTxn.Proof.Atomic
import DeltaTxn.Proof.Races
import DeltaTxn.Proof.Serial
import DeltaTxn.Proof.Creators
import DeltaTxn.Proof.Segments
import DeltaTxn.Proof.Calls
import DeltaTxn.Proof.Allowlist
import DeltaTxn.Proof.ErrorText
import DeltaTxn.Proof.Listing
import DeltaTxn.Proof.Replicas
import DeltaTxn.Proof.Linear
import DeltaTxn.Proof.ReadRuns
import DeltaTxn.Proof.Entries
import DeltaTxn.Proof.Undisturbed
import DeltaTxn.Proof.Snapshot
import DeltaTxn.Proof.Files
import DeltaTxn.Proof.Liveness
import DeltaTxn.Proof.Metrics
import DeltaTxn.Proof.Traffic
import DeltaTxn.Proof.Health
import DeltaTxn.Proof.Readiness
import DeltaTxn.Proof.Auth
import DeltaTxn.Proof.Middleware
import DeltaTxn.Proof.Startup
import DeltaTxn.Proof.Fleet
