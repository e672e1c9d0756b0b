import DeltaTxn.Conc.Machine
import DeltaTxn.Spec.Server
import DeltaTxn.Spec.TableLock

/-!
# Concurrent requests

Any number of requests, each handled by one of any number of replicas. A replica has its own
`TableLockManager`; the tables' logs are shared. `Exec` says what each call of a handler may
answer and how it changes this world. What it says about delta-rs is assumed:

* `is_delta_table_location` and `open_table` see the log as it is at that moment.
* A `CommitBuilder` write puts at most one version, which was free. It tries the version after its
  baseline first (0 without one); when that is taken it may give up, or retry after the latest
  version. The entry has the actions that it was handed, in their order, after a CommitInfo of
  delta-rs's own when there is none among them.
* A write that answers a version has landed there. One that answers a conflict has found the version
  that it tried first taken, and has written nothing.
* Any call may fail with any other error at any time. Where `lateErrors` is set, this may happen to a
  write that has landed: delta-rs goes on working after the write, and loads the new snapshot.
-/

namespace DeltaTxn

variable {ρ ι : Type}

/-- An entry of a table's log, with the request that put it there. An entry from before the
requests considered has none. -/
structure LogEntry (ι : Type) where
  author : Option ι
  actions : List Kernel.Action

/-- **The entry of a write** that was handed `actions`. -/
inductive Logged (actions : List Kernel.Action) : List Kernel.Action → Prop
  | asHanded (ci : Kernel.CommitInfo) (h : .commitInfo ci ∈ actions) : Logged actions actions
  /-- delta-rs adds a CommitInfo of its own. -/
  | withInfo (ci : Kernel.CommitInfo) (h : ∀ ci', .commitInfo ci' ∉ actions) :
    Logged actions (.commitInfo ci :: actions)

/-- The log of a table, by version. -/
abbrev Log (ι : Type) : Type := Version → Option (LogEntry ι)

namespace Log

variable (log : Log ι)

/-- `v` is the latest version of the log. -/
def Latest (v : Version) : Prop := (log v).isSome = true ∧ ∀ n, v < n → log n = none

/-- There is no gap below a version. -/
def Contiguous : Prop := ∀ m n, m ≤ n → (log n).isSome = true → (log m).isSome = true

/-- The version that a write from the snapshot at `base` tries first. -/
def firstTry : Option Version → Version
  | none => 0
  | some v => v + 1

/-- **A `CommitBuilder` write** from the snapshot at `base` may land at `n`. -/
def Lands (base : Option Version) (n : Version) : Prop :=
  log n = none ∧
    (n = firstTry base ∨ (log (firstTry base)).isSome = true ∧ ∃ v, log.Latest v ∧ n = v + 1)

end Log

/-- What the requests share: the log at each location, and each replica's locks. -/
structure World (ρ ι : Type) where
  log : Url → Log ι
  locks : ρ → TableLockManager ι

namespace World

/-- Put `e` into the log at `url`. -/
def put (w : World ρ ι) (url : Url) (n : Version) (e : LogEntry ι) : World ρ ι :=
  { w with log := Function.update w.log url (Function.update (w.log url) n (some e)) }

/-- A `CommitBuilder` write of request `i` has landed at `n`. -/
def Landed (w : World ρ ι) (i : ι) (url : Url) (base : Option Version) (actions : List Kernel.Action)
    (n : Version) (w' : World ρ ι) : Prop :=
  (w.log url).Lands base n ∧ ∃ logged, Logged actions logged ∧ w' = w.put url n ⟨some i, logged⟩

/-- Replace the locks of replica `k`. -/
def setLocks [DecidableEq ρ] (w : World ρ ι) (k : ρ) (m : TableLockManager ι) : World ρ ι :=
  { w with locks := Function.update w.locks k m }

/-- The tables as `log` has them, before any of the requests. -/
def start (log : Url → Version → Option (List Kernel.Action)) : World ρ ι where
  log url n := (log url n).map fun actions => ⟨none, actions⟩
  locks _ := .empty

/-- The actions that drop a guard and a `TableLock`. -/
def dropActions : List LockAction := [.unlock, .fetchSub, .removeIfUnused]

end World

/-- **A setting**: the third-party functions, the configuration of each replica, and the
requests, each with its replica and with what `ensure_table_uri` makes of its `table_uri`. Where
`lateErrors` is not set, a write that answers an error is assumed to have written nothing. -/
structure Setting (ρ ι : Type) where
  cr : Crates
  srv : ρ → DeltaTxnGrpcServer
  home : ι → ρ
  resolve : ι → String → Except DeltaTableError Url
  req : ι → Pb.CommitRequest
  lateErrors : Bool

namespace Setting

variable [DecidableEq ρ] (S : Setting ρ ι)

/-- **What a call of request `i` answers**, and how it changes the world. -/
def Exec (i : ι) : (o : Op) → Ans o → World ρ ι → World ρ ι → Prop
  | .ensureTableUri raw, b, w, w' => b = S.resolve i raw ∧ w' = w
  | .lockFor key, h, w, w' =>
    h = (w.locks (S.home i)).handles.length ∧
      w' = w.setLocks (S.home i) ((w.locks (S.home i)).lockFor i key)
  -- a request that waits is one that has not made this call yet
  | .lock h, _, w, w' =>
    ∃ m, (w.locks (S.home i)).steps [.act h .wait, .act h .acquire] = some m ∧
      w' = w.setLocks (S.home i) m
  | .buildTable _ _, _, w, w' => w' = w
  | .isDeltaTableLocation url, b, w, w' =>
    w' = w ∧ ∀ x, b = .ok x → (x = true ↔ ∃ n, (w.log url n).isSome = true)
  | .openTable url _, b, w, w' => w' = w ∧ ∀ s, b = .ok (.ok s) → (w.log url).Latest s.version
  | .commitBuilder url base actions _, .ok n, w, w' => w.Landed i url base actions n w'
  | .commitBuilder url base actions _, .error e, w, w' =>
    w' = w ∧ (e.isConflict = true → (w.log url (Log.firstTry base)).isSome = true) ∨
      -- the error came after the write
      S.lateErrors = true ∧ e.isConflict = false ∧ ∃ n, w.Landed i url base actions n w'
  | .send _, _, w, w' => w' = w

/-- A step of dropping what request `i` still owns, once it has ended. -/
def Drop (i : ι) (w w' : World ρ ι) : Prop :=
  ∃ h l a m, (w.locks (S.home i)).handles[h]? = some l ∧ l.task = i ∧ a ∈ World.dropActions ∧
    (w.locks (S.home i)).stepAt h l a = some m ∧ w' = w.setLocks (S.home i) m

/-- The concurrent Commits as a machine. -/
def machine : Conc.Machine ι Op Ans (World ρ ι) := ⟨S.Exec, S.Drop⟩

/-- What request `i` runs. -/
def program (i : ι) : Conc.Prog Op Ans (Except Status Pb.CommitResponse) :=
  (commit S.cr (S.srv (S.home i)) (S.req i)).run

/-- A state of the requests and the world. -/
abbrev State (_ : Setting ρ ι) : Type :=
  Conc.Config ι Op Ans (Except Status Pb.CommitResponse) (World ρ ι)

/-- Before any step. -/
def init (log : Url → Version → Option (List Kernel.Action)) : S.State :=
  Conc.Config.init S.program (World.start log)

/-- **Reachable**: by any interleaving of the requests' steps, ends, cancellations and drops. -/
def Reachable [DecidableEq ι] (log : Url → Version → Option (List Kernel.Action)) (c : S.State) :
    Prop :=
  Conc.Config.Reach S.machine (S.init log) c

end Setting

end DeltaTxn
