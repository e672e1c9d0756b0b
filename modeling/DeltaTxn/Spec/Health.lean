import Mathlib.Logic.Function.Basic
import Mathlib.Tactic.Common

/-!
# Readiness (`main.rs`)

The health status that the readiness probe reads, and the tasks that write it through clones
of one reporter: `main` up to its shutdown, and the task `spawn_storage_health_probe` spawns.
Each event is one step of one of them, and between two steps of one task the other may take
any number. A status is written in one step: the reporter keeps it under a lock.

`Url::parse` is a parameter. What a probe finds, and when a tick fires, is left open.
-/

namespace DeltaTxn

inductive ServingStatus
  | unknown | serving | notServing
  deriving DecidableEq

/-- `HealthReporter`: the status of each service that was given one. -/
abbrev HealthReporter : Type := String → Option ServingStatus

/-- `health_reporter()`: the server as a whole serves from the start. -/
def HealthReporter.new : HealthReporter := fun name => if name = "" then some .serving else none

/-- The name under which `DeltaTxnServiceServer` is reported. -/
def serviceName : String := "delta.txn.v1.DeltaTxnService"

def HealthReporter.setServing (r : HealthReporter) : HealthReporter :=
  Function.update r serviceName (some .serving)

def HealthReporter.setNotServing (r : HealthReporter) : HealthReporter :=
  Function.update r serviceName (some .notServing)

/-! ## The tasks -/

/-- A parsed `url::Url`, by what the probe asks of it. -/
structure ParsedUrl where
  hostStr : Option String
  portOrKnownDefault : Option UInt16

/-- The environment of a process: `AWS_ENDPOINT_URL`, where it is set, and `Url::parse`. -/
structure ProcessEnv where
  awsEndpointUrl : Option String
  parse : String → Option ParsedUrl

/-- Where the loop of the storage probe is. -/
inductive ProbeLoop
  | ticking | connecting | reporting (reachable : Bool)
  deriving DecidableEq

/-- The spawned task: none, the one that only reports a malformed endpoint, or the loop. -/
inductive ProbeTask
  | absent
  | malformed
  | probing (host : String) (port : UInt16) (l : ProbeLoop)
  | ended
  deriving DecidableEq

def spawnStorageHealthProbe (env : ProcessEnv) (endpoint : String) : ProbeTask :=
  match env.parse endpoint with
  | none => .malformed
  | some parsed =>
    match parsed.hostStr with
    | none => .malformed
    | some host =>
      match parsed.portOrKnownDefault with
      | none => .malformed
      | some port => .probing host port .ticking

/-- Where `main` is. `serving` waits in `shutdown_signal` for the signal, `signalled` has it,
and `draining` has set `NOT_SERVING` and lets the requests in flight finish. -/
inductive MainTask
  | starting | registered | serving | signalled | draining | exited
  deriving DecidableEq

/-- **A process**: its two tasks and the reporter they share. -/
structure Process where
  main : MainTask
  probe : ProbeTask
  health : HealthReporter

/-- What `TcpStream::connect` under `timeout` gives. -/
inductive ConnectResult
  | connected | refused | elapsed
  deriving DecidableEq

def ConnectResult.reachable : ConnectResult → Bool
  | connected => true
  | refused | elapsed => false

/-- **The steps.** Of `main`: its first report, reading the endpoint, the signal, the report
that follows it, and the end of the process. Of the probe: the report of a malformed endpoint,
a tick, the end of a connection attempt, and its report. -/
inductive HealthEvent
  | setServing | readEndpoint | signal | setNotServing | exit
  | reportMalformed | tick | connect (r : ConnectResult) | report
  deriving DecidableEq

namespace Process

/-- Before the first step of `main` that matters here. -/
def start : Process := ⟨.starting, .absent, .new⟩

/-- A step of the probe's loop. -/
def stepProbe (p : Process) (e : HealthEvent) : Option Process :=
  match p.probe, e with
  | .probing host port .ticking, .tick => some { p with probe := .probing host port .connecting }
  | .probing host port .connecting, .connect r =>
    some { p with probe := .probing host port (.reporting r.reachable) }
  -- then the loop starts over, whatever became of the rest of the process
  | .probing host port (.reporting reachable), .report =>
    some { p with
      probe := .probing host port .ticking
      health := if reachable then p.health.setServing else p.health.setNotServing }
  | _, _ => none

/-- **One step**, if it is possible. -/
def step (env : ProcessEnv) (p : Process) : HealthEvent → Option Process
  | .setServing =>
    if p.main = .starting then some { p with main := .registered, health := p.health.setServing }
    else none
  | .readEndpoint =>
    if p.main = .registered then
      match env.awsEndpointUrl with
      | none => some { p with main := .serving }
      | some endpoint =>
        some { p with main := .serving, probe := spawnStorageHealthProbe env endpoint }
    else none
  | .signal => if p.main = .serving then some { p with main := .signalled } else none
  | .setNotServing =>
    if p.main = .signalled then some { p with main := .draining, health := p.health.setNotServing }
    else none
  -- `main` returns: with an error of the server or of its TLS files, or drained
  | .exit =>
    if p.main = .serving ∨ p.main = .signalled ∨ p.main = .draining then
      some { p with main := .exited, probe := .ended }
    else none
  | .reportMalformed =>
    if p.probe = .malformed then some { p with probe := .ended, health := p.health.setNotServing }
    else none
  | e => p.stepProbe e

/-- `DeltaTxnService` is reported as ready. -/
def Ready (p : Process) : Prop := p.health serviceName = some .serving

end Process

end DeltaTxn
