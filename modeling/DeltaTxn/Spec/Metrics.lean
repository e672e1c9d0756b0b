import DeltaTxn.Data.Str
import DeltaTxn.Spec.Status

/-!
# The metrics of a request (`telemetry/metrics.rs`)

`GrpcMetricsService` around an inner service: the future its `call` returns, and the
`MetricsBody` that future puts around the response's body. Both are polled by their owner, and
each poll asks the inner one first. What the inner one answers is left open, so a life of a
request is a list of polls with those answers, ended by a drop at any point. The requests of a
process are any number of such lives, in any interleaving, around the same instruments.

`tonic::Status::from_header_map` is a parameter, and header maps are of any type. A code is kept
as such where its text is attached, and a latency in nanoseconds.
-/

namespace DeltaTxn

/-- `std::task::Poll`. -/
inductive Poll (α : Type)
  | pending
  | ready (a : α)

/-- `http_body::Frame`. -/
inductive Frame (D H : Type)
  | data (d : D)
  | trailers (h : H)

def Frame.trailersRef {D H : Type} : Frame D H → Option H
  | data _ => none
  | trailers h => some h

/-- What `poll_frame` gives. -/
abbrev FramePoll (D H F : Type) : Type := Poll (Option (Except F (Frame D H)))

/-- `http::Response`: its headers, the rest of its parts, and its body. -/
structure Response (H P B : Type) where
  headers : H
  rest : P
  body : B

/-- A reading of the monotonic clock, in nanoseconds. -/
abbrev Instant : Type := ℕ

/-! ## Recording -/

structure Attributes where
  rpcSystem : String
  rpcService : String
  rpcMethod : String
  statusCode : Code
  deriving DecidableEq

/-- The instruments of the meter: what was added to each, the last at the end. -/
structure Instruments where
  requestCounter : List Attributes
  errorCounter : List Attributes
  latencyHistogram : List (ℕ × Attributes)

def record (i : Instruments) (service method : String) (start now : Instant) (statusCode : Code) :
    Instruments :=
  let elapsed := now - start
  let attributes : Attributes := ⟨"grpc", service, method, statusCode⟩
  { requestCounter := i.requestCounter ++ [attributes]
    errorCounter := if statusCode ≠ .ok then i.errorCounter ++ [attributes] else i.errorCounter
    latencyHistogram := i.latencyHistogram ++ [(elapsed, attributes)] }

structure MetricsRecorder where
  service : String
  method : String
  start : Instant

def MetricsRecorder.record (r : MetricsRecorder) (i : Instruments) (now : Instant) (code : Code) :
    Instruments :=
  DeltaTxn.record i r.service r.method r.start now code

/-- `MetricsBody`, with what it holds of the inner body. -/
structure MetricsBody (B : Type) where
  inner : B
  recorder : Option MetricsRecorder

/-! ## Polling -/

section Polling

variable {D H P B E F : Type} (fromHeaderMap : H → Option Code)

/-- What `call` takes from a request for the future it returns. -/
def callRecorder (path : String) (start : Instant) : MetricsRecorder where
  method := (Str.rsplit path '/').head?.getD "unknown"
  service := Str.trimStartMatches ((Str.rsplitn2 path '/').getLast?.getD "unknown") '/'
  start := start

/-- One poll of that future, after `inner.call(req)` was polled. -/
def pollCall (r : MetricsRecorder) (inner : Poll (Except E (Response H P B))) (now : Instant)
    (i : Instruments) : Poll (Except E (Response H P (MetricsBody B))) × Instruments :=
  match inner with
  | .pending => (.pending, i)
  | .ready (.error err) => (.ready (.error err), r.record i now .unknown)
  | .ready (.ok response) =>
    match fromHeaderMap response.headers with
    -- Trailers-Only: the status is known, and nothing is left to record
    | some code =>
      (.ready (.ok ⟨response.headers, response.rest, ⟨response.body, none⟩⟩), r.record i now code)
    | none => (.ready (.ok ⟨response.headers, response.rest, ⟨response.body, some r⟩⟩), i)

/-- `recorder.take()`, and a record by what was there. -/
def MetricsBody.takeAndRecord (b : MetricsBody B) (now : Instant) (code : Code) (i : Instruments) :
    MetricsBody B × Instruments :=
  match b.recorder with
  | some r => ({ b with recorder := none }, r.record i now code)
  | none => (b, i)

/-- `poll_frame`, after the inner body was polled. -/
def MetricsBody.pollFrame (b : MetricsBody B) (inner : FramePoll D H F) (now : Instant)
    (i : Instruments) : FramePoll D H F × MetricsBody B × Instruments :=
  match inner with
  | .ready (some (.ok frame)) =>
    match frame.trailersRef with
    | some trailers => (inner, b.takeAndRecord now ((fromHeaderMap trailers).getD .unknown) i)
    | none => (inner, b, i)
  -- the end, or an error, without a trailers frame
  | .ready none | .ready (some (.error _)) => (inner, b.takeAndRecord now .unknown i)
  | .pending => (inner, b, i)

end Polling

/-! ## The life of a request -/

/-- An answer to a poll: of the call's future, or of the response's body. -/
inductive Answer (D H P B E F : Type)
  | call (r : Poll (Except E (Response H P B)))
  | frame (r : FramePoll D H F)

/-- A poll at some time, with the inner answer, or the drop of what is there. -/
inductive LifeEvent (D H P B E F : Type)
  | poll (now : Instant) (inner : Answer D H P B E F)
  | drop

/-- How far a request got: its future is there, with what `call` captured; it failed; its
response is there; or all of it is gone. -/
inductive Life (B : Type)
  | calling (r : MetricsRecorder)
  | failed
  | responded (body : MetricsBody B)
  | gone

/-- **A request**, with the instruments and what its owner was answered so far. -/
structure RequestState (D H P B E F : Type) where
  life : Life B
  instruments : Instruments
  answers : List (Answer D H P (MetricsBody B) E F)

namespace RequestState

variable {D H P B E F : Type}

/-- `GrpcMetricsService::call`. -/
def start (path : String) (now : Instant) (i : Instruments) : RequestState D H P B E F :=
  ⟨.calling (callRecorder path now), i, []⟩

/-- **One step of the owner**, if it is possible: a future is polled until it is ready, a body at
will. -/
def step (fromHeaderMap : H → Option Code) (s : RequestState D H P B E F) :
    LifeEvent D H P B E F → Option (RequestState D H P B E F)
  | .poll now (.call inner) =>
    match s.life with
    | .calling r =>
      let (answer, i) := pollCall fromHeaderMap r inner now s.instruments
      some {
        life := match answer with
          | .pending => .calling r
          | .ready (.error _) => .failed
          | .ready (.ok response) => .responded response.body
        instruments := i
        answers := s.answers ++ [.call answer] }
    | _ => none
  | .poll now (.frame inner) =>
    match s.life with
    | .responded body =>
      let (answer, body, i) := body.pollFrame fromHeaderMap inner now s.instruments
      some { life := .responded body, instruments := i, answers := s.answers ++ [.frame answer] }
    | _ => none
  | .drop =>
    match s.life with
    | .gone => none
    | _ => some { s with life := .gone }

end RequestState

/-! ## The requests of a process -/

/-- **The requests of a process**, each as far as it got, if it has been received. They share the
instruments: what `call` clones are handles to them. -/
structure Traffic (ι B : Type) where
  life : ι → Option (Life B)
  instruments : Instruments

/-- A request is received, or the owner of one takes a step. -/
inductive TrafficEvent (ι D H P B E F : Type)
  | call (i : ι) (path : String) (now : Instant)
  | owner (i : ι) (e : LifeEvent D H P B E F)

namespace Traffic

variable {ι D H P B E F : Type}

/-- Nothing received and nothing recorded. -/
def start : Traffic ι B := ⟨fun _ => none, ⟨[], [], []⟩⟩

/-- One step of one request, if it is possible. -/
def step [DecidableEq ι] (fromHeaderMap : H → Option Code) (s : Traffic ι B) :
    TrafficEvent ι D H P B E F → Option (Traffic ι B)
  | .call i path now =>
    match s.life i with
    | none => some { s with life := Function.update s.life i (some (.calling (callRecorder path now))) }
    | some _ => none
  | .owner i e => do
    let life ← s.life i
    let request : RequestState D H P B E F := ⟨life, s.instruments, []⟩
    let request ← request.step fromHeaderMap e
    return ⟨Function.update s.life i (some request.life), request.instruments⟩

end Traffic

end DeltaTxn
