import DeltaTxn.Conc.Service
import DeltaTxn.Spec.Metrics

/-!
# The middlewares as services (`telemetry/trace_context.rs`, `telemetry/metrics.rs`, `main.rs`)

`TraceContextService` and `GrpcMetricsService`, by which instance of the inner service each of
their methods uses. In this they are the same: the one is written after the other. What else
their futures do with a response is in `Spec/Metrics`.
-/

namespace DeltaTxn

open Conc

/-- The answer to a `poll_ready`. -/
abbrev ReadyPoll (E : Type) : Type := Poll (Except E Unit)

/-- `Poll::Ready(Ok(()))`. -/
def ReadyPoll.isReady {E : Type} : ReadyPoll E → Bool
  | .ready (.ok _) => true
  | _ => false

/-- A middleware: its inner service, and its other fields. -/
structure Middleware (D S : Type) where
  fields : D
  inner : S

/-- The boxed future of a `call`: the block that owns the clone and the request, before it is
polled for the first time, or where it awaits the future of the inner call. -/
inductive CallFuture (S F Req : Type)
  | boxed (inner : S) (req : Req)
  | awaiting (f : F)

namespace Middleware

variable {D S F A Req : Type} (I : Service S F A Req)

def pollReady (s : Middleware D S) (a : A) (w : Instances Req) : A × Middleware D S × Instances Req :=
  let (a, inner, w) := I.pollReady s.inner a w
  (a, { s with inner := inner }, w)

/-- `derive(Clone)`. -/
def clone (s : Middleware D S) (w : Instances Req) : Middleware D S × Instances Req :=
  let (inner, w) := I.clone s.inner w
  ({ s with inner := inner }, w)

def call (s : Middleware D S) (req : Req) (w : Instances Req) :
    CallFuture S F Req × Middleware D S × Instances Req :=
  -- the clone is moved into the future; `self` keeps the instance that was polled
  let (inner, w) := I.clone s.inner w
  (.boxed inner req, s, w)

/-- A poll of the future. -/
def poll : CallFuture S F Req → Instances Req → CallFuture S F Req × Instances Req
  | .boxed inner req, w =>
    let (f, _, w) := I.call inner req w
    let (f, w) := I.poll f w
    (.awaiting f, w)
  | .awaiting f, w =>
    let (f, w) := I.poll f w
    (.awaiting f, w)

/-- The middleware around `I`. -/
def service (D : Type) (I : Service S F A Req) :
    Service (Middleware D S) (CallFuture S F Req) A Req where
  pollReady := pollReady I
  clone := clone I
  call := call I
  poll := poll I

end Middleware

section

variable {P M S F A Req : Type}

/-- `TraceContextService`, with a propagator. -/
abbrev TraceContextService (P S : Type) : Type := Middleware P S

/-- `GrpcMetricsService`, with its instruments. -/
abbrev GrpcMetricsService (M S : Type) : Type := Middleware M S

def TraceContextService.service (P : Type) (I : Service S F A Req) :
    Service (TraceContextService P S) (CallFuture S F Req) A Req :=
  Middleware.service P I

def GrpcMetricsService.service (M : Type) (I : Service S F A Req) :
    Service (GrpcMetricsService M S) (CallFuture S F Req) A Req :=
  Middleware.service M I

/-- `TraceContextLayer::layer`. -/
def TraceContextLayer.layer (propagator : P) (inner : S) : TraceContextService P S := ⟨propagator, inner⟩

/-- `GrpcMetricsLayer::layer`. -/
def GrpcMetricsLayer.layer (instruments : M) (inner : S) : GrpcMetricsService M S := ⟨instruments, inner⟩

/-- The stack that `main` builds: the layer that is added first is the outermost. -/
def serverStack (propagator : P) (instruments : M) (inner : S) :
    TraceContextService P (GrpcMetricsService M S) :=
  TraceContextLayer.layer propagator (GrpcMetricsLayer.layer instruments inner)

/-- The stack as a service. -/
def serverStackService (P M : Type) (I : Service S F A Req) :
    Service (TraceContextService P (GrpcMetricsService M S))
      (CallFuture (GrpcMetricsService M S) (CallFuture S F Req) Req) A Req :=
  TraceContextService.service P (GrpcMetricsService.service M I)

end

end DeltaTxn
