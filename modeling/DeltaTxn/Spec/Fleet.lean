import DeltaTxn.Conc.Front
import DeltaTxn.Spec.Auth
import DeltaTxn.Spec.Deployment
import DeltaTxn.Spec.Startup

/-!
# A fleet

The deployment that an operator sees: processes that `main` has started, each from its own
environment, with the interceptor in front of every request. A request comes with its headers.
-/

namespace DeltaTxn

variable {ρ ι A : Type}

/-- The answer of a request that has not got to its handler. -/
def Rpc.refuse (st : Status) : Rpc → Reply
  | commit _ => .commit (.error st)
  | getTable _ => .getTable (.error st)
  | listActiveFiles _ => .listActiveFiles (.error st)

/-- **A fleet**: processes that serve, and the requests with their headers. -/
structure Fleet (ρ ι A : Type) where
  host : ρ → Host A
  serving : ρ → Serving A
  started : ∀ k, main (host k) = .ok (serving k)
  cr : Crates
  home : ι → ρ
  resolve : ι → String → Except DeltaTableError Url
  metadata : ι → MetadataMap
  rpc : ι → Rpc
  view : Kernel.Metadata → Kernel.Add → LogicalFileView

namespace Fleet

variable (F : Fleet ρ ι A)

/-- The servers behind the interceptors. -/
def deployment : Deployment ρ ι where
  cr := F.cr
  srv k := (F.serving k).srv
  home := F.home
  resolve := F.resolve
  rpc := F.rpc
  view := F.view

/-- The key that request `i` has to hold, if any. -/
def apiKey (i : ι) : Option String := (F.serving (F.home i)).apiKey

/-- What the interceptor gets to see of request `i`. -/
def request (i : ι) : Request Unit Unit := { metadata := F.metadata i, message := (), extensions := () }

/-- **The interceptor in front of request `i`**: its answer, if it does not let the request pass. -/
def front (i : ι) : Option Reply :=
  match makeAuthInterceptor (F.apiKey i) (F.request i) with
  | .ok _ => none
  | .error st => some ((F.rpc i).refuse st)

variable [DecidableEq ρ]

/-- A state of the requests and the world. -/
abbrev State (F : Fleet ρ ι A) : Type := F.deployment.State

/-- Before any step. -/
def init (log : Url → Version → Option (List Kernel.Action)) : F.State :=
  Conc.Config.init (Conc.Prog.behind F.front F.deployment.program) (World.start log)

/-- **Reachable**: as in the deployment, with the interceptors in front. -/
def Reachable [DecidableEq ι] (log : Url → Version → Option (List Kernel.Action)) (c : F.State) :
    Prop :=
  Conc.Config.Reach F.deployment.machine (F.init log) c

end Fleet

end DeltaTxn
