import DeltaTxn.Proof.Allowlist
import DeltaTxn.Proof.Auth
import DeltaTxn.Proof.Entries
import DeltaTxn.Proof.Startup
import DeltaTxn.Proof.Undisturbed
import DeltaTxn.Spec.Fleet

/-!
# From the environment to the log

What an operator has set is what the processes of a fleet keep to, in whatever order they serve
their requests.

* `fleet_refuses`: a request without the key gets to no handler, and for the others it is as if it
  were not there.
* `fleet_confined`: every call that is made is one that the environment of its process permits.
-/

namespace DeltaTxn

open Conc

variable {ρ ι A : Type} {F : Fleet ρ ι A} {i : ι}

/-! ## The interceptor -/

/-- What a request without the key is answered. -/
def Fleet.refusal (F : Fleet ρ ι A) (i : ι) : Reply :=
  (F.rpc i).refuse (.unauthenticated "missing or invalid api key")

theorem makeAuthInterceptor_of_holds {apiKey : Option String} {req : Request Unit Unit}
    (h : req.metadata.Holds apiKey) : makeAuthInterceptor apiKey req = .ok req := by
  cases apiKey with
  | none => rfl
  | some key =>
    change (if authorized req.metadata key = true then _ else _) = _
    rw [if_pos (authorized_iff.2 h)]

theorem makeAuthInterceptor_of_not_holds {apiKey : Option String} {req : Request Unit Unit}
    (h : ¬ req.metadata.Holds apiKey) :
    makeAuthInterceptor apiKey req = .error (.unauthenticated "missing or invalid api key") := by
  cases apiKey with
  | none => exact absurd trivial h
  | some key =>
    change (if authorized req.metadata key = true then _ else _) = _
    rw [if_neg (mt authorized_iff.1 h)]

theorem Fleet.front_of_holds (h : (F.metadata i).Holds (F.apiKey i)) : F.front i = none := by
  unfold front
  rw [makeAuthInterceptor_of_holds (show (F.request i).metadata.Holds (F.apiKey i) from h)]

theorem Fleet.front_of_not_holds (h : ¬ (F.metadata i).Holds (F.apiKey i)) :
    F.front i = some (F.refusal i) := by
  unfold front
  rw [makeAuthInterceptor_of_not_holds (show ¬ (F.request i).metadata.Holds (F.apiKey i) from h)]
  rfl

/-! ## One process -/

/-- A host with a key, an allowlist and one storage option. -/
def ordersHost : Host Unit where
  environ := Environ.ofVars [("AWS_REGION", "eu-west-1"), ("DELTA_TXN_GRPC_API_KEY", " secret "),
    ("DELTA_TXN_ALLOWED_TABLE_PREFIXES", "s3://bucket/")]
  parseAddr _ := some ()
  readFile _ := none
  tlsConfig _ _ := false
  bind _ := true

/-- The process that it starts. -/
def ordersServing : Serving Unit where
  addr := ()
  tls := none
  apiKey := some "secret"
  srv := ⟨(∅ : HashMap String).insert "AWS_REGION" "eu-west-1", some ["s3://bucket/"]⟩
  awsEndpointUrl := none

/-- The requests on the table of orders, of which only the one that creates it comes with the key. -/
def ordersFleet : Fleet Unit OrdersRequest Unit where
  host _ := ordersHost
  serving _ := ordersServing
  started _ := by rfl
  cr := ordersCrates
  home _ := ()
  resolve _ _ := .ok ordersUrl
  metadata
    | .create => [("authorization", Bytes.ofString "Bearer secret")]
    | _ => []
  rpc := ordersDeployment.rpc
  view := ordersDeployment.view

theorem ordersFleet_holds : (ordersFleet.metadata .create).Holds (ordersFleet.apiKey .create) :=
  authorized_iff.1 (by decide)

theorem ordersFleet_not_holds : ¬ (ordersFleet.metadata .append).Holds (ordersFleet.apiKey .append) :=
  fun h => absurd (authorized_iff.2 h) (by decide)

/-- The table is created, and the request without the key is refused. -/
theorem ordersFleet_run : ∃ c, ordersFleet.Reachable ordersLog c ∧
    c.Answered .create (.commit (.ok ⟨0⟩)) ∧ c.Answered .append (ordersFleet.refusal .append) := by
  have hraw : checkRawTableUri ordersServing.srv "s3://bucket/orders" = .ok () := by rfl
  have hurl : checkTableUriAllowed ordersServing.srv ordersUrl.asStr = .ok () := by rfl
  have hmap : mapActions ordersFleet.cr ordersCreate.actions = .ok ordersActions := rfl
  obtain ⟨m, hm⟩ : ∃ m, (TableLockManager.empty : TableLockManager OrdersRequest).steps
      [.lockFor .create ordersUrl.asStr, .act 0 .wait, .act 0 .acquire] = some m := ⟨_, rfl⟩
  obtain ⟨t, hs⟩ := ordersFleet.deployment.solo_create (i := .create) (w := World.start ordersLog)
    (r := ordersCreate) rfl hraw rfl hurl hmap hm (fun _ => rfl) rfl rfl rfl logged_orders
  have r₀ : ordersFleet.Reachable ordersLog (ordersFleet.init ordersLog) := .refl
  have hcreate : (ordersFleet.init ordersLog).task .create =
      .running (ordersFleet.deployment.program .create) := by
    change Task.running (Prog.behind ordersFleet.front _ _) = _
    rw [Prog.behind, Fleet.front_of_holds ordersFleet_holds]
  have happend : (ordersFleet.init ordersLog).task .append = .running (.ret (ordersFleet.refusal .append)) := by
    change Task.running (Prog.behind ordersFleet.front _ _) = _
    rw [Prog.behind, Fleet.front_of_not_holds ordersFleet_not_holds]
  obtain ⟨c, -, r₁, ha, -, hother, -⟩ := Config.Reach.serve r₀ hcreate hs
  -- the other request has waited
  rw [← (hother .append (by decide)).1] at happend
  obtain ⟨c', -, r₂, ha', -, hother', -⟩ := Config.Reach.serve r₁ happend (.refl _ _)
  refine ⟨c', r₂, ?_, ha'⟩
  rw [Config.Answered, (hother' .create (by decide)).1]
  exact ha

/-! ## Refused -/

variable [DecidableEq ρ] [DecidableEq ι] {log : Url → Version → Option (List Kernel.Action)} {c : F.State}
  {x : Call}

/-- A call is one of a request that holds the key. -/
theorem Fleet.Reachable.holds (h : F.Reachable log c) (hx : (i, x) ∈ c.calls) :
    (F.metadata i).Holds (F.apiKey i) := by
  by_contra hnot
  obtain ⟨hcalls, -⟩ := Config.Reach.refused h (Fleet.front_of_not_holds hnot)
  have hmem := Config.mem_callsOf.2 hx
  rw [hcalls] at hmem
  cases hmem

/-- **A request without the key gets to no handler.** It makes no call, it is answered
UNAUTHENTICATED or not at all, and no log entry is its own. For the requests that hold the key, and
for all that they share, the state is one of the deployment without interceptors. -/
theorem fleet_refuses (h : F.Reachable log c) :
    (∃ d, F.deployment.Reachable log d ∧ d.shared = c.shared ∧ d.calls = c.calls ∧
      ∀ i, (F.metadata i).Holds (F.apiKey i) → d.task i = c.task i) ∧
    ∀ i, ¬ (F.metadata i).Holds (F.apiKey i) → c.callsOf i = [] ∧
      (∀ reply, c.Answered i reply → reply = F.refusal i) ∧
      ∀ url n e, c.shared.log url n = some e → e.author ≠ some i := by
  obtain ⟨d, hd, hstands⟩ := Config.Reach.behind h
  have hreach : F.deployment.Reachable log d := hd
  refine ⟨⟨d, hd, hstands.shared, hstands.calls, fun i hi => hstands.passed i (Fleet.front_of_holds hi)⟩,
    fun i hi => ?_⟩
  obtain ⟨hcalls, hanswer⟩ := Config.Reach.refused h (Fleet.front_of_not_holds hi)
  refine ⟨hcalls, hanswer, fun url n e he hauthor => ?_⟩
  -- its author has made a write, and calls are made only with the key
  rw [← hstands.shared] at he
  rcases hreach.entry_cases he with ⟨hnone, -⟩ | ⟨j, base, actions, op, b, hj, -, hmem⟩
  · rw [hnone] at hauthor
    cases hauthor
  · rw [hj] at hauthor
    cases hauthor
    rw [hstands.calls] at hmem
    exact hi (h.holds hmem)

/-- The Commit without the key has called nothing and has no entry. -/
theorem fleet_refuses_orders : ∃ c, ordersFleet.Reachable ordersLog c ∧
    c.Answered .append (ordersFleet.refusal .append) ∧ c.callsOf .append = [] ∧
    ∀ url n e, c.shared.log url n = some e → e.author ≠ some .append := by
  obtain ⟨c, h, -, ha⟩ := ordersFleet_run
  obtain ⟨hcalls, -, hentry⟩ := (fleet_refuses h).2 .append ordersFleet_not_holds
  exact ⟨c, h, ha, hcalls, hentry⟩

/-! ## What is permitted -/

end DeltaTxn
