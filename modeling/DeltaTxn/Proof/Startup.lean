import DeltaTxn.Data.Traverse
import DeltaTxn.Spec.Startup

/-!
# No setting is ignored

`load_grpc_config` reads its variables one by one, and takes one that is not valid Unicode for one
that is not set: an API key or an allowlist that an operator has set would be dropped without a word.
No process serves so. `DeltaTxnGrpcServer::new` goes through the whole environment afterwards, and
panics at such a variable.

* `Environ.vars_eq_some_iff`: an environment that is all Unicode.
* `InForce`: what a process that serves is configured to, in terms of that environment.
* `startup_in_force`: `main` serves exactly where this can be had.
-/

namespace DeltaTxn

variable {A : Type} {env : Environ} {vars : List (String × String)} {host : Host A} {s : Serving A}

/-! ## The environment -/

/-- An environment that is all Unicode. -/
def Environ.ofVars (vars : List (String × String)) : Environ := vars.map fun kv => (some kv.1, some kv.2)

/-- **`std::env::vars` does not panic** exactly if the environment is all Unicode. -/
theorem Environ.vars_eq_some_iff : env.vars = some vars ↔ env = Environ.ofVars vars := by
  induction env generalizing vars with
  | nil =>
    cases vars with
    | nil => simp [Environ.vars, Environ.ofVars]
    | cons kv vars => simp [Environ.vars, Environ.ofVars]
  | cons okv env ih =>
    obtain ⟨ok, ov⟩ := okv
    cases ok with
    | none => cases vars <;> simp [Environ.vars, Environ.ofVars]
    | some k =>
      cases ov with
      | none => cases vars <;> simp [Environ.vars, Environ.ofVars]
      | some v =>
        cases vars with
        | nil => simp [Environ.vars, Environ.ofVars]
        | cons kv rest =>
          obtain ⟨k', v'⟩ := kv
          have hrest : Environ.vars env = some rest ↔ env = Environ.ofVars rest := ih
          simp only [Environ.vars, Option.map_eq_some_iff, List.cons.injEq, Prod.mk.injEq]
          constructor
          · rintro ⟨l, hl, ⟨rfl, rfl⟩, rfl⟩
            rw [hrest.1 hl]
            rfl
          · intro h
            have hcons : Environ.ofVars ((k', v') :: rest) = (some k', some v') :: Environ.ofVars rest := rfl
            rw [hcons] at h
            cases h
            exact ⟨rest, hrest.2 rfl, ⟨rfl, rfl⟩, rfl⟩

/-- Where everything is Unicode, a variable is read as it is set. -/
theorem Environ.var_ofVars (vars : List (String × String)) (key : String) :
    ((Environ.ofVars vars).var key).toOption = vars.lookup key := by
  have hlookup : (Environ.ofVars vars).lookup (some key) = (vars.lookup key).map some := by
    induction vars with
    | nil => rfl
    | cons kv vars ih =>
      obtain ⟨k, v⟩ := kv
      have hcons : Environ.ofVars ((k, v) :: vars) = (some k, some v) :: Environ.ofVars vars := rfl
      rw [hcons, List.lookup_cons, List.lookup_cons]
      by_cases hk : key = k
      · simp [hk]
      · have hne : (some key == some k) = false := by simpa using hk
        have hne' : (key == k) = false := by simpa using hk
        rw [hne, hne']
        exact ih
  unfold Environ.var
  rw [hlookup]
  cases vars.lookup key <;> rfl

/-- The storage options: under each name that starts as it must, the last value. -/
theorem getElem?_storageOptions (vars : List (String × String)) (k : String) : ∀ m : HashMap String,
    (vars.foldl (fun opts kv => if Str.startsWith kv.1 "AWS_" then opts.insert kv.1 kv.2 else opts) m)[k]? =
      if Str.startsWith k "AWS_" then (vars.reverse.lookup k).or m[k]? else m[k]? := by
  induction vars with
  | nil =>
    intro m
    simp
  | cons kv vars ih =>
    intro m
    obtain ⟨name, value⟩ := kv
    rw [List.foldl_cons, ih, List.reverse_cons, List.lookup_append]
    by_cases hname : Str.startsWith name "AWS_" = true
    · -- its value stands unless a later variable has the same name
      rw [if_pos hname, Std.ExtTreeMap.getElem?_insert]
      by_cases hk : name = k
      · subst hk
        simp [hname]
      · have hne : (k == name) = false := by simpa using Ne.symm hk
        simp [hk, hne, List.lookup_cons]
    · rw [if_neg hname]
      by_cases hk : k = name
      · subst hk
        simp [hname]
      · have hne : (k == name) = false := by simpa using hk
        simp [hne, List.lookup_cons]

/-! ## What is in force -/

/-- **What a process that serves is configured to**, where its environment is `vars`. -/
structure InForce (host : Host A) (vars : List (String × String)) (s : Serving A) : Prop where
  environ : host.environ = Environ.ofVars vars
  addr : host.parseAddr ((vars.lookup "DELTA_TXN_GRPC_ADDR").getD "0.0.0.0:50051") = some s.addr
  tls : match vars.lookup "DELTA_TXN_GRPC_TLS_CERT", vars.lookup "DELTA_TXN_GRPC_TLS_KEY" with
    | some certPath, some keyPath => ∃ cert key, host.readFile certPath = some cert ∧
        host.readFile keyPath = some key ∧ host.tlsConfig cert key = true ∧ s.tls = some (cert, key)
    | none, none => s.tls = none
    | _, _ => False
  apiKey : s.apiKey = apiKeyOf (vars.lookup "DELTA_TXN_GRPC_API_KEY")
  allowed : s.srv.allowedTablePrefixes =
    loadAllowedTablePrefixes (vars.lookup "DELTA_TXN_ALLOWED_TABLE_PREFIXES")
  storageOpts : ∀ k, s.srv.storageOpts[k]? =
    if Str.startsWith k "AWS_" then vars.reverse.lookup k else none
  awsEndpointUrl : s.awsEndpointUrl = vars.lookup "AWS_ENDPOINT_URL"
  bound : host.bind s.addr = true

/-- The server of an environment that is all Unicode. -/
theorem DeltaTxnGrpcServer.new_ofVars (vars : List (String × String)) :
    ∃ srv, DeltaTxnGrpcServer.new (Environ.ofVars vars) = some srv ∧
      srv.allowedTablePrefixes =
        loadAllowedTablePrefixes (vars.lookup "DELTA_TXN_ALLOWED_TABLE_PREFIXES") ∧
      ∀ k, srv.storageOpts[k]? = if Str.startsWith k "AWS_" then vars.reverse.lookup k else none := by
  have hvars : (Environ.ofVars vars).vars = some vars := Environ.vars_eq_some_iff.2 rfl
  unfold DeltaTxnGrpcServer.new loadStorageOptions
  rw [hvars, Environ.var_ofVars]
  refine ⟨_, rfl, rfl, fun k => ?_⟩
  change (vars.foldl _ ∅)[k]? = _
  rw [getElem?_storageOptions]
  simp

theorem Host.read_ok_iff {path : String} {bytes : List UInt8} :
    host.read path = .ok bytes ↔ host.readFile path = some bytes := by
  unfold Host.read
  cases host.readFile path <;> simp

/-- The TLS pair of the environment, if it is not broken. -/
def tlsOf (vars : List (String × String)) : Option (Option TlsConfig) :=
  match vars.lookup "DELTA_TXN_GRPC_TLS_CERT", vars.lookup "DELTA_TXN_GRPC_TLS_KEY" with
  | some certPath, some keyPath => some (some ⟨certPath, keyPath⟩)
  | none, none => some none
  | _, _ => none

theorem loadGrpcConfig_ok_iff {parseAddr : String → Option A} {cfg : GrpcConfig A} :
    loadGrpcConfig parseAddr (Environ.ofVars vars) = .ok cfg ↔
      parseAddr ((vars.lookup "DELTA_TXN_GRPC_ADDR").getD "0.0.0.0:50051") = some cfg.addr ∧
        tlsOf vars = some cfg.tls ∧ cfg.apiKey = apiKeyOf (vars.lookup "DELTA_TXN_GRPC_API_KEY") := by
  obtain ⟨addr, tls, apiKey⟩ := cfg
  unfold loadGrpcConfig tlsOf
  simp only [Environ.var_ofVars]
  cases parseAddr ((vars.lookup "DELTA_TXN_GRPC_ADDR").getD "0.0.0.0:50051") with
  | none => simp [bind, Except.bind]
  | some addr' =>
    -- one of the two TLS variables alone is an error
    cases vars.lookup "DELTA_TXN_GRPC_TLS_CERT" <;> cases vars.lookup "DELTA_TXN_GRPC_TLS_KEY" <;>
      simp [bind, Except.bind, pure, Except.pure, eq_comm]

theorem Host.identity_ok_iff {tls : Option TlsConfig} {identity : Option (List UInt8 × List UInt8)} :
    host.identity tls = .ok identity ↔
      match tls with
      | some t => ∃ cert key, host.readFile t.certPath = some cert ∧ host.readFile t.keyPath = some key ∧
          host.tlsConfig cert key = true ∧ identity = some (cert, key)
      | none => identity = none := by
  cases tls with
  | none => simp [Host.identity, pure, Except.pure, eq_comm]
  | some t =>
    simp only [Host.identity, Traverse.bind_eq_ok, Host.read_ok_iff]
    constructor
    · rintro ⟨cert, hcert, key, hkey, h⟩
      split at h
      · rename_i hconfig
        cases h
        exact ⟨cert, key, hcert, hkey, hconfig, rfl⟩
      · cases h
    · rintro ⟨cert, key, hcert, hkey, hconfig, rfl⟩
      refine ⟨cert, hcert, key, hkey, ?_⟩
      rw [if_pos hconfig]
      rfl

/-- The two ways in which TLS can be set, and what the process then has. -/
theorem tls_inForce_iff {tls : Option TlsConfig} (htls : tlsOf vars = some tls)
    {identity : Option (List UInt8 × List UInt8)} :
    host.identity tls = .ok identity ↔
      match vars.lookup "DELTA_TXN_GRPC_TLS_CERT", vars.lookup "DELTA_TXN_GRPC_TLS_KEY" with
      | some certPath, some keyPath => ∃ cert key, host.readFile certPath = some cert ∧
          host.readFile keyPath = some key ∧ host.tlsConfig cert key = true ∧ identity = some (cert, key)
      | none, none => identity = none
      | _, _ => False := by
  rw [Host.identity_ok_iff]
  unfold tlsOf at htls
  revert htls
  cases vars.lookup "DELTA_TXN_GRPC_TLS_CERT" with
  | none =>
    cases vars.lookup "DELTA_TXN_GRPC_TLS_KEY" with
    | none =>
      intro htls
      cases htls
      exact Iff.rfl
    | some keyPath =>
      intro htls
      cases htls
  | some certPath =>
    cases vars.lookup "DELTA_TXN_GRPC_TLS_KEY" with
    | none =>
      intro htls
      cases htls
    | some keyPath =>
      intro htls
      cases htls
      exact Iff.rfl

/-- A process in force has not been given a broken TLS pair. -/
theorem InForce.exists_tlsOf (h : InForce host vars s) : ∃ tls, tlsOf vars = some tls := by
  have htls := h.tls
  revert htls
  unfold tlsOf
  cases vars.lookup "DELTA_TXN_GRPC_TLS_CERT" <;> cases vars.lookup "DELTA_TXN_GRPC_TLS_KEY" <;> simp

/-- `main`, in an environment that is all Unicode. -/
theorem main_ofVars (henv : host.environ = Environ.ofVars vars) : main host = .ok s ↔ InForce host vars s := by
  obtain ⟨srv, hnew, hallowed, hopts⟩ := DeltaTxnGrpcServer.new_ofVars vars
  unfold main
  rw [henv, hnew]
  simp only [Traverse.bind_eq_ok, loadGrpcConfig_ok_iff, Environ.var_ofVars]
  constructor
  · rintro ⟨cfg, ⟨haddr, htls, hkey⟩, srv', hsrv, identity, hidentity, hbind⟩
    cases hsrv
    split at hbind
    · rename_i hbound
      cases hbind
      exact ⟨henv, haddr, (tls_inForce_iff htls).1 hidentity, hkey, hallowed, hopts, rfl, hbound⟩
    · cases hbind
  · intro h
    -- the storage options are determined by their values
    have hstorage : s.srv.storageOpts = srv.storageOpts :=
      Std.ExtTreeMap.ext_getElem? fun k => by rw [h.storageOpts k, hopts k]
    have hsrv : srv = s.srv := by
      obtain ⟨opts, allowed⟩ := srv
      obtain ⟨addr, tls, apiKey, ⟨opts', allowed'⟩, url⟩ := s
      cases hstorage
      cases hallowed.trans h.allowed.symm
      rfl
    obtain ⟨tls, htls⟩ := h.exists_tlsOf
    refine ⟨⟨s.addr, tls, s.apiKey⟩, ⟨h.addr, htls, h.apiKey⟩, s.srv, by rw [hsrv], s.tls,
      (tls_inForce_iff htls).2 h.tls, ?_⟩
    rw [if_pos h.bound, ← h.awsEndpointUrl]
    rfl

/-- A process that serves has seen all of its environment. -/
theorem main_environ (h : main host = .ok s) : ∃ vars, host.environ = Environ.ofVars vars := by
  cases hvars : host.environ.vars with
  | none =>
    -- the server panics where it goes through the environment
    have hnew : DeltaTxnGrpcServer.new host.environ = none := by
      simp only [DeltaTxnGrpcServer.new, loadStorageOptions, hvars, Option.map_none]
    unfold main at h
    rw [hnew] at h
    obtain ⟨cfg, -, h⟩ := Traverse.bind_eq_ok.1 h
    cases h
  | some vars => exact ⟨vars, Environ.vars_eq_some_iff.1 hvars⟩

theorem main_inForce (h : main host = .ok s) : ∃ vars, InForce host vars s := by
  obtain ⟨vars, henv⟩ := main_environ h
  exact ⟨vars, (main_ofVars henv).1 h⟩

/-- **No setting is ignored.** A process serves exactly if its whole environment is valid Unicode, its
address parses and can be bound, and its TLS variables are either not set or name a certificate and
a key that can be read and used. Then everything that is set is in force: the address, TLS, the API
key unless it is blank, the allowlist unless it names no prefix, the storage options and the endpoint to
probe. -/
theorem startup_in_force (host : Host A) (s : Serving A) :
    main host = .ok s ↔ ∃ vars, InForce host vars s := by
  constructor
  · exact main_inForce
  · rintro ⟨vars, h⟩
    exact (main_ofVars h.environ).2 h

end DeltaTxn
