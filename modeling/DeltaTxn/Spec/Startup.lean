import DeltaTxn.Spec.Server

/-!
# Starting up (`main.rs`, `config/grpc.rs`, `config/storage.rs`)

What `main` reads before it serves: the environment, and the two files of a TLS pair. A name or a
value in the environment need not be valid Unicode: `std::env::var` answers as if such a variable
were not set, and `std::env::vars` panics.

Parsing an address, tonic's check of a TLS identity, and binding the address are parameters.
-/

namespace DeltaTxn

/-- `OsString`: its text, or none if it is not valid Unicode. -/
abbrev OsString : Type := Option String

/-- The environment, in its order. -/
abbrev Environ : Type := List (OsString × OsString)

inductive VarError
  | notPresent | notUnicode
  deriving DecidableEq

/-- `std::env::var`: the first value under a name. -/
def Environ.var (env : Environ) (key : String) : Except VarError String :=
  match env.lookup (some key) with
  | none => .error .notPresent
  | some none => .error .notUnicode
  | some (some value) => .ok value

/-- `std::env::vars`, iterated to its end. None is a panic. -/
def Environ.vars : Environ → Option (List (String × String))
  | [] => some []
  | (some k, some v) :: env => (Environ.vars env).map ((k, v) :: ·)
  | (none, _) :: _ | (some _, none) :: _ => none

/-! ## `config/storage.rs` -/

/-- `load_storage_options`. None is a panic. -/
def loadStorageOptions (env : Environ) : Option (HashMap String) :=
  env.vars.map fun vars => vars.foldl
    (fun opts kv => if Str.startsWith kv.1 "AWS_" then opts.insert kv.1 kv.2 else opts) ∅

/-! ## `config/grpc.rs` -/

structure TlsConfig where
  certPath : String
  keyPath : String

structure GrpcConfig (A : Type) where
  addr : A
  tls : Option TlsConfig
  apiKey : Option String

/-- Why the process ends without having served. -/
inductive StartError
  | addr
  | config (text : String)
  | panic
  | readFile (path : String)
  | tls
  | transport

/-- The API key, if a variable is set: trimmed, and none if nothing is left. -/
def apiKeyOf (var : Option String) : Option String :=
  var.bind fun value =>
    let trimmed := Str.trim value
    if trimmed = "" then none else some trimmed

def loadGrpcConfig {A : Type} (parseAddr : String → Option A) (env : Environ) :
    Except StartError (GrpcConfig A) := do
  let addrEnv := (env.var "DELTA_TXN_GRPC_ADDR").toOption.getD "0.0.0.0:50051"
  let addr ← match parseAddr addrEnv with
    | some addr => .ok addr
    | none => .error .addr
  let certPath := (env.var "DELTA_TXN_GRPC_TLS_CERT").toOption
  let keyPath := (env.var "DELTA_TXN_GRPC_TLS_KEY").toOption
  let tls ← match certPath, keyPath with
    | some certPath, some keyPath => .ok (some ⟨certPath, keyPath⟩)
    | none, none => .ok none
    | _, _ => .error (.config "DELTA_TXN_GRPC_TLS_CERT and DELTA_TXN_GRPC_TLS_KEY must both be set")
  return { addr, tls, apiKey := apiKeyOf (env.var "DELTA_TXN_GRPC_API_KEY").toOption }

/-! ## `main` -/

/-- `DeltaTxnGrpcServer::new`. None is a panic. -/
def DeltaTxnGrpcServer.new (env : Environ) : Option DeltaTxnGrpcServer :=
  let allowedTablePrefixes :=
    loadAllowedTablePrefixes (env.var "DELTA_TXN_ALLOWED_TABLE_PREFIXES").toOption
  (loadStorageOptions env).map fun storageOpts => ⟨storageOpts, allowedTablePrefixes⟩

/-- Where a process starts. -/
structure Host (A : Type) where
  environ : Environ
  parseAddr : String → Option A
  readFile : String → Option (List UInt8)
  /-- `server.tls_config` takes the identity made of a certificate and a key. -/
  tlsConfig : List UInt8 → List UInt8 → Bool
  bind : A → Bool

/-- `std::fs::read` of a file that must be there. -/
def Host.read {A : Type} (host : Host A) (path : String) : Except StartError (List UInt8) :=
  match host.readFile path with
  | some bytes => .ok bytes
  | none => .error (.readFile path)

/-- The identity that the server is given, if it has a TLS pair. -/
def Host.identity {A : Type} (host : Host A) :
    Option TlsConfig → Except StartError (Option (List UInt8 × List UInt8))
  | some tlsConfig => do
    let cert ← host.read tlsConfig.certPath
    let key ← host.read tlsConfig.keyPath
    if host.tlsConfig cert key then return some (cert, key) else throw .tls
  | none => return none

/-- **A process that serves**, by what it has been configured to. -/
structure Serving (A : Type) where
  addr : A
  /-- The certificate and the key, or plaintext. -/
  tls : Option (List UInt8 × List UInt8)
  apiKey : Option String
  srv : DeltaTxnGrpcServer
  awsEndpointUrl : Option String

/-- **`main`, up to where it serves.** -/
def main {A : Type} (host : Host A) : Except StartError (Serving A) := do
  let grpcConfig ← loadGrpcConfig host.parseAddr host.environ
  let srv ← match DeltaTxnGrpcServer.new host.environ with
    | some srv => .ok srv
    | none => .error .panic
  let awsEndpointUrl := (host.environ.var "AWS_ENDPOINT_URL").toOption
  let tls ← host.identity grpcConfig.tls
  if host.bind grpcConfig.addr then
    return { addr := grpcConfig.addr, tls, apiKey := grpcConfig.apiKey, srv, awsEndpointUrl }
  else
    throw .transport

end DeltaTxn
