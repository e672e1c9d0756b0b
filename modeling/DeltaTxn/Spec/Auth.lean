import DeltaTxn.Data.Bytes
import DeltaTxn.Data.Str
import DeltaTxn.Spec.Status

/-!
# Authentication (`grpc/auth.rs`)

The interceptor in front of the service: a request passes if it carries the configured API key in
one of two headers. A header's value is any bytes, and a header may be sent more than once.
-/

namespace DeltaTxn

/-- `tonic::metadata::MetadataMap`: the headers in the order they came, under their names in lower
case. -/
abbrev MetadataMap : Type := List (String × List UInt8)

/-- `metadata.get(key)`: the first value under a name. -/
def MetadataMap.get (m : MetadataMap) (key : String) : Option (List UInt8) := m.lookup key

/-- `tonic::Request`. -/
structure Request (X T : Type) where
  metadata : MetadataMap
  message : T
  extensions : X

def constantTimeEq (a b : String) : Bool :=
  let a := Bytes.ofString a
  let b := Bytes.ofString b
  if a.length ≠ b.length then false
  else (a.zip b).foldl (fun acc p => acc ||| (p.1 ^^^ p.2)) 0 == 0

/-- What the interceptor computes as `authorized`. -/
def authorized (metadata : MetadataMap) (apiKey : String) : Bool :=
  let authorized := (((metadata.get "x-api-key").bind Bytes.toStr).map
    fun value => constantTimeEq value apiKey).getD false
  -- the second header counts also where the first is there and wrong
  if !authorized then
    ((((metadata.get "authorization").bind Bytes.toStr).bind
      fun value => (Str.stripPre value "Bearer ").map String.ofList).map
        fun value => constantTimeEq value apiKey).getD false
  else authorized

/-- The interceptor that `make_auth_interceptor` builds. -/
def makeAuthInterceptor {X : Type} (apiKey : Option String) (req : Request X Unit) :
    Except Status (Request X Unit) :=
  match apiKey with
  | none => .ok req
  | some apiKey =>
    if authorized req.metadata apiKey then .ok req
    else .error (.unauthenticated "missing or invalid api key")

end DeltaTxn
