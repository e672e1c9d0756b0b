import DeltaTxn.Conc.Linear
import DeltaTxn.Spec.Deployment

/-!
# The tables as one ledger

What the service is for, as a client sees it: one ledger per table, to which entries are appended
one after the other, and which is read as it is at some moment. Nothing of replicas, locks or
retries is left here.

* `Ledger.object`: the sequential ledger.
* `Call.ledgerOp`: which operation a call of a request can have been.
* `Deployment.Tells`: the version that a request has told its client.
-/

namespace DeltaTxn

variable {ρ ι : Type}

/-- The tables, each with its entries in the order of their versions. -/
abbrev Ledger (ι : Type) : Type := Url → List (LogEntry ι)

/-- An operation on a ledger, with what it answers. -/
inductive LedgerOp (ι : Type)
  /-- `e` becomes version `n` of the table. -/
  | append (url : Url) (n : Version) (e : LogEntry ι)
  /-- `n` is the latest version of the table. -/
  | read (url : Url) (n : Version)
  /-- Whether there is a table. -/
  | probe (url : Url) (present : Bool)

namespace Ledger

def Allows (t : Ledger ι) : LedgerOp ι → Prop
  | .append url n _ => n.toNat = (t url).length
  | .read url n => n.toNat + 1 = (t url).length
  | .probe url present => (present = true ↔ t url ≠ [])

def apply (t : Ledger ι) : LedgerOp ι → Ledger ι
  | .append url _ e => Function.update t url (t url ++ [e])
  | .read _ _ | .probe _ _ => t

/-- **The sequential ledger.** -/
def object (ι : Type) : Conc.SeqObject (LedgerOp ι) (Ledger ι) := ⟨Allows, apply⟩

end Ledger

/-- **The operation that a call of request `i` can have been**, if it can. A write that is answered a
version is an append of the actions that it was handed. One that is answered an error may be one, except
if the error is a conflict: whether it is, the answer does not say. -/
def Call.ledgerOp (i : ι) : Call → Option (LedgerOp ι) → Prop
  | ⟨.commitBuilder url _ actions _, .ok n⟩, o =>
    ∃ logged, Logged actions logged ∧ o = some (.append url n ⟨some i, logged⟩)
  | ⟨.commitBuilder url _ actions _, .error e⟩, o =>
    o = none ∨ e.isConflict = false ∧
      ∃ n logged, Logged actions logged ∧ o = some (.append url n ⟨some i, logged⟩)
  | ⟨.openTable url _, .ok (.ok s)⟩, o => o = some (.read url s.version)
  | ⟨.isDeltaTableLocation url, .ok present⟩, o => o = some (.probe url present)
  | _, o => o = none

/-- `pts` explain the calls so far, each operation with its request. -/
def Deployment.Explained {D : Deployment ρ ι} (c : D.State) (pts : List (ι × LedgerOp ι)) : Prop :=
  Conc.Config.Explains Call.ledgerOp c.calls pts

/-- `v` is the version in the answer of request `i`, or in the header that it has sent. -/
inductive Deployment.Tells {D : Deployment ρ ι} (c : D.State) (i : ι) (v : Int64) : Prop
  | commit (resp : Pb.CommitResponse) (h : c.Answered i (.commit (.ok resp)))
      (hv : resp.committedVersion = v)
  | getTable (resp : Pb.GetTableResponse) (h : c.Answered i (.getTable (.ok resp)))
      (hv : resp.version = v)
  | header (resp : Pb.ListActiveFilesHeader) (b : Except Unit Unit)
      (h : (i, ⟨.send (.ok ⟨some (.header resp)⟩), b⟩) ∈ c.calls) (hv : resp.version = v)

end DeltaTxn
