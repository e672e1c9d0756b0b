import DeltaTxn.Data.HashMap

/-!
# The per-table locks (`locking/table_lock.rs`)

`TableLockManager` maps a key to a shared `LockEntry`: a mutex and the number of `TableLock`s
on it. An entry is known by its place in memory, here a number; entries and `TableLock`s are
never forgotten, so that a stale one can still be spoken of. Each atomic step of the source
is one `LockEvent`: `lockFor`, under the shard lock, or an action of one `TableLock`.

* `wait`, `acquire`, `unlock`: the mutex. Any waiting task may get a free mutex.
* `fetchSub`: the decrement in `Drop`. A guard borrows its `TableLock`, so it is gone by then.
* `removeIfUnused`: the removal that follows a decrement from one, under the shard lock.
-/

namespace DeltaTxn

/-- `LockEntry`: whether its mutex is locked, and its `ref_count`. The count is not wrapped
at the top: every `TableLock` counted there takes memory of its own. -/
structure LockEntry where
  mutex : Bool
  refCount : ℕ

def LockEntry.new : LockEntry := ⟨false, 0⟩

/-- `usize::fetch_sub(1)`, which wraps at zero. -/
def fetchSub (n : ℕ) : ℕ := if n = 0 then UInt64.size - 1 else n - 1

/-- How far a `TableLock` got: `removing` is between the two steps of its `Drop`. -/
inductive Phase
  | idle | waiting | holding | removing | dropped
  deriving DecidableEq

/-- Created, and not yet decremented. -/
def Phase.live : Phase → Bool
  | idle | waiting | holding => true
  | removing | dropped => false

/-- Its guard is alive. -/
def Phase.holds : Phase → Bool
  | holding => true
  | idle | waiting | removing | dropped => false

/-- A `TableLock`, with the task that owns it. -/
structure TableLock (τ : Type) where
  task : τ
  key : String
  entry : ℕ
  phase : Phase

/-- **A `TableLockManager`** with all entries and `TableLock`s it ever made. -/
structure TableLockManager (τ : Type) where
  locks : HashMap ℕ
  entries : ℕ → LockEntry
  nextEntry : ℕ
  handles : List (TableLock τ)

/-- The atomic steps of one `TableLock`. -/
inductive LockAction
  | wait | acquire | unlock | fetchSub | removeIfUnused
  deriving DecidableEq

/-- **The atomic steps.** `h` is the place of a `TableLock` in `handles`. -/
inductive LockEvent (τ : Type)
  | lockFor (task : τ) (key : String)
  | act (h : ℕ) (a : LockAction)

namespace TableLockManager

variable {τ : Type}

/-- `TableLockManager::default`. -/
def empty : TableLockManager τ := ⟨∅, fun _ => .new, 0, []⟩

/-- `entry(key).or_insert_with(LockEntry::new)`. -/
def entryOrInsert (m : TableLockManager τ) (key : String) : ℕ × TableLockManager τ :=
  match m.locks[key]? with
  | some e => (e, m)
  | none =>
    (m.nextEntry,
      { m with
        locks := m.locks.insert key m.nextEntry
        entries := Function.update m.entries m.nextEntry .new
        nextEntry := m.nextEntry + 1 })

/-- Change entry `e`. -/
def modifyEntry (m : TableLockManager τ) (e : ℕ) (f : LockEntry → LockEntry) : TableLockManager τ :=
  { m with entries := Function.update m.entries e (f (m.entries e)) }

/-- Move the `TableLock` `l` at `h` to `phase`. -/
def setPhase (m : TableLockManager τ) (h : ℕ) (l : TableLock τ) (phase : Phase) :
    TableLockManager τ :=
  { m with handles := m.handles.set h { l with phase } }

/-- Count and build a new `TableLock` on entry `e`. -/
def addHandle (m : TableLockManager τ) (task : τ) (key : String) (e : ℕ) : TableLockManager τ :=
  let m := m.modifyEntry e fun x => { x with refCount := x.refCount + 1 }
  { m with handles := m.handles ++ [⟨task, key, e, .idle⟩] }

def lockFor (m : TableLockManager τ) (task : τ) (key : String) : TableLockManager τ :=
  let (e, m) := m.entryOrInsert key
  m.addHandle task key e

def removeIfUnused (m : TableLockManager τ) (key : String) (e : ℕ) : TableLockManager τ :=
  -- checked again under the shard lock: the entry may be in use by now, or be another one
  if m.locks[key]? = some e ∧ (m.entries e).refCount = 0 then { m with locks := m.locks.erase key }
  else m

/-- An action of the `TableLock` `l` at `h`, where it is possible. -/
def stepAt (m : TableLockManager τ) (h : ℕ) (l : TableLock τ) :
    LockAction → Option (TableLockManager τ)
  | .wait => if l.phase = .idle then some (m.setPhase h l .waiting) else none
  | .acquire =>
    if l.phase = .waiting ∧ (m.entries l.entry).mutex = false then
      some ((m.modifyEntry l.entry fun x => { x with mutex := true }).setPhase h l .holding)
    else none
  | .unlock =>
    if l.phase = .holding then
      some ((m.modifyEntry l.entry fun x => { x with mutex := false }).setPhase h l .idle)
    else none
  | .fetchSub =>
    if l.phase = .idle ∨ l.phase = .waiting then
      let old := (m.entries l.entry).refCount
      let m := m.modifyEntry l.entry fun x => { x with refCount := DeltaTxn.fetchSub x.refCount }
      -- the one that takes the count to zero goes on to the removal
      some (m.setPhase h l (if old = 1 then .removing else .dropped))
    else none
  | .removeIfUnused =>
    if l.phase = .removing then some ((m.removeIfUnused l.key l.entry).setPhase h l .dropped)
    else none

/-- **One step**, if it is possible. -/
def step (m : TableLockManager τ) : LockEvent τ → Option (TableLockManager τ)
  | .lockFor task key => some (m.lockFor task key)
  | .act h a => m.handles[h]?.bind fun l => m.stepAt h l a

/-- A sequence of steps, in any order that is possible. -/
def steps (m : TableLockManager τ) : List (LockEvent τ) → Option (TableLockManager τ)
  | [] => some m
  | e :: es => (m.step e).bind fun m' => m'.steps es

end TableLockManager

end DeltaTxn
