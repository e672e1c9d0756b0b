import DeltaTxn.Spec.TableLock

/-!
# Mutual exclusion of the per-table locks

An entry stays the one the map holds for its key for as long as a `TableLock` on it is live,
although a decrement to zero and the removal it calls for are two steps.

* `TableLockManager.Inv`: the reference counts and mutexes count the `TableLock`s, and every
  live `TableLock` points to the entry in the map.
* `Inv.step`: every step keeps it.
* `tableLock_mutual_exclusion`: what it says in every state reachable by any steps.
-/

namespace DeltaTxn

namespace TableLockManager

variable {τ : Type} {m m' : TableLockManager τ} {h : ℕ} {l : TableLock τ}

/-- The number of `TableLock`s on entry `e` in a phase of kind `p`. -/
def count (m : TableLockManager τ) (p : Phase → Bool) (e : ℕ) : ℕ :=
  m.handles.countP fun l => p l.phase && l.entry == e

/-- **The lock table is consistent.** -/
structure Inv (m : TableLockManager τ) : Prop where
  alloc : ∀ (h : ℕ) (l : TableLock τ), m.handles[h]? = some l → l.entry < m.nextEntry
  mapAlloc : ∀ (k : String) (e : ℕ), m.locks[k]? = some e → e < m.nextEntry
  current : ∀ (h : ℕ) (l : TableLock τ), m.handles[h]? = some l → l.phase.live = true →
    m.locks[l.key]? = some l.entry
  refCount : ∀ e, (m.entries e).refCount = m.count Phase.live e
  mutex : ∀ e, (m.entries e).mutex.toNat = m.count Phase.holds e

/-! ## Counting -/

theorem toNat_eq_ite (b : Bool) : b.toNat = if b then 1 else 0 := by cases b <;> rfl

theorem count_pos (hl : m.handles[h]? = some l) {p : Phase → Bool} (hp : p l.phase = true) :
    0 < m.count p l.entry := by
  unfold count
  rw [List.countP_pos_iff]
  exact ⟨l, List.mem_of_getElem? hl, by simp [hp]⟩

theorem count_eq_zero (hm : m.Inv) {e : ℕ} (he : m.nextEntry ≤ e) (p : Phase → Bool) :
    m.count p e = 0 := by
  unfold count
  rw [List.countP_eq_zero]
  intro l hl
  obtain ⟨h, hh⟩ := List.mem_iff_getElem?.1 hl
  have hlt := hm.alloc h l hh
  have hne : ¬ l.entry = e := by omega
  simp [hne]

/-- Moving one `TableLock` to another phase moves its unit in the counts. -/
theorem count_setPhase (hl : m.handles[h]? = some l) (p : Phase → Bool) (e : ℕ) (phase : Phase) :
    (m.setPhase h l phase).count p e + (p l.phase && l.entry == e).toNat =
      m.count p e + (p phase && l.entry == e).toNat := by
  obtain ⟨hh, rfl⟩ := List.getElem?_eq_some_iff.1 hl
  have hpos : (p m.handles[h].phase && m.handles[h].entry == e).toNat ≤ m.count p e := by
    cases hb : p m.handles[h].phase && m.handles[h].entry == e with
    | false => exact Nat.zero_le _
    | true => exact List.countP_pos_iff.2 ⟨_, List.getElem_mem hh, hb⟩
  have hset := List.countP_set (p := fun l => p l.phase && l.entry == e)
    (a := { m.handles[h] with phase }) hh
  unfold count setPhase at *
  rw [hset]
  simp only [toNat_eq_ite] at hpos ⊢
  omega

/-- Two `TableLock`s that both hold the guard of one entry are the same. -/
theorem Inv.holder_unique (hm : m.Inv) {i j : ℕ} {l l' : TableLock τ} (hi : m.handles[i]? = some l)
    (hj : m.handles[j]? = some l') (hl : l.phase.holds = true) (hl' : l'.phase.holds = true)
    (he : l.entry = l'.entry) : i = j := by
  by_contra hij
  -- Dropping the first leaves a count of zero, but the second is still there.
  have hset := count_setPhase hi Phase.holds l.entry .dropped
  have hj' : (m.setPhase i l .dropped).handles[j]? = some l' := by
    simp only [setPhase]
    rw [List.getElem?_set_ne hij]
    exact hj
  have hpos := count_pos hj' hl'
  have hle : (m.entries l.entry).mutex.toNat ≤ 1 := Bool.toNat_le _
  rw [hm.mutex] at hle
  rw [← he] at hpos
  have hdropped : Phase.dropped.holds = false := rfl
  rw [hl, hdropped, beq_self_eq_true] at hset
  simp only [Bool.and_self, Bool.false_and, Bool.toNat_true, Bool.toNat_false] at hset
  omega

/-! ## Steps -/

theorem inv_empty : (empty : TableLockManager τ).Inv where
  alloc := by simp [empty]
  mapAlloc := by simp [empty]
  current := by simp [empty]
  refCount := fun _ => rfl
  mutex := fun _ => rfl

/-- The `TableLock`s after one of them moved. -/
theorem handles_setPhase (hl : m.handles[h]? = some l) {phase : Phase} {j : ℕ} {l' : TableLock τ}
    (hj : (m.setPhase h l phase).handles[j]? = some l') :
    (j = h ∧ l' = { l with phase }) ∨ (j ≠ h ∧ m.handles[j]? = some l') := by
  simp only [setPhase] at hj
  by_cases hjh : j = h
  · subst hjh
    rw [List.getElem?_set_self (List.getElem?_eq_some_iff.1 hl).1] at hj
    exact Or.inl ⟨rfl, (Option.some.inj hj).symm⟩
  · rw [List.getElem?_set_ne (Ne.symm hjh)] at hj
    exact Or.inr ⟨hjh, hj⟩

/-- A `TableLock` that does not come back to life keeps the table consistent, provided its
entry is adjusted as the counts are. -/
theorem Inv.move (hm : m.Inv) (hl : m.handles[h]? = some l) {phase : Phase}
    {f : LockEntry → LockEntry} (hlive : phase.live = true → l.phase.live = true)
    (hr : (f (m.entries l.entry)).refCount + l.phase.live.toNat =
      (m.entries l.entry).refCount + phase.live.toNat)
    (hx : (f (m.entries l.entry)).mutex.toNat + l.phase.holds.toNat =
      (m.entries l.entry).mutex.toNat + phase.holds.toNat) :
    ((m.modifyEntry l.entry f).setPhase h l phase).Inv where
  alloc := by
    intro j l' hj
    rcases handles_setPhase (m := m.modifyEntry l.entry f) hl hj with ⟨-, rfl⟩ | ⟨-, hj⟩
    · exact hm.alloc h l hl
    · exact hm.alloc j l' hj
  mapAlloc := hm.mapAlloc
  current := by
    intro j l' hj hl'
    rcases handles_setPhase (m := m.modifyEntry l.entry f) hl hj with ⟨-, rfl⟩ | ⟨-, hj⟩
    · exact hm.current h l hl (hlive hl')
    · exact hm.current j l' hj hl'
  refCount := by
    intro e
    -- the change of the entry counts no `TableLock`
    have hc : ((m.modifyEntry l.entry f).setPhase h l phase).count Phase.live e +
        (l.phase.live && l.entry == e).toNat = m.count Phase.live e + (phase.live && l.entry == e).toNat :=
      count_setPhase (m := m.modifyEntry l.entry f) hl Phase.live e phase
    have he := hm.refCount e
    by_cases hle : l.entry = e
    · subst hle
      simp only [setPhase, modifyEntry, Function.update_self]
      simp only [beq_self_eq_true, Bool.and_true] at hc
      change _ = ((m.modifyEntry l.entry f).setPhase h l phase).count Phase.live l.entry
      omega
    · have hle' : (l.entry == e) = false := by simpa using hle
      simp only [hle', Bool.and_false, Bool.toNat_false, Nat.add_zero] at hc
      rw [hc, ← he]
      simp only [setPhase, modifyEntry, Function.update_of_ne (Ne.symm hle)]
  mutex := by
    intro e
    have hc : ((m.modifyEntry l.entry f).setPhase h l phase).count Phase.holds e +
        (l.phase.holds && l.entry == e).toNat = m.count Phase.holds e + (phase.holds && l.entry == e).toNat :=
      count_setPhase (m := m.modifyEntry l.entry f) hl Phase.holds e phase
    have he := hm.mutex e
    by_cases hle : l.entry = e
    · subst hle
      simp only [setPhase, modifyEntry, Function.update_self]
      simp only [beq_self_eq_true, Bool.and_true] at hc
      change _ = ((m.modifyEntry l.entry f).setPhase h l phase).count Phase.holds l.entry
      omega
    · have hle' : (l.entry == e) = false := by simpa using hle
      simp only [hle', Bool.and_false, Bool.toNat_false, Nat.add_zero] at hc
      rw [hc, ← he]
      simp only [setPhase, modifyEntry, Function.update_of_ne (Ne.symm hle)]

/-- The same for an action that leaves the entry alone. -/
theorem Inv.move_only (hm : m.Inv) (hl : m.handles[h]? = some l) {phase : Phase}
    (hlive : phase.live = l.phase.live) (hholds : phase.holds = l.phase.holds) :
    (m.setPhase h l phase).Inv := by
  have hid : m.modifyEntry l.entry id = m := by
    simp only [modifyEntry, id, Function.update_eq_self]
  have hmv : ((m.modifyEntry l.entry id).setPhase h l phase).Inv :=
    hm.move hl (fun h => hlive ▸ h) (by rw [hlive]; rfl) (by rw [hholds]; rfl)
  rwa [hid] at hmv

/-- **The removal is safe**: what it takes out of the map has no live `TableLock`. -/
theorem Inv.removeIfUnused (hm : m.Inv) (key : String) (e : ℕ) : (m.removeIfUnused key e).Inv := by
  unfold TableLockManager.removeIfUnused
  split
  · rename_i hrem
    obtain ⟨hkey, hzero⟩ := hrem
    refine { hm with mapAlloc := ?_, current := ?_ }
    · intro k e' hk
      rw [Std.ExtTreeMap.getElem?_erase] at hk
      split at hk
      · cases hk
      · exact hm.mapAlloc k e' hk
    · intro j l hj hlive
      have hcur := hm.current j l hj hlive
      rw [Std.ExtTreeMap.getElem?_erase]
      split
      · -- A live `TableLock` of this key would be on `e`, whose count is zero.
        rename_i hk
        rw [Std.LawfulEqCmp.compare_eq_iff_eq] at hk
        rw [← hk, hkey] at hcur
        have hpos := count_pos (m := m) hj hlive
        rw [← Option.some.inj hcur, ← hm.refCount, hzero] at hpos
        exact absurd hpos (Nat.lt_irrefl 0)
      · exact hcur
  · exact hm

theorem Inv.stepAt (hm : m.Inv) (hl : m.handles[h]? = some l) {a : LockAction}
    (hs : m.stepAt h l a = some m') : m'.Inv := by
  cases a with
  | wait =>
    obtain ⟨hph, ⟨⟩⟩ := Option.ite_none_right_eq_some.1 hs
    exact hm.move_only hl (by rw [hph]; rfl) (by rw [hph]; rfl)
  | acquire =>
    obtain ⟨⟨hph, hfree⟩, ⟨⟩⟩ := Option.ite_none_right_eq_some.1 hs
    exact hm.move hl (fun _ => by rw [hph]; rfl) (by rw [hph]; rfl) (by rw [hph, hfree]; rfl)
  | unlock =>
    obtain ⟨hph, ⟨⟩⟩ := Option.ite_none_right_eq_some.1 hs
    have hpos := count_pos hl (p := Phase.holds) (by rw [hph]; rfl)
    rw [← hm.mutex] at hpos
    cases hlocked : (m.entries l.entry).mutex with
    | false =>
      rw [hlocked] at hpos
      exact absurd hpos (Nat.lt_irrefl 0)
    | true =>
      exact hm.move hl (fun _ => by rw [hph]; rfl) (by rw [hph]; rfl) (by rw [hph, hlocked]; rfl)
  | fetchSub =>
    obtain ⟨hph, ⟨⟩⟩ := Option.ite_none_right_eq_some.1 hs
    have hlive : l.phase.live = true := by rcases hph with hph | hph <;> rw [hph] <;> rfl
    have hholds : l.phase.holds = false := by rcases hph with hph | hph <;> rw [hph] <;> rfl
    have hpos := count_pos hl hlive
    rw [← hm.refCount] at hpos
    have hne : (m.entries l.entry).refCount ≠ 0 := by omega
    refine hm.move hl (fun _ => hlive) ?_ ?_
    · rw [hlive]
      simp only [DeltaTxn.fetchSub, if_neg hne]
      split <;> simp only [Phase.live, Bool.toNat_true, Bool.toNat_false] <;> omega
    · rw [hholds]
      split <;> rfl
  | removeIfUnused =>
    obtain ⟨hph, ⟨⟩⟩ := Option.ite_none_right_eq_some.1 hs
    have hl' : (m.removeIfUnused l.key l.entry).handles[h]? = some l := by
      unfold TableLockManager.removeIfUnused
      split <;> exact hl
    exact (hm.removeIfUnused _ _).move_only hl' (by rw [hph]; rfl) (by rw [hph]; rfl)

/-- Finding or inserting the entry of a key, which is then the one in the map. -/
theorem Inv.entryOrInsert (hm : m.Inv) (key : String) :
    (m.entryOrInsert key).2.Inv ∧ (m.entryOrInsert key).2.handles = m.handles ∧
      (m.entryOrInsert key).2.locks[key]? = some (m.entryOrInsert key).1 := by
  unfold TableLockManager.entryOrInsert
  cases hk : m.locks[key]? with
  | some e => exact ⟨hm, rfl, hk⟩
  | none =>
    refine ⟨⟨?_, ?_, ?_, ?_, ?_⟩, rfl, by simp⟩
    · intro h l hl
      exact Nat.lt_succ_of_lt (hm.alloc h l hl)
    · intro k e he
      simp only [Std.ExtTreeMap.getElem?_insert] at he
      split at he
      · cases he
        exact Nat.lt_succ_self _
      · exact Nat.lt_succ_of_lt (hm.mapAlloc k e he)
    · intro h l hl hlive
      have hcur := hm.current h l hl hlive
      rw [Std.ExtTreeMap.getElem?_insert, if_neg]
      · exact hcur
      · rw [Std.LawfulEqCmp.compare_eq_iff_eq]
        rintro rfl
        rw [hk] at hcur
        cases hcur
    -- The new entry is not yet counted anywhere.
    · intro e
      by_cases he : e = m.nextEntry
      · subst he
        simp only [Function.update_self]
        exact (count_eq_zero hm (Nat.le_refl _) _).symm
      · simp only [Function.update_of_ne he]
        exact hm.refCount e
    · intro e
      by_cases he : e = m.nextEntry
      · subst he
        simp only [Function.update_self]
        exact (count_eq_zero hm (Nat.le_refl _) _).symm
      · simp only [Function.update_of_ne he]
        exact hm.mutex e

/-- The `TableLock`s after a new one. -/
theorem handles_addHandle {task : τ} {key : String} {e : ℕ}
    (hl : (m.addHandle task key e).handles[h]? = some l) :
    m.handles[h]? = some l ∨ (h = m.handles.length ∧ l = ⟨task, key, e, .idle⟩) := by
  simp only [addHandle, modifyEntry] at hl
  rw [List.getElem?_append] at hl
  split at hl
  · exact Or.inl hl
  · rename_i hlen
    rw [List.getElem?_singleton] at hl
    split at hl
    · exact Or.inr ⟨by omega, (Option.some.inj hl).symm⟩
    · cases hl

theorem count_addHandle (p : Phase → Bool) (task : τ) (key : String) (e e' : ℕ) :
    (m.addHandle task key e).count p e' = m.count p e' + (p .idle && e == e').toNat := by
  unfold count addHandle modifyEntry
  rw [List.countP_append, List.countP_singleton]
  rw [toNat_eq_ite]

/-- A new `TableLock` on the entry in the map. -/
theorem Inv.addHandle (hm : m.Inv) {key : String} {e : ℕ} (hkey : m.locks[key]? = some e)
    (task : τ) : (m.addHandle task key e).Inv where
  alloc := by
    intro h l hl
    rcases handles_addHandle hl with hl | ⟨-, rfl⟩
    · exact hm.alloc h l hl
    · exact hm.mapAlloc key e hkey
  mapAlloc := hm.mapAlloc
  current := by
    intro h l hl hlive
    rcases handles_addHandle hl with hl | ⟨-, rfl⟩
    · exact hm.current h l hl hlive
    · exact hkey
  refCount := by
    intro e'
    rw [count_addHandle, ← hm.refCount]
    simp only [TableLockManager.addHandle, modifyEntry]
    by_cases he : e' = e
    · subst he
      simp [Phase.live]
    · simp [Function.update_of_ne he, Ne.symm he]
  mutex := by
    intro e'
    rw [count_addHandle, ← hm.mutex]
    simp only [TableLockManager.addHandle, modifyEntry]
    by_cases he : e' = e
    · subst he
      simp [Phase.holds]
    · simp [Function.update_of_ne he, Phase.holds]

theorem Inv.lockFor (hm : m.Inv) (task : τ) (key : String) : (m.lockFor task key).Inv := by
  obtain ⟨hm', -, hkey⟩ := hm.entryOrInsert key
  exact hm'.addHandle hkey task

/-! ## What a step leaves alone -/

/-- An action moves one `TableLock` to another phase. -/
theorem stepAt_handles {a : LockAction} (hs : m.stepAt h l a = some m') :
    ∃ phase, m'.handles = m.handles.set h { l with phase } := by
  cases a with
  | wait =>
    obtain ⟨-, ⟨⟩⟩ := Option.ite_none_right_eq_some.1 hs
    exact ⟨_, rfl⟩
  | acquire =>
    obtain ⟨-, ⟨⟩⟩ := Option.ite_none_right_eq_some.1 hs
    exact ⟨_, rfl⟩
  | unlock =>
    obtain ⟨-, ⟨⟩⟩ := Option.ite_none_right_eq_some.1 hs
    exact ⟨_, rfl⟩
  | fetchSub =>
    obtain ⟨-, ⟨⟩⟩ := Option.ite_none_right_eq_some.1 hs
    exact ⟨_, rfl⟩
  | removeIfUnused =>
    obtain ⟨-, ⟨⟩⟩ := Option.ite_none_right_eq_some.1 hs
    refine ⟨.dropped, ?_⟩
    unfold TableLockManager.removeIfUnused
    split <;> rfl

theorem lockFor_handles (m : TableLockManager τ) (task : τ) (key : String) :
    ∃ e, (m.lockFor task key).handles = m.handles ++ [⟨task, key, e, .idle⟩] := by
  refine ⟨(m.entryOrInsert key).1, ?_⟩
  unfold TableLockManager.lockFor TableLockManager.addHandle TableLockManager.entryOrInsert
  cases m.locks[key]? <;> rfl

/-- Waiting for the mutex and getting it. -/
theorem steps_acquire (hl : m.handles[h]? = some l)
    (hs : m.steps [.act h .wait, .act h .acquire] = some m') :
    m'.handles = m.handles.set h { l with phase := .holding } := by
  have hlen := (List.getElem?_eq_some_iff.1 hl).1
  obtain ⟨n, hn, hs⟩ := Option.bind_eq_some_iff.1 hs
  obtain ⟨l', hl', hn⟩ := Option.bind_eq_some_iff.1 hn
  obtain rfl := Option.some.inj (hl.symm.trans hl')
  obtain ⟨-, ⟨⟩⟩ := Option.ite_none_right_eq_some.1 hn
  obtain ⟨n, hn, hs⟩ := Option.bind_eq_some_iff.1 hs
  obtain ⟨l', hl', hn⟩ := Option.bind_eq_some_iff.1 hn
  rw [setPhase, List.getElem?_set_self hlen] at hl'
  cases hl'
  obtain ⟨-, ⟨⟩⟩ := Option.ite_none_right_eq_some.1 hn
  cases hs
  simp [setPhase, modifyEntry]

/-- **Every step keeps the lock table consistent.** -/
theorem Inv.step (hm : m.Inv) {e : LockEvent τ} (hs : m.step e = some m') : m'.Inv := by
  cases e with
  | lockFor task key =>
    cases hs
    exact hm.lockFor task key
  | act h a =>
    obtain ⟨l, hl, hs⟩ := Option.bind_eq_some_iff.1 hs
    exact hm.stepAt hl hs

theorem Inv.steps {es : List (LockEvent τ)} : ∀ {m : TableLockManager τ}, m.Inv →
    m.steps es = some m' → m'.Inv := by
  induction es with
  | nil =>
    intro m hm hs
    cases hs
    exact hm
  | cons e es ih =>
    intro m hm hs
    obtain ⟨n, hn, hs⟩ := Option.bind_eq_some_iff.1 hs
    exact ih (hm.step hn) hs

end TableLockManager

/-! ## Mutual exclusion -/

variable {τ : Type}

/-- **Per-table mutual exclusion.** In every state that any steps of any tasks lead to: a live
`TableLock` points to the entry the map holds for its key; two live ones of one key point to
the same entry; the entry's count is the number of live `TableLock`s on it, so that a
decrement never underflows; and a key's guard is held at most once. -/
theorem tableLock_mutual_exclusion {events : List (LockEvent τ)} {m : TableLockManager τ}
    (h : TableLockManager.empty.steps events = some m) :
    (∀ (i : ℕ) (l : TableLock τ), m.handles[i]? = some l → l.phase.live = true →
      m.locks[l.key]? = some l.entry ∧
      (m.entries l.entry).refCount = m.count Phase.live l.entry ∧
      0 < (m.entries l.entry).refCount) ∧
    (∀ (i j : ℕ) (l l' : TableLock τ), m.handles[i]? = some l → m.handles[j]? = some l' →
      l.phase.live = true → l'.phase.live = true → l.key = l'.key → l.entry = l'.entry) ∧
    (∀ (i j : ℕ) (l l' : TableLock τ), m.handles[i]? = some l → m.handles[j]? = some l' →
      l.phase = .holding → l'.phase = .holding → l.key = l'.key → i = j) := by
  have hm : m.Inv := TableLockManager.inv_empty.steps h
  have shared : ∀ (i j : ℕ) (l l' : TableLock τ), m.handles[i]? = some l →
      m.handles[j]? = some l' → l.phase.live = true → l'.phase.live = true → l.key = l'.key →
      l.entry = l'.entry := by
    intro i j l l' hi hj hl hl' hkey
    have hc := hm.current i l hi hl
    have hc' := hm.current j l' hj hl'
    rw [hkey, hc'] at hc
    exact (Option.some.inj hc).symm
  refine ⟨?_, shared, ?_⟩
  · intro i l hi hl
    refine ⟨hm.current i l hi hl, hm.refCount _, ?_⟩
    rw [hm.refCount]
    exact TableLockManager.count_pos hi hl
  · intro i j l l' hi hj hl hl' hkey
    have he := shared i j l l' hi hj (by rw [hl]; rfl) (by rw [hl']; rfl) hkey
    exact hm.holder_unique hi hj (by rw [hl]; rfl) (by rw [hl']; rfl) he

/-- A run in which the first `TableLock` is dropped, the second revives the entry between the
two steps of that drop and gets the guard, and the third waits for it. -/
def revivedRun : List (LockEvent ℕ) :=
  [.lockFor 0 "t", .act 0 .wait, .act 0 .acquire, .act 0 .unlock, .act 0 .fetchSub,
    .lockFor 1 "t", .act 0 .removeIfUnused, .act 1 .wait, .act 1 .acquire,
    .lockFor 2 "t", .act 2 .wait]

theorem tableLock_mutual_exclusion_revived :
    ∃ m, TableLockManager.empty.steps revivedRun = some m ∧
      m.handles.map TableLock.phase = [.dropped, .holding, .waiting] ∧
      ∀ (i j : ℕ) (l l' : TableLock ℕ), m.handles[i]? = some l → m.handles[j]? = some l' →
        l.phase.live = true → l'.phase.live = true → l.key = l'.key → l.entry = l'.entry := by
  have hrun : (TableLockManager.empty.steps revivedRun).map
      (fun m => m.handles.map TableLock.phase) = some [.dropped, .holding, .waiting] := rfl
  obtain ⟨m, hm, hphases⟩ := Option.map_eq_some_iff.1 hrun
  exact ⟨m, hm, hphases, (tableLock_mutual_exclusion hm).2.1⟩

end DeltaTxn
