import DeltaTxn.Proof.TableLock

/-!
# The lock table does not leak

A decrement to zero and the removal it calls for are two steps, and the removal does nothing
if the entry is in use again by then. So an entry may outlive the removal of one `TableLock`,
but then another one's is still to come.

* `TableLockManager.Swept`: an entry in the map whose count is zero has a removal pending.
* `Swept.step`: every step keeps it.
* `removeIfUnused_erases`: what a removal may take out of the map.
* `lock_table_no_leak`: what follows in every state reachable by any steps.
-/

namespace DeltaTxn

namespace TableLockManager

variable {τ : Type} {m m' : TableLockManager τ} {h : ℕ} {l : TableLock τ} {k : String} {e : ℕ}

/-- A removal of the entry `e` under the key `k` is still to come. -/
def Pending (m : TableLockManager τ) (k : String) (e : ℕ) : Prop :=
  ∃ l ∈ m.handles, l.phase = .removing ∧ l.key = k ∧ l.entry = e

/-- **No entry is forgotten**: each is in the map under one key only, and one whose count is
zero has a removal pending. -/
structure Swept (m : TableLockManager τ) : Prop where
  inv : m.Inv
  oneKey : ∀ (k k' : String) (e : ℕ), m.locks[k]? = some e → m.locks[k']? = some e → k = k'
  pending : ∀ (k : String) (e : ℕ), m.locks[k]? = some e → (m.entries e).refCount = 0 → m.Pending k e

/-! ## Pending removals -/

/-- A removal stays pending while another `TableLock` moves. -/
theorem Pending.set (hp : m.Pending k e) (hl : m.handles[h]? = some l)
    (hne : l.phase = .removing → l.key = k → l.entry ≠ e) {l' : TableLock τ}
    (hm : m'.handles = m.handles.set h l') : m'.Pending k e := by
  obtain ⟨r, hr, hphase, hkey, hentry⟩ := hp
  obtain ⟨j, hj⟩ := List.mem_iff_getElem?.1 hr
  have hjh : h ≠ j := by
    rintro rfl
    rw [hl] at hj
    cases hj
    exact hne hphase hkey hentry
  refine ⟨r, List.mem_iff_getElem?.2 ⟨j, ?_⟩, hphase, hkey, hentry⟩
  rw [hm, List.getElem?_set_ne hjh]
  exact hj

theorem Pending.append (hp : m.Pending k e) {l' : TableLock τ} (hm : m'.handles = m.handles ++ [l']) :
    m'.Pending k e := by
  obtain ⟨r, hr, hrem⟩ := hp
  exact ⟨r, hm ▸ List.mem_append_left _ hr, hrem⟩

/-! ## Steps -/

theorem swept_empty : (empty : TableLockManager τ).Swept where
  inv := inv_empty
  oneKey := by simp [empty]
  pending := by simp [empty]

/-- A `TableLock` that moves without touching the map, and leaves no entry in it with a count
of zero that had another count before. -/
theorem Swept.move (hm : m.Swept) (hinv : m'.Inv) (hl : m.handles[h]? = some l)
    (hphase : l.phase ≠ .removing) {l' : TableLock τ} (hlocks : m'.locks = m.locks)
    (hhandles : m'.handles = m.handles.set h l')
    (hzero : ∀ k e, m.locks[k]? = some e → (m'.entries e).refCount = 0 →
      (m.entries e).refCount = 0 ∨ m'.Pending k e) : m'.Swept where
  inv := hinv
  oneKey := by
    rw [hlocks]
    exact hm.oneKey
  pending := by
    intro k e hk hcount
    rw [hlocks] at hk
    rcases hzero k e hk hcount with hc | hp
    · exact (hm.pending k e hk hc).set hl (fun hr => absurd hr hphase) hhandles
    · exact hp

theorem refCount_modifyEntry {f : LockEntry → LockEntry} (hf : ∀ x, (f x).refCount = x.refCount)
    (e e' : ℕ) : ((m.modifyEntry e f).entries e').refCount = (m.entries e').refCount := by
  by_cases he : e' = e
  · subst he
    simp [modifyEntry, hf]
  · simp [modifyEntry, he]

/-- **A removal** that takes an entry out of the map was called for by its own `TableLock`, for
the entry in the map under its own key, and no live `TableLock` is on that entry. -/
theorem removeIfUnused_erases (hm : m.Inv) {key : String} {e : ℕ} (k : String)
    (hk : (m.removeIfUnused key e).locks[k]? ≠ m.locks[k]?) :
    k = key ∧ m.locks[k]? = some e ∧ (m.removeIfUnused key e).locks[k]? = none ∧
      ∀ l ∈ m.handles, l.phase.live = true → l.entry ≠ e := by
  unfold removeIfUnused at hk ⊢
  split at hk
  · rename_i hrem
    obtain ⟨hkey, hzero⟩ := hrem
    rw [Std.ExtTreeMap.getElem?_erase] at hk
    split at hk
    · rename_i hcmp
      rw [Std.LawfulEqCmp.compare_eq_iff_eq] at hcmp
      subst hcmp
      refine ⟨rfl, hkey, by rw [if_pos ⟨hkey, hzero⟩]; simp, ?_⟩
      rintro l hl hlive rfl
      obtain ⟨h, hh⟩ := List.mem_iff_getElem?.1 hl
      have hpos := count_pos hh hlive
      rw [← hm.refCount, hzero] at hpos
      exact absurd hpos (Nat.lt_irrefl 0)
    · exact absurd rfl hk
  · exact absurd rfl hk

/-- The removal itself: what it leaves in the map with a count of zero is not its own entry. -/
theorem Swept.removeIfUnused (hm : m.Swept) (hl : m.handles[h]? = some l)
    (hs : m.stepAt h l .removeIfUnused = some m') : m'.Swept := by
  have hinv : m'.Inv := hm.inv.stepAt hl hs
  obtain ⟨-, ⟨⟩⟩ := Option.ite_none_right_eq_some.1 hs
  have hhandles : ((m.removeIfUnused l.key l.entry).setPhase h l .dropped).handles =
      m.handles.set h { l with phase := .dropped } := by
    unfold TableLockManager.removeIfUnused setPhase
    split <;> rfl
  have hentries : ((m.removeIfUnused l.key l.entry).setPhase h l .dropped).entries = m.entries := by
    unfold TableLockManager.removeIfUnused setPhase
    split <;> rfl
  -- what is in the map afterwards was there before, and is not what this removal is for
  have hlocks : ∀ k e, (m.removeIfUnused l.key l.entry).locks[k]? = some e → m.locks[k]? = some e ∧
      ((m.entries e).refCount = 0 → l.key = k → l.entry ≠ e) := by
    intro k e hk
    by_cases hsame : (m.removeIfUnused l.key l.entry).locks[k]? = m.locks[k]?
    · rw [hsame] at hk
      refine ⟨hk, ?_⟩
      rintro hzero rfl rfl
      unfold TableLockManager.removeIfUnused at hsame
      rw [if_pos ⟨hk, hzero⟩, hk] at hsame
      simp at hsame
    · rw [(removeIfUnused_erases hm.inv k hsame).2.2.1] at hk
      cases hk
  refine ⟨hinv, ?_, ?_⟩
  · intro k k' e hk hk'
    exact hm.oneKey k k' e (hlocks k e hk).1 (hlocks k' e hk').1
  · intro k e hk hcount
    rw [hentries] at hcount
    obtain ⟨hk, hne⟩ := hlocks k e hk
    exact (hm.pending k e hk hcount).set hl (fun _ => hne hcount) hhandles

theorem Swept.stepAt (hm : m.Swept) (hl : m.handles[h]? = some l) {a : LockAction}
    (hs : m.stepAt h l a = some m') : m'.Swept := by
  have hinv : m'.Inv := hm.inv.stepAt hl hs
  cases a with
  | wait =>
    obtain ⟨hph, ⟨⟩⟩ := Option.ite_none_right_eq_some.1 hs
    exact hm.move hinv hl (by rw [hph]; decide) rfl rfl fun _ _ _ hc => Or.inl hc
  | acquire =>
    obtain ⟨⟨hph, -⟩, ⟨⟩⟩ := Option.ite_none_right_eq_some.1 hs
    refine hm.move hinv hl (by rw [hph]; decide) rfl rfl fun k e _ hc => Or.inl ?_
    have hsame := refCount_modifyEntry (m := m) (f := fun x => { x with mutex := true })
      (fun _ => rfl) l.entry e
    exact hsame ▸ hc
  | unlock =>
    obtain ⟨hph, ⟨⟩⟩ := Option.ite_none_right_eq_some.1 hs
    refine hm.move hinv hl (by rw [hph]; decide) rfl rfl fun k e _ hc => Or.inl ?_
    have hsame := refCount_modifyEntry (m := m) (f := fun x => { x with mutex := false })
      (fun _ => rfl) l.entry e
    exact hsame ▸ hc
  | fetchSub =>
    obtain ⟨hph, ⟨⟩⟩ := Option.ite_none_right_eq_some.1 hs
    have hlive : l.phase.live = true := by rcases hph with hph | hph <;> rw [hph] <;> rfl
    refine hm.move hinv hl (by rcases hph with hph | hph <;> rw [hph] <;> decide) rfl rfl ?_
    intro k e hk hc
    by_cases he : e = l.entry
    · -- the count fell to zero, so this was the last one, and its removal is to come
      subst he
      have hcur := hm.inv.current h l hl hlive
      have hpos := count_pos hl hlive
      rw [← hm.inv.refCount] at hpos
      have hone : (m.entries l.entry).refCount = 1 := by
        simp only [setPhase, modifyEntry, Function.update_self, DeltaTxn.fetchSub] at hc
        split at hc <;> omega
      obtain ⟨hlen, -⟩ := List.getElem?_eq_some_iff.1 hl
      refine Or.inr ⟨{ l with phase := .removing }, ?_, rfl, hm.oneKey l.key k l.entry hcur hk, rfl⟩
      simp only [setPhase, modifyEntry, hone, if_true]
      exact List.mem_set hlen _
    · left
      simpa only [setPhase, modifyEntry, Function.update_of_ne he] using hc
  | removeIfUnused => exact hm.removeIfUnused hl hs

/-- A new `TableLock` counts on an entry that is in the map, new or not. -/
theorem Swept.lockFor (hm : m.Swept) (task : τ) (key : String) : (m.lockFor task key).Swept := by
  have hinv := hm.inv.lockFor task key
  obtain ⟨e₀, hhandles⟩ := lockFor_handles m task key
  unfold TableLockManager.lockFor TableLockManager.entryOrInsert TableLockManager.addHandle at hinv hhandles ⊢
  cases hkey : m.locks[key]? with
  | some e₁ =>
    simp only [hkey] at hinv hhandles ⊢
    refine ⟨hinv, hm.oneKey, ?_⟩
    intro k e hk hcount
    refine (hm.pending k e hk ?_).append hhandles
    by_cases he : e = e₁
    · subst he
      simp [modifyEntry] at hcount
    · simpa [modifyEntry, he] using hcount
  | none =>
    simp only [hkey] at hinv hhandles ⊢
    -- the new entry is in the map under this key only, and is counted once
    have hold : ∀ k e, (m.locks.insert key m.nextEntry)[k]? = some e →
        (k = key ∧ e = m.nextEntry) ∨ (e < m.nextEntry ∧ m.locks[k]? = some e) := by
      intro k e hk
      rw [Std.ExtTreeMap.getElem?_insert] at hk
      split at hk
      · rename_i hcmp
        rw [Std.LawfulEqCmp.compare_eq_iff_eq] at hcmp
        cases hk
        exact Or.inl ⟨hcmp.symm, rfl⟩
      · exact Or.inr ⟨hm.inv.mapAlloc k e hk, hk⟩
    refine ⟨hinv, ?_, ?_⟩
    · intro k k' e hk hk'
      rcases hold k e hk with ⟨rfl, rfl⟩ | ⟨hlt, hk⟩
      · rcases hold k' _ hk' with ⟨rfl, -⟩ | ⟨hlt, -⟩
        · rfl
        · exact absurd hlt (Nat.lt_irrefl _)
      · rcases hold k' e hk' with ⟨-, rfl⟩ | ⟨-, hk'⟩
        · exact absurd hlt (Nat.lt_irrefl _)
        · exact hm.oneKey k k' e hk hk'
    · intro k e hk hcount
      rcases hold k e hk with ⟨-, rfl⟩ | ⟨hlt, hk⟩
      · simp [modifyEntry] at hcount
      · refine (hm.pending k e hk ?_).append hhandles
        simpa [modifyEntry, Nat.ne_of_lt hlt] using hcount

/-- **Every step keeps every unused entry's removal pending.** -/
theorem Swept.step (hm : m.Swept) {e : LockEvent τ} (hs : m.step e = some m') : m'.Swept := by
  cases e with
  | lockFor task key =>
    cases hs
    exact hm.lockFor task key
  | act h a =>
    obtain ⟨l, hl, hs⟩ := Option.bind_eq_some_iff.1 hs
    exact hm.stepAt hl hs

theorem Swept.steps {es : List (LockEvent τ)} (hm : m.Swept) (hs : m.steps es = some m') :
    m'.Swept := by
  induction es generalizing m with
  | nil =>
    cases hs
    exact hm
  | cons e es ih =>
    obtain ⟨n, hn, hs⟩ := Option.bind_eq_some_iff.1 hs
    exact ih (hm.step hn) hs

/-- When nothing is live and no removal is to come, the map is empty. -/
theorem Swept.locks_eq_empty (hm : m.Swept) (hdropped : ∀ l ∈ m.handles, l.phase = .dropped) :
    m.locks = ∅ := by
  refine Std.ExtTreeMap.ext_getElem? fun k => ?_
  cases hk : m.locks[k]? with
  | none => simp
  | some e =>
    have hzero : (m.entries e).refCount = 0 := by
      rw [hm.inv.refCount]
      unfold count
      rw [List.countP_eq_zero]
      intro l hl
      simp [hdropped l hl, Phase.live]
    obtain ⟨l, hl, hphase, -⟩ := hm.pending k e hk hzero
    rw [hdropped l hl] at hphase
    cases hphase

end TableLockManager

/-! ## No leak, no eviction -/

variable {τ : Type}

/-- **The lock table does not leak and evicts nothing in use.** In every state that any steps of
any tasks lead to: an entry in the map whose count is zero has a removal of exactly that entry
pending; a removal takes out of the map at most its own entry under its own key, and only if
no live `TableLock` is on it; and if every `TableLock` is dropped, the map is empty. -/
theorem lock_table_no_leak {events : List (LockEvent τ)} {m : TableLockManager τ}
    (h : TableLockManager.empty.steps events = some m) :
    (∀ (k : String) (e : ℕ), m.locks[k]? = some e → (m.entries e).refCount = 0 →
      ∃ l ∈ m.handles, l.phase = .removing ∧ l.key = k ∧ l.entry = e) ∧
    (∀ (i : ℕ) (l : TableLock τ) (m' : TableLockManager τ), m.handles[i]? = some l →
      m.step (.act i .removeIfUnused) = some m' → ∀ k : String, m'.locks[k]? ≠ m.locks[k]? →
      k = l.key ∧ m.locks[k]? = some l.entry ∧ m'.locks[k]? = none ∧
        ∀ l' ∈ m.handles, l'.phase.live = true → l'.entry ≠ l.entry) ∧
    ((∀ l ∈ m.handles, l.phase = .dropped) → m.locks = ∅) := by
  have hm : m.Swept := TableLockManager.swept_empty.steps h
  refine ⟨hm.pending, ?_, hm.locks_eq_empty⟩
  intro i l m' hl hs k hk
  obtain ⟨l', hl', hs⟩ := Option.bind_eq_some_iff.1 hs
  obtain rfl := Option.some.inj (hl.symm.trans hl')
  obtain ⟨-, ⟨⟩⟩ := Option.ite_none_right_eq_some.1 hs
  exact TableLockManager.removeIfUnused_erases hm.inv k hk

/-- A run in which the last `TableLock` of a key is decremented and its removal is still to
come, and the rest of that run. -/
def sweptRun : List (LockEvent ℕ) :=
  [.lockFor 0 "t", .lockFor 1 "t", .act 0 .fetchSub, .act 1 .fetchSub]

theorem lock_table_no_leak_swept :
    (∃ m, TableLockManager.empty.steps sweptRun = some m ∧ m.locks["t"]? = some 0 ∧
      ∃ l ∈ m.handles, l.phase = .removing ∧ l.key = "t" ∧ l.entry = 0) ∧
    ∃ m, TableLockManager.empty.steps (sweptRun ++ [.act 1 .removeIfUnused]) = some m ∧
      m.locks = ∅ := by
  constructor
  · have hrun : (TableLockManager.empty.steps sweptRun).map
        (fun m => (m.locks["t"]?, (m.entries 0).refCount)) = some (some 0, 0) := rfl
    obtain ⟨m, hm, hlocks⟩ := Option.map_eq_some_iff.1 hrun
    obtain ⟨hkey, hzero⟩ := Prod.mk.inj hlocks
    exact ⟨m, hm, hkey, (lock_table_no_leak hm).1 "t" 0 hkey hzero⟩
  · have hrun : (TableLockManager.empty.steps (sweptRun ++ [.act 1 .removeIfUnused])).map
        (fun m => m.handles.map TableLock.phase) = some [.dropped, .dropped] := rfl
    obtain ⟨m, hm, hphases⟩ := Option.map_eq_some_iff.1 hrun
    refine ⟨m, hm, (lock_table_no_leak hm).2.2 fun l hl => ?_⟩
    have hmem : l.phase ∈ m.handles.map TableLock.phase := List.mem_map_of_mem hl
    rw [hphases] at hmem
    simpa using hmem

end DeltaTxn
