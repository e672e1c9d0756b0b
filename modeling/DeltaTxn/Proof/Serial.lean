import DeltaTxn.Proof.Races
import DeltaTxn.Proof.TableLock

/-!
# Commits of one process are serialized

With one process as the only writer, a Commit that holds a table's guard sees the table's log
stand still between its own steps. So its write lands where it expects, right after the
version it has seen, and every entry belongs to the one answer that names it. A write that answers an
error is assumed to have written nothing.

* `Rely`: what a request may assume of the steps of all others.
* `exec_guar`: what each call of a request has to respect, so that they may assume it.
* `commit_wp`: a Commit, verified against `Rely`.
* `commits_serialized`: what follows for all of them, in every reachable state.
-/

namespace DeltaTxn

open Conc

variable {ι : Type}

namespace Serial

/-- The locks of the one process. -/
abbrev locksOf (w : World Unit ι) : TableLockManager ι := w.locks ()

/-- Request `i` holds the guard of the table at `url`. -/
def Holds (i : ι) (url : Url) (w : World Unit ι) : Prop :=
  ∃ (h : ℕ) (l : TableLock ι), (locksOf w).handles[h]? = some l ∧ l.task = i ∧ l.phase = .holding ∧
    l.key = url.asStr

/-- Request `i` has no entry in any log. -/
def NoEntry (i : ι) (w : World Unit ι) : Prop :=
  ∀ url n e, w.log url n = some e → e.author ≠ some i

/-- **The invariant**: the lock table is consistent, and no log has a gap. -/
structure Inv (w : World Unit ι) : Prop where
  locks : (locksOf w).Inv
  contiguous : ∀ url, (w.log url).Contiguous

/-- **What request `i` relies on**: others leave its `TableLock`s alone, do not write to a
table whose guard it holds, never remove an entry, and never write one in its name. -/
structure Rely (i : ι) (w w' : World Unit ι) : Prop where
  own : ∀ (h : ℕ) (l : TableLock ι), (locksOf w).handles[h]? = some l → l.task = i →
    (locksOf w').handles[h]? = some l
  frozen : ∀ url, Holds i url w → w'.log url = w.log url
  persist : ∀ url n e, w.log url n = some e → w'.log url n = some e
  mine : ∀ url n e, w'.log url n = some e → e.author = some i → w.log url n = some e

variable {i : ι} {w w' w'' : World Unit ι} {url : Url}

theorem Holds.stable (h : Holds i url w) (hr : Rely i w w') : Holds i url w' := by
  obtain ⟨n, l, hl, htask, hphase, hkey⟩ := h
  exact ⟨n, l, hr.own n l hl htask, htask, hphase, hkey⟩

theorem NoEntry.stable (h : NoEntry i w) (hr : Rely i w w') : NoEntry i w' := by
  intro url n e he hi
  exact h url n e (hr.mine url n e he hi) hi

theorem Rely.refl (i : ι) (w : World Unit ι) : Rely i w w :=
  ⟨fun _ _ h _ => h, fun _ _ => rfl, fun _ _ _ h => h, fun _ _ _ h _ => h⟩

theorem Rely.trans (h : Rely i w w') (h' : Rely i w' w'') : Rely i w w'' where
  own n l hl ht := h'.own n l (h.own n l hl ht) ht
  frozen url hu := (h'.frozen url (hu.stable h)).trans (h.frozen url hu)
  persist url n e he := h'.persist url n e (h.persist url n e he)
  mine url n e he hi := h.mine url n e (h'.mine url n e he hi) hi

/-! ## Guarantees -/

/-- A change of the locks that leaves the `TableLock`s of `i` alone. -/
theorem rely_setLocks {m : TableLockManager ι}
    (hm : ∀ (h : ℕ) (l : TableLock ι), (locksOf w).handles[h]? = some l → l.task = i →
      m.handles[h]? = some l) :
    Rely i w (w.setLocks () m) where
  own h l hl ht := by
    have hlocks : locksOf (w.setLocks () m) = m := World.locks_setLocks w () m
    rw [hlocks]
    exact hm h l hl ht
  frozen _ _ := rfl
  persist _ _ _ h := h
  mine _ _ _ h _ := h

theorem inv_setLocks (h : Inv w) {m : TableLockManager ι} (hm : m.Inv) :
    Inv (w.setLocks () m) where
  locks := by
    have hlocks : locksOf (w.setLocks () m) = m := World.locks_setLocks w () m
    rw [hlocks]
    exact hm
  contiguous := h.contiguous

/-- Two requests do not hold one guard. -/
theorem Holds.unique (hw : Inv w) {j : ι} (hi : Holds i url w) (hj : Holds j url w) : i = j := by
  obtain ⟨n, l, hl, rfl, hphase, hkey⟩ := hi
  obtain ⟨n', l', hl', rfl, hphase', hkey'⟩ := hj
  have hc := hw.locks.current n l hl (by rw [hphase]; rfl)
  have hc' := hw.locks.current n' l' hl' (by rw [hphase']; rfl)
  rw [hkey, ← hkey', hc'] at hc
  have hn := hw.locks.holder_unique hl hl' (by rw [hphase]; rfl) (by rw [hphase']; rfl)
    (Option.some.inj hc).symm
  subst hn
  rw [hl] at hl'
  rw [Option.some.inj hl']

/-- A write at the end of the log, or at version 0. -/
theorem contiguous_put {g : Log ι} (hg : g.Contiguous) {n : Version} (hn : g n = none)
    (hend : n = 0 ∨ ∃ v, (g v).isSome = true ∧ n = v + 1) (e : LogEntry ι) :
    Log.Contiguous (Function.update g n (some e)) := by
  intro a b hab hb
  by_cases ha : a = n
  · subst ha; simp
  rw [Function.update_of_ne ha]
  by_cases hbn : b = n
  · subst hbn
    rcases hend with rfl | ⟨v, hv, rfl⟩
    · exact absurd (UInt64.le_zero_iff.1 hab) ha
    · -- Below `v + 1` means up to `v`, since `v + 1` does not wrap: version 0 is not free.
      have hv1 : v.toNat + 1 < 2 ^ 64 := by
        by_contra hmax
        have hzero : v + 1 = 0 := by
          rw [← UInt64.toNat_inj, UInt64.toNat_add]
          have hlt := v.toNat_lt
          have h1 : (1 : UInt64).toNat = 1 := rfl
          have h0 : (0 : UInt64).toNat = 0 := rfl
          omega
        rw [hzero] at hn
        have h0 := hg 0 v (UInt64.zero_le) hv
        rw [hn] at h0
        cases h0
      refine hg a v ?_ hv
      have hsucc : (v + 1).toNat = v.toNat + 1 := by
        rw [UInt64.toNat_add]
        exact Nat.mod_eq_of_lt hv1
      rw [UInt64.le_iff_toNat_le] at hab ⊢
      have hne : a.toNat ≠ (v + 1).toNat := fun h => ha (UInt64.toNat_inj.1 h)
      omega
  · rw [Function.update_of_ne hbn] at hb
    exact hg a b hab hb

/-- The proof outline of one process. -/
def outline (S : Setting Unit ι) : Config.Outline S.machine where
  inv := Inv
  rely := Rely
  rely_refl := Rely.refl
  rely_trans := Rely.trans
  drop_ok := by
    rintro i w w' hw ⟨n, l, a, m, hl, rfl, -, hs, rfl⟩
    refine ⟨inv_setLocks hw (hw.locks.stepAt hl hs), fun j hj => rely_setLocks ?_⟩
    intro n' l' hl' ht
    obtain ⟨phase, hphase⟩ := TableLockManager.stepAt_handles hs
    rw [hphase, List.getElem?_set_ne]
    · exact hl'
    · rintro rfl
      rw [hl] at hl'
      obtain rfl := Option.some.inj hl'
      exact hj ht.symm

variable {S : Setting Unit ι} {α : Type} {Q : α → World Unit ι → Prop} {g : Log ι}
  {actions : List Kernel.Action}

/-- What request `i` knows while it holds the guard of the table at `url`, whose log is `g`. -/
structure Locked (i : ι) (url : Url) (g : Log ι) (w : World Unit ι) : Prop where
  noEntry : NoEntry i w
  holds : Holds i url w
  log : w.log url = g

theorem Locked.stable (h : Locked i url g w) (hr : Rely i w w') : Locked i url g w' :=
  ⟨h.noEntry.stable hr, h.holds.stable hr, (hr.frozen url h.holds).trans h.log⟩

/-- The one entry of request `i`, which was handed over as `actions`. -/
structure Committed (i : ι) (url : Url) (actions : List Kernel.Action) (n : Version)
    (w : World Unit ι) : Prop where
  entry : ∃ logged, Logged actions logged ∧ w.log url n = some ⟨some i, logged⟩
  only : ∀ u m e, w.log u m = some e → e.author = some i → u = url ∧ m = n

theorem Committed.stable {n : Version} (h : Committed i url actions n w) (hr : Rely i w w') :
    Committed i url actions n w' := by
  obtain ⟨⟨logged, hlogged, hentry⟩, honly⟩ := h
  exact ⟨⟨logged, hlogged, hr.persist _ _ _ hentry⟩,
    fun u m e he hi => honly u m e (hr.mine u m e he hi) hi⟩

/-! ## Single calls -/

/-- **A call that only reads.** -/
theorem wp_read {o : Op} {k : Ans o → Prog Op Ans α} {P : World Unit ι → Prop} {F : Ans o → Prop}
    (hst : ∀ w w', P w → Rely i w w' → P w')
    (hread : ∀ b w w', P w → S.Exec i o b w w' → w' = w ∧ F b)
    (hk : ∀ b w, F b → P w → Prog.wp ((outline S).rules i) (k b) Q w) (hP : P w) :
    Prog.wp ((outline S).rules i) (.op o k) Q w := by
  refine Prog.wp_op P hst ?_ hP
  rintro w b w' hw ⟨hinv, hx⟩
  obtain ⟨rfl, hF⟩ := hread b w w' hw hx
  exact ⟨⟨hinv, fun j _ => Rely.refl j w'⟩, hk b w' hF hw⟩

theorem latest_unique {v v' : Version} (hv : g.Latest v) (hv' : g.Latest v') : v = v' := by
  have not_later : ∀ {a b}, g.Latest a → g.Latest b → ¬ a < b := by
    intro a b ha hb hab
    have hsome := hb.1
    rw [ha.2 b hab] at hsome
    cases hsome
  exact UInt64.le_antisymm (UInt64.not_lt.1 (not_later hv' hv)) (UInt64.not_lt.1 (not_later hv hv'))

/-- Request `i` has a `TableLock` for the table at `url`, at `n`. -/
structure Waiting (i : ι) (url : Url) (n : ℕ) (w : World Unit ι) : Prop where
  noEntry : NoEntry i w
  handle : ∃ l, (locksOf w).handles[n]? = some l ∧ l.task = i ∧ l.key = url.asStr

theorem Waiting.stable {n : ℕ} (h : Waiting i url n w) (hr : Rely i w w') : Waiting i url n w' := by
  obtain ⟨hn, l, hl, htask, hkey⟩ := h
  exact ⟨hn.stable hr, l, hr.own n l hl htask, htask, hkey⟩

/-- **`lock_for`.** -/
theorem wp_lockFor {k : ℕ → Prog Op Ans α}
    (hk : ∀ n w, Waiting i url n w → Prog.wp ((outline S).rules i) (k n) Q w) (h : NoEntry i w) :
    Prog.wp ((outline S).rules i) (.op (.lockFor url.asStr) k) Q w := by
  refine Prog.wp_op (NoEntry i) (fun _ _ hn hr => hn.stable hr) ?_ h
  rintro w n w' hn ⟨hinv, rfl, rfl⟩
  obtain ⟨e, he⟩ := (locksOf w).lockFor_handles i url.asStr
  refine ⟨⟨inv_setLocks hinv (hinv.locks.lockFor i url.asStr), fun j _ => rely_setLocks ?_⟩,
    hk _ _ ⟨hn, ⟨i, url.asStr, e, .idle⟩, ?_, rfl, rfl⟩⟩
  · intro m l hl _
    rw [he, List.getElem?_append_left (List.getElem?_eq_some_iff.1 hl).1]
    exact hl
  · have hlocks : locksOf (w.setLocks () ((locksOf w).lockFor i url.asStr)) =
        (locksOf w).lockFor i url.asStr := World.locks_setLocks w () _
    change (locksOf (w.setLocks () ((locksOf w).lockFor i url.asStr))).handles[
      (locksOf w).handles.length]? = _
    rw [hlocks, he]
    simp

/-- **`lock`.** -/
theorem wp_lock {n : ℕ} {k : Unit → Prog Op Ans α}
    (hk : ∀ g w, Locked i url g w → Prog.wp ((outline S).rules i) (k ()) Q w)
    (h : Waiting i url n w) : Prog.wp ((outline S).rules i) (.op (.lock n) k) Q w := by
  refine Prog.wp_op (Waiting i url n) (fun _ _ hn hr => hn.stable hr) ?_ h
  rintro w ⟨⟩ w' ⟨hn, l, hl, htask, hkey⟩ ⟨hinv, m, hm, rfl⟩
  have hhandles := TableLockManager.steps_acquire hl hm
  have hlen := (List.getElem?_eq_some_iff.1 hl).1
  refine ⟨⟨inv_setLocks hinv (hinv.locks.steps hm), fun j hj => rely_setLocks ?_⟩,
    hk _ _ ⟨hn, ⟨n, { l with phase := .holding }, ?_, htask, rfl, hkey⟩, rfl⟩⟩
  · intro n' l' hl' htask'
    rw [hhandles, List.getElem?_set_ne]
    · exact hl'
    · rintro rfl
      rw [hl] at hl'
      obtain rfl := Option.some.inj hl'
      exact hj (htask'.symm.trans htask)
  · have hlocks : locksOf (w.setLocks () m) = m := World.locks_setLocks w () m
    change (locksOf (w.setLocks () m)).handles[n]? = _
    rw [hlocks, hhandles, List.getElem?_set_self hlen]

/-- The next version is the one that is tried first, for a log that ends where the write
starts from. -/
theorem lands_firstTry {base : Option Version} {n : Version}
    (hbase : (base = none ∧ ∀ n, g n = none) ∨ ∃ v, base = some v ∧ g.Latest v)
    (hn : g.Lands base n) : n = Log.firstTry base := by
  obtain ⟨-, h | ⟨htaken, v', hv', rfl⟩⟩ := hn
  · exact h
  rcases hbase with ⟨rfl, hempty⟩ | ⟨v, rfl, hv⟩
  · rw [hempty] at htaken
    cases htaken
  · rw [latest_unique hv' hv]
    rfl

/-- **The write**, made under the guard from the end of the log. -/
theorem wp_write (hlate : S.lateErrors = false) (base : Option Version) {op : DeltaOperation}
    {k : Except DeltaTableError Version → Prog Op Ans α}
    (hbase : (base = none ∧ ∀ n, g n = none) ∨ ∃ v, base = some v ∧ g.Latest v)
    (hok : ∀ w, Committed i url actions (Log.firstTry base) w →
      Prog.wp ((outline S).rules i) (k (.ok (Log.firstTry base))) Q w)
    (herr : ∀ e w, Locked i url g w → Prog.wp ((outline S).rules i) (k (.error e)) Q w)
    (h : Locked i url g w) :
    Prog.wp ((outline S).rules i) (.op (.commitBuilder url base actions op) k) Q w := by
  refine Prog.wp_op (Locked i url g) (fun _ _ hl hr => hl.stable hr) ?_ h
  rintro w b w' hl ⟨hinv, hx⟩
  cases b with
  | error e =>
    rcases hx with ⟨rfl, -⟩ | ⟨hlate', -⟩
    · exact ⟨⟨hinv, fun j _ => Rely.refl j w'⟩, herr e w' hl⟩
    · rw [hlate] at hlate'
      cases hlate'
  | ok n =>
    obtain ⟨hland, logged, hlogged, rfl⟩ := hx
    rw [hl.log] at hland
    obtain rfl := lands_firstTry hbase hland
    have hfree : w.log url (Log.firstTry base) = none := by rw [hl.log]; exact hland.1
    refine ⟨⟨⟨hinv.locks, fun u => ?_⟩, fun j hj => ⟨fun _ _ h _ => h, ?_, ?_, ?_⟩⟩, hok _ ⟨?_, ?_⟩⟩
    · by_cases hu : u = url
      · subst hu
        -- the log of this table grows by the version after its last
        simp only [World.put, Function.update_self]
        refine contiguous_put (hinv.contiguous u) hfree ?_ _
        rcases hbase with ⟨rfl, -⟩ | ⟨v, rfl, hv⟩
        · exact Or.inl rfl
        · exact Or.inr ⟨v, by rw [hl.log]; exact hv.1, rfl⟩
      · simp only [World.put, Function.update_of_ne hu]
        exact hinv.contiguous u
    · intro u hu
      have hne : u ≠ url := by
        -- only one request holds the guard of this table
        rintro rfl
        exact hj (hu.unique hinv hl.holds)
      simp only [World.put, Function.update_of_ne hne]
    · intro u m e he
      rw [World.put_log, if_neg]
      · exact he
      · rintro ⟨rfl, rfl⟩
        rw [hfree] at he
        cases he
    · intro u m e he hauth
      rw [World.put_log] at he
      split at he
      · cases he
        exact absurd (Option.some.inj hauth).symm hj
      · exact he
    · exact ⟨logged, hlogged, by rw [World.put_log, if_pos ⟨rfl, rfl⟩]⟩
    · intro u m e he hauth
      rw [World.put_log] at he
      split at he
      · assumption
      · exact absurd hauth (hl.noEntry u m e he)

/-! ## The parts of a Commit -/

theorem tableExists_wp {opts : HashMap String} {Q : Except DeltaTxnError Bool → World Unit ι → Prop}
    (hQ : ∀ r w, Locked i url g w →
      (∀ x, r = .ok x → (x = true ↔ ∃ n, (g n).isSome = true)) → Q r w)
    (h : Locked i url g w) : Prog.wp ((outline S).rules i) (tableExists url opts).run Q w := by
  have stable : ∀ w w', Locked i url g w → Rely i w w' → Locked i url g w' :=
    fun _ _ hl hr => hl.stable hr
  refine wp_read (F := fun _ => True) stable (fun b w w' _ hx => ⟨hx, trivial⟩) ?_ h
  intro b w _ hl
  cases b with
  | error e => exact fun w' hr => hQ _ w' (hl.stable hr) (by simp)
  | ok u =>
    refine wp_read (F := fun b => ∀ x, b = Except.ok x → (x = true ↔ ∃ n, (g n).isSome = true))
      stable ?_ ?_ hl
    · rintro b w w' hl ⟨rfl, hb⟩
      refine ⟨rfl, fun x hx => ?_⟩
      rw [hb x hx, hl.log]
    · intro b w hb hl w' hr
      refine hQ _ w' (hl.stable hr) fun x hx => ?_
      cases b with
      | error e => cases hx
      | ok y => cases hx; exact hb x rfl

theorem openTable_wp {opts : HashMap String}
    {Q : Except DeltaTxnError DeltaTable → World Unit ι → Prop}
    (hQ : ∀ r w, Locked i url g w →
      (∀ t, r = .ok t → t.url = url ∧ ∀ s, t.snapshot = .ok s → g.Latest s.version) → Q r w)
    (h : Locked i url g w) : Prog.wp ((outline S).rules i) (openTable url opts).run Q w := by
  refine wp_read (F := fun b => ∀ s, b = Except.ok (Except.ok s) → g.Latest s.version)
    (fun _ _ hl hr => hl.stable hr) ?_ ?_ h
  · rintro b w w' hl ⟨rfl, hb⟩
    refine ⟨rfl, fun s hs => ?_⟩
    rw [← hl.log]
    exact hb s hs
  · intro b w hb hl
    cases b with
    | error e => exact fun w' hr => hQ _ w' (hl.stable hr) (by simp)
    | ok snapshot =>
      intro w' hr
      refine hQ _ w' (hl.stable hr) fun t ht => ?_
      cases ht
      exact ⟨rfl, fun s hs => hb s (congrArg Except.ok hs)⟩

theorem commitActions_wp (hlate : S.lateErrors = false) {t : DeltaTable}
    {Q : Except DeltaTxnError Int64 → World Unit ι → Prop}
    (hurl : t.url = url) (hlatest : ∀ s, t.snapshot = .ok s → g.Latest s.version)
    (herr : ∀ e w, Locked i url g w → Q (.error e) w)
    (hok : ∀ s w, t.snapshot = .ok s → Committed i url actions (s.version + 1) w →
      Q (.ok (s.version + 1).toInt64) w)
    (h : Locked i url g w) :
    Prog.wp ((outline S).rules i) (commitActions t actions).run Q w := by
  obtain ⟨u, snapshot⟩ := t
  obtain rfl := hurl
  cases snapshot with
  | error e => exact fun w' hr => herr _ w' (h.stable hr)
  | ok s =>
    refine wp_write hlate (some s.version) (Or.inr ⟨_, rfl, hlatest s rfl⟩) ?_ ?_ h
    · exact fun w hc w' hr => hok s w' rfl (hc.stable hr)
    · exact fun e w hl w' hr => herr _ w' (hl.stable hr)

theorem createTable_wp (hlate : S.lateErrors = false) {opts : HashMap String} {p : Kernel.Protocol}
    {m : Kernel.Metadata} {Q : Except DeltaTxnError Int64 → World Unit ι → Prop} (hempty : ∀ n, g n = none)
    (herr : ∀ e w, Locked i url g w → Q (.error e) w)
    (hok : ∀ w, Committed i url actions 0 w → Q (.ok 0) w) (h : Locked i url g w) :
    Prog.wp ((outline S).rules i) (createTable url opts actions p m).run Q w := by
  refine wp_read (F := fun _ => True) (fun _ _ hl hr => hl.stable hr)
    (fun b w w' _ hx => ⟨hx, trivial⟩) ?_ h
  intro b w _ hl
  cases b with
  | error e => exact fun w' hr => herr _ w' (hl.stable hr)
  | ok u =>
    refine wp_write hlate none (Or.inl ⟨rfl, hempty⟩) ?_ ?_ hl
    · exact fun w hc w' hr => hok w' (hc.stable hr)
    · exact fun e w hl w' hr => herr _ w' (hl.stable hr)

/-! ## A Commit -/

/-- **What a request has done when it has answered.** -/
def Post (S : Setting Unit ι) (i : ι) : Except Status Pb.CommitResponse → World Unit ι → Prop
  | .ok resp, w => ∃ url n actions, S.resolve i (S.req i).tableUri = .ok url ∧
      mapActions S.cr (S.req i).actions = .ok actions ∧ resp.committedVersion = n.toInt64 ∧
      (∀ e, (S.req i).expectedVersion = some e → n.toInt64 = e + 1) ∧
      Committed i url actions n w
  | .error _, w => NoEntry i w

theorem Post.stable {a : Except Status Pb.CommitResponse} (h : Post S i a w) (hr : Rely i w w') :
    Post S i a w' := by
  cases a with
  | error e => exact NoEntry.stable h hr
  | ok resp =>
    obtain ⟨url, n, actions, hres, hmap, hresp, hexp, hc⟩ := h
    exact ⟨url, n, actions, hres, hmap, hresp, hexp, hc.stable hr⟩

/-- Where a part of the Commit has failed, the whole may end. -/
theorem Post.error_stable (st : Status) (w w' : World Unit ι) (h : Post S i (.error st) w)
    (hr : Rely i w w') : Post S i (.error st) w' :=
  h.stable hr

theorem checkExpectedVersion_ok {r : Pb.CommitRequest} {url : Url} {s : DeltaTableState} {e : Int64}
    (h : checkExpectedVersion r ⟨url, .ok s⟩ = .ok ()) (hr : r.expectedVersion = some e) :
    s.version.toInt64 = e := by
  unfold checkExpectedVersion at h
  rw [hr] at h
  simp only [DeltaTable.version] at h
  split at h
  · cases h
  · rename_i hne
    exact not_not.1 hne

theorem commitUpdate_wp (hlate : S.lateErrors = false) {srv : DeltaTxnGrpcServer}
    (hres : S.resolve i (S.req i).tableUri = .ok url)
    (hmap : mapActions S.cr (S.req i).actions = .ok actions) (h : Locked i url g w) :
    Prog.wp ((outline S).rules i) (commitUpdate srv (S.req i) url actions).run (Post S i) w := by
  unfold commitUpdate
  refine Fallible.wp_mapErr_bind Post.error_stable (openTable_wp ?_ h)
  intro r w hl ht
  cases r with
  | error e => exact hl.noEntry
  | ok t =>
    obtain ⟨hurl, hlatest⟩ := ht t rfl
    obtain ⟨u, snapshot⟩ := t
    obtain rfl := hurl
    change Prog.wp _ (liftM (checkExpectedVersion (S.req i) ⟨u, snapshot⟩) >>= _ :
      Eff Status Pb.CommitResponse).run _ w
    cases hcheck : checkExpectedVersion (S.req i) ⟨u, snapshot⟩ with
    | error st => exact fun w' hr => hl.noEntry.stable hr
    | ok x =>
      refine Fallible.wp_mapErr_bind Post.error_stable (commitActions_wp hlate rfl hlatest ?_ ?_ hl)
      · exact fun e w hl => hl.noEntry
      · intro s w hs hc w' hr
        refine ⟨u, s.version + 1, actions, hres, hmap, rfl, fun e he => ?_, hc.stable hr⟩
        simp only at hs
        subst hs
        rw [UInt64.toInt64_add, checkExpectedVersion_ok hcheck he]
        rfl

theorem commitCreate_wp (hlate : S.lateErrors = false) {srv : DeltaTxnGrpcServer}
    (hres : S.resolve i (S.req i).tableUri = .ok url)
    (hmap : mapActions S.cr (S.req i).actions = .ok actions) (hempty : ∀ n, g n = none)
    (h : Locked i url g w) :
    Prog.wp ((outline S).rules i) (commitCreate srv (S.req i) url actions).run (Post S i) w := by
  unfold commitCreate
  split
  · exact fun w' hr => h.noEntry.stable hr
  rename_i hexp
  split
  · refine Fallible.wp_mapErr_bind Post.error_stable (createTable_wp hlate hempty ?_ ?_ h)
    · exact fun e w hl => hl.noEntry
    · intro w hc w' hr
      refine ⟨url, 0, actions, hres, hmap, rfl, fun e he => ?_, hc.stable hr⟩
      rw [he] at hexp
      exact absurd rfl hexp
  · exact fun w' hr => h.noEntry.stable hr

theorem commitLocked_wp (hlate : S.lateErrors = false) {srv : DeltaTxnGrpcServer}
    (hres : S.resolve i (S.req i).tableUri = .ok url)
    (hmap : mapActions S.cr (S.req i).actions = .ok actions) (h : Locked i url g w) :
    Prog.wp ((outline S).rules i) (commitLocked srv (S.req i) url actions).run (Post S i) w := by
  unfold commitLocked
  refine Fallible.wp_mapErr_bind Post.error_stable (tableExists_wp ?_ h)
  intro r w hl hx
  cases r with
  | error e => exact hl.noEntry
  | ok x =>
    have hfound := hx x rfl
    cases x with
    | true => exact commitUpdate_wp hlate hres hmap hl
    | false =>
      refine commitCreate_wp hlate hres hmap (fun n => ?_) hl
      cases hn : g n with
      | none => rfl
      | some e => exact absurd (hfound.2 ⟨n, by rw [hn]; rfl⟩) (by simp)

/-- **A Commit**, from a world in which it has no entry. -/
theorem commit_wp (hlate : S.lateErrors = false) (h : NoEntry i w) :
    Prog.wp ((outline S).rules i) (S.program i) (Post S i) w := by
  have nstable : ∀ w w', NoEntry i w → Rely i w w' → NoEntry i w' := fun _ _ hn hr => hn.stable hr
  unfold Setting.program commit
  refine Fallible.wp_bind Post.error_stable ?_
  unfold normalizeAndCheckTableUri
  cases checkRawTableUri (S.srv (S.home i)) (S.req i).tableUri with
  | error st => exact fun w' hr => NoEntry.stable h hr
  | ok x =>
    refine wp_read (F := fun b => b = S.resolve i (S.req i).tableUri) nstable
      (fun b w w' _ hx => ⟨hx.2, hx.1⟩) ?_ h
    intro b w hb hn
    cases b with
    | error e => exact fun w' hr => NoEntry.stable hn hr
    | ok url =>
      change Prog.wp _ (liftM (checkTableUriAllowed (S.srv (S.home i)) url.asStr) >>= fun _ =>
        pure url : Eff Status Url).run _ w
      cases checkTableUriAllowed (S.srv (S.home i)) url.asStr with
      | error st => exact fun w' hr => NoEntry.stable hn hr
      | ok x =>
        intro w' hr
        change Prog.wp _ (liftM ((mapActions S.cr (S.req i).actions).mapError
          Status.invalidArgument) >>= _ : Eff Status Pb.CommitResponse).run _ w'
        cases hmap : mapActions S.cr (S.req i).actions with
        | error e => exact fun w'' hr' => (hn.stable hr).stable hr'
        | ok actions =>
          refine wp_lockFor (fun n w hw => ?_) (hn.stable hr)
          refine wp_lock (fun g w hl => ?_) hw
          exact commitLocked_wp hlate hb.symm hmap hl

/-- The postcondition only looks at the logs. -/
theorem Post.of_log {a : Except Status Pb.CommitResponse} (h : Post S i a w)
    (hlog : w'.log = w.log) : Post S i a w' := by
  cases a with
  | error e =>
    intro url n x hx
    rw [hlog] at hx
    exact h url n x hx
  | ok resp =>
    obtain ⟨url, n, actions, hres, hmap, hresp, hexp, ⟨logged, hlogged, hentry⟩, honly⟩ := h
    refine ⟨url, n, actions, hres, hmap, hresp, hexp, ⟨logged, hlogged, ?_⟩, fun u m e he => ?_⟩
    · rw [hlog]
      exact hentry
    · rw [hlog] at he
      exact honly u m e he

/-- In every reachable state the invariant holds, and every answer has its postcondition. -/
theorem verified [DecidableEq ι] (hlate : S.lateErrors = false)
    {log : Url → Version → Option (List Kernel.Action)}
    (hlog : ∀ url m n, m ≤ n → (log url n).isSome = true → (log url m).isSome = true) {c : S.State}
    (h : S.Reachable log c) :
    Inv c.shared ∧ ∀ i a, c.Answered i a → Post S i a c.shared := by
  have hinit : Inv (World.start log : World Unit ι) := by
    refine ⟨TableLockManager.inv_empty, fun url m n hmn hn => ?_⟩
    simp only [World.start, Option.isSome_map] at hn ⊢
    exact hlog url m n hmn hn
  have hnone : ∀ i : ι, NoEntry i (World.start log : World Unit ι) := by
    intro i url n e he
    simp only [World.start, Option.map_eq_some_iff] at he
    obtain ⟨_, -, rfl⟩ := he
    intro hcontra
    cases hcontra
  have hdrop : ∀ i a w w', Post S i a w → (outline S).inv w → S.machine.drop i w w' →
      Post S i a w' := by
    rintro i a w w' hp - ⟨-, -, -, -, -, -, -, -, rfl⟩
    exact hp.of_log rfl
  have hstable : ∀ i a w w', Post S i a w → (outline S).rely i w w' → Post S i a w' :=
    fun _ _ _ _ hp hr => hp.stable hr
  have hall := Config.Reach.verified (outline S) hstable hdrop hinit
    (fun i => commit_wp hlate (hnone i)) h
  refine ⟨hall.1, fun i a ha => ?_⟩
  have hi := hall.2 i
  rwa [ha] at hi

end Serial

/-- **Commits of one process are serialized.** If the process is the only writer, a write that answers
an error has written nothing, and the logs had no gaps before, then in every reachable state: an OK
answer names a version that holds the request's mapped actions in order, after delta-rs's CommitInfo if
there is none among them, and it names `expected_version + 1` if that was set; two OK answers for one
table name different versions; no log has a gap; and a request that was answered with an error has no
entry. -/
theorem commits_serialized [DecidableEq ι] {S : Setting Unit ι} (hlate : S.lateErrors = false)
    {log : Url → Version → Option (List Kernel.Action)}
    (hlog : ∀ url m n, m ≤ n → (log url n).isSome = true → (log url m).isSome = true) {c : S.State}
    (h : S.Reachable log c) :
    (∀ i resp, c.Answered i (.ok resp) → ∃ url n actions logged,
      S.resolve i (S.req i).tableUri = .ok url ∧
      mapActions S.cr (S.req i).actions = .ok actions ∧
      resp.committedVersion = n.toInt64 ∧
      Logged actions logged ∧ c.shared.log url n = some ⟨some i, logged⟩ ∧
      (∀ u m e, c.shared.log u m = some e → e.author = some i → u = url ∧ m = n) ∧
      ∀ e, (S.req i).expectedVersion = some e → resp.committedVersion = e + 1) ∧
    (∀ i j resp resp', i ≠ j → c.Answered i (.ok resp) → c.Answered j (.ok resp') →
      S.resolve i (S.req i).tableUri = S.resolve j (S.req j).tableUri →
      resp.committedVersion ≠ resp'.committedVersion) ∧
    (∀ url, (c.shared.log url).Contiguous) ∧
    (∀ i st, c.Answered i (.error st) → ∀ url n e, c.shared.log url n = some e →
      e.author ≠ some i) := by
  obtain ⟨hinv, hpost⟩ := Serial.verified hlate hlog h
  refine ⟨?_, ?_, hinv.contiguous, fun i st ha => hpost i _ ha⟩
  · intro i resp ha
    obtain ⟨url, n, actions, hres, hmap, hresp, hexp, ⟨logged, hlogged, hentry⟩, honly⟩ := hpost i _ ha
    exact ⟨url, n, actions, logged, hres, hmap, hresp, hlogged, hentry, honly,
      fun e he => hresp.trans (hexp e he)⟩
  · intro i j resp resp' hij ha ha' hsame heq
    obtain ⟨url, n, actions, hres, -, hresp, -, ⟨logged, -, hentry⟩, -⟩ := hpost i _ ha
    obtain ⟨url', n', actions', hres', -, hresp', -, ⟨logged', -, hentry'⟩, -⟩ := hpost j _ ha'
    -- The same version of the same log would have two authors.
    rw [hres, hres'] at hsame
    cases hsame
    rw [hresp, hresp'] at heq
    have hn : n = n' := by
      rw [← UInt64.toUInt64_toInt64 n, heq, UInt64.toUInt64_toInt64]
    subst hn
    rw [hentry] at hentry'
    cases hentry'
    exact hij rfl

/-! ## Two requests at once -/

/-- One process gets a request that creates a table and, at the same time, `r`. -/
def pairSetting (r : Pb.CommitRequest) : Setting Unit Bool where
  cr := raceCrates
  srv _ := ⟨∅, none⟩
  home _ := ()
  resolve _ _ := .ok ⟨"s3://bucket/t"⟩
  req
    | true => raceRequest
    | false => r
  lateErrors := false

/-- The locks: the first holds it, the second comes for it, the first lets go of it, the second holds
it. -/
theorem pair_locks : ∃ (m₁ m₂ m₃ m₄ : TableLockManager Bool) (l : TableLock Bool),
    TableLockManager.empty.steps [.lockFor true "s3://bucket/t", .act 0 .wait, .act 0 .acquire] =
      some m₁ ∧
    m₁.handles.length = 1 ∧ m₂ = m₁.lockFor false "s3://bucket/t" ∧
    m₂.handles[0]? = some l ∧ l.task = true ∧ m₂.stepAt 0 l .unlock = some m₃ ∧
    m₃.steps [.act 1 .wait, .act 1 .acquire] = some m₄ := by
  obtain ⟨m₁, m₂, m₃, m₄, hm₁, hlen, hm₂, htask, hm₃, hm₄⟩ : ∃ m₁ m₂ m₃ m₄ : TableLockManager Bool,
      TableLockManager.empty.steps [.lockFor true "s3://bucket/t", .act 0 .wait, .act 0 .acquire] =
        some m₁ ∧
      m₁.handles.length = 1 ∧ m₂ = m₁.lockFor false "s3://bucket/t" ∧
      m₂.handles[0]?.map TableLock.task = some true ∧
      m₂.steps [.act 0 .unlock] = some m₃ ∧
      m₃.steps [.act 1 .wait, .act 1 .acquire] = some m₄ :=
    ⟨_, _, _, _, rfl, rfl, rfl, rfl, rfl, rfl⟩
  obtain ⟨m, hunlock, hm⟩ := Option.bind_eq_some_iff.1 hm₃
  cases hm
  obtain ⟨l, hl, hunlock⟩ := Option.bind_eq_some_iff.1 hunlock
  rw [hl] at htask
  exact ⟨m₁, m₂, _, m₄, l, hm₁, hlen, hm₂, hl, Option.some.inj htask, hunlock, hm₄⟩

/-- The second comes while the first holds the lock. The first creates the table and lets go of its
guard; then the second finds the table and commits to it. -/
theorem pair_run {r : Pb.CommitRequest} {actions logged : List Kernel.Action}
    (hmap : mapActions raceCrates r.actions = .ok actions) (hlogged : Logged actions logged)
    (hexpected : checkExpectedVersion r ⟨⟨"s3://bucket/t"⟩, .ok (removeSnapshot 0)⟩ = .ok ()) :
    ∃ c, (pairSetting r).Reachable (fun _ _ => none) c ∧ c.Answered true (.ok ⟨0⟩) ∧
      c.Answered false (.ok ⟨1⟩) ∧
      c.shared.log ⟨"s3://bucket/t"⟩ 0 = some ⟨some true, raceEntry⟩ := by
  let S := pairSetting r
  let url : Url := ⟨"s3://bucket/t"⟩
  let w₀ : World Unit Bool := World.start fun _ _ => none
  obtain ⟨m₁, m₂, m₃, m₄, l, hm₁, hlen, hm₂, hl, htask, hm₃, hm₄⟩ := pair_locks
  -- The first request gets the lock, and the second comes for it.
  have hlock : Config.Solo S.machine true (S.program true) w₀ _
      (commitLocked ⟨∅, none⟩ raceRequest url raceActions).run (w₀.setLocks () m₁) :=
    S.solo_lock (checkRawTableUri_none rfl _) rfl (checkTableUriAllowed_none rfl _) rfl hm₁
  have r₀ : S.Reachable (fun _ _ => none) (S.init fun _ _ => none) := .refl
  have r₁ := r₀.solo hlock rfl rfl
  obtain ⟨t, hqueue⟩ : ∃ t, Config.Solo S.machine false (S.program false) (w₀.setLocks () m₁) t
      (commitQueued ⟨∅, none⟩ r url actions 1).run (w₀.setLocks () m₂) := by
    have hurl : checkTableUriAllowed ⟨∅, none⟩ url.asStr = .ok () := checkTableUriAllowed_none rfl _
    have hs := S.solo_queue (i := false) (w := w₀.setLocks () m₁) (checkRawTableUri_none rfl _) rfl hurl hmap
    rw [World.setLocks_setLocks] at hs
    rw [hm₂, ← hlen]
    exact ⟨_, hs⟩
  have r₂ := r₁.solo hqueue rfl rfl
  -- The first runs to its answer and lets go of the guard.
  have hcreate : Config.Solo S.machine true (commitLocked ⟨∅, none⟩ raceRequest url raceActions).run
      (w₀.setLocks () m₂) _ (.ret (.ok ⟨0⟩)) ((w₀.setLocks () m₂).put url 0 ⟨some true, raceEntry⟩) :=
    (S.solo_notFound fun _ => rfl).append (S.solo_create (n := 0) rfl rfl rfl ⟨rfl, Or.inl rfl⟩ logged_race)
  have r₃ := (r₂.solo hcreate rfl rfl).tail (.finish (Config.task_after _ _ _ _ _))
  let w₁ : World Unit Bool := (w₀.setLocks () m₂).put url 0 ⟨some true, raceEntry⟩
  have hdrop : S.machine.drop true w₁ (w₁.setLocks () m₃) :=
    ⟨0, l, .unlock, m₃, hl, htask, by simp [World.dropActions], hm₃, rfl⟩
  obtain ⟨c₁, hc₁, ha₁, hp₁, hw₁⟩ : ∃ c₁, S.Reachable (fun _ _ => none) c₁ ∧
      c₁.Answered true (.ok ⟨0⟩) ∧
      c₁.task false = .running (commitQueued ⟨∅, none⟩ r url actions 1).run ∧
      c₁.shared = w₁.setLocks () m₃ :=
    ⟨_, r₃.tail (.drop (Function.update_self _ _ _) hdrop), rfl, rfl, rfl⟩
  -- The second gets it, finds the table, and commits version 1.
  let w₂ : World Unit Bool := (w₁.setLocks () m₃).setLocks () m₄
  have hput : ∀ n, w₂.log url n = if n = 0 then some ⟨some true, raceEntry⟩ else none := by
    intro n
    have hlog := World.put_log (w₀.setLocks () m₂) url url 0 n ⟨some true, raceEntry⟩
    simp only [true_and] at hlog
    exact hlog
  have hzero : AtZero w₂ := by
    refine ⟨?_, fun n hn => (hput n).trans (if_neg hn)⟩
    change (w₂.log url 0).isSome = true
    rw [hput]
    rfl
  have hacquire : Config.Solo S.machine false (commitQueued ⟨∅, none⟩ r url actions 1).run
      (w₁.setLocks () m₃) _ (commitLocked ⟨∅, none⟩ r url actions).run w₂ := S.solo_acquire hm₄
  have hsecond := (hacquire.append (S.solo_found hzero.latest.1)).append
    ((S.solo_open (s := removeSnapshot 0) hzero.latest hexpected).append
      (S.solo_write (S.exec_commitBuilder _ ⟨hzero.2 1 (by decide), Or.inl rfl⟩ hlogged)))
  have hc₂ := hc₁.solo hsecond hp₁ hw₁
  exact ⟨_, hc₂.tail (.finish (Config.task_after _ _ _ _ _)), ha₁, rfl, rfl⟩

/-- The entry of a Commit need not be exactly its mapped actions. -/
theorem commits_serialized_not_exact : ¬ ∀ c, (pairSetting removeRequest).Reachable (fun _ _ => none) c →
    ∀ i resp, c.Answered i (.ok resp) → ∃ n actions,
      mapActions raceCrates ((pairSetting removeRequest).req i).actions = .ok actions ∧
      resp.committedVersion = n.toInt64 ∧
      c.shared.log ⟨"s3://bucket/t"⟩ n = some ⟨some i, actions⟩ := by
  intro h
  obtain ⟨c, hc, hfirst, -, hentry⟩ := pair_run (r := removeRequest) rfl logged_remove rfl
  obtain ⟨n, actions, hmap, hn, hexact⟩ := h c hc true _ hfirst
  cases hmap
  obtain rfl : n = 0 := by
    rw [← UInt64.toUInt64_toInt64 n, ← hn]
    rfl
  rw [hentry] at hexact
  cases hexact

/-- Two at once, of which the second expects the version that the first creates. -/
theorem commits_serialized_pair : ∃ c resp resp', (pairSetting removeRequest).Reachable (fun _ _ => none) c ∧
    c.Answered true (.ok resp) ∧ c.Answered false (.ok resp') ∧
    resp.committedVersion ≠ resp'.committedVersion ∧ resp'.committedVersion = 0 + 1 := by
  obtain ⟨c, hc, hfirst, hsecond, -⟩ := pair_run (r := removeRequest) rfl logged_remove rfl
  obtain ⟨hok, hdistinct, -, -⟩ := commits_serialized rfl (by simp) hc
  obtain ⟨url, n, actions, logged, -, -, -, -, -, -, hexpected⟩ := hok false _ hsecond
  exact ⟨c, _, _, hc, hfirst, hsecond, hdistinct true false _ _ (by decide) hfirst hsecond rfl,
    hexpected 0 rfl⟩

end DeltaTxn
