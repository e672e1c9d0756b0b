import DeltaTxn.Proof.Atomic

/-!
# What a Commit that lost a race is told

A Commit can learn that another one landed first at three places: at its `expected_version`
check, at the check that ends the creation of a table, and from `CommitBuilder`. The first two
answer ABORTED. The third is wrapped as any other failure of the write and answers INTERNAL.

* `error_race`: the status at each of the three places.
* `commit_race_status`: the loser learns that it lost exactly if it was not `CommitBuilder`
  that found out.
-/

namespace DeltaTxn

open Conc

variable {ρ ι : Type} [DecidableEq ρ] [DecidableEq ι]

/-! ## The three places -/

/-- `open_table` has found a later version than the request expects. -/
def Call.OpensLater (r : Pb.CommitRequest) (x : Call) : Prop :=
  ∃ url opts s e, x = ⟨.openTable url opts, .ok (.ok s)⟩ ∧ r.expectedVersion = some e ∧
    e < s.version.toInt64

/-- `CommitBuilder` has given up because of a concurrent commit. -/
def Call.Conflicts (x : Call) : Prop :=
  ∃ url base actions op e, x = ⟨.commitBuilder url base actions op, .error e⟩ ∧
    e.isConflict = true

theorem checkExpectedVersion_later {r : Pb.CommitRequest} {url : Url} {s : DeltaTableState}
    {e : Int64} (hr : r.expectedVersion = some e) (he : e < s.version.toInt64) :
    checkExpectedVersion r ⟨url, .ok s⟩ =
      .error (DeltaTxnError.versionConflict e s.version.toInt64).toStatus := by
  have hne : s.version.toInt64 ≠ e := (Int64.ne_of_lt he).symm
  unfold checkExpectedVersion
  rw [hr]
  simp only [DeltaTable.version]
  rw [if_pos hne]

/-- `st` is the right status for what the call `x` has found out. -/
structure Call.Told (r : Pb.CommitRequest) (st : Status) (x : Call) : Prop where
  aborted : Call.OpensLater r x ∨ Call.CreatesLate x → st.code = .aborted
  internal : Call.Conflicts x → st.code = .internal

section

variable {r : Pb.CommitRequest} {st : Status} {url : Url}

theorem told_other {o : Op} {b : Ans o} (hopen : ∀ u opts, o ≠ .openTable u opts)
    (hwrite : ∀ u base acts op, o ≠ .commitBuilder u base acts op) : Call.Told r st ⟨o, b⟩ where
  aborted := by
    rintro (⟨u, opts, s, e, hx, -⟩ | ⟨u, acts, op, n, hx, -⟩)
    · exact absurd (congrArg Sigma.fst hx) (hopen u opts)
    · exact absurd (congrArg Sigma.fst hx) (hwrite u none acts op)
  internal := by
    rintro ⟨u, base, acts, op, e, hx, -⟩
    exact absurd (congrArg Sigma.fst hx) (hwrite u base acts op)

theorem told_buildTable {opts : HashMap String} {b : Except DeltaTableError Unit} :
    Call.Told r st ⟨.buildTable url opts, b⟩ :=
  told_other (by simp) (by simp)

theorem told_isDeltaTableLocation {b : Except DeltaTableError Bool} :
    Call.Told r st ⟨.isDeltaTableLocation url, b⟩ :=
  told_other (by simp) (by simp)

theorem told_openTable {opts : HashMap String}
    {b : Except DeltaTableError (Except DeltaTableError DeltaTableState)}
    (h : ∀ s e, b = .ok (.ok s) → r.expectedVersion = some e → e < s.version.toInt64 →
      st.code = .aborted) : Call.Told r st ⟨.openTable url opts, b⟩ where
  aborted := by
    rintro (⟨u, opts', s, e, hx, hr, he⟩ | ⟨u, acts, op, n, hx, -⟩)
    · cases hx
      exact h s e rfl hr he
    · cases hx
  internal := by
    rintro ⟨u, base, acts, op, e, hx, -⟩
    cases hx

theorem told_failed {base : Option Version} {actions : List Kernel.Action} {op : DeltaOperation}
    {e : DeltaTableError} (h : st.code = .internal) :
    Call.Told r st ⟨.commitBuilder url base actions op, .error e⟩ where
  aborted := by
    rintro (⟨u, opts, s, e, hx, -⟩ | ⟨u, acts, op, n, hx, -⟩)
    · cases hx
    · cases hx
  internal := fun _ => h

theorem told_late {base : Option Version} {actions : List Kernel.Action} {op : DeltaOperation}
    {n : Version} (h : st.code = .aborted) :
    Call.Told r st ⟨.commitBuilder url base actions op, .ok n⟩ where
  aborted := fun _ => h
  internal := by
    rintro ⟨u, base, acts, op, e, hx, -⟩
    cases hx

theorem told_update {srv : DeltaTxnGrpcServer} {actions : List Kernel.Action} {t : List Call}
    (h : UpdateRun srv r url actions t (.error st)) : ∀ x ∈ t, Call.Told r st x := by
  generalize ha : Except.error st = a at h
  have passed : ∀ s : DeltaTableState, checkExpectedVersion r ⟨url, .ok s⟩ = .ok () → ∀ s' e,
      (Except.ok (Except.ok s) : Except DeltaTableError (Except DeltaTableError DeltaTableState)) =
        .ok (.ok s') → r.expectedVersion = some e → e < s'.version.toInt64 →
          st.code = .aborted := by
    intro s hok s' e hs hr he
    cases hs
    rw [checkExpectedVersion_later hr he] at hok
    cases hok
  cases h with
  | openFailed e =>
    simp only [List.forall_mem_singleton]
    exact told_openTable (by simp)
  | rejected snapshot st' hrej =>
    cases ha
    simp only [List.forall_mem_singleton]
    refine told_openTable fun s e hs hr he => ?_
    cases hs
    rw [checkExpectedVersion_later hr he] at hrej
    cases hrej
    rfl
  | noSnapshot e hok =>
    simp only [List.forall_mem_singleton]
    exact told_openTable (by simp)
  | failed s e hok =>
    cases ha
    simp only [List.forall_mem_cons]
    exact ⟨told_openTable (passed s hok), told_failed rfl, by simp⟩
  | written s n hok => cases ha

theorem told_create {srv : DeltaTxnGrpcServer} {actions : List Kernel.Action} {t : List Call}
    (h : CreateRun srv url actions t (.error st)) : ∀ x ∈ t, Call.Told r st x := by
  generalize ha : Except.error st = a at h
  cases h with
  | refused st' hst => simp
  | buildFailed e =>
    simp only [List.forall_mem_singleton]
    exact told_buildTable
  | failed p m e =>
    cases ha
    simp only [List.forall_mem_cons]
    exact ⟨told_buildTable, told_failed rfl, by simp⟩
  | late p m n hn =>
    cases ha
    simp only [List.forall_mem_cons]
    exact ⟨told_buildTable, told_late rfl, by simp⟩
  | created p m n hn => cases ha

/-- **The status at each place.** -/
theorem error_race {cr : Crates} {srv : DeltaTxnGrpcServer} {t : List Call}
    (h : (commit cr srv r).run.Completes t (.error st)) : ∀ x ∈ t, Call.Told r st x := by
  rcases commit_runs h with ⟨st', -, -, ht⟩ | ⟨u, acts, lock, t', -, rfl, hl⟩
  · rcases ht with rfl | ⟨b, rfl⟩
    · simp
    · simp only [List.forall_mem_singleton]
      exact told_other (by simp) (by simp)
  simp only [List.forall_mem_cons]
  refine ⟨told_other (by simp) (by simp), told_other (by simp) (by simp),
    told_other (by simp) (by simp), ?_⟩
  rcases commitLocked_runs hl with ⟨e, rfl, -⟩ | ⟨e, rfl, -⟩ | ⟨t'', rfl, hu⟩ | ⟨t'', rfl, hc⟩
  · simp only [List.forall_mem_singleton]
    exact told_buildTable
  · simp only [List.forall_mem_cons]
    exact ⟨told_buildTable, told_isDeltaTableLocation, by simp⟩
  · simp only [List.forall_mem_cons]
    exact ⟨told_buildTable, told_isDeltaTableLocation, told_update hu⟩
  · simp only [List.forall_mem_cons]
    exact ⟨told_buildTable, told_isDeltaTableLocation, told_create hc⟩

end

/-! ## The loser of a race -/

/-- Request `i` was rejected because another Commit landed first. -/
def Setting.LostRace (S : Setting ρ ι) (c : S.State) (i : ι) : Prop :=
  ∃ x, (i, x) ∈ c.calls ∧
    (Call.OpensLater (S.req i) x ∨ Call.CreatesLate x ∨ Call.Conflicts x)

/-- Each write in this step starts on a log whose version it tries first is free. -/
def Setting.WritesFirst (S : Setting ρ ι) (c c' : S.State) : Prop :=
  ∀ i url base actions op b,
    c'.calls = c.calls ++ [(i, ⟨.commitBuilder url base actions op, b⟩)] →
      c.shared.log url (Log.firstTry base) = none

/-- In a run of such steps `CommitBuilder` reports no conflict. -/
theorem Setting.no_conflict {S : Setting ρ ι}
    {log : Url → Version → Option (List Kernel.Action)} {c : S.State}
    (h : Config.ReachVia S.machine S.WritesFirst (S.init log) c) :
    ∀ x ∈ c.calls, ¬ Call.Conflicts x.2 := by
  induction h with
  | refl => simp [Setting.init, Config.init]
  | @tail c c' _ hst ih =>
    obtain ⟨hst, hfirst⟩ := hst
    cases hst with
    | @exec j o k b w hj hx =>
      intro x hxc
      rcases List.mem_append.1 hxc with hxc | hxc
      · exact ih x hxc
      obtain rfl := List.mem_singleton.1 hxc
      rintro ⟨url, base, actions, op, e, hcall, he⟩
      cases hcall
      have hfree := hfirst j url base actions op (.error e) rfl
      rcases hx with ⟨-, hconflict⟩ | ⟨-, hno, -⟩
      · have htaken := hconflict he
        rw [hfree] at htaken
        cases htaken
      · -- no conflict is reported after the write
        rw [he] at hno
        cases hno
    | finish _ => exact ih
    | cancel _ => exact ih
    | drop _ _ => exact ih

/-- **When the loser of a race learns that it lost.** For a Commit that has answered with an
error: that it gets ABORTED if it lost a race, and INTERNAL only if it did not, holds if and
only if `CommitBuilder` has not reported a conflict to it. So it holds in every run in which
each write starts while the version it tries first is free. -/
theorem commit_race_status (S : Setting ρ ι) (log : Url → Version → Option (List Kernel.Action)) :
    (∀ c, S.Reachable log c → ∀ i st, c.Answered i (.error st) →
      (((S.LostRace c i → st.code = .aborted) ∧ (st.code = .internal → ¬ S.LostRace c i)) ↔
        ¬ ∃ x, (i, x) ∈ c.calls ∧ Call.Conflicts x)) ∧
    (∀ c, Config.ReachVia S.machine S.WritesFirst (S.init log) c → ∀ i st,
      c.Answered i (.error st) →
        (S.LostRace c i → st.code = .aborted) ∧ (st.code = .internal → ¬ S.LostRace c i)) := by
  have key : ∀ c, S.Reachable log c → ∀ i st, c.Answered i (.error st) →
      (((S.LostRace c i → st.code = .aborted) ∧ (st.code = .internal → ¬ S.LostRace c i)) ↔
        ¬ ∃ x, (i, x) ∈ c.calls ∧ Call.Conflicts x) := by
    intro c h i st ha
    have told := error_race (h.runs_answered ha)
    constructor
    · rintro ⟨hab, -⟩ ⟨x, hx, hconf⟩
      have hcode := hab ⟨x, hx, Or.inr (Or.inr hconf)⟩
      rw [(told x (Config.mem_callsOf.2 hx)).internal hconf] at hcode
      cases hcode
    · intro hno
      have lost : S.LostRace c i → st.code = .aborted := by
        rintro ⟨x, hx, hopen | hlate | hconf⟩
        · exact (told x (Config.mem_callsOf.2 hx)).aborted (Or.inl hopen)
        · exact (told x (Config.mem_callsOf.2 hx)).aborted (Or.inr hlate)
        · exact absurd ⟨x, hx, hconf⟩ hno
      refine ⟨lost, fun hint hlost => ?_⟩
      rw [lost hlost] at hint
      cases hint
  refine ⟨key, fun c h i st ha => (key c h.reach i st ha).2 ?_⟩
  rintro ⟨x, hx, hconf⟩
  exact Setting.no_conflict h _ hx hconf

/-! ## The same race, lost before and after the check -/

/-- A request to remove a file from the table at version 0. -/
def removeRequest : Pb.CommitRequest where
  tableUri := "s3://bucket/t"
  expectedVersion := some 0
  actions := [⟨some (.remove ⟨"part-0.parquet", none, 1⟩)⟩]

/-- What it maps to. -/
def removeActions : List Kernel.Action :=
  [.remove ⟨"part-0.parquet", true, none, none, none, none, none, none, none, none⟩]

/-- The entry that it makes. -/
def removeEntry : List Kernel.Action :=
  .commitInfo ⟨some 2, some "WRITE", none, none, none⟩ :: removeActions

theorem logged_remove : Logged removeActions removeEntry := .withInfo _ (by simp [removeActions])

/-- Two such requests, at replicas of their own or at one. -/
def removeSetting (home : Bool → ρ) : Setting ρ Bool where
  cr := raceCrates
  srv _ := ⟨∅, none⟩
  home := home
  resolve _ _ := .ok ⟨"s3://bucket/t"⟩
  req _ := removeRequest
  lateErrors := false

/-- The table, at version 0. -/
def removeLog (_ : Url) (n : Version) : Option (List Kernel.Action) :=
  if n = 0 then some [.protocol raceProtocol, .metadata raceMetadata] else none

/-- The snapshot of the table at a version. -/
def removeSnapshot (n : Version) : DeltaTableState := ⟨n, raceMetadata, raceProtocol, []⟩

/-- The location of the table. -/
def removeUrl : Url := ⟨"s3://bucket/t"⟩

/-- The table is at version 0. -/
def AtZero (w : World ρ Bool) : Prop :=
  (w.log removeUrl 0).isSome = true ∧ ∀ n, n ≠ 0 → w.log removeUrl n = none

omit [DecidableEq ρ] in
theorem AtZero.latest {w : World ρ Bool} (h : AtZero w) : (w.log removeUrl).Latest 0 :=
  ⟨h.1, fun n hn => h.2 n (by rintro rfl; exact absurd hn (by decide))⟩

omit [DecidableEq ρ] in
theorem AtZero.put_latest {w : World ρ Bool} (h : AtZero w) (e : LogEntry Bool) :
    ((w.put removeUrl 1 e).log removeUrl).Latest 1 := by
  refine ⟨by rw [World.put_log, if_pos ⟨rfl, rfl⟩]; rfl, fun n hn => ?_⟩
  rw [World.put_log, if_neg (by rintro ⟨-, rfl⟩; exact absurd hn (by decide))]
  exact h.2 n (by rintro rfl; exact absurd hn (by decide))

section

variable (home : Bool → ρ)

/-- A request gets to the point where it has found the table. -/
theorem remove_find (i : Bool) (w : World ρ Bool) (hw : w.locks (home i) = .empty) {n : Version}
    (hn : (w.log removeUrl n).isSome = true) :
    ∃ m t, Config.Solo (removeSetting home).machine i ((removeSetting home).program i) w t
      (commitUpdate ⟨∅, none⟩ removeRequest removeUrl removeActions).run (w.setLocks (home i) m) := by
  have hlock : Config.Solo (removeSetting home).machine i ((removeSetting home).program i) w _
      (commitLocked ⟨∅, none⟩ removeRequest removeUrl removeActions).run _ :=
    (removeSetting home).solo_lock (checkRawTableUri_none rfl _) rfl (checkTableUriAllowed_none rfl _) rfl
      (by rw [show (removeSetting home).home i = home i from rfl, hw]; rfl)
  exact ⟨_, _, hlock.append ((removeSetting home).solo_found hn)⟩

/-- What is left of an update between its check and its write. -/
def removeRest : Eff Status Pb.CommitResponse :=
  Conc.Prog.mapErr DeltaTxnError.toStatus
    (commitActions ⟨removeUrl, .ok (removeSnapshot 0)⟩ removeActions).run >>= fun v => pure ⟨v⟩

theorem remove_open (i : Bool) {w : World ρ Bool} (h : AtZero w) :
    Config.Solo (removeSetting home).machine i
      (commitUpdate ⟨∅, none⟩ removeRequest removeUrl removeActions).run w
      [⟨.openTable removeUrl ∅, .ok (.ok (removeSnapshot 0))⟩] removeRest.run w :=
  (removeSetting home).solo_open (s := removeSnapshot 0) h.latest rfl

theorem remove_rejected (i : Bool) {w : World ρ Bool} (h : (w.log removeUrl).Latest 1) :
    Config.Solo (removeSetting home).machine i
      (commitUpdate ⟨∅, none⟩ removeRequest removeUrl removeActions).run w
      [⟨.openTable removeUrl ∅, .ok (.ok (removeSnapshot 1))⟩]
      (.ret (.error (DeltaTxnError.versionConflict 0 1).toStatus)) w :=
  (removeSetting home).solo_rejected (s := removeSnapshot 1) h rfl

theorem remove_write (i : Bool) {w : World ρ Bool} (h : AtZero w) :
    Config.Solo (removeSetting home).machine i removeRest.run w
      [⟨.commitBuilder removeUrl (some 0) removeActions (buildOperation removeActions), .ok 1⟩]
      (.ret (.ok ⟨1⟩)) (w.put removeUrl 1 ⟨some i, removeEntry⟩) :=
  (removeSetting home).solo_write (s := removeSnapshot 0)
    ((removeSetting home).exec_commitBuilder _ ⟨h.2 1 (by decide), Or.inl rfl⟩ logged_remove)

/-- The error `CommitBuilder` gives up with. -/
def removeConflict : DeltaTableError := ⟨.commitConflict, "ConcurrentDeleteDelete"⟩

theorem remove_conflict (i : Bool) {w : World ρ Bool} (h : (w.log removeUrl).Latest 1) :
    Config.Solo (removeSetting home).machine i removeRest.run w
      [⟨.commitBuilder removeUrl (some 0) removeActions (buildOperation removeActions),
        .error removeConflict⟩]
      (.ret (.error (commitFailed removeConflict).toStatus)) w :=
  (removeSetting home).solo_write (s := removeSnapshot 0)
    ((removeSetting home).exec_commitBuilder_error _ fun _ => h.1)

end

omit [DecidableEq ρ] in
theorem atZero_start : AtZero (World.start removeLog : World ρ Bool) := by
  refine ⟨rfl, fun n hn => ?_⟩
  simp [World.start, removeLog, hn]

/-- The winner lands just before the loser's check. -/
theorem early_run : ∃ c st, (removeSetting id).Reachable removeLog c ∧
    c.Answered false (.error st) ∧ st.code = .aborted ∧ (removeSetting id).LostRace c false := by
  have h₀ : AtZero (World.start removeLog : World Bool Bool) := atZero_start
  have r₀ : (removeSetting id).Reachable removeLog ((removeSetting id).init removeLog) := .refl
  obtain ⟨m₁, t₁, s₁⟩ := remove_find id true (World.start removeLog) rfl h₀.1
  have r₁ := r₀.solo s₁ rfl rfl
  have h₁ : AtZero ((World.start removeLog).setLocks true m₁) := h₀
  have r₂ := r₁.solo ((remove_open id true h₁).append (remove_write id true h₁))
    (Config.task_after _ _ _ _ _) rfl
  have h₂ := h₁.put_latest ⟨some true, removeEntry⟩
  obtain ⟨m₃, t₃, s₃⟩ := remove_find id false _ rfl h₂.1
  have r₃ := r₂.solo s₃ rfl rfl
  have h₃ : (((((World.start removeLog).setLocks true m₁).put removeUrl 1
      ⟨some true, removeEntry⟩).setLocks false m₃).log removeUrl).Latest 1 := h₂
  have r₄ := r₃.solo (remove_rejected id false h₃) (Config.task_after _ _ _ _ _) rfl
  obtain ⟨c, hc, ha, hcalls, -⟩ := r₄.finish (Config.task_after _ _ _ _ _)
  refine ⟨c, _, hc, ha, rfl, _, ?_, Or.inl ⟨removeUrl, ∅, removeSnapshot 1, 0, rfl, rfl, by decide⟩⟩
  rw [hcalls]
  exact List.mem_append_right _ (List.mem_singleton.2 rfl)

/-- The winner lands just after the loser's check. -/
theorem late_run : ∃ c st, (removeSetting id).Reachable removeLog c ∧
    c.Answered false (.error st) ∧ st.code = .internal ∧ (removeSetting id).LostRace c false := by
  have h₀ : AtZero (World.start removeLog : World Bool Bool) := atZero_start
  have r₀ : (removeSetting id).Reachable removeLog ((removeSetting id).init removeLog) := .refl
  obtain ⟨m₁, t₁, s₁⟩ := remove_find id false (World.start removeLog) rfl h₀.1
  have r₁ := r₀.solo s₁ rfl rfl
  have h₁ : AtZero ((World.start removeLog).setLocks false m₁) := h₀
  have r₂ := r₁.solo (remove_open id false h₁) (Config.task_after _ _ _ _ _) rfl
  obtain ⟨m₃, t₃, s₃⟩ := remove_find id true _ rfl h₁.1
  have r₃ := r₂.solo s₃ rfl rfl
  have h₃ : AtZero (((World.start removeLog).setLocks false m₁).setLocks true m₃) := h₁
  have r₄ := r₃.solo ((remove_open id true h₃).append (remove_write id true h₃))
    (Config.task_after _ _ _ _ _) rfl
  have h₄ := h₃.put_latest ⟨some true, removeEntry⟩
  have r₅ := r₄.solo (remove_conflict id false h₄) rfl rfl
  obtain ⟨c, hc, ha, hcalls, -⟩ := r₅.finish (Config.task_after _ _ _ _ _)
  refine ⟨c, _, hc, ha, rfl, _, ?_, Or.inr (Or.inr ⟨removeUrl, some 0, removeActions,
    buildOperation removeActions, removeConflict, rfl, rfl⟩)⟩
  rw [hcalls]
  exact List.mem_append_right _ (List.mem_singleton.2 rfl)

/-- **The status depends on when the winner lands**: just before the loser's check it is
ABORTED, just after it is INTERNAL. -/
theorem commit_race_status_differs :
    (∃ c st, (removeSetting id).Reachable removeLog c ∧ c.Answered false (.error st) ∧
      (removeSetting id).LostRace c false ∧ st.code = .aborted) ∧
    ¬ ∀ c i st, (removeSetting id).Reachable removeLog c → c.Answered i (.error st) →
      ((removeSetting id).LostRace c i → st.code = .aborted) ∧
        (st.code = .internal → ¬ (removeSetting id).LostRace c i) := by
  refine ⟨?_, fun h => ?_⟩
  · obtain ⟨c, st, hc, ha, hcode, hlost⟩ := early_run
    exact ⟨c, st, hc, ha, hlost, hcode⟩
  · obtain ⟨c, st, hc, ha, hcode, hlost⟩ := late_run
    exact (h c false st hc ha).2 hcode hlost

/-- On those runs the equivalence holds from both sides. -/
theorem commit_race_status_runs :
    (∃ c, (removeSetting id).Reachable removeLog c ∧ (removeSetting id).LostRace c false ∧
      ¬ ∃ x, (false, x) ∈ c.calls ∧ Call.Conflicts x) ∧
    (∃ c, (removeSetting id).Reachable removeLog c ∧ (removeSetting id).LostRace c false ∧
      ∃ x, (false, x) ∈ c.calls ∧ Call.Conflicts x) := by
  constructor
  · obtain ⟨c, st, hc, ha, hcode, hlost⟩ := early_run
    refine ⟨c, hc, hlost, ((commit_race_status (removeSetting id) removeLog).1 c hc false st ha).1 ?_⟩
    exact ⟨fun _ => hcode, fun hint => by rw [hcode] at hint; cases hint⟩
  · obtain ⟨c, st, hc, ha, hcode, hlost⟩ := late_run
    refine ⟨c, hc, hlost, ?_⟩
    by_contra hno
    exact (((commit_race_status (removeSetting id) removeLog).1 c hc false st ha).2 hno).2 hcode hlost

end DeltaTxn
