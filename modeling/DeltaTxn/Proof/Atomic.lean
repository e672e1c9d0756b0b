import DeltaTxn.Proof.Log
import DeltaTxn.Proof.Solo

/-!
# What a failed Commit leaves behind

A Commit that answers with an error has added nothing to the log, except in one case: the
write by which it meant to create the table landed at a later version, because another
replica created the table first. `create_table` then reports a conflict, and the entry stays.

* `error_writes`: what a Commit that failed can have written.
* `commit_error_atomic`: when it has an entry, if a write that answers an error has written nothing.
-/

namespace DeltaTxn

open Conc

variable {ρ ι : Type} [DecidableEq ρ]

variable [DecidableEq ι]

/-! ## What a failed Commit has written -/

/-- A write without a baseline that landed at a later version than 0. -/
def Call.CreatesLate (x : Call) : Prop :=
  ∃ url actions op n, x = ⟨.commitBuilder url none actions op, .ok n⟩ ∧ n ≠ 0

/-- The writes of `commitLocked`, when it fails. -/
theorem commitLocked_error_writes {srv : DeltaTxnGrpcServer} {r : Pb.CommitRequest} {u : Url}
    {acts : List Kernel.Action} {t : List Call} {st : Status}
    (h : (commitLocked srv r u acts).run.Completes t (.error st)) {url : Url} {base : Option Version}
    {actions : List Kernel.Action} {op : DeltaOperation} {n : Version}
    (hx : ⟨.commitBuilder url base actions op, .ok n⟩ ∈ t) :
    Call.CreatesLate ⟨.commitBuilder url base actions op, .ok n⟩ := by
  rcases commitLocked_runs h with ⟨e, rfl, -⟩ | ⟨e, rfl, -⟩ | ⟨t', rfl, hu⟩ | ⟨t', rfl, hc⟩
  · simp at hx
  · simp at hx
  · generalize ha : Except.error st = a at hu
    cases hu with
    | openFailed e => simp at hx
    | rejected s st h => simp at hx
    | noSnapshot e h => simp at hx
    | failed s e h => simp at hx
    | written s n h => cases ha
  · generalize ha : Except.error st = a at hc
    cases hc with
    | refused st h => simp at hx
    | buildFailed e => simp at hx
    | failed p m e => simp at hx
    | late p m k hk =>
      simp only [List.mem_cons, List.not_mem_nil, or_false] at hx
      rcases hx with hx | hx | hx | hx
      · cases hx
      · cases hx
      · cases hx
      · cases hx
        refine ⟨_, _, _, _, rfl, ?_⟩
        rintro rfl
        exact hk rfl
    | created p m k hk => cases ha

theorem error_writes {cr : Crates} {srv : DeltaTxnGrpcServer} {r : Pb.CommitRequest}
    {t : List Call} {st : Status} (h : (commit cr srv r).run.Completes t (.error st)) {url : Url}
    {base : Option Version} {actions : List Kernel.Action} {op : DeltaOperation} {n : Version}
    (hx : ⟨.commitBuilder url base actions op, .ok n⟩ ∈ t) :
    Call.CreatesLate ⟨.commitBuilder url base actions op, .ok n⟩ := by
  rcases commit_runs h with ⟨st', -, -, ht⟩ | ⟨u, acts, lock, t', -, rfl, hl⟩
  · rcases ht with rfl | ⟨b, rfl⟩
    · simp at hx
    · simp at hx
  · simp only [List.mem_cons] at hx
    rcases hx with hx | hx | hx | hx
    · cases hx
    · cases hx
    · cases hx
    · exact commitLocked_error_writes hl hx

/-! ## Atomicity -/

/-- Request `i` has an entry in some table's log. -/
def Setting.HasEntry (S : Setting ρ ι) (c : S.State) (i : ι) : Prop :=
  ∃ url n actions, c.shared.log url n = some ⟨some i, actions⟩

/-- Each write without a baseline in this step starts on a log whose version 0 is free. -/
def Setting.CreatesFirst (S : Setting ρ ι) (c c' : S.State) : Prop :=
  ∀ i url actions op b, c'.calls = c.calls ++ [(i, ⟨.commitBuilder url none actions op, b⟩)] →
    c.shared.log url 0 = none

/-- In a run of such steps no write lands late. -/
theorem Setting.no_createsLate {S : Setting ρ ι}
    {log : Url → Version → Option (List Kernel.Action)} {c : S.State}
    (h : Config.ReachVia S.machine S.CreatesFirst (S.init log) c) :
    ∀ x ∈ c.calls, ¬ Call.CreatesLate x.2 := by
  induction h with
  | refl => simp [Setting.init, Config.init]
  | @tail c c' _ hst ih =>
    obtain ⟨hst, hfirst⟩ := hst
    cases hst with
    | @exec j o k b w hj hx =>
      intro x hxc
      rcases List.mem_append.1 hxc with hxc | hxc
      · exact ih x hxc
      obtain rfl := List.mem_singleton.1 hxc
      rintro ⟨url, actions, op, n, hcall, hn⟩
      cases hcall
      have hfree := hfirst j url actions op (.ok n) rfl
      obtain ⟨⟨-, hland⟩, -⟩ := hx
      rcases hland with rfl | ⟨htaken, -⟩
      · exact hn rfl
      · simp [Log.firstTry, hfree] at htaken
    | finish _ => exact ih
    | cancel _ => exact ih
    | drop _ _ => exact ih

/-- **When a failed Commit leaves nothing behind.** Suppose that a write that answers an error has
written nothing. A Commit that has answered with an error has no entry in any log if and only if its
write without a baseline, if it made one, did not land at a later version than 0. So in every run in
which each such write starts while version 0 is free, no failed Commit has an entry. -/
theorem commit_error_atomic (S : Setting ρ ι) (hlate : S.lateErrors = false)
    (log : Url → Version → Option (List Kernel.Action)) :
    (∀ c, S.Reachable log c → ∀ i st, c.Answered i (.error st) →
      (¬ S.HasEntry c i ↔ ¬ ∃ x, (i, x) ∈ c.calls ∧ Call.CreatesLate x)) ∧
    (∀ c, Config.ReachVia S.machine S.CreatesFirst (S.init log) c →
      ∀ i st, c.Answered i (.error st) → ¬ S.HasEntry c i) := by
  have key : ∀ c, S.Reachable log c → ∀ i st, c.Answered i (.error st) →
      (S.HasEntry c i ↔ ∃ x, (i, x) ∈ c.calls ∧ Call.CreatesLate x) := by
    intro c h i st ha
    constructor
    · rintro ⟨url, n, logged, he⟩
      rcases S.governs.entry_cases h he with hbefore | ⟨j, x, base, actions, hx, hputs, hj, -⟩
      · cases (World.start_entry hbefore).1
      · cases hj
        rw [hlate] at hputs
        obtain ⟨op, rfl⟩ := hputs.of_not_late
        exact ⟨_, hx, error_writes (h.runs_answered ha) (Config.mem_callsOf.2 hx)⟩
    · rintro ⟨_, hx, url, actions, op, n, rfl, -⟩
      obtain ⟨logged, -, he⟩ := S.governs.entry_of_write h rfl hx
      exact ⟨url, n, logged, he⟩
  refine ⟨fun c h i st ha => not_congr (key c h i st ha), ?_⟩
  intro c h i st ha he
  obtain ⟨x, hx, hlate⟩ := (key c h.reach i st ha).1 he
  exact Setting.no_createsLate h _ hx hlate

/-! ## Two replicas create the same table -/

/-- The protocol of the table that is created. -/
def raceProtocol : Kernel.Protocol := ⟨1, 2, none, none⟩

/-- Its metadata. -/
def raceMetadata : Kernel.Metadata where
  id := "6f2c"
  name := none
  description := none
  format := ⟨"parquet", ∅⟩
  schemaString := "\x7b\"type\":\"struct\",\"fields\":[" ++
    "\x7b\"name\":\"id\",\"type\":\"long\",\"nullable\":true,\"metadata\":\x7b\x7d\x7d]\x7d"
  partitionColumns := []
  configuration := ∅
  createdTime := none

/-- The third-party functions, as they answer on the requests below. -/
def raceCrates : Crates where
  jsonToString _ := "\x7b\x7d"
  jsonFromStr _ := none
  mapToString _ := .ok "\x7b\x7d"
  protocolFromValue _ := .ok raceProtocol
  metadataFromValue _ := .ok raceMetadata
  parseSchema _ := .ok ⟨.object []⟩
  schemaToString _ := .ok raceMetadata.schemaString

/-- The request that each of two replicas gets: create a table. -/
def raceRequest : Pb.CommitRequest where
  tableUri := "s3://bucket/t"
  expectedVersion := none
  actions :=
    [⟨some (.protocol ⟨1, 2⟩)⟩,
      ⟨some (.metaData ⟨"6f2c", "", "", raceMetadata.schemaString, [], ∅, 0⟩)⟩]

/-- Two replicas, with one such request each. -/
def raceSetting : Setting Bool Bool where
  cr := raceCrates
  srv _ := ⟨∅, none⟩
  home := id
  resolve _ _ := .ok ⟨"s3://bucket/t"⟩
  req _ := raceRequest
  lateErrors := false

/-- What both of them hand to `CommitBuilder`. -/
def raceActions : List Kernel.Action := [.protocol raceProtocol, .metadata raceMetadata]

/-- The entry of one of them. -/
def raceEntry : List Kernel.Action :=
  .commitInfo ⟨some 1, some "CREATE TABLE", none, none, none⟩ :: raceActions

theorem logged_race : Logged raceActions raceEntry := .withInfo _ (by simp [raceActions])

/-- Both replicas find no table, the one creates it at version 0, and then the write of the
other lands at version 1 and is reported as a conflict. -/
theorem race_run : ∃ c st, raceSetting.Reachable (fun _ _ => none) c ∧
    c.Answered false (.error st) ∧ st.code = .aborted ∧ raceSetting.HasEntry c false := by
  let url : Url := ⟨"s3://bucket/t"⟩
  let w₀ : World Bool Bool := World.start fun _ _ => none
  -- Each replica gets to the point where it has found no table.
  have find : ∀ i : Bool, ∀ w : World Bool Bool, w.locks i = .empty → (∀ n, w.log url n = none) →
      ∃ m t, Config.Solo raceSetting.machine i (raceSetting.program i) w t
        (commitCreate ⟨∅, none⟩ raceRequest url raceActions).run (w.setLocks i m) := by
    intro i w hw hlog
    have hlock : Config.Solo raceSetting.machine i (raceSetting.program i) w _
        (commitLocked ⟨∅, none⟩ raceRequest url raceActions).run _ :=
      raceSetting.solo_lock (checkRawTableUri_none rfl _) rfl (checkTableUriAllowed_none rfl _) rfl
        (by rw [show raceSetting.home i = i from rfl, hw]; rfl)
    exact ⟨_, _, hlock.append (raceSetting.solo_notFound hlog)⟩
  have create : ∀ (i : Bool) (w : World Bool Bool) (n : Version), (w.log url).Lands none n →
      Config.Solo raceSetting.machine i (commitCreate ⟨∅, none⟩ raceRequest url raceActions).run w _ _
        (w.put url n ⟨some i, raceEntry⟩) :=
    fun i w n hn => raceSetting.solo_create rfl rfl rfl hn logged_race
  have r₀ : raceSetting.Reachable (fun _ _ => none) (raceSetting.init fun _ _ => none) := .refl
  obtain ⟨m₁, t₁, s₁⟩ := find false w₀ rfl fun _ => rfl
  have r₁ := r₀.solo s₁ rfl rfl
  obtain ⟨m₂, t₂, s₂⟩ := find true (w₀.setLocks false m₁) rfl fun _ => rfl
  have r₂ := r₁.solo s₂ rfl rfl
  -- The other replica creates the table ...
  have r₃ := r₂.solo (create true _ 0 ⟨rfl, Or.inl rfl⟩) (Config.task_after _ _ _ _ _) rfl
  -- ... and the write of the first, which also tries version 0, is retried after it.
  have hland : (((w₀.setLocks false m₁).setLocks true m₂).put url 0 ⟨some true, raceEntry⟩
      |>.log url).Lands none 1 := by
    refine ⟨by rw [World.put_log]; rfl, Or.inr ⟨?_, 0, ⟨?_, ?_⟩, rfl⟩⟩
    · rw [World.put_log, if_pos ⟨rfl, rfl⟩]; rfl
    · rw [World.put_log, if_pos ⟨rfl, rfl⟩]; rfl
    · intro n hn
      rw [World.put_log, if_neg]
      · rfl
      · rintro ⟨-, rfl⟩
        exact absurd hn (by decide)
  have r₄ := r₃.solo (create false _ 1 hland) rfl rfl
  obtain ⟨c, hc, ha, -, hs⟩ := r₄.finish (Config.task_after _ _ _ _ _)
  refine ⟨c, _, hc, ha, rfl, url, 1, raceEntry, ?_⟩
  rw [hs]
  exact (World.put_log _ _ _ _ _ _).trans (if_pos ⟨rfl, rfl⟩)

/-- **A failed Commit can leave an entry.** -/
theorem commit_error_not_atomic :
    ¬ ∀ c, raceSetting.Reachable (fun _ _ => none) c → ∀ i st, c.Answered i (.error st) →
      ¬ raceSetting.HasEntry c i := by
  intro h
  obtain ⟨c, st, hc, ha, -, he⟩ := race_run
  exact h c hc false st ha he

/-- On that run both sides of the equivalence fail. -/
theorem commit_error_atomic_race : ∃ c st, raceSetting.Reachable (fun _ _ => none) c ∧
    c.Answered false (.error st) ∧ ∃ x, (false, x) ∈ c.calls ∧ Call.CreatesLate x := by
  obtain ⟨c, st, hc, ha, -, he⟩ := race_run
  refine ⟨c, st, hc, ha, ?_⟩
  by_contra hno
  exact ((commit_error_atomic raceSetting rfl fun _ _ => none).1 c hc false st ha).2 hno he

end DeltaTxn
