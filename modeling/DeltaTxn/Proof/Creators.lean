import DeltaTxn.Proof.Creation
import DeltaTxn.Proof.Serial

/-!
# Racing creators in one process

Requests that each mean to create the same table are serialized by its lock. The first to get
it creates the table; to every later one the table exists, so with no `expected_version` it is
an ordinary update, and its Protocol and Metadata take effect after those of the creator.

* `Setting.Creators`: such a set of requests.
* `racing_creators`: what holds of them in every reachable state.
* `racing_creators_both_ok`: two of them can both be answered OK.
-/

namespace DeltaTxn

open Conc

/-- `m` is the Metadata of the table: the first of the latest entry that has any. -/
def Log.CurrentMetadata {ι : Type} (log : Log ι) (m : Kernel.Metadata) : Prop :=
  ∃ v e, log v = some e ∧ findMetadata e.actions = some m ∧
    ∀ n e', v < n → log n = some e' → findMetadata e'.actions = none

/-- **Racing creators**: all requests are for the table at `url`, where there is none, and each
brings its own Protocol and TableMetadata. No log has a gap. -/
structure Setting.Creators {ι : Type} (S : Setting Unit ι) (url : Url)
    (log : Url → Version → Option (List Kernel.Action)) : Prop where
  sameTable : ∀ i u, S.resolve i (S.req i).tableUri = .ok u → u = url
  noVersion : ∀ i, (S.req i).expectedVersion = none
  protocol : ∀ i, (S.req i).actions.filterMap Pb.Action.toProtocol ≠ []
  metadata : ∀ i, (S.req i).actions.filterMap Pb.Action.toMetadata ≠ []
  missing : ∀ n, log url n = none
  contiguous : ∀ u m n, m ≤ n → (log u n).isSome = true → (log u m).isSome = true

/-! ## The entries of the log -/

/-- A log with an entry has a latest one. -/
theorem Log.exists_latest {ι : Type} {log : Log ι} {n : Version} (h : (log n).isSome = true) :
    ∃ v, log.Latest v := by
  induction hk : UInt64.size - n.toNat using Nat.strongRecOn generalizing n with
  | _ k ih =>
    by_cases hlast : ∀ m, n < m → log m = none
    · exact ⟨n, h, hlast⟩
    · push Not at hlast
      obtain ⟨m, hm, hne⟩ := hlast
      rw [UInt64.lt_iff_toNat_lt] at hm
      have hmlt := m.toNat_lt_size
      exact ih _ (by omega) (Option.isSome_iff_ne_none.2 hne) rfl

/-! ## What the requests do -/

section

variable {ι : Type} [DecidableEq ι] {S : Setting Unit ι} {url : Url}
  {log : Url → Version → Option (List Kernel.Action)} {c : S.State}

/-- The write of an OK answer: an update of the table it opened, or a creation at version 0. -/
theorem ok_write (h : S.Reachable log c) {i : ι} {resp : Pb.CommitResponse}
    (ha : c.Answered i (.ok resp)) :
    (∃ u opts s actions n, resp.committedVersion = n.toInt64 ∧
      (i, ⟨.openTable u opts, .ok (.ok s)⟩) ∈ c.calls ∧
      (i, ⟨.commitBuilder u (some s.version) actions (buildOperation actions), .ok n⟩) ∈ c.calls) ∨
    resp.committedVersion = 0 := by
  have hrun := h.runs_answered ha
  rcases commit_runs hrun with ⟨st, he, -⟩ | ⟨u, actions, lock, t', -, ht, hl⟩
  · cases he
  generalize hb : Except.ok resp = b at hl
  rcases commitLocked_runs hl with ⟨e, -, he⟩ | ⟨e, -, he⟩ | ⟨t', rfl, hu⟩ | ⟨t', rfl, hc⟩
  · subst hb
    cases he
  · subst hb
    cases he
  · cases hu with
    | written s n hv =>
      cases hb
      left
      refine ⟨u, (S.srv (S.home i)).storageOpts, s, actions, n, rfl, ?_, ?_⟩
      · rw [← Config.mem_callsOf, ht]
        simp
      · rw [← Config.mem_callsOf, ht]
        simp
    | openFailed e => cases hb
    | rejected s st hv => cases hb
    | noSnapshot e hv => cases hb
    | failed s e hv => cases hb
  · cases hc with
    | created p m n hn =>
      cases hb
      exact Or.inr hn
    | refused st hst => cases hb
    | buildFailed e => cases hb
    | failed p m e => cases hb
    | late p m n hn => cases hb

-- a write that answers an error has written nothing
variable (hlate : S.lateErrors = false)

include hlate

/-- An OK answer names the one entry of its request, which holds its own Metadata. -/
theorem Setting.Creators.entry (hS : S.Creators url log) (h : S.Reachable log c) {i : ι}
    {resp : Pb.CommitResponse} (ha : c.Answered i (.ok resp)) :
    ∃ actions m logged, mapActions S.cr (S.req i).actions = .ok actions ∧ findMetadata actions = some m ∧
      findMetadata logged = some m ∧
      c.shared.log url resp.committedVersion.toUInt64 = some ⟨some i, logged⟩ ∧
      ∀ u n e, c.shared.log u n = some e → e.author = some i →
        u = url ∧ n = resp.committedVersion.toUInt64 := by
  obtain ⟨u, n, actions, hres, hmap, hresp, -, ⟨logged, hlogged, hentry⟩, honly⟩ :=
    (Serial.verified hlate hS.contiguous h).2 i _ ha
  obtain rfl := hS.sameTable i u hres
  have hn : resp.committedVersion.toUInt64 = n := by rw [hresp, UInt64.toUInt64_toInt64]
  have hbrings : metadatasOf actions ≠ [] := by
    intro hnil
    have hlen := (mapActions_definitions hmap).2.length_eq
    rw [hnil, List.length_nil, List.length_eq_zero_iff] at hlen
    exact hS.metadata i hlen
  obtain ⟨m, rest, hm⟩ := List.exists_cons_of_ne_nil hbrings
  have hfind : findMetadata actions = some m := by
    rw [findMetadata_eq, hm]
    rfl
  rw [hn]
  exact ⟨actions, m, logged, hmap, hfind, hlogged.findMetadata_eq.trans hfind, hentry, honly⟩

/-- Two of them that are answered OK have different versions. -/
theorem Setting.Creators.distinct (hS : S.Creators url log) (h : S.Reachable log c) {i j : ι}
    {resp resp' : Pb.CommitResponse} (hij : i ≠ j) (ha : c.Answered i (.ok resp))
    (ha' : c.Answered j (.ok resp')) : resp.committedVersion ≠ resp'.committedVersion := by
  intro heq
  obtain ⟨actions, m, logged, -, -, -, hentry, -⟩ := hS.entry hlate h ha
  obtain ⟨actions', m', logged', -, -, -, hentry', -⟩ := hS.entry hlate h ha'
  rw [heq, hentry'] at hentry
  cases hentry
  exact hij rfl

/-- A request that is answered with an error is the author of no entry. -/
theorem Setting.Creators.failed (hS : S.Creators url log) (h : S.Reachable log c) {i : ι}
    {st : Status} (ha : c.Answered i (.error st)) :
    ∀ u n e, c.shared.log u n = some e → e.author ≠ some i :=
  (Serial.verified hlate hS.contiguous h).2 i _ ha

/-- A later version is that of an update. -/
theorem Setting.Creators.update (hS : S.Creators url log) (h : S.Reachable log c) {i : ι}
    {resp : Pb.CommitResponse} (ha : c.Answered i (.ok resp)) (hlater : resp.committedVersion ≠ 0) :
    ∃ opts s actions, (i, ⟨.openTable url opts, .ok (.ok s)⟩) ∈ c.calls ∧
      (i, ⟨.commitBuilder url (some s.version) actions (buildOperation actions),
        .ok resp.committedVersion.toUInt64⟩) ∈ c.calls := by
  obtain ⟨-, -, -, -, -, -, -, honly⟩ := hS.entry hlate h ha
  rcases ok_write h ha with ⟨u, opts, s, actions, n, hn, hopen, hwrite⟩ | hzero
  · obtain ⟨logged, -, hentry⟩ := S.governs.entry_of_write h rfl hwrite
    obtain ⟨rfl, rfl⟩ := honly u n _ hentry rfl
    exact ⟨opts, s, actions, hopen, hwrite⟩
  · exact absurd hzero hlater

/-- With all of them answered, every entry is that of one answered OK. -/
theorem Setting.Creators.author (hS : S.Creators url log) (h : S.Reachable log c)
    (hall : ∀ i, ∃ a, c.Answered i a) {n : Version} {e : LogEntry ι}
    (he : c.shared.log url n = some e) :
    ∃ i resp, c.Answered i (.ok resp) ∧ n = resp.committedVersion.toUInt64 := by
  rcases S.governs.entry_cases h he with hbefore | ⟨i, x, base, actions, -, -, hi, -⟩
  · have hstart := (World.start_entry hbefore).2
    rw [hS.missing n] at hstart
    cases hstart
  · obtain ⟨a, ha⟩ := hall i
    cases a with
    | error st => exact absurd hi (hS.failed hlate h ha url n e he)
    | ok resp =>
      obtain ⟨-, -, -, -, -, -, -, honly⟩ := hS.entry hlate h ha
      exact ⟨i, resp, ha, (honly url n e he hi).2⟩

/-- The table's Metadata is that of the one with the latest version. -/
theorem Setting.Creators.latest (hS : S.Creators url log) (h : S.Reachable log c)
    (hall : ∀ i, ∃ a, c.Answered i a) {m : Kernel.Metadata}
    (hm : (c.shared.log url).CurrentMetadata m) :
    ∃ i resp actions, c.Answered i (.ok resp) ∧ mapActions S.cr (S.req i).actions = .ok actions ∧
      findMetadata actions = some m ∧ ∀ j resp', j ≠ i → c.Answered j (.ok resp') →
        resp'.committedVersion.toUInt64 < resp.committedVersion.toUInt64 := by
  obtain ⟨v, e, he, hm, hlast⟩ := hm
  obtain ⟨i, resp, ha, rfl⟩ := hS.author hlate h hall he
  obtain ⟨actions, m', logged, hmap, hfind, hshown, hentry, -⟩ := hS.entry hlate h ha
  rw [hentry] at he
  cases he
  obtain rfl : m' = m := Option.some.inj (hshown.symm.trans hm)
  refine ⟨i, resp, actions, ha, hmap, hfind, fun j resp' hji ha' => ?_⟩
  obtain ⟨actions', m'', logged', -, -, hshown', hentry', -⟩ := hS.entry hlate h ha'
  by_contra hnot
  by_cases heq : resp.committedVersion.toUInt64 = resp'.committedVersion.toUInt64
  · rw [← heq, hentry] at hentry'
    cases hentry'
    exact hji rfl
  · have hnone := hlast _ _ (UInt64.lt_of_le_of_ne (UInt64.not_lt.1 hnot) heq) hentry'
    rw [hshown'] at hnone
    cases hnone

/-- There is such a Metadata as soon as one is answered OK: each entry brings its own. -/
theorem Setting.Creators.exists_latest (hS : S.Creators url log) (h : S.Reachable log c)
    (hall : ∀ i, ∃ a, c.Answered i a) {i : ι} {resp : Pb.CommitResponse}
    (ha : c.Answered i (.ok resp)) : ∃ m, (c.shared.log url).CurrentMetadata m := by
  obtain ⟨actions, m, logged, -, -, -, hentry, -⟩ := hS.entry hlate h ha
  have hsome : (c.shared.log url resp.committedVersion.toUInt64).isSome = true := by
    rw [hentry]
    rfl
  obtain ⟨v, hv, hlast⟩ := Log.exists_latest hsome
  obtain ⟨e, he⟩ := Option.isSome_iff_exists.1 hv
  obtain ⟨j, resp', ha', rfl⟩ := hS.author hlate h hall he
  obtain ⟨actions', m', logged', -, -, hshown', hentry', -⟩ := hS.entry hlate h ha'
  refine ⟨m', _, _, hentry', hshown', fun n e' hn he' => ?_⟩
  rw [hlast n hn] at he'
  cases he'

/-- **Racing creators in one process.** Suppose that a write that answers an error has written
nothing. Then in every reachable state: two that are answered OK have different versions, so at most
one is answered version 0 and has created the table; one that is answered OK with a later version was
an update of the table it opened; and one that is answered with an error has written nothing. When all
are answered, the table's Metadata is that of the one answered OK with the latest version, and there
is such a Metadata as soon as one is answered OK. -/
theorem racing_creators (hS : S.Creators url log) (h : S.Reachable log c) :
    (∀ i j resp resp', i ≠ j → c.Answered i (.ok resp) → c.Answered j (.ok resp') →
      resp.committedVersion ≠ resp'.committedVersion) ∧
    (∀ i resp, c.Answered i (.ok resp) → resp.committedVersion ≠ 0 → ∃ opts s actions,
      (i, ⟨.openTable url opts, .ok (.ok s)⟩) ∈ c.calls ∧
      (i, ⟨.commitBuilder url (some s.version) actions (buildOperation actions),
        .ok resp.committedVersion.toUInt64⟩) ∈ c.calls) ∧
    (∀ i st, c.Answered i (.error st) → ∀ u n e, c.shared.log u n = some e → e.author ≠ some i) ∧
    ((∀ i, ∃ a, c.Answered i a) →
      (∀ m, (c.shared.log url).CurrentMetadata m → ∃ i resp actions, c.Answered i (.ok resp) ∧
        mapActions S.cr (S.req i).actions = .ok actions ∧ findMetadata actions = some m ∧
        ∀ j resp', j ≠ i → c.Answered j (.ok resp') →
          resp'.committedVersion.toUInt64 < resp.committedVersion.toUInt64) ∧
      ((∃ i resp, c.Answered i (.ok resp)) → ∃ m, (c.shared.log url).CurrentMetadata m)) := by
  refine ⟨fun i j resp resp' hij ha ha' => hS.distinct hlate h hij ha ha',
    fun i resp => hS.update hlate h, fun i st => hS.failed hlate h,
    fun hall => ⟨fun m => hS.latest hlate h hall, ?_⟩⟩
  rintro ⟨i, resp, ha⟩
  exact hS.exists_latest hlate h hall ha

end

/-! ## Two creators -/

/-- One process gets the same creating request twice. -/
def creatorsSetting : Setting Unit Bool := pairSetting raceRequest

/-- The first creates the table; the second, which waited for its lock, finds the table and commits to
it. -/
theorem creators_run : ∃ c, creatorsSetting.Reachable (fun _ _ => none) c ∧
    c.Answered true (.ok ⟨0⟩) ∧ c.Answered false (.ok ⟨1⟩) := by
  obtain ⟨c, hc, hfirst, hsecond, -⟩ := pair_run (r := raceRequest) rfl logged_race rfl
  exact ⟨c, hc, hfirst, hsecond⟩

theorem creators_creatorsSetting :
    creatorsSetting.Creators ⟨"s3://bucket/t"⟩ fun _ _ => none where
  sameTable := by
    intro i u hu
    cases hu
    rfl
  noVersion i := by cases i <;> rfl
  protocol i := by cases i <;> exact List.cons_ne_nil _ _
  metadata i := by cases i <;> exact List.cons_ne_nil _ _
  missing _ := rfl
  contiguous := by simp

/-- **Racing creators can both be answered OK**, though of racing replicas one would be told
that it lost. -/
theorem racing_creators_both_ok : creatorsSetting.Creators ⟨"s3://bucket/t"⟩ (fun _ _ => none) ∧
    ¬ ∀ c, creatorsSetting.Reachable (fun _ _ => none) c → ∀ i j resp resp',
      c.Answered i (.ok resp) → c.Answered j (.ok resp') → i = j := by
  refine ⟨creators_creatorsSetting, fun h => ?_⟩
  obtain ⟨c, hc, hfirst, hsecond⟩ := creators_run
  cases h c hc true false _ _ hfirst hsecond

/-- On that run the second was an update, and the table's Metadata is the one it brought. -/
theorem racing_creators_update : ∃ c, creatorsSetting.Reachable (fun _ _ => none) c ∧
    (∃ opts s actions, (false, ⟨.openTable ⟨"s3://bucket/t"⟩ opts, .ok (.ok s)⟩) ∈ c.calls ∧
      (false, ⟨.commitBuilder ⟨"s3://bucket/t"⟩ (some s.version) actions (buildOperation actions),
        .ok 1⟩) ∈ c.calls) ∧
    ∃ m, (c.shared.log ⟨"s3://bucket/t"⟩).CurrentMetadata m := by
  obtain ⟨c, hc, hfirst, hsecond⟩ := creators_run
  obtain ⟨-, hlater, -, hall⟩ := racing_creators rfl creators_creatorsSetting hc
  refine ⟨c, hc, hlater false _ hsecond (by decide), (hall fun i => ?_).2 ⟨true, _, hfirst⟩⟩
  cases i with
  | true => exact ⟨_, hfirst⟩
  | false => exact ⟨_, hsecond⟩

end DeltaTxn
