import DeltaTxn.Proof.Health

/-!
# Readiness before shutdown

Until its shutdown begins, a process is ready exactly as the storage probe last reported, whatever
became of the attempts that are not reported yet. Without an endpoint it is ready all the time, and
a malformed endpoint makes it not ready for good. The status of the server as a whole, which the
liveness probe reads, is never touched.

* `Follows`: how the state of a process depends on the events so far.
* `Follows.step`: every step keeps it, by one lemma for each event of `main` and one for the loop.
* `readiness_follows_probe`: readiness in terms of the events so far.
-/

namespace DeltaTxn

open Conc

/-! ## What the events say -/

/-- What an attempt to connect found, where the event is the end of one. -/
def HealthEvent.found : HealthEvent → Option ConnectResult
  | .connect r => some r
  | _ => none

/-- What the last attempt found. -/
def lastFound (es : List HealthEvent) : Option ConnectResult := es.reverse.findSome? HealthEvent.found

/-- What the last attempt found that has been reported: the last one before the last report. -/
def lastReported (es : List HealthEvent) : Option ConnectResult :=
  (es.reverse.dropWhile (· ≠ .report)).findSome? HealthEvent.found

variable {env : ProcessEnv} {p p' : Process} {e : HealthEvent} {es : List HealthEvent}

theorem lastFound_concat : lastFound (es ++ [e]) = e.found.or (lastFound es) := by
  unfold lastFound
  rw [List.reverse_append, List.reverse_singleton, List.singleton_append, List.findSome?_cons]
  cases e.found <;> rfl

theorem lastReported_report : lastReported (es ++ [.report]) = lastFound es := by
  unfold lastReported lastFound
  rw [List.reverse_append, List.reverse_singleton, List.singleton_append,
    List.dropWhile_cons_of_neg (by simp), List.findSome?_cons]
  rfl

theorem lastReported_concat (he : e ≠ .report) : lastReported (es ++ [e]) = lastReported es := by
  unfold lastReported
  rw [List.reverse_append, List.reverse_singleton, List.singleton_append,
    List.dropWhile_cons_of_pos (by simpa using he)]

theorem lastReported_eq_none (h : .report ∉ es) : lastReported es = none := by
  induction es using List.reverseRecOn with
  | nil => rfl
  | append_singleton es e ih =>
    rw [List.mem_append, List.mem_singleton, not_or] at h
    rw [lastReported_concat (Ne.symm h.2), ih h.1]

/-- Nothing has been reported against the endpoint, or not last. -/
def Favourable (es : List HealthEvent) : Prop :=
  .reportMalformed ∉ es ∧ ∀ r, lastReported es = some r → r = .connected

theorem favourable_concat (he : e ≠ .report) (hm : e ≠ .reportMalformed) :
    Favourable (es ++ [e]) ↔ Favourable es := by
  unfold Favourable
  rw [lastReported_concat he, List.mem_append, List.mem_singleton, or_iff_left (Ne.symm hm)]

/-- A report counts as what the attempt before it found. -/
theorem favourable_report {b : Bool} (hun : .reportMalformed ∉ es)
    (hb : (lastFound es).map ConnectResult.reachable = some b) :
    Favourable (es ++ [.report]) ↔ b = true := by
  obtain ⟨r, hr, rfl⟩ := Option.map_eq_some_iff.1 hb
  unfold Favourable
  rw [lastReported_report, hr]
  constructor
  · rintro ⟨-, h⟩
    rw [h r rfl]
    rfl
  · intro hreach
    refine ⟨by simpa using hun, ?_⟩
    rintro _ ⟨⟩
    cases r with
    | connected => rfl
    | refused => cases hreach
    | elapsed => cases hreach

namespace Process

/-- The process has reported itself ready once, and `shutdown_signal` has not set `NOT_SERVING`. -/
def Up (p : Process) : Prop := p.main = .registered ∨ p.main = .serving ∨ p.main = .signalled

/-! ## How a process follows its events -/

/-- **A process and the events so far.** -/
structure Follows (es : List HealthEvent) (p : Process) : Prop where
  others : ∀ name, name ≠ serviceName → p.health name = HealthReporter.new name
  early : p.main = .starting ∨ p.main = .registered → p.probe = .absent
  absent : p.probe = .absent → lastReported es = none
  unmarked : p.probe ≠ .ended → .reportMalformed ∉ es
  reporting : ∀ host port b, p.probe = .probing host port (.reporting b) →
    (lastFound es).map ConnectResult.reachable = some b
  ready : p.Up → (p.Ready ↔ Favourable es)

theorem Follows.start : Follows [] start where
  others _ _ := rfl
  early _ := rfl
  absent _ := rfl
  unmarked _ := by simp
  reporting _ _ _ h := by cases h
  ready h := by
    rcases h with h | h | h
    · cases h
    · cases h
    · cases h

theorem others_update {r r' : HealthReporter} {s : Option ServingStatus}
    (hr : r' = Function.update r serviceName s)
    (h : ∀ name, name ≠ serviceName → r name = HealthReporter.new name) :
    ∀ name, name ≠ serviceName → r' name = HealthReporter.new name := by
  intro name hname
  rw [hr, Function.update_of_ne hname]
  exact h name hname

theorem not_mem_concat {a : HealthEvent} (he : e ≠ a) (h : a ∉ es) : a ∉ es ++ [e] := by
  rw [List.mem_append, List.mem_singleton, not_or]
  exact ⟨h, Ne.symm he⟩

/-- An event that neither reports anything nor writes a status leaves readiness as it was. -/
theorem Follows.ready_same (hf : p.Follows es) (hh : p'.health = p.health) (hup : p'.Up → p.Up)
    (he : e ≠ .report) (hm : e ≠ .reportMalformed) :
    p'.Up → (p'.Ready ↔ Favourable (es ++ [e])) := by
  intro hup'
  rw [favourable_concat he hm]
  unfold Ready
  rw [hh]
  exact hf.ready (hup hup')

theorem Follows.setServing (hf : p.Follows es) (h : p.step env .setServing = some p') :
    p'.Follows (es ++ [.setServing]) := by
  obtain ⟨hm, ⟨⟩⟩ := Option.ite_none_right_eq_some.1 h
  have habs : p.probe = .absent := hf.early (Or.inl hm)
  have hnone := hf.absent habs
  have hun := hf.unmarked (by simp [habs])
  refine ⟨others_update rfl hf.others, fun _ => habs, ?_, fun _ => not_mem_concat (by decide) hun, ?_, ?_⟩
  · intro _
    rwa [lastReported_concat (by decide)]
  · intro host port b hp
    rw [show p.probe = .absent from habs] at hp
    cases hp
  · -- nothing was reported before
    intro _
    refine iff_of_true (ready_setServing rfl) ?_
    rw [favourable_concat (by decide) (by decide)]
    exact ⟨hun, fun r hr => by rw [hnone] at hr; cases hr⟩

/-- The probe starts, and there is nothing that it could have reported. -/
theorem Follows.readEndpoint (hf : p.Follows es) (h : p.step env .readEndpoint = some p') :
    p'.Follows (es ++ [.readEndpoint]) := by
  obtain ⟨hm, hp⟩ := Option.ite_none_right_eq_some.1 h
  have habs : p.probe = .absent := hf.early (Or.inr hm)
  have hnone : lastReported (es ++ [.readEndpoint]) = none := by
    rw [lastReported_concat (by decide)]
    exact hf.absent habs
  have hun : .reportMalformed ∉ es ++ [.readEndpoint] :=
    not_mem_concat (by decide) (hf.unmarked (by simp [habs]))
  obtain ⟨hmain, hhealth, hloop⟩ : p'.main = .serving ∧ p'.health = p.health ∧
      ∀ host port b, p'.probe ≠ .probing host port (.reporting b) := by
    cases hurl : env.awsEndpointUrl with
    | none =>
      rw [hurl] at hp
      cases hp
      refine ⟨rfl, rfl, fun host port b hb => ?_⟩
      rw [show p.probe = .absent from habs] at hb
      cases hb
    | some endpoint =>
      rw [hurl] at hp
      cases hp
      refine ⟨rfl, rfl, fun host port b hb => ?_⟩
      -- the loop of a spawned task is at its first tick
      rcases spawnStorageHealthProbe_cases env endpoint with hs | ⟨_, _, _, _, _, _, hs⟩
      · rw [show spawnStorageHealthProbe env endpoint = _ from hb] at hs
        cases hs
      · rw [show spawnStorageHealthProbe env endpoint = _ from hb] at hs
        cases hs
  refine ⟨by rw [hhealth]; exact hf.others, ?_, fun _ => hnone, fun _ => hun,
    fun host port b hb => absurd hb (hloop host port b),
    hf.ready_same hhealth (fun _ => Or.inl hm) (by decide) (by decide)⟩
  rintro (hs | hs)
  · rw [hmain] at hs
    cases hs
  · rw [hmain] at hs
    cases hs

theorem Follows.signal (hf : p.Follows es) (h : p.step env .signal = some p') :
    p'.Follows (es ++ [.signal]) := by
  obtain ⟨hm, ⟨⟩⟩ := Option.ite_none_right_eq_some.1 h
  refine ⟨hf.others, fun hs => by simp at hs, ?_, fun hp => not_mem_concat (by decide) (hf.unmarked hp), ?_,
    hf.ready_same rfl (fun _ => Or.inr (Or.inl hm)) (by decide) (by decide)⟩
  · intro hp
    rw [lastReported_concat (by decide)]
    exact hf.absent hp
  · intro host port b hp
    rw [lastFound_concat]
    exact hf.reporting host port b hp

theorem Follows.setNotServing (hf : p.Follows es) (h : p.step env .setNotServing = some p') :
    p'.Follows (es ++ [.setNotServing]) := by
  obtain ⟨-, ⟨⟩⟩ := Option.ite_none_right_eq_some.1 h
  refine ⟨others_update rfl hf.others, fun hs => by simp at hs, ?_,
    fun hp => not_mem_concat (by decide) (hf.unmarked hp), ?_, fun hup => by simp [Up] at hup⟩
  · intro hp
    rw [lastReported_concat (by decide)]
    exact hf.absent hp
  · intro host port b hp
    rw [lastFound_concat]
    exact hf.reporting host port b hp

theorem Follows.exit (hf : p.Follows es) (h : p.step env .exit = some p') :
    p'.Follows (es ++ [.exit]) := by
  obtain ⟨-, ⟨⟩⟩ := Option.ite_none_right_eq_some.1 h
  exact ⟨hf.others, fun hs => by simp at hs, fun hp => (nomatch hp), fun hp => absurd rfl hp,
    fun _ _ _ hp => (nomatch hp), fun hup => by simp [Up] at hup⟩

/-- The report of a malformed endpoint is the last event that this endpoint causes. -/
theorem Follows.reportMalformed (hf : p.Follows es) (h : p.step env .reportMalformed = some p') :
    p'.Follows (es ++ [.reportMalformed]) := by
  obtain ⟨hm, ⟨⟩⟩ := Option.ite_none_right_eq_some.1 h
  refine ⟨others_update rfl hf.others, ?_, fun hp => (nomatch hp), fun hp => absurd rfl hp,
    fun _ _ _ hp => (nomatch hp), fun _ => iff_of_false (not_ready_setNotServing rfl) ?_⟩
  · intro hs
    rw [hf.early hs] at hm
    cases hm
  · rintro ⟨hno, -⟩
    exact hno (List.mem_append_right _ (List.mem_singleton.2 rfl))

/-- A step of the loop, where `main` is past its start. -/
theorem Follows.stepProbe (hf : p.Follows es) (h : p.stepProbe e = some p') : p'.Follows (es ++ [e]) := by
  obtain ⟨hmain, host, port, l, hl, -⟩ := stepProbe_cases h
  have hun : .reportMalformed ∉ es := hf.unmarked (by simp [hl])
  have hup : p'.Up → p.Up := by
    unfold Up
    rw [hmain]
    exact id
  have hearly : p'.main = .starting ∨ p'.main = .registered → p'.probe = .absent := by
    intro hs
    rw [hmain] at hs
    rw [hf.early hs] at hl
    cases hl
  unfold Process.stepProbe at h
  split at h
  · cases h
    exact ⟨hf.others, hearly, fun hp => (nomatch hp), fun _ => not_mem_concat (by decide) hun,
      fun _ _ _ hp => (nomatch hp), hf.ready_same rfl hup (by decide) (by decide)⟩
  · -- what will be reported next is what this attempt found
    rename_i host port r hp
    cases h
    refine ⟨hf.others, hearly, fun hp => (nomatch hp), fun _ => not_mem_concat (by simp) hun, ?_,
      hf.ready_same rfl hup (by simp) (by simp)⟩
    intro _ _ b hb
    cases hb
    rw [lastFound_concat]
    rfl
  · rename_i host port b hp
    cases h
    have hfound := hf.reporting host port b hp
    refine ⟨?_, hearly, fun hp => (nomatch hp), fun _ => not_mem_concat (by decide) hun,
      fun _ _ _ hp => (nomatch hp), fun _ => ?_⟩
    · cases b with
      | true => exact others_update rfl hf.others
      | false => exact others_update rfl hf.others
    · rw [favourable_report hun hfound]
      cases b with
      | true => exact iff_of_true (ready_setServing rfl) rfl
      | false => exact iff_of_false (not_ready_setNotServing rfl) Bool.false_ne_true
  · cases h

theorem Follows.step (hf : p.Follows es) (h : p.step env e = some p') : p'.Follows (es ++ [e]) := by
  cases e with
  | setServing => exact hf.setServing h
  | readEndpoint => exact hf.readEndpoint h
  | signal => exact hf.signal h
  | setNotServing => exact hf.setNotServing h
  | exit => exact hf.exit h
  | reportMalformed => exact hf.reportMalformed h
  | tick => exact hf.stepProbe h
  | connect r => exact hf.stepProbe h
  | report => exact hf.stepProbe h

theorem follows_run (h : run (Process.step env) Process.start es = some p) : p.Follows es := by
  induction es using List.reverseRecOn generalizing p with
  | nil =>
    cases h
    exact Follows.start
  | append_singleton es e ih =>
    obtain ⟨t, ht, hs⟩ := run_concat.1 h
    exact (ih ht).step hs

/-! ## Which events an endpoint can cause -/

/-- An endpoint that is unset, or that is probed, is never reported as malformed. -/
theorem no_reportMalformed (henv : env.awsEndpointUrl = none ∨ env.Probed)
    (h : run (Process.step env) Process.start es = some p) : .reportMalformed ∉ es := by
  have hkeep : ∀ (q : Process) (e : HealthEvent) (q' : Process),
      q.probe ≠ .malformed → q.step env e = some q' → q'.probe ≠ .malformed := by
    intro q e q' hq hs
    rcases step_cases hs with ⟨-, rfl⟩ | ⟨-, rfl⟩ | ⟨-, rfl⟩ | ⟨-, rfl⟩ | rfl | ⟨-, rfl⟩ | hs
    · exact hq
    · rcases henv with hnone | ⟨endpoint, parsed, hurl, hparse, hhost, hport⟩
      · simpa [hnone] using hq
      · obtain ⟨host, hhost⟩ := Option.isSome_iff_exists.1 hhost
        obtain ⟨port, hport⟩ := Option.isSome_iff_exists.1 hport
        simp [hurl, spawnStorageHealthProbe, hparse, hhost, hport]
    · exact hq
    · exact hq
    · exact nofun
    · exact nofun
    · unfold Process.stepProbe at hs
      split at hs
      · cases hs
        exact nofun
      · cases hs
        exact nofun
      · cases hs
        exact nofun
      · cases hs
  exact run_not_mem hkeep (fun q hq => if_neg hq) (by exact nofun) h

/-- An endpoint that is not probed has nothing to report on. -/
theorem no_report (henv : ¬ env.Probed) (h : run (Process.step env) Process.start es = some p) :
    .report ∉ es := by
  refine run_not_mem (P := NoLoop) (fun _ _ _ hq hs => hq.step henv hs) ?_ (fun _ _ _ hl => by cases hl) h
  intro q hq
  cases hs : q.step env .report with
  | none => rfl
  | some q' =>
    obtain ⟨-, host, port, l, hl, -⟩ := stepProbe_cases hs
    exact absurd hl (hq host port l)

end Process

/-! ## Readiness in terms of the events so far -/

open Process

/-- **Readiness before shutdown.** After any run that the shutdown has not come to yet, the service
is ready exactly if its endpoint has not been reported as malformed and the last attempt that was
reported on, if there was one, found it reachable. The first never happens to an endpoint that is
unset or probed, and the second only to one that is probed. Nothing is ever reported on any other
service, or on the server as a whole. -/
theorem readiness_follows_probe (env : ProcessEnv) {es : List HealthEvent} {p : Process}
    (h : run (step env) start es = some p) :
    (∀ name, name ≠ serviceName → p.health name = HealthReporter.new name) ∧
    (p.Up → (p.Ready ↔ .reportMalformed ∉ es ∧ ∀ r, lastReported es = some r → r = .connected)) ∧
    (env.awsEndpointUrl = none ∨ env.Probed → .reportMalformed ∉ es) ∧
    (¬ env.Probed → lastReported es = none) := by
  have hf := follows_run h
  exact ⟨hf.others, hf.ready, fun henv => no_reportMalformed henv h,
    fun henv => lastReported_eq_none (no_report henv h)⟩

/-- The store goes away and comes back. The second attempt is not reported on yet. -/
theorem readiness_follows_probe_minio : ∃ p : Process,
    run (step minioEnv) start
      [.setServing, .readEndpoint, .tick, .connect .elapsed, .report, .tick, .connect .connected] = some p ∧
      p.health "" = some .serving ∧ ¬ p.Ready := by
  have hrun : run (step minioEnv) start
      [.setServing, .readEndpoint, .tick, .connect .elapsed, .report, .tick, .connect .connected] =
      some ⟨.serving, .probing "minio" 9000 (.reporting true),
        HealthReporter.new.setServing.setNotServing⟩ := rfl
  obtain ⟨hothers, hready, -, -⟩ := readiness_follows_probe minioEnv hrun
  refine ⟨_, hrun, (hothers "" (by decide)).trans rfl, fun hr => ?_⟩
  have hlast := ((hready (Or.inr (Or.inl rfl))).1 hr).2 .elapsed rfl
  cases hlast

end DeltaTxn
