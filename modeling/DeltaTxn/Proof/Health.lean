import DeltaTxn.Conc.Steps
import DeltaTxn.Spec.Health

/-!
# Readiness after shutdown has begun

Once `shutdown_signal` has set `NOT_SERVING`, only the storage probe can report the service as
ready: its loop knows nothing of the shutdown.

* `step_ready`: what the step before a ready state was, while the process drains.
* `shutdown_readiness`: when the service stays not ready. For an endpoint that is unset or
  malformed in every run; for one that is probed, in exactly the runs in which no probe
  reports the endpoint as reachable after the shutdown began.
-/

namespace DeltaTxn

open Conc

/-- The endpoint is set, and `spawn_storage_health_probe` can probe it. -/
def ProcessEnv.Probed (env : ProcessEnv) : Prop :=
  ∃ endpoint parsed, env.awsEndpointUrl = some endpoint ∧ env.parse endpoint = some parsed ∧
    parsed.hostStr.isSome = true ∧ parsed.portOrKnownDefault.isSome = true

namespace Process

variable {env : ProcessEnv} {p p' : Process} {e : HealthEvent} {es : List HealthEvent}

/-- Shutdown has begun: `shutdown_signal` has set `NOT_SERVING`. -/
def ShutDown (p : Process) : Prop := p.main = .draining

/-- The event `e` is the report of a probe that found the endpoint reachable. -/
def ReportsReachable (p : Process) (e : HealthEvent) : Prop :=
  e = .report ∧ ∃ host port, p.probe = .probing host port (.reporting true)

/-! ## One step -/

theorem ready_setServing {r : HealthReporter} (h : p.health = r.setServing) : p.Ready := by
  simp [Ready, h, HealthReporter.setServing]

theorem not_ready_setNotServing {r : HealthReporter} (h : p.health = r.setNotServing) : ¬ p.Ready := by
  simp [Ready, h, HealthReporter.setNotServing]

/-- A step of the probe's loop leaves `main` alone. What it reports is what the probe found. -/
theorem stepProbe_cases (h : p.stepProbe e = some p') :
    p'.main = p.main ∧ ∃ host port l, p.probe = .probing host port l ∧
      (p'.health = p.health ∨ p'.health = p.health.setNotServing ∨
        e = .report ∧ l = .reporting true ∧ p'.health = p.health.setServing) := by
  unfold stepProbe at h
  split at h
  · rename_i host port hp
    cases h
    exact ⟨rfl, host, port, _, hp, Or.inl rfl⟩
  · rename_i host port r hp
    cases h
    exact ⟨rfl, host, port, _, hp, Or.inl rfl⟩
  · rename_i host port reachable hp
    cases h
    refine ⟨rfl, host, port, _, hp, Or.inr ?_⟩
    cases reachable with
    | true => exact Or.inr ⟨rfl, rfl, rfl⟩
    | false => exact Or.inl rfl
  · cases h

/-- **What a step can do**: it is one of `main`, the report of a malformed endpoint, or one of
the probe's loop. -/
theorem step_cases (h : p.step env e = some p') :
    (p.main = .starting ∧ p' = { p with main := .registered, health := p.health.setServing }) ∨
    (p.main = .registered ∧ p' = { p with
      main := .serving
      probe := (env.awsEndpointUrl.map (spawnStorageHealthProbe env)).getD p.probe }) ∨
    (p.main = .serving ∧ p' = { p with main := .signalled }) ∨
    (p.main = .signalled ∧ p' = { p with main := .draining, health := p.health.setNotServing }) ∨
    p' = { p with main := .exited, probe := .ended } ∨
    (p.probe = .malformed ∧ p' = { p with probe := .ended, health := p.health.setNotServing }) ∨
    p.stepProbe e = some p' := by
  cases e with
  | setServing =>
    obtain ⟨hm, ⟨⟩⟩ := Option.ite_none_right_eq_some.1 h
    exact Or.inl ⟨hm, rfl⟩
  | readEndpoint =>
    obtain ⟨hm, hp⟩ := Option.ite_none_right_eq_some.1 h
    refine Or.inr (Or.inl ⟨hm, ?_⟩)
    cases he : env.awsEndpointUrl with
    | none => rw [he] at hp; cases hp; rfl
    | some endpoint => rw [he] at hp; cases hp; rfl
  | signal =>
    obtain ⟨hm, ⟨⟩⟩ := Option.ite_none_right_eq_some.1 h
    exact Or.inr (Or.inr (Or.inl ⟨hm, rfl⟩))
  | setNotServing =>
    obtain ⟨hm, ⟨⟩⟩ := Option.ite_none_right_eq_some.1 h
    exact Or.inr (Or.inr (Or.inr (Or.inl ⟨hm, rfl⟩)))
  | exit =>
    obtain ⟨-, ⟨⟩⟩ := Option.ite_none_right_eq_some.1 h
    exact Or.inr (Or.inr (Or.inr (Or.inr (Or.inl rfl))))
  | reportMalformed =>
    obtain ⟨hm, ⟨⟩⟩ := Option.ite_none_right_eq_some.1 h
    exact Or.inr (Or.inr (Or.inr (Or.inr (Or.inr (Or.inl ⟨hm, rfl⟩)))))
  | tick => exact Or.inr (Or.inr (Or.inr (Or.inr (Or.inr (Or.inr h)))))
  | connect r => exact Or.inr (Or.inr (Or.inr (Or.inr (Or.inr (Or.inr h)))))
  | report => exact Or.inr (Or.inr (Or.inr (Or.inr (Or.inr (Or.inr h)))))

/-- **A process that drains is ready after a step** only if it was so before, or by the report
of a probe that found the endpoint reachable. -/
theorem step_ready (h : p.step env e = some p') (hd : p'.ShutDown) (hr : p'.Ready) :
    p.ShutDown ∧ (p.Ready ∨ p.ReportsReachable e) := by
  unfold ShutDown at hd ⊢
  rcases step_cases h with ⟨-, rfl⟩ | ⟨-, rfl⟩ | ⟨-, rfl⟩ | ⟨-, rfl⟩ | rfl | ⟨-, rfl⟩ | hs
  · cases hd
  · cases hd
  · cases hd
  · exact absurd hr (not_ready_setNotServing rfl)
  · cases hd
  · exact absurd hr (not_ready_setNotServing rfl)
  · obtain ⟨hmain, host, port, l, hl, hhealth⟩ := stepProbe_cases hs
    refine ⟨hmain ▸ hd, ?_⟩
    rcases hhealth with hsame | hnot | ⟨he, rfl, -⟩
    · left
      unfold Ready at hr ⊢
      rwa [← hsame]
    · exact absurd hr (not_ready_setNotServing hnot)
    · exact Or.inr ⟨he, host, port, hl⟩

/-- A late report makes a process ready that is shutting down. -/
theorem step_reportsReachable (hd : p.ShutDown) (hr : p.ReportsReachable e)
    (h : p.step env e = some p') : p'.ShutDown ∧ p'.Ready := by
  obtain ⟨rfl, host, port, hp⟩ := hr
  simp only [step, hp, stepProbe, if_true] at h
  cases h
  exact ⟨hd, ready_setServing rfl⟩

/-- That report is always possible. -/
theorem step_isSome_of_reportsReachable (env : ProcessEnv) (hr : p.ReportsReachable e) :
    ∃ p', p.step env e = some p' := by
  obtain ⟨rfl, host, port, hp⟩ := hr
  simp [step, hp, stepProbe]

/-! ## An endpoint that is not probed -/

theorem spawnStorageHealthProbe_cases (env : ProcessEnv) (endpoint : String) :
    spawnStorageHealthProbe env endpoint = .malformed ∨
      ∃ parsed host port, env.parse endpoint = some parsed ∧ parsed.hostStr = some host ∧
        parsed.portOrKnownDefault = some port ∧
        spawnStorageHealthProbe env endpoint = .probing host port .ticking := by
  unfold spawnStorageHealthProbe
  split
  · exact Or.inl rfl
  rename_i parsed hparse
  split
  · exact Or.inl rfl
  rename_i host hhost
  split
  · exact Or.inl rfl
  rename_i port hport
  exact Or.inr ⟨parsed, host, port, hparse, hhost, hport, rfl⟩

/-- No task runs the probe's loop. -/
def NoLoop (p : Process) : Prop := ∀ host port l, p.probe ≠ .probing host port l

theorem NoLoop.step (henv : ¬ env.Probed) (hp : p.NoLoop) (h : p.step env e = some p') :
    p'.NoLoop := by
  rcases step_cases h with ⟨-, rfl⟩ | ⟨-, rfl⟩ | ⟨-, rfl⟩ | ⟨-, rfl⟩ | rfl | ⟨-, rfl⟩ | hs
  · exact hp
  · intro host port l hl
    cases hurl : env.awsEndpointUrl with
    | none =>
      simp only [hurl, Option.map_none, Option.getD_none] at hl
      exact hp host port l hl
    | some endpoint =>
      simp only [hurl, Option.map_some, Option.getD_some] at hl
      rcases spawnStorageHealthProbe_cases env endpoint with hm | ⟨parsed, host', port', h1, h2, h3, -⟩
      · rw [hm] at hl
        cases hl
      · exact henv ⟨endpoint, parsed, hurl, h1, by rw [h2]; rfl, by rw [h3]; rfl⟩
  · exact hp
  · exact hp
  · intro host port l hl
    cases hl
  · intro host port l hl
    cases hl
  · obtain ⟨-, host, port, l, hl, -⟩ := stepProbe_cases hs
    exact absurd hl (hp host port l)

/-! ## An endpoint that is probed -/

/-- A probe finds the endpoint reachable while `main` shuts down, and reports it afterwards. -/
def lateRun : List HealthEvent :=
  [.setServing, .readEndpoint, .tick, .signal, .setNotServing, .connect .connected, .report]

theorem lateRun_ready (env : ProcessEnv) (h : env.Probed) :
    ∃ p, run (step env) start lateRun = some p ∧ p.ShutDown ∧ p.Ready := by
  obtain ⟨endpoint, parsed, hurl, hparse, hhost, hport⟩ := h
  obtain ⟨host, hhost⟩ := Option.isSome_iff_exists.1 hhost
  obtain ⟨port, hport⟩ := Option.isSome_iff_exists.1 hport
  have hspawn : spawnStorageHealthProbe env endpoint = .probing host port .ticking := by
    unfold spawnStorageHealthProbe
    rw [hparse]
    simp only [hhost, hport]
  refine ⟨⟨.draining, .probing host port .ticking,
    HealthReporter.new.setServing.setNotServing.setServing⟩, ?_, rfl, ready_setServing rfl⟩
  simp [lateRun, run, step, start, hurl, hspawn, stepProbe, ConnectResult.reachable]

end Process

/-! ## When the service stays not ready -/

open Process

/-- In every state that the run comes through after shutdown has begun, the service is not
ready. -/
def StaysNotReady (env : ProcessEnv) (es : List HealthEvent) : Prop :=
  ∀ p, Visits (step env) start es p → p.ShutDown → ¬ p.Ready

/-- **Readiness after shutdown has begun.** In any run the service stays not ready exactly if no
probe that found its endpoint reachable reports so after shutdown has begun. It does so in
all runs exactly if the endpoint is not probed: unset, or malformed. -/
theorem shutdown_readiness (env : ProcessEnv) :
    (∀ es, StaysNotReady env es ↔
      ∀ p e, Takes (step env) start es p e → p.ShutDown → ¬ p.ReportsReachable e) ∧
    ((∀ es, StaysNotReady env es) ↔ ¬ env.Probed) := by
  have run_iff : ∀ es, StaysNotReady env es ↔
      ∀ p e, Takes (step env) start es p e → p.ShutDown → ¬ p.ReportsReachable e := by
    intro es
    constructor
    · intro h p e ht hd hr
      obtain ⟨p', hs⟩ := step_isSome_of_reportsReachable env hr
      obtain ⟨hd', hready⟩ := step_reportsReachable hd hr hs
      exact h p' (ht.visits hs) hd' hready
    · intro h p hv
      refine hv.inv (P := fun p => p.ShutDown → ¬ p.Ready) (fun hd => by cases hd) ?_
      intro t e u ht hP hs hd hr
      obtain ⟨hd', hr' | hr'⟩ := step_ready hs hd hr
      · exact hP hd' hr'
      · exact h t e ht hd' hr'
  refine ⟨run_iff, ?_⟩
  constructor
  · intro h henv
    obtain ⟨p, hp, hd, hr⟩ := lateRun_ready env henv
    exact h lateRun p ⟨lateRun, List.prefix_rfl, hp⟩ hd hr
  · intro henv es
    rw [run_iff]
    rintro p e ⟨es', -, hp⟩ - ⟨-, host, port, hl⟩
    have hno : p.NoLoop := run_inv (fun _ _ _ hp hs => hp.step henv hs)
      (fun _ _ _ hl => by cases hl) hp
    exact hno host port _ hl

/-- The deployment with one object store. -/
def minioEnv : ProcessEnv where
  awsEndpointUrl := some "http://minio:9000"
  parse _ := some ⟨some "minio", some 9000⟩

/-- **A service that shuts down can report itself ready again.** -/
theorem shutdown_not_final : ¬ ∀ es, StaysNotReady minioEnv es := by
  intro h
  obtain ⟨p, hp, hd, hr⟩ := lateRun_ready minioEnv ⟨_, _, rfl, rfl, rfl, rfl⟩
  exact h lateRun p ⟨lateRun, List.prefix_rfl, hp⟩ hd hr

end DeltaTxn
