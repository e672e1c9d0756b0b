import DeltaTxn.Proof.Calls
import DeltaTxn.Proof.Serial

/-!
# The logs of a deployment have no gaps

No lock is shared by two replicas, so between two steps of a request anyone may write to its
table. What a request may rely on is only that no entry is ever taken out of a log. That is enough:
a write starts from a version that the request has seen, and which is therefore still there.

* `outline`: what every request guarantees to all others.
* `program_safe`: a request of any of the three RPCs, verified against it.
* `Deployment.Reachable.contiguous`: the logs have no gaps, in every reachable state.
-/

namespace DeltaTxn

open Conc

variable {ρ ι : Type}

namespace Replicas

/-- No log has a gap. -/
def NoGaps (w : World ρ ι) : Prop := ∀ url, (w.log url).Contiguous

theorem noGaps_start {log : Url → Version → Option (List Kernel.Action)} (hlog : LogsContiguous log) :
    NoGaps (World.start log : World ρ ι) := by
  intro url m n hmn hn
  simp only [World.start, Option.isSome_map] at hn ⊢
  exact hlog url m n hmn hn

/-- No entry is taken out of a log. -/
def Keeps (w w' : World ρ ι) : Prop :=
  ∀ url n, (w.log url n).isSome = true → (w'.log url n).isSome = true

variable [DecidableEq ρ] {D : Deployment ρ ι} {i : ι} {o : Op} {b : Ans o} {w w' : World ρ ι} {url : Url}

omit [DecidableEq ρ] in
theorem keeps_of_log (h : w'.log = w.log) : Keeps w w' := by
  intro url n hn
  rw [h]
  exact hn

/-- A call that does not write leaves the logs alone. -/
theorem exec_log_of_not_writes (hx : D.machine.exec i o b w w') (ho : ¬ o.Writes) :
    w'.log = w.log := by
  rcases Setting.exec_log hx.1 with ⟨hlog, -⟩ | ⟨u, base, acts, n, hputs, -⟩
  · exact hlog
  · obtain ⟨op, b', hcall⟩ := hputs.eq_commitBuilder
    cases hcall
    exact absurd trivial ho

/-- **The proof outline of a deployment.** -/
def outline (D : Deployment ρ ι) : Config.Outline D.machine where
  inv := NoGaps
  rely _ := Keeps
  rely_refl _ w := keeps_of_log rfl
  rely_trans h h' url n hn := h' url n (h url n hn)
  drop_ok := by
    intro i w w' hw hd
    have hlog := Setting.drop_log hd
    refine ⟨fun url => ?_, fun _ _ => keeps_of_log hlog⟩
    rw [hlog]
    exact hw url

variable {α : Type} {Q : α → World ρ ι → Prop}

theorem quiet_guar (hx : ((outline D).rules i).exec o b w w') (ho : ¬ o.Writes) :
    ((outline D).rules i).guar w w' := by
  obtain ⟨hw, hx⟩ := hx
  have hlog := exec_log_of_not_writes hx ho
  refine ⟨fun url => ?_, fun _ _ => keeps_of_log hlog⟩
  rw [hlog]
  exact hw url

/-- A program without a write. -/
theorem wp_quiet {R : α → Prop} {p : Prog Op Ans α} (hp : p.All (fun o => ¬ o.Writes) R)
    (hQ : ∀ a w, R a → Q a w) : Prog.wp ((outline D).rules i) p Q w := by
  refine Prog.wp_of_all (I := fun _ => True) hp (fun _ _ _ _ => trivial) ?_ (fun a s hR _ => hQ a s hR)
    trivial
  exact fun o b s s' ho _ hx => ⟨quiet_guar hx ho, trivial⟩

/-- The version that a write starts from is in the log. -/
def Based (url : Url) (base : Option Version) (w : World ρ ι) : Prop :=
  ∀ v, base = some v → (w.log url v).isSome = true

omit [DecidableEq ρ] in
theorem Based.keeps {base : Option Version} (h : Based url base w) (hk : Keeps w w') :
    Based url base w' :=
  fun v hv => hk url v (h v hv)

omit [DecidableEq ρ] in
/-- **A write from a version that is in the log** leaves no gap. -/
theorem put_noGaps {base : Option Version} {n : Version} (hw : NoGaps w) (hb : Based url base w)
    (hn : (w.log url).Lands base n) (e : LogEntry ι) : NoGaps (w.put url n e) := by
  have hend : n = 0 ∨ ∃ v, (w.log url v).isSome = true ∧ n = v + 1 := by
    obtain ⟨-, h | ⟨-, v, hv, rfl⟩⟩ := hn
    · cases base with
      | none => exact Or.inl h
      | some v => exact Or.inr ⟨v, hb v rfl, h⟩
    · exact Or.inr ⟨v, hv.1, rfl⟩
  intro u
  by_cases hu : u = url
  · subst hu
    simp only [World.put, Function.update_self]
    exact Serial.contiguous_put (hw u) hn.1 hend e
  · simp only [World.put, Function.update_of_ne hu]
    exact hw u

omit [DecidableEq ρ] in
theorem put_keeps {n : Version} (e : LogEntry ι) : Keeps w (w.put url n e) := by
  intro u m hm
  rw [World.put_log]
  split
  · rfl
  · exact hm

/-- One write, and no other after it. -/
theorem wp_write {base : Option Version} {actions : List Kernel.Action} {op : DeltaOperation}
    {R : α → Prop} {k : Except DeltaTableError Version → Prog Op Ans α} (hb : Based url base w)
    (hk : ∀ b, (k b).All (fun o => ¬ o.Writes) R) (hQ : ∀ a w, R a → Q a w) :
    Prog.wp ((outline D).rules i) (.op (.commitBuilder url base actions op) k) Q w := by
  -- others may write first, but they leave the base where it is
  refine Prog.wp_op (Based url base) (fun _ _ h hr => h.keeps hr) ?_ hb
  rintro w b w' hb ⟨hw, hx, -⟩
  refine ⟨?_, wp_quiet (hk b) hQ⟩
  rcases Setting.exec_log hx with ⟨hlog, -⟩ | ⟨u, base', acts, n, hputs, hn, logged, -, rfl⟩
  · refine ⟨fun u => ?_, fun _ _ => keeps_of_log hlog⟩
    rw [hlog]
    exact hw u
  · obtain ⟨op', b', hcall⟩ := hputs.eq_commitBuilder
    cases hcall
    exact ⟨put_noGaps hw hb hn _, fun _ _ => put_keeps _⟩

/-! ## The requests -/

/-- Nothing is asked of the end of a request. -/
abbrev Done : α → World ρ ι → Prop := fun _ _ => True

theorem openTable_safe {opts : HashMap String}
    {Q : Except DeltaTxnError DeltaTable → World ρ ι → Prop}
    (hQ : ∀ r w, (∀ t, r = .ok t → t.url = url ∧ ∀ s, t.snapshot = .ok s →
      (w.log url s.version).isSome = true) → Q r w) :
    Prog.wp ((outline D).rules i) (openTable url opts).run Q w := by
  refine Prog.wp_op (fun _ => True) (fun _ _ _ _ => trivial) ?_ trivial
  rintro w b w' - ⟨hw, hx, -⟩
  obtain ⟨rfl, hlatest⟩ := hx
  refine ⟨⟨hw, fun _ _ => keeps_of_log rfl⟩, ?_⟩
  cases b with
  | error e => exact fun w'' _ => hQ _ w'' fun t ht => by cases ht
  | ok snapshot =>
    intro w'' hr
    refine hQ _ w'' fun t ht => ?_
    cases ht
    refine ⟨rfl, fun s hs => hr url s.version ?_⟩
    exact (hlatest s (congrArg Except.ok hs)).1

theorem commitActions_safe {t : DeltaTable} {actions : List Kernel.Action}
    (ht : ∀ s, t.snapshot = .ok s → (w.log t.url s.version).isSome = true) :
    Prog.wp ((outline D).rules i) (commitActions t actions).run Done w := by
  obtain ⟨u, snapshot⟩ := t
  cases snapshot with
  | error e => exact fun _ _ => trivial
  | ok s =>
    refine wp_write (R := fun _ => True) (fun v hv => ?_) (fun b => ?_) fun _ _ _ => trivial
    · cases hv
      exact ht s rfl
    · cases b <;> trivial

theorem createTable_safe {opts : HashMap String} {actions : List Kernel.Action}
    {p : Kernel.Protocol} {m : Kernel.Metadata} :
    Prog.wp ((outline D).rules i) (createTable url opts actions p m).run Done w := by
  have hbuild : (perform (.buildTable url opts)).All (fun o => ¬ o.Writes) fun _ => True :=
    Prog.all_call id
  refine Fallible.wp_mapErr_bind (fun _ _ _ _ _ => trivial) ?_
  refine wp_quiet hbuild fun r w _ => ?_
  cases r with
  | error e => trivial
  | ok u =>
    refine wp_write (R := fun _ => True) (fun v hv => by cases hv) (fun b => ?_) fun _ _ _ => trivial
    cases b with
    | error e => trivial
    | ok n =>
      change (if n.toInt64 ≠ 0 then _ else _ : Prog Op Ans (Except DeltaTxnError Int64)).All _ _
      split <;> trivial

theorem commitUpdate_safe {srv : DeltaTxnGrpcServer} {r : Pb.CommitRequest}
    {actions : List Kernel.Action} :
    Prog.wp ((outline D).rules i) (commitUpdate srv r url actions).run Done w := by
  refine Fallible.wp_mapErr_bind (fun _ _ _ _ _ => trivial) (openTable_safe ?_)
  intro r' w' ht
  cases r' with
  | error e => trivial
  | ok t =>
    obtain ⟨hurl, hsome⟩ := ht t rfl
    -- what was opened is still there after the check
    refine Fallible.wp_bind (fun _ _ _ _ _ => trivial) ?_
    intro w'' hr
    cases checkExpectedVersion r t with
    | error st => trivial
    | ok u =>
      refine Fallible.wp_mapErr_bind (fun _ _ _ _ _ => trivial) ?_
      refine Prog.wp_mono (fun r _ _ => ?_) (commitActions_safe fun s hs => ?_)
      · cases r with
        | error e => trivial
        | ok v => exact fun _ _ => trivial
      · rw [hurl]
        exact hr url s.version (hsome s hs)

theorem commitLocked_safe {srv : DeltaTxnGrpcServer} {r : Pb.CommitRequest}
    {actions : List Kernel.Action} :
    Prog.wp ((outline D).rules i) (commitLocked srv r url actions).run Done w := by
  have hexists : (tableExists url srv.storageOpts).run.All (Op.Reads srv url none) fun _ => True :=
    tableExists_reads
  refine Fallible.wp_mapErr_bind (fun _ _ _ _ _ => trivial) ?_
  refine wp_quiet (hexists.mono (fun _ h => h.2.1) fun _ h => h) fun x w _ => ?_
  cases x with
  | error e => trivial
  | ok x =>
    cases x with
    | true => exact commitUpdate_safe
    | false =>
      change Prog.wp _ (commitCreate srv r url actions).run _ w
      unfold commitCreate
      split
      · exact fun _ _ => trivial
      split
      · refine Fallible.wp_mapErr_bind (fun _ _ _ _ _ => trivial) ?_
        refine Prog.wp_mono (fun r _ _ => ?_) createTable_safe
        cases r with
        | error e => trivial
        | ok v => exact fun _ _ => trivial
      · exact fun _ _ => trivial

theorem commitChecked_safe {cr : Crates} {srv : DeltaTxnGrpcServer} {r : Pb.CommitRequest} :
    Prog.wp ((outline D).rules i) (commitChecked cr srv r url).run Done w := by
  cases hmap : mapActions cr r.actions with
  | error e =>
    rw [commitChecked_error hmap]
    exact fun _ _ => trivial
  | ok actions =>
    unfold commitChecked
    rw [hmap]
    refine Fallible.wp_bind (fun _ _ _ _ _ => trivial) fun w' _ => ?_
    -- the two calls of the lock do not touch the logs
    refine Prog.wp_op (fun _ => True) (fun _ _ _ _ => trivial) ?_ trivial
    intro w lock w₁ _ hx
    refine ⟨quiet_guar hx id, ?_⟩
    refine Prog.wp_op (fun _ => True) (fun _ _ _ _ => trivial) ?_ trivial
    intro w _ w₂ _ hx
    exact ⟨quiet_guar hx id, commitLocked_safe⟩

/-- A guarded handler is safe if its body is. -/
theorem guarded_safe {β : Type} {raw : String} {f : Except Status β → Reply}
    {srv : DeltaTxnGrpcServer} (body : Url → Eff Status β)
    (hbody : ∀ url w, Prog.wp ((outline D).rules i) (body url).run Done w) :
    Prog.wp ((outline D).rules i)
      (f <$> (normalizeAndCheckTableUri srv raw >>= body).run) Done w := by
  rw [map_eq_pure_bind]
  refine Prog.wp_bind (Prog.wp_mono (Q := Done) (fun _ _ _ _ _ => trivial) ?_)
  rw [guarded_run]
  split
  · exact fun _ _ => trivial
  refine Prog.wp_op (fun _ => True) (fun _ _ _ _ => trivial) ?_ trivial
  intro w b w' _ hx
  refine ⟨quiet_guar hx id, ?_⟩
  cases b with
  | error e => exact fun _ _ => trivial
  | ok url =>
    unfold guardedRest
    simp only
    split
    · exact fun _ _ => trivial
    · exact hbody url w'

/-- **A request of any of the three RPCs.** -/
theorem program_safe (D : Deployment ρ ι) (i : ι) (w : World ρ ι) :
    Prog.wp ((outline D).rules i) (D.program i) Done w := by
  unfold Deployment.program Rpc.program
  cases D.rpc i with
  | commit r => exact guarded_safe (commitChecked D.cr (D.srv (D.home i)) r) fun _ _ => commitChecked_safe
  | getTable r =>
    refine guarded_safe (getTableChecked D.cr (D.srv (D.home i))) fun url w => ?_
    exact wp_quiet ((getTableChecked_reads url).mono (fun _ h => h.2.1) fun _ h => h)
      fun _ _ _ => trivial
  | listActiveFiles r =>
    change Prog.wp _ (Reply.listActiveFiles <$>
      (listActiveFilesAndStream D.cr (D.srv (D.home i)) r).run) Done w
    rw [listActiveFilesAndStream_eq]
    refine guarded_safe _ fun url w => ?_
    exact wp_quiet ((streamTask_reads url).mono (fun _ h => h.2.1) fun _ h => h)
      fun _ _ _ => trivial

end Replicas

/-- **The logs of a deployment have no gaps**, in every reachable state, if they had none before. -/
theorem Deployment.Reachable.contiguous [DecidableEq ρ] [DecidableEq ι] {D : Deployment ρ ι}
    {log : Url → Version → Option (List Kernel.Action)} (hlog : LogsContiguous log) {c : D.State}
    (h : D.Reachable log c) (url : Url) : (c.shared.log url).Contiguous := by
  have hinit : Replicas.NoGaps (World.start log : World ρ ι) := Replicas.noGaps_start hlog
  have hall := Config.Reach.verified (Replicas.outline D) (Q := fun _ => Replicas.Done)
    (fun _ _ _ _ _ _ => trivial) (fun _ _ _ _ _ _ _ => trivial) hinit
    (fun i => Replicas.program_safe D i _) h
  exact hall.1 url

end DeltaTxn
