import DeltaTxn.Conc.Linear
import DeltaTxn.Spec.World

/-!
# What the logs hold

Whatever the requests are: a log changes by a `CommitBuilder` write only, and an entry that is there
stays as it is.

* `Setting.exec_log`: what a call does to the logs.
* `Setting.Governs`: a machine whose calls are answered as in a setting.
* `Governs.entry_persists`, `Governs.entry_of_write`, `Governs.entry_cases`: its entries.
-/

namespace DeltaTxn

open Conc

variable {ρ ι : Type}

theorem World.put_log (w : World ρ ι) (url u : Url) (n m : Version) (e : LogEntry ι) :
    (w.put url n e).log u m = if u = url ∧ m = n then some e else w.log u m := by
  unfold World.put
  by_cases hu : u = url
  · subst hu
    by_cases hm : m = n
    · subst hm; simp
    · simp [hm]
  · simp [hu]

/-- What is there before any of the requests has no author. -/
theorem World.start_entry {log : Url → Version → Option (List Kernel.Action)} {url : Url} {n : Version}
    {e : LogEntry ι} (he : (World.start log : World ρ ι).log url n = some e) :
    e.author = none ∧ log url n = some e.actions := by
  simp only [World.start, Option.map_eq_some_iff] at he
  obtain ⟨actions, hactions, rfl⟩ := he
  exact ⟨rfl, hactions⟩

/-! ## The entry of a write -/

theorem Logged.exists_of (actions : List Kernel.Action) : ∃ logged, Logged actions logged := by
  by_cases h : ∃ ci, Kernel.Action.commitInfo ci ∈ actions
  · obtain ⟨ci, hci⟩ := h
    exact ⟨actions, .asHanded ci hci⟩
  · push Not at h
    exact ⟨_, .withInfo ⟨none, none, none, none, none⟩ h⟩

/-- A scan for anything but a CommitInfo finds in the entry what it finds in the actions. -/
theorem Logged.findSome?_eq {β : Type} {f : Kernel.Action → Option β} {actions logged : List Kernel.Action}
    (h : Logged actions logged) (hf : ∀ ci, f (.commitInfo ci) = none) :
    logged.findSome? f = actions.findSome? f := by
  cases h with
  | asHanded ci _ => rfl
  | withInfo ci _ => rw [List.findSome?_cons, hf ci]

theorem Logged.findMetadata_eq {actions logged : List Kernel.Action} (h : Logged actions logged) :
    findMetadata logged = findMetadata actions :=
  h.findSome?_eq fun _ => rfl

/-! ## One call -/

/-- **The call may have put version `n`** of the table at `url`, from `actions`: it was answered `n`,
or an error that may have come after the write. -/
inductive Call.Puts (late : Bool) (url : Url) (base : Option Version) (n : Version)
    (actions : List Kernel.Action) : Call → Prop
  | told (op : DeltaOperation) :
    Call.Puts late url base n actions ⟨.commitBuilder url base actions op, .ok n⟩
  | late (op : DeltaOperation) (e : DeltaTableError) (hlate : late = true) (he : e.isConflict = false) :
    Call.Puts late url base n actions ⟨.commitBuilder url base actions op, .error e⟩

theorem Call.Puts.of_not_late {url : Url} {base : Option Version} {n : Version}
    {actions : List Kernel.Action} {x : Call} (h : Call.Puts false url base n actions x) :
    ∃ op, x = ⟨.commitBuilder url base actions op, .ok n⟩ := by
  cases h with
  | told op => exact ⟨op, rfl⟩
  | late op e hlate he => cases hlate

theorem Call.Puts.eq_commitBuilder {late : Bool} {url : Url} {base : Option Version} {n : Version}
    {actions : List Kernel.Action} {x : Call} (h : Call.Puts late url base n actions x) :
    ∃ op b, x = ⟨.commitBuilder url base actions op, b⟩ := by
  cases h with
  | told op => exact ⟨op, .ok n, rfl⟩
  | late op e hlate he => exact ⟨op, .error e, rfl⟩

variable [DecidableEq ρ] {S : Setting ρ ι} {i : ι} {w w' : World ρ ι}

/-- **A call changes the log only by a write**, and then by one entry at a free version. -/
theorem Setting.exec_log {o : Op} {b : Ans o} (h : S.Exec i o b w w') :
    (w'.log = w.log ∧ ∀ url base actions op n,
      (⟨o, b⟩ : Call) ≠ ⟨.commitBuilder url base actions op, .ok n⟩) ∨
      ∃ url base actions n, Call.Puts S.lateErrors url base n actions ⟨o, b⟩ ∧
        w.Landed i url base actions n w' := by
  cases o with
  | ensureTableUri raw => exact Or.inl ⟨by rw [h.2], by rintro - - - - - ⟨⟩⟩
  | lockFor key => exact Or.inl ⟨by rw [h.2]; rfl, by rintro - - - - - ⟨⟩⟩
  | lock n =>
    obtain ⟨m, -, rfl⟩ := h
    exact Or.inl ⟨rfl, by rintro - - - - - ⟨⟩⟩
  | buildTable url opts => exact Or.inl ⟨by rw [show w' = w from h], by rintro - - - - - ⟨⟩⟩
  | isDeltaTableLocation url => exact Or.inl ⟨by rw [h.1], by rintro - - - - - ⟨⟩⟩
  | openTable url opts => exact Or.inl ⟨by rw [h.1], by rintro - - - - - ⟨⟩⟩
  | commitBuilder url base actions op =>
    cases b with
    | ok n => exact Or.inr ⟨url, base, actions, n, .told op, h⟩
    | error e =>
      rcases h with ⟨rfl, -⟩ | ⟨hlate, he, n, hland⟩
      · exact Or.inl ⟨rfl, by rintro - - - - - ⟨⟩⟩
      · exact Or.inr ⟨url, base, actions, n, .late op e hlate he, hland⟩
  | send item => exact Or.inl ⟨by rw [show w' = w from h], by rintro - - - - - ⟨⟩⟩

theorem Setting.drop_log (h : S.Drop i w w') : w'.log = w.log := by
  obtain ⟨-, -, -, m, -, -, -, -, rfl⟩ := h
  rfl

/-! ## Whole runs -/

/-- **A machine whose calls are answered as in `S`**, though perhaps not every such answer is one of
its own. -/
structure Setting.Governs (S : Setting ρ ι) (M : Conc.Machine ι Op Ans (World ρ ι)) : Prop where
  exec : ∀ {i o b w w'}, M.exec i o b w w' → S.Exec i o b w w'
  drop : ∀ {i w w'}, M.drop i w w' → S.Drop i w w'

theorem Setting.governs (S : Setting ρ ι) : S.Governs S.machine := ⟨id, id⟩

namespace Setting.Governs

variable [DecidableEq ι] {M : Conc.Machine ι Op Ans (World ρ ι)} {α : Type}
  {c₀ c c' : Config ι Op Ans α (World ρ ι)} {url : Url} {n : Version} {e : LogEntry ι}

/-- **An entry stays as it is.** -/
theorem entry_persists (hM : S.Governs M) (h : Config.Reach M c c')
    (he : c.shared.log url n = some e) : c'.shared.log url n = some e := by
  induction h with
  | refl => exact he
  | tail _ hst ih =>
    cases hst with
    | exec _ hx =>
      rcases Setting.exec_log (hM.exec hx) with ⟨hlog, -⟩ | ⟨u, base, acts, m, -, hland, logged, -, rfl⟩
      · rw [hlog]
        exact ih
      · rw [World.put_log, if_neg]
        · exact ih
        · -- a write only lands on a free version
          rintro ⟨rfl, rfl⟩
          rw [hland.1] at ih
          cases ih
    | finish _ => exact ih
    | cancel _ => exact ih
    | drop _ hd =>
      rw [Setting.drop_log (hM.drop hd)]
      exact ih

/-- A write that was told so is in the log. -/
theorem entry_of_write (hM : S.Governs M) (h : Config.Reach M c₀ c) (h₀ : c₀.calls = [])
    {base : Option Version} {actions : List Kernel.Action} {op : DeltaOperation}
    (hx : (i, ⟨.commitBuilder url base actions op, .ok n⟩) ∈ c.calls) :
    ∃ logged, Logged actions logged ∧ c.shared.log url n = some ⟨some i, logged⟩ := by
  obtain ⟨c₁, c₂, -, hst, hcalls, h₂⟩ := Config.Reach.at_call h h₀ hx
  obtain ⟨-, logged, hlogged, hput⟩ := hM.exec (hst.exec_of_calls hcalls)
  refine ⟨logged, hlogged, hM.entry_persists h₂ ?_⟩
  rw [hput, World.put_log, if_pos ⟨rfl, rfl⟩]

/-- **Where an entry comes from**: it was there before, or a request has written it. -/
theorem entry_cases (hM : S.Governs M) (h : Config.Reach M c₀ c)
    (he : c.shared.log url n = some e) :
    c₀.shared.log url n = some e ∨
      ∃ i x base actions, (i, x) ∈ c.calls ∧ Call.Puts S.lateErrors url base n actions x ∧
        e.author = some i ∧ Logged actions e.actions := by
  induction h with
  | refl => exact Or.inl he
  | @tail c c' _ hst ih =>
    cases hst with
    | @exec j o k b w _ hx =>
      have hold : c.shared.log url n = some e → c₀.shared.log url n = some e ∨
          ∃ i x base actions, (i, x) ∈ c.calls ++ [(j, ⟨o, b⟩)] ∧
            Call.Puts S.lateErrors url base n actions x ∧ e.author = some i ∧
            Logged actions e.actions := by
        intro he
        rcases ih he with hbefore | ⟨i, x, base, actions, hx, hrest⟩
        · exact Or.inl hbefore
        · exact Or.inr ⟨i, x, base, actions, List.mem_append_left _ hx, hrest⟩
      rcases Setting.exec_log (hM.exec hx) with
        ⟨hlog, -⟩ | ⟨u, base, acts, m, hputs, -, logged, hlogged, rfl⟩
      · rw [hlog] at he
        exact hold he
      · rw [World.put_log] at he
        split at he
        · rename_i hat
          obtain ⟨rfl, rfl⟩ := hat
          cases he
          exact Or.inr ⟨j, _, base, acts, List.mem_append_right _ (List.mem_singleton_self _), hputs,
            rfl, hlogged⟩
        · exact hold he
    | finish _ => exact ih he
    | cancel _ => exact ih he
    | drop _ hd =>
      have hlog := Setting.drop_log (hM.drop hd)
      simp only [hlog] at he
      exact ih he

end Setting.Governs

end DeltaTxn
