import DeltaTxn.Proof.Atomic
import DeltaTxn.Proof.Params
import Mathlib.Data.List.Forall2

/-!
# What a table is created from

`commit` looks for a Protocol and a Metadata in the mapped actions, takes the first of each,
and hands the whole list to `create_table`, which requires exactly one of each.

* `mapActions_forall₂`: mapping keeps the actions in order, and so their kinds.
* `commitCreate_cases`: when the creation is refused, and what it does otherwise.
* `create_unambiguous_iff`: which requests meet what `create_table` requires.
-/

namespace DeltaTxn

open Conc

variable {cr : Crates}

/-! ## Protocol and Metadata actions -/

def Pb.Action.toProtocol (a : Pb.Action) : Option Pb.Protocol :=
  match a.action with
  | some (.protocol p) => some p
  | _ => none

def Pb.Action.toMetadata (a : Pb.Action) : Option Pb.TableMetadata :=
  match a.action with
  | some (.metaData m) => some m
  | _ => none

def Kernel.Action.toProtocol : Kernel.Action → Option Kernel.Protocol
  | .protocol p => some p
  | _ => none

def Kernel.Action.toMetadata : Kernel.Action → Option Kernel.Metadata
  | .metadata m => some m
  | _ => none

/-- The Protocol actions of a list, in order. -/
def protocolsOf (actions : List Kernel.Action) : List Kernel.Protocol :=
  actions.filterMap Kernel.Action.toProtocol

/-- The Metadata actions of a list, in order. -/
def metadatasOf (actions : List Kernel.Action) : List Kernel.Metadata :=
  actions.filterMap Kernel.Action.toMetadata

/-- The scan finds the first one. -/
theorem findProtocol_eq (actions : List Kernel.Action) :
    findProtocol actions = (protocolsOf actions).head? := by
  rw [protocolsOf, List.head?_filterMap]
  rfl

theorem findMetadata_eq (actions : List Kernel.Action) :
    findMetadata actions = (metadatasOf actions).head? := by
  rw [metadatasOf, List.head?_filterMap]
  rfl

/-- Each action is mapped by itself, and in order. -/
theorem mapActions_forall₂ {wire : List Pb.Action} {actions : List Kernel.Action}
    (h : mapActions cr wire = .ok actions) :
    List.Forall₂ (fun a k => mapAction cr a = .ok k) wire actions :=
  Traverse.mapM_ok_iff.1 h

/-- A mapped action is a Protocol, or a Metadata, if the wire action is one. -/
theorem mapAction_definitions {a : Pb.Action} {k : Kernel.Action} (h : mapAction cr a = .ok k) :
    Option.Rel (fun p p' => mapProtocol cr p = .ok p') a.toProtocol k.toProtocol ∧
      Option.Rel (fun m m' => mapMetadata cr m = .ok m') a.toMetadata k.toMetadata := by
  obtain ⟨_ | w⟩ := a
  · cases h
  cases w with
  | protocol p =>
    obtain ⟨p', hp, rfl⟩ := Traverse.map_eq_ok h
    exact ⟨.some hp, .none⟩
  | metaData m =>
    obtain ⟨m', hm, rfl⟩ := Traverse.map_eq_ok h
    exact ⟨.none, .some hm⟩
  | commitInfo ci =>
    obtain ⟨_, -, rfl⟩ := Traverse.map_eq_ok h
    exact ⟨.none, .none⟩
  | add a =>
    obtain ⟨_, -, rfl⟩ := Traverse.map_eq_ok h
    exact ⟨.none, .none⟩
  | remove r =>
    obtain ⟨_, -, rfl⟩ := Traverse.map_eq_ok h
    exact ⟨.none, .none⟩

/-- **The Protocols and Metadata of a mapped list** are the images of those on the wire. -/
theorem mapActions_definitions {wire : List Pb.Action} {actions : List Kernel.Action}
    (h : mapActions cr wire = .ok actions) :
    List.Forall₂ (fun p p' => mapProtocol cr p = .ok p')
        (wire.filterMap Pb.Action.toProtocol) (protocolsOf actions) ∧
      List.Forall₂ (fun m m' => mapMetadata cr m = .ok m')
        (wire.filterMap Pb.Action.toMetadata) (metadatasOf actions) := by
  have hall := mapActions_forall₂ h
  constructor
  · exact List.rel_filterMap (fun a k ha => (mapAction_definitions (a := a) (k := k) ha).1) hall
  · exact List.rel_filterMap (fun a k ha => (mapAction_definitions (a := a) (k := k) ha).2) hall

/-! ## The creation -/

variable {srv : DeltaTxnGrpcServer} {r : Pb.CommitRequest} {url : Url}
  {actions : List Kernel.Action} {t : List Call} {a : Except Status Pb.CommitResponse}

/-- **The creation**: refused without a call, or carried out with the first Protocol and the first
Metadata of the list. -/
theorem commitCreate_cases (h : (commitCreate srv r url actions).run.Completes t a) :
    (t = [] ∧ ∃ st, a = .error st ∧ st.code = .failedPrecondition) ∨
      r.expectedVersion = none ∧ ∃ p m b, findProtocol actions = some p ∧
        findMetadata actions = some m ∧
        ((∃ e, t = [⟨.buildTable url srv.storageOpts, .error e⟩]) ∨
          t = [⟨.buildTable url srv.storageOpts, .ok ()⟩,
            ⟨.commitBuilder url none actions (.create .errorIfExists url p m), b⟩]) := by
  unfold commitCreate at h
  split at h
  · obtain ⟨rfl, rfl⟩ := Prog.completes_ret.1 h
    exact Or.inl ⟨rfl, _, rfl, rfl⟩
  rename_i hexp
  have hexp : r.expectedVersion = none := by
    cases hr : r.expectedVersion with
    | none => rfl
    | some e => exact absurd (by rw [hr]; rfl) hexp
  split at h
  · rename_i p m hp hm
    refine Or.inr ⟨hexp, p, m, ?_⟩
    rcases Fallible.completes_mapErr_bind h with ⟨e, h₁, -⟩ | ⟨t₁, t₂, v, rfl, h₁, h₂⟩
    · rcases createTable_runs h₁ with ⟨e', rfl, -⟩ | ⟨x, rfl, -⟩
      · exact ⟨.ok 0, hp, hm, Or.inl ⟨e', rfl⟩⟩
      · exact ⟨x, hp, hm, Or.inr rfl⟩
    · obtain ⟨rfl, -⟩ := Prog.completes_ret.1 h₂
      rw [List.append_nil]
      rcases createTable_runs h₁ with ⟨e', rfl, -⟩ | ⟨x, rfl, -⟩
      · exact ⟨.ok 0, hp, hm, Or.inl ⟨e', rfl⟩⟩
      · exact ⟨x, hp, hm, Or.inr rfl⟩
  · obtain ⟨rfl, rfl⟩ := Prog.completes_ret.1 h
    exact Or.inl ⟨rfl, _, rfl, rfl⟩

/-- A run of Commit that found no table, from there on. -/
theorem commit_notFound_runs (h : (commit cr srv r).run.Completes t a) {u : Url}
    (hmiss : (⟨.isDeltaTableLocation u, .ok false⟩ : Call) ∈ t) :
    ∃ url actions lock t', mapActions cr r.actions = .ok actions ∧
      t = [⟨.ensureTableUri r.tableUri, .ok url⟩, ⟨.lockFor url.asStr, lock⟩, ⟨.lock lock, ()⟩,
        ⟨.buildTable url srv.storageOpts, .ok ()⟩, ⟨.isDeltaTableLocation url, .ok false⟩] ++ t' ∧
      (commitCreate srv r url actions).run.Completes t' a := by
  rcases commit_runs h with ⟨st, -, -, ht⟩ | ⟨url, actions, lock, t', hmap, rfl, hl⟩
  · rcases ht with rfl | ⟨x, rfl⟩
    · simp at hmiss
    · simp at hmiss
  rcases commitLocked_paths hl with ⟨e, rfl, -⟩ | ⟨e, rfl, -⟩ | ⟨t', rfl, hu⟩ | ⟨t', rfl, hc⟩
  · simp at hmiss
  · simp at hmiss
  · cases commitUpdate_runs hu <;> simp at hmiss
  · exact ⟨url, actions, lock, t', hmap, rfl, hc⟩

/-! ## The requirement of `create_table` -/

/-- `create_table` is reached: a table is built right after none was found. -/
def ReachesCreate (t : List Call) : Prop :=
  ∃ url opts b, [⟨.isDeltaTableLocation url, .ok false⟩, ⟨.buildTable url opts, b⟩] <:+: t

/-- **The request creates a table only from one definition**: in every run that finds no table,
`create_table` is reached only with exactly one Protocol and one Metadata, which are then the
ones recorded in the operation, and every other list is rejected with nothing written. -/
def CreatesUnambiguously (cr : Crates) (r : Pb.CommitRequest) : Prop :=
  ∀ (srv : DeltaTxnGrpcServer) (t : List Call) (a : Except Status Pb.CommitResponse) (u : Url)
    (actions : List Kernel.Action), (commit cr srv r).run.Completes t a →
    (⟨.isDeltaTableLocation u, .ok false⟩ : Call) ∈ t → mapActions cr r.actions = .ok actions →
    (ReachesCreate t → (protocolsOf actions).length = 1 ∧ (metadatasOf actions).length = 1) ∧
    (∀ url base acts mode location p m b,
      (⟨.commitBuilder url base acts (.create mode location p m), b⟩ : Call) ∈ t →
      protocolsOf acts = [p] ∧ metadatasOf acts = [m]) ∧
    (¬ ((protocolsOf actions).length = 1 ∧ (metadatasOf actions).length = 1) →
      (∃ st, a = .error st ∧ st.code = .failedPrecondition) ∧
        ∀ url base acts op b, (⟨.commitBuilder url base acts op, b⟩ : Call) ∉ t)

/-- The condition, on the wire: no second Protocol and no second TableMetadata, unless the
request is rejected for another reason. -/
def Pb.CommitRequest.DefinesOnce (r : Pb.CommitRequest) : Prop :=
  r.expectedVersion.isSome = true ∨ r.actions.filterMap Pb.Action.toProtocol = [] ∨
    r.actions.filterMap Pb.Action.toMetadata = [] ∨
    (r.actions.filterMap Pb.Action.toProtocol).length = 1 ∧
      (r.actions.filterMap Pb.Action.toMetadata).length = 1

/-- A request that maps, with its definitions counted. -/
theorem definesOnce_iff (h : mapActions cr r.actions = .ok actions) :
    r.DefinesOnce ↔ r.expectedVersion.isSome = true ∨ protocolsOf actions = [] ∨
      metadatasOf actions = [] ∨
      (protocolsOf actions).length = 1 ∧ (metadatasOf actions).length = 1 := by
  obtain ⟨hp, hm⟩ := mapActions_definitions h
  have hp' := hp.length_eq
  have hm' := hm.length_eq
  simp only [Pb.CommitRequest.DefinesOnce, ← List.length_eq_zero_iff, hp', hm']

theorem length_eq_one_of_head? {α : Type} {l : List α} {x : α} (h : l.length = 1)
    (hx : l.head? = some x) : l = [x] := by
  obtain ⟨y, rfl⟩ := List.length_eq_one_iff.1 h
  cases hx
  rfl

/-- The setting of one request, without an allowlist and with no table anywhere. -/
def loneSetting (cr : Crates) (r : Pb.CommitRequest) : Setting Unit Unit where
  cr := cr
  srv _ := ⟨∅, none⟩
  home := id
  resolve _ _ := .ok ⟨"s3://bucket/t"⟩
  req _ := r
  lateErrors := false

/-- A request with a Protocol and a Metadata reaches `create_table`. -/
theorem create_reached {p : Kernel.Protocol} {m : Kernel.Metadata}
    (h : mapActions cr r.actions = .ok actions) (hexp : r.expectedVersion = none)
    (hp : findProtocol actions = some p) (hm : findMetadata actions = some m) :
    ∃ t a url, (commit cr ⟨∅, none⟩ r).run.Completes t a ∧ ReachesCreate t ∧
      (⟨.isDeltaTableLocation url, .ok false⟩ : Call) ∈ t := by
  let S := loneSetting cr r
  let url : Url := ⟨"s3://bucket/t"⟩
  let w₀ : World Unit Unit := World.start fun _ _ => none
  have hlock : Config.Solo S.machine () (S.program ()) w₀ _
      (commitLocked ⟨∅, none⟩ r url actions).run _ :=
    S.solo_lock (checkRawTableUri_none rfl _) rfl (checkTableUriAllowed_none rfl _) h rfl
  have hfind := hlock.append (S.solo_notFound (fun _ => rfl))
  obtain ⟨logged, hlogged⟩ := Logged.exists_of actions
  have hall := hfind.append (S.solo_create (n := 0) hexp hp hm ⟨rfl, Or.inl rfl⟩ hlogged)
  exact ⟨_, _, url, hall.runs, ⟨_, _, _, [_, _, _, _], [_], rfl⟩, by simp [url]⟩

/-- **Which requests create a table only from one definition**: exactly those without a second
Protocol or TableMetadata, and those that are rejected for lack of one of the two or for an
`expected_version`. -/
theorem create_unambiguous_iff (cr : Crates) (r : Pb.CommitRequest) :
    CreatesUnambiguously cr r ↔ ∀ actions, mapActions cr r.actions = .ok actions → r.DefinesOnce := by
  constructor
  · intro h actions hmap
    rw [definesOnce_iff hmap]
    cases hexp : r.expectedVersion with
    | some e => exact Or.inl rfl
    | none =>
      cases hp : findProtocol actions with
      | none =>
        rw [findProtocol_eq, List.head?_eq_none_iff] at hp
        exact Or.inr (Or.inl hp)
      | some p =>
        cases hm : findMetadata actions with
        | none =>
          rw [findMetadata_eq, List.head?_eq_none_iff] at hm
          exact Or.inr (Or.inr (Or.inl hm))
        | some m =>
          obtain ⟨t, a, url, hrun, hreach, hmiss⟩ := create_reached hmap hexp hp hm
          exact Or.inr (Or.inr (Or.inr ((h _ t a url actions hrun hmiss hmap).1 hreach)))
  · intro h srv t a u actions hrun hmiss hmap
    have honce := (definesOnce_iff hmap).1 (h actions hmap)
    obtain ⟨url, actions', lock, t', hmap', rfl, hc⟩ := commit_notFound_runs hrun hmiss
    obtain rfl : actions' = actions := by rw [hmap] at hmap'; cases hmap'; rfl
    rcases commitCreate_cases hc with ⟨rfl, hst⟩ | ⟨hexp, p, m, b, hp, hm, ht⟩
    · -- refused: no table is built, and nothing is written
      refine ⟨?_, by simp, fun _ => ⟨hst, by simp⟩⟩
      rintro ⟨url', opts, b, before, after, hin⟩
      rcases before with _ | ⟨_, _ | ⟨_, _ | ⟨_, _ | ⟨_, _ | ⟨_, before⟩⟩⟩⟩⟩ <;> simp at hin
    · have hone : (protocolsOf actions').length = 1 ∧ (metadatasOf actions').length = 1 := by
        rw [findProtocol_eq] at hp
        rw [findMetadata_eq] at hm
        rcases honce with hs | hnil | hnil | hone
        · rw [hexp] at hs
          cases hs
        · rw [hnil] at hp
          cases hp
        · rw [hnil] at hm
          cases hm
        · exact hone
      refine ⟨fun _ => hone, ?_, fun hno => absurd hone hno⟩
      intro url' base acts mode location p' m' b' hx
      have hdef : acts = actions' ∧ p' = p ∧ m' = m := by
        rcases ht with ⟨e, rfl⟩ | rfl
        · simp at hx
        · simp only [List.cons_append, List.nil_append, List.mem_cons, List.not_mem_nil,
            or_false] at hx
          rcases hx with hx | hx | hx | hx | hx | hx | hx <;> cases hx
          exact ⟨rfl, rfl, rfl⟩
      obtain ⟨rfl, rfl, rfl⟩ := hdef
      rw [findProtocol_eq] at hp
      rw [findMetadata_eq] at hm
      exact ⟨length_eq_one_of_head? hone.1 hp, length_eq_one_of_head? hone.2 hm⟩

/-- A request with the same Protocol twice. -/
def twoProtocols : Pb.CommitRequest :=
  { raceRequest with actions := ⟨some (.protocol ⟨1, 2⟩)⟩ :: raceRequest.actions }

/-- **A table can be created from two definitions.** -/
theorem create_not_unambiguous : ¬ CreatesUnambiguously raceCrates twoProtocols := by
  intro h
  obtain ⟨t, a, url, hrun, hreach, hmiss⟩ :=
    create_reached (show mapActions raceCrates twoProtocols.actions =
      .ok [.protocol raceProtocol, .protocol raceProtocol, .metadata raceMetadata] from rfl)
      rfl rfl rfl
  have hone := ((h _ t a url _ hrun hmiss rfl).1 hreach).1
  exact absurd hone (by decide)

end DeltaTxn
