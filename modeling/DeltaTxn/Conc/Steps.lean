import Mathlib.Data.List.Induction
import Mathlib.Tactic.Common

/-!
# Runs of a step function

A system given by a step function that says what each event does to the state, where it is
possible. A run is a list of events, one after the other.

* `run_inv`: what every step keeps holds after every run. `run_not_mem`: what it forbids does not
  occur in one.
* `Visits`, `Takes`: the states and the steps of one run. `Visits.inv` is the rule for a run
  whose own steps keep an assertion, where other steps might not.
-/

namespace Conc

variable {S E : Type} {step : S → E → Option S} {s t u : S} {e : E} {es es' : List E}

/-- The state after the events `es`, if each is possible where it happens. -/
def run (step : S → E → Option S) (s : S) (es : List E) : Option S := es.foldlM step s

theorem run_cons : run step s (e :: es) = (step s e).bind fun t => run step t es := rfl

theorem run_append : run step s (es ++ es') = (run step s es).bind fun t => run step t es' :=
  List.foldlM_append

theorem run_singleton : run step s [e] = step s e := by
  rw [run_cons]
  exact Option.bind_fun_some _

/-- A run with a last event. -/
theorem run_concat : run step s (es ++ [e]) = some u ↔ ∃ t, run step s es = some t ∧ step t e = some u := by
  rw [run_append, Option.bind_eq_some_iff]
  simp only [run_singleton]

/-- **Invariants**: what every step keeps holds after every run. -/
theorem run_inv {P : S → Prop} (hs : ∀ s e t, P s → step s e = some t → P t) (h0 : P s)
    (h : run step s es = some t) : P t := by
  induction es generalizing s with
  | nil =>
    cases h
    exact h0
  | cons e es ih =>
    rw [run_cons] at h
    obtain ⟨u, hu, h⟩ := Option.bind_eq_some_iff.1 h
    exact ih (hs s e u h0 hu) h

/-- **An event that no state of an invariant allows** does not occur. -/
theorem run_not_mem {P : S → Prop} (hs : ∀ s e t, P s → step s e = some t → P t)
    (hno : ∀ s, P s → step s e = none) (h0 : P s) (h : run step s es = some t) : e ∉ es := by
  intro hmem
  obtain ⟨before, after, rfl⟩ := List.append_of_mem hmem
  rw [run_append] at h
  obtain ⟨u, hu, h⟩ := Option.bind_eq_some_iff.1 h
  rw [run_cons, hno u (run_inv hs h0 hu)] at h
  cases h

/-! ## The states and the steps of one run -/

/-- The run `es` from `s` comes through `t`. -/
def Visits (step : S → E → Option S) (s : S) (es : List E) (t : S) : Prop :=
  ∃ es', es' <+: es ∧ run step s es' = some t

/-- In the run `es` from `s` the event `e` happens at `t`. -/
def Takes (step : S → E → Option S) (s : S) (es : List E) (t : S) (e : E) : Prop :=
  ∃ es', es' ++ [e] <+: es ∧ run step s es' = some t

theorem Takes.visits (h : Takes step s es t e) (ht : step t e = some u) : Visits step s es u := by
  obtain ⟨es', hp, hr⟩ := h
  exact ⟨es' ++ [e], hp, run_concat.2 ⟨t, hr, ht⟩⟩

theorem Takes.visits_before (h : Takes step s es t e) : Visits step s es t := by
  obtain ⟨es', hp, hr⟩ := h
  exact ⟨es', (List.prefix_append es' [e]).trans hp, hr⟩

/-- **An assertion that the steps of one run keep** holds in every state of that run. -/
theorem Visits.inv {P : S → Prop} (h0 : P s)
    (hs : ∀ t e u, Takes step s es t e → P t → step t e = some u → P u)
    (h : Visits step s es t) : P t := by
  obtain ⟨es', hp, hr⟩ := h
  induction es' using List.reverseRecOn generalizing t with
  | nil =>
    cases hr
    exact h0
  | append_singleton es' e ih =>
    obtain ⟨v, hv, hstep⟩ := run_concat.1 hr
    have hPv : P v := ih ((List.prefix_append es' [e]).trans hp) hv
    exact hs v e t ⟨es', hp, hv⟩ hPv hstep

end Conc
