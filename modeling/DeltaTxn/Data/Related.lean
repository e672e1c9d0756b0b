import Mathlib.Data.List.Forall2
import Mathlib.Data.Option.Basic
import Mathlib.Tactic.Common

/-!
# Lists that are related element by element

* `forall₂_exists_left`, `forall₂_exists_list`, `forall₂_head`: elements and their partners.
* `forall₂_flatMap`: lists that are put together from related ones.
* `firstWith`: the first element of a list under a key, if keys are given to some of the elements.
* `forall₂_firstWith`: where the relation keeps the keys, it relates the first elements under a key.
-/

namespace Related

variable {α β κ κ' : Type} {R : α → β → Prop} {l : List α} {l' : List β}

theorem forall₂_exists_left (h : List.Forall₂ R l l') {y : β} (hy : y ∈ l') : ∃ x ∈ l, R x y := by
  induction h with
  | nil => cases hy
  | @cons a b l l' hab _ ih =>
    rcases List.mem_cons.1 hy with rfl | hmem
    · exact ⟨a, List.mem_cons_self, hab⟩
    · obtain ⟨x, hx, hxy⟩ := ih hmem
      exact ⟨x, List.mem_cons_of_mem _ hx, hxy⟩

theorem forall₂_exists_list (h : ∀ y ∈ l', ∃ x, R x y) : ∃ l, List.Forall₂ R l l' := by
  induction l' with
  | nil => exact ⟨[], .nil⟩
  | cons y l' ih =>
    obtain ⟨x, hx⟩ := h y List.mem_cons_self
    obtain ⟨l, hl⟩ := ih fun y hy => h y (List.mem_cons_of_mem _ hy)
    exact ⟨x :: l, .cons hx hl⟩

/-- The first elements of two lists that are related element by element. -/
theorem forall₂_head {x : α} (h : List.Forall₂ R l l') (hx : l.head? = some x) :
    ∃ y, l'.head? = some y ∧ R x y := by
  cases h with
  | nil => cases hx
  | cons hxy _ =>
    cases hx
    exact ⟨_, rfl, hxy⟩

theorem forall₂_flatMap {γ : Type} {f : γ → List α} {g : γ → List β}
    (h : ∀ z, List.Forall₂ R (f z) (g z)) (zs : List γ) : List.Forall₂ R (zs.flatMap f) (zs.flatMap g) := by
  induction zs with
  | nil => exact .nil
  | cons z zs ih =>
    rw [List.flatMap_cons, List.flatMap_cons]
    exact List.rel_append (h z) ih

/-! ## The first element under a key -/

variable [DecidableEq κ] [DecidableEq κ']

/-- The first element of `l` whose key is `k`. -/
def firstWith (key : α → Option κ) (k : κ) (l : List α) : Option α := l.find? fun x => key x = some k

theorem firstWith_eq_some_iff {key : α → Option κ} {k : κ} {x : α} :
    firstWith key k l = some x ↔
      key x = some k ∧ ∃ before after, l = before ++ x :: after ∧ ∀ y ∈ before, key y ≠ some k := by
  unfold firstWith
  rw [List.find?_eq_some_iff_append]
  simp only [decide_eq_true_eq, Bool.not_eq_true', decide_eq_false_iff_not, ne_eq]

/-- In a list of lists it is in the first of them that has any. -/
theorem firstWith_flatMap {γ : Type} {key : α → Option κ} {k : κ} {f : γ → List α} {zs : List γ} :
    firstWith key k (zs.flatMap f) = zs.findSome? fun z => firstWith key k (f z) :=
  List.find?_flatMap

/-- **Related elements have related keys**, so the first ones under a key are related as well. -/
theorem forall₂_firstWith (key : α → Option κ) (key' : β → Option κ') (g : κ → κ')
    (hg : Function.Injective g) (hR : ∀ x y, R x y → key' y = (key x).map g)
    (h : List.Forall₂ R l l') (k : κ) :
    Option.Rel R (firstWith key k l) (firstWith key' (g k) l') := by
  have hkey : ∀ x y, R x y → (key' y = some (g k) ↔ key x = some k) := by
    intro x y hxy
    rw [hR x y hxy, ← Option.map_some]
    exact (Option.map_injective hg).eq_iff
  unfold firstWith
  induction h with
  | nil => exact .none
  | @cons x y a b hxy _ ih =>
    by_cases hx : key x = some k
    · have hy := (hkey x y hxy).2 hx
      rw [List.find?_cons_of_pos (by simpa using hx), List.find?_cons_of_pos (by simpa using hy)]
      exact .some hxy
    · have hy := mt (hkey x y hxy).1 hx
      rw [List.find?_cons_of_neg (by simpa using hx), List.find?_cons_of_neg (by simpa using hy)]
      exact ih

end Related
