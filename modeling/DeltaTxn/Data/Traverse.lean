import Mathlib.Data.List.Forall2
import Mathlib.Tactic.Common

/-!
# Mapping a list by a fallible function

`List.mapM` in `Except` stops at the first element that fails.

* `mapM_ok_iff`: it succeeds with the results of all elements, in order.
* `mapM_error_iff`: it fails with the error of the first element that fails.
-/

namespace Traverse

variable {α β ε : Type} {f : α → Except ε β} {x : α} {xs : List α} {ys : List β} {e : ε}

theorem bind_eq_ok {r : Except ε α} {g : α → Except ε β} {b : β} :
    r >>= g = .ok b ↔ ∃ a, r = .ok a ∧ g a = .ok b := by
  cases r with
  | error e =>
    constructor
    · intro h
      cases h
    · rintro ⟨a, ha, -⟩
      cases ha
  | ok a =>
    constructor
    · intro h
      exact ⟨a, rfl, h⟩
    · rintro ⟨a', ha, h⟩
      cases ha
      exact h

theorem map_eq_ok {g : α → β} {r : Except ε α} {b : β} (h : g <$> r = .ok b) :
    ∃ a, r = .ok a ∧ b = g a := by
  cases r with
  | error e => cases h
  | ok a => cases h; exact ⟨a, rfl, rfl⟩

theorem map_eq_error {g : α → β} {r : Except ε α} : g <$> r = .error e ↔ r = .error e := by
  cases r with
  | error e' =>
    constructor
    · intro h
      cases h
      rfl
    · intro h
      cases h
      rfl
  | ok a =>
    constructor
    · intro h
      cases h
    · intro h
      cases h

theorem mapM_cons_ok_iff :
    (x :: xs).mapM f = .ok ys ↔ ∃ y ys', f x = .ok y ∧ xs.mapM f = .ok ys' ∧ ys = y :: ys' := by
  rw [List.mapM_cons]
  cases f x with
  | error e =>
    constructor
    · intro h
      cases h
    · rintro ⟨_, _, h, -⟩
      cases h
  | ok y =>
    cases xs.mapM f with
    | error e =>
      constructor
      · intro h
        cases h
      · rintro ⟨_, _, -, h, -⟩
        cases h
    | ok ys' =>
      constructor
      · intro h
        cases h
        exact ⟨y, ys', rfl, rfl, rfl⟩
      · rintro ⟨_, _, h, h', rfl⟩
        cases h
        cases h'
        rfl

theorem mapM_cons_error_iff :
    (x :: xs).mapM f = .error e ↔ f x = .error e ∨ ∃ y, f x = .ok y ∧ xs.mapM f = .error e := by
  rw [List.mapM_cons]
  cases f x with
  | error e' =>
    constructor
    · intro h
      cases h
      exact Or.inl rfl
    · rintro (h | ⟨y, h, -⟩)
      · cases h
        rfl
      · cases h
  | ok y =>
    cases xs.mapM f with
    | error e' =>
      constructor
      · intro h
        cases h
        exact Or.inr ⟨y, rfl, rfl⟩
      · rintro (h | ⟨_, _, h⟩)
        · cases h
        · cases h
          rfl
    | ok ys =>
      constructor
      · intro h
        cases h
      · rintro (h | ⟨_, _, h⟩)
        · cases h
        · cases h

theorem mapM_ok_iff : xs.mapM f = .ok ys ↔ xs.Forall₂ (fun x y => f x = .ok y) ys := by
  induction xs generalizing ys with
  | nil =>
    rw [List.forall₂_nil_left_iff]
    constructor
    · intro h
      cases h
      rfl
    · rintro rfl
      rfl
  | cons x xs ih =>
    rw [mapM_cons_ok_iff, List.forall₂_cons_left_iff]
    constructor
    · rintro ⟨y, ys', hy, hys, rfl⟩
      exact ⟨y, ys', hy, ih.1 hys, rfl⟩
    · rintro ⟨y, ys', hy, hys, rfl⟩
      exact ⟨y, ys', hy, ih.2 hys, rfl⟩

/-- **The error is that of the first element that fails.** -/
theorem mapM_error_iff :
    xs.mapM f = .error e ↔
      ∃ pre a post, xs = pre ++ a :: post ∧ (∀ b ∈ pre, ∃ y, f b = .ok y) ∧ f a = .error e := by
  induction xs with
  | nil =>
    constructor
    · intro h
      cases h
    · rintro ⟨pre, a, post, h, -⟩
      simp at h
  | cons x xs ih =>
    rw [mapM_cons_error_iff, ih]
    constructor
    · rintro (h | ⟨y, hy, pre, a, post, rfl, hpre, ha⟩)
      · exact ⟨[], x, xs, rfl, by simp, h⟩
      · exact ⟨x :: pre, a, post, rfl, List.forall_mem_cons.2 ⟨⟨y, hy⟩, hpre⟩, ha⟩
    · rintro ⟨_ | ⟨p, pre⟩, a, post, heq, hpre, ha⟩
      · cases heq
        exact Or.inl ha
      · cases heq
        obtain ⟨⟨y, hy⟩, hpre⟩ := List.forall_mem_cons.1 hpre
        exact Or.inr ⟨y, hy, pre, a, post, rfl, hpre, ha⟩

/-- **All or nothing**: it succeeds exactly if it does on every element. -/
theorem mapM_isOk_iff : (∃ ys, xs.mapM f = .ok ys) ↔ ∀ x ∈ xs, ∃ y, f x = .ok y := by
  induction xs with
  | nil => exact ⟨fun _ => by simp, fun _ => ⟨[], rfl⟩⟩
  | cons x xs ih =>
    rw [List.forall_mem_cons, ← ih]
    simp only [mapM_cons_ok_iff]
    constructor
    · rintro ⟨_, y, ys, hy, hys, rfl⟩
      exact ⟨⟨y, hy⟩, ys, hys⟩
    · rintro ⟨⟨y, hy⟩, ys, hys⟩
      exact ⟨_, y, ys, hy, hys, rfl⟩

end Traverse
