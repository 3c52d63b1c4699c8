/-
# Purging a partial map

What is left of a partial map when every entry that fails a test is removed
(`purge`).  Purges compose by conjunction of their tests, and a purge commutes
with a change of one key unless it would remove the new entry.
-/

import Mathlib.Data.Option.Basic
import Mathlib.Logic.Function.Basic

namespace Lib

variable {κ β : Type*} {p q : κ → β → Bool} {f : κ → Option β} {k : κ}

/-- The entries that pass the test. -/
def purge (p : κ → β → Bool) (f : κ → Option β) : κ → Option β := fun k => (f k).filter (p k)

/-- What is left was there and may stay. -/
theorem purge_eq_some {v : β} : purge p f k = some v ↔ f k = some v ∧ p k v = true :=
  Option.filter_eq_some_iff

/-- A filter that lets everything through. -/
theorem filter_const_true (o : Option β) : (o.filter fun _ => true) = o := by cases o <;> rfl

/-- A purge of nothing is none. -/
theorem purge_true (f : κ → Option β) : purge (fun _ _ => true) f = f :=
  funext fun k => filter_const_true (f k)

/-- Two purges are one. -/
theorem purge_purge (p q : κ → β → Bool) (f : κ → Option β) :
    purge p (purge q f) = purge (fun k v => p k v && q k v) f := by
  funext k
  simp only [purge, Option.filter_filter, Bool.and_comm]

/-- An entry that passes is still there. -/
theorem purge_apply (h : ∀ v, f k = some v → p k v = true) : purge p f k = f k := by
  unfold purge
  cases hv : f k with
  | none => rfl
  | some v => rw [Option.filter_some, if_pos (h v hv)]

variable [DecidableEq κ]

/-- A value after a change of one key is the new one there, or the old one of another key. -/
theorem update_eq_cases {γ : Type*} {g : κ → γ} {k' : κ} {x y : γ} (h : Function.update g k x k' = y) :
    k' = k ∧ x = y ∨ k' ≠ k ∧ g k' = y := by
  rcases eq_or_ne k' k with rfl | hne
  · exact .inl ⟨rfl, by rwa [Function.update_self] at h⟩
  · exact .inr ⟨hne, by rwa [Function.update_of_ne hne] at h⟩

/-- What may stay is set before or after. -/
theorem purge_update {o : Option β} (h : ∀ v, o = some v → p k v = true) :
    purge p (Function.update f k o) = Function.update (purge p f) k o := by
  funext j
  rcases eq_or_ne j k with rfl | hne
  · have hkept : purge p (Function.update f j o) j = Function.update f j o j :=
      purge_apply fun v hv => h v (by rwa [Function.update_self] at hv)
    rw [hkept, Function.update_self, Function.update_self]
  · rw [purge, Function.update_of_ne hne, Function.update_of_ne hne, purge]

/-- Removing one key is a purge. -/
theorem update_none_eq_purge (f : κ → Option β) (k : κ) :
    Function.update f k none = purge (fun j _ => !decide (j = k)) f := by
  funext j
  rcases eq_or_ne j k with rfl | hne
  · rw [Function.update_self, purge, decide_eq_true rfl]
    cases f j <;> rfl
  · rw [Function.update_of_ne hne, purge, decide_eq_false hne]
    cases f j <;> rfl

end Lib
