/-
# Runs of a transition system

A system is a partial step function: `step s a` is the state after action `a`
in state `s`, and `none` where the action is not possible.  A run is the list
of its actions, in the order of the interleaving (`exec`).  A condition on the
actions of a run is checked in the state each is taken in (`Meets`), and a
property that every action under the condition keeps holds after every such
run (`exec_induct`); one that the other actions break holds after no other run
(`exec_iff_meets`).  Where some actions only do later what could have been
done at once, a run is one of the system that does it at once (`exec_deferred`).
A system that only ever goes one way is a function, and its runs are the
function's iterates (`iterate_iff`, and `iterate_view` for a part of the state).
-/

import Mathlib.Data.Option.Basic
import Mathlib.Logic.Function.Iterate

namespace Lib

variable {σ α : Type*} {step : σ → α → Option σ} {Cond : σ → α → Prop}

/-- The state after a list of actions. -/
def exec (step : σ → α → Option σ) : σ → List α → Option σ
  | s, [] => some s
  | s, a :: actions => (step s a).bind fun s' => exec step s' actions

/-- Every action of the run satisfies the condition in the state it is taken in. -/
def Meets (step : σ → α → Option σ) (Cond : σ → α → Prop) : σ → List α → Prop
  | _, [] => True
  | s, a :: actions => Cond s a ∧ ∀ s', step s a = some s' → Meets step Cond s' actions

instance [∀ s a, Decidable (Cond s a)] (s : σ) (actions : List α) :
    Decidable (Meets step Cond s actions) :=
  match actions with
  | [] => .isTrue trivial
  | a :: actions =>
    match h : step s a with
    | none => decidable_of_iff (Cond s a) (by simp [Meets, h])
    | some s' =>
      have : Decidable (Meets step Cond s' actions) := instDecidableMeets s' actions
      decidable_of_iff (Cond s a ∧ Meets step Cond s' actions) (by simp [Meets, h])

/-- Any run meets the trivial condition. -/
theorem meets_true (step : σ → α → Option σ) (s : σ) (actions : List α) :
    Meets step (fun _ _ => True) s actions := by
  induction actions generalizing s with
  | nil => trivial
  | cons a actions ih => exact ⟨trivial, fun s' _ => ih s'⟩

/-- **What every action keeps, every run keeps.** -/
theorem exec_induct {Inv : σ → Prop}
    (hstep : ∀ s a s', Inv s → Cond s a → step s a = some s' → Inv s') {s s' : σ} {actions : List α}
    (h : Inv s) (hmeets : Meets step Cond s actions) (hexec : exec step s actions = some s') :
    Inv s' := by
  induction actions generalizing s with
  | nil =>
    obtain rfl := Option.some.inj hexec
    exact h
  | cons a actions ih =>
    obtain ⟨t, ht, hrest⟩ := Option.bind_eq_some_iff.1 hexec
    exact ih (hstep s a t h hmeets.1 ht) (hmeets.2 t ht) hrest

/-- **A property that every action keeps exactly under the condition** holds after a run from a
state with it exactly if the run meets the condition. -/
theorem exec_iff_meets {Inv Good : σ → Prop} (hinv : ∀ s a s', Inv s → step s a = some s' → Inv s')
    (hgood : ∀ s a s', Inv s → step s a = some s' → (Good s' ↔ Good s ∧ Cond s a)) {s s' : σ}
    {actions : List α} (h : Inv s) (hexec : exec step s actions = some s') :
    Good s' ↔ Good s ∧ Meets step Cond s actions := by
  induction actions generalizing s with
  | nil =>
    obtain rfl := Option.some.inj hexec
    exact (and_iff_left trivial).symm
  | cons a actions ih =>
    obtain ⟨t, ht, hrest⟩ := Option.bind_eq_some_iff.1 hexec
    rw [ih (hinv s a t h ht) hrest, hgood s a t h ht, and_assoc]
    refine and_congr_right fun _ => and_congr_right fun _ => ⟨fun hmeets t' ht' => ?_, fun hmeets => hmeets t ht⟩
    obtain rfl := Option.some.inj (ht.symm.trans ht')
    exact hmeets

/-- **What is put off could have been done at once.**  `finish` does what is still to be
done in a state.  If an action that is kept commutes with it, and any other action leaves
the finished state as it is, then a run without the others leads to the finished state. -/
theorem exec_deferred {Inv : σ → Prop} {atOnce : σ → α → Option σ} {finish : σ → σ} {keep : α → Bool}
    (hinv : ∀ s a s', Inv s → Cond s a → step s a = some s' → Inv s')
    (hkeep : ∀ s a s', Inv s → Cond s a → step s a = some s' → keep a = true →
      atOnce (finish s) a = some (finish s'))
    (hother : ∀ s a s', Inv s → Cond s a → step s a = some s' → keep a = false → finish s' = finish s)
    {s s' : σ} {actions : List α} (h : Inv s) (hmeets : Meets step Cond s actions)
    (hexec : exec step s actions = some s') :
    exec atOnce (finish s) (actions.filter keep) = some (finish s') := by
  induction actions generalizing s with
  | nil =>
    obtain rfl := Option.some.inj hexec
    rfl
  | cons a actions ih =>
    obtain ⟨t, ht, hrest⟩ := Option.bind_eq_some_iff.1 hexec
    have hnext := ih (hinv s a t h hmeets.1 ht) (hmeets.2 t ht) hrest
    cases ha : keep a with
    | true =>
      rw [List.filter_cons_of_pos ha, exec, hkeep s a t h hmeets.1 ht ha, Option.bind_some]
      exact hnext
    | false =>
      rw [List.filter_cons_of_neg (by rw [ha]; decide), ← hother s a t h hmeets.1 ht ha]
      exact hnext

/-- **What is seen of a state moves with it**, where a step is seen as a step. -/
theorem iterate_view {τ : Type*} (Inv : σ → Prop) (view : σ → τ) {f : σ → σ} {g : τ → τ}
    (hinv : ∀ s, Inv s → Inv (f s)) (hview : ∀ s, Inv s → view (f s) = g (view s)) {s : σ} (h : Inv s) (n : ℕ) :
    Inv (f^[n] s) ∧ view (f^[n] s) = g^[n] (view s) := by
  induction n generalizing s with
  | zero => exact ⟨h, rfl⟩
  | succ n ih =>
    rw [Function.iterate_succ_apply, Function.iterate_succ_apply, ← hview s h]
    exact ih (hinv s h)

/-- **A property that every step keeps exactly under the condition** holds after `n` steps
from a state with it exactly if every one of the steps met the condition. -/
theorem iterate_iff {Inv Good Cond : σ → Prop} {f : σ → σ} (hinv : ∀ s, Inv s → Inv (f s))
    (hgood : ∀ s, Inv s → (Good (f s) ↔ Good s ∧ Cond s)) {s : σ} (h : Inv s) (n : ℕ) :
    Good (f^[n] s) ↔ Good s ∧ ∀ m < n, Cond (f^[m] s) := by
  have hall (m : ℕ) : Inv (f^[m] s) := by
    induction m with
    | zero => exact h
    | succ m ih =>
      rw [Function.iterate_succ_apply']
      exact hinv _ ih
  induction n with
  | zero => exact (and_iff_left fun m hm => absurd hm (Nat.not_lt_zero m)).symm
  | succ n ih =>
    rw [Function.iterate_succ_apply', hgood _ (hall n)]
    refine (and_congr_left' ih).trans (and_assoc.trans ?_)
    refine and_congr_right fun _ => ⟨fun hmeets m hm => ?_, fun hmeets => ?_⟩
    · rcases Nat.lt_succ_iff_lt_or_eq.1 hm with hm | rfl
      · exact hmeets.1 m hm
      · exact hmeets.2
    · exact ⟨fun m hm => hmeets m (Nat.lt_succ_of_lt hm), hmeets n (Nat.lt_succ_self n)⟩

end Lib
