/-
# Replicas that get updates out of order

A primary makes updates one after the other.  A replica gets each of them some
time later, not always in that order.  What the replica comes to if it gets what
it still misses in the order of the primary is `settled`.  A new update is made
on it (`settled_concat`), and an update that overtakes only updates it commutes
with leaves it as it is (`settled_overtake`): so a replica that misses nothing
is where the primary is.
-/

import Mathlib.Data.List.Basic

namespace Lib

variable {σ α : Type*} {apply : σ → α → σ} {s : σ} {a b : α}

/-- The order of the two updates makes no difference. -/
def Commutes (apply : σ → α → σ) (a b : α) : Prop := ∀ s, apply (apply s a) b = apply (apply s b) a

theorem Commutes.symm (h : Commutes apply a b) : Commutes apply b a := fun s => (h s).symm

/-- A replica after the updates it misses, in the order they were made. -/
def settled (apply : σ → α → σ) (s : σ) (missing : List α) : σ := missing.foldl apply s

@[simp] theorem settled_nil (apply : σ → α → σ) (s : σ) : settled apply s [] = s := rfl

/-- **A new update is made on what the replica comes to.** -/
theorem settled_concat (apply : σ → α → σ) (s : σ) (missing : List α) (a : α) :
    settled apply s (missing ++ [a]) = apply (settled apply s missing) a :=
  List.foldl_append ..

/-- **An update may overtake what it commutes with.** -/
theorem settled_overtake {earlier : List α} (h : ∀ b ∈ earlier, Commutes apply a b) (s : σ)
    (later : List α) :
    settled apply (apply s a) (earlier ++ later) = settled apply s (earlier ++ a :: later) := by
  induction earlier generalizing s with
  | nil => rfl
  | cons b earlier ih =>
    have hb := h b List.mem_cons_self
    have hrest := ih (fun c hc => h c (List.mem_cons_of_mem b hc)) (apply s b)
    calc settled apply (apply s a) (b :: earlier ++ later)
        = settled apply (apply (apply s a) b) (earlier ++ later) := rfl
      _ = settled apply (apply (apply s b) a) (earlier ++ later) := by rw [hb s]
      _ = settled apply (apply s b) (earlier ++ a :: later) := hrest

end Lib
