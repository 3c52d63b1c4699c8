/-
# Token buckets

A bucket holds a credit that grows with time at a rate, up to a burst.  Every
request pays one and is accepted if the credit was enough; a refused one pays
too, so the credit may fall below zero (`Bucket.pay`).

The requests accepted in a window are at most the burst and what the rate gives
in its length (`accepted_le_window`): before the window the cap forgets what
was saved, and from its first request on each acceptance takes one from what
the credit and the rest of the window can still give (`accepted_le_credit`).
Requests at least a token's time apart are all accepted (`answers_of_spaced`).
-/

import Mathlib.Algebra.Order.Field.Basic
import Mathlib.Data.List.Chain
import Mathlib.Tactic.Linarith
import Mathlib.Tactic.Ring

namespace Lib

variable {K : Type*} [Field K] [LinearOrder K]

/-- The credit, and when it was last topped up. -/
structure Bucket (K : Type*) where
  credit : K
  refill : K
deriving DecidableEq

namespace Bucket

/-- One request at time `t`: the credit is topped up, then paid from. -/
def pay (rate burst : K) (bucket : Bucket K) (t : K) : Bucket K :=
  ⟨min (bucket.credit + (t - bucket.refill) * rate) burst - 1, t⟩

/-- The requests with their times, and whether each was accepted. -/
def answers (rate burst : K) : Bucket K → List K → List (K × Bool)
  | _, [] => []
  | bucket, t :: times =>
    (t, decide (0 ≤ (pay rate burst bucket t).credit)) :: answers rate burst (pay rate burst bucket t) times

/-- The accepted requests between `a` and `e`. -/
def accepted (a e : K) (answers : List (K × Bool)) : ℕ :=
  answers.countP fun answer => answer.2 && decide (a ≤ answer.1 ∧ answer.1 ≤ e)

/-- Every answer is to one that came. -/
theorem mem_answers {rate burst : K} {bucket : Bucket K} {times : List K} {answer : K × Bool}
    (h : answer ∈ answers rate burst bucket times) : answer.1 ∈ times := by
  induction times generalizing bucket with
  | nil => cases h
  | cons t times ih =>
    rcases List.mem_cons.1 h with rfl | h
    · exact List.mem_cons_self
    · exact List.mem_cons_of_mem _ (ih h)

/-- No request after the end of the window counts. -/
theorem accepted_of_lt {rate burst a e : K} {bucket : Bucket K} {times : List K} (h : ∀ t ∈ times, e < t) :
    accepted a e (answers rate burst bucket times) = 0 := by
  refine List.countP_eq_zero.2 fun answer hanswer => ?_
  have := not_le.2 (h answer.1 (mem_answers hanswer))
  simp [this]

/-- A sorted list whose first time is after the window has none in it. -/
theorem accepted_of_head_lt {rate burst a e t : K} {bucket : Bucket K} {times : List K}
    (hsorted : (t :: times).Pairwise (· ≤ ·)) (hte : e < t) :
    accepted a e (answers rate burst bucket (t :: times)) = 0 := by
  refine accepted_of_lt fun t' ht' => ?_
  rcases List.mem_cons.1 ht' with rfl | ht'
  · exact hte
  · exact hte.trans_le ((List.pairwise_cons.1 hsorted).1 t' ht')

/-- The first answer, and then the others. -/
theorem accepted_cons (rate burst a e : K) (bucket : Bucket K) (t : K) (times : List K) :
    accepted a e (answers rate burst bucket (t :: times)) =
      accepted a e (answers rate burst (pay rate burst bucket t) times) +
        if 0 ≤ (pay rate burst bucket t).credit ∧ a ≤ t ∧ t ≤ e then 1 else 0 := by
  rw [answers, accepted, accepted, List.countP_cons]
  simp only [Bool.and_eq_true, decide_eq_true_eq]

variable [IsStrictOrderedRing K] {rate burst : K}

/-- Credit grows with the rate. -/
theorem credit_pay_le (bucket : Bucket K) (t : K) :
    (pay rate burst bucket t).credit ≤ bucket.credit + (t - bucket.refill) * rate - 1 :=
  sub_le_sub_right (min_le_left _ _) 1

/-- It does not grow over the burst. -/
theorem credit_pay_le_burst (bucket : Bucket K) (t : K) : (pay rate burst bucket t).credit ≤ burst - 1 :=
  sub_le_sub_right (min_le_right _ _) 1

/-- A request in the window takes one from what is left to accept after it. -/
theorem accepted_cons_le {a e t : K} {bucket : Bucket K} {times : List K}
    (hnext : (accepted a e (answers rate burst (pay rate burst bucket t) times) : K) ≤
      max 0 ((pay rate burst bucket t).credit + (e - t) * rate)) (hgain : 0 ≤ (e - t) * rate) :
    (accepted a e (answers rate burst bucket (t :: times)) : K) ≤
      max 0 ((pay rate burst bucket t).credit + 1 + (e - t) * rate) := by
  rw [accepted_cons, Nat.cast_add]
  by_cases hcredit : 0 ≤ (pay rate burst bucket t).credit
  · have hone : (if 0 ≤ (pay rate burst bucket t).credit ∧ a ≤ t ∧ t ≤ e then 1 else 0 : ℕ) ≤ 1 := by
      split <;> omega
    have hone' : ((if 0 ≤ (pay rate burst bucket t).credit ∧ a ≤ t ∧ t ≤ e then 1 else 0 : ℕ) : K) ≤ 1 := by
      exact_mod_cast hone
    rw [max_eq_right (add_nonneg hcredit hgain)] at hnext
    refine le_max_of_le_right ?_
    linarith
  · rw [if_neg fun h => hcredit h.1, Nat.cast_zero, add_zero]
    exact hnext.trans (max_le_max_left 0 (by linarith))

/-- **What is left to accept until `e`** is what the credit holds and the rate still gives. -/
theorem accepted_le_credit (hrate : 0 ≤ rate) {a e : K} {bucket : Bucket K} {times : List K}
    (hsorted : (bucket.refill :: times).Pairwise (· ≤ ·)) :
    (accepted a e (answers rate burst bucket times) : K) ≤
      max 0 (bucket.credit + (e - bucket.refill) * rate) := by
  induction times generalizing bucket with
  | nil => simp [answers, accepted]
  | cons t times ih =>
    obtain ⟨-, hrest⟩ := List.pairwise_cons.1 hsorted
    rcases lt_or_ge e t with hte | hte
    · rw [accepted_of_head_lt hrest hte, Nat.cast_zero]
      exact le_max_left _ _
    · have hgain : 0 ≤ (e - t) * rate := mul_nonneg (sub_nonneg.2 hte) hrate
      have hpaid : (pay rate burst bucket t).credit ≤ _ := credit_pay_le bucket t
      have hnext : (accepted a e (answers rate burst (pay rate burst bucket t) times) : K) ≤ _ := ih hrest
      refine (accepted_cons_le hnext hgain).trans (max_le_max_left 0 ?_)
      calc (pay rate burst bucket t).credit + 1 + (e - t) * rate
          ≤ bucket.credit + (t - bucket.refill) * rate + (e - t) * rate := by linarith
        _ = bucket.credit + (e - bucket.refill) * rate := by ring

/-- **A window accepts no more than the burst and its length at the rate**, whatever the
credit was before it. -/
theorem accepted_le_window (hrate : 0 ≤ rate) (hburst : 0 ≤ burst) {a e : K} (hae : a ≤ e) {bucket : Bucket K}
    {times : List K} (hsorted : (bucket.refill :: times).Pairwise (· ≤ ·)) :
    (accepted a e (answers rate burst bucket times) : K) ≤ burst + (e - a) * rate := by
  have hnonneg : 0 ≤ burst + (e - a) * rate := add_nonneg hburst (mul_nonneg (sub_nonneg.2 hae) hrate)
  induction times generalizing bucket with
  | nil => simpa [answers, accepted] using hnonneg
  | cons t times ih =>
    obtain ⟨-, hrest⟩ := List.pairwise_cons.1 hsorted
    rcases lt_or_ge t a with hta | hta
    · -- before the window: nothing counts, and the cap holds after it too
      rw [accepted_cons, if_neg fun h => absurd h.2.1 (not_le.2 hta), Nat.add_zero]
      exact ih hrest
    rcases lt_or_ge e t with hte | hte
    · rw [accepted_of_head_lt hrest hte, Nat.cast_zero]
      exact hnonneg
    · have hgain : 0 ≤ (e - t) * rate := mul_nonneg (sub_nonneg.2 hte) hrate
      have hpaid : (pay rate burst bucket t).credit ≤ burst - 1 := credit_pay_le_burst bucket t
      have hshort : (e - t) * rate ≤ (e - a) * rate := mul_le_mul_of_nonneg_right (by linarith) hrate
      have hnext : (accepted a e (answers rate burst (pay rate burst bucket t) times) : K) ≤ _ :=
        accepted_le_credit hrate hrest
      refine (accepted_cons_le hnext hgain).trans (max_le hnonneg ?_)
      linarith

/-- **Requests a token's time apart are all accepted**, if the first finds a token. -/
theorem answers_of_spaced (hrate : 0 < rate) (hburst : 1 ≤ burst) {bucket : Bucket K} {t : K} {times : List K}
    (hfirst : 1 ≤ bucket.credit + (t - bucket.refill) * rate)
    (hspaced : (t :: times).IsChain fun t t' => 1 / rate ≤ t' - t) :
    ∀ answer ∈ answers rate burst bucket (t :: times), answer.2 = true := by
  induction times generalizing bucket t with
  | nil =>
    intro answer hanswer
    rw [List.mem_singleton.1 hanswer]
    simp only [pay, decide_eq_true_eq, sub_nonneg]
    exact le_min hfirst hburst
  | cons t' times ih =>
    have hcredit : 0 ≤ (pay rate burst bucket t).credit := sub_nonneg.2 (le_min hfirst hburst)
    obtain ⟨hgap, hrest⟩ := List.isChain_cons_cons.1 hspaced
    intro answer hanswer
    rcases List.mem_cons.1 hanswer with rfl | hanswer
    · simpa using hcredit
    · refine ih ?_ hrest answer hanswer
      have hone : 1 ≤ (t' - t) * rate := (div_le_iff₀ hrate).1 hgap
      calc 1 ≤ (t' - t) * rate := hone
        _ ≤ (pay rate burst bucket t).credit + (t' - t) * rate := le_add_of_nonneg_left hcredit

end Bucket

end Lib
