/-
# Minors in characteristic two

An alternating form over the columns `ι` has a coefficient for every set of
them.  The product with a row (`wedge`) and the contraction with a column
(`contract`) satisfy a Leibniz rule, without signs in characteristic two
(`contract_wedge`).  The product of some rows has their minors as coefficients
(`minors`), and if a column other than 0 is orthogonal to all the rows, then the
minor at its support is 0 (`minors_support_eq_zero`): nothing about determinants
is needed.

`Exterior` holds the coefficients over `n` columns in a binary tree, so that the
minors of all choices of rows can be computed and checked (`search_sound`).
-/

import Mathlib.Algebra.CharP.Two
import Mathlib.Algebra.BigOperators.Ring.Finset
import Mathlib.Algebra.BigOperators.Fin
import Mathlib.Data.Fintype.BigOperators
import Mathlib.Tactic.LinearCombination
import Mathlib.Tactic.Ring

namespace Lib

section Forms

variable {ι R : Type*} [DecidableEq ι] [CommRing R]

/-- The product of a row with a form. -/
def wedge (v : ι → R) (ω : Finset ι → R) (s : Finset ι) : R := ∑ i ∈ s, v i * ω (s.erase i)

/-- The unit of the product. -/
def unit (s : Finset ι) : R := if s = ∅ then 1 else 0

/-- The product of some rows: at a set of as many columns, the minor. -/
def minors (rows : List (ι → R)) : Finset ι → R := rows.foldr wedge unit

/-- The product with zero. -/
theorem wedge_zero (v : ι → R) : wedge v (fun _ => 0) = fun _ => 0 := by
  funext s
  exact Finset.sum_eq_zero fun i _ => mul_zero _

variable [Fintype ι]

/-- The contraction of a form with a column. -/
def contract (x : ι → R) (ω : Finset ι → R) (s : Finset ι) : R := ∑ i ∈ sᶜ, x i * ω (insert i s)

/-- Nothing is in the unit. -/
theorem contract_unit (x : ι → R) (s : Finset ι) : contract x unit s = 0 := by
  refine Finset.sum_eq_zero fun i _ => ?_
  rw [unit, if_neg (Finset.insert_ne_empty i s), mul_zero]

/-- **The Leibniz rule.** -/
theorem contract_wedge [CharP R 2] (x v : ι → R) (ω : Finset ι → R) (s : Finset ι) :
    contract x (wedge v ω) s = (∑ i, v i * x i) * ω s + wedge v (contract x ω) s := by
  have hleft : contract x (wedge v ω) s =
      (∑ i ∈ sᶜ, v i * x i) * ω s + ∑ i ∈ sᶜ, ∑ j ∈ s, v j * x i * ω ((insert i s).erase j) := by
    rw [contract, Finset.sum_mul, ← Finset.sum_add_distrib]
    refine Finset.sum_congr rfl fun i hi => ?_
    have hi' : i ∉ s := Finset.mem_compl.1 hi
    rw [wedge, Finset.sum_insert hi', Finset.erase_insert hi', mul_add, Finset.mul_sum]
    refine congrArg₂ (· + ·) (by ring) (Finset.sum_congr rfl fun j _ => ?_)
    ring
  have hright : wedge v (contract x ω) s =
      (∑ j ∈ s, v j * x j) * ω s + ∑ j ∈ s, ∑ i ∈ sᶜ, v j * x i * ω ((insert i s).erase j) := by
    rw [wedge, Finset.sum_mul, ← Finset.sum_add_distrib]
    refine Finset.sum_congr rfl fun j hj => ?_
    have hj' : j ∉ sᶜ := fun h => Finset.mem_compl.1 h hj
    rw [contract, Finset.compl_erase, Finset.sum_insert hj', Finset.insert_erase hj, mul_add, Finset.mul_sum]
    refine congrArg₂ (· + ·) (by ring) (Finset.sum_congr rfl fun i hi => ?_)
    have hne : i ≠ j := fun h => Finset.mem_compl.1 hi (h ▸ hj)
    rw [Finset.erase_insert_of_ne hne]
    ring
  have hsplit : ∑ i, v i * x i = ∑ i ∈ s, v i * x i + ∑ i ∈ sᶜ, v i * x i :=
    (Finset.sum_add_sum_compl s fun i => v i * x i).symm
  -- The terms of the diagonal in `s` come twice.
  have htwice : (∑ i ∈ s, v i * x i) * ω s + (∑ i ∈ s, v i * x i) * ω s = 0 := CharTwo.add_self_eq_zero _
  rw [hleft, hright, hsplit, Finset.sum_comm (s := s)]
  linear_combination -htwice

/-- Contracting with a column that is orthogonal to all rows gives 0. -/
theorem contract_minors [CharP R 2] {x : ι → R} {rows : List (ι → R)}
    (horth : ∀ v ∈ rows, ∑ i, v i * x i = 0) : contract x (minors rows) = fun _ => 0 := by
  induction rows with
  | nil => exact funext fun s => contract_unit x s
  | cons v rows ih =>
    have hrest := ih fun v hv => horth v (List.mem_cons_of_mem _ hv)
    funext s
    rw [show minors (v :: rows) = wedge v (minors rows) from rfl, contract_wedge, hrest, wedge_zero,
      horth v List.mem_cons_self, zero_mul, zero_add]

/-- **The minor at the support of a column that is orthogonal to all rows is 0.** -/
theorem minors_support_eq_zero [CharP R 2] [NoZeroDivisors R] {x : ι → R} {rows : List (ι → R)}
    (horth : ∀ v ∈ rows, ∑ i, v i * x i = 0) {support : Finset ι} (hsupport : ∀ i, i ∈ support ↔ x i ≠ 0)
    (hne : support.Nonempty) : minors rows support = 0 := by
  obtain ⟨j, hj⟩ := hne
  have hzero := congrFun (contract_minors horth) (support.erase j)
  rw [contract, Finset.compl_erase, Finset.sum_insert (fun h => Finset.mem_compl.1 h hj), Finset.insert_erase hj,
    Finset.sum_eq_zero, add_zero] at hzero
  · exact (mul_eq_zero.1 hzero).resolve_left ((hsupport j).1 hj)
  · intro i hi
    rw [not_not.1 (mt (hsupport i).2 (Finset.mem_compl.1 hi)), zero_mul]

end Forms

/-! ### Computing the minors -/

/-- The coefficients over `n` columns: those of the sets without the first column, and
those of the sets with it. -/
def Exterior (α : Type*) : ℕ → Type _
  | 0 => α
  | n + 1 => Exterior α n × Exterior α n

namespace Exterior

/-- A form from its coefficients without and with the first column. -/
def pair {α : Type*} {n : ℕ} (a b : Exterior α n) : Exterior α (n + 1) := (a, b)

/-- A form is its parts without and with the first coordinate. -/
theorem exists_pair {α : Type*} {n : ℕ} (ω : Exterior α (n + 1)) : ∃ a b, ω = pair a b := ⟨ω.1, ω.2, rfl⟩

variable {α : Type*} [Zero α] [One α] [Add α] [Mul α] {n : ℕ}

/-- The sum, coefficient by coefficient. -/
def add : (n : ℕ) → Exterior α n → Exterior α n → Exterior α n
  | 0 => fun (a b : α) => a + b
  | n + 1 => fun a b => (add n a.1 b.1, add n a.2 b.2)

/-- The product with a scalar. -/
def scale (c : α) : (n : ℕ) → Exterior α n → Exterior α n
  | 0 => fun (a : α) => c * a
  | n + 1 => fun a => (scale c n a.1, scale c n a.2)

/-- The form 0. -/
def zero : (n : ℕ) → Exterior α n
  | 0 => (0 : α)
  | n + 1 => (zero n, zero n)

/-- The unit of the product. -/
def one : (n : ℕ) → Exterior α n
  | 0 => (1 : α)
  | n + 1 => (one n, zero n)

/-- The product of a row with a form: the first column of the row, if it is taken, goes
with the sets that do not have it yet. -/
def times : (n : ℕ) → (Fin n → α) → Exterior α n → Exterior α n
  | 0 => fun _ _ => (0 : α)
  | n + 1 => fun v ω =>
    (times n (fun i => v i.succ) ω.1,
      add n (scale (v ⟨0, n.succ_pos⟩) n ω.1) (times n (fun i => v i.succ) ω.2))

/-- Every coefficient at `k` columns passes the test. -/
def check (p : α → Bool) : (n : ℕ) → ℕ → Exterior α n → Bool
  | 0, 0 => fun (a : α) => p a
  | 0, _ + 1 => fun _ => true
  | n + 1, 0 => fun ω => check p n 0 ω.1
  | n + 1, k + 1 => fun ω => check p n (k + 1) ω.1 && check p n k ω.2

/-- The minors of `k` rows are in `ω`; every choice of up to `left` more rows is made, and
the minors are tested. -/
def search (p : α → Bool) : List (Fin n → α) → ℕ → ℕ → Exterior α n → Bool
  | [], _, _, _ => true
  | _ :: _, _, 0, _ => true
  | v :: rows, k, left + 1, ω =>
    check p n (k + 1) (times n v ω) && search p rows (k + 1) left (times n v ω) &&
      search p rows k (left + 1) ω

omit [One α] in
/-- The product of a vector, part by part. -/
theorem times_pair (v : Fin (n + 1) → α) (a b : Exterior α n) :
    times (n + 1) v (pair a b) = pair (times n (fun i => v i.succ) a)
      (add n (scale (v 0) n a) (times n (fun i => v i.succ) b)) := rfl

/-! ### What is computed -/

/-- The columns after the first, counted from 0. -/
def tail (s : Finset (Fin (n + 1))) : Finset (Fin n) := Finset.univ.filter fun i => i.succ ∈ s

/-- The set without the first coordinate. -/
theorem mem_tail {s : Finset (Fin (n + 1))} {i : Fin n} : i ∈ tail s ↔ i.succ ∈ s := by
  simp [tail]

/-- A sum, with the first coordinate apart. -/
theorem sum_tail {R : Type*} [AddCommMonoid R] (s : Finset (Fin (n + 1))) (f : Fin (n + 1) → R) :
    ∑ i ∈ s, f i = (if 0 ∈ s then f 0 else 0) + ∑ i ∈ tail s, f i.succ := by
  calc ∑ i ∈ s, f i = ∑ i, if i ∈ s then f i else 0 := by rw [Finset.sum_ite_mem, Finset.univ_inter]
    _ = (if 0 ∈ s then f 0 else 0) + ∑ i : Fin n, if i.succ ∈ s then f i.succ else 0 :=
      Fin.sum_univ_succ fun i => if i ∈ s then f i else 0
    _ = (if 0 ∈ s then f 0 else 0) + ∑ i ∈ tail s, f i.succ := by rw [tail, Finset.sum_filter]

/-- The size, with the first coordinate apart. -/
theorem card_tail (s : Finset (Fin (n + 1))) : s.card = (if 0 ∈ s then 1 else 0) + (tail s).card := by
  rw [Finset.card_eq_sum_ones, Finset.card_eq_sum_ones, sum_tail s]

/-- The first coordinate is not in the rest. -/
theorem tail_erase_zero (s : Finset (Fin (n + 1))) : tail (s.erase 0) = tail s := by
  ext i
  simp [mem_tail, Fin.succ_ne_zero]

/-- Another coordinate is erased in the rest. -/
theorem tail_erase_succ (s : Finset (Fin (n + 1))) (i : Fin n) : tail (s.erase i.succ) = (tail s).erase i := by
  ext j
  simp [mem_tail]

/-- The coefficient at a set of columns. -/
def coeff : (n : ℕ) → Exterior α n → Finset (Fin n) → α
  | 0 => fun (a : α) _ => a
  | n + 1 => fun ω s => coeff n (if ⟨0, n.succ_pos⟩ ∈ s then ω.2 else ω.1) (tail s)

omit [Zero α] [One α] [Add α] [Mul α] in
/-- A coefficient is one of the part it belongs to. -/
theorem coeff_succ (ω : Exterior α (n + 1)) (s : Finset (Fin (n + 1))) :
    coeff (n + 1) ω s = coeff n (if 0 ∈ s then ω.2 else ω.1) (tail s) := rfl

omit [Zero α] [One α] [Add α] [Mul α] in
/-- A coefficient with the first coordinate. -/
theorem coeff_of_mem {s : Finset (Fin (n + 1))} (hzero : 0 ∈ s) (a b : Exterior α n) :
    coeff (n + 1) (pair a b) s = coeff n b (tail s) := by
  rw [coeff_succ, if_pos hzero]
  rfl

omit [Zero α] [One α] [Add α] [Mul α] in
/-- A coefficient without the first coordinate. -/
theorem coeff_of_notMem {s : Finset (Fin (n + 1))} (hzero : 0 ∉ s) (a b : Exterior α n) :
    coeff (n + 1) (pair a b) s = coeff n a (tail s) := by
  rw [coeff_succ, if_neg hzero]
  rfl

omit [Zero α] [One α] [Mul α] in
/-- Coefficients are added. -/
theorem coeff_add (a b : Exterior α n) (s : Finset (Fin n)) :
    coeff n (add n a b) s = coeff n a s + coeff n b s := by
  induction n with
  | zero => rfl
  | succ n ih =>
    unfold coeff add
    split_ifs
    · exact ih a.2 b.2 (tail s)
    · exact ih a.1 b.1 (tail s)

omit [Zero α] [One α] [Add α] in
/-- Coefficients are multiplied. -/
theorem coeff_scale (c : α) (a : Exterior α n) (s : Finset (Fin n)) :
    coeff n (scale c n a) s = c * coeff n a s := by
  induction n with
  | zero => rfl
  | succ n ih =>
    unfold coeff scale
    split_ifs
    · exact ih a.2 (tail s)
    · exact ih a.1 (tail s)

omit [One α] [Add α] [Mul α] in
/-- The coefficients of zero. -/
theorem coeff_zero (s : Finset (Fin n)) : coeff n (zero n : Exterior α n) s = 0 := by
  induction n with
  | zero => rfl
  | succ n ih =>
    unfold coeff zero
    split_ifs <;> exact ih (tail s)

omit [Add α] [Mul α] in
/-- The coefficients of one. -/
theorem coeff_one (s : Finset (Fin n)) : coeff n (one n : Exterior α n) s = if s = ∅ then 1 else 0 := by
  induction n with
  | zero => rw [if_pos (Finset.eq_empty_of_isEmpty s)]; rfl
  | succ n ih =>
    rw [coeff_succ]
    unfold one
    split_ifs with hzero hempty hempty
    · rw [hempty] at hzero
      exact absurd hzero (Finset.notMem_empty 0)
    · exact coeff_zero (tail s)
    · have htail : tail s = ∅ := by
        rw [hempty]
        exact Finset.filter_eq_empty_iff.2 fun i _ => Finset.notMem_empty _
      rw [ih, if_pos htail]
    · refine (ih (tail s)).trans (if_neg fun htail => hempty ?_)
      refine Finset.card_eq_zero.1 ?_
      rw [card_tail, if_neg hzero, htail, Finset.card_empty]

omit [Zero α] [One α] [Add α] [Mul α] in
/-- **What passes the check passes the test at every set of so many columns.** -/
theorem check_sound {p : α → Bool} {k : ℕ} {ω : Exterior α n} (h : check p n k ω = true)
    {s : Finset (Fin n)} (hs : s.card = k) : p (coeff n ω s) = true := by
  induction n generalizing k with
  | zero =>
    rw [Finset.eq_empty_of_isEmpty s, Finset.card_empty] at hs
    subst hs
    exact h
  | succ n ih =>
    rw [card_tail] at hs
    rw [coeff_succ]
    cases k with
    | zero =>
      have hzero : 0 ∉ s := by
        intro hmem
        rw [if_pos hmem] at hs
        omega
      rw [if_neg hzero] at hs ⊢
      exact ih h (by omega)
    | succ k =>
      obtain ⟨hwithout, hwith⟩ := Bool.and_eq_true_iff.1 h
      split_ifs at hs ⊢ with hzero
      · exact ih hwith (by omega)
      · exact ih hwithout (by omega)

omit [One α] in
/-- **The search tests the minors of every choice of rows.** -/
theorem search_sound {p : α → Bool} {rows : List (Fin n → α)} {k left : ℕ} {ω : Exterior α n}
    (h : search p rows k left ω = true) {chosen : List (Fin n → α)} (hsub : chosen.Sublist rows)
    (hne : chosen ≠ []) (hlength : chosen.length ≤ left) :
    check p n (k + chosen.length) (chosen.foldl (fun ω v => times n v ω) ω) = true := by
  induction rows generalizing k left ω chosen with
  | nil => exact absurd (List.sublist_nil.1 hsub) hne
  | cons v rows ih =>
    obtain ⟨left, rfl⟩ : ∃ m, left = m + 1 := by
      have hpos := List.length_pos_iff.2 hne
      exact ⟨left - 1, by omega⟩
    obtain ⟨⟨hcheck, hwith⟩, hwithout⟩ : (check p n (k + 1) (times n v ω) = true ∧
        search p rows (k + 1) left (times n v ω) = true) ∧ search p rows k (left + 1) ω = true := by
      simpa only [search, Bool.and_eq_true] using h
    cases hsub with
    | cons _ hsub => exact ih hwithout hsub hne hlength
    | cons_cons _ hsub =>
      rename_i rest
      rw [List.foldl_cons, List.length_cons, Nat.add_comm rest.length, ← Nat.add_assoc]
      by_cases hrest : rest = []
      · subst hrest
        exact hcheck
      · exact ih hwith hsub hrest (by rw [List.length_cons] at hlength; omega)

section Interpretation

variable {R : Type*} [CommRing R]

/-- The scalars stand for elements of a ring. -/
structure Interprets (φ : α → R) : Prop where
  zero : φ 0 = 0
  one : φ 1 = 1
  add : ∀ a b, φ (a + b) = φ a + φ b
  mul : ∀ a b, φ (a * b) = φ a * φ b

/-- The form a tree stands for. -/
def form (φ : α → R) (ω : Exterior α n) (s : Finset (Fin n)) : R := φ (coeff n ω s)

variable {φ : α → R}

/-- One is the unit. -/
theorem form_one (hφ : Interprets φ) : form φ (one n : Exterior α n) = unit := by
  funext s
  rw [form, coeff_one, unit, apply_ite φ, hφ.one, hφ.zero]

/-- **The product of trees is the product of forms.** -/
theorem form_times (hφ : Interprets φ) (v : Fin n → α) (ω : Exterior α n) :
    form φ (times n v ω) = wedge (fun i => φ (v i)) (form φ ω) := by
  induction n with
  | zero =>
    funext s
    rw [wedge, Finset.eq_empty_of_isEmpty s, Finset.sum_empty]
    exact hφ.zero
  | succ n ih =>
    funext s
    obtain ⟨a, b, rfl⟩ := exists_pair ω
    -- The first column goes with the sets that do not have it.
    have hfirst : form φ (pair a b) (s.erase 0) = form φ a (tail s) := by
      rw [form, coeff_of_notMem (Finset.notMem_erase 0 s), tail_erase_zero, form]
    by_cases hzero : 0 ∈ s
    · have hother : ∀ i : Fin n, form φ (pair a b) (s.erase i.succ) =
          form φ b ((tail s).erase i) := by
        intro i
        rw [form, coeff_of_mem (Finset.mem_erase.2 ⟨(Fin.succ_ne_zero i).symm, hzero⟩), tail_erase_succ, form]
      have htail := congrFun (ih (fun i => v i.succ) b) (tail s)
      simp only [wedge, sum_tail s, if_pos hzero, hfirst, hother] at htail ⊢
      rw [← htail, form, times_pair, coeff_of_mem hzero, coeff_add, coeff_scale, hφ.add, hφ.mul]
      rfl
    · have hother : ∀ i : Fin n, form φ (pair a b) (s.erase i.succ) =
          form φ a ((tail s).erase i) := by
        intro i
        rw [form, coeff_of_notMem fun h => hzero (Finset.mem_of_mem_erase h), tail_erase_succ, form]
      have htail := congrFun (ih (fun i => v i.succ) a) (tail s)
      simp only [wedge, sum_tail s, if_neg hzero, zero_add, hother] at htail ⊢
      rw [← htail, form, times_pair, coeff_of_notMem hzero]
      rfl

/-- **A product of rows has their minors as coefficients.** -/
theorem form_foldl (hφ : Interprets φ) (rows : List (Fin n → α)) :
    form φ (rows.foldl (fun ω v => times n v ω) (one n)) =
      minors (rows.map fun v i => φ (v i)).reverse := by
  have hfold : ∀ ω : Exterior α n, form φ (rows.foldl (fun ω v => times n v ω) ω) =
      (rows.map fun v i => φ (v i)).foldl (fun ω v => wedge v ω) (form φ ω) := by
    induction rows with
    | nil => exact fun ω => rfl
    | cons v rows ih =>
      intro ω
      rw [List.foldl_cons, ih, form_times hφ]
      rfl
  rw [hfold, form_one hφ, minors, List.foldr_reverse]

/-- **No column is orthogonal to as many rows as it has coefficients other than 0**, if the
search passed: the first row and some of the others. -/
theorem not_orthogonal [CharP R 2] [NoZeroDivisors R] (hφ : Interprets φ) {p : α → Bool}
    (hp : ∀ a, p a = true → φ a ≠ 0) {first : Fin n → α} {rows chosen : List (Fin n → α)} {left : ℕ}
    (hfirst : check p n 1 (times n first (one n)) = true)
    (hsearch : search p rows 1 left (times n first (one n)) = true) (hsub : chosen.Sublist rows)
    (hlength : chosen.length ≤ left) {x : Fin n → R} {support : Finset (Fin n)}
    (hsupport : ∀ i, i ∈ support ↔ x i ≠ 0) (hcard : support.card = chosen.length + 1)
    (horth : ∀ v ∈ first :: chosen, ∑ i, φ (v i) * x i = 0) : False := by
  have hcheck : check p n support.card ((first :: chosen).foldl (fun ω v => times n v ω) (one n)) = true := by
    rw [hcard, Nat.add_comm, List.foldl_cons]
    by_cases hne : chosen = []
    · subst hne
      exact hfirst
    · exact search_sound hsearch hsub hne hlength
  have hminor := congrFun (form_foldl hφ (first :: chosen)) support
  rw [minors_support_eq_zero ?_ hsupport (Finset.card_pos.1 (by omega))] at hminor
  · exact hp _ (check_sound hcheck rfl) hminor
  · intro v hv
    obtain ⟨row, hrow, rfl⟩ := List.mem_map.1 (List.mem_reverse.1 hv)
    exact horth row hrow

end Interpretation

end Exterior

end Lib
