/-
# Lists that change in place

How an element that is taken out or modified shows in the rest of the list: in its
elements and their number (`swapRemove_perm`, `count_modify`), in those that pass a test
(`filter_eraseIdx`), and at one place after a series of changes (`getElem?_foldl_modify`).
A part between separators has none of them in it (`not_mem_of_mem_splitOn`).
-/

import Mathlib.Data.List.Perm.Basic

namespace Lib

variable {α : Type*} {l : List α} {i : ℕ} {a : α}

/-- The last element takes the place of the one that goes. -/
def swapRemove (l : List α) (i : ℕ) : List α :=
  match l.getLast? with
  | none => []
  | some last => (l.set i last).dropLast

/-- Nothing else goes. -/
theorem swapRemove_perm (h : l[i]? = some a) : l.Perm (a :: swapRemove l i) := by
  obtain ⟨hlt, rfl⟩ := List.getElem?_eq_some_iff.1 h
  have hne : l ≠ [] := List.ne_nil_of_length_pos (by omega)
  obtain ⟨before, last, rfl⟩ : ∃ before last, l = before ++ [last] :=
    ⟨l.dropLast, l.getLast hne, (List.dropLast_append_getLast hne).symm⟩
  rw [swapRemove, List.getLast?_append, List.getLast?_singleton, Option.some_or]
  dsimp only
  rcases Nat.lt_or_ge i before.length with hi | hi
  · -- The last one takes the place of the one that goes.
    rw [List.set_append_left _ _ hi, List.dropLast_concat, List.getElem_append_left hi]
    have hset := List.set_perm_cons_eraseIdx hi last
    have hsplit := List.getElem_cons_eraseIdx_perm hi
    exact (List.perm_append_singleton last before).trans
      ((hsplit.symm.cons last).trans ((List.Perm.swap _ _ _).trans (hset.symm.cons _)))
  · obtain rfl : i = before.length := by
      rw [List.length_append, List.length_singleton] at hlt
      omega
    rw [List.set_append_right _ _ (Nat.le_refl _), Nat.sub_self, List.set_cons_zero, List.dropLast_concat,
      List.getElem_append_right (Nat.le_refl _)]
    simp

/-- The elements that pass a test, without one element: one fewer, or the same ones. -/
theorem filter_eraseIdx (p : α → Bool) (h : l[i]? = some a) :
    ((l.eraseIdx i).filter p).length + (if p a then 1 else 0) = (l.filter p).length ∧
      (p a = false → (l.eraseIdx i).filter p = l.filter p) := by
  obtain ⟨hi, rfl⟩ := List.getElem?_eq_some_iff.1 h
  have hsplit : l.filter p = (l.take i ++ l[i] :: l.drop (i + 1)).filter p := by
    rw [List.getElem_cons_drop, List.take_append_drop]
  rw [hsplit, List.eraseIdx_eq_take_drop_succ]
  simp only [List.filter_append, List.filter_cons]
  cases p l[i] with
  | true =>
    simp only [if_true, List.length_append, List.length_cons]
    exact ⟨by omega, fun h => by cases h⟩
  | false => exact ⟨by simp, fun _ => rfl⟩

/-- A change of one element moves it from one count to another. -/
theorem count_modify [DecidableEq α] (f : α → α) (h : l[i]? = some a) (b : α) :
    (l.modify i f).count b + (if a = b then 1 else 0) = l.count b + (if f a = b then 1 else 0) := by
  obtain ⟨hi, hget⟩ := List.getElem?_eq_some_iff.1 h
  obtain ⟨before, c, after, rfl, rfl, hmodify⟩ := List.exists_of_modify f hi
  obtain rfl : c = a := by simpa using hget
  rw [hmodify, List.count_append, List.count_append, List.count_cons, List.count_cons]
  simp only [beq_iff_eq]
  omega

/-- What a change that does nothing twice leaves at one place. -/
theorem getElem?_foldl_modify {f : α → α} (hf : ∀ a, f (f a) = f a) (is : List ℕ) (l : List α) (j : ℕ) :
    (is.foldl (fun l i => l.modify i f) l)[j]? = if j ∈ is then l[j]?.map f else l[j]? := by
  induction is generalizing l with
  | nil => rfl
  | cons i is ih =>
    rw [List.foldl_cons, ih, List.getElem?_modify]
    by_cases hij : i = j
    · subst hij
      cases l[i]? <;> simp [hf]
    · have hji : ¬j = i := fun h => hij h.symm
      simp [hij, hji]

/-- A part between separators has none of them in it. -/
theorem not_mem_of_mem_splitOn [DecidableEq α] {sep : α} {part : List α} (h : part ∈ l.splitOn sep) :
    sep ∉ part := by
  induction l generalizing part with
  | nil =>
    obtain rfl := List.mem_singleton.1 h
    exact List.not_mem_nil
  | cons x l ih =>
    rw [List.splitOn_cons_eq_if_modifyHead] at h
    split at h
    case isTrue =>
      rcases List.mem_cons.1 h with rfl | h
      · exact List.not_mem_nil
      · exact ih h
    case isFalse hne =>
      cases hparts : l.splitOn sep with
      | nil => exact absurd hparts (List.splitOn_ne_nil sep l)
      | cons first parts =>
        rw [hparts, List.modifyHead_cons] at h
        have hmem : ∀ p ∈ first :: parts, sep ∉ p := fun p hp => ih (hparts ▸ hp)
        rcases List.mem_cons.1 h with rfl | h
        · rw [List.mem_cons, not_or]
          refine ⟨?_, hmem first List.mem_cons_self⟩
          rintro rfl
          exact hne (beq_self_eq_true _)
        · exact hmem part (List.mem_cons_of_mem _ h)

end Lib
