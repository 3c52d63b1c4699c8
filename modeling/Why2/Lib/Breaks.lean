/-
# Pieces broken into rows

A text in pieces is set in rows.  Between two rows something may be left out
(`Gap`): nothing, or a whole piece that may go, at the place where it stands in the
text.  `Broken` says that rows are such a setting of a text; a row that grows
(`Broken.extend`) and a row that is closed (`Broken.push`) keep it.

The pieces may be the runs of a text, each of one kind and as long as can be
(`MaximalRuns`); a text has them in one way (`maximalRuns_iff`).
-/

import Mathlib.Data.List.SplitBy

namespace Lib

variable {β : Type*}

/-- **The runs of a text**: it is cut into pieces of one kind, and the kind changes at every cut. -/
structure MaximalRuns {κ : Type*} (kind : β → κ) (text : List β) (runs : List (List β)) : Prop where
  flatten_eq : runs.flatten = text
  nonempty : [] ∉ runs
  uniform : ∀ run ∈ runs, ∀ x ∈ run, ∀ y ∈ run, kind x = kind y
  changes : runs.IsChain fun before after => ∀ x ∈ before.getLast?, ∀ y ∈ after.head?, kind x ≠ kind y

/-- Where neighbours are of one kind, all are. -/
theorem isChain_kind_iff {κ : Type*} {kind : β → κ} {run : List β} :
    (run.IsChain fun x y => kind x = kind y) ↔ ∀ x ∈ run, ∀ y ∈ run, kind x = kind y := by
  have : IsTrans β fun x y => kind x = kind y := ⟨fun _ _ _ => Eq.trans⟩
  have : Std.Symm fun x y : β => kind x = kind y := ⟨fun _ _ => Eq.symm⟩
  rw [List.isChain_iff_pairwise]
  constructor
  · intro h x hx y hy
    exact List.Pairwise.forall_of_forall (R := fun x y => kind x = kind y) (fun _ _ => rfl) h hx hy
  · exact fun h => List.pairwise_of_forall_mem_list h

/-- **The runs of a text are what `splitBy` makes of it.** -/
theorem maximalRuns_iff {κ : Type*} [BEq κ] [LawfulBEq κ] {kind : β → κ} {text : List β} {runs : List (List β)} :
    MaximalRuns kind text runs ↔ (text.splitBy fun x y => kind x == kind y) = runs := by
  rw [List.splitBy_eq_iff]
  have huniform (run : List β) : (run.IsChain fun x y => (kind x == kind y) = true) ↔
      ∀ x ∈ run, ∀ y ∈ run, kind x = kind y := by
    simp only [beq_iff_eq]
    exact isChain_kind_iff
  have hchanges (hne : [] ∉ runs) :
      (runs.IsChain fun before after =>
        ∃ hb ha, (kind (before.getLast hb) == kind (after.head ha)) = false) ↔
      runs.IsChain fun before after => ∀ x ∈ before.getLast?, ∀ y ∈ after.head?, kind x ≠ kind y := by
    refine List.IsChain.iff_of_mem_imp fun before after hbefore hafter => ?_
    have hb : before ≠ [] := fun h => hne (h ▸ hbefore)
    have ha : after ≠ [] := fun h => hne (h ▸ hafter)
    simp [List.getLast?_eq_getLast_of_ne_nil hb, List.head?_eq_some_head ha, hb, ha]
  simp only [huniform]
  constructor
  · intro h
    exact ⟨h.flatten_eq.symm, h.nonempty, h.uniform, (hchanges h.nonempty).2 h.changes⟩
  · rintro ⟨hflatten, hne, hall, hcuts⟩
    exact ⟨hflatten.symm, hne, hall, (hchanges hne).1 hcuts⟩
/-- Rows read in order with what was left out between them. -/
def interleave : List (List β) → List (List β) → List β
  | row :: rows, gap :: gaps => row ++ gap ++ interleave rows gaps
  | rows, _ => rows.flatten

/-- Rows without gaps. -/
@[simp] theorem interleave_nil_right (rows : List (List β)) : interleave rows [] = rows.flatten := by
  cases rows <;> rfl

/-- Rows and gaps, and then more of them. -/
theorem interleave_append {rows gaps : List (List β)} (h : gaps.length = rows.length) (rows' gaps' : List (List β)) :
    interleave (rows ++ rows') (gaps ++ gaps') = interleave rows gaps ++ interleave rows' gaps' := by
  induction rows generalizing gaps with
  | nil =>
    rw [List.length_eq_zero_iff.1 h]
    rfl
  | cons row rows ih =>
    cases gaps with
    | nil => exact absurd h (Nat.succ_ne_zero _).symm
    | cons gap gaps =>
      simp only [List.cons_append, interleave, ih (Nat.succ.inj h), List.append_assoc]

/-- One more row. -/
theorem interleave_concat {rows gaps : List (List β)} (h : gaps.length = rows.length) (row : List β) :
    interleave (rows ++ [row]) gaps = interleave rows gaps ++ row := by
  have := interleave_append h [row] []
  rwa [List.append_nil, interleave_nil_right, List.flatten_singleton] at this

/-- A row is in the text. -/
theorem subset_interleave {rows gaps : List (List β)} {row : List β} (hrow : row ∈ rows) :
    row ⊆ interleave rows gaps := by
  induction rows generalizing gaps with
  | nil => cases hrow
  | cons first rows ih =>
    cases gaps with
    | nil =>
      intro x hx
      rw [interleave_nil_right]
      exact List.mem_flatten.2 ⟨row, hrow, hx⟩
    | cons gap gaps =>
      intro x hx
      rw [interleave]
      obtain rfl | hrow := List.mem_cons.1 hrow
      · exact List.mem_append_left _ (List.mem_append_left _ hx)
      · exact List.mem_append_right _ (ih hrow hx)

/-- What is left out behind `before`: nothing, or a whole piece that may go, where it stands. -/
def Gap (pieces : List (List β)) (goes : List β → Prop) (before gap : List β) : Prop :=
  gap = [] ∨ ∃ k, pieces[k]? = some gap ∧ goes gap ∧ (pieces.take k).flatten = before

/-- **The rows are the text, less whole pieces that went at the end of a row.** -/
structure Broken (pieces : List (List β)) (goes : List β → Prop) (rows gaps : List (List β))
    (text : List β) : Prop where
  length_gaps : gaps.length + 1 = rows.length
  interleave_eq : interleave rows gaps = text
  gap_at : ∀ i gap, gaps[i]? = some gap →
    Gap pieces goes (interleave (rows.take (i + 1)) (gaps.take i)) gap

namespace Broken

variable {pieces rows gaps : List (List β)} {goes : List β → Prop} {current text : List β}

/-- Nothing is set in one row. -/
theorem start : Broken pieces goes [[]] [] [] := ⟨rfl, rfl, fun _ _ h => by cases h⟩

/-- Between two rows is one gap. -/
theorem length_eq (h : Broken pieces goes (rows ++ [current]) gaps text) : gaps.length = rows.length := by
  have := h.length_gaps
  rwa [List.length_append, List.length_singleton, Nat.add_right_cancel_iff] at this

/-- The rows up to a gap do not depend on the rows behind it. -/
theorem take_rows (h : Broken pieces goes (rows ++ [current]) gaps text) {i : ℕ} {gap : List β}
    (hgap : gaps[i]? = some gap) (rows' : List (List β)) :
    (rows ++ rows').take (i + 1) = rows.take (i + 1) := by
  have hi := (List.getElem?_eq_some_iff.1 hgap).1
  rw [h.length_eq] at hi
  exact List.take_append_of_le_length hi

/-- The last row grows. -/
theorem extend (h : Broken pieces goes (rows ++ [current]) gaps text) (more : List β) :
    Broken pieces goes (rows ++ [current ++ more]) gaps (text ++ more) where
  length_gaps := by
    rw [List.length_append, List.length_singleton, h.length_eq]
  interleave_eq := by
    rw [← h.interleave_eq, interleave_concat h.length_eq, interleave_concat h.length_eq, List.append_assoc]
  gap_at i gap hgap := by
    have := h.gap_at i gap hgap
    rwa [h.take_rows hgap] at this ⊢

/-- The last row is closed, with a gap behind it. -/
theorem push (h : Broken pieces goes (rows ++ [current]) gaps text) {gap : List β} (hgap : Gap pieces goes text gap) :
    Broken pieces goes (rows ++ [current] ++ [[]]) (gaps ++ [gap]) (text ++ gap) where
  length_gaps := by
    simp only [List.length_append, List.length_singleton, h.length_eq]
  interleave_eq := by
    have hlength : (gaps ++ [gap]).length = (rows ++ [current]).length := by
      simp only [List.length_append, List.length_singleton, h.length_eq]
    have hgap : interleave [current] [gap] = current ++ gap := by
      simp only [interleave, List.flatten_nil, List.append_nil]
    rw [interleave_concat hlength, interleave_append h.length_eq, hgap, ← h.interleave_eq,
      interleave_concat h.length_eq, List.append_nil, List.append_assoc]
  gap_at i g hg := by
    obtain hlt | hge := Nat.lt_or_ge i gaps.length
    · rw [List.getElem?_append_left hlt] at hg
      have hold := h.gap_at i g hg
      rw [h.take_rows hg] at hold
      rw [List.append_assoc, h.take_rows hg, List.take_append_of_le_length (Nat.le_of_lt hlt)]
      exact hold
    · rw [List.getElem?_append_right hge] at hg
      have hi : i = gaps.length := by
        have := (List.getElem?_eq_some_iff.1 hg).1
        rw [List.length_singleton] at this
        omega
      subst hi
      rw [Nat.sub_self, List.getElem?_cons_zero, Option.some.injEq] at hg
      subst hg
      have hrows : (rows ++ [current] ++ [[]]).take (gaps.length + 1) = rows ++ [current] := by
        rw [h.length_gaps, List.take_left]
      rw [hrows, List.take_left, h.interleave_eq]
      exact hgap

end Broken

end Lib
