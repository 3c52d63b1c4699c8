/-
# Sequences with restarts

A sequence in which every item either stands on its own (it restarts the
sequence) or is the successor of the item right before it.  A part cut off at the
end leaves such a sequence (`of_append`), and an item can be added that restarts
it (`concat_restart`) or that succeeds the last one (`concat_next`).
-/

import Mathlib.Data.List.Chain

namespace Lib

variable {α : Type*}

/-- The first item restarts, and every other one restarts or succeeds the one before it. -/
structure Restarting (restart : α → Prop) (next : α → α → Prop) (l : List α) : Prop where
  head : ∀ a ∈ l.head?, restart a
  chain : l.IsChain fun a b => restart b ∨ next a b

namespace Restarting

variable {restart : α → Prop} {next : α → α → Prop} {l : List α}

theorem nil : Restarting restart next ([] : List α) :=
  ⟨fun _ h => (nomatch h), .nil⟩

/-- What comes first does not depend on what follows. -/
theorem of_append {l' : List α} (h : Restarting restart next (l ++ l')) : Restarting restart next l := by
  refine ⟨fun a ha => h.head a ?_, h.chain.left_of_append⟩
  obtain ⟨rest, rfl⟩ := List.head?_eq_some_iff.1 ha
  rfl

theorem concat (h : Restarting restart next l) {b : α} (hhead : l = [] → restart b)
    (hlast : ∀ a, l.getLast? = some a → restart b ∨ next a b) : Restarting restart next (l ++ [b]) := by
  refine ⟨fun a ha => ?_, h.chain.append (.singleton b) fun a ha c hc => ?_⟩
  · cases l with
    | nil =>
      obtain rfl := Option.some.inj ha
      exact hhead rfl
    | cons x rest => exact h.head a ha
  · obtain rfl := Option.some.inj hc
    exact hlast a ha

/-- An item that stands on its own can always follow. -/
theorem concat_restart (h : Restarting restart next l) {b : α} (hb : restart b) :
    Restarting restart next (l ++ [b]) :=
  h.concat (fun _ => hb) fun _ _ => .inl hb

/-- The successor of the last item can follow. -/
theorem concat_next (h : Restarting restart next l) {a b : α} (ha : l.getLast? = some a) (hb : next a b) :
    Restarting restart next (l ++ [b]) := by
  refine h.concat (fun hnil => ?_) fun c hc => ?_
  · rw [hnil] at ha
    cases ha
  · rw [ha] at hc
    obtain rfl := Option.some.inj hc
    exact .inr hb

/-- A successor in one sense that restarts or is one in another sense. -/
theorem refine {next' : α → α → Prop} (h : Restarting restart next l)
    (hnext : ∀ a ∈ l, ∀ b ∈ l, next a b → restart b ∨ next' a b) : Restarting restart next' l := by
  refine ⟨h.head, List.isChain_iff_getElem.2 fun i hi => ?_⟩
  rcases List.isChain_iff_getElem.1 h.chain i hi with hrestart | hab
  · exact .inl hrestart
  · exact hnext _ (List.getElem_mem _) _ (List.getElem_mem _) hab

/-- The rest of a sequence goes on from its last item. -/
theorem append (h : Restarting restart next l) {l' : List α} (hchain : l'.IsChain fun a b => restart b ∨ next a b)
    (hhead : ∀ b ∈ l'.head?, (l = [] → restart b) ∧ ∀ a ∈ l.getLast?, restart b ∨ next a b) :
    Restarting restart next (l ++ l') := by
  refine ⟨fun a ha => ?_, h.chain.append hchain fun a ha b hb => (hhead b hb).2 a ha⟩
  cases l with
  | nil => exact (hhead a ha).1 rfl
  | cons x rest => exact h.head a ha

/-- **An item that does not restart comes right after its predecessor.** -/
theorem exists_previous (h : Restarting restart next l) {i : ℕ} {b : α} (hi : l[i]? = some b)
    (hb : ¬restart b) : ∃ j a, i = j + 1 ∧ l[j]? = some a ∧ next a b := by
  obtain ⟨hlt, rfl⟩ := List.getElem?_eq_some_iff.1 hi
  cases i with
  | zero => exact absurd (h.head _ (List.head?_eq_getElem? ▸ hi)) hb
  | succ j =>
    refine ⟨j, l[j], rfl, List.getElem?_eq_getElem _, ?_⟩
    exact (List.isChain_iff_getElem.1 h.chain j hlt).resolve_left hb

end Restarting

end Lib
