/-
# A numbered queue

One direction of a connection.  The writer numbers what it writes, the reader
keeps the number of the last item it took, and the items in flight keep their
order.  The numbers in flight increase and lie between the two counters, which
is part of the structure: the next item always has a new number (`lt_of_head`).
-/

import Mathlib.Data.List.Basic
import Mathlib.Data.Nat.Basic

namespace Lib

variable {α : Type*}

/-- The items in flight, with their numbers; the last number taken; the last number
given. -/
structure Fifo (α : Type*) where
  items : List (ℕ × α)
  seen : ℕ
  last : ℕ
  sorted : items.Pairwise fun x y => x.1 < y.1
  bounds : ∀ x ∈ items, seen < x.1 ∧ x.1 ≤ last
  seen_le : seen ≤ last

namespace Fifo

/-- Nothing in flight. -/
def empty (n : ℕ) : Fifo α := ⟨[], n, n, .nil, fun _ h => absurd h List.not_mem_nil, le_rfl⟩

/-- What is in flight, without the numbers. -/
def contents (q : Fifo α) : List α := q.items.map (·.2)

/-- Write an item. -/
def push (q : Fifo α) (a : α) : Fifo α where
  items := q.items ++ [(q.last + 1, a)]
  seen := q.seen
  last := q.last + 1
  sorted := by
    refine List.pairwise_append.2 ⟨q.sorted, List.pairwise_singleton _ _, fun x hx y hy => ?_⟩
    rw [List.mem_singleton.1 hy]
    exact Nat.lt_succ_of_le (q.bounds x hx).2
  bounds := by
    intro x hx
    rcases List.mem_append.1 hx with hx | hx
    · exact ⟨(q.bounds x hx).1, Nat.le_succ_of_le (q.bounds x hx).2⟩
    · rw [List.mem_singleton.1 hx]
      exact ⟨Nat.lt_succ_of_le q.seen_le, le_rfl⟩
  seen_le := Nat.le_succ_of_le q.seen_le

/-- Take the next item off, without its number. -/
def drop (q : Fifo α) : Fifo α where
  items := q.items.tail
  seen := q.seen
  last := q.last
  sorted := q.sorted.tail
  bounds := fun x hx => q.bounds x (List.mem_of_mem_tail hx)
  seen_le := q.seen_le

/-- Take the next item off, and keep its number. -/
def accept (q : Fifo α) : Fifo α :=
  match h : q.items with
  | [] => q
  | x :: rest =>
    { items := rest
      seen := x.1
      last := q.last
      sorted := (List.pairwise_cons.1 (h ▸ q.sorted)).2
      bounds := fun y hy => ⟨(List.pairwise_cons.1 (h ▸ q.sorted)).1 y hy,
        (q.bounds y (h ▸ List.mem_cons_of_mem x hy)).2⟩
      seen_le := (q.bounds x (h ▸ List.mem_cons_self)).2 }

variable (q : Fifo α)

/-- What is pushed comes last. -/
@[simp] theorem contents_push (a : α) : (q.push a).contents = q.contents ++ [a] := by
  simp [contents, push]

/-- What is accepted was first. -/
@[simp] theorem contents_accept : q.accept.contents = q.contents.tail := by
  unfold accept contents
  split
  · rename_i h
    simp [h]
  · rename_i h
    simp [h]

variable {q}

/-- **The next number is new.** -/
theorem lt_of_head {n : ℕ} {a : α} (h : q.items.head? = some (n, a)) : q.seen < n :=
  (q.bounds (n, a) (List.mem_of_head? h)).1

/-- The first packet, and the others. -/
theorem contents_eq_cons {n : ℕ} {a : α} (h : q.items.head? = some (n, a)) :
    q.contents = a :: q.contents.tail := by
  obtain ⟨rest, hrest⟩ := List.head?_eq_some_iff.1 h
  simp [contents, hrest]

/-- The first packet. -/
theorem contents_head? {n : ℕ} {a : α} (h : q.items.head? = some (n, a)) :
    q.contents.head? = some a := by
  rw [contents_eq_cons h, List.head?_cons]

end Fifo

end Lib
