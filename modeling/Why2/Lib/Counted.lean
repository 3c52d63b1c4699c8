/-
# Lists behind their length

A list is written as the number of its entries and then the entries, one after another.
A reader undoes a writer on the values of a set, whatever follows them (`Undoes`), and
readers that do are put together from readers that do: a pair (`Undoes.pair`), and a list of
entries behind its length (`Undoes.counted`).
-/

import Mathlib.Algebra.BigOperators.Group.List.Basic
import Mathlib.Algebra.GroupWithZero.Nat
import Mathlib.Tactic.Common

namespace Lib

variable {α α' β : Type*}

/-- `read` takes a value of `P` off the front of what `write` wrote it to. -/
def Undoes (read : List β → Option (α × List β)) (write : α → List β) (P : α → Prop) : Prop :=
  ∀ a, P a → ∀ rest, read (write a ++ rest) = some (a, rest)

/-- Two values, one after the other. -/
def readPair (read : List β → Option (α × List β)) (read' : List β → Option (α' × List β)) (bytes : List β) :
    Option ((α × α') × List β) :=
  (read bytes).bind fun (a, rest) => (read' rest).map fun (a', rest) => ((a, a'), rest)

/-- Some values, one after another. -/
def readTimes (read : List β → Option (α × List β)) : ℕ → List β → Option (List α × List β)
  | 0, bytes => some ([], bytes)
  | n + 1, bytes =>
    (read bytes).bind fun (a, rest) => (readTimes read n rest).map fun (l, rest) => (a :: l, rest)

/-- As many values as are announced. -/
def readCounted (readCount : List β → Option (ℕ × List β)) (read : List β → Option (α × List β))
    (bytes : List β) : Option (List α × List β) :=
  (readCount bytes).bind fun (n, rest) => readTimes read n rest

/-- Values behind their number. -/
def writeCounted (count : ℕ → List β) (write : α → List β) (l : List α) : List β :=
  count l.length ++ (l.map write).flatten

variable {read : List β → Option (α × List β)} {read' : List β → Option (α' × List β)} {write : α → List β}
  {write' : α' → List β} {P : α → Prop} {P' : α' → Prop}

theorem Undoes.pair (h : Undoes read write P) (h' : Undoes read' write' P') :
    Undoes (readPair read read') (fun p => write p.1 ++ write' p.2) fun p => P p.1 ∧ P' p.2 := by
  rintro ⟨a, a'⟩ ⟨ha, ha'⟩ rest
  have hfirst := h a ha (write' a' ++ rest)
  have hsecond := h' a' ha' rest
  simp only [readPair, List.append_assoc, hfirst, hsecond, Option.bind_some, Option.map_some]

theorem Undoes.times (h : Undoes read write P) {l : List α} (hl : ∀ a ∈ l, P a) (rest : List β) :
    readTimes read l.length ((l.map write).flatten ++ rest) = some (l, rest) := by
  induction l with
  | nil => rfl
  | cons a l ih =>
    have hfirst := h a (hl a List.mem_cons_self) ((l.map write).flatten ++ rest)
    have hrest := ih fun b hb => hl b (List.mem_cons_of_mem _ hb)
    simp only [List.length_cons, readTimes, List.map_cons, List.flatten_cons, List.append_assoc, hfirst, hrest,
      Option.bind_some, Option.map_some]

/-- **A list is read back**, if its length can be. -/
theorem Undoes.counted {readCount : List β → Option (ℕ × List β)} {count : ℕ → List β} {Q : ℕ → Prop}
    (hcount : Undoes readCount count Q) (h : Undoes read write P) :
    Undoes (readCounted readCount read) (writeCounted count write) fun l => Q l.length ∧ ∀ a ∈ l, P a := by
  rintro l ⟨hlength, hl⟩ rest
  have hannounced := hcount l.length hlength ((l.map write).flatten ++ rest)
  simp only [readCounted, writeCounted, List.append_assoc, hannounced, Option.bind_some]
  exact h.times hl rest

/-- The length of a list that is written behind its own. -/
theorem length_writeCounted {count : ℕ → List β} {width : ℕ} (hcount : ∀ n, (count n).length = width)
    (write : α → List β) (l : List α) :
    (writeCounted count write l).length = width + (l.map fun a => (write a).length).sum := by
  rw [writeCounted, List.length_append, hcount, List.length_flatten, List.map_map]
  rfl

end Lib
