/-
# Files, by path and by handle

A file system as far as it is used through open files: a path names a file, a
file keeps its bytes under its handle, and an open file is written through the
handle whatever its path does.  Handles are numbered in the order the files are
made.  No two paths name one file (`Proper`), so what is written through one
handle, or done at one path, shows at no other path.
-/

import Mathlib.Data.Option.Basic
import Mathlib.Logic.Function.Basic
import Mathlib.Tactic.Common

namespace Lib

/-- The file at each path, the bytes of each file, and the next handle. -/
structure Files (π β : Type*) where
  entry : π → Option ℕ
  content : ℕ → List β
  next : ℕ

namespace Files

variable {π β : Type*} [DecidableEq π] {fs fs' : Files π β} {p q r : π} {h : ℕ} {bytes : List β}

/-- No files. -/
def empty : Files π β := ⟨fun _ => none, fun _ => [], 0⟩

/-- A new file, at a path where there is none. -/
def createNew (fs : Files π β) (p : π) : Option (ℕ × Files π β) :=
  match fs.entry p with
  | some _ => none
  | none =>
    some (fs.next,
      { entry := Function.update fs.entry p (some fs.next)
        content := Function.update fs.content fs.next []
        next := fs.next + 1 })

/-- Bytes written at the end of an open file. -/
def append (fs : Files π β) (h : ℕ) (bytes : List β) : Files π β :=
  { fs with content := Function.update fs.content h (fs.content h ++ bytes) }

/-- The file at `p` goes to `q`, over what is there. -/
def rename (fs : Files π β) (p q : π) : Option (Files π β) :=
  (fs.entry p).map fun h =>
    { fs with entry := Function.update (Function.update fs.entry p none) q (some h) }

/-- The path goes. -/
def remove (fs : Files π β) (p : π) : Files π β :=
  { fs with entry := Function.update fs.entry p none }

/-- The bytes of the file at a path. -/
def read (fs : Files π β) (p : π) : Option (List β) := (fs.entry p).map fs.content

/-- Handles are below the next one, and no file has two paths. -/
structure Proper (fs : Files π β) : Prop where
  lt_next : ∀ p h, fs.entry p = some h → h < fs.next
  inj : ∀ p q h, fs.entry p = some h → fs.entry q = some h → p = q

omit [DecidableEq π] in
/-- There are no files. -/
theorem proper_empty : (empty : Files π β).Proper :=
  ⟨fun _ _ h => (nomatch h), fun _ _ _ h => (nomatch h)⟩

/-! ### What an operation does at one path -/

omit [DecidableEq π] in
/-- What is read is the content of the entry. -/
theorem read_eq_some : fs.read p = some bytes ↔ ∃ h, fs.entry p = some h ∧ fs.content h = bytes :=
  Option.map_eq_some_iff

/-- A new file is empty, under a name that was free. -/
theorem entry_createNew (hc : fs.createNew p = some (h, fs')) :
    fs.entry p = none ∧ h = fs.next ∧ fs'.entry = Function.update fs.entry p (some fs.next) ∧
      fs'.content = Function.update fs.content fs.next [] ∧ fs'.next = fs.next + 1 := by
  unfold createNew at hc
  split at hc
  · cases hc
  · rename_i hnone
    obtain ⟨rfl, rfl⟩ := Prod.mk.inj (Option.some.inj hc)
    exact ⟨hnone, rfl, rfl, rfl, rfl⟩

omit [DecidableEq π] in
/-- What is appended comes last. -/
theorem content_append_self (fs : Files π β) (h : ℕ) (bytes : List β) :
    (fs.append h bytes).content h = fs.content h ++ bytes :=
  Function.update_self ..

/-- A renamed file keeps its content. -/
theorem entry_rename (hr : fs.rename p q = some fs') :
    ∃ h, fs.entry p = some h ∧ fs'.entry = Function.update (fs.remove p).entry q (some h) ∧
      fs'.content = fs.content ∧ fs'.next = fs.next := by
  obtain ⟨h, hp, rfl⟩ := Option.map_eq_some_iff.1 hr
  exact ⟨h, hp, rfl, rfl, rfl⟩

/-- A file keeps its bytes when it is moved. -/
theorem read_rename_self (hr : fs.rename p q = some fs') : fs'.read q = fs.read p := by
  obtain ⟨h, hp, hentry, hcontent, _⟩ := entry_rename hr
  rw [read, read, hentry, hcontent, Function.update_self, hp]

/-- A removed name is free. -/
theorem entry_remove_self (fs : Files π β) (p : π) : (fs.remove p).entry p = none := Function.update_self ..

/-- The other names stay. -/
theorem entry_remove (fs : Files π β) (hne : q ≠ p) : (fs.remove p).entry q = fs.entry q :=
  Function.update_of_ne hne ..

/-! ### Every operation keeps the paths apart -/

/-- One path gets a file that no other path names. -/
theorem Proper.of_update (hproper : fs.Proper) (hentry : fs'.entry = Function.update fs.entry p (some h))
    (hfree : ∀ q, q ≠ p → fs.entry q ≠ some h) (hlt : h < fs'.next) (hnext : fs.next ≤ fs'.next) :
    fs'.Proper := by
  have hkept : ∀ q k, fs'.entry q = some k → q = p ∧ k = h ∨ q ≠ p ∧ fs.entry q = some k := by
    intro q k hk
    rw [hentry] at hk
    rcases eq_or_ne q p with rfl | hne
    · rw [Function.update_self] at hk
      exact .inl ⟨rfl, (Option.some.inj hk).symm⟩
    · rw [Function.update_of_ne hne] at hk
      exact .inr ⟨hne, hk⟩
  constructor
  · intro q k hk
    rcases hkept q k hk with ⟨_, rfl⟩ | ⟨_, hq⟩
    · exact hlt
    · exact Nat.lt_of_lt_of_le (hproper.lt_next q k hq) hnext
  · intro q r k hq hr
    rcases hkept q k hq with ⟨rfl, rfl⟩ | ⟨hqp, hq⟩ <;> rcases hkept r k hr with ⟨hrp, hkh⟩ | ⟨hrp, hr⟩
    · exact hrp.symm
    · exact absurd hr (hfree r hrp)
    · exact absurd (hkh ▸ hq) (hfree q hqp)
    · exact hproper.inj q r k hq hr

/-- A new file is one of its own. -/
theorem Proper.createNew (hproper : fs.Proper) (hc : fs.createNew p = some (h, fs')) : fs'.Proper := by
  obtain ⟨_, rfl, hentry, _, hnext⟩ := entry_createNew hc
  refine hproper.of_update hentry (fun q _ hq => ?_) (by rw [hnext]; exact Nat.lt_succ_self _)
    (by rw [hnext]; exact Nat.le_succ _)
  exact absurd (hproper.lt_next q _ hq) (Nat.lt_irrefl _)

omit [DecidableEq π] in
/-- Writing opens no file. -/
theorem Proper.append (hproper : fs.Proper) (h : ℕ) (bytes : List β) : (fs.append h bytes).Proper :=
  ⟨hproper.lt_next, hproper.inj⟩

/-- Nor does removing. -/
theorem Proper.remove (hproper : fs.Proper) (p : π) : (fs.remove p).Proper := by
  have hkept : ∀ q k, (fs.remove p).entry q = some k → fs.entry q = some k := by
    intro q k hk
    rcases eq_or_ne q p with rfl | hne
    · rw [entry_remove_self] at hk
      cases hk
    · rwa [entry_remove fs hne] at hk
  exact ⟨fun q k hk => hproper.lt_next q k (hkept q k hk),
    fun q r k hq hr => hproper.inj q r k (hkept q k hq) (hkept r k hr)⟩

/-- Nor does renaming. -/
theorem Proper.rename (hproper : fs.Proper) (hr : fs.rename p q = some fs') : fs'.Proper := by
  obtain ⟨h, hp, hentry, _, hnext⟩ := entry_rename hr
  refine (hproper.remove p).of_update hentry (fun r _ hr => ?_) (by rw [hnext]; exact hproper.lt_next p h hp)
    (Nat.le_of_eq hnext.symm)
  rcases eq_or_ne r p with rfl | hne
  · rw [entry_remove_self] at hr
    cases hr
  · rw [entry_remove fs hne] at hr
    exact hne (hproper.inj r p h hr hp)

end Files

end Lib
