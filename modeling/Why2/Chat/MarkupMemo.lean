/-
# The table of failed searches

`markup::parse` (`chat/src/bin/client/tui/markup.rs`) marks the slot of a delimiter
whose close was not found, and does not search for that delimiter again.  The
slots of backticks and dollars say how long the delimiter is, so a later search
looks for the same thing in less of the message and fails as well: the main pass
always resumes a search at a place the failed one went through
(`findEscaped_none_of_le`).  The same holds of links.

The slots of emphasis say the character only.  A failed search for `**` keeps
`*` from opening (`memo_loses_run`), and one that skipped what it took for math
keeps a run in there from opening.  The table is invisible exactly if no run it
suppresses would have opened (`parse_memo_iff`).
-/

import Mathlib.Data.Nat.Find
import Why2.Chat.Markup

namespace Why2
namespace Markup

variable {alnum : Char → Bool} {memo math : Bool} {chars : List Char}

/-! ### Searches that failed before -/

/-- What is not found from a place on is not found from a later one on. -/
theorem find_none_of_le {needle : List Char} {a b : ℕ} (h : find chars a needle = none) (hab : a ≤ b) :
    find chars b needle = none := by
  rw [find, List.find?_eq_none] at h ⊢
  intro i hi
  have hmem := List.mem_range'_1.1 hi
  exact h i (List.mem_range'_1.2 ⟨by omega, by omega⟩)

/-- A search that starts after another, and not right behind a backslash, goes through places
the other went through. -/
theorem findEscaped_none_of_le {needle : List Char} {a b : ℕ} (h : findEscaped chars a needle = none)
    (hab : a ≤ b) (hb : a = b ∨ chars[b - 1]? ≠ some '\\') : findEscaped chars b needle = none := by
  fun_induction findEscaped chars a needle with
  | case1 a hlt hback ih =>
    rcases Nat.lt_or_ge b (a + 2) with hb2 | hb2
    · have hba : b = a := by
        by_contra hne
        obtain rfl : b = a + 1 := by omega
        rcases hb with hb | hb
        · omega
        · exact hb hback
      rw [hba, findEscaped, if_pos hlt, if_pos hback]
      exact h
    · refine ih h hb2 ?_
      rcases hb with hb | hb
      · omega
      · exact .inr hb
  | case2 => cases h
  | case3 a hlt hback hstands ih =>
    rcases Nat.eq_or_lt_of_le hab with rfl | hab'
    · rw [findEscaped, if_pos hlt, if_neg hback, if_neg hstands]
      exact h
    · refine ih h hab' ?_
      rcases hb with hb | hb
      · omega
      · exact .inr hb
  | case4 a hover =>
    rw [findEscaped, if_neg]
    omega

/-- The search a slot stands for, from a delimiter at `i`; the slots of emphasis stand for
several. -/
def searchAt (chars : List Char) (kind i : ℕ) : Option ℕ :=
  match kind with
  | 0 => findEscaped chars (i + 1) ['`']
  | 1 => findEscaped chars (i + 2) ['`', '`']
  | 2 => find chars (i + 3) ['`', '`', '`']
  | 3 => findEscaped chars (i + 1) ['$']
  | 4 => findEscaped chars (i + 2) ['$', '$']
  | 8 => findEscaped chars (i + 1) [']']
  | _ => none

/-- The slots marked at a turn: those marked before, and one whose search failed here. -/
def Marks (chars : List Char) (s s' : Pass) : Prop :=
  ∀ kind, s'.missing kind = true → s.missing kind = true ∨ searchAt chars kind s.i = none

/-- Without a search no slot is marked. -/
theorem Marks.refl (s : Pass) : Marks chars s s := fun _ h => .inl h

/-- `flush_text` marks no slot. -/
theorem flushText_missing (s : Pass) : s.flushText.missing = s.missing := by
  unfold Pass.flushText
  split <;> rfl

/-- The slot that `seen` marks is that of the search. -/
theorem marks_seen {s : Pass} {kind : ℕ} {found : Option ℕ} (h : found = searchAt chars kind s.i) :
    Marks chars s (s.seen kind found) := by
  intro k hk
  change Function.update s.missing kind found.isNone k = true at hk
  by_cases hkind : k = kind
  · subst hkind
    rw [Function.update_self, Option.isNone_iff_eq_none, h] at hk
    exact .inr hk
  · rw [Function.update_of_ne hkind] at hk
    exact .inl hk

/-- A segment that is pushed marks nothing else. -/
theorem marks_push {s : Pass} {kind : ℕ} {found : Option ℕ} (h : found = searchAt chars kind s.i)
    (segment : Segment) : Marks chars s ((s.seen kind found).flushText.push segment) := by
  intro k hk
  rw [Pass.push, flushText_missing] at hk
  exact marks_seen h k hk

/-- The search of `backtick`, at a run of backticks. -/
theorem searchAt_backtick {s : Pass} (h : chars[s.i]? = some '`') :
    searchAt chars (min (runLength chars s.i '`') 3 - 1) s.i =
      if 3 ≤ runLength chars s.i '`' then find chars (s.i + 3) ['`', '`', '`']
      else findEscaped chars (s.i + runLength chars s.i '`') (.replicate (runLength chars s.i '`') '`') := by
  have hrun := one_le_runLength h
  split
  · next h3 => rw [show min (runLength chars s.i '`') 3 - 1 = 2 by omega, searchAt]
  · next h3 =>
    obtain hr | hr : runLength chars s.i '`' = 1 ∨ runLength chars s.i '`' = 2 := by omega
    · rw [hr]
      rfl
    · rw [hr]
      rfl

/-- `backtick` marks the slot of its search. -/
theorem marks_backtick {s : Pass} (h : chars[s.i]? = some '`') : Marks chars s (backtick memo chars s).1 := by
  have hsearch := searchAt_backtick h
  unfold backtick
  simp only
  split
  · exact Marks.refl s
  split
  · next h3 =>
    rw [if_pos h3] at hsearch
    split
    · exact marks_seen hsearch.symm
    · exact marks_push hsearch.symm _
  · next h3 =>
    rw [if_neg h3] at hsearch
    split
    · exact marks_seen hsearch.symm
    · split
      · exact marks_seen hsearch.symm
      · exact marks_push hsearch.symm _

/-- The search of `dollar`. -/
theorem searchAt_dollar (s : Pass) :
    searchAt chars (2 + (if chars[s.i + 1]? = some '$' then ['$', '$'] else ['$']).length) s.i =
      findEscaped chars (s.i + (if chars[s.i + 1]? = some '$' then ['$', '$'] else ['$']).length)
        (if chars[s.i + 1]? = some '$' then ['$', '$'] else ['$']) := by
  split <;> rfl

/-- `dollar` marks the slot of its search. -/
theorem marks_dollar (s : Pass) : Marks chars s (dollar memo chars s).1 := by
  have hsearch : searchAt chars _ s.i = _ := searchAt_dollar s
  unfold dollar
  simp only
  generalize (if chars[s.i + 1]? = some '$' then ['$', '$'] else ['$']) = close at hsearch ⊢
  split
  · exact Marks.refl s
  split
  · exact Marks.refl s
  split
  · exact marks_seen hsearch.symm
  · split
    · exact marks_seen hsearch.symm
    split
    · exact marks_seen hsearch.symm
    · exact marks_push hsearch.symm _

/-- `link` marks the slot of its search. -/
theorem marks_link (s : Pass) : Marks chars s (link memo chars s).1 := by
  have hsearch : findEscaped chars (s.i + 1) [']'] = searchAt chars (kind '[') s.i := rfl
  unfold link
  simp only
  split
  · exact Marks.refl s
  split
  · exact marks_seen hsearch
  · split
    · exact marks_seen hsearch
    split
    · exact marks_seen hsearch
    · split
      · exact marks_seen hsearch
      · exact marks_push hsearch _

/-- A slot of emphasis says nothing about a search. -/
theorem marks_seen_kind {s : Pass} {c : Char} (hdelim : c = '*' ∨ c = '_' ∨ c = '~') (found : Option ℕ) :
    Marks chars s (s.seen (kind c) found) := by
  intro k hk
  change Function.update s.missing (kind c) found.isNone k = true at hk
  by_cases hkind : k = kind c
  · refine .inr ?_
    rcases hdelim with rfl | rfl | rfl <;> rw [hkind] <;> rfl
  · rw [Function.update_of_ne hkind] at hk
    exact .inl hk

/-- `emphasis` marks a slot that says nothing of a search. -/
theorem marks_emphasis {s : Pass} {c : Char} (hdelim : c = '*' ∨ c = '_' ∨ c = '~') :
    Marks chars s (emphasis alnum memo chars math c s).1 := by
  have hopen : Marks chars s (emphasis.openRun alnum memo chars math c s).1 := by
    unfold emphasis.openRun
    simp only
    split
    · exact Marks.refl s
    split
    · exact Marks.refl s
    split
    · exact Marks.refl s
    split
    · exact Marks.refl s
    split
    · exact marks_seen_kind hdelim _
    split
    · exact marks_seen_kind hdelim _
    · intro k hk
      simp only [Pass.push, flushText_missing] at hk
      exact marks_seen_kind hdelim _ k hk
  unfold emphasis
  split
  · split
    · intro k hk
      simp only [Pass.push, flushText_missing] at hk
      exact .inl hk
    · exact hopen
  · exact hopen

/-- Going on pushes no segment. -/
theorem advance_out (c : Char) (r : Pass × Option ℕ) : (advance c r).out = r.1.out := by
  obtain ⟨s, _ | next⟩ := r <;> rfl

/-- Going on marks no slot. -/
theorem advance_missing (c : Char) (r : Pass × Option ℕ) : (advance c r).missing = r.1.missing := by
  obtain ⟨s, _ | next⟩ := r <;> rfl

/-- **A slot is marked by its search.** -/
theorem marks_step (s : Pass) : Marks chars s (step alnum memo chars math s) := by
  unfold step
  split
  · exact Marks.refl s
  · next c hc =>
    split
    · intro k hk
      simp only [Pass.push, flushText_missing] at hk
      exact .inl hk
    · intro k hk
      rw [advance_missing] at hk
      revert k
      change Marks chars s (take alnum memo chars math c s).1
      unfold take
      split
      · next h => exact marks_backtick (h ▸ hc)
      split
      · exact marks_dollar s
      split
      · exact marks_link s
      split
      · next hdelim => exact marks_emphasis hdelim
      · exact Marks.refl s

/-- A marked slot means that its search failed from an earlier delimiter. -/
def Failed (chars : List Char) (s : Pass) : Prop :=
  ∀ kind, s.missing kind = true → ∃ i < s.i, searchAt chars kind i = none

/-- So it is in every state of the pass. -/
theorem failed_pass (n : ℕ) : Failed chars (pass alnum memo chars math n) := by
  induction n with
  | zero => exact fun kind h => Bool.noConfusion h
  | succ n ih =>
    rw [pass, Function.iterate_succ_apply']
    change Failed chars (step alnum memo chars math (pass alnum memo chars math n))
    rcases Nat.lt_or_ge (pass alnum memo chars math n).i chars.length with hlt | hge
    · have hi : (pass alnum memo chars math n).i < (step alnum memo chars math (pass alnum memo chars math n)).i :=
        lt_step_i (open_pass n).run hlt
      intro kind hkind
      rcases marks_step _ kind hkind with hold | hnew
      · obtain ⟨i, hlt, hnone⟩ := ih kind hold
        exact ⟨i, hlt.trans hi, hnone⟩
      · exact ⟨_, hi, hnew⟩
    · rw [step_of_le hge]
      exact ih

/-! ### With the table and without -/

/-- The same was taken, up to the table. -/
structure SameTaken (r r' : Pass × Option ℕ) : Prop where
  state : Same r.1 r'.1
  next : r.2 = r'.2

/-- What was taken is the same as itself. -/
theorem SameTaken.refl (r : Pass × Option ℕ) : SameTaken r r := ⟨Same.refl _, rfl⟩

/-- From the same the pass goes on to the same. -/
theorem SameTaken.advance {r r' : Pass × Option ℕ} (h : SameTaken r r') (c : Char) :
    Same (advance c r) (advance c r') := by
  obtain ⟨s, next⟩ := r
  obtain ⟨s', next'⟩ := r'
  obtain ⟨hstate, rfl⟩ := h
  cases next with
  | none => exact ⟨congrArg (· + 1) hstate.i, hstate.out, congrArg (· ++ [c]) hstate.buf, hstate.stack⟩
  | some next => exact ⟨rfl, hstate.out, hstate.buf, hstate.stack⟩

/-- A search fails where it failed before. -/
theorem searchAt_none_of_lt {kind i₀ i : ℕ} (h : searchAt chars kind i₀ = none) (hlt : i₀ < i)
    (h₀ : chars[i]? ≠ some '\\') (h₁ : kind = 1 ∨ kind = 4 → chars[i + 1]? ≠ some '\\') :
    searchAt chars kind i = none := by
  unfold searchAt at h ⊢
  split at h
  · exact findEscaped_none_of_le h (by omega) (.inr h₀)
  · exact findEscaped_none_of_le h (by omega) (.inr (h₁ (.inl rfl)))
  · exact find_none_of_le h (by omega)
  · exact findEscaped_none_of_le h (by omega) (.inr h₀)
  · exact findEscaped_none_of_le h (by omega) (.inr (h₁ (.inr rfl)))
  · exact findEscaped_none_of_le h (by omega) (.inr h₀)
  · rfl

/-- A marked slot only keeps a search from failing once more. -/
theorem same_of_slot {s : Pass} {stop : Option ℕ} (slot : ℕ) (f : Bool → Pass × Option ℕ)
    (hfree : s.missing slot = false → f true = f false) (hmarked : s.missing slot = true → f true = (s, none))
    (htakes : TakesUnit s stop (f false)) (hfails : s.missing slot = true → stop = none) :
    SameTaken (f true) (f false) := by
  cases hm : s.missing slot with
  | false =>
    rw [hfree hm]
    exact .refl _
  | true =>
    rw [hmarked hm]
    rw [hfails hm] at htakes
    exact ⟨htakes.2.symm, htakes.1.symm⟩

/-- Backticks are taken with the table as without. -/
theorem same_backtick {s : Pass} (hf : Failed chars s) (hc : chars[s.i]? = some '`') :
    SameTaken (backtick true chars s) (backtick false chars s) := by
  refine same_of_slot (min (runLength chars s.i '`') 3 - 1) (fun memo => backtick memo chars s) (fun hm => ?_)
    (fun hm => ?_) (backtick_takes false chars hc) fun hm => ?_
  · simp only [backtick, hm, Bool.and_false, Bool.false_eq_true, if_false]
  · simp only [backtick, hm, Bool.and_true, if_true]
  · obtain ⟨i₀, hlt, hnone⟩ := hf _ hm
    have hsearch : searchAt chars (min (runLength chars s.i '`') 3 - 1) s.i = none := by
      refine searchAt_none_of_lt hnone hlt (by rw [hc]; decide) fun hkind => ?_
      rw [getElem?_of_lt_runLength (by omega : 1 < runLength chars s.i '`')]
      decide
    rw [searchAt_backtick hc] at hsearch
    change codeAt chars s.i = none
    unfold codeAt
    simp only
    split at hsearch
    · next h3 =>
      rw [if_pos h3, hsearch]
      rfl
    · next h3 =>
      rw [if_neg h3, hsearch]
      rfl

/-- Dollars are taken with the table as without. -/
theorem same_dollar {s : Pass} (hf : Failed chars s) (hc : chars[s.i]? = some '$') :
    SameTaken (dollar true chars s) (dollar false chars s) := by
  refine same_of_slot (2 + (if chars[s.i + 1]? = some '$' then ['$', '$'] else ['$']).length)
    (fun memo => dollar memo chars s) (fun hm => ?_) (fun hm => ?_) (dollar_takes false chars s) fun hm => ?_
  · simp only [dollar, hm, Bool.and_false, Bool.false_eq_true, if_false]
  · simp only [dollar, hm, Bool.and_true, if_true]
  · obtain ⟨i₀, hlt, hnone⟩ := hf _ hm
    have hsearch := searchAt_none_of_lt hnone hlt (by rw [hc]; decide) fun hkind => by
      split at hkind
      · next hd =>
        rw [hd]
        decide
      · simp at hkind
    rw [searchAt_dollar] at hsearch
    change mathAt chars s.i = none
    simp only [mathAt, hsearch, Option.bind_eq_bind, Option.bind_none, ite_self]

/-- Links are taken with the table as without. -/
theorem same_link {s : Pass} (hf : Failed chars s) (hc : chars[s.i]? = some '[') :
    SameTaken (link true chars s) (link false chars s) := by
  refine same_of_slot (kind '[') (fun memo => link memo chars s) (fun hm => ?_) (fun hm => ?_)
    (link_takes false chars s) fun hm => ?_
  · simp only [link, hm, Bool.and_false, Bool.false_eq_true, if_false]
  · simp only [link, hm, Bool.and_true, if_true]
  · obtain ⟨i₀, hlt, hnone⟩ := hf _ hm
    have hsearch : findEscaped chars (s.i + 1) [']'] = none :=
      searchAt_none_of_lt hnone hlt (by rw [hc]; decide) fun hkind => absurd hkind (by decide)
    change linkAt chars s.i = none
    rw [linkAt, hsearch]
    rfl

/-- At a delimiter whose slot is marked, and where no run closes, no run opens: a character next
to the delimiter keeps it from opening, or its close is not found. -/
def Spares (alnum : Char → Bool) (chars : List Char) (math : Bool) (s : Pass) : Prop :=
  ∀ c ∈ chars[s.i]?, c = '*' ∨ c = '_' ∨ c = '~' → s.missing (kind c) = true →
    (∀ top ∈ s.stack.head?, top.end' ≠ s.i) → runAt alnum chars math c s.i = none

/-- With its slot marked, a delimiter opens nothing. -/
theorem openRun_marked {s : Pass} {c : Char} (h : s.missing (kind c) = true) :
    emphasis.openRun alnum true chars math c s = (s, none) := by
  simp only [emphasis.openRun, h, Bool.and_true, if_true]
  split <;> rfl

/-- A slot that is not marked changes nothing. -/
theorem openRun_free {s : Pass} {c : Char} (h : s.missing (kind c) = false) :
    emphasis.openRun alnum true chars math c s = emphasis.openRun alnum false chars math c s := by
  simp only [emphasis.openRun, h, Bool.and_false, Bool.false_eq_true, if_false]

/-- Without the table, the run that stands there opens. -/
theorem openRun_opens_free {s : Pass} {c : Char} (hc : chars[s.i]? = some c) (hdelim : c = '*' ∨ c = '_' ∨ c = '~') :
    Opens chars s (runAt alnum chars math c s.i) (emphasis.openRun alnum false chars math c s) := by
  have h : Opens chars s (s.unlessMissing false (kind c) (runAt alnum chars math c s.i))
      (emphasis.openRun alnum false chars math c s) := openRun_opens hc hdelim
  exact h

/-- At a delimiter, a turn is `emphasis`. -/
theorem step_delimiter {s : Pass} {c : Char} (hc : chars[s.i]? = some c) (hdelim : c = '*' ∨ c = '_' ∨ c = '~') :
    step alnum memo chars math s = advance c (emphasis alnum memo chars math c s) := by
  unfold step
  rw [hc]
  rcases hdelim with rfl | rfl | rfl <;> rfl

/-- `emphasis` where the innermost open run does not close. -/
theorem emphasis_of_ne {s : Pass} {c : Char} (h : ∀ top ∈ s.stack.head?, top.end' ≠ s.i) :
    emphasis alnum memo chars math c s = emphasis.openRun alnum memo chars math c s := by
  unfold emphasis
  split
  · next top rest hstack => exact if_neg (h top (by rw [hstack]; rfl))
  · rfl

/-- Runs open and close with the table as without, where it spares no run. -/
theorem same_emphasis {s : Pass} {c : Char} (hc : chars[s.i]? = some c) (hdelim : c = '*' ∨ c = '_' ∨ c = '~')
    (h : Spares alnum chars math s) :
    SameTaken (emphasis alnum true chars math c s) (emphasis alnum false chars math c s) := by
  by_cases hstays : ∀ top ∈ s.stack.head?, top.end' ≠ s.i
  · rw [emphasis_of_ne hstays, emphasis_of_ne hstays]
    cases hm : s.missing (kind c) with
    | false =>
      rw [openRun_free hm]
      exact .refl _
    | true =>
      have hopens := @openRun_opens_free alnum math chars s c hc hdelim
      rw [h c hc hdelim hm hstays] at hopens
      rw [openRun_marked hm]
      exact ⟨hopens.2.symm, hopens.1.symm⟩
  · -- the innermost run closes, and the table is not read
    simp only [not_forall, not_not] at hstays
    obtain ⟨top, htop, hend⟩ := hstays
    obtain ⟨rest, hstack⟩ := List.head?_eq_some_iff.1 (Option.mem_def.1 htop)
    simp only [emphasis, hstack, if_pos hend]
    exact .refl _

/-- **The table changes nothing at a turn** where no run it suppresses would open. -/
theorem same_step {s : Pass} (hf : Failed chars s) (h : Spares alnum chars math s) :
    Same (step alnum true chars math s) (step alnum false chars math s) := by
  unfold step
  split
  · exact Same.refl s
  · next c hc =>
    split
    · exact Same.refl _
    · refine SameTaken.advance ?_ c
      unfold take
      split
      · next hb => exact same_backtick hf (hb ▸ hc)
      split
      · next hd => exact same_dollar hf (hd.1 ▸ hc)
      split
      · next hl => exact same_link hf (hl ▸ hc)
      split
      · next hdelim => exact same_emphasis hc hdelim h
      · exact .refl _

/-! ### Which searches marked the slots of emphasis -/

/-- The turn at `s` stands at the delimiter `c`, and the innermost open run does not close there. -/
def Pass.AtRun (chars : List Char) (c : Char) (s : Pass) : Prop :=
  chars[s.i]? = some c ∧ ∀ top ∈ s.stack.head?, top.end' ≠ s.i

instance (chars : List Char) (c : Char) (s : Pass) : Decidable (s.AtRun chars c) :=
  inferInstanceAs (Decidable (_ ∧ _))

/-- The run of `c` at `i` may open, but its close is not found. -/
def SearchFails (alnum : Char → Bool) (chars : List Char) (math : Bool) (c : Char) (i : ℕ) : Prop :=
  (modifier c (min (runLength chars i c) maxRun)).isSome ∧
    chars[i + min (runLength chars i c) maxRun]?.all isWhitespace = false ∧
    ¬(c = '_' ∧ 0 < i ∧ chars[i - 1]?.any alnum) ∧
    findRun chars (i + min (runLength chars i c) maxRun) c (min (runLength chars i c) maxRun) math = none

instance (alnum : Char → Bool) (chars : List Char) (math : Bool) (c : Char) (i : ℕ) :
    Decidable (SearchFails alnum chars math c i) :=
  inferInstanceAs (Decidable (_ ∧ _ ∧ _ ∧ _))

/-- `seen` marks its slot only. -/
theorem seen_missing_of_ne {s : Pass} {kind slot : ℕ} (h : slot ≠ kind) (found : Option ℕ) :
    (s.seen kind found).missing slot = s.missing slot := Function.update_of_ne h _ _

/-- A unit that was taken marks no other slot. -/
theorem push_missing_of_ne {s : Pass} {kind slot : ℕ} (h : slot ≠ kind) (found : Option ℕ) (segment : Segment) :
    ((s.seen kind found).flushText.push segment).missing slot = s.missing slot := by
  rw [Pass.push, flushText_missing, seen_missing_of_ne h]

/-- The slots of backticks are the first three. -/
theorem backtick_missing {s : Pass} {slot : ℕ} (h : 3 ≤ slot) :
    (backtick memo chars s).1.missing slot = s.missing slot := by
  have hne : slot ≠ min (runLength chars s.i '`') 3 - 1 := by omega
  unfold backtick
  dsimp only
  split
  · rfl
  split
  · split
    · exact seen_missing_of_ne hne _
    · exact push_missing_of_ne hne _ _
  · split
    · exact seen_missing_of_ne hne _
    · split
      · exact seen_missing_of_ne hne _
      · exact push_missing_of_ne hne _ _

/-- The slots of dollars come before those of emphasis. -/
theorem dollar_missing {s : Pass} {slot : ℕ} (h : 5 ≤ slot) :
    (dollar memo chars s).1.missing slot = s.missing slot := by
  have hne : slot ≠ 2 + (if chars[s.i + 1]? = some '$' then ['$', '$'] else ['$']).length := by
    split
    · exact Nat.ne_of_gt h
    · exact Nat.ne_of_gt (Nat.lt_of_succ_lt h)
  unfold dollar
  dsimp only
  generalize (if chars[s.i + 1]? = some '$' then ['$', '$'] else ['$']) = close at hne ⊢
  split
  · rfl
  split
  · rfl
  split
  · exact seen_missing_of_ne hne _
  · split
    · exact seen_missing_of_ne hne _
    split
    · exact seen_missing_of_ne hne _
    · exact push_missing_of_ne hne _ _

/-- A link marks its own slot only. -/
theorem link_missing {s : Pass} {slot : ℕ} (h : slot ≠ kind '[') :
    (link memo chars s).1.missing slot = s.missing slot := by
  unfold link
  dsimp only
  split
  · rfl
  split
  · exact seen_missing_of_ne h _
  · split
    · exact seen_missing_of_ne h _
    split
    · exact seen_missing_of_ne h _
    · split
      · exact seen_missing_of_ne h _
      · exact push_missing_of_ne h _ _

/-- A run marks the slot of its character only. -/
theorem openRun_missing_of_ne {s : Pass} {c : Char} {slot : ℕ} (h : slot ≠ kind c) :
    (emphasis.openRun alnum memo chars math c s).1.missing slot = s.missing slot := by
  unfold emphasis.openRun
  dsimp only
  split
  · rfl
  split
  · rfl
  split
  · rfl
  split
  · rfl
  split
  · exact seen_missing_of_ne h _
  split
  · exact seen_missing_of_ne h _
  · simp only [Pass.push, flushText_missing]
    exact seen_missing_of_ne h _

/-- The slot of `c` is marked at a run of `c` if it was, or by the search there. -/
theorem openRun_missing {s : Pass} {c : Char} :
    (emphasis.openRun alnum true chars math c s).1.missing (kind c) = true ↔
      s.missing (kind c) = true ∨ SearchFails alnum chars math c s.i := by
  unfold emphasis.openRun
  dsimp only
  have hseen (found : Option ℕ) : (s.seen (kind c) found).missing (kind c) = found.isNone := Function.update_self ..
  split
  · next hmodifier =>
    refine ⟨.inl, fun h => h.resolve_right fun hfails => ?_⟩
    rw [SearchFails, hmodifier] at hfails
    cases hfails.1
  · next hmodifier =>
    split
    · next hmarked =>
      have hm : s.missing (kind c) = true := by simpa using hmarked
      exact ⟨.inl, fun _ => hm⟩
    · next hmarked =>
      have hm : ¬s.missing (kind c) = true := by simpa using hmarked
      rw [or_iff_right hm]
      split
      · next hspace => exact ⟨fun h => absurd h hm, fun h => absurd hspace (Bool.eq_false_iff.1 h.2.1)⟩
      split
      · next hword => exact ⟨fun h => absurd h hm, fun h => absurd hword h.2.2.1⟩
      · next hspace hword =>
        split
        · next hnone =>
          have hfails : SearchFails alnum chars math c s.i :=
            ⟨by rw [hmodifier]; rfl, Bool.eq_false_iff.2 hspace, hword, hnone⟩
          rw [hseen, hnone]
          exact ⟨fun _ => hfails, fun _ => rfl⟩
        · next stop hstop =>
          have hfound : ¬SearchFails alnum chars math c s.i := fun h => by cases hstop.symm.trans h.2.2.2
          split
          · rw [hseen, hstop]
            exact ⟨fun h => Bool.noConfusion h, fun h => absurd h hfound⟩
          · simp only [Pass.push, flushText_missing]
            rw [hseen, hstop]
            exact ⟨fun h => Bool.noConfusion h, fun h => absurd h hfound⟩

/-- Each emphasis delimiter has its own slot. -/
theorem kind_injective {c d : Char} (hc : c = '*' ∨ c = '_' ∨ c = '~') (hd : d = '*' ∨ d = '_' ∨ d = '~')
    (h : kind c = kind d) : c = d := by
  rcases hc with rfl | rfl | rfl <;> rcases hd with rfl | rfl | rfl <;> first | rfl | exact absurd h (by decide)

/-- **What marks the slot of an emphasis delimiter** in a turn: a search for the close of a run of
that character. -/
theorem step_missing {s : Pass} {c : Char} (hdelim : c = '*' ∨ c = '_' ∨ c = '~') :
    (step alnum true chars math s).missing (kind c) = true ↔
      s.missing (kind c) = true ∨ s.AtRun chars c ∧ SearchFails alnum chars math c s.i := by
  have hslot : 5 ≤ kind c ∧ kind c ≠ kind '[' := by rcases hdelim with rfl | rfl | rfl <;> decide
  -- a turn elsewhere leaves the slot alone
  have hother {t : Pass} (hat : ¬s.AtRun chars c) (ht : t.missing (kind c) = s.missing (kind c)) :
      t.missing (kind c) = true ↔ s.missing (kind c) = true ∨ s.AtRun chars c ∧ SearchFails alnum chars math c s.i := by
    rw [ht, or_iff_left fun h => hat h.1]
  have hchar {d : Char} (hd : chars[s.i]? = some d) (hne : d ≠ c) : ¬s.AtRun chars c := fun hat =>
    hne (Option.some.inj (hd.symm.trans hat.1))
  have hnot {d : Char} (hd : ¬(d = '*' ∨ d = '_' ∨ d = '~')) : d ≠ c := fun h => hd (h ▸ hdelim)
  unfold step
  split
  · next hnone =>
    refine hother (fun hat => ?_) rfl
    cases hnone.symm.trans hat.1
  · next d hd =>
    split
    · next hback =>
      refine hother (hchar hd (hnot (by rw [hback.1]; decide))) ?_
      exact congrFun (flushText_missing s) _
    · rw [advance_missing]
      unfold take
      split
      · next h => exact hother (hchar hd (hnot (by rw [h]; decide))) (backtick_missing (by omega))
      split
      · next h => exact hother (hchar hd (hnot (by rw [h.1]; decide))) (dollar_missing hslot.1)
      split
      · next h => exact hother (hchar hd (hnot (by rw [h]; decide))) (link_missing hslot.2)
      split
      · next hd' =>
        by_cases hstays : ∀ top ∈ s.stack.head?, top.end' ≠ s.i
        · rw [emphasis_of_ne hstays]
          by_cases hdc : d = c
          · subst hdc
            rw [openRun_missing, and_iff_right (show s.AtRun chars d from ⟨hd, hstays⟩)]
          · exact hother (hchar hd hdc) (openRun_missing_of_ne fun h => hdc (kind_injective hd' hdelim h.symm))
        · refine hother (fun hat => hstays hat.2) ?_
          -- the innermost run closes
          simp only [not_forall, not_not] at hstays
          obtain ⟨top, htop, hend⟩ := hstays
          obtain ⟨rest, hstack⟩ := List.head?_eq_some_iff.1 (Option.mem_def.1 htop)
          simp only [emphasis, hstack, if_pos hend, Pass.push, flushText_missing]
      · next hd' => exact hother (hchar hd (hnot hd')) rfl

/-- **The slot of an emphasis delimiter is marked exactly by the searches that failed**: at an
earlier turn a run of the character stood that might open, and its close was not found. -/
theorem pass_missing {c : Char} (hdelim : c = '*' ∨ c = '_' ∨ c = '~') (n : ℕ) :
    (pass alnum true chars math n).missing (kind c) = true ↔
      ∃ m < n, (pass alnum true chars math m).AtRun chars c ∧
        SearchFails alnum chars math c (pass alnum true chars math m).i := by
  induction n with
  | zero => exact ⟨fun h => Bool.noConfusion h, fun ⟨m, hm, _⟩ => absurd hm (Nat.not_lt_zero m)⟩
  | succ n ih =>
    rw [Nat.exists_lt_succ_right, ← ih, pass, Function.iterate_succ_apply']
    exact step_missing hdelim

/-- Where an open run does not close, and the close of an earlier run of the same character was
searched for and not found, no run opens: a character next to the delimiter keeps it from
opening, or its close is not found either. -/
def Repeats (alnum : Char → Bool) (chars : List Char) (math : Bool) (n : ℕ) : Prop :=
  ∀ c ∈ chars[(pass alnum true chars math n).i]?, c = '*' ∨ c = '_' ∨ c = '~' →
    (pass alnum true chars math n).AtRun chars c →
    (∃ m < n, (pass alnum true chars math m).AtRun chars c ∧
      SearchFails alnum chars math c (pass alnum true chars math m).i) →
    runAt alnum chars math c (pass alnum true chars math n).i = none

instance (alnum : Char → Bool) (chars : List Char) (math : Bool) (n : ℕ) : Decidable (Repeats alnum chars math n) :=
  inferInstanceAs (Decidable (∀ c ∈ chars[_]?, _))

/-- In terms of the slots, that no suppressed run would open. -/
theorem repeats_iff {n : ℕ} :
    Repeats alnum chars math n ↔ Spares alnum chars math (pass alnum true chars math n) := by
  refine forall_congr' fun c => forall₂_congr fun hc hdelim => ?_
  rw [pass_missing hdelim, Pass.AtRun, and_iff_right (Option.mem_def.1 hc)]
  exact ⟨fun h hfails hstays => h hstays hfails, fun h hstays hfails => h hfails hstays⟩

/-! ### Without the table, nothing depends on it -/

/-- Seeing the same leaves states the same. -/
theorem Same.seen {s t : Pass} (h : Same s t) (kind : ℕ) (found : Option ℕ) :
    Same (s.seen kind found) (t.seen kind found) :=
  (same_seen s kind found).trans (h.trans (same_seen t kind found).symm)

/-- Pushing the same leaves states the same. -/
theorem Same.push {s t : Pass} (h : Same s t) (segment : Segment) : Same (s.push segment) (t.push segment) :=
  ⟨h.i, congrArg (· ++ [segment]) h.out, h.buf, h.stack⟩

/-- Opening the same run leaves states the same. -/
theorem Same.openWith {s t : Pass} (h : Same s t) (segment : Segment) (e : Emphasis) :
    Same { s.push segment with stack := e :: s.stack } { t.push segment with stack := e :: t.stack } :=
  ⟨h.i, congrArg (· ++ [segment]) h.out, h.buf, congrArg (e :: ·) h.stack⟩

/-- Without the table `backtick` does not depend on it. -/
theorem Same.backtick {s t : Pass} (h : Same s t) :
    SameTaken (backtick false chars s) (backtick false chars t) := by
  simp only [Markup.backtick, Bool.false_and, Bool.false_eq_true, if_false, h.i]
  split
  · split
    · exact ⟨h.seen _ _, rfl⟩
    · exact ⟨(h.seen _ _).flushText.push _, rfl⟩
  · split
    · exact ⟨h.seen _ _, rfl⟩
    · split
      · exact ⟨h.seen _ _, rfl⟩
      · exact ⟨(h.seen _ _).flushText.push _, rfl⟩

/-- Without the table `dollar` does not depend on it. -/
theorem Same.dollar {s t : Pass} (h : Same s t) : SameTaken (dollar false chars s) (dollar false chars t) := by
  simp only [Markup.dollar, Bool.false_and, Bool.false_eq_true, if_false, h.i]
  generalize (if chars[t.i + 1]? = some '$' then ['$', '$'] else ['$']) = close
  split
  · exact ⟨h, rfl⟩
  split
  · exact ⟨h.seen _ _, rfl⟩
  · split
    · exact ⟨h.seen _ _, rfl⟩
    split
    · exact ⟨h.seen _ _, rfl⟩
    · exact ⟨(h.seen _ _).flushText.push _, rfl⟩

/-- Without the table `link` does not depend on it. -/
theorem Same.link {s t : Pass} (h : Same s t) : SameTaken (link false chars s) (link false chars t) := by
  simp only [Markup.link, Bool.false_and, Bool.false_eq_true, if_false, h.i]
  split
  · exact ⟨h.seen _ _, rfl⟩
  · split
    · exact ⟨h.seen _ _, rfl⟩
    split
    · exact ⟨h.seen _ _, rfl⟩
    · split
      · exact ⟨h.seen _ _, rfl⟩
      · exact ⟨(h.seen _ _).flushText.push _, rfl⟩

/-- Without the table, a run does not depend on it. -/
theorem Same.openRun {s t : Pass} (h : Same s t) (c : Char) :
    SameTaken (emphasis.openRun alnum false chars math c s) (emphasis.openRun alnum false chars math c t) := by
  simp only [emphasis.openRun, Bool.false_and, Bool.false_eq_true, if_false, h.i]
  split
  · exact ⟨h, rfl⟩
  split
  · exact ⟨h, rfl⟩
  split
  · exact ⟨h, rfl⟩
  split
  · exact ⟨h.seen _ _, rfl⟩
  split
  · exact ⟨h.seen _ _, rfl⟩
  · exact ⟨(h.seen _ _).flushText.openWith _ _, rfl⟩

/-- Without the table `emphasis` does not depend on it. -/
theorem Same.emphasis {s t : Pass} (h : Same s t) (c : Char) :
    SameTaken (emphasis alnum false chars math c s) (emphasis alnum false chars math c t) := by
  unfold Markup.emphasis
  rw [h.stack, h.i]
  split
  · split
    · next top rest _ _ =>
      have hs := h.flushText.push (.closes top.modifier)
      exact ⟨⟨hs.i, hs.out, hs.buf, rfl⟩, rfl⟩
    · exact h.openRun c
  · exact h.openRun c

/-- Without the table, a turn does not depend on it. -/
theorem Same.step {s t : Pass} (h : Same s t) :
    Same (step alnum false chars math s) (step alnum false chars math t) := by
  unfold Markup.step
  rw [h.i]
  split
  · exact h
  · next c hc =>
    split
    · have hs := h.flushText.push (.raw chars[t.i + 1]?.toList)
      exact ⟨rfl, hs.out, hs.buf, hs.stack⟩
    · refine SameTaken.advance ?_ c
      unfold take
      split
      · exact h.backtick
      split
      · exact h.dollar
      split
      · exact h.link
      split
      · exact h.emphasis c
      · exact ⟨h, rfl⟩

/-- As long as no suppressed run would have opened, the two passes go together. -/
theorem same_pass {n : ℕ} (h : ∀ m < n, Spares alnum chars math (pass alnum true chars math m)) :
    Same (pass alnum true chars math n) (pass alnum false chars math n) := by
  induction n with
  | zero => exact Same.refl _
  | succ n ih =>
    rw [pass, pass, Function.iterate_succ_apply', Function.iterate_succ_apply']
    have hn := same_step (failed_pass n) (h n (Nat.lt_succ_self n))
    exact hn.trans (ih fun m hm => h m (Nat.lt_succ_of_lt hm)).step

/-! ### A suppressed run shows -/

/-- `flush_text` takes back no segment. -/
theorem out_prefix_flushText (s : Pass) : s.out <+: s.flushText.out := by
  unfold Pass.flushText
  split
  · exact List.prefix_rfl
  · exact List.prefix_append _ _

/-- A turn takes back no segment. -/
theorem out_prefix_step (s : Pass) : s.out <+: (step alnum memo chars math s).out := by
  rcases Nat.lt_or_ge s.i chars.length with hlt | hge
  · have hturn : Turn chars s (step alnum memo chars math s) := turn_step hlt
    rcases hturn with ⟨_, -, -, hout, -, -⟩ | ⟨_, -, -, htook⟩ | ⟨_, -, -, -, hout, -⟩ |
      ⟨_, -, -, -, -, -, hout, -, -⟩
    · exact ⟨[], by rw [hout, List.append_nil]⟩
    · rw [htook.out]
      exact (out_prefix_flushText s).trans (List.prefix_append _ _)
    · rw [hout]
      exact (out_prefix_flushText s).trans (List.prefix_append _ _)
    · rw [hout]
      exact (out_prefix_flushText s).trans (List.prefix_append _ _)
  · exact ⟨[], by rw [step_of_le hge, List.append_nil]⟩

/-- What was pushed stays. -/
theorem out_prefix_iterate (s : Pass) (k : ℕ) :
    s.out <+: ((step alnum memo chars math)^[k] s).flushText.out := by
  induction k generalizing s with
  | zero => exact out_prefix_flushText s
  | succ k ih =>
    rw [Function.iterate_succ_apply]
    exact (out_prefix_step s).trans (ih _)

/-- Text that was begun is the start of the next segment. -/
theorem text_prefix_iterate (s : Pass) (hbuf : s.buf ≠ []) (k : ℕ) :
    ∃ more, s.out ++ [.text (s.buf ++ more)] <+: ((step alnum memo chars math)^[k] s).flushText.out := by
  have hflush : s.flushText.out = s.out ++ [.text s.buf] := by rw [Pass.flushText, if_neg hbuf]
  induction k generalizing s with
  | zero =>
    refine ⟨[], ?_⟩
    rw [List.append_nil, ← hflush]
    exact List.prefix_rfl
  | succ k ih =>
    rw [Function.iterate_succ_apply]
    rcases Nat.lt_or_ge s.i chars.length with hlt | hge
    · have hturn : Turn chars s (step alnum memo chars math s) := turn_step hlt
      have hpushed {segment : Segment} (hout : (step alnum memo chars math s).out = s.flushText.out ++ [segment]) :
          ∃ more, s.out ++ [.text (s.buf ++ more)] <+:
            ((step alnum memo chars math)^[k] (step alnum memo chars math s)).flushText.out := by
        refine ⟨[], ?_⟩
        rw [List.append_nil, ← hflush]
        refine List.IsPrefix.trans ?_ (out_prefix_iterate _ k)
        rw [hout]
        exact List.prefix_append _ _
      rcases hturn with ⟨c, -, -, hout, hbuf', -⟩ | ⟨_, -, -, htook⟩ | ⟨_, -, -, -, hout, -⟩ |
        ⟨_, -, -, -, -, -, hout, -, -⟩
      · have hne : (step alnum memo chars math s).buf ≠ [] := by simp [hbuf']
        obtain ⟨more, hmore⟩ := ih (step alnum memo chars math s) hne (by rw [Pass.flushText, if_neg hne])
        refine ⟨c :: more, ?_⟩
        rw [hout, hbuf', List.append_assoc] at hmore
        exact hmore
      · exact hpushed htook.out
      · exact hpushed hout
      · exact hpushed hout
    · rw [step_of_le hge]
      exact ih s hbuf hflush

/-- The turn without the table opens a run that the table suppresses. -/
theorem opens_of_not_spares {s : Pass} (h : ¬Spares alnum chars math s) :
    s.i < chars.length ∧ (∃ m, (step alnum false chars math s).out = s.flushText.out ++ [.opens m]) ∧
      ∃ c, (step alnum true chars math s).out = s.out ∧ (step alnum true chars math s).buf = s.buf ++ [c] := by
  simp only [Spares, not_forall] at h
  obtain ⟨c, hc, hdelim, hmarked, hstays, hrun⟩ := h
  obtain ⟨e, he⟩ := Option.ne_none_iff_exists'.1 hrun
  have hopens := @openRun_opens_free alnum math chars s c hc hdelim
  rw [he] at hopens
  obtain ⟨-, -, -, hnext, hout, -, -⟩ := hopens
  refine ⟨(List.getElem?_eq_some_iff.1 hc).1, ⟨e.modifier, ?_⟩, c, ?_⟩
  · rw [step_delimiter hc hdelim, emphasis_of_ne hstays, ← hout]
    exact advance_out c _
  · rw [step_delimiter hc hdelim, emphasis_of_ne hstays, openRun_marked hmarked]
    exact ⟨rfl, rfl⟩

/-- Two segment lists that go on after the same segments, one with text that was begun and one
with that text ended by a run, are different. -/
theorem ne_of_suppressed {s : Pass} {segments : List Segment} {c : Char} {more : List Char} {m : Modifier}
    (htext : s.out ++ [.text (s.buf ++ [c] ++ more)] <+: segments) :
    ¬s.flushText.out ++ [.opens m] <+: segments := by
  intro hopens
  unfold Pass.flushText at hopens
  obtain ⟨rest, rfl⟩ := htext
  rw [List.append_assoc] at hopens
  split at hopens
  · rw [List.prefix_append_right_inj, List.singleton_append, List.cons_prefix_cons] at hopens
    exact Segment.noConfusion hopens.1
  · rw [List.append_assoc, List.prefix_append_right_inj, List.singleton_append, List.singleton_append,
      List.cons_prefix_cons] at hopens
    have hlen := congrArg List.length (Segment.text.inj hopens.1)
    simp at hlen

/-- **The table is invisible exactly if no run it suppresses would have opened**: where the search
for the close of a run has failed, no later run of that character opens, unless a run closes
there. -/
theorem parse_memo_iff (alnum : Char → Bool) (text : String) (math : Bool) :
    parse alnum text math = parseNoMemo alnum text math ↔ ∀ n, Repeats alnum text.toList math n := by
  simp only [repeats_iff]
  constructor
  · intro heq
    by_contra hnot
    -- the first turn at which a run is suppressed
    obtain ⟨n, hn, hfirst⟩ : ∃ n, ¬Spares alnum text.toList math (pass alnum true text.toList math n) ∧
        ∀ m < n, Spares alnum text.toList math (pass alnum true text.toList math m) := by
      classical
      have hex := not_forall.1 hnot
      exact ⟨Nat.find hex, Nat.find_spec hex, fun m hm => not_not.1 (Nat.find_min hex hm)⟩
    have hsame := same_pass hfirst
    obtain ⟨hlt, ⟨m, hopens⟩, c, hout, hbuf⟩ := opens_of_not_spares hn
    have hnlen : n < text.toList.length := by
      have hle : min n text.toList.length ≤ (pass alnum true text.toList math n).i := le_pass_i n
      omega
    obtain ⟨k, hk⟩ : ∃ k, text.toList.length = k + 1 + n := ⟨text.toList.length - 1 - n, by omega⟩
    have hpass (memo : Bool) : pass alnum memo text.toList math text.toList.length =
        (step alnum memo text.toList math)^[k]
          (step alnum memo text.toList math (pass alnum memo text.toList math n)) := by
      rw [pass, hk, Function.iterate_add_apply, Function.iterate_succ_apply]
      rfl
    obtain ⟨more, hmore⟩ : ∃ more, (pass alnum true text.toList math n).out ++
        [.text ((pass alnum true text.toList math n).buf ++ [c] ++ more)] <+:
          (pass alnum true text.toList math text.toList.length).flushText.out := by
      rw [hpass true, ← hbuf, ← hout]
      exact text_prefix_iterate _ (by rw [hbuf]; simp) k
    have hopened : (pass alnum true text.toList math n).flushText.out ++ [.opens m] <+:
        (pass alnum false text.toList math text.toList.length).flushText.out := by
      rw [hpass false, ← hopens, hsame.step.out]
      exact out_prefix_iterate _ k
    refine ne_of_suppressed hmore (m := m) ?_
    have heq' : (pass alnum true text.toList math text.toList.length).flushText.out =
        (pass alnum false text.toList math text.toList.length).flushText.out := heq
    rw [heq']
    exact hopened
  · intro h
    exact (same_pass fun m _ => h m).flushText.out

/-- **The table loses a run**: the search for `**` fails and marks the slot of `*`, so that the
pair of single stars is not looked at. -/
theorem memo_loses_run :
    ¬∀ (text : String) (math : Bool), parse Char.isAlphanum text math = parseNoMemo Char.isAlphanum text math := by
  intro h
  exact absurd (h "**a *b*" false) (by decide +kernel)

/-- The same of a search that skipped what the pass does not take as math. -/
example : parse Char.isAlphanum "*a $ b *c* d $" true ≠ parseNoMemo Char.isAlphanum "*a $ b *c* d $" true := by
  decide +kernel

end Markup
end Why2
