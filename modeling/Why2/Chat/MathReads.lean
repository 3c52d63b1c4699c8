/-
# What the parse of a formula reads

Every function of the parser moves the cursor forward and accounts for what it
passes (`Reads`): a character that is not a brace, a script mark or a space is
kept in a node, once and with the place it was read from, or marked as part of a
command, a delimiter or a bracket, or lost.  Two things lose characters: a
script that is given again takes the place of the first, and a raw argument
whose brace is not closed leaves out its last character.  Both are events of the
run, so the account says what is lost from the record of the run alone.

The account is kept by `list`, `atom`, `command` and `primary` over any `primary`
that keeps it, and so by the parser (`reads_parseList`).  In the same way the
parse of every source comes to an end (`parse_returns`): a call of `primary` in
another is further on in the source.
-/

import Mathlib.Algebra.GroupWithZero.Nat
import Why2.Chat.MathParse

namespace Why2
namespace Math

/-! ### What a run reads -/

mutual

/-- The characters of a node. -/
def Node.glyphs : Node → List Glyph
  | .sym text => text
  | .list nodes => glyphsList nodes
  | .frac num den => num.glyphs ++ den.glyphs
  | .sqrt inner degree => degree.getD [] ++ inner.glyphs
  | .delim _ _ inner => inner.glyphs
  | .script base sup sub => base.glyphs ++ (glyphsOption sup ++ glyphsOption sub)
  | .big op => op

/-- The characters of a list of nodes. -/
def glyphsList : List Node → List Glyph
  | [] => []
  | node :: nodes => node.glyphs ++ glyphsList nodes

/-- The characters of a script, if there is one. -/
def glyphsOption : Option Node → List Glyph
  | none => []
  | some node => node.glyphs

end

/-- A brace, a script mark or a space. -/
def isBlank (c : Char) : Bool := c = '{' || c = '}' || c = '^' || c = '_' || c = ' '

/-- A character of a node shows a character of the source: itself, or the capital of an
alphabet that stands for it. -/
def Shows (c d : Char) : Prop := d = c ∨ (c, d) ∈ blackboard ∨ (c, d) ∈ scriptCaps

instance (c d : Char) : Decidable (Shows c d) :=
  inferInstanceAs (Decidable (d = c ∨ (c, d) ∈ blackboard ∨ (c, d) ∈ scriptCaps))

/-- How often a place was read into the characters. -/
def kept (text : List Glyph) (p : ℕ) : ℕ := text.countP fun g => g.origin = some p

/-- Nothing is kept in an empty text. -/
@[simp] theorem kept_nil (p : ℕ) : kept [] p = 0 := rfl

/-- What two texts keep adds up. -/
@[simp] theorem kept_append (text text' : List Glyph) (p : ℕ) :
    kept (text ++ text') p = kept text p + kept text' p := List.countP_append

section laws

variable (chars : List Char)

/-- Where a raw argument begins. -/
def rawBrace (pos : ℕ) : ℕ := (skipSpaces chars { Cursor.start with pos }).pos

/-- A raw argument that is braced and whose brace is not closed. -/
def Unclosed (pos : ℕ) : Prop :=
  chars[rawBrace chars pos]? = some '{' ∧ (braced (chars.drop (rawBrace chars pos + 1)) 1).2 ≠ 0

instance (pos : ℕ) : Decidable (Unclosed chars pos) :=
  inferInstanceAs (Decidable (_ ∧ _))

/-- How often an event loses a place: the script that is replaced, and the last character of an
argument that is not closed. -/
def Event.lost (event : Event) (p : ℕ) : ℕ :=
  match event with
  | .again script => kept script.glyphs p
  | .raw pos => if Unclosed chars pos ∧ p + 1 = chars.length then 1 else 0
  | .argument _ _ => 0

/-- A raw argument whose brace ends the source. -/
def Event.slips : Event → Bool
  | .raw pos => chars[rawBrace chars pos]? = some '{' ∧ rawBrace chars pos + 1 = chars.length
  | _ => false

/-- How often a place was lost. -/
def Cursor.lost (s : Cursor) (p : ℕ) : ℕ := (s.trace.map fun event => event.lost chars p).sum

/-- Whether a place was passed. -/
def passed (s s' : Cursor) (p : ℕ) : ℕ := if s.pos ≤ p ∧ p < s'.pos then 1 else 0

/-- **What reading does.**  The cursor moves forward; every character it passes that is not
blank is kept in the text, marked or lost, once; the text shows the characters it was read
from; and a slice was out of range if a raw argument called for it. -/
structure Reads (s s' : Cursor) (text : List Glyph) : Prop where
  le : s.pos ≤ s'.pos
  bound : s.pos ≤ chars.length → s'.pos ≤ chars.length
  account : ∀ p c, chars[p]? = some c → isBlank c = false →
    passed s s' p + s.marks.count p + s.lost chars p = kept text p + s'.marks.count p + s'.lost chars p
  shows : ∀ g ∈ text, ∀ p, g.origin = some p → ∃ c, chars[p]? = some c ∧ Shows c g.char
  panics : s.panicked = s.trace.any (Event.slips chars) → s'.panicked = s'.trace.any (Event.slips chars)

variable {chars}

/-- Nothing is passed on the spot. -/
theorem passed_self (s : Cursor) (p : ℕ) : passed s s p = 0 := if_neg (by omega)

/-- What is passed adds up. -/
theorem passed_add {s s' s'' : Cursor} (h : s.pos ≤ s'.pos) (h' : s'.pos ≤ s''.pos) (p : ℕ) :
    passed s s'' p = passed s s' p + passed s' s'' p := by
  unfold passed
  split_ifs <;> omega

/-- On the spot nothing is read. -/
theorem Reads.refl (s : Cursor) : Reads chars s s [] where
  le := le_rfl
  bound h := h
  account p _ _ _ := by rw [passed_self, kept_nil]
  shows _ h := (List.not_mem_nil h).elim
  panics h := h

/-- Reading goes on. -/
theorem Reads.trans {s s' s'' : Cursor} {text text' : List Glyph} (h : Reads chars s s' text)
    (h' : Reads chars s' s'' text') : Reads chars s s'' (text ++ text') where
  le := h.le.trans h'.le
  bound hs := h'.bound (h.bound hs)
  account p c hc hblank := by
    have h₁ := h.account p c hc hblank
    have h₂ := h'.account p c hc hblank
    rw [passed_add h.le h'.le, kept_append]
    omega
  shows g hg := by
    rcases List.mem_append.1 hg with hg | hg
    · exact h.shows g hg
    · exact h'.shows g hg
  panics hs := h'.panics (h.panics hs)

/-- Reading that keeps nothing, before other reading. -/
theorem Reads.trans_left {s s' s'' : Cursor} {text : List Glyph} (h : Reads chars s s' [])
    (h' : Reads chars s' s'' text) : Reads chars s s'' text := h.trans h'

/-- Reading that keeps nothing, after other reading. -/
theorem Reads.trans_right {s s' s'' : Cursor} {text : List Glyph} (h : Reads chars s s' text)
    (h' : Reads chars s' s'' []) : Reads chars s s'' text := by
  have := h.trans h'
  rwa [List.append_nil] at this

/-- Blanks may be passed. -/
theorem reads_skip {s : Cursor} {n : ℕ} (hle : s.pos + n ≤ chars.length)
    (hblank : ∀ p c, s.pos ≤ p → p < s.pos + n → chars[p]? = some c → isBlank c = true) :
    Reads chars s (s.skip n) [] where
  le := Nat.le_add_right _ _
  bound _ := hle
  account p c hc hnot := by
    have hout : ¬(s.pos ≤ p ∧ p < (s.skip n).pos) := fun hp => by simp [hblank p c hp.1 hp.2 hc] at hnot
    rw [passed, if_neg hout, kept_nil]
    rfl
  shows _ h := (List.not_mem_nil h).elim
  panics h := h

/-- One blank may be passed. -/
theorem reads_skip_one {s : Cursor} {c : Char} (hc : chars[s.pos]? = some c) (hblank : isBlank c = true) :
    Reads chars s (s.skip 1) [] := by
  refine reads_skip (List.getElem?_eq_some_iff.1 hc).1 fun p d hle hlt hd => ?_
  obtain rfl : p = s.pos := by omega
  rw [hc, Option.some.injEq] at hd
  rwa [← hd]

/-- A place is once in a range, or not at all. -/
theorem count_range' (p start n : ℕ) :
    (List.range' start n).count p = if start ≤ p ∧ p < start + n then 1 else 0 := by
  have hnodup : (List.range' start n).Nodup := List.nodup_range'
  rw [hnodup.count]
  simp only [List.mem_range'_1]

/-- A part of a command may be passed, and is marked. -/
theorem reads_mark {s : Cursor} {n : ℕ} (hle : s.pos + n ≤ chars.length) : Reads chars s (s.mark n) [] where
  le := Nat.le_add_right _ _
  bound _ := hle
  account p c _ _ := by
    change (if s.pos ≤ p ∧ p < s.pos + n then 1 else 0) + s.marks.count p + s.lost chars p =
      0 + (s.marks ++ List.range' s.pos n).count p + s.lost chars p
    rw [List.count_append, count_range']
    omega
  shows _ h := (List.not_mem_nil h).elim
  panics h := h

/-- What is taken while a condition holds meets it. -/
theorem mem_takeWhile_drop {P : Char → Bool} {start p : ℕ} {c : Char} (hle : start ≤ p)
    (hlt : p < start + ((chars.drop start).takeWhile P).length) (hc : chars[p]? = some c) : P c = true := by
  have hlt' : p - start < ((chars.drop start).takeWhile P).length := by omega
  have hpre : (chars.drop start).takeWhile P <+: chars.drop start := List.takeWhile_prefix _
  have hget : (chars.drop start)[p - start]? = some c := by
    rw [List.getElem?_drop, show start + (p - start) = p by omega, hc]
  rw [List.getElem?_eq_getElem (hlt'.trans_le hpre.length_le), ← hpre.getElem hlt', Option.some.injEq] at hget
  rw [← hget]
  exact List.mem_takeWhile_imp (List.getElem_mem hlt')

/-- What is taken is in the source. -/
theorem takeWhile_drop_le (P : Char → Bool) {start : ℕ} (h : start ≤ chars.length) :
    start + ((chars.drop start).takeWhile P).length ≤ chars.length := by
  have := (List.takeWhile_prefix P (l := chars.drop start)).length_le
  rw [List.length_drop] at this
  omega

/-- `skip_spaces` passes blanks. -/
theorem reads_skipSpaces (s : Cursor) (hs : s.pos ≤ chars.length) : Reads chars s (skipSpaces chars s) [] := by
  refine reads_skip (takeWhile_drop_le _ hs) fun p c hle hlt hc => ?_
  have hspace := mem_takeWhile_drop hle hlt hc
  simp only [decide_eq_true_eq] at hspace
  rw [hspace]
  rfl

/-- `eat` passes a blank, or nothing. -/
theorem reads_eat {c : Char} (hblank : isBlank c = true) (s : Cursor) : Reads chars s (eat chars c s) [] := by
  unfold eat
  split
  · next h => exact reads_skip_one h hblank
  · exact Reads.refl s

/-- The name of a command is in the source. -/
theorem commandLength_le {pos : ℕ} {name : String} (h : commandHere chars pos = some name) :
    pos + commandLength name ≤ chars.length := by
  unfold commandHere at h
  split at h
  · cases h
  · next hback =>
    have hpos : pos < chars.length := (List.getElem?_eq_some_iff.1 (not_not.1 hback)).1
    simp only at h
    split at h
    · obtain ⟨c, hc, rfl⟩ := Option.map_eq_some_iff.1 h
      have hnext := (List.getElem?_eq_some_iff.1 hc).1
      simp only [commandLength, String.toList_ofList, List.length_singleton, max_self]
      omega
    · next hname =>
      obtain rfl := Option.some.inj h
      have hle : pos + 1 + ((chars.drop (pos + 1)).takeWhile Char.isAlpha).length ≤ chars.length :=
        takeWhile_drop_le Char.isAlpha hpos
      have hone : 1 ≤ ((chars.drop (pos + 1)).takeWhile Char.isAlpha).length := by
        rw [List.isEmpty_iff] at hname
        exact List.length_pos_iff.2 hname
      simp only [commandLength, String.toList_ofList]
      omega

/-- A command is marked whole. -/
theorem reads_command_name {s : Cursor} {name : String} (h : commandHere chars s.pos = some name) :
    Reads chars s (s.mark (commandLength name)) [] := reads_mark (commandLength_le h)

/-- `delimiter` passes spaces, and marks what it reads. -/
theorem reads_delimiter (s : Cursor) (hs : s.pos ≤ chars.length) : Reads chars s (delimiter chars s).2 [] := by
  have hspaces := reads_skipSpaces s hs
  unfold delimiter
  simp only
  split
  · next name hname => exact hspaces.trans_left (reads_command_name hname)
  · split
    · next c hc => exact hspaces.trans_left (reads_mark (List.getElem?_eq_some_iff.1 hc).1)
    · exact hspaces

/-- A slice has the characters of its places. -/
theorem mem_slice {start stop : ℕ} {g : Glyph} :
    g ∈ slice chars start stop ↔ ∃ p c, start ≤ p ∧ p < stop ∧ chars[p]? = some c ∧ g = ⟨c, some p⟩ := by
  simp only [slice, List.mem_filterMap, List.mem_range'_1, Option.map_eq_some_iff]
  constructor
  · rintro ⟨p, ⟨hle, hlt⟩, c, hc, rfl⟩
    exact ⟨p, c, hle, by omega, hc, rfl⟩
  · rintro ⟨p, c, hle, hlt, hc, rfl⟩
    exact ⟨p, ⟨hle, by omega⟩, c, hc, rfl⟩

/-- A slice has every place in it once. -/
theorem kept_slice {start stop p : ℕ} {c : Char} (hc : chars[p]? = some c) :
    kept (slice chars start stop) p = if start ≤ p ∧ p < stop then 1 else 0 := by
  rw [kept, slice, List.countP_filterMap]
  have hcongr : (List.range' start (stop - start)).countP (fun q =>
      ((chars[q]?.map fun c => (⟨c, some q⟩ : Glyph)).map fun g => decide (g.origin = some p)).getD false) =
      (List.range' start (stop - start)).countP (· == p) := by
    refine List.countP_congr fun q _ => ?_
    cases hq : chars[q]? with
    | none =>
      have hne : q ≠ p := by
        rintro rfl
        rw [hc] at hq
        cases hq
      simp [hne]
    | some d => simp
  rw [hcongr, ← List.count_eq_countP, count_range']
  refine if_congr ?_ rfl rfl
  omega

/-- The characters of a slice are those of the source. -/
theorem shows_slice {start stop : ℕ} {g : Glyph} (h : g ∈ slice chars start stop) (p : ℕ)
    (hp : g.origin = some p) : chars[p]? = some g.char := by
  obtain ⟨q, c, -, -, hc, rfl⟩ := mem_slice.1 h
  rwa [← Option.some.inj hp]

/-- `optional` keeps what is in the brackets, and marks the brackets. -/
theorem reads_optional (s : Cursor) :
    Reads chars s (optional chars s).2 ((optional chars s).1.getD []) := by
  unfold optional
  split
  · exact Reads.refl s
  · next hopen =>
    have hpos : s.pos < chars.length := (List.getElem?_eq_some_iff.1 (not_not.1 hopen)).1
    simp only
    split
    · exact Reads.refl s
    · next stop hstop =>
      have hmem := List.mem_range'_1.1 (List.mem_of_find?_eq_some hstop)
      refine ⟨?_, ?_, fun p c hc hblank => ?_, fun g hg p hp => ⟨_, shows_slice hg p hp, .inl rfl⟩, fun h => h⟩
      · simp only
        omega
      · intro _
        simp only
        omega
      · change (if s.pos ≤ p ∧ p < stop + 1 then 1 else 0) + s.marks.count p + s.lost chars p =
          kept (slice chars (s.pos + 1) stop) p + (s.marks ++ [s.pos, stop]).count p + s.lost chars p
        rw [kept_slice hc, List.count_append, List.count_cons, List.count_singleton]
        simp only [beq_iff_eq]
        split_ifs <;> omega

/-! ### Raw arguments -/

/-- The loop of `raw_argument` stays in the source. -/
theorem braced_le (rest : List Char) (depth : ℕ) : (braced rest depth).1 ≤ rest.length := by
  fun_induction braced rest depth with
  | case1 => exact Nat.le_refl _
  | case2 => exact Nat.zero_le _
  | case3 c rest depth after ih =>
    simp only [List.length_cons]
    exact Nat.succ_le_succ ih

/-- A loop that ends at a depth above zero has read everything. -/
theorem braced_unclosed {rest : List Char} {depth : ℕ} (h : (braced rest depth).2 ≠ 0) :
    (braced rest depth).1 = rest.length := by
  fun_induction braced rest depth with
  | case1 => rfl
  | case2 => exact absurd rfl h
  | case3 c rest depth after ih => exact congrArg (· + 1) (ih h)

/-- A loop that ends at depth zero has read a closing brace last. -/
theorem braced_closed {rest : List Char} {depth : ℕ} (hdepth : 0 < depth) (h : (braced rest depth).2 = 0) :
    0 < (braced rest depth).1 ∧ rest[(braced rest depth).1 - 1]? = some '}' := by
  fun_induction braced rest depth with
  | case1 => exact absurd h (by omega)
  | case2 => exact absurd hdepth (by omega)
  | case3 c rest depth after ih =>
    refine ⟨Nat.succ_pos _, ?_⟩
    simp only [Nat.add_sub_cancel]
    by_cases hnext : 0 < (if c = '{' then depth + 2 else if c = '}' then depth else depth + 1)
    · obtain ⟨hpos, hlast⟩ := ih hnext h
      have hsucc : after.1 = after.1 - 1 + 1 := (Nat.sub_add_cancel hpos).symm
      rw [hsucc, List.getElem?_cons_succ]
      exact hlast
    · split at hnext
      · omega
      split at hnext
      · next hclose =>
        have hzero : after.1 = 0 := by
          have hdepth0 : depth = 0 := by omega
          simp only [after, hclose, hdepth0, if_true, Char.reduceEq, if_false]
          cases rest <;> rfl
        rw [hzero, List.getElem?_cons_zero, hclose]
      · omega

/-- An event that loses nothing and calls for no slice. -/
theorem reads_note_argument (s : Cursor) (pos chain : ℕ) : Reads chars s (s.note (.argument pos chain)) [] where
  le := le_rfl
  bound h := h
  account p _ _ _ := by
    have hpassed : passed s (s.note (.argument pos chain)) p = 0 := passed_self s p
    rw [hpassed, kept_nil]
    simp [Cursor.note, Cursor.lost, Event.lost]
  shows _ h := (List.not_mem_nil h).elim
  panics h := by
    simp only [Cursor.note, List.any_append, List.any_cons, List.any_nil, Event.slips, Bool.or_false]
    exact h

/-- A raw argument begins behind its command. -/
theorem le_rawBrace (pos : ℕ) : pos ≤ rawBrace chars pos := Nat.le_add_right _ _

/-- It begins in the source. -/
theorem rawBrace_le {pos : ℕ} (h : pos ≤ chars.length) : rawBrace chars pos ≤ chars.length :=
  takeWhile_drop_le _ h

/-- Up to its brace a raw argument has spaces. -/
theorem isBlank_of_lt_rawBrace {pos p : ℕ} {c : Char} (hle : pos ≤ p) (hlt : p < rawBrace chars pos)
    (hc : chars[p]? = some c) : isBlank c = true := by
  have hspace := mem_takeWhile_drop hle hlt hc
  simp only [decide_eq_true_eq] at hspace
  rw [hspace]
  rfl

/-- A raw argument, given what it passes. -/
theorem reads_raw {s s' : Cursor} {text : List Glyph} (hle : s.pos ≤ s'.pos) (hbound : s'.pos ≤ chars.length)
    (hmarks : s'.marks = s.marks) (htrace : s'.trace = s.trace ++ [.raw s.pos])
    (hpanic : s'.panicked = (s.panicked || (Event.raw s.pos).slips chars))
    (haccount : ∀ p c, chars[p]? = some c → isBlank c = false →
      passed s s' p = kept text p + (Event.raw s.pos).lost chars p)
    (hshows : ∀ g ∈ text, ∀ p, g.origin = some p → chars[p]? = some g.char) : Reads chars s s' text where
  le := hle
  bound _ := hbound
  account p c hc hblank := by
    have := haccount p c hc hblank
    have hlost : s'.lost chars p = s.lost chars p + (Event.raw s.pos).lost chars p := by
      simp [Cursor.lost, htrace]
    rw [hmarks, hlost]
    omega
  shows g hg p hp := ⟨_, hshows g hg p hp, .inl rfl⟩
  panics h := by
    rw [htrace, hpanic, h, List.any_append, List.any_cons, List.any_nil, Bool.or_false]

/-- What a raw argument reads is closed, or goes to the end of the source. -/
theorem braced_stop {start : ℕ} (hstart : start ≤ chars.length) :
    start + (braced (chars.drop start) 1).1 ≤ chars.length ∧
      ((braced (chars.drop start) 1).2 = 0 → 0 < (braced (chars.drop start) 1).1 ∧
        chars[start + (braced (chars.drop start) 1).1 - 1]? = some '}') ∧
      ((braced (chars.drop start) 1).2 ≠ 0 → start + (braced (chars.drop start) 1).1 = chars.length) := by
  have hle := braced_le (chars.drop start) 1
  rw [List.length_drop] at hle
  refine ⟨by omega, fun hclosed => ?_, fun hopen => ?_⟩
  · obtain ⟨hpos, hlast⟩ := braced_closed Nat.one_pos hclosed
    rw [List.getElem?_drop] at hlast
    refine ⟨hpos, ?_⟩
    rwa [Nat.add_sub_assoc hpos]
  · rw [braced_unclosed hopen, List.length_drop]
    omega

/-- What shows in a raw argument comes after the spaces. -/
theorem rawBrace_le_of_shows {pos p : ℕ} {c : Char} (hc : chars[p]? = some c) (hblank : isBlank c = false)
    (hp : pos ≤ p) : rawBrace chars pos ≤ p := by
  by_contra hlt
  rw [isBlank_of_lt_rawBrace hp (not_le.1 hlt) hc] at hblank
  cases hblank

/-- A raw argument with no brace is the next character, if there is one. -/
theorem reads_rawArgument_bare {s : Cursor} (hs : s.pos ≤ chars.length)
    (hbrace : chars[rawBrace chars s.pos]? ≠ some '{') :
    Reads chars s (rawArgument chars s).2 (rawArgument chars s).1 := by
  set b := rawBrace chars s.pos with hb
  have hle : s.pos ≤ b := le_rawBrace s.pos
  have hpos : (skipSpaces chars (s.note (.raw s.pos))).pos = b := rfl
  have hslips : (Event.raw s.pos).slips chars = false := by
    simp only [Event.slips, ← hb, hbrace, false_and, decide_false]
  have hpanic : s.panicked = (s.panicked || (Event.raw s.pos).slips chars) := by rw [hslips, Bool.or_false]
  have hlost (p : ℕ) : (Event.raw s.pos).lost chars p = 0 := if_neg fun h => hbrace h.1.1
  unfold rawArgument
  simp only [hpos, if_pos hbrace]
  cases hc : chars[b]? with
  | none =>
    refine reads_raw hle (rawBrace_le hs) rfl rfl hpanic (fun p c hc' hblank => ?_)
      fun g hg => (List.not_mem_nil hg).elim
    rw [hlost, kept_nil, passed, if_neg]
    rintro ⟨hp, hlt⟩
    exact absurd (rawBrace_le_of_shows hc' hblank hp) (Nat.not_le.2 hlt)
  | some d =>
    have hlt : b < chars.length := (List.getElem?_eq_some_iff.1 hc).1
    refine reads_raw (Nat.le_succ_of_le hle) hlt rfl rfl hpanic (fun p c hc' hblank => ?_) fun g hg p hp => ?_
    · have hkept : kept [⟨d, some b⟩] p = if b = p then 1 else 0 := by
        simp [kept, List.countP_cons]
      rw [hlost, hkept]
      change (if s.pos ≤ p ∧ p < b + 1 then 1 else 0) = _
      by_cases hp : s.pos ≤ p
      · have : b ≤ p := rawBrace_le_of_shows hc' hblank hp
        split_ifs <;> omega
      · split_ifs <;> omega
    · rw [List.mem_singleton.1 hg] at hp ⊢
      rw [← Option.some.inj hp]
      exact hc

/-- What shows in a braced argument comes after its brace. -/
theorem rawBrace_lt_of_shows {pos p : ℕ} {c : Char} (hbrace : chars[rawBrace chars pos]? = some '{')
    (hc : chars[p]? = some c) (hblank : isBlank c = false) (hp : pos ≤ p) : rawBrace chars pos + 1 ≤ p := by
  rcases Nat.eq_or_lt_of_le (rawBrace_le_of_shows hc hblank hp) with heq | hlt
  · rw [← heq, hbrace, Option.some.injEq] at hc
    rw [← hc] at hblank
    cases hblank
  · exact hlt

/-- A raw argument in braces is what is between them; where they are not closed, the last
character is lost, and where there is none the slice is out of range. -/
theorem reads_rawArgument_braced {s : Cursor} (hbrace : chars[rawBrace chars s.pos]? = some '{') :
    Reads chars s (rawArgument chars s).2 (rawArgument chars s).1 := by
  set b := rawBrace chars s.pos with hb
  have hle : s.pos ≤ b := le_rawBrace s.pos
  have hpos : (skipSpaces chars (s.note (.raw s.pos))).pos = b := rfl
  have hblt : b < chars.length := (List.getElem?_eq_some_iff.1 hbrace).1
  obtain ⟨hstop, hclosed, hopen⟩ := braced_stop (Nat.succ_le_of_lt hblt)
  have hafter {p : ℕ} {c : Char} (hc : chars[p]? = some c) (hblank : isBlank c = false) (hp : s.pos ≤ p) :
      b + 1 ≤ p := rawBrace_lt_of_shows hbrace hc hblank hp
  have hslips : (Event.raw s.pos).slips chars = decide (b + 1 = chars.length) := by
    simp only [Event.slips, ← hb, hbrace, true_and]
  have hunclosed : Unclosed chars s.pos ↔ (braced (chars.drop (b + 1)) 1).2 ≠ 0 := and_iff_right hbrace
  have hlost (p : ℕ) : (Event.raw s.pos).lost chars p =
      if (braced (chars.drop (b + 1)) 1).2 ≠ 0 ∧ p + 1 = chars.length then 1 else 0 :=
    if_congr (and_congr_left' hunclosed) rfl rfl
  unfold rawArgument
  simp only [hpos, if_neg (not_not.2 hbrace), Cursor.skip]
  generalize (braced (chars.drop (b + 1)) 1).1 = n at hstop hclosed hopen ⊢
  generalize (braced (chars.drop (b + 1)) 1).2 = depth at hclosed hopen hlost
  split
  · next hnone =>
    -- the brace is the last character
    have hdepth : depth ≠ 0 := fun h => by have := (hclosed h).1; omega
    have hlast : b + 1 = chars.length := by have := hopen hdepth; omega
    refine reads_raw (by simp only; omega) (by simp only; omega) rfl rfl ?_ (fun p c hc hblank => ?_)
      fun g hg => (List.not_mem_nil hg).elim
    · rw [hslips, decide_eq_true hlast, Bool.or_true]
    · rw [hlost, kept_nil, passed, if_neg, if_neg]
      · rintro ⟨-, hp⟩
        have := hafter hc hblank (by omega)
        omega
      · rintro ⟨hp, hlt⟩
        have := hafter hc hblank hp
        simp only at hlt
        omega
  · next hsome =>
    refine reads_raw (by simp only; omega) hstop rfl rfl ?_ (fun p c hc hblank => ?_) fun g hg p hp =>
      shows_slice hg p hp
    · rw [hslips, decide_eq_false (by omega), Bool.or_false]
      rfl
    · rw [hlost, kept_slice hc]
      change (if s.pos ≤ p ∧ p < b + 1 + n then 1 else 0) = _
      have hstart : s.pos ≤ p ↔ b + 1 ≤ p := ⟨hafter hc hblank, fun h => by omega⟩
      simp only [hstart]
      by_cases hdepth : depth = 0
      · have hne : p ≠ b + 1 + n - 1 := by
          rintro rfl
          rw [(hclosed hdepth).2, Option.some.injEq] at hc
          rw [← hc] at hblank
          cases hblank
        rw [if_neg (fun h : depth ≠ 0 ∧ _ => h.1 hdepth)]
        split_ifs <;> omega
      · have hend := hopen hdepth
        split_ifs <;> omega

/-- What `raw_argument` reads: the event is the record of what it loses. -/
theorem reads_rawArgument (s : Cursor) (hs : s.pos ≤ chars.length) :
    Reads chars s (rawArgument chars s).2 (rawArgument chars s).1 := by
  by_cases hbrace : chars[rawBrace chars s.pos]? = some '{'
  · exact reads_rawArgument_braced hbrace
  · exact reads_rawArgument_bare hs hbrace

/-! ### What the recursion reads -/

section

variable {prim : Frame → Cursor → Node × Cursor}

/-- A `primary` that reads what its node shows. -/
def ReadsNode (chars : List Char) (read : Cursor → Node × Cursor) : Prop :=
  ∀ s, s.pos ≤ chars.length → Reads chars s (read s).2 (read s).1.glyphs

/-- Running out of turns reads nothing. -/
theorem reads_exhausted (s : Cursor) : Reads chars s { s with exhausted := true } [] :=
  ⟨le_rfl, fun h => h, fun p _ _ _ => by rw [kept_nil]; exact congrArg (· + _ + _) (passed_self s p),
    fun _ h => (List.not_mem_nil h).elim, fun h => h⟩

/-- **A list keeps what its atoms keep.** -/
theorem reads_listLoop {atom : Cursor → Node × Cursor} (hatom : ReadsNode chars atom) (group : Bool) (n : ℕ)
    (s : Cursor) (hs : s.pos ≤ chars.length) :
    Reads chars s (listLoop chars atom group n s).2 (glyphsList (listLoop chars atom group n s).1) := by
  induction n generalizing s with
  | zero => exact reads_exhausted s
  | succ n ih =>
    unfold listLoop
    split
    · exact Reads.refl s
    · next c hc =>
      split
      · next hclose =>
        split
        · exact Reads.refl s
        · have hskip := reads_skip_one hc (by rw [hclose]; rfl)
          exact hskip.trans_left (ih _ (hskip.bound hs))
      split
      · exact Reads.refl s
      · have hfirst := hatom s hs
        exact hfirst.trans (ih _ (hfirst.bound hs))

/-- The order of the characters does not matter. -/
theorem Reads.perm {s s' : Cursor} {text text' : List Glyph} (h : Reads chars s s' text) (hperm : text.Perm text') :
    Reads chars s s' text' where
  le := h.le
  bound := h.bound
  account p c hc hblank := by
    have hkept : kept text' p = kept text p := (hperm.countP_eq _).symm
    rw [hkept]
    exact h.account p c hc hblank
  shows g hg := h.shows g (hperm.mem_iff.2 hg)
  panics := h.panics

/-- A script that is replaced is lost. -/
theorem Reads.again {s s' : Cursor} {script : Option Node} {text : List Glyph}
    (h : Reads chars s s' (glyphsOption script ++ text)) : Reads chars s (noteAgain script s') text := by
  cases script with
  | none => exact h
  | some script =>
    refine ⟨h.le, h.bound, fun p c hc hblank => ?_, fun g hg => h.shows g (List.mem_append_right _ hg), fun hs => ?_⟩
    · have haccount := h.account p c hc hblank
      have hlost : (s'.note (.again script)).lost chars p = s'.lost chars p + kept script.glyphs p := by
        simp [Cursor.note, Cursor.lost, Event.lost]
      rw [kept_append, glyphsOption] at haccount
      change passed s s' p + _ + _ = _ + s'.marks.count p + (s'.note (.again script)).lost chars p
      rw [hlost]
      omega
    · have hpanics := h.panics hs
      simp only [noteAgain, Cursor.note, List.any_append, List.any_cons, List.any_nil, Event.slips, Bool.or_false]
      exact hpanics

/-- A script is read in the place of the one the atom has. -/
theorem Reads.script {frame : Frame} (hprim : ReadsNode chars (prim frame)) {s₀ s : Cursor} {mark : Char}
    {old : Option Node} {text : List Glyph} (h : Reads chars s₀ s (glyphsOption old ++ text))
    (hmark : chars[s.pos]? = some mark) (hblank : isBlank mark = true) :
    Reads chars s₀ (prim frame ((noteAgain old s).skip 1)).2
      (text ++ (prim frame ((noteAgain old s).skip 1)).1.glyphs) := by
  have hpos : (noteAgain old s).pos = s.pos := by cases old <;> rfl
  have hskip : Reads chars (noteAgain old s) ((noteAgain old s).skip 1) [] :=
    reads_skip_one (by rw [hpos]; exact hmark) hblank
  have hlt : s.pos < chars.length := (List.getElem?_eq_some_iff.1 hmark).1
  have hread := hprim _ (hskip.bound (by omega))
  exact (h.again.trans_right hskip).trans hread

/-- The scripts keep what they read, in the place of the ones before. -/
theorem reads_scriptLoop {frame : Frame} (hprim : ReadsNode chars (prim frame)) (n : ℕ) {s₀ s : Cursor}
    {text : List Glyph} {sup sub : Option Node}
    (h : Reads chars s₀ s (text ++ (glyphsOption sup ++ glyphsOption sub))) :
    Reads chars s₀ (scriptLoop chars prim frame n sup sub s).2
      (text ++ (glyphsOption (scriptLoop chars prim frame n sup sub s).1.1 ++
        glyphsOption (scriptLoop chars prim frame n sup sub s).1.2)) := by
  induction n generalizing s sup sub with
  | zero => exact h.trans_right (reads_exhausted s)
  | succ n ih =>
    unfold scriptLoop
    split
    · next hmark =>
      have hheld : Reads chars s₀ s (glyphsOption sup ++ (text ++ glyphsOption sub)) :=
        h.perm (List.perm_append_comm_assoc _ _ _)
      refine ih ((hheld.script hprim hmark rfl).perm ?_)
      rw [List.append_assoc]
      exact List.perm_append_comm.append_left text
    split
    · next hmark =>
      have hheld : Reads chars s₀ s (glyphsOption sub ++ (text ++ glyphsOption sup)) := by
        rw [← List.append_assoc] at h
        exact h.perm List.perm_append_comm
      have hread := hheld.script hprim hmark rfl
      rw [List.append_assoc] at hread
      exact ih hread
    · exact h

/-- An atom keeps its base and its scripts. -/
theorem reads_atom {frame : Frame} (hprim : ReadsNode chars (prim frame)) :
    ReadsNode chars (atom chars prim frame) := by
  intro s hs
  have hbase := hprim s hs
  have hnone : Reads chars s (prim frame s).2
      ((prim frame s).1.glyphs ++ (glyphsOption none ++ glyphsOption none)) := by
    rw [glyphsOption, List.append_nil, List.append_nil]
    exact hbase
  have hscripts := reads_scriptLoop hprim (chars.length + 1) hnone
  unfold atom
  simp only
  split
  · next heq =>
    rw [heq] at hscripts
    simpa only [glyphsOption, List.append_nil] using hscripts
  · next sup sub _ heq =>
    rw [heq] at hscripts
    simpa only [Node.glyphs] using hscripts

/-- `list` accounts for what it reads. -/
theorem reads_list (hprim : ∀ frame, ReadsNode chars (prim frame)) (frame : Frame) (group : Bool) (s : Cursor)
    (hs : s.pos ≤ chars.length) :
    Reads chars s (list chars prim frame group s).2 (glyphsList (list chars prim frame group s).1) :=
  reads_listLoop (reads_atom (hprim frame)) group _ s hs

/-- `argument` accounts for what it reads. -/
theorem reads_argument (hprim : ∀ frame, ReadsNode chars (prim frame)) (frame : Frame) :
    ReadsNode chars (argument chars prim frame) := by
  intro s hs
  have hnote : Reads chars s _ [] := reads_note_argument s s.pos frame.argument.chain
  have hspaces := reads_skipSpaces _ (hnote.bound hs)
  exact hnote.trans_left (hspaces.trans_left (hprim frame.argument _ (hspaces.bound (hnote.bound hs))))

/-- `\left` accounts for its delimiters and what is between them. -/
theorem reads_leftCommand (hprim : ∀ frame, ReadsNode chars (prim frame)) (frame : Frame) :
    ReadsNode chars (leftCommand chars prim frame) := by
  intro s hs
  have hopening := reads_delimiter s hs
  have hinner := reads_list hprim frame.inner false _ (hopening.bound hs)
  have hread := hopening.trans_left hinner
  unfold leftCommand
  simp only
  split
  · next hright =>
    have hmark : Reads chars _ ((list chars prim frame.inner false (delimiter chars s).2).2.mark 6) [] :=
      reads_mark (commandLength_le hright)
    have hclosing := reads_delimiter _ (hmark.bound (hread.bound hs))
    exact hread.trans_right (hmark.trans_left hclosing)
  · exact hread

/-- A letter of an alphabet shows the letter it stands for. -/
theorem shows_alphabet {c : Char} {table : List (Char × Char)}
    (htable : ∀ entry ∈ table, entry ∈ blackboard ∨ entry ∈ scriptCaps) :
    Shows c (((table.find? fun entry => entry.1 = c).map (·.2)).getD c) := by
  cases hfind : table.find? fun entry => entry.1 = c with
  | none => exact .inl rfl
  | some entry =>
    have hc : entry.1 = c := by simpa using List.find?_some hfind
    refine .inr ?_
    rw [Option.map_some, Option.getD_some, ← hc]
    exact htable entry (List.mem_of_find?_eq_some hfind)

/-- A letter and the capital that stands for it are read from the same place. -/
theorem Reads.alphabet {s s' : Cursor} {text : List Glyph} {table : List (Char × Char)}
    (htable : ∀ entry ∈ table, entry ∈ blackboard ∨ entry ∈ scriptCaps)
    (h : Reads chars s s' text) (hshows : ∀ g ∈ text, ∀ p, g.origin = some p → chars[p]? = some g.char) :
    Reads chars s s' (alphabet text table) where
  le := h.le
  bound := h.bound
  account p c hc hblank := by
    have hkept : kept (Math.alphabet text table) p = kept text p := by
      rw [kept, Math.alphabet, List.countP_map]
      rfl
    rw [hkept]
    exact h.account p c hc hblank
  shows g hg p hp := by
    obtain ⟨g', hg', rfl⟩ := List.mem_map.1 hg
    exact ⟨g'.char, hshows g' hg' p hp, shows_alphabet htable⟩
  panics := h.panics

/-- The characters of a raw argument are those of the source. -/
theorem shows_rawArgument {s : Cursor} {g : Glyph} (hg : g ∈ (rawArgument chars s).1) (p : ℕ)
    (hp : g.origin = some p) : chars[p]? = some g.char := by
  unfold rawArgument at hg
  simp only at hg
  split at hg
  · split at hg
    · next c hc =>
      rw [List.mem_singleton.1 hg] at hp ⊢
      rw [← Option.some.inj hp]
      exact hc
    · cases hg
  · split at hg
    · cases hg
    · exact shows_slice hg p hp

/-- What a command stands for is read from nowhere. -/
theorem Reads.written {s s' : Cursor} (h : Reads chars s s' []) (text : String) :
    Reads chars s s' (written text) where
  le := h.le
  bound := h.bound
  account p c hc hblank := by
    have hkept : kept (Math.written text) p = 0 := by
      refine List.countP_eq_zero.2 fun g hg => ?_
      obtain ⟨d, -, rfl⟩ := List.mem_map.1 hg
      simp
    rw [hkept]
    exact h.account p c hc hblank
  shows g hg p hp := by
    obtain ⟨d, -, rfl⟩ := List.mem_map.1 hg
    cases hp
  panics := h.panics

/-- **A command accounts for what it reads.** -/
theorem reads_command (hprim : ∀ frame, ReadsNode chars (prim frame)) (frame : Frame) {s : Cursor}
    (hback : chars[s.pos]? = some '\\') :
    Reads chars s (command chars prim frame s).2 (command chars prim frame s).1.glyphs := by
  have hlt : s.pos < chars.length := (List.getElem?_eq_some_iff.1 hback).1
  unfold command
  split
  · exact reads_mark hlt
  · next name hname =>
    have hmark := reads_command_name hname
    have hle := hmark.bound hlt.le
    have hraw := reads_rawArgument _ hle
    simp only
    split
    · have hnum := reads_argument hprim frame _ hle
      have hden := reads_argument hprim frame _ (hnum.bound hle)
      exact hmark.trans_left (hnum.trans hden)
    split
    · have hdegree : Reads chars (s.mark (commandLength name)) _ _ := reads_optional _
      have hinner := reads_argument hprim frame _ (hdegree.bound hle)
      exact hmark.trans_left (hdegree.trans hinner)
    split
    · exact hmark.trans_left hraw
    split
    · exact hmark.trans_left (hraw.alphabet (fun _ h => .inl h) fun g hg => shows_rawArgument hg)
    split
    · exact hmark.trans_left (hraw.alphabet (fun _ h => .inr h) fun g hg => shows_rawArgument hg)
    split
    · exact hmark.trans_left (reads_leftCommand hprim frame _ hle)
    split
    · exact hmark
    split
    · exact hmark.written _
    · exact hmark.written _

/-- Any other character is kept. -/
theorem reads_symbol {s : Cursor} {c : Char} (hc : chars[s.pos]? = some c) :
    Reads chars s (s.skip 1) [⟨c, some s.pos⟩] := by
  have hlt : s.pos < chars.length := (List.getElem?_eq_some_iff.1 hc).1
  refine ⟨Nat.le_succ _, fun _ => hlt, fun p d hd _ => ?_, fun g hg p hp => ?_, fun h => h⟩
  · have hkept : kept [⟨c, some s.pos⟩] p = if s.pos ≤ p ∧ p < s.pos + 1 then 1 else 0 := by
      have hiff : s.pos = p ↔ s.pos ≤ p ∧ p < s.pos + 1 := by omega
      simp [kept, List.countP_cons, hiff]
    rw [hkept]
    rfl
  · rw [List.mem_singleton.1 hg] at hp ⊢
    exact ⟨c, by rw [← Option.some.inj hp]; exact hc, .inl rfl⟩

/-- `primary` accounts for what it reads if the calls in it do. -/
theorem reads_primaryBody (hprim : ∀ frame, ReadsNode chars (prim frame)) (frame : Frame) :
    ReadsNode chars (primaryBody chars prim frame) := by
  intro s hs
  unfold primaryBody
  split
  · exact Reads.refl s
  · next c hc =>
    split
    · next hbrace =>
      have hskip : Reads chars s (s.skip 1) [] := reads_skip_one hc (by rw [hbrace.1]; rfl)
      have hinner := reads_list hprim frame.inner true _ (hskip.bound hs)
      exact hskip.trans_left (hinner.trans_right (reads_eat rfl _))
    split
    · next hback => exact reads_command hprim frame (hback ▸ hc)
    split
    · exact Reads.refl s
    · exact reads_symbol hc

/-- Counting the depth reads nothing. -/
theorem reads_deepest (s : Cursor) (n : ℕ) : Reads chars s { s with deepest := n } [] :=
  ⟨le_rfl, fun h => h, fun p _ _ _ => by rw [kept_nil]; exact congrArg (· + _ + _) (passed_self s p),
    fun _ h => (List.not_mem_nil h).elim, fun h => h⟩

/-- By induction on the bound, `primary` accounts for what it reads. -/
theorem reads_primary (n : ℕ) (frame : Frame) : ReadsNode chars (primary chars n frame) := by
  induction n generalizing frame with
  | zero =>
    intro s _
    exact (reads_deepest s (max s.deepest frame.level)).trans_left (reads_exhausted { s with deepest := _ })
  | succ n ih =>
    intro s hs
    exact (reads_deepest s _).trans_left (reads_primaryBody ih frame _ hs)

/-- **Every character of the source is kept, marked or lost**, as far as the parse goes. -/
theorem reads_parseList : Reads chars .start (parseList chars).2 (glyphsList (parseList chars).1) :=
  reads_list (reads_primary _) _ _ _ (Nat.zero_le _)

/-! ### The parse returns -/

/-- From `lo` on, the reader does not reach its bound, and it moves past a character that is not
a script mark. -/
structure Runs (chars : List Char) (lo : ℕ) (read : Cursor → Node × Cursor) : Prop where
  exhausted : ∀ s, lo ≤ s.pos → s.pos ≤ chars.length → (read s).2.exhausted = s.exhausted
  advances : ∀ s c, lo ≤ s.pos → chars[s.pos]? = some c → c ≠ '^' → c ≠ '_' → s.pos < (read s).2.pos

/-- A list of atoms that move forward ends before its bound. -/
theorem exhausted_listLoop {atom : Cursor → Node × Cursor} {lo : ℕ} (hatom : ReadsNode chars atom)
    (hexhausted : ∀ s, lo ≤ s.pos → s.pos ≤ chars.length → (atom s).2.exhausted = s.exhausted)
    (hadvances : ∀ s, lo ≤ s.pos → s.pos < chars.length → s.pos < (atom s).2.pos) (group : Bool) (n : ℕ) (s : Cursor)
    (hlo : lo ≤ s.pos) (hs : s.pos ≤ chars.length) (hn : chars.length + 1 ≤ s.pos + n) :
    (listLoop chars atom group n s).2.exhausted = s.exhausted := by
  induction n generalizing s with
  | zero => omega
  | succ n ih =>
    unfold listLoop
    split
    · rfl
    · next c hc =>
      have hlt : s.pos < chars.length := (List.getElem?_eq_some_iff.1 hc).1
      split
      · split
        · rfl
        · exact ih (s.skip 1) (Nat.le_succ_of_le hlo) hlt (by simp only [Cursor.skip]; omega)
      split
      · rfl
      · have hpos := hadvances s hlo hlt
        exact (ih (atom s).2 (by omega) ((hatom s hs).bound hs) (by omega)).trans (hexhausted s hlo hs)

/-- A script that is given again leaves the cursor where it is. -/
theorem exhausted_noteAgain (script : Option Node) (s : Cursor) :
    (noteAgain script s).pos = s.pos ∧ (noteAgain script s).exhausted = s.exhausted := by
  cases script <;> exact ⟨rfl, rfl⟩

/-- The scripts of an atom end before their bound. -/
theorem exhausted_scriptLoop {frame : Frame} {lo : ℕ} (hprim : ReadsNode chars (prim frame))
    (hruns : Runs chars lo (prim frame)) (n : ℕ) (sup sub : Option Node) (s : Cursor) (hlo : lo ≤ s.pos)
    (hs : s.pos ≤ chars.length) (hn : chars.length + 1 ≤ s.pos + n) :
    (scriptLoop chars prim frame n sup sub s).2.exhausted = s.exhausted ∧
      s.pos ≤ (scriptLoop chars prim frame n sup sub s).2.pos ∧
      (chars[s.pos]? = some '^' ∨ chars[s.pos]? = some '_' →
        s.pos < (scriptLoop chars prim frame n sup sub s).2.pos) := by
  induction n generalizing s sup sub with
  | zero => omega
  | succ n ih =>
    have hstep {mark : Char} (hmark : chars[s.pos]? = some mark) (old sup' sub' : Option Node) :
        (scriptLoop chars prim frame n sup' sub' (prim frame ((noteAgain old s).skip 1)).2).2.exhausted =
            s.exhausted ∧
          s.pos < (scriptLoop chars prim frame n sup' sub' (prim frame ((noteAgain old s).skip 1)).2).2.pos := by
      have hlt : s.pos < chars.length := (List.getElem?_eq_some_iff.1 hmark).1
      obtain ⟨hpos, hexh⟩ := exhausted_noteAgain old s
      have hskip : ((noteAgain old s).skip 1).pos = s.pos + 1 := by rw [Cursor.skip, hpos]
      have hread := hprim ((noteAgain old s).skip 1) (by omega)
      have hle := hread.le
      have hbound := hread.bound (by omega)
      obtain ⟨hrest, hrestle, -⟩ :=
        ih sup' sub' (prim frame ((noteAgain old s).skip 1)).2 (by omega) hbound (by omega)
      refine ⟨?_, by omega⟩
      rw [hrest, hruns.exhausted _ (by omega) (by omega)]
      exact hexh
    unfold scriptLoop
    split
    · next hmark =>
      obtain ⟨hexh, hlt⟩ := hstep hmark sup (some (prim frame ((noteAgain sup s).skip 1)).1) sub
      exact ⟨hexh, hlt.le, fun _ => hlt⟩
    split
    · next hmark =>
      obtain ⟨hexh, hlt⟩ := hstep hmark sub sup (some (prim frame ((noteAgain sub s).skip 1)).1)
      exact ⟨hexh, hlt.le, fun _ => hlt⟩
    · next hsup hsub => exact ⟨rfl, le_rfl, fun h => (h.elim hsup hsub).elim⟩

/-- An atom ends where its scripts do. -/
theorem atom_snd (chars : List Char) (prim : Frame → Cursor → Node × Cursor) (frame : Frame) (s : Cursor) :
    (atom chars prim frame s).2 =
      (scriptLoop chars prim frame (chars.length + 1) none none (prim frame s).2).2 := by
  unfold atom
  simp only
  split <;> rfl

/-- An atom comes to an end, and moves forward. -/
theorem exhausted_atom {frame : Frame} {lo : ℕ} (hprim : ReadsNode chars (prim frame))
    (hruns : Runs chars lo (prim frame)) (s : Cursor) (hlo : lo ≤ s.pos) (hs : s.pos ≤ chars.length) :
    (atom chars prim frame s).2.exhausted = s.exhausted ∧
      (s.pos < chars.length → s.pos < (atom chars prim frame s).2.pos) := by
  have hread := hprim s hs
  have hle := hread.le
  obtain ⟨hexh, hscripts, hmark⟩ := exhausted_scriptLoop hprim hruns (chars.length + 1) none none (prim frame s).2
    (hlo.trans hle) (hread.bound hs) (by omega)
  rw [atom_snd]
  refine ⟨hexh.trans (hruns.exhausted s hlo hs), fun hlt => ?_⟩
  have hc : chars[s.pos]? = some chars[s.pos] := List.getElem?_eq_getElem hlt
  rcases Nat.eq_or_lt_of_le hle with hstay | hmove
  · -- nothing was read, so a script mark is next, and the loop takes it
    rw [← hstay] at hmark hscripts
    refine hmark ?_
    by_contra hne
    rw [hc, Option.some.injEq, Option.some.injEq, not_or] at hne
    have := hruns.advances s _ hlo hc hne.1 hne.2
    omega
  · omega

/-- A list comes to an end. -/
theorem exhausted_list {lo : ℕ} (hprim : ∀ frame, ReadsNode chars (prim frame))
    (hruns : ∀ frame, Runs chars lo (prim frame)) (frame : Frame) (group : Bool) (s : Cursor) (hlo : lo ≤ s.pos)
    (hs : s.pos ≤ chars.length) : (list chars prim frame group s).2.exhausted = s.exhausted :=
  exhausted_listLoop (reads_atom (hprim frame))
    (fun s hlo hs => (exhausted_atom (hprim frame) (hruns frame) s hlo hs).1)
    (fun s hlo hlt => (exhausted_atom (hprim frame) (hruns frame) s hlo hlt.le).2 hlt) group _ s hlo hs (by omega)

/-- `delimiter` has no bound. -/
theorem delimiter_exhausted (s : Cursor) : (delimiter chars s).2.exhausted = s.exhausted := by
  unfold delimiter
  simp only
  split
  · rfl
  · split <;> rfl

/-- `eat` has no bound. -/
theorem eat_exhausted (c : Char) (s : Cursor) : (eat chars c s).exhausted = s.exhausted := by
  unfold eat
  split <;> rfl

/-- `optional` has no bound. -/
theorem optional_exhausted (s : Cursor) : (optional chars s).2.exhausted = s.exhausted := by
  unfold optional
  split
  · rfl
  · simp only
    split <;> rfl

/-- `raw_argument` has no bound. -/
theorem rawArgument_exhausted (s : Cursor) : (rawArgument chars s).2.exhausted = s.exhausted := by
  unfold rawArgument
  simp only
  split
  · split <;> rfl
  · split <;> rfl

/-- An argument comes to an end. -/
theorem exhausted_argument {lo : ℕ} (hruns : ∀ frame, Runs chars lo (prim frame)) (frame : Frame) (s : Cursor)
    (hlo : lo ≤ s.pos) (hs : s.pos ≤ chars.length) : (argument chars prim frame s).2.exhausted = s.exhausted := by
  have hspaces : Reads chars (s.note (.argument s.pos frame.argument.chain)) _ [] := reads_skipSpaces _ hs
  exact (hruns frame.argument).exhausted _ (hlo.trans hspaces.le) (hspaces.bound hs)

/-- What `\left` opens comes to an end. -/
theorem exhausted_leftCommand {lo : ℕ} (hprim : ∀ frame, ReadsNode chars (prim frame))
    (hruns : ∀ frame, Runs chars lo (prim frame)) (frame : Frame) (s : Cursor) (hlo : lo ≤ s.pos)
    (hs : s.pos ≤ chars.length) : (leftCommand chars prim frame s).2.exhausted = s.exhausted := by
  have hopening := reads_delimiter s hs
  have hlist := exhausted_list hprim hruns frame.inner false _ (hlo.trans hopening.le) (hopening.bound hs)
  unfold leftCommand
  simp only
  split
  · rw [delimiter_exhausted]
    exact hlist.trans (delimiter_exhausted s)
  · exact hlist.trans (delimiter_exhausted s)

/-- A command comes to an end. -/
theorem exhausted_command {lo : ℕ} (hprim : ∀ frame, ReadsNode chars (prim frame))
    (hruns : ∀ frame, Runs chars lo (prim frame)) (frame : Frame) {s : Cursor} (hlo : lo ≤ s.pos + 1)
    (hs : s.pos < chars.length) : (command chars prim frame s).2.exhausted = s.exhausted := by
  unfold command
  split
  · rfl
  · next name hname =>
    have hmark := reads_command_name hname
    have hle := hmark.bound hs.le
    have hpos : s.pos + 1 ≤ (s.mark (commandLength name)).pos := by
      simp only [Cursor.mark, commandLength]
      omega
    have hargument := exhausted_argument hruns frame (s.mark (commandLength name)) (hlo.trans hpos) hle
    simp only
    split
    · have hnum := reads_argument hprim frame _ hle
      exact (exhausted_argument hruns frame _ ((hlo.trans hpos).trans hnum.le) (hnum.bound hle)).trans hargument
    split
    · have hdegree : Reads chars (s.mark (commandLength name)) _ _ := reads_optional _
      exact (exhausted_argument hruns frame _ ((hlo.trans hpos).trans hdegree.le) (hdegree.bound hle)).trans
        (optional_exhausted _)
    split
    · exact rawArgument_exhausted _
    split
    · exact rawArgument_exhausted _
    split
    · exact rawArgument_exhausted _
    split
    · exact exhausted_leftCommand hprim hruns frame _ (hlo.trans hpos) hle
    split
    · rfl
    split <;> rfl

/-- `command` moves past its backslash. -/
theorem lt_command (hprim : ∀ frame, ReadsNode chars (prim frame)) (frame : Frame) {s : Cursor}
    (hs : s.pos < chars.length) : s.pos < (command chars prim frame s).2.pos := by
  unfold command
  split
  · exact Nat.lt_succ_self _
  · next name hname =>
    have hle := (reads_command_name hname).bound hs.le
    have hpos : s.pos < (s.mark (commandLength name)).pos := by
      simp only [Cursor.mark, commandLength]
      omega
    have hraw := (reads_rawArgument _ hle).le
    simp only
    split
    · have hnum := reads_argument hprim frame _ hle
      exact hpos.trans_le (hnum.le.trans (reads_argument hprim frame _ (hnum.bound hle)).le)
    split
    · have hdegree : Reads chars (s.mark (commandLength name)) _ _ := reads_optional _
      exact hpos.trans_le (hdegree.le.trans (reads_argument hprim frame _ (hdegree.bound hle)).le)
    split
    · exact hpos.trans_le hraw
    split
    · exact hpos.trans_le hraw
    split
    · exact hpos.trans_le hraw
    split
    · exact hpos.trans_le (reads_leftCommand hprim frame _ hle).le
    split
    · exact hpos
    split
    · exact hpos
    · exact hpos

/-- `primary` comes to an end if the calls in it do, which begin further on. -/
theorem runs_primaryBody {lo : ℕ} (hprim : ∀ frame, ReadsNode chars (prim frame))
    (hruns : ∀ frame, Runs chars (lo + 1) (prim frame)) (frame : Frame) :
    Runs chars lo (primaryBody chars prim frame) where
  exhausted s hlo hs := by
    unfold primaryBody
    split
    · rfl
    · next c hc =>
      have hlt : s.pos < chars.length := (List.getElem?_eq_some_iff.1 hc).1
      split
      · have hlist := exhausted_list hprim hruns frame.inner true (s.skip 1) (Nat.succ_le_succ hlo) hlt
        exact (eat_exhausted _ _).trans hlist
      split
      · exact exhausted_command hprim hruns frame (Nat.succ_le_succ hlo) hlt
      split <;> rfl
  advances s c hlo hc hsup hsub := by
    have hlt : s.pos < chars.length := (List.getElem?_eq_some_iff.1 hc).1
    unfold primaryBody
    rw [hc]
    simp only
    split
    · have hlist := (reads_list hprim frame.inner true (s.skip 1) hlt).le
      have heat : _ ≤ (eat chars '}' (list chars prim frame.inner true (s.skip 1)).2).pos := (reads_eat rfl _).le
      exact Nat.lt_of_succ_le (hlist.trans heat)
    split
    · exact lt_command hprim frame hlt
    split
    · next h => exact (h.elim hsup hsub).elim
    · exact Nat.lt_succ_self _

/-- By induction on the bound, `primary` comes to an end near the end of the source. -/
theorem runs_primary (n : ℕ) (frame : Frame) : Runs chars (chars.length + 1 - n) (primary chars n frame) := by
  induction n generalizing frame with
  | zero =>
    refine ⟨fun s hlo hs => ?_, fun s c hlo hc => ?_⟩
    · omega
    · have := (List.getElem?_eq_some_iff.1 hc).1
      omega
  | succ n ih =>
    have hbody : Runs chars (chars.length - n) (primaryBody chars (primary chars n) frame) := by
      refine runs_primaryBody (reads_primary n) (fun frame => ?_) frame
      obtain ⟨hexh, hadv⟩ := ih frame
      exact ⟨fun s hlo => hexh s (by omega), fun s c hlo => hadv s c (by omega)⟩
    refine ⟨fun s hlo hs => ?_, fun s c hlo => ?_⟩
    · exact hbody.exhausted { s with deepest := max s.deepest frame.level } (by simp only; omega) hs
    · exact hbody.advances { s with deepest := max s.deepest frame.level } c (by simp only; omega)

/-- **The parse of every source comes to an end.** -/
theorem parse_returns : (parseList chars).2.exhausted = false :=
  exhausted_list (reads_primary _) (fun frame => runs_primary (chars.length + 1) frame) _ _ _ (by simp)
    (Nat.zero_le _)

/-- The parse fails exactly if a raw argument has its brace at the end of the source. -/
theorem parseList_panicked : (parseList chars).2.panicked = (parseList chars).2.trace.any (Event.slips chars) :=
  reads_parseList.panics rfl

end

end laws

end Math
end Why2
