/-
# A formula and its source

`math::parse` (`chat/src/bin/client/tui/math.rs`) is meant to set whatever it is
given: an unknown command costs its backslash, a brace that is not closed is
closed by the end.  It does not always keep the source.  A `\right` that no
`\left` opened ends the list that `parse` reads, and with it the parse
(`parse_loses_rest`); a raw argument that is not closed loses its last character;
a script that is given again replaces the first.  The source is kept exactly if
none of this happens to a character that shows (`keeps_iff`).
-/

import Why2.Chat.MathReads

namespace Why2
namespace Math

variable {chars : List Char}

/-! ### The list that `parse` reads -/

section

variable (chars : List Char) (atom : Cursor → Node × Cursor)

/-- One turn of the loop of `list`, outside a group; at the end of the source and at `\right`
there is none. -/
def turn (s : Cursor) : Cursor :=
  match chars[s.pos]? with
  | none => s
  | some c => if c = '}' then s.skip 1 else if commandHere chars s.pos = some "right" then s else (atom s).2

end

/-- The loop ends where its turns do. -/
theorem listLoop_pos (atom : Cursor → Node × Cursor) (n : ℕ) (s : Cursor) :
    (listLoop chars atom false n s).2.pos = ((turn chars atom)^[n] s).pos := by
  induction n generalizing s with
  | zero => rfl
  | succ n ih =>
    have hfix (hstop : turn chars atom s = s) : ((turn chars atom)^[n + 1] s).pos = s.pos := by
      rw [Function.iterate_fixed hstop]
    unfold listLoop
    split
    · next hnone => exact (hfix (by simp only [turn, hnone])).symm
    · next c hc =>
      split
      · next hclose =>
        rw [if_neg Bool.false_ne_true, ih, Function.iterate_succ_apply]
        simp only [turn, hc, hclose, if_true]
      split
      · next hclose hright => exact (hfix (by simp only [turn, hc, hclose, hright, if_true, if_false])).symm
      · next hclose hright =>
        rw [Function.iterate_succ_apply]
        simp only [turn, hc, hclose, hright, if_false]
        exact ih _

/-- A loop that does not reach its bound ends at the end of the source or at `\right`. -/
theorem listLoop_stops {atom : Cursor → Node × Cursor} {n : ℕ} {s : Cursor}
    (h : (listLoop chars atom false n s).2.exhausted = false) :
    chars[(listLoop chars atom false n s).2.pos]? = none ∨
      commandHere chars (listLoop chars atom false n s).2.pos = some "right" := by
  induction n generalizing s with
  | zero => cases h
  | succ n ih =>
    unfold listLoop at h ⊢
    split
    · next hnone => exact .inl hnone
    · next c hc =>
      rw [hc] at h
      simp only [Bool.false_eq_true, if_false] at h ⊢
      split
      · next hclose =>
        rw [if_pos hclose] at h
        exact ih h
      · next hclose =>
        rw [if_neg hclose] at h
        split
        · next hright => exact .inr hright
        · next hright =>
          rw [if_neg hright] at h
          exact ih h

/-- The cursor of `parse` before the `n`-th turn of its list. -/
def turns (chars : List Char) (n : ℕ) : Cursor :=
  (turn chars (atom chars (primary chars (chars.length + 1)) ⟨1, 0, 0⟩))^[n] .start

/-- A command is in the source. -/
theorem lt_of_commandHere {pos : ℕ} {name : String} (h : commandHere chars pos = some name) :
    pos < chars.length := by
  have := commandLength_le h
  have : 1 ≤ commandLength name := Nat.le_add_right _ _
  omega

/-- The parse gets to the end of the source exactly if its list never finds `\right`. -/
theorem parseList_pos_iff :
    (parseList chars).2.pos = chars.length ↔ ∀ n, commandHere chars (turns chars n).pos ≠ some "right" := by
  have hpos : (parseList chars).2.pos = (turns chars (chars.length + 1)).pos := listLoop_pos _ _ _
  have hfix {n m : ℕ} (hnm : n ≤ m)
      (hstop : chars[(turns chars n).pos]? = none ∨ commandHere chars (turns chars n).pos = some "right") :
      (turns chars m).pos = (turns chars n).pos := by
    obtain ⟨k, rfl⟩ := Nat.exists_eq_add_of_le' hnm
    have hstay : turn chars (atom chars (primary chars (chars.length + 1)) ⟨1, 0, 0⟩) (turns chars n) =
        turns chars n := by
      unfold turn
      split
      · rfl
      · next c hc =>
        rcases hstop with hnone | hright
        · rw [hnone] at hc
          cases hc
        · rw [if_neg, if_pos hright]
          rintro rfl
          rw [commandHere, hc] at hright
          cases hright
    rw [turns, Function.iterate_add_apply]
    exact congrArg Cursor.pos (Function.iterate_fixed hstay k)
  constructor
  · intro hend n hright
    rcases Nat.le_total n (chars.length + 1) with hn | hn
    · have heq := hfix hn (.inr hright)
      have := lt_of_commandHere hright
      omega
    · have hnone : chars[(turns chars (chars.length + 1)).pos]? = none :=
        List.getElem?_eq_none (by omega)
      have heq := hfix hn (.inl hnone)
      have := lt_of_commandHere hright
      omega
  · intro hnever
    have hbound : (parseList chars).2.pos ≤ chars.length := reads_parseList.bound (Nat.zero_le _)
    have hreturns : (parseList chars).2.exhausted = false := parse_returns
    rcases listLoop_stops hreturns with hnone | hright
    · have hge : chars.length ≤ (parseList chars).2.pos := List.getElem?_eq_none_iff.1 hnone
      omega
    · exact absurd (hpos ▸ hright) (hnever _)

/-! ### What is marked -/

/-- The place right behind a command of the source. -/
def Behind (chars : List Char) (name : String) (pos : ℕ) : Prop :=
  ∃ q, commandHere chars q = some name ∧ pos = q + commandLength name

/-- What a marked place is. -/
inductive Marked (chars : List Char) (p : ℕ) : Prop
  /-- The backslash or a character of the name of a command. -/
  | command (q : ℕ) (name : String) (hname : commandHere chars q = some name) (hle : q ≤ p)
      (hlt : p < q + commandLength name)
  /-- A backslash that ends the source. -/
  | backslash (hback : chars[p]? = some '\\') (hlast : p + 1 = chars.length)
  /-- The character behind `\left` or `\right` and the spaces there. -/
  | delimiter (name : String) (pos : ℕ) (hside : name = "left" ∨ name = "right") (hpos : Behind chars name pos)
      (hp : p = pos + ((chars.drop pos).takeWhile (· = ' ')).length)
  /-- The brackets of the degree behind `\sqrt`. -/
  | bracket (start stop : ℕ) (hstart : Behind chars "sqrt" start) (hopen : chars[start]? = some '[')
      (hclose : chars[stop]? = some ']') (hp : p = start ∨ p = stop)

/-- From one cursor to the other, nothing else is marked. -/
def Marking (chars : List Char) (s s' : Cursor) : Prop := ∀ p ∈ s'.marks, p ∈ s.marks ∨ Marked chars p

/-- Marking goes on. -/
theorem Marking.trans {s s' s'' : Cursor} (h : Marking chars s s') (h' : Marking chars s' s'') :
    Marking chars s s'' := by
  intro p hp
  rcases h' p hp with hp | hmarked
  · exact h p hp
  · exact .inr hmarked

/-- Where the marks stay, nothing is marked. -/
theorem marking_of_eq {s s' : Cursor} (h : s'.marks = s.marks) : Marking chars s s' := fun _ hp => .inl (h ▸ hp)

/-- What is marked is as the characters are. -/
theorem marking_mark {s : Cursor} {n : ℕ} (h : ∀ p, s.pos ≤ p → p < s.pos + n → Marked chars p) :
    Marking chars s (s.mark n) := by
  intro p hp
  rcases List.mem_append.1 hp with hp | hp
  · exact .inl hp
  · obtain ⟨hle, hlt⟩ := List.mem_range'_1.1 hp
    exact .inr (h p hle hlt)

/-- A command marks its name. -/
theorem marking_name {s : Cursor} {name : String} (h : commandHere chars s.pos = some name) :
    Marking chars s (s.mark (commandLength name)) :=
  marking_mark fun _ hle hlt => .command s.pos name h hle hlt

/-- A delimiter behind `\left` or `\right` marks one character, or the name of a command. -/
theorem marking_delimiter {s : Cursor} {name : String} (hside : name = "left" ∨ name = "right")
    (hpos : Behind chars name s.pos) : Marking chars s (delimiter chars s).2 := by
  have hspaces : Marking chars s (skipSpaces chars s) := marking_of_eq rfl
  unfold delimiter
  dsimp only
  split
  · next hname => exact hspaces.trans (marking_name hname)
  · split
    · refine hspaces.trans (marking_mark fun p hle hlt => .delimiter name s.pos hside hpos ?_)
      have hskip : (skipSpaces chars s).pos = s.pos + ((chars.drop s.pos).takeWhile (· = ' ')).length := rfl
      omega
    · exact hspaces

/-- A degree marks its brackets. -/
theorem marking_optional {s : Cursor} (hpos : Behind chars "sqrt" s.pos) : Marking chars s (optional chars s).2 := by
  unfold optional
  split
  · exact marking_of_eq rfl
  · next hopen =>
    dsimp only
    split
    · exact marking_of_eq rfl
    · next stop hstop =>
      have hclose : chars[stop]? = some ']' := by simpa using List.find?_some hstop
      intro p hp
      rcases List.mem_append.1 hp with hp | hp
      · exact .inl hp
      · exact .inr (.bracket s.pos stop hpos (not_not.1 hopen) hclose (by simpa using hp))

/-- A raw argument marks nothing. -/
theorem marking_rawArgument (s : Cursor) : Marking chars s (rawArgument chars s).2 := by
  refine marking_of_eq ?_
  unfold rawArgument
  dsimp only
  split
  · split <;> rfl
  · split <;> rfl

section

variable {prim : Frame → Cursor → Node × Cursor}

/-- A list marks what its atoms mark. -/
theorem marking_listLoop {atom : Cursor → Node × Cursor} (hatom : ∀ s, Marking chars s (atom s).2) (group : Bool)
    (n : ℕ) (s : Cursor) : Marking chars s (listLoop chars atom group n s).2 := by
  induction n generalizing s with
  | zero => exact marking_of_eq rfl
  | succ n ih =>
    unfold listLoop
    split
    · exact marking_of_eq rfl
    split
    · split
      · exact marking_of_eq rfl
      · have hskip : Marking chars s (s.skip 1) := marking_of_eq rfl
        exact hskip.trans (ih _)
    split
    · exact marking_of_eq rfl
    · exact (hatom s).trans (ih _)

/-- Scripts mark what they read. -/
theorem marking_scriptLoop {frame : Frame} (hprim : ∀ s, Marking chars s (prim frame s).2) (n : ℕ)
    (sup sub : Option Node) (s : Cursor) : Marking chars s (scriptLoop chars prim frame n sup sub s).2 := by
  induction n generalizing sup sub s with
  | zero => exact marking_of_eq rfl
  | succ n ih =>
    have hscript (old : Option Node) : Marking chars s (prim frame ((noteAgain old s).skip 1)).2 := by
      have hskip : Marking chars s ((noteAgain old s).skip 1) := marking_of_eq (by cases old <;> rfl)
      exact hskip.trans (hprim _)
    unfold scriptLoop
    split
    · exact (hscript sup).trans (ih _ _ _)
    split
    · exact (hscript sub).trans (ih _ _ _)
    · exact marking_of_eq rfl

/-- An atom marks what its base and its scripts mark. -/
theorem marking_atom {frame : Frame} (hprim : ∀ s, Marking chars s (prim frame s).2) (s : Cursor) :
    Marking chars s (atom chars prim frame s).2 := by
  have hscripts := (hprim s).trans (marking_scriptLoop hprim (chars.length + 1) none none (prim frame s).2)
  unfold atom
  dsimp only
  split <;> exact hscripts

/-- So does `list`. -/
theorem marking_list (hprim : ∀ frame s, Marking chars s (prim frame s).2) (frame : Frame) (group : Bool)
    (s : Cursor) : Marking chars s (list chars prim frame group s).2 :=
  marking_listLoop (marking_atom (hprim frame)) group _ s

/-- An argument marks what it reads. -/
theorem marking_argument (hprim : ∀ frame s, Marking chars s (prim frame s).2) (frame : Frame) (s : Cursor) :
    Marking chars s (argument chars prim frame s).2 := by
  have hspaces : Marking chars s (skipSpaces chars (s.note (.argument s.pos frame.argument.chain))) :=
    marking_of_eq rfl
  exact hspaces.trans (hprim _ _)

/-- `\left` marks its delimiters, `\right`, and what is between them. -/
theorem marking_leftCommand (hprim : ∀ frame s, Marking chars s (prim frame s).2) (frame : Frame) {s : Cursor}
    (hpos : Behind chars "left" s.pos) : Marking chars s (leftCommand chars prim frame s).2 := by
  have hinner := (marking_delimiter (.inl rfl) hpos).trans (marking_list hprim frame.inner false _)
  unfold leftCommand
  dsimp only
  split
  · next hright =>
    have hname : Marking chars _ _ := marking_name hright
    exact (hinner.trans hname).trans (marking_delimiter (.inr rfl) ⟨_, hright, rfl⟩)
  · exact hinner

/-- **A command marks its name** and what its arguments mark, or a backslash at the end. -/
theorem marking_command (hprim : ∀ frame s, Marking chars s (prim frame s).2) (frame : Frame) {s : Cursor}
    (hback : chars[s.pos]? = some '\\') : Marking chars s (command chars prim frame s).2 := by
  unfold command
  split
  · next hnone =>
    -- no character is behind the backslash
    refine marking_mark fun p hle hlt => ?_
    obtain rfl : p = s.pos := by omega
    refine .backslash hback ?_
    have hin := (List.getElem?_eq_some_iff.1 hback).1
    rw [commandHere, if_neg (not_not.2 hback)] at hnone
    dsimp only at hnone
    split at hnone
    · have hend := List.getElem?_eq_none_iff.1 (Option.map_eq_none_iff.1 hnone)
      omega
    · cases hnone
  · next name hname =>
    have hmark := marking_name hname
    dsimp only
    split
    · exact hmark.trans ((marking_argument hprim frame _).trans (marking_argument hprim frame _))
    split
    · next hsqrt =>
      have hdegree : Marking chars (s.mark (commandLength name)) _ :=
        marking_optional ⟨s.pos, hsqrt ▸ hname, hsqrt ▸ rfl⟩
      exact hmark.trans (hdegree.trans (marking_argument hprim frame _))
    split
    · exact hmark.trans (marking_rawArgument _)
    split
    · exact hmark.trans (marking_rawArgument _)
    split
    · exact hmark.trans (marking_rawArgument _)
    split
    · next hleft => exact hmark.trans (marking_leftCommand hprim frame ⟨s.pos, hleft.1 ▸ hname, hleft.1 ▸ rfl⟩)
    split
    · exact hmark
    split
    · exact hmark
    · exact hmark

/-- `primary` marks what the calls in it mark. -/
theorem marking_primaryBody (hprim : ∀ frame s, Marking chars s (prim frame s).2) (frame : Frame) (s : Cursor) :
    Marking chars s (primaryBody chars prim frame s).2 := by
  unfold primaryBody
  split
  · exact marking_of_eq rfl
  · next c hc =>
    split
    · have hskip : Marking chars s (s.skip 1) := marking_of_eq rfl
      have hinner := hskip.trans (marking_list hprim frame.inner true (s.skip 1))
      have heat (t : Cursor) : (eat chars '}' t).marks = t.marks := by
        unfold eat
        split <;> rfl
      exact hinner.trans (marking_of_eq (heat _))
    split
    · next hback => exact marking_command hprim frame (hback ▸ hc)
    split
    · exact marking_of_eq rfl
    · exact marking_of_eq rfl

end

/-- By induction on the bound, so does every call of it. -/
theorem marking_primary (n : ℕ) (frame : Frame) (s : Cursor) : Marking chars s (primary chars n frame s).2 := by
  induction n generalizing frame s with
  | zero => exact marking_of_eq rfl
  | succ n ih =>
    have hdeepest : Marking chars s { s with deepest := max s.deepest frame.level } := marking_of_eq rfl
    exact hdeepest.trans (marking_primaryBody ih frame _)

/-- **Nothing but commands, delimiters and brackets is marked** in the parse of a source. -/
theorem marked_parseList {p : ℕ} (hp : p ∈ (parseList chars).2.marks) : Marked chars p := by
  rcases marking_list (marking_primary _) ⟨1, 0, 0⟩ false .start p hp with hstart | hmarked
  · exact absurd hstart List.not_mem_nil
  · exact hmarked

/-! ### What is lost -/

/-- The parse keeps its source: it returns nodes, its cursor is at the end, and every character
that is not a brace, a script mark or a space, and was not read as part of a command, as a
delimiter or as a bracket of an optional argument, is shown in some node. -/
def Keeps (source : String) : Prop :=
  ∃ nodes, parse source = .ok nodes ∧ (parseList source.toList).2.pos = source.toList.length ∧
    (∀ p ∈ (parseList source.toList).2.marks, Marked source.toList p) ∧
    ∀ p c, source.toList[p]? = some c → isBlank c = false → p ∉ (parseList source.toList).2.marks →
      ∃ g ∈ glyphsList nodes, g.origin = some p ∧ Shows c g.char

/-- An event loses nothing that shows: a raw argument does not have its brace at the end of the
source, and is closed or ends with a blank; a script that is given again had only blanks. -/
def Event.Harmless (chars : List Char) : Event → Prop
  | .raw pos => (Event.raw pos).slips chars = false ∧
      (Unclosed chars pos → ∀ c ∈ chars.getLast?, isBlank c = true)
  | .again script => ∀ g ∈ script.glyphs, ∀ p c, g.origin = some p → chars[p]? = some c → isBlank c = true
  | .argument _ _ => True

/-- An event is harmless exactly if it neither panics nor loses what shows. -/
theorem Event.harmless_iff (event : Event) :
    event.Harmless chars ↔
      event.slips chars = false ∧ ∀ p c, chars[p]? = some c → isBlank c = false → event.lost chars p = 0 := by
  cases event with
  | argument => simp [Event.Harmless, Event.slips, Event.lost]
  | again script =>
    simp only [Event.Harmless, Event.slips, Event.lost, true_and]
    constructor
    · intro h p c hc hblank
      refine List.countP_eq_zero.2 fun g hg hp => ?_
      rw [h g hg p c (by simpa using hp) hc] at hblank
      cases hblank
    · intro h g hg p c hp hc
      by_contra hblank
      have hzero := h p c hc (Bool.eq_false_iff.2 hblank)
      exact List.countP_eq_zero.1 hzero g hg (by simpa using hp)
  | raw pos =>
    simp only [Event.Harmless]
    refine and_congr_right fun _ => ⟨fun h p c hc hblank => if_neg ?_, fun h hopen c hc => ?_⟩
    · rintro ⟨hopen, hp⟩
      have hlast : c ∈ chars.getLast? := by
        rw [List.getLast?_eq_getElem?, ← hp, Nat.add_sub_cancel, hc]
        rfl
      rw [h hopen c hlast] at hblank
      cases hblank
    · by_contra hblank
      rw [List.getLast?_eq_getElem?] at hc
      have hlt : chars.length - 1 < chars.length := (List.getElem?_eq_some_iff.1 hc).1
      have hzero := h (chars.length - 1) c hc (Bool.eq_false_iff.2 hblank)
      rw [Event.lost, if_pos ⟨hopen, by omega⟩] at hzero
      cases hzero

/-- A place is lost exactly if an event loses it. -/
theorem lost_eq_zero_iff (s : Cursor) (p : ℕ) :
    s.lost chars p = 0 ↔ ∀ event ∈ s.trace, event.lost chars p = 0 := by
  rw [Cursor.lost, List.sum_eq_zero_iff_forall_eq_nat]
  simp

/-- A place that was read into the characters is shown there. -/
theorem exists_of_kept {text : List Glyph} {p : ℕ} (h : 0 < kept text p) : ∃ g ∈ text, g.origin = some p := by
  obtain ⟨g, hg, hp⟩ := List.countP_pos_iff.1 h
  exact ⟨g, hg, by simpa using hp⟩

/-- Of a source that was read to its end, what shows is shown exactly if it was not lost. -/
theorem shown_iff (hend : (parseList chars).2.pos = chars.length) :
    (∀ p c, chars[p]? = some c → isBlank c = false → p ∉ (parseList chars).2.marks →
      ∃ g ∈ glyphsList (parseList chars).1, g.origin = some p ∧ Shows c g.char) ↔
    ∀ p c, chars[p]? = some c → isBlank c = false → (parseList chars).2.lost chars p = 0 := by
  have hreads : Reads chars .start _ _ := reads_parseList
  have haccount {p : ℕ} {c : Char} (hc : chars[p]? = some c) (hblank : isBlank c = false) :
      1 = kept (glyphsList (parseList chars).1) p + (parseList chars).2.marks.count p +
        (parseList chars).2.lost chars p := by
    have hlt : p < chars.length := (List.getElem?_eq_some_iff.1 hc).1
    have hpassed : passed .start (parseList chars).2 p = 1 := if_pos ⟨Nat.zero_le _, by omega⟩
    have := hreads.account p c hc hblank
    rw [hpassed] at this
    exact this
  constructor
  · intro hshown p c hc hblank
    have hone := haccount hc hblank
    by_cases hmark : p ∈ (parseList chars).2.marks
    · have := List.count_pos_iff.2 hmark
      omega
    · obtain ⟨g, hg, hp, -⟩ := hshown p c hc hblank hmark
      have : 0 < kept (glyphsList (parseList chars).1) p := List.countP_pos_iff.2 ⟨g, hg, by simpa using hp⟩
      omega
  · intro hlost p c hc hblank hmark
    have hone := haccount hc hblank
    rw [hlost p c hc hblank, List.count_eq_zero_of_not_mem hmark] at hone
    obtain ⟨g, hg, hp⟩ := exists_of_kept (by omega : 0 < kept (glyphsList (parseList chars).1) p)
    obtain ⟨d, hd, hshows⟩ := hreads.shows g hg p hp
    rw [hc, Option.some.injEq] at hd
    exact ⟨g, hg, hp, hd ▸ hshows⟩

/-- **The source is kept exactly if nothing in it is lost**: the list that `parse` reads never
finds a `\right`, every raw argument is closed or ends with a blank (and does not end with its
own brace), and no script that holds more than blanks is given again. -/
theorem keeps_iff (source : String) :
    Keeps source ↔ (∀ n, commandHere source.toList (turns source.toList n).pos ≠ some "right") ∧
      ∀ event ∈ (parseList source.toList).2.trace, event.Harmless source.toList := by
  have hpanicked : (parseList source.toList).2.panicked = false ↔
      ∀ event ∈ (parseList source.toList).2.trace, event.slips source.toList = false := by
    rw [parseList_panicked, List.any_eq_false]
    simp
  have hparse (nodes : List Node) : parse source = .ok nodes ↔
      (parseList source.toList).2.panicked = false ∧ (parseList source.toList).1 = nodes := by
    have hreturns : (parseList source.toList).2.exhausted = false := parse_returns
    rw [parse]
    simp only [hreturns, Bool.false_eq_true, if_false]
    cases (parseList source.toList).2.panicked <;> simp
  have hlost : (∀ p c, source.toList[p]? = some c → isBlank c = false →
      (parseList source.toList).2.lost source.toList p = 0) ↔
      ∀ event ∈ (parseList source.toList).2.trace, ∀ p c, source.toList[p]? = some c → isBlank c = false →
        event.lost source.toList p = 0 := by
    simp only [lost_eq_zero_iff]
    exact ⟨fun h event he p c hc hb => h p c hc hb event he, fun h p c hc hb event he => h event he p c hc hb⟩
  simp only [Event.harmless_iff, forall_and, ← hpanicked, ← hlost, ← parseList_pos_iff]
  constructor
  · rintro ⟨nodes, hok, hend, -, hshown⟩
    obtain ⟨hnot, rfl⟩ := (hparse nodes).1 hok
    exact ⟨hend, hnot, (shown_iff hend).1 hshown⟩
  · rintro ⟨hend, hnot, hnone⟩
    exact ⟨_, (hparse _).2 ⟨hnot, rfl⟩, hend, fun _ => marked_parseList, (shown_iff hend).2 hnone⟩

/-- **A stray `\right` loses the rest of the source.** -/
theorem parse_loses_rest : ¬∀ source, Keeps source := by
  intro h
  obtain ⟨-, -, hend, -⟩ := h "a\\right b"
  exact absurd hend (by decide +kernel)

/-- So does a script that is given again lose the first, and an argument that is not closed its
last character. -/
example : (glyphsList (parseList "x^a^b".toList).1).map (·.char) = ['x', 'b'] ∧
    (glyphsList (parseList "\\text\x7bab".toList).1).map (·.char) = ['a'] := by decide +kernel

end Math
end Why2
