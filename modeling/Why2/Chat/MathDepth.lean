/-
# How deep a formula nests

The parser of formulas (`chat/src/bin/client/tui/math.rs`) counts its depth in
groups and in `\left` ... `\right`, and takes a brace for a brace once the count
is at `MAX_DEPTH`.  The arguments of `\frac` and `\sqrt` do not count: a command
that stands as an argument with no brace around it is read in the recursion of
the first, so a source of `n` roots nests `n` deep (`nesting_unbounded`).

What is not counted is the chain of arguments that stand in each other with no
brace between them.  Between two counts a call of `primary` is at most one chain
deep, so chains of at most `k` keep the recursion within `(MAX_DEPTH + 1) * (k + 1)`
and the tree within three times that (`nestedWithin_of_chains`); and the
recursion is at least as deep as the longest chain.  The nesting of a class of
sources is bounded exactly if their chains are (`nesting_bounded_iff`).
-/

import Why2.Chat.MathReads

namespace Why2
namespace Math

/-! ### Depth -/

mutual

/-- The depth of a node. -/
def Node.depth : Node → ℕ
  | .sym _ => 1
  | .list nodes => depthList nodes + 1
  | .frac num den => max num.depth den.depth + 1
  | .sqrt inner _ => inner.depth + 1
  | .delim _ _ inner => inner.depth + 1
  | .script base sup sub => max base.depth (max (depthOption sup) (depthOption sub)) + 1
  | .big _ => 1

/-- The depth of a list of nodes. -/
def depthList : List Node → ℕ
  | [] => 0
  | node :: nodes => max node.depth (depthList nodes)

/-- The depth of a script, if there is one. -/
def depthOption : Option Node → ℕ
  | none => 0
  | some node => node.depth

end

/-- The calls of `primary` in each other, and the depth of the tree, are at most `bound`. -/
def NestedWithin (bound : ℕ) (source : String) : Prop :=
  (parseList source.toList).2.deepest ≤ bound ∧ depthList (parseList source.toList).1 ≤ bound

/-- No more than `k` arguments stand in each other with no brace between them. -/
def Chains (k : ℕ) (source : String) : Prop :=
  ∀ pos chain, Event.argument pos chain ∈ (parseList source.toList).2.trace → chain ≤ k

/-- A bound on the depth, where chains are at most `k`. -/
def nestingBound (depth k : ℕ) : ℕ := 3 * ((depth + 1) * (k + 1)) + 2

/-! ### What a call adds -/

/-- The chains of a run are at most `k`. -/
def Allowed (k : ℕ) (s : Cursor) : Prop := ∀ pos chain, Event.argument pos chain ∈ s.trace → chain ≤ k

/-- The chains of a run are not deeper than its recursion. -/
def Logged (s : Cursor) : Prop := ∀ pos chain, Event.argument pos chain ∈ s.trace → chain ≤ s.deepest

/-- Every level of a call is a chain or was counted. -/
structure Frame.Counted (k : ℕ) (frame : Frame) : Prop where
  level : frame.level ≤ frame.depth * (k + 1) + frame.chain + 1
  depth : frame.depth ≤ maxDepth
  chain : frame.chain ≤ k

/-- A brace or a pair of delimiters is counted. -/
theorem Frame.Counted.inner {k : ℕ} {frame : Frame} (h : frame.Counted k) (hdepth : frame.depth < maxDepth) :
    frame.inner.Counted k where
  level := by
    have hlevel := h.level
    have hchain := h.chain
    simp only [Frame.inner, Nat.add_mul]
    omega
  depth := hdepth
  chain := Nat.zero_le _

/-- An argument is one more of its chain. -/
theorem Frame.Counted.argument {k : ℕ} {frame : Frame} (h : frame.Counted k) (hchain : frame.argument.chain ≤ k) :
    frame.argument.Counted k where
  level := by
    have hlevel := h.level
    simp only [Frame.argument]
    omega
  depth := h.depth
  chain := hchain

/-- The recursion is as deep as the counted depth and the chains allow. -/
theorem Frame.Counted.level_le {k : ℕ} {frame : Frame} (h : frame.Counted k) :
    frame.level ≤ (maxDepth + 1) * (k + 1) := by
  have hlevel := h.level
  have hchain := h.chain
  have hmul : frame.depth * (k + 1) ≤ maxDepth * (k + 1) := Nat.mul_le_mul_right _ h.depth
  rw [Nat.add_mul]
  omega

/-- What reading in a frame adds to the record of the run. -/
structure Sinks (k : ℕ) (frame : Frame) (s s' : Cursor) : Prop where
  trace : s.trace <+: s'.trace
  deepest : s.deepest ≤ s'.deepest
  bound : Allowed k s' → frame.Counted k → s'.deepest ≤ max s.deepest ((maxDepth + 1) * (k + 1))
  logged : frame.chain < frame.level → Logged s → Logged s'

variable {k : ℕ} {frame : Frame} {s s' s'' : Cursor} {chars : List Char}

/-- What is allowed later was allowed before. -/
theorem Allowed.of_prefix (h : Allowed k s') (htrace : s.trace <+: s'.trace) : Allowed k s :=
  fun pos chain hmem => h pos chain (htrace.subset hmem)

/-- Reading on, the recursion gets deeper. -/
theorem Sinks.trans (h : Sinks k frame s s') (h' : Sinks k frame s' s'') : Sinks k frame s s'' where
  trace := h.trace.trans h'.trace
  deepest := h.deepest.trans h'.deepest
  bound hallowed hcounted := by
    have h₁ := h.bound (hallowed.of_prefix h'.trace) hcounted
    have h₂ := h'.bound hallowed hcounted
    omega
  logged hlevel hs := h'.logged hlevel (h.logged hlevel hs)

/-- Reading that calls no `primary`. -/
theorem sinks_of_eq (htrace : s.trace <+: s'.trace) (hdeepest : s'.deepest = s.deepest)
    (hargument : ∀ pos chain, Event.argument pos chain ∈ s'.trace → Event.argument pos chain ∈ s.trace) :
    Sinks k frame s s' where
  trace := htrace
  deepest := hdeepest.ge
  bound _ _ := hdeepest.le.trans (le_max_left _ _)
  logged _ hs pos chain hmem := (hs pos chain (hargument pos chain hmem)).trans hdeepest.ge

/-- Where nothing is called, nothing is deeper. -/
theorem sinks_of_trace_eq (htrace : s'.trace = s.trace) (hdeepest : s'.deepest = s.deepest) :
    Sinks k frame s s' :=
  sinks_of_eq ⟨[], by rw [htrace, List.append_nil]⟩ hdeepest fun _ _ hmem => htrace ▸ hmem

/-- What is read inside a group was counted. -/
theorem Sinks.of_inner (h : Sinks k frame.inner s s') (hdepth : frame.depth < maxDepth) : Sinks k frame s s' where
  trace := h.trace
  deepest := h.deepest
  bound hallowed hcounted := h.bound hallowed (hcounted.inner hdepth)
  logged _ := h.logged (Nat.succ_pos _)

/-- What is read in an argument is in a chain that was recorded. -/
theorem Sinks.of_argument {pos : ℕ} (h : Sinks k frame.argument s s')
    (hmem : Event.argument pos frame.argument.chain ∈ s.trace) : Sinks k frame s s' where
  trace := h.trace
  deepest := h.deepest
  bound hallowed hcounted :=
    h.bound hallowed (hcounted.argument (hallowed pos _ (h.trace.subset hmem)))
  logged hlevel := h.logged (Nat.succ_lt_succ hlevel)

/-- Where nothing is read, nothing is deeper. -/
theorem Sinks.refl : Sinks k frame s s := sinks_of_trace_eq rfl rfl

/-- A call of `primary` is as deep as its frame says. -/
theorem sinks_enter : Sinks k frame s { s with deepest := max s.deepest frame.level } where
  trace := List.prefix_rfl
  deepest := le_max_left _ _
  bound _ hcounted := by
    have hlevel := hcounted.level_le
    simp only
    omega
  logged _ hs pos chain hmem := (hs pos chain hmem).trans (le_max_left _ _)

/-! ### Reading without recursion -/

/-- Other events are no arguments. -/
theorem sinks_note {event : Event} (hevent : ∀ pos chain, event ≠ .argument pos chain) :
    Sinks k frame s (s.note event) := by
  refine sinks_of_eq (List.prefix_append _ _) rfl fun pos chain hmem => ?_
  rcases List.mem_append.1 hmem with hmem | hmem
  · exact hmem
  · exact absurd (List.mem_singleton.1 hmem).symm (hevent pos chain)

/-- An argument is recorded in a frame that is as deep as its chain. -/
theorem sinks_note_argument (hlevel : frame.level ≤ s.deepest) (pos : ℕ) :
    Sinks k frame s (s.note (.argument pos frame.argument.chain)) where
  trace := List.prefix_append _ _
  deepest := le_rfl
  bound _ _ := le_max_left _ _
  logged hchain hs pos' chain hmem := by
    rcases List.mem_append.1 hmem with hmem | hmem
    · exact hs pos' chain hmem
    · obtain ⟨-, rfl⟩ := Event.argument.inj (List.mem_singleton.1 hmem)
      exact (Nat.succ_le_of_lt hchain).trans hlevel

/-- Skipping calls nothing. -/
theorem sinks_skip (n : ℕ) : Sinks k frame s (s.skip n) := sinks_of_trace_eq rfl rfl

/-- Marking calls nothing. -/
theorem sinks_mark (n : ℕ) : Sinks k frame s (s.mark n) := sinks_of_trace_eq rfl rfl

/-- `eat` calls nothing. -/
theorem sinks_eat (c : Char) : Sinks k frame s (eat chars c s) := by
  unfold eat
  split
  · exact sinks_skip 1
  · exact Sinks.refl

/-- A script that is given again is no argument. -/
theorem sinks_noteAgain (script : Option Node) : Sinks k frame s (noteAgain script s) := by
  cases script with
  | none => exact Sinks.refl
  | some script => exact sinks_note fun _ _ h => by cases h

/-- `delimiter` calls nothing. -/
theorem sinks_delimiter : Sinks k frame s (delimiter chars s).2 := by
  have hspaces : Sinks k frame s (skipSpaces chars s) := sinks_skip _
  unfold delimiter
  simp only
  split
  · exact hspaces.trans (sinks_mark _)
  split
  · exact hspaces.trans (sinks_mark 1)
  · exact hspaces

/-- `optional` calls nothing. -/
theorem sinks_optional : Sinks k frame s (optional chars s).2 := by
  unfold optional
  split
  · exact Sinks.refl
  simp only
  split
  · exact Sinks.refl
  · exact sinks_of_trace_eq rfl rfl

/-- `raw_argument` calls nothing. -/
theorem sinks_rawArgument : Sinks k frame s (rawArgument chars s).2 := by
  have hnote : Sinks k frame s (skipSpaces chars (s.note (.raw s.pos))) :=
    (sinks_note fun _ _ h => by cases h).trans (sinks_skip _)
  unfold rawArgument
  simp only
  split
  · split
    · exact hnote.trans (sinks_skip 1)
    · exact hnote
  · have hbraced := hnote.trans ((sinks_skip 1).trans (sinks_skip (braced (chars.drop
      ((skipSpaces chars (s.note (.raw s.pos))).skip 1).pos) 1).1))
    split
    · exact hbraced.trans (sinks_of_trace_eq rfl rfl)
    · exact hbraced

/-! ### Reading over a given `primary` -/

/-- **What a call reads.**  The run is then at least as deep as the call, and a node is at most
three times as deep as the run went below it, and `room` more. -/
structure Dives (k : ℕ) (frame : Frame) (room : ℕ) (read : Cursor → Node × Cursor) : Prop where
  sinks : ∀ s, Sinks k frame s (read s).2
  level : ∀ s, frame.level ≤ (read s).2.deepest
  depth : ∀ s, (read s).1.depth ≤ 3 * ((read s).2.deepest - frame.level) + room

section

variable (chars : List Char) {prim : Frame → Cursor → Node × Cursor}

/-- **A list is as deep as its atoms**, and they as the recursion. -/
theorem dives_listLoop {atom : Cursor → Node × Cursor} (hatom : Dives k frame 3 atom) (group : Bool) (n : ℕ)
    (s : Cursor) :
    Sinks k frame s (listLoop chars atom group n s).2 ∧
      depthList (listLoop chars atom group n s).1 ≤
        3 * ((listLoop chars atom group n s).2.deepest + 1 - frame.level) := by
  induction n generalizing s with
  | zero => exact ⟨sinks_of_trace_eq rfl rfl, Nat.zero_le _⟩
  | succ n ih =>
    unfold listLoop
    split
    · exact ⟨Sinks.refl, Nat.zero_le _⟩
    split
    · split
      · exact ⟨Sinks.refl, Nat.zero_le _⟩
      · obtain ⟨hrest, hdepth⟩ := ih (s.skip 1)
        exact ⟨(sinks_skip 1).trans hrest, hdepth⟩
    split
    · exact ⟨Sinks.refl, Nat.zero_le _⟩
    · obtain ⟨hrest, hdepth⟩ := ih (atom s).2
      have hfirst := hatom.depth s
      have hlevel := hatom.level s
      have hmono := hrest.deepest
      refine ⟨(hatom.sinks s).trans hrest, ?_⟩
      simp only [depthList]
      omega

/-- The scripts of an atom are read in its frame. -/
theorem dives_scriptLoop (hprim : Dives k frame 2 (prim frame)) (n : ℕ) (sup sub : Option Node) (s : Cursor)
    (hsup : depthOption sup ≤ 3 * (s.deepest - frame.level) + 2)
    (hsub : depthOption sub ≤ 3 * (s.deepest - frame.level) + 2) :
    Sinks k frame s (scriptLoop chars prim frame n sup sub s).2 ∧
      depthOption (scriptLoop chars prim frame n sup sub s).1.1 ≤
        3 * ((scriptLoop chars prim frame n sup sub s).2.deepest - frame.level) + 2 ∧
      depthOption (scriptLoop chars prim frame n sup sub s).1.2 ≤
        3 * ((scriptLoop chars prim frame n sup sub s).2.deepest - frame.level) + 2 := by
  induction n generalizing s sup sub with
  | zero => exact ⟨sinks_of_trace_eq rfl rfl, hsup, hsub⟩
  | succ n ih =>
    have hscript (old : Option Node) : Sinks k frame s (prim frame ((noteAgain old s).skip 1)).2 :=
      ((sinks_noteAgain old).trans (sinks_skip 1)).trans (hprim.sinks _)
    unfold scriptLoop
    split
    · have hread := hscript sup
      have hmono := hread.deepest
      have hnode := hprim.depth ((noteAgain sup s).skip 1)
      obtain ⟨hrest, hscripts⟩ := ih (some _) sub _ hnode (by omega)
      exact ⟨hread.trans hrest, hscripts⟩
    split
    · have hread := hscript sub
      have hmono := hread.deepest
      have hnode := hprim.depth ((noteAgain sub s).skip 1)
      obtain ⟨hrest, hscripts⟩ := ih sup (some _) _ (by omega) hnode
      exact ⟨hread.trans hrest, hscripts⟩
    · exact ⟨Sinks.refl, hsup, hsub⟩

/-- An atom is one node deeper than its base and its scripts. -/
theorem dives_atom (hprim : Dives k frame 2 (prim frame)) : Dives k frame 3 (atom chars prim frame) := by
  have hread (s : Cursor) : Sinks k frame s (atom chars prim frame s).2 ∧
      frame.level ≤ (atom chars prim frame s).2.deepest ∧
      (atom chars prim frame s).1.depth ≤ 3 * ((atom chars prim frame s).2.deepest - frame.level) + 3 := by
    have hbase := hprim.sinks s
    have hlevel := hprim.level s
    have hdepth := hprim.depth s
    obtain ⟨hscripts, hsup, hsub⟩ := dives_scriptLoop chars hprim (chars.length + 1) none none
      (prim frame s).2 (Nat.zero_le _) (Nat.zero_le _)
    have hmono := hscripts.deepest
    unfold atom
    simp only
    split
    · refine ⟨hbase.trans hscripts, hlevel.trans hmono, ?_⟩
      simp only
      omega
    · next sup sub _ heq =>
      rw [heq] at hsup hsub
      refine ⟨hbase.trans hscripts, hlevel.trans hmono, ?_⟩
      simp only [Node.depth] at hsup hsub ⊢
      omega
  exact ⟨fun s => (hread s).1, fun s => (hread s).2.1, fun s => (hread s).2.2⟩

/-- The scripts of an atom are read after it. -/
theorem le_deepest_atom (hprim : Dives k frame 2 (prim frame)) (s : Cursor) :
    (prim frame s).2.deepest ≤ (atom chars prim frame s).2.deepest := by
  have hscripts := (dives_scriptLoop chars hprim (chars.length + 1) none none
    (prim frame s).2 (Nat.zero_le _) (Nat.zero_le _)).1.deepest
  unfold atom
  simp only
  split
  · exact hscripts
  · exact hscripts

/-- A list is as deep as the recursion in it. -/
theorem dives_list (hprim : ∀ frame, Dives k frame 2 (prim frame)) (frame : Frame) (group : Bool) (s : Cursor) :
    Sinks k frame s (list chars prim frame group s).2 ∧
      depthList (list chars prim frame group s).1 ≤
        3 * ((list chars prim frame group s).2.deepest + 1 - frame.level) :=
  dives_listLoop _ (dives_atom _ (hprim frame)) group _ s

/-- An argument is read one call deeper. -/
theorem dives_argument (hprim : ∀ frame, Dives k frame 2 (prim frame)) (hlevel : frame.level ≤ s.deepest) :
    Sinks k frame s (argument chars prim frame s).2 ∧
      frame.level < (argument chars prim frame s).2.deepest ∧
      (argument chars prim frame s).1.depth < 3 * ((argument chars prim frame s).2.deepest - frame.level) := by
  set s₁ := skipSpaces chars (s.note (.argument s.pos frame.argument.chain)) with hs₁
  have hnote : Sinks k frame s s₁ := (sinks_note_argument hlevel s.pos).trans (sinks_skip _)
  have hmem : Event.argument s.pos frame.argument.chain ∈ s₁.trace :=
    List.mem_append_right _ (List.mem_singleton_self _)
  have hdeeper : frame.argument.level = frame.level + 1 := rfl
  have hcall := (hprim frame.argument).level s₁
  have hdepth := (hprim frame.argument).depth s₁
  have hread : argument chars prim frame s = prim frame.argument s₁ := rfl
  rw [hread]
  refine ⟨hnote.trans (((hprim frame.argument).sinks s₁).of_argument hmem), ?_, ?_⟩
  · omega
  · omega

/-- What `\left` opens is counted. -/
theorem dives_leftCommand (hprim : ∀ frame, Dives k frame 2 (prim frame)) (hlevel : frame.level ≤ s.deepest)
    (hdepth : frame.depth < maxDepth) :
    Sinks k frame s (leftCommand chars prim frame s).2 ∧
      (leftCommand chars prim frame s).1.depth ≤
        3 * ((leftCommand chars prim frame s).2.deepest - frame.level) + 2 := by
  have hopening : Sinks k frame s (delimiter chars s).2 := sinks_delimiter
  obtain ⟨hlist, hnodes⟩ := dives_list chars hprim frame.inner false (delimiter chars s).2
  have hread := hopening.trans (hlist.of_inner hdepth)
  have hmono := hread.deepest
  have hdeeper : frame.inner.level = frame.level + 1 := rfl
  unfold leftCommand
  simp only
  split
  · have hclosing : Sinks k frame _ (delimiter chars
        ((list chars prim frame.inner false (delimiter chars s).2).2.mark 6)).2 :=
      (sinks_mark 6).trans sinks_delimiter
    have hmono' := hclosing.deepest
    refine ⟨hread.trans hclosing, ?_⟩
    simp only [Node.depth]
    omega
  · refine ⟨hread, ?_⟩
    simp only [Node.depth]
    omega

/-- A command is as deep as its arguments. -/
theorem dives_command (hprim : ∀ frame, Dives k frame 2 (prim frame)) (hlevel : frame.level ≤ s.deepest) :
    Sinks k frame s (command chars prim frame s).2 ∧
      (command chars prim frame s).1.depth ≤
        3 * ((command chars prim frame s).2.deepest - frame.level) + 2 := by
  have hleaf {s' : Cursor} {node : Node} (hsinks : Sinks k frame s s') (hnode : node.depth = 1) :
      Sinks k frame s s' ∧ node.depth ≤ 3 * (s'.deepest - frame.level) + 2 := ⟨hsinks, by omega⟩
  unfold command
  split
  · exact hleaf (sinks_mark 1) rfl
  next name _ =>
  have hname : Sinks k frame s (s.mark (commandLength name)) := sinks_mark _
  have hraw : Sinks k frame s (rawArgument chars (s.mark (commandLength name))).2 :=
    hname.trans sinks_rawArgument
  simp only
  split
  · obtain ⟨hnum, hbelow, hdepth⟩ := dives_argument chars hprim (hlevel.trans hname.deepest)
    obtain ⟨hden, -, hdepth'⟩ := dives_argument chars hprim hbelow.le
    have hmono := hden.deepest
    refine ⟨hname.trans (hnum.trans hden), ?_⟩
    simp only [Node.depth]
    omega
  split
  · have hdegree : Sinks k frame s (optional chars (s.mark (commandLength name))).2 := hname.trans sinks_optional
    obtain ⟨hinner, -, hdepth⟩ := dives_argument chars hprim (hlevel.trans hdegree.deepest)
    refine ⟨hdegree.trans hinner, ?_⟩
    simp only [Node.depth]
    omega
  split
  · exact hleaf hraw rfl
  split
  · exact hleaf hraw rfl
  split
  · exact hleaf hraw rfl
  split
  · next hleft =>
    obtain ⟨hread, hdepth⟩ := dives_leftCommand chars hprim (hlevel.trans hname.deepest) hleft.2
    exact ⟨hname.trans hread, hdepth⟩
  split
  · exact hleaf hname rfl
  split
  · exact hleaf hname rfl
  · exact hleaf hname rfl

/-- `primary` is as deep as the calls in it. -/
theorem dives_primaryBody (hprim : ∀ frame, Dives k frame 2 (prim frame)) (hlevel : frame.level ≤ s.deepest) :
    Sinks k frame s (primaryBody chars prim frame s).2 ∧
      (primaryBody chars prim frame s).1.depth ≤
        3 * ((primaryBody chars prim frame s).2.deepest - frame.level) + 2 := by
  unfold primaryBody
  split
  · exact ⟨Sinks.refl, by simp only [Node.depth]; omega⟩
  split
  · next hgroup =>
    obtain ⟨hlist, hnodes⟩ := dives_list chars hprim frame.inner true (s.skip 1)
    have hread : Sinks k frame s (eat chars '}' (list chars prim frame.inner true (s.skip 1)).2) :=
      (sinks_skip 1).trans ((hlist.of_inner hgroup.2).trans (sinks_eat _))
    have heat : Sinks k frame _ (eat chars '}' (list chars prim frame.inner true (s.skip 1)).2) := sinks_eat _
    have hmono := hread.deepest
    have hmono' := heat.deepest
    have hdeeper : frame.inner.level = frame.level + 1 := rfl
    refine ⟨hread, ?_⟩
    simp only [Node.depth]
    omega
  split
  · exact dives_command _ hprim hlevel
  split
  · exact ⟨Sinks.refl, by simp only [Node.depth]; omega⟩
  · exact ⟨sinks_skip 1, by simp only [Node.depth]; omega⟩

end

/-- By induction on the bound, so is every call of it. -/
theorem dives_primary (n : ℕ) (frame : Frame) : Dives k frame 2 (primary chars n frame) := by
  induction n generalizing frame with
  | zero =>
    refine ⟨fun s => sinks_enter.trans (sinks_of_trace_eq rfl rfl), fun s => le_max_right _ _, fun s => ?_⟩
    simp only [primary, Node.depth]
    omega
  | succ n ih =>
    have hbody (s : Cursor) := dives_primaryBody chars ih
      (le_max_right s.deepest frame.level : frame.level ≤ { s with deepest := max s.deepest frame.level }.deepest)
    refine ⟨fun s => sinks_enter.trans (hbody s).1, fun s => ?_, fun s => (hbody s).2⟩
    exact (le_max_right s.deepest frame.level).trans (hbody s).1.deepest

/-! ### The parse -/

/-- So is the list that `parse` reads. -/
theorem dives_parseList : Sinks k ⟨1, 0, 0⟩ .start (parseList chars).2 ∧
    depthList (parseList chars).1 ≤ 3 * ((parseList chars).2.deepest + 1 - 1) :=
  dives_list _ (dives_primary _) ⟨1, 0, 0⟩ false .start

/-- Where chains are at most `k`, so is the nesting bounded. -/
theorem nestedWithin_of_chains {source : String} (h : Chains k source) :
    NestedWithin (nestingBound maxDepth k) source := by
  have hread : Sinks k ⟨1, 0, 0⟩ .start (parseList source.toList).2 := dives_parseList.1
  have hdepth : depthList (parseList source.toList).1 ≤ 3 * ((parseList source.toList).2.deepest + 1 - 1) :=
    (dives_parseList (k := k)).2
  have hcounted : (⟨1, 0, 0⟩ : Frame).Counted k := ⟨Nat.le_add_left _ _, Nat.zero_le _, Nat.zero_le _⟩
  have hdeepest := hread.bound h hcounted
  rw [show Cursor.start.deepest = 0 from rfl, Nat.zero_max] at hdeepest
  unfold NestedWithin nestingBound
  omega

/-- The recursion is as deep as the longest chain. -/
theorem chains_of_nestedWithin {bound : ℕ} {source : String} (h : NestedWithin bound source) :
    Chains bound source := by
  have hread : Sinks 0 ⟨1, 0, 0⟩ .start (parseList source.toList).2 := dives_parseList.1
  have hlogged := hread.logged Nat.one_pos fun _ _ hmem => (List.not_mem_nil hmem).elim
  exact fun pos chain hmem => (hlogged pos chain hmem).trans h.1

/-- **Nesting is bounded exactly if chains are.**  For every number `k` and every source: if no
more than `k` arguments stand in each other with no brace between them, the formula and the
recursion of the parser are nested within `nestingBound maxDepth k`; and a source that is nested
within `k` has no longer chain than `k`.  So one bound holds of a whole class of sources if and
only if one number bounds their chains. -/
theorem nesting_bounded_iff (k : ℕ) (source : String) (S : String → Prop) :
    (Chains k source → NestedWithin (nestingBound maxDepth k) source) ∧
      (NestedWithin k source → Chains k source) ∧
      ((∃ bound, ∀ source, S source → NestedWithin bound source) ↔ ∃ k, ∀ source, S source → Chains k source) := by
  refine ⟨nestedWithin_of_chains, chains_of_nestedWithin, ?_, ?_⟩
  · rintro ⟨bound, hbound⟩
    exact ⟨bound, fun source hS => chains_of_nestedWithin (hbound source hS)⟩
  · rintro ⟨k, hk⟩
    exact ⟨nestingBound maxDepth k, fun source hS => nestedWithin_of_chains (hk source hS)⟩

/-! ### A chain of roots -/

/-- `\sqrt`, so many times. -/
def roots : ℕ → List Char
  | 0 => []
  | n + 1 => '\\' :: 's' :: 'q' :: 'r' :: 't' :: roots n

/-- A root begins with a backslash. -/
theorem takeWhile_roots {P : Char → Bool} (h : P '\\' = false) (m : ℕ) : (roots m).takeWhile P = [] := by
  cases m with
  | zero => rfl
  | succ m => rw [roots, List.takeWhile_cons, h]; rfl

/-- Behind the first root stand the others. -/
theorem drop_of_roots {pos m : ℕ} (h : chars.drop pos = roots (m + 1)) : chars.drop (pos + 5) = roots m := by
  rw [← List.drop_drop, h]
  rfl

/-- The first root is read as the command. -/
theorem commandHere_of_roots {pos m : ℕ} (h : chars.drop pos = roots (m + 1)) :
    chars[pos]? = some '\\' ∧ commandHere chars pos = some "sqrt" := by
  have hget : chars[pos]? = some '\\' := by
    rw [← Nat.add_zero pos, ← List.getElem?_drop, h]
    rfl
  have hnext : chars.drop (pos + 1) = ['s', 'q', 'r', 't'] ++ roots m := by
    rw [← List.drop_drop, h]
    rfl
  have hname : (chars.drop (pos + 1)).takeWhile Char.isAlpha = ['s', 'q', 'r', 't'] := by
    rw [hnext, List.takeWhile_append_of_pos (List.all_eq_true.1 rfl), takeWhile_roots (by decide), List.append_nil]
  refine ⟨hget, ?_⟩
  rw [commandHere, if_neg (not_not.2 hget), hname]
  rfl

/-- Every root is read in the one before it. -/
theorem roots_deep {m n : ℕ} (h : chars.drop s.pos = roots m) (hn : m < n) :
    frame.level + m ≤ (primary chars n frame s).2.deepest := by
  induction m generalizing n frame s with
  | zero => exact (dives_primary (k := 0) n frame).level s
  | succ m ih =>
    obtain ⟨n, rfl⟩ : ∃ n', n = n' + 1 := ⟨n - 1, by omega⟩
    obtain ⟨hget, hcommand⟩ := commandHere_of_roots h
    have hrest : chars.drop (s.pos + 5) = roots m := drop_of_roots h
    have hbracket : chars[s.pos + 5]? ≠ some '[' := by
      rw [← Nat.add_zero (s.pos + 5), ← List.getElem?_drop, hrest]
      cases m <;> simp [roots]
    set s₁ : Cursor := { s with deepest := max s.deepest frame.level }.mark 5 with hs₁
    have hoptional : optional chars s₁ = (none, s₁) := if_pos hbracket
    have hspaces (s' : Cursor) (hpos : s'.pos = s.pos + 5) : skipSpaces chars s' = s' := by
      rw [skipSpaces, hpos, hrest, takeWhile_roots (by decide)]
      rfl
    have hread : (primary chars (n + 1) frame s).2 =
        (primary chars n frame.argument (s₁.note (.argument s₁.pos frame.argument.chain))).2 := by
      rw [primary, primaryBody, hget]
      simp only [Char.reduceEq, false_and, if_false, if_true, command, hcommand]
      rw [if_neg (by decide)]
      simp only [argument]
      rw [show (commandLength "sqrt") = 5 from rfl, ← hs₁, hoptional, hspaces _ rfl]
    have hdeep : frame.argument.level + m ≤
        (primary chars n frame.argument (s₁.note (.argument s₁.pos frame.argument.chain))).2.deepest :=
      ih hrest (Nat.lt_of_succ_lt_succ hn)
    have hdeeper : frame.argument.level = frame.level + 1 := rfl
    rw [hread]
    omega

/-- A root has five characters. -/
theorem length_roots (n : ℕ) : (roots n).length = 5 * n := by
  induction n with
  | zero => rfl
  | succ n ih =>
    simp only [roots, List.length_cons, ih]
    omega

/-- **Every root but the first is read in the one before.** -/
theorem le_deepest_roots (n : ℕ) : n < (parseList (roots (n + 1))).2.deepest := by
  set chars := roots (n + 1) with hchars
  have hall : chars.drop Cursor.start.pos = roots (n + 1) := List.drop_zero
  have hlength : chars.length = 5 * (n + 1) := length_roots (n + 1)
  obtain ⟨hget, hcommand⟩ := commandHere_of_roots hall
  have hprim : Dives 0 ⟨1, 0, 0⟩ 2 (primary chars (chars.length + 1) ⟨1, 0, 0⟩) := dives_primary _ _
  have hbase : (⟨1, 0, 0⟩ : Frame).level + (n + 1) ≤
      (primary chars (chars.length + 1) ⟨1, 0, 0⟩ .start).2.deepest := roots_deep hall (by omega)
  have hatom := le_deepest_atom chars hprim .start
  have hrest := (dives_listLoop chars (dives_atom chars hprim) false chars.length
    (atom chars (primary chars (chars.length + 1)) ⟨1, 0, 0⟩ .start).2).1.deepest
  have hlist : (parseList chars).2 = (listLoop chars (atom chars (primary chars (chars.length + 1)) ⟨1, 0, 0⟩) false
      chars.length (atom chars (primary chars (chars.length + 1)) ⟨1, 0, 0⟩ .start).2).2 := by
    rw [parseList, list, listLoop, hget]
    simp only [Char.reduceEq, if_false]
    rw [if_neg (by rw [hcommand]; decide)]
  rw [hlist]
  omega

/-- **A source of roots nests as deep as it is long**, whatever function of `MAX_DEPTH` is tried. -/
theorem nesting_unbounded : ¬∃ f : ℕ → ℕ, ∀ source, NestedWithin (f maxDepth) source := by
  rintro ⟨f, hf⟩
  have hwithin := (hf (String.ofList (roots (f maxDepth + 1)))).1
  rw [String.toList_ofList] at hwithin
  exact absurd (le_deepest_roots (f maxDepth)) (not_lt.2 hwithin)

end Math
end Why2
