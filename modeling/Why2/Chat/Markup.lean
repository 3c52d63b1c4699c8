/-
# Message markup

`markup::parse` and what it calls (`chat/src/bin/client/tui/markup.rs`): one pass
over a message that splits it into text, code, math, links and the places where
emphasis opens and closes.  Emphasis opens once its close has been found further
on; the close is recorded with the open run, and a run closes when the pass
lands on that place with the run innermost.

Nothing keeps the pass on the places the search went through.  A link is not
skipped by the search but taken whole by the pass, and two runs may cross, so
that a run stays open to the end of the message (`not_nested_link`).  The runs
nest exactly if no unit the pass takes reaches past the recorded close of the
innermost open run (`nested_parse_iff`).

A search that failed is marked in a table and not repeated; what that does to the
result is the subject of `Why2.Chat.MarkupMemo`.

A string is the list of its characters.  `char::is_alphanumeric` is a parameter.
-/

import Mathlib.Algebra.GroupWithZero.Nat
import Mathlib.Data.List.TakeDrop
import Mathlib.Data.List.TakeWhile
import Mathlib.Logic.Function.Iterate
import Why2.Lib.Runs
import Why2.Chat.Text

namespace Why2
namespace Markup

/-! ### Segments -/

/-- The bits of a `Modifier` that emphasis sets. -/
structure Modifier where
  bold : Bool := false
  italic : Bool := false
  underlined : Bool := false
  crossedOut : Bool := false
deriving DecidableEq

/-- `Segment`. -/
inductive Segment
  | text (content : List Char)
  | raw (content : List Char)
  | code (content : List Char)
  | block (lang : Option (List Char)) (body : List Char)
  | math (source : List Char)
  | display (source : List Char)
  | link (text url : List Char)
  | opens (modifier : Modifier)
  | closes (modifier : Modifier)
deriving DecidableEq

/-- `Emphasis`: an open run, and where it was found to close. -/
structure Emphasis where
  run : ℕ
  (end' : ℕ)
  modifier : Modifier
deriving DecidableEq

/-! ### Searches -/

/-- The length of the run of `c` at `i`. -/
def runLength (chars : List Char) (i : ℕ) (c : Char) : ℕ := ((chars.drop i).takeWhile (· = c)).length

/-- `needle` stands at `i`. -/
def standsAt (chars : List Char) (i : ℕ) (needle : List Char) : Bool := (chars.drop i).take needle.length = needle

/-- `chars[start..stop]`. -/
def slice (chars : List Char) (start stop : ℕ) : List Char := (chars.drop start).take (stop - start)

/-- `find`. -/
def find (chars : List Char) (start : ℕ) (needle : List Char) : Option ℕ :=
  (List.range' start (chars.length - (needle.length - 1) - start)).find? fun i => standsAt chars i needle

/-- `find_escaped`; no needle is empty. -/
def findEscaped (chars : List Char) (i : ℕ) (needle : List Char) : Option ℕ :=
  if i + needle.length ≤ chars.length ∧ i < chars.length then
    if chars[i]? = some '\\' then findEscaped chars (i + 2) needle
    else if standsAt chars i needle then some i
    else findEscaped chars (i + 1) needle
  else none
termination_by chars.length - i

/-- What `find` finds stands there. -/
theorem find_spec {chars needle : List Char} {start stop : ℕ} (h : find chars start needle = some stop) :
    start ≤ stop ∧ stop < chars.length - (needle.length - 1) ∧ standsAt chars stop needle = true := by
  have hmem := List.mem_range'_1.1 (List.mem_of_find?_eq_some h)
  exact ⟨hmem.1, by omega, by simpa using List.find?_some h⟩

/-- `span`: how far a code or math span at `i` reaches. -/
def span (chars : List Char) (i : ℕ) (math : Bool) : Option ℕ :=
  let go (delim : Char) : Option ℕ :=
    let run := min (runLength chars i delim) 3
    (find chars (i + run) (.replicate run delim)).map (· + run)
  if chars[i]? = some '`' then go '`' else if chars[i]? = some '$' ∧ math then go '$' else none

/-- A run that begins has a character. -/
theorem one_le_runLength {chars : List Char} {i : ℕ} {c : Char} (h : chars[i]? = some c) :
    1 ≤ runLength chars i c := by
  obtain ⟨hi, hc⟩ := List.getElem?_eq_some_iff.1 h
  rw [runLength, List.drop_eq_getElem_cons hi, hc, List.takeWhile_cons_of_pos (by simp)]
  simp

/-- A span of code or math moves the search forward. -/
theorem lt_of_span {chars : List Char} {i next : ℕ} {math : Bool} (h : span chars i math = some next) :
    i < next := by
  have hgo {delim : Char} (hdelim : chars[i]? = some delim)
      (h : (find chars (i + min (runLength chars i delim) 3) (.replicate (min (runLength chars i delim) 3) delim)).map
        (· + min (runLength chars i delim) 3) = some next) : i < next := by
    have hrun := one_le_runLength hdelim
    obtain ⟨stop, hstop, rfl⟩ := Option.map_eq_some_iff.1 h
    have := (find_spec hstop).1
    omega
  unfold span at h
  split at h
  · next hdelim => exact hgo hdelim h
  · split at h
    · next hdelim => exact hgo hdelim.1 h
    · cases h

/-- `find_run`. -/
def findRun (chars : List Char) (i : ℕ) (needle : Char) (run : ℕ) (math : Bool) : Option ℕ :=
  if i < chars.length then
    if chars[i]? = some '\\' then findRun chars (i + 2) needle run math
    else
      match _h : span chars i math with
      | some next => findRun chars next needle run math
      | none =>
        let len := min (runLength chars i needle) run
        if len = 0 then findRun chars (i + 1) needle run math
        else if run ≤ len ∧ ¬chars[i - 1]?.any isWhitespace then some i
        else findRun chars (i + len) needle run math
  else none
termination_by chars.length - i
decreasing_by
  · omega
  · have := lt_of_span _h
    omega
  · omega
  · omega

/-! ### The pass -/

/-- `consts::ESCAPABLE`. -/
def escapable : List Char := ['`', '$', '*', '_', '~', '[', '\\', '#', '>', '-']

/-- `consts::MAX_RUN`. -/
def maxRun : ℕ := 3

/-- `consts::MAX_LANG`. -/
def maxLang : ℕ := 20

/-- The state of the pass: the position, the segments so far, the text since the last of them,
the open runs with the innermost first, and the slots of delimiters that were not found. -/
structure Pass where
  i : ℕ
  out : List Segment
  buf : List Char
  stack : List Emphasis
  missing : ℕ → Bool

namespace Pass

/-- `flush_text`. -/
def flushText (s : Pass) : Pass :=
  if s.buf = [] then s else { s with out := s.out ++ [.text s.buf], buf := [] }

/-- `out.push`. -/
def push (s : Pass) (segment : Segment) : Pass := { s with out := s.out ++ [segment] }

/-- `seen`: the slot says whether the search failed. -/
def seen (s : Pass) (kind : ℕ) (found : Option ℕ) : Pass :=
  { s with missing := Function.update s.missing kind found.isNone }

/-- What is there, unless the slot is marked and the table is read. -/
def unlessMissing {α : Type} (s : Pass) (memo : Bool) (kind : ℕ) (there : Option α) : Option α :=
  if memo && s.missing kind then none else there

end Pass

/-- `is_language`. -/
def isLanguage (word : List Char) : Bool :=
  let word := (word.dropWhile isWhitespace).rdropWhile isWhitespace
  !word.isEmpty && (word.map Char.utf8Size).sum ≤ maxLang &&
    word.all fun c => c.isAlphanum || c = '+' || c = '#' || c = '-' || c = '_' || c = '.'

/-- `fence`. -/
def fence (inner : List Char) : Segment :=
  let (lang, body) :=
    let first := inner.takeWhile (· ≠ '\n')
    if '\n' ∈ inner ∧ isLanguage first then
      (some ((first.dropWhile isWhitespace).rdropWhile isWhitespace), inner.drop (first.length + 1))
    else (none, if inner.head? = some '\n' then inner.tail else inner)
  .block lang (if body.getLast? = some '\n' then body.dropLast else body)

/-- `modifier`. -/
def modifier (c : Char) (run : ℕ) : Option Modifier :=
  if c = '*' then
    if run = 1 then some { italic := true }
    else if run = 2 then some { bold := true }
    else some { bold := true, italic := true }
  else if c = '_' then
    if run = 1 then some { italic := true }
    else if run = 2 then some { underlined := true }
    else some { underlined := true, italic := true }
  else if c = '~' then
    if run = 1 then none else some { crossedOut := true }
  else none

/-- `kind`. -/
def kind (c : Char) : ℕ := if c = '*' then 5 else if c = '_' then 6 else if c = '~' then 7 else 8

section parse

-- `memo`: the table is read.  `parse` is the pass with it.
variable (alnum : Char → Bool) (memo : Bool) (chars : List Char) (math : Bool)

/-- `backtick`. -/
def backtick (s : Pass) : Pass × Option ℕ :=
  let run := runLength chars s.i '`'
  let kind := min run 3 - 1
  if memo && s.missing kind then (s, none)
  else if 3 ≤ run then
    let start := s.i + 3
    let found := find chars start ['`', '`', '`']
    match found with
    | none => (s.seen kind found, none)
    | some stop => ((s.seen kind found).flushText.push (fence (slice chars start stop)), some (stop + 3))
  else
    let start := s.i + run
    let found := findEscaped chars start (.replicate run '`')
    match found with
    | none => (s.seen kind found, none)
    | some stop =>
      let inner := slice chars start stop
      if inner = [] then (s.seen kind found, none)
      else ((s.seen kind found).flushText.push (.code inner), some (stop + run))

/-- `dollar`. -/
def dollar (s : Pass) : Pass × Option ℕ :=
  let display := chars[s.i + 1]? = some '$'
  let close := if display then ['$', '$'] else ['$']
  let start := s.i + close.length
  let kind := 2 + close.length
  if memo && s.missing kind then (s, none)
  else if chars[start]?.all isWhitespace then (s, none)
  else
    let found := findEscaped chars start close
    match found with
    | none => (s.seen kind found, none)
    | some stop =>
      if chars[stop - 1]?.any isWhitespace then (s.seen kind found, none)
      else if ¬display ∧ chars[stop + 1]?.any Char.isDigit then (s.seen kind found, none)
      else
        let inner := slice chars start stop
        ((s.seen kind found).flushText.push (if display then .display inner else .math inner),
          some (stop + close.length))

/-- `link`. -/
def link (s : Pass) : Pass × Option ℕ :=
  let kind := kind '['
  if memo && s.missing kind then (s, none)
  else
    let found := findEscaped chars (s.i + 1) [']']
    match found with
    | none => (s.seen kind found, none)
    | some label =>
      if chars[label + 1]? ≠ some '(' then (s.seen kind found, none)
      else
        match find chars (label + 2) [')'] with
        | none => (s.seen kind found, none)
        | some stop =>
          let text := slice chars (s.i + 1) label
          let url := slice chars (label + 2) stop
          if text = [] ∨ url = [] ∨ url.any isWhitespace then (s.seen kind found, none)
          else ((s.seen kind found).flushText.push (.link text url), some (stop + 1))

/-- `emphasis`, at a character `c`. -/
def emphasis (c : Char) (s : Pass) : Pass × Option ℕ :=
  match s.stack with
  | top :: rest =>
    if top.end' = s.i then
      ({ s.flushText.push (.closes top.modifier) with stack := rest }, some (s.i + top.run))
    else openRun c s
  | [] => openRun c s
where
  /-- The rest of `emphasis`, where nothing closes. -/
  openRun (c : Char) (s : Pass) : Pass × Option ℕ :=
    let run := min (runLength chars s.i c) maxRun
    match modifier c run with
    | none => (s, none)
    | some modifier =>
      let kind := kind c
      if memo && s.missing kind then (s, none)
      else
        let start := s.i + run
        if chars[start]?.all isWhitespace then (s, none)
        else if c = '_' ∧ 0 < s.i ∧ chars[s.i - 1]?.any alnum then (s, none)
        else
          let found := findRun chars start c run math
          match found with
          | none => (s.seen kind found, none)
          | some stop =>
            if c = '_' ∧ chars[stop + run]?.any alnum then (s.seen kind found, none)
            else
              let s := (s.seen kind found).flushText
              ({ s.push (.opens modifier) with stack := ⟨run, stop, modifier⟩ :: s.stack }, some start)

/-- What the pass takes at the character `c`, which no backslash takes the markup off. -/
def take (c : Char) (s : Pass) : Pass × Option ℕ :=
  if c = '`' then backtick memo chars s
  else if c = '$' ∧ math then dollar memo chars s
  else if c = '[' then link memo chars s
  else if c = '*' ∨ c = '_' ∨ c = '~' then emphasis alnum memo chars math c s
  else (s, none)

/-- The end of a turn at the character `c`: the pass goes on after what was taken, or the
character is text. -/
def advance (c : Char) : Pass × Option ℕ → Pass
  | (s, some next) => { s with i := next }
  | (s, none) => { s with buf := s.buf ++ [c], i := s.i + 1 }

/-- One turn of the loop of `parse`; nothing happens at the end of the message. -/
def step (s : Pass) : Pass :=
  match chars[s.i]? with
  | none => s
  | some c =>
    if c = '\\' ∧ chars[s.i + 1]?.any escapable.contains then
      { s.flushText.push (.raw chars[s.i + 1]?.toList) with i := s.i + 2 }
    else advance c (take alnum memo chars math c s)

/-- The state before the first character. -/
def start : Pass := ⟨0, [], [], [], fun _ => false⟩

/-- The state after `n` turns. -/
def pass (n : ℕ) : Pass := (step alnum memo chars math)^[n] start

/-- The loop of `parse`: it moves forward at every turn, so it is over after as many as
there are characters (`le_pass_i`). -/
def parseWith : List Segment := (pass alnum memo chars math chars.length).flushText.out

end parse

/-- `parse`. -/
def parse (alnum : Char → Bool) (text : String) (math : Bool) : List Segment :=
  parseWith alnum true text.toList math

/-- The same parser, repeating every search. -/
def parseNoMemo (alnum : Char → Bool) (text : String) (math : Bool) : List Segment :=
  parseWith alnum false text.toList math

/-! ### What stands at a place

The checks and the searches of `backtick`, `dollar`, `link` and `emphasis`, of the message
alone: what they would take at `i` if its slot is not marked. -/

section places

variable (alnum : Char → Bool) (chars : List Char) (math : Bool)

/-- Where the code at `i` ends. -/
def codeAt (i : ℕ) : Option ℕ :=
  let run := runLength chars i '`'
  if 3 ≤ run then (find chars (i + 3) ['`', '`', '`']).map (· + 3)
  else do
    let stop ← findEscaped chars (i + run) (.replicate run '`')
    if slice chars (i + run) stop = [] then none else some (stop + run)

/-- Where the math at `i` ends. -/
def mathAt (i : ℕ) : Option ℕ :=
  let display := chars[i + 1]? = some '$'
  let close := if display then ['$', '$'] else ['$']
  let start := i + close.length
  if chars[start]?.all isWhitespace then none
  else do
    let stop ← findEscaped chars start close
    if chars[stop - 1]?.any isWhitespace then none
    else if ¬display ∧ chars[stop + 1]?.any Char.isDigit then none
    else some (stop + close.length)

/-- Where the link at `i` ends. -/
def linkAt (i : ℕ) : Option ℕ := do
  let label ← findEscaped chars (i + 1) [']']
  if chars[label + 1]? ≠ some '(' then none
  else
    let stop ← find chars (label + 2) [')']
    let url := slice chars (label + 2) stop
    if slice chars (i + 1) label = [] ∨ url = [] ∨ url.any isWhitespace then none else some (stop + 1)

/-- The run of `c` that opens at `i`, with where it is found to close. -/
def runAt (c : Char) (i : ℕ) : Option Emphasis :=
  let run := min (runLength chars i c) maxRun
  let start := i + run
  if chars[start]?.all isWhitespace then none
  else if c = '_' ∧ 0 < i ∧ chars[i - 1]?.any alnum then none
  else do
    let modifier ← modifier c run
    let stop ← findRun chars start c run math
    if c = '_' ∧ chars[stop + run]?.any alnum then none else some ⟨run, stop, modifier⟩

/-- Where what begins with the character `c` at `i` ends: code, math, a link, or a run with
its close. -/
def endAt (c : Char) (i : ℕ) : Option ℕ :=
  if c = '`' then codeAt chars i
  else if c = '$' ∧ math then mathAt chars i
  else if c = '[' then linkAt chars i
  else if c = '*' ∨ c = '_' ∨ c = '~' then (runAt alnum chars math c i).map fun e => e.end' + e.run
  else none

/-- The slot of the delimiter `c` at `i`. -/
def slotAt (c : Char) (i : ℕ) : ℕ :=
  if c = '`' then min (runLength chars i '`') 3 - 1
  else if c = '$' then 2 + (if chars[i + 1]? = some '$' then ['$', '$'] else ['$']).length
  else kind c

end places

/-! ### What a turn can be -/

/-- The states differ in the table only. -/
structure Same (s t : Pass) : Prop where
  i : s.i = t.i
  out : s.out = t.out
  buf : s.buf = t.buf
  stack : s.stack = t.stack

/-- A state differs from itself in nothing. -/
theorem Same.refl (s : Pass) : Same s s := ⟨rfl, rfl, rfl, rfl⟩

/-- The table does not matter either way. -/
theorem Same.symm {s t : Pass} (h : Same s t) : Same t s := ⟨h.i.symm, h.out.symm, h.buf.symm, h.stack.symm⟩

/-- States that are the same as one are the same. -/
theorem Same.trans {s t u : Pass} (h : Same s t) (h' : Same t u) : Same s u :=
  ⟨h.i.trans h'.i, h.out.trans h'.out, h.buf.trans h'.buf, h.stack.trans h'.stack⟩

/-- What was seen is in the table only. -/
theorem same_seen (s : Pass) (kind : ℕ) (found : Option ℕ) : Same (s.seen kind found) s := ⟨rfl, rfl, rfl, rfl⟩

/-- `flush_text` does not move. -/
@[simp] theorem flushText_i (s : Pass) : s.flushText.i = s.i := by
  unfold Pass.flushText
  split <;> rfl

/-- `flush_text` opens and closes nothing. -/
@[simp] theorem flushText_stack (s : Pass) : s.flushText.stack = s.stack := by
  unfold Pass.flushText
  split <;> rfl

/-- `flush_text` leaves no text. -/
@[simp] theorem flushText_buf (s : Pass) : s.flushText.buf = [] := by
  unfold Pass.flushText
  split
  · assumption
  · rfl

/-- `flush_text` does not read the table. -/
theorem Same.flushText {s t : Pass} (h : Same s t) : Same s.flushText t.flushText := by
  refine ⟨by simp [h.i], ?_, by simp, by simp [h.stack]⟩
  unfold Pass.flushText
  rw [h.buf]
  split
  · exact h.out
  · rw [h.out]

/-- A segment that neither opens nor closes a run. -/
def Segment.IsUnit : Segment → Prop
  | .opens _ | .closes _ => False
  | _ => True

/-- A fence is a unit. -/
theorem isUnit_fence (inner : List Char) : (fence inner).IsUnit := by
  unfold fence
  simp only
  split <;> exact trivial

/-- A unit was taken: its segment comes after the text before it. -/
structure Took (s s' : Pass) (segment : Segment) : Prop where
  isUnit : segment.IsUnit
  out : s'.out = s.flushText.out ++ [segment]
  buf : s'.buf = []
  stack : s'.stack = s.stack

/-- A segment that is pushed behind the text was taken. -/
theorem took_push {s : Pass} {segment : Segment} (h : segment.IsUnit) (kind : ℕ) (found : Option ℕ) :
    Took s ((s.seen kind found).flushText.push segment) segment where
  isUnit := h
  out := by rw [Pass.push, (same_seen s kind found).flushText.out]
  buf := flushText_buf _
  stack := flushText_stack _

/-- What `backtick`, `dollar` and `link` give: nothing, or the unit that ends at `stop`. -/
def TakesUnit (s : Pass) : Option ℕ → Pass × Option ℕ → Prop
  | none, r => r.2 = none ∧ Same r.1 s
  | some stop, r => r.2 = some stop ∧ s.i < stop ∧ ∃ segment, Took s r.1 segment

/-- What `find_escaped` finds stands there. -/
theorem findEscaped_spec {chars needle : List Char} {start stop : ℕ}
    (h : findEscaped chars start needle = some stop) :
    start ≤ stop ∧ stop < chars.length ∧ standsAt chars stop needle = true := by
  fun_induction findEscaped chars start needle with
  | case1 i hlt hback ih =>
    obtain ⟨hle, hrest⟩ := ih h
    exact ⟨by omega, hrest⟩
  | case2 i hlt hback hstands =>
    obtain rfl := Option.some.inj h
    exact ⟨le_rfl, hlt.2, hstands⟩
  | case3 i hlt hback hstands ih =>
    obtain ⟨hle, hrest⟩ := ih h
    exact ⟨by omega, hrest⟩
  | case4 => cases h

/-- `backtick` takes the code that stands there, unless its slot is marked. -/
theorem backtick_takes (memo : Bool) (chars : List Char) {s : Pass} (h : chars[s.i]? = some '`') :
    TakesUnit s (s.unlessMissing memo (slotAt chars '`' s.i) (codeAt chars s.i)) (backtick memo chars s) := by
  have hrun := one_le_runLength h
  change TakesUnit s (if memo && s.missing (min (runLength chars s.i '`') 3 - 1) then none else _) _
  unfold backtick codeAt
  simp only
  split
  · exact ⟨rfl, Same.refl s⟩
  split
  · cases hstop : find chars (s.i + 3) ['`', '`', '`'] with
    | none => exact ⟨rfl, same_seen _ _ _⟩
    | some stop =>
      have hle := (find_spec hstop).1
      exact ⟨rfl, by change s.i < stop + 3; omega, _, took_push (isUnit_fence _) _ _⟩
  · cases hstop : findEscaped chars (s.i + runLength chars s.i '`') (.replicate (runLength chars s.i '`') '`') with
    | none => exact ⟨rfl, same_seen _ _ _⟩
    | some stop =>
      have hle := (findEscaped_spec hstop).1
      simp only [Option.bind_eq_bind, Option.bind_some]
      split
      · exact ⟨rfl, same_seen _ _ _⟩
      · refine ⟨rfl, by omega, _, took_push ?_ _ _⟩
        exact trivial

/-- `dollar` takes the math that stands there, unless its slot is marked. -/
theorem dollar_takes (memo : Bool) (chars : List Char) (s : Pass) :
    TakesUnit s (s.unlessMissing memo (slotAt chars '$' s.i) (mathAt chars s.i)) (dollar memo chars s) := by
  have hclose : 1 ≤ (if chars[s.i + 1]? = some '$' then ['$', '$'] else ['$']).length := by split <;> simp
  change TakesUnit s (if memo && s.missing (2 + (if chars[s.i + 1]? = some '$' then ['$', '$'] else ['$']).length)
    then none else _) _
  unfold dollar mathAt
  simp only
  generalize (if chars[s.i + 1]? = some '$' then ['$', '$'] else ['$']) = close at hclose ⊢
  split
  · exact ⟨rfl, Same.refl s⟩
  split
  · exact ⟨rfl, Same.refl s⟩
  cases hstop : findEscaped chars (s.i + close.length) close with
  | none => exact ⟨rfl, same_seen _ _ _⟩
  | some stop =>
    have hle := (findEscaped_spec hstop).1
    simp only [Option.bind_eq_bind, Option.bind_some]
    split
    · exact ⟨rfl, same_seen _ _ _⟩
    split
    · exact ⟨rfl, same_seen _ _ _⟩
    · refine ⟨rfl, by omega, _, took_push ?_ _ _⟩
      split <;> trivial

/-- `link` takes the link that stands there, unless its slot is marked. -/
theorem link_takes (memo : Bool) (chars : List Char) (s : Pass) :
    TakesUnit s (s.unlessMissing memo (slotAt chars '[' s.i) (linkAt chars s.i)) (link memo chars s) := by
  change TakesUnit s (if memo && s.missing (kind '[') then none else _) _
  unfold link linkAt
  simp only
  split
  · exact ⟨rfl, Same.refl s⟩
  cases hlabel : findEscaped chars (s.i + 1) [']'] with
  | none => exact ⟨rfl, same_seen _ _ _⟩
  | some label =>
    have hle := (findEscaped_spec hlabel).1
    simp only [Option.bind_eq_bind, Option.bind_some]
    split
    · exact ⟨rfl, same_seen _ _ _⟩
    cases hstop : find chars (label + 2) [')'] with
    | none => exact ⟨rfl, same_seen _ _ _⟩
    | some stop =>
      have hle' := (find_spec hstop).1
      simp only [Option.bind_some]
      split
      · exact ⟨rfl, same_seen _ _ _⟩
      · refine ⟨rfl, by omega, _, took_push ?_ _ _⟩
        exact trivial

/-- Every character of a run is the run's. -/
theorem getElem?_of_lt_runLength {chars : List Char} {i j : ℕ} {c : Char} (h : j < runLength chars i c) :
    chars[i + j]? = some c := by
  have hpre : (chars.drop i).takeWhile (· = c) <+: chars.drop i := List.takeWhile_prefix _
  have hc : ((chars.drop i).takeWhile (· = c))[j] = c := by
    simpa using List.mem_takeWhile_imp (List.getElem_mem h)
  rw [← List.getElem?_drop, List.getElem?_eq_getElem (h.trans_le hpre.length_le), ← hpre.getElem h, hc]

/-- What `find_run` finds is of the character. -/
theorem findRun_spec {chars : List Char} {start stop run : ℕ} {c : Char} {math : Bool}
    (h : findRun chars start c run math = some stop) : start ≤ stop ∧ chars[stop]? = some c := by
  fun_induction findRun chars start c run math with
  | case1 i hlt hback ih =>
    obtain ⟨hle, hrest⟩ := ih h
    exact ⟨by omega, hrest⟩
  | case2 i hlt hback next hspan ih =>
    obtain ⟨hle, hrest⟩ := ih h
    have := lt_of_span hspan
    exact ⟨by omega, hrest⟩
  | case3 i hlt hback hspan len hlen ih =>
    obtain ⟨hle, hrest⟩ := ih h
    exact ⟨by omega, hrest⟩
  | case4 i hlt hback hspan len hlen hfound =>
    obtain rfl := Option.some.inj h
    exact ⟨le_rfl, getElem?_of_lt_runLength (by omega : 0 < runLength chars i c)⟩
  | case5 i hlt hback hspan len hlen hfound ih =>
    obtain ⟨hle, hrest⟩ := ih h
    exact ⟨by omega, hrest⟩
  | case6 => cases h

/-- The character at `i` is one that emphasis is made of. -/
def IsDelimiter (chars : List Char) (i : ℕ) : Prop :=
  ∃ c, chars[i]? = some c ∧ (c = '*' ∨ c = '_' ∨ c = '~')

/-- The innermost open run does not close here. -/
def NotClosing (chars : List Char) (s : Pass) : Prop :=
  ∀ top rest, s.stack = top :: rest → IsDelimiter chars s.i → top.end' ≠ s.i

/-- What one turn can be: a character of text; a unit, taken to a place further on; the close of
the innermost run; a run that opens, with its close found further on. -/
inductive Turn (chars : List Char) (s s' : Pass) : Prop
  | plain (c : Char) (stays : NotClosing chars s) (i : s'.i = s.i + 1) (out : s'.out = s.out)
      (buf : s'.buf = s.buf ++ [c]) (stack : s'.stack = s.stack)
  | unit (segment : Segment) (stays : NotClosing chars s) (i : s.i < s'.i) (took : Took s s' segment)
  | closes (top : Emphasis) (stack : s.stack = top :: s'.stack) (atEnd : top.end' = s.i)
      (i : s'.i = s.i + top.run) (out : s'.out = s.flushText.out ++ [.closes top.modifier]) (buf : s'.buf = [])
  | opens (e : Emphasis) (stays : NotClosing chars s) (run : 1 ≤ e.run) (inSight : s.i + e.run ≤ e.end')
      (delimiter : IsDelimiter chars e.end') (i : s'.i = s.i + e.run)
      (out : s'.out = s.flushText.out ++ [.opens e.modifier]) (buf : s'.buf = []) (stack : s'.stack = e :: s.stack)

/-- What `emphasis` gives where nothing closes: nothing, or the run that opens. -/
def Opens (chars : List Char) (s : Pass) : Option Emphasis → Pass × Option ℕ → Prop
  | none, r => r.2 = none ∧ Same r.1 s
  | some e, r => 1 ≤ e.run ∧ s.i + e.run ≤ e.end' ∧ IsDelimiter chars e.end' ∧ r.2 = some (s.i + e.run) ∧
      r.1.out = s.flushText.out ++ [.opens e.modifier] ∧ r.1.buf = [] ∧ r.1.stack = e :: s.stack

variable {alnum : Char → Bool} {memo math : Bool} {chars : List Char}

/-- `emphasis` opens the run that stands there, unless its slot is marked. -/
theorem openRun_opens {c : Char} {s : Pass} (hc : chars[s.i]? = some c) (hdelim : c = '*' ∨ c = '_' ∨ c = '~') :
    Opens chars s (s.unlessMissing memo (kind c) (runAt alnum chars math c s.i))
      (emphasis.openRun alnum memo chars math c s) := by
  have hrun : 1 ≤ min (runLength chars s.i c) maxRun := Nat.le_min.2 ⟨one_le_runLength hc, by decide⟩
  unfold emphasis.openRun Pass.unlessMissing runAt
  simp only
  cases modifier c (min (runLength chars s.i c) maxRun) with
  | none =>
    simp only [Option.bind_eq_bind, Option.bind_none, ite_self]
    exact ⟨rfl, Same.refl s⟩
  | some m =>
    simp only [Option.bind_eq_bind, Option.bind_some]
    split
    · exact ⟨rfl, Same.refl s⟩
    split
    · exact ⟨rfl, Same.refl s⟩
    split
    · exact ⟨rfl, Same.refl s⟩
    · cases hstop : findRun chars (s.i + min (runLength chars s.i c) maxRun) c
          (min (runLength chars s.i c) maxRun) math with
      | none => exact ⟨rfl, same_seen _ _ _⟩
      | some stop =>
        obtain ⟨hle, hstopc⟩ := findRun_spec hstop
        simp only [Option.bind_some]
        split
        · exact ⟨rfl, same_seen _ _ _⟩
        · refine ⟨hrun, hle, ⟨c, hstopc, hdelim⟩, rfl, ?_, flushText_buf _, ?_⟩
          · rw [Pass.push, (same_seen s _ _).flushText.out]
          · rw [flushText_stack]
            rfl

/-- Where nothing was taken, the character is text. -/
theorem turn_of_same {c : Char} {s : Pass} {r : Pass × Option ℕ} (hnone : r.2 = none) (h : Same r.1 s)
    (hstays : NotClosing chars s) : Turn chars s (advance c r) := by
  obtain ⟨s', next⟩ := r
  obtain rfl : next = none := hnone
  exact .plain c hstays (congrArg (· + 1) h.i) h.out (congrArg (· ++ [c]) h.buf) h.stack

/-- A unit that is taken is a turn. -/
theorem TakesUnit.turn {c : Char} {s : Pass} {stop : Option ℕ} {r : Pass × Option ℕ} (h : TakesUnit s stop r)
    (hstays : NotClosing chars s) : Turn chars s (advance c r) := by
  cases stop with
  | none => exact turn_of_same h.1 h.2 hstays
  | some stop =>
    obtain ⟨s', next⟩ := r
    obtain ⟨hnext, hlt, segment, htook⟩ := h
    obtain rfl : next = some stop := hnext
    exact .unit segment hstays hlt ⟨htook.isUnit, htook.out, htook.buf, htook.stack⟩

/-- A run that opens is a turn. -/
theorem Opens.turn {c : Char} {s : Pass} {e : Option Emphasis} {r : Pass × Option ℕ} (h : Opens chars s e r)
    (hstays : NotClosing chars s) : Turn chars s (advance c r) := by
  cases e with
  | none => exact turn_of_same h.1 h.2 hstays
  | some e =>
    obtain ⟨s', next⟩ := r
    obtain ⟨hrun, hsight, hdelim, hnext, hout, hbuf, hstack⟩ := h
    obtain rfl : next = some (s.i + e.run) := hnext
    exact .opens e hstays hrun hsight hdelim rfl hout hbuf hstack

/-- At another character no run closes. -/
theorem notClosing_of_ne {c : Char} {s : Pass} (hc : chars[s.i]? = some c)
    (hne : ¬(c = '*' ∨ c = '_' ∨ c = '~')) : NotClosing chars s := by
  rintro top rest - ⟨d, hd, hdelim⟩
  rw [hc, Option.some.injEq] at hd
  exact absurd (hd ▸ hdelim) hne

/-- `emphasis` closes a run, opens one, or leaves the character as text. -/
theorem turn_emphasis {c : Char} {s : Pass} (hc : chars[s.i]? = some c)
    (hdelim : c = '*' ∨ c = '_' ∨ c = '~') : Turn chars s (advance c (emphasis alnum memo chars math c s)) := by
  unfold emphasis
  split
  · next top rest hstack =>
    split
    · next hend => exact .closes top hstack hend rfl rfl (flushText_buf s)
    · next hend =>
      refine (openRun_opens hc hdelim).turn ?_
      rintro top' rest' hstack' -
      obtain ⟨rfl, -⟩ := List.cons.inj (hstack.symm.trans hstack')
      exact hend
  · next hstack =>
    refine (openRun_opens hc hdelim).turn ?_
    rintro top' rest' hstack' -
    rw [hstack] at hstack'
    cases hstack'

/-- What is taken at a character is a turn. -/
theorem turn_take {c : Char} {s : Pass} (hc : chars[s.i]? = some c) :
    Turn chars s (advance c (take alnum memo chars math c s)) := by
  unfold take
  split
  · next h =>
    subst h
    exact (backtick_takes memo chars hc).turn (notClosing_of_ne hc (by decide))
  split
  · next h => exact (dollar_takes memo chars s).turn (notClosing_of_ne hc (by rw [h.1]; decide))
  split
  · next h => exact (link_takes memo chars s).turn (notClosing_of_ne hc (by rw [h]; decide))
  split
  · next hdelim => exact turn_emphasis hc hdelim
  · next hne => exact turn_of_same rfl (Same.refl s) (notClosing_of_ne hc hne)

/-- **What a turn can be**, with the table or without. -/
theorem turn_step {s : Pass} (h : s.i < chars.length) : Turn chars s (step alnum memo chars math s) := by
  have hc : chars[s.i]? = some chars[s.i] := List.getElem?_eq_getElem h
  unfold step
  rw [hc]
  simp only
  split
  · next hesc =>
    exact .unit (.raw chars[s.i + 1]?.toList) (notClosing_of_ne hc (by rw [hesc.1]; decide))
      (Nat.lt_add_of_pos_right (by decide)) ⟨trivial, rfl, flushText_buf s, flushText_stack s⟩
  · exact turn_take hc

/-- At the end nothing happens. -/
theorem step_of_le {s : Pass} (h : chars.length ≤ s.i) : step alnum memo chars math s = s := by
  unfold step
  rw [List.getElem?_eq_none h]

/-- The pass moves forward. -/
theorem lt_step_i {s : Pass} (hrun : ∀ e ∈ s.stack, 1 ≤ e.run) (h : s.i < chars.length) :
    s.i < (step alnum memo chars math s).i := by
  have hturn : Turn chars s (step alnum memo chars math s) := turn_step h
  rcases hturn with ⟨_, -, hi, -, -, -⟩ | ⟨_, -, hi, -⟩ | ⟨top, hstack, -, hi, -, -⟩ | ⟨e, -, he, -, -, hi, -⟩
  · omega
  · exact hi
  · have := hrun top (by rw [hstack]; exact List.mem_cons_self)
    omega
  · omega

/-! ### Nesting -/

/-- The modifiers open after the segments, innermost first; `none` where a close does not
match the innermost open run. -/
def openAfter : List Modifier → List Segment → Option (List Modifier)
  | stack, [] => some stack
  | stack, .opens m :: rest => openAfter (m :: stack) rest
  | m :: stack, .closes m' :: rest => if m = m' then openAfter stack rest else none
  | [], .closes _ :: _ => none
  | stack, _ :: rest => openAfter stack rest

/-- Every open run is closed by the close that matches it, and none is left open. -/
def Nested (segments : List Segment) : Prop := openAfter [] segments = some []

instance (segments : List Segment) : Decidable (Nested segments) :=
  inferInstanceAs (Decidable (openAfter [] segments = some []))

/-- The segments one part after the other. -/
theorem openAfter_append (stack : List Modifier) (segments rest : List Segment) :
    openAfter stack (segments ++ rest) = (openAfter stack segments).bind (openAfter · rest) := by
  induction segments generalizing stack with
  | nil => rfl
  | cons segment segments ih =>
    cases segment with
    | closes m =>
      cases stack with
      | nil => rfl
      | cons top stack =>
        simp only [List.cons_append, openAfter]
        split
        · exact ih stack
        · rfl
    | _ => exact ih _

/-- A unit leaves the open runs open. -/
theorem openAfter_isUnit {segment : Segment} (h : segment.IsUnit) (stack : List Modifier) :
    openAfter stack [segment] = some stack := by
  cases segment with
  | opens | closes => cases h
  | _ => cases stack <;> rfl

/-- Text leaves the open runs open. -/
theorem openAfter_flushText {s : Pass} (stack : List Modifier) :
    openAfter stack s.flushText.out = openAfter stack s.out := by
  unfold Pass.flushText
  split
  · rfl
  · rw [openAfter_append]
    cases openAfter stack s.out with
    | none => rfl
    | some stack =>
      refine openAfter_isUnit ?_ stack
      exact trivial

/-- What every turn keeps: the segments leave open what the stack holds, and the recorded
close of an open run is a delimiter. -/
structure Open (chars : List Char) (s : Pass) : Prop where
  out : openAfter [] s.out = some (s.stack.map (·.modifier))
  run : ∀ e ∈ s.stack, 1 ≤ e.run
  delimiter : ∀ e ∈ s.stack, IsDelimiter chars e.end'

/-- At the start nothing is open. -/
theorem open_start : Open chars start :=
  ⟨rfl, fun _ h => (List.not_mem_nil h).elim, fun _ h => (List.not_mem_nil h).elim⟩

/-- A turn keeps the segments and the stack together. -/
theorem Open.step {s : Pass} (h : Open chars s) : Open chars (step alnum memo chars math s) := by
  rcases Nat.lt_or_ge s.i chars.length with hlt | hge
  · rcases turn_step hlt with ⟨_, -, -, hout, -, hstack⟩ | ⟨_, -, -, htook⟩ | ⟨top, hstack, -, -, hout, -⟩ |
      ⟨e, -, hrun, -, hdelim, -, hout, -, hstack⟩
    · exact ⟨by rw [hout, hstack, h.out], by rw [hstack]; exact h.run, by rw [hstack]; exact h.delimiter⟩
    · refine ⟨?_, by rw [htook.stack]; exact h.run, by rw [htook.stack]; exact h.delimiter⟩
      rw [htook.out, openAfter_append, openAfter_flushText, h.out, htook.stack]
      exact openAfter_isUnit htook.isUnit _
    · refine ⟨?_, fun e he => h.run e ?_, fun e he => h.delimiter e ?_⟩
      · rw [hout, openAfter_append, openAfter_flushText, h.out, hstack]
        exact if_pos rfl
      · rw [hstack]
        exact List.mem_cons_of_mem _ he
      · rw [hstack]
        exact List.mem_cons_of_mem _ he
    · refine ⟨?_, ?_, ?_⟩
      · rw [hout, openAfter_append, openAfter_flushText, h.out, hstack]
        rfl
      · rw [hstack]
        exact List.forall_mem_cons.2 ⟨hrun, h.run⟩
      · rw [hstack]
        exact List.forall_mem_cons.2 ⟨hdelim, h.delimiter⟩
  · rw [step_of_le hge]
    exact h

/-- So do all turns. -/
theorem open_pass (n : ℕ) : Open chars (pass alnum memo chars math n) := by
  induction n with
  | zero => exact open_start
  | succ n ih =>
    rw [pass, Function.iterate_succ_apply']
    exact ih.step

/-- The loop is over after as many turns as there are characters. -/
theorem le_pass_i (n : ℕ) : min n chars.length ≤ (pass alnum memo chars math n).i := by
  induction n with
  | zero => simp
  | succ n ih =>
    rw [pass, Function.iterate_succ_apply']
    change _ ≤ (step alnum memo chars math (pass alnum memo chars math n)).i
    rcases Nat.lt_or_ge (pass alnum memo chars math n).i chars.length with hlt | hge
    · have hlt' : (pass alnum memo chars math n).i < (step alnum memo chars math (pass alnum memo chars math n)).i :=
        lt_step_i (open_pass n).run hlt
      omega
    · rw [step_of_le hge]
      omega

/-- The message nests exactly if the pass ends with no run open. -/
theorem nested_parseWith_iff :
    Nested (parseWith alnum memo chars math) ↔ (pass alnum memo chars math chars.length).stack = [] := by
  rw [Nested, parseWith, openAfter_flushText, (open_pass _).out, Option.some.injEq, List.map_eq_nil_iff]

section nesting

variable (alnum : Char → Bool) (memo : Bool) (chars : List Char) (math : Bool)

/-- Where what stands at the position ends: an escape, a unit or a run with its close that the
table does not keep from being looked for, and one character otherwise. -/
def reach (s : Pass) : ℕ :=
  match chars[s.i]? with
  | none => s.i
  | some c =>
    if c = '\\' ∧ chars[s.i + 1]?.any escapable.contains then s.i + 2
    else (s.unlessMissing memo (slotAt chars c s.i) (endAt alnum chars math c s.i)).getD (s.i + 1)

/-- With a run open, the position is its close, or what stands there ends before its close. -/
def Inside (s : Pass) : Prop :=
  s.i < chars.length → ∀ top ∈ s.stack.head?, s.i = top.end' ∨ reach alnum memo chars math s ≤ top.end'

instance (s : Pass) : Decidable (Inside alnum memo chars math s) :=
  inferInstanceAs (Decidable (s.i < chars.length → ∀ top ∈ s.stack.head?, _))

end nesting

/-- The open runs lie ahead and inside each other. -/
structure Fits (s : Pass) : Prop where
  ahead : ∀ e ∈ s.stack, s.i ≤ e.end'
  nested : s.stack.Pairwise fun inner outer => inner.end' + inner.run ≤ outer.end'

/-- A turn that reaches `n`: it leaves the open runs and goes on at `n`, or opens a run whose
close ends at `n`. -/
def Reaches (s s' : Pass) (n : ℕ) : Prop :=
  s'.stack = s.stack ∧ n = s'.i ∨ ∃ e : Emphasis, s'.stack = e :: s.stack ∧ n = e.end' + e.run

/-- A turn that leaves the open runs reaches where it goes on. -/
theorem Reaches.of_stack {s s' : Pass} {n : ℕ} (h : Reaches s s' n) (hstack : s'.stack = s.stack) : n = s'.i := by
  rcases h with ⟨-, hn⟩ | ⟨e, he, -⟩
  · exact hn
  · exact absurd (hstack.symm.trans he).symm (List.cons_ne_self e s.stack)

/-- A turn that opens a run reaches behind its close. -/
theorem Reaches.of_opens {s s' : Pass} {n : ℕ} {e : Emphasis} (h : Reaches s s' n)
    (hstack : s'.stack = e :: s.stack) : n = e.end' + e.run := by
  rcases h with ⟨hsame, -⟩ | ⟨e', he', hn⟩
  · exact absurd (hstack.symm.trans hsame) (List.cons_ne_self e s.stack)
  · obtain ⟨rfl, -⟩ := List.cons.inj (hstack.symm.trans he')
    exact hn

/-- Where nothing was taken, the turn reaches the next character. -/
theorem reaches_of_same {c : Char} {s : Pass} {r : Pass × Option ℕ} (hnone : r.2 = none) (h : Same r.1 s) :
    Reaches s (advance c r) (s.i + 1) := by
  obtain ⟨s', next⟩ := r
  obtain rfl : next = none := hnone
  exact .inl ⟨h.stack, congrArg (· + 1) h.i.symm⟩

/-- A unit reaches its end. -/
theorem TakesUnit.reaches {c : Char} {s : Pass} {stop : Option ℕ} {r : Pass × Option ℕ} (h : TakesUnit s stop r) :
    Reaches s (advance c r) (stop.getD (s.i + 1)) := by
  cases stop with
  | none => exact reaches_of_same h.1 h.2
  | some stop =>
    obtain ⟨s', next⟩ := r
    obtain ⟨hnext, -, segment, htook⟩ := h
    obtain rfl : next = some stop := hnext
    exact .inl ⟨htook.stack, rfl⟩

/-- A run that opens reaches behind its close. -/
theorem Opens.reaches {c : Char} {s : Pass} {e : Option Emphasis} {r : Pass × Option ℕ} (h : Opens chars s e r) :
    Reaches s (advance c r) ((e.map fun e => e.end' + e.run).getD (s.i + 1)) := by
  cases e with
  | none => exact reaches_of_same h.1 h.2
  | some e =>
    obtain ⟨s', next⟩ := r
    obtain ⟨-, -, -, hnext, -, -, hstack⟩ := h
    obtain rfl : next = some (s.i + e.run) := hnext
    exact .inr ⟨e, hstack, rfl⟩

/-- What is there may be mapped. -/
theorem unlessMissing_map {α β : Type} (s : Pass) (memo : Bool) (kind : ℕ) (there : Option α) (f : α → β) :
    (s.unlessMissing memo kind there).map f = s.unlessMissing memo kind (there.map f) := by
  unfold Pass.unlessMissing
  split <;> rfl

/-- What the pass takes where nothing closes is what stands there. -/
theorem reaches_take {s : Pass} {c : Char} (hc : chars[s.i]? = some c) (hstays : NotClosing chars s) :
    Reaches s (advance c (take alnum memo chars math c s))
      ((s.unlessMissing memo (slotAt chars c s.i) (endAt alnum chars math c s.i)).getD (s.i + 1)) := by
  unfold take endAt
  split
  · next h =>
    subst h
    exact (backtick_takes memo chars hc).reaches
  split
  · next h =>
    obtain ⟨rfl, -⟩ := h
    exact (dollar_takes memo chars s).reaches
  split
  · next h =>
    subst h
    exact (link_takes memo chars s).reaches
  split
  · next hdelim =>
    have hslot : slotAt chars c s.i = kind c := by rcases hdelim with rfl | rfl | rfl <;> rfl
    have hopen : emphasis alnum memo chars math c s = emphasis.openRun alnum memo chars math c s := by
      unfold emphasis
      split
      · next top rest hstack => exact if_neg (hstays top rest hstack ⟨c, hc, hdelim⟩)
      · rfl
    rw [hslot, hopen, ← unlessMissing_map]
    exact (openRun_opens hc hdelim).reaches
  · have hnone : s.unlessMissing memo (slotAt chars c s.i) (none : Option ℕ) = none := ite_self _
    rw [hnone]
    exact reaches_of_same rfl (Same.refl s)

/-- **A turn reaches what the message says alone**, unless a slot is marked. -/
theorem reaches_step {s : Pass} (h : s.i < chars.length) (hstays : NotClosing chars s) :
    Reaches s (step alnum memo chars math s) (reach alnum memo chars math s) := by
  have hc : chars[s.i]? = some chars[s.i] := List.getElem?_eq_getElem h
  unfold step reach
  rw [hc]
  simp only
  split
  · exact .inl ⟨flushText_stack s, rfl⟩
  · exact reaches_take hc hstays

/-- What ends before the close of the innermost run ends before the close of all. -/
theorem Fits.le_end {s : Pass} (h : Fits s) {n : ℕ} (htop : ∀ top ∈ s.stack.head?, n ≤ top.end') :
    ∀ e ∈ s.stack, n ≤ e.end' := by
  have hnested := h.nested
  intro e he
  cases hstack : s.stack with
  | nil =>
    rw [hstack] at he
    cases he
  | cons top rest =>
    rw [hstack] at he htop hnested
    have hn := htop top rfl
    rcases List.mem_cons.1 he with rfl | he
    · exact hn
    · have := (List.pairwise_cons.1 hnested).1 e he
      omega

/-- Where nothing closes, the innermost run does not end: its end is a delimiter. -/
theorem Open.ne_end {s : Pass} (h : Open chars s) (hstays : NotClosing chars s) {top : Emphasis}
    (htop : top ∈ s.stack.head?) : s.i ≠ top.end' := by
  intro hend
  obtain ⟨rest, hrest⟩ := List.head?_eq_some_iff.1 (Option.mem_def.1 htop)
  have hdelim := h.delimiter top (List.mem_of_mem_head? htop)
  rw [← hend] at hdelim
  exact hstays top rest hrest hdelim hend.symm

/-- A turn that leaves the open runs as they are. -/
theorem fits_of_stack {s s' : Pass} (hs : Open chars s) (hstays : NotClosing chars s) (hstack : s'.stack = s.stack)
    (hlt : s.i < s'.i) :
    Fits s' ↔ Fits s ∧ ∀ top ∈ s.stack.head?, s.i = top.end' ∨ s'.i ≤ top.end' := by
  constructor
  · intro h
    have hahead := h.ahead
    rw [hstack] at hahead
    refine ⟨⟨fun e he => hlt.le.trans (hahead e he), hstack ▸ h.nested⟩, fun top htop => .inr ?_⟩
    exact hahead top (List.mem_of_mem_head? htop)
  · rintro ⟨h, hinside⟩
    refine ⟨?_, hstack ▸ h.nested⟩
    rw [hstack]
    exact h.le_end fun top htop => (hinside top htop).resolve_left (hs.ne_end hstays htop)

/-- A turn that closes the innermost run: what it was inside of is the next to close. -/
theorem fits_of_closes {s s' : Pass} {top : Emphasis} (hstack : s.stack = top :: s'.stack) (hend : top.end' = s.i)
    (hi : s'.i = s.i + top.run) : Fits s' ↔ Fits s := by
  constructor
  · intro h
    refine ⟨?_, ?_⟩
    · rw [hstack]
      refine List.forall_mem_cons.2 ⟨hend.ge, fun e he => ?_⟩
      have := h.ahead e he
      omega
    · rw [hstack, List.pairwise_cons]
      refine ⟨fun e he => ?_, h.nested⟩
      have := h.ahead e he
      omega
  · intro h
    have hnested := h.nested
    rw [hstack, List.pairwise_cons] at hnested
    refine ⟨fun e he => ?_, hnested.2⟩
    have := hnested.1 e he
    omega

/-- A turn that opens a run: it is inside the innermost one if its close is. -/
theorem fits_of_opens {s s' : Pass} {e : Emphasis} (hs : Open chars s) (hstays : NotClosing chars s)
    (hstack : s'.stack = e :: s.stack) (hsight : s.i + e.run ≤ e.end') (hi : s'.i = s.i + e.run) :
    Fits s' ↔ Fits s ∧ ∀ top ∈ s.stack.head?, s.i = top.end' ∨ e.end' + e.run ≤ top.end' := by
  constructor
  · intro h
    have hahead := h.ahead
    have hnested := h.nested
    rw [hstack] at hahead hnested
    rw [List.pairwise_cons] at hnested
    refine ⟨⟨fun e' he' => ?_, hnested.2⟩, fun top htop => .inr ?_⟩
    · have := hahead e' (List.mem_cons_of_mem _ he')
      omega
    · exact hnested.1 top (List.mem_of_mem_head? htop)
  · rintro ⟨h, hinside⟩
    have hends : ∀ e' ∈ s.stack, e.end' + e.run ≤ e'.end' :=
      h.le_end fun top htop => (hinside top htop).resolve_left (hs.ne_end hstays htop)
    refine ⟨?_, ?_⟩
    · rw [hstack, List.forall_mem_cons]
      refine ⟨by omega, fun e' he' => ?_⟩
      have := hends e' he'
      omega
    · rw [hstack, List.pairwise_cons]
      exact ⟨hends, h.nested⟩

/-- **One turn keeps the runs inside each other exactly if it stays inside.** -/
theorem fits_step {s : Pass} (hs : Open chars s) :
    Fits (step alnum memo chars math s) ↔ Fits s ∧ Inside alnum memo chars math s := by
  rcases Nat.lt_or_ge s.i chars.length with hlt | hge
  · have hturn : Turn chars s (step alnum memo chars math s) := turn_step hlt
    have hi : s.i < (step alnum memo chars math s).i := lt_step_i hs.run hlt
    rw [Inside, forall_prop_of_true hlt]
    rcases hturn with ⟨_, hstays, -, -, -, hstack⟩ | ⟨_, hstays, -, htook⟩ | ⟨top, hstack, hend, hi', -, -⟩ |
      ⟨e, hstays, -, hsight, -, hi', -, -, hstack⟩
    · rw [(reaches_step hlt hstays).of_stack hstack]
      exact fits_of_stack hs hstays hstack hi
    · rw [(reaches_step hlt hstays).of_stack htook.stack]
      exact fits_of_stack hs hstays htook.stack hi
    · rw [and_iff_left]
      · exact fits_of_closes hstack hend hi'
      · rintro top' htop'
        rw [hstack, List.head?_cons, Option.mem_some_iff] at htop'
        exact .inl (htop' ▸ hend.symm)
    · rw [(reaches_step hlt hstays).of_opens hstack]
      exact fits_of_opens hs hstays hstack hsight hi'
  · rw [step_of_le hge]
    exact (and_iff_left fun hlt => absurd hlt (Nat.not_lt.2 hge)).symm

/-- A delimiter is in the message. -/
theorem IsDelimiter.lt {i : ℕ} (h : IsDelimiter chars i) : i < chars.length := by
  obtain ⟨c, hc, -⟩ := h
  exact (List.getElem?_eq_some_iff.1 hc).1

/-- At the end of the message the open runs are ahead exactly if there are none. -/
theorem fits_iff_of_le {s : Pass} (hs : Open chars s) (h : chars.length ≤ s.i) : Fits s ↔ s.stack = [] := by
  constructor
  · intro hfits
    refine List.eq_nil_iff_forall_not_mem.2 fun e he => ?_
    have := hfits.ahead e he
    have := (hs.delimiter e he).lt
    omega
  · intro hstack
    exact ⟨by rw [hstack]; exact fun e he => (List.not_mem_nil he).elim, by rw [hstack]; exact .nil⟩

/-- At the start nothing is open. -/
theorem fits_start : Fits start := ⟨fun _ h => (List.not_mem_nil h).elim, .nil⟩

/-- **Emphasis nests exactly if the pass never leaves a run**: at every turn with a run open, the
position is where the innermost open run was found to close, or what stands there (a character,
an escape, code, math, a link, or a run up to its own close) ends no later than that. -/
theorem nested_parse_iff (alnum : Char → Bool) (text : String) (math : Bool) :
    Nested (parse alnum text math) ↔
      ∀ n, Inside alnum true text.toList math (pass alnum true text.toList math n) := by
  have hle : text.toList.length ≤ (pass alnum true text.toList math text.toList.length).i :=
    (min_self _).ge.trans (le_pass_i _)
  have hiff (n : ℕ) : Fits (pass alnum true text.toList math n) ↔
      Fits start ∧ ∀ m < n, Inside alnum true text.toList math (pass alnum true text.toList math m) :=
    Lib.iterate_iff (fun _ h => Open.step h) (fun _ h => fits_step h) open_start n
  rw [parse, nested_parseWith_iff, ← fits_iff_of_le (open_pass _) hle, hiff, and_iff_right fits_start]
  refine ⟨fun h n => ?_, fun h n _ => h n⟩
  rcases Nat.lt_or_ge n text.toList.length with hn | hn
  · exact h n hn
  · -- the loop is over, and nothing is taken any more
    have hover : text.toList.length ≤ (pass alnum true text.toList math n).i := by
      have : min n text.toList.length ≤ (pass alnum true text.toList math n).i := le_pass_i n
      omega
    exact fun hlt => absurd hlt (Nat.not_lt.2 hover)

/-- **A run is left open** where its close lies in a link: the search does not skip links, and
the pass takes them whole. -/
theorem not_nested_link : ¬∀ (text : String) (math : Bool), Nested (parse Char.isAlphanum text math) := by
  intro h
  exact absurd (h "*a [b* c](d)" true) (by decide +kernel)

/-- The same of two runs that cross. -/
example : ¬Nested (parse Char.isAlphanum "**a *b** c*" false) := by decide +kernel

end Markup
end Why2
