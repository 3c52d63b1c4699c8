/-
# Formulas

The parser of `chat/src/bin/client/tui/math.rs`: `Parser` and `parse`, which read
the source of a formula into nodes.  `list`, `atom`, `primary` and `command` call
each other; the recursion always goes through `primary`, so the others are
written over a given `primary` and the knot is tied there, with a bound on how
deep calls of `primary` may nest, which is never reached (`parse_returns` in
`Why2.Chat.MathReads`).

Some things are recorded beside what the program keeps, so that claims about a
run can be stated.  A character of a node knows which place of the source it was
read from.  The cursor remembers the places that were read as commands,
delimiters and brackets (`marks`), how deep `primary` was called (`deepest`), and
the events of the run (`trace`): calls of `raw_argument` and `argument`, and
scripts that an atom is given again.  Nothing of it is ever read by the parser.
-/

import Mathlib.Data.List.TakeDrop
import Mathlib.Data.List.TakeWhile
import Mathlib.Data.List.Count
import Why2.Lib.Runs

namespace Why2
namespace Math

/-- `consts::MAX_DEPTH`. -/
def maxDepth : ℕ := 32

/-- A character of a node, and the place it was read from; what a command stands for was not
read. -/
structure Glyph where
  char : Char
  origin : Option ℕ
deriving DecidableEq

/-- `Node`. -/
inductive Node
  | sym (text : List Glyph)
  | list (nodes : List Node)
  | frac (num den : Node)
  | sqrt (inner : Node) (degree : Option (List Glyph))
  | delim (opening closing : Char) (inner : Node)
  | script (base : Node) (sup sub : Option Node)
  | big (op : List Glyph)

/-- What happens in a run: `raw_argument` is called with the cursor at a place; an atom that has
this script meets its mark again; `argument` is called at a place, as the `chain`-th of
arguments that stand in each other with no brace between them. -/
inductive Event
  | raw (pos : ℕ)
  | again (script : Node)
  | argument (pos chain : ℕ)

/-- `Parser`, with the record of the run.  `panicked`: a slice was out of range; `exhausted`: the
bound on the recursion or on a loop was reached. -/
structure Cursor where
  pos : ℕ
  panicked : Bool
  exhausted : Bool
  marks : List ℕ
  deepest : ℕ
  trace : List Event

/-- Where a call of `primary` stands: how many calls it is in, the depth that the parser counts,
and how many arguments it is in since the depth was last counted. -/
structure Frame where
  level : ℕ
  depth : ℕ
  chain : ℕ

namespace Frame

/-- Inside a group or a pair of delimiters. -/
def inner (frame : Frame) : Frame := ⟨frame.level + 1, frame.depth + 1, 0⟩

/-- In an argument. -/
def argument (frame : Frame) : Frame := ⟨frame.level + 1, frame.depth, frame.chain + 1⟩

end Frame

namespace Cursor

/-- The cursor before the first character. -/
def start : Cursor := ⟨0, false, false, [], 0, []⟩

/-- `pos += n`, over characters that are not kept. -/
def skip (s : Cursor) (n : ℕ) : Cursor := { s with pos := s.pos + n }

/-- `pos += n`, over a command or a delimiter. -/
def mark (s : Cursor) (n : ℕ) : Cursor :=
  { s with pos := s.pos + n, marks := s.marks ++ List.range' s.pos n }

/-- An event is recorded. -/
def note (s : Cursor) (event : Event) : Cursor := { s with trace := s.trace ++ [event] }

end Cursor

/-! ### Tables -/

/-- `BIG`. -/
def big : List String :=
  ["sum", "prod", "coprod", "bigcup", "bigcap", "bigoplus", "bigotimes", "bigvee", "bigwedge", "lim",
   "limsup", "liminf", "max", "min", "sup"]

/-- `BLACKBOARD`. -/
def blackboard : List (Char × Char) :=
  [('A', '𝔸'), ('B', '𝔹'), ('C', 'ℂ'), ('D', '𝔻'), ('E', '𝔼'), ('F', '𝔽'), ('G', '𝔾'), ('H', 'ℍ'),
   ('I', '𝕀'), ('J', '𝕁'), ('K', '𝕂'), ('L', '𝕃'), ('M', '𝕄'), ('N', 'ℕ'), ('O', '𝕆'), ('P', 'ℙ'),
   ('Q', 'ℚ'), ('R', 'ℝ'), ('S', '𝕊'), ('T', '𝕋'), ('U', '𝕌'), ('V', '𝕍'), ('W', '𝕎'), ('X', '𝕏'),
   ('Y', '𝕐'), ('Z', 'ℤ')]

/-- `SCRIPT_CAPS`. -/
def scriptCaps : List (Char × Char) :=
  [('A', '𝒜'), ('B', 'ℬ'), ('C', '𝒞'), ('D', '𝒟'), ('E', 'ℰ'), ('F', 'ℱ'), ('G', '𝒢'), ('H', 'ℋ'),
   ('I', 'ℐ'), ('J', '𝒥'), ('K', '𝒦'), ('L', 'ℒ'), ('M', 'ℳ'), ('N', '𝒩'), ('O', '𝒪'), ('P', '𝒫'),
   ('Q', '𝒬'), ('R', 'ℛ'), ('S', '𝒮'), ('T', '𝒯'), ('U', '𝒰'), ('V', '𝒱'), ('W', '𝒲'), ('X', '𝒳'),
   ('Y', '𝒴'), ('Z', '𝒵')]

/-- `SYMBOLS`. -/
def symbols : List (String × String) :=
  [("alpha", "α"), ("beta", "β"), ("gamma", "γ"), ("delta", "δ"), ("epsilon", "ε"),
   ("varepsilon", "ε"), ("zeta", "ζ"), ("eta", "η"), ("theta", "θ"), ("vartheta", "ϑ"), ("iota", "ι"),
   ("kappa", "κ"), ("lambda", "λ"), ("mu", "μ"), ("nu", "ν"), ("xi", "ξ"), ("pi", "π"), ("varpi", "ϖ"),
   ("rho", "ρ"), ("varrho", "ϱ"), ("sigma", "σ"), ("varsigma", "ς"), ("tau", "τ"), ("upsilon", "υ"),
   ("phi", "φ"), ("varphi", "φ"), ("chi", "χ"), ("psi", "ψ"), ("omega", "ω"), ("Gamma", "Γ"),
   ("Delta", "Δ"), ("Theta", "Θ"), ("Lambda", "Λ"), ("Xi", "Ξ"), ("Pi", "Π"), ("Sigma", "Σ"),
   ("Upsilon", "Υ"), ("Phi", "Φ"), ("Psi", "Ψ"), ("Omega", "Ω"), ("times", "×"), ("div", "÷"),
   ("pm", "±"), ("mp", "∓"), ("cdot", "⋅"), ("ast", "∗"), ("star", "⋆"), ("circ", "∘"),
   ("bullet", "∙"), ("oplus", "⊕"), ("ominus", "⊖"), ("otimes", "⊗"), ("odot", "⊙"), ("leq", "≤"),
   ("le", "≤"), ("geq", "≥"), ("ge", "≥"), ("neq", "≠"), ("ne", "≠"), ("approx", "≈"), ("equiv", "≡"),
   ("sim", "∼"), ("simeq", "≃"), ("cong", "≅"), ("propto", "∝"), ("ll", "≪"), ("gg", "≫"),
   ("subset", "⊂"), ("subseteq", "⊆"), ("supset", "⊃"), ("supseteq", "⊇"), ("in", "∈"), ("notin", "∉"),
   ("ni", "∋"), ("cup", "∪"), ("cap", "∩"), ("setminus", "∖"), ("emptyset", "∅"), ("varnothing", "∅"),
   ("forall", "∀"), ("exists", "∃"), ("nexists", "∄"), ("neg", "¬"), ("lnot", "¬"), ("land", "∧"),
   ("lor", "∨"), ("wedge", "∧"), ("vee", "∨"), ("perp", "⊥"), ("parallel", "∥"), ("angle", "∠"),
   ("therefore", "∴"), ("because", "∵"), ("mid", "∣"), ("nmid", "∤"), ("infty", "∞"), ("partial", "∂"),
   ("nabla", "∇"), ("hbar", "ℏ"), ("ell", "ℓ"), ("Re", "ℜ"), ("Im", "ℑ"), ("aleph", "ℵ"), ("deg", "°"),
   ("prime", "′"), ("dots", "…"), ("ldots", "…"), ("cdots", "⋯"), ("vdots", "⋮"), ("ddots", "⋱"),
   ("checkmark", "✓"), ("dagger", "†"), ("to", "→"), ("gets", "←"), ("rightarrow", "→"),
   ("leftarrow", "←"), ("Rightarrow", "⇒"), ("Leftarrow", "⇐"), ("leftrightarrow", "↔"),
   ("Leftrightarrow", "⇔"), ("mapsto", "↦"), ("uparrow", "↑"), ("downarrow", "↓"), ("implies", "⟹"),
   ("iff", "⟺"), ("hookrightarrow", "↪"), ("sum", "∑"), ("prod", "∏"), ("coprod", "∐"), ("int", "∫"),
   ("iint", "∬"), ("iiint", "∭"), ("oint", "∮"), ("bigcup", "⋃"), ("bigcap", "⋂"), ("bigoplus", "⨁"),
   ("bigotimes", "⨂"), ("bigvee", "⋁"), ("bigwedge", "⋀"), ("quad", "  "), ("qquad", "    "),
   (",", " "), (";", " "), (":", " "), ("!", ""), (" ", " "), ("\x7b", "\x7b"), ("\x7d", "\x7d"),
   ("%", "%"), ("&", "&"), ("#", "#"), ("_", "_"), ("$", "$")]

/-- `symbol`. -/
def symbol (name : String) : Option String := (symbols.find? fun entry => entry.1 = name).map (·.2)

/-- `alphabet`. -/
def alphabet (text : List Glyph) (table : List (Char × Char)) : List Glyph :=
  text.map fun g => { g with char := ((table.find? fun entry => entry.1 = g.char).map (·.2)).getD g.char }

/-- The characters of a name or a symbol. -/
def written (text : String) : List Glyph := text.toList.map fun c => ⟨c, none⟩

section parser

variable (chars : List Char)

/-- The characters of the source from `start` to `stop`. -/
def slice (start stop : ℕ) : List Glyph :=
  (List.range' start (stop - start)).filterMap fun p => chars[p]?.map fun c => ⟨c, some p⟩

/-! ### Reading without recursion -/

/-- `command_here`. -/
def commandHere (pos : ℕ) : Option String :=
  if chars[pos]? ≠ some '\\' then none
  else
    let name := (chars.drop (pos + 1)).takeWhile Char.isAlpha
    if name.isEmpty then chars[pos + 1]?.map fun c => String.ofList [c] else some (String.ofList name)

/-- What a command named `name` takes of the source, with its backslash. -/
def commandLength (name : String) : ℕ := 1 + max name.toList.length 1

/-- `skip_spaces`. -/
def skipSpaces (s : Cursor) : Cursor := s.skip ((chars.drop s.pos).takeWhile (· = ' ')).length

/-- `eat`. -/
def eat (c : Char) (s : Cursor) : Cursor := if chars[s.pos]? = some c then s.skip 1 else s

/-- `optional`.  The brackets are marked, the degree is kept. -/
def optional (s : Cursor) : Option (List Glyph) × Cursor :=
  if chars[s.pos]? ≠ some '[' then (none, s)
  else
    let start := s.pos + 1
    match (List.range' start (chars.length - start)).find? fun i => chars[i]? = some ']' with
    | none => (none, s)
    | some stop =>
      (some (slice chars start stop), { s with pos := stop + 1, marks := s.marks ++ [s.pos, stop] })

/-- `delimiter`. -/
def delimiter (s : Cursor) : Char × Cursor :=
  let s := skipSpaces chars s
  match commandHere chars s.pos with
  | some name =>
    let c :=
      if name = "\x7b" ∨ name = "lbrace" then '{'
      else if name = "\x7d" ∨ name = "rbrace" then '}'
      else if name = "|" ∨ name = "vert" ∨ name = "Vert" then '|'
      else '.'
    (c, s.mark (commandLength name))
  | none =>
    match chars[s.pos]? with
    | some c => (c, s.mark 1)
    | none => ('.', s)

/-- How much the loop of `raw_argument` reads, and at what depth it ends. -/
def braced : List Char → ℕ → ℕ × ℕ
  | [], depth => (0, depth)
  | _, 0 => (0, 0)
  | c :: rest, depth + 1 =>
    let after := braced rest (if c = '{' then depth + 2 else if c = '}' then depth else depth + 1)
    (after.1 + 1, after.2)

/-- `raw_argument`.  The slice panics if the brace is the last character. -/
def rawArgument (s : Cursor) : List Glyph × Cursor :=
  let s := skipSpaces chars (s.note (.raw s.pos))
  if chars[s.pos]? ≠ some '{' then
    match chars[s.pos]? with
    | some c => ([⟨c, some s.pos⟩], s.skip 1)
    | none => ([], s)
  else
    let s := s.skip 1
    let start := s.pos
    let s := s.skip (braced (chars.drop start) 1).1
    if s.pos - 1 < start then ([], { s with panicked := true }) else (slice chars start (s.pos - 1), s)

/-! ### Reading over a given `primary` -/

section

variable (prim : Frame → Cursor → Node × Cursor)

/-- The loop of `list`, with a bound on its turns. -/
def listLoop (atom : Cursor → Node × Cursor) (group : Bool) : ℕ → Cursor → List Node × Cursor
  | 0, s => ([], { s with exhausted := true })
  | n + 1, s =>
    match chars[s.pos]? with
    | none => ([], s)
    | some c =>
      if c = '}' then
        if group then ([], s) else listLoop atom group n (s.skip 1)
      else if commandHere chars s.pos = some "right" then ([], s)
      else
        let first := atom s
        let rest := listLoop atom group n first.2
        (first.1 :: rest.1, rest.2)

/-- An atom that has a script already is given another in its place. -/
def noteAgain (script : Option Node) (s : Cursor) : Cursor :=
  match script with
  | none => s
  | some script => s.note (.again script)

/-- The loop of `atom`, with a bound on its turns. -/
def scriptLoop (frame : Frame) : ℕ → Option Node → Option Node → Cursor → (Option Node × Option Node) × Cursor
  | 0, sup, sub, s => ((sup, sub), { s with exhausted := true })
  | n + 1, sup, sub, s =>
    if chars[s.pos]? = some '^' then
      let script := prim frame ((noteAgain sup s).skip 1)
      scriptLoop frame n (some script.1) sub script.2
    else if chars[s.pos]? = some '_' then
      let script := prim frame ((noteAgain sub s).skip 1)
      scriptLoop frame n sup (some script.1) script.2
    else ((sup, sub), s)

/-- `atom`. -/
def atom (frame : Frame) (s : Cursor) : Node × Cursor :=
  let base := prim frame s
  let scripts := scriptLoop chars prim frame (chars.length + 1) none none base.2
  match scripts.1 with
  | (none, none) => (base.1, scripts.2)
  | (sup, sub) => (.script base.1 sup sub, scripts.2)

/-- `list`. -/
def list (frame : Frame) (group : Bool) (s : Cursor) : List Node × Cursor :=
  listLoop chars (atom chars prim frame) group (chars.length + 1) s

/-- `argument`. -/
def argument (frame : Frame) (s : Cursor) : Node × Cursor :=
  prim frame.argument (skipSpaces chars (s.note (.argument s.pos frame.argument.chain)))

/-- `command`, for `\left`. -/
def leftCommand (frame : Frame) (s : Cursor) : Node × Cursor :=
  let opening := delimiter chars s
  let inner := list chars prim frame.inner false opening.2
  if commandHere chars inner.2.pos = some "right" then
    let closing := delimiter chars (inner.2.mark 6)
    (.delim opening.1 closing.1 (.list inner.1), closing.2)
  else (.delim opening.1 '.' (.list inner.1), inner.2)

/-- `command`. -/
def command (frame : Frame) (s : Cursor) : Node × Cursor :=
  match commandHere chars s.pos with
  | none => (.sym [], s.mark 1)
  | some name =>
    let s := s.mark (commandLength name)
    if name ∈ ["frac", "dfrac", "tfrac"] then
      let num := argument chars prim frame s
      let den := argument chars prim frame num.2
      (.frac num.1 den.1, den.2)
    else if name = "sqrt" then
      let degree := optional chars s
      let inner := argument chars prim frame degree.2
      (.sqrt inner.1 degree.1, inner.2)
    else if name ∈ ["text", "textrm", "mathrm", "mathbf", "mathit", "operatorname"] then
      let text := rawArgument chars s
      (.sym text.1, text.2)
    else if name = "mathbb" then
      let text := rawArgument chars s
      (.sym (alphabet text.1 blackboard), text.2)
    else if name ∈ ["mathcal", "mathscr"] then
      let text := rawArgument chars s
      (.sym (alphabet text.1 scriptCaps), text.2)
    else if name = "left" ∧ frame.depth < maxDepth then leftCommand chars prim frame s
    else if name = "right" then (.sym [], s)
    else if name ∈ big then (.big (written ((symbol name).getD name)), s)
    else (.sym (written ((symbol name).getD name)), s)

/-- `primary`, over the calls in it. -/
def primaryBody (frame : Frame) (s : Cursor) : Node × Cursor :=
  match chars[s.pos]? with
  | none => (.sym [], s)
  | some c =>
    if c = '{' ∧ frame.depth < maxDepth then
      let inner := list chars prim frame.inner true (s.skip 1)
      (.list inner.1, eat chars '}' inner.2)
    else if c = '\\' then command chars prim frame s
    else if c = '^' ∨ c = '_' then (.sym [], s)
    else (.sym [⟨c, some s.pos⟩], s.skip 1)

end

/-- `primary`, with a bound on the calls in each other. -/
def primary : ℕ → Frame → Cursor → Node × Cursor
  | 0, frame, s => (.sym [], { s with exhausted := true, deepest := max s.deepest frame.level })
  | n + 1, frame, s => primaryBody chars (primary n) frame { s with deepest := max s.deepest frame.level }

/-- The list that `parse` reads. -/
def parseList : List Node × Cursor := list chars (primary chars (chars.length + 1)) ⟨1, 0, 0⟩ false .start

end parser

/-- What stops a call: a slice out of range. -/
inductive Fault
  | slice
  | exhausted
deriving DecidableEq

/-- `parse`. -/
def parse (source : String) : Except Fault (List Node) :=
  let result := parseList source.toList
  if result.2.panicked then .error .slice else if result.2.exhausted then .error .exhausted else .ok result.1

end Math
end Why2
