/-
# Mentions

A name behind an `@` in a line of text.  The reader of a message looks for a mention of
themselves (`mentions` in `chat/src/bin/client/tui/palette.rs`), and the palette offers
names for one that is being typed at the end of the input line (`mention`, `offer`, and
`complete_selection` in `tui/mod.rs`).

A name is mentioned exactly if it stands, whatever its case, between an `@` that follows no
character of a name and the end of the word (`mentions_iff`).  Over any run of keys the
palette offers the known users, and everyone, whose names begin with what is typed; its
selection is one of them, and completing it mentions that user, whatever is written behind it
(`completed_mention`).

The users are those the server lets in, so their names are ASCII.  What the palette shows for
a command is another list, of which only the selection matters here.
-/

import Why2.Chat.AccountStore
import Why2.Chat.Login
import Why2.Lib.Runs

namespace Why2
namespace Mention

open Lib

/-! ### The reader -/

/-- `MENTION_EVERYONE`. -/
def mentionEveryone : String := "everyone"

/-- `mention_char`. -/
def mentionChar (c : Char) : Bool := c.isAlphanum || c = '_' || c = '-'

/-- The loop of `mentions`: what is left of the text, and the character before it. -/
def mentionsFrom (username : String) : ℕ → Option Char → List Char → Bool
  | 0, _, _ => false
  | fuel + 1, before, rest =>
    match rest.findIdx? (· = '@') with
    | none => false
    | some pos =>
      let boundary := ((rest.take pos).getLast?.or before).all fun c => !mentionChar c
      let name := rest.drop (pos + 1)
      let word := String.ofList (name.takeWhile mentionChar)
      if boundary && (eqIgnoreAsciiCase word username || eqIgnoreAsciiCase word mentionEveryone) then true
      else mentionsFrom username fuel (some '@') name

/-- `mentions`. -/
def mentions (text username : String) : Bool :=
  if username = "" then false else mentionsFrom username (text.length + 1) none text.toList

/-- Some text, behind the character before it, has a mention in it. -/
def Mentioned (username : String) (before : Option Char) (text : List Char) : Prop :=
  ∃ first word rest, text = first ++ '@' :: (word ++ rest) ∧
    (∀ c ∈ first.getLast?.or before, mentionChar c = false) ∧ (∀ c ∈ word, mentionChar c = true) ∧
    (∀ c ∈ rest.head?, mentionChar c = false) ∧
    (eqIgnoreAsciiCase (String.ofList word) username = true ∨
      eqIgnoreAsciiCase (String.ofList word) mentionEveryone = true)

/-- The word is as long as it can be. -/
theorem takeWhile_word {word rest : List Char} (hword : ∀ c ∈ word, mentionChar c = true)
    (hrest : ∀ c ∈ rest.head?, mentionChar c = false) : (word ++ rest).takeWhile mentionChar = word := by
  rw [List.takeWhile_append_of_pos hword]
  cases rest with
  | nil => rw [List.takeWhile_nil, List.append_nil]
  | cons c rest => rw [List.takeWhile_cons_of_neg (by simp [hrest c rfl]), List.append_nil]

/-- The character before a place behind an `@`. -/
theorem last_behind (first more : List Char) (before : Option Char) :
    (first ++ '@' :: more).getLast?.or before = more.getLast?.or (some '@') := by
  rw [List.getLast?_append, List.getLast?_cons, Option.some_or]
  cases more.getLast? <;> rfl

/-- A mention is at the first `@`, or behind it. -/
theorem mentioned_split {username : String} {before : Option Char} {first name : List Char}
    (hfirst : '@' ∉ first) :
    Mentioned username before (first ++ '@' :: name) ↔
      ((∀ c ∈ first.getLast?.or before, mentionChar c = false) ∧
        (eqIgnoreAsciiCase (String.ofList (name.takeWhile mentionChar)) username = true ∨
          eqIgnoreAsciiCase (String.ofList (name.takeWhile mentionChar)) mentionEveryone = true)) ∨
      Mentioned username (some '@') name := by
  constructor
  · rintro ⟨first', word, rest, heq, hbefore, hword, hrest, hname⟩
    rcases List.append_eq_append_iff.1 heq with ⟨more, rfl, hmore⟩ | ⟨more, rfl, hmore⟩
    · cases more with
      | nil =>
        obtain ⟨-, rfl⟩ := List.cons.inj hmore
        rw [List.append_nil] at hbefore
        exact .inl ⟨hbefore, by rwa [takeWhile_word hword hrest]⟩
      | cons c more =>
        obtain ⟨rfl, rfl⟩ := List.cons.inj hmore
        rw [last_behind] at hbefore
        exact .inr ⟨more, word, rest, rfl, hbefore, hword, hrest, hname⟩
    · cases more with
      | nil =>
        obtain ⟨-, rfl⟩ := List.cons.inj hmore
        rw [List.append_nil]
        exact .inl ⟨hbefore, by rwa [takeWhile_word hword hrest]⟩
      | cons c more =>
        obtain ⟨rfl, -⟩ := List.cons.inj hmore
        exact absurd (List.mem_append_right _ List.mem_cons_self) hfirst
  · rintro (⟨hbefore, hname⟩ | ⟨first', word, rest, rfl, hbefore, hword, hrest, hname⟩)
    · refine ⟨first, name.takeWhile mentionChar, name.dropWhile mentionChar, ?_, hbefore, ?_, ?_, hname⟩
      · rw [List.takeWhile_append_dropWhile]
      · exact fun c hc => List.mem_takeWhile_imp hc
      · intro c hc
        have hnot := List.head?_dropWhile_not mentionChar name
        rwa [Option.mem_def.1 hc] at hnot
    · refine ⟨first ++ '@' :: first', word, rest, by simp, ?_, hword, hrest, hname⟩
      rwa [last_behind]

/-- The loop finds a mention in what is left, if it has enough turns. -/
theorem mentionsFrom_iff {username : String} {fuel : ℕ} {before : Option Char} {text : List Char}
    (hfuel : text.length < fuel) :
    mentionsFrom username fuel before text = true ↔ Mentioned username before text := by
  induction fuel generalizing before text with
  | zero => exact absurd hfuel (Nat.not_lt_zero _)
  | succ fuel ih =>
    rw [mentionsFrom]
    cases hfind : text.findIdx? (· = '@') with
    | none =>
      have hnot : '@' ∉ text := fun hmem => by simpa using List.findIdx?_eq_none_iff.1 hfind '@' hmem
      refine ⟨(fun h => by cases h), ?_⟩
      rintro ⟨first, word, rest, rfl, -⟩
      exact absurd (List.mem_append_right _ List.mem_cons_self) hnot
    | some pos =>
      obtain ⟨hlt, hat, hbefore⟩ := List.findIdx?_eq_some_iff_getElem.1 hfind
      have hsplit : text = text.take pos ++ '@' :: text.drop (pos + 1) := by
        rw [← of_decide_eq_true hat, ← List.drop_eq_getElem_cons hlt, List.take_append_drop]
      have hfirst : '@' ∉ text.take pos := by
        intro hmem
        obtain ⟨j, hj, hjat⟩ := List.mem_take_iff_getElem.1 hmem
        exact hbefore j (by omega) (decide_eq_true hjat)
      have hrest : mentionsFrom username fuel (some '@') (text.drop (pos + 1)) = true ↔ _ :=
        ih (by rw [List.length_drop]; omega)
      have hboundary : (((text.take pos).getLast?.or before).all fun c => !mentionChar c) = true ↔
          ∀ c ∈ (text.take pos).getLast?.or before, mentionChar c = false := by
        cases (text.take pos).getLast?.or before <;> simp
      have hmentioned : Mentioned username before (text.take pos ++ '@' :: text.drop (pos + 1)) ↔ _ :=
        mentioned_split hfirst
      rw [← hsplit, ← hrest, ← hboundary] at hmentioned
      rw [hmentioned]
      dsimp only
      rw [Bool.if_true_left, Bool.decide_eq_true, Bool.or_eq_true, Bool.and_eq_true, Bool.or_eq_true]

theorem mentions_of_ne {text username : String} (hname : username ≠ "") :
    mentions text username = true ↔ Mentioned username none text.toList := by
  rw [mentions, if_neg hname, mentionsFrom_iff (by rw [String.length_toList]; omega)]

/-- **Who is mentioned**: exactly those whose name, or everyone's, stands between an `@` that
follows no character of a name and the end of the word, whatever its case. -/
theorem mentions_iff (text username : String) :
    mentions text username = true ↔ username ≠ "" ∧ Mentioned username none text.toList := by
  by_cases hname : username = ""
  · simp [mentions, hname]
  · rw [mentions_of_ne hname]
    exact ⟨fun hmentioned => ⟨hname, hmentioned⟩, And.right⟩

/-! ### The palette -/

/-- `partial`: the word at the end of the line. -/
def partialValue (input : List Char) : List Char := input.rtakeWhile fun c => !isWhitespace c

/-- `Values`, for a mention. -/
structure Values where
  found : List String
  selected : ℕ
  start : ℕ
deriving DecidableEq

/-- `offer`, with the selection of the list that was shown before. -/
def offer (previous : Option ℕ) (found : List String) (typed input : List Char) : Values :=
  let selected := match found.findIdx? (eqIgnoreAsciiCase · (String.ofList typed)), previous with
    | some place, _ => place
    | none, some selected => min selected (found.length - 1)
    | none, none => 0
  ⟨found, selected, input.length - typed.length⟩

/-- The values that `mention` finds. -/
def offered (typed : List Char) (users : List String) : List String :=
  ((mentionEveryone :: users).map ("@" ++ ·)).filter fun value =>
    (typed.map Char.toLower).isPrefixOf (value.toList.map Char.toLower)

/-- `mention`. -/
def mention (previous : Option ℕ) (input : List Char) (users : List String) : Option Values :=
  let typed := partialValue input
  match typed with
  | '@' :: name =>
    if name.all mentionChar ∧ offered typed users ≠ [] then some (offer previous (offered typed users) typed input)
    else none
  | _ => none

namespace Values

/-- `Values::selection`. -/
def selection (v : Values) : Option String := v.found[v.selected]?

/-- `Values::typed`. -/
def typed (v : Values) (input : List Char) : Bool :=
  v.selection.any fun value => eqIgnoreAsciiCase value (trim (String.ofList (input.drop v.start)))

end Values

/-- What the palette shows: a list of names, another list with its selection, or nothing. -/
inductive Mode
  | mention (values : Values)
  | other (selected : Option ℕ)

/-- The selection of the list that is shown. -/
def Mode.selected : Mode → Option ℕ
  | .mention values => some values.selected
  | .other selected => selected

/-- The input line and its palette, and whether the session lets messages through. -/
structure Line where
  input : List Char
  mode : Mode
  sending : Bool
  /-- The users when the palette was last updated: nothing reads them. -/
  known : List String

/-- What is done to the line. -/
inductive LineAction
  /-- The line is edited, or anything happens to a list of another mode.  The other modes
  show what they like. -/
  | edited (input : List Char) (users : List String) (other : Option ℕ)
  /-- Another line of the input's history, while no list of names is shown. -/
  | recalled (input : List Char)
  | next
  | previous
  /-- Esc, a new line, the line is sent, or the session ends: the palette is hidden. -/
  | dismissed (input : List Char)
  /-- The session begins to let messages through, or ends. -/
  | sending (on : Bool)
  /-- Tab, or Enter, which completes only what is not spelled out. -/
  | complete (force : Bool) (users : List String) (other : Option ℕ)

namespace Line

/-- An empty line, before the login. -/
def start : Line := ⟨[], .other none, false, []⟩

/-- `Palette::dismiss`. -/
def dismiss (s : Line) (input : List Char) : Line := { s with input, mode := .other none }

/-- `Palette::update`. -/
def update (s : Line) (input : List Char) (users : List String) (other : Option ℕ) : Line :=
  let s := { s with known := users }
  -- The login prompt owns the line until then.
  if !s.sending then s.dismiss input
  else
    { s with
      input
      mode := match Mention.mention s.mode.selected input users with
        | some values => .mention values
        | none => .other other }

/-- `Palette::next` and `Palette::previous`. -/
def move (s : Line) (f : Values → ℕ) : Line :=
  match s.mode with
  | .mention values => { s with mode := .mention { values with selected := f values } }
  | .other _ => s

/-- `complete_selection`, of a mention. -/
def complete (s : Line) (force : Bool) (users : List String) (other : Option ℕ) : Option Line :=
  match s.mode with
  | .other _ => none
  | .mention values =>
    (values.selection.filter fun _ => force || !values.typed s.input).map fun value =>
      s.update (s.input.take values.start ++ value.toList) users other

/-- One action. -/
def step (s : Line) : LineAction → Option Line
  | .edited input users other => some (s.update input users other)
  | .recalled input =>
    match s.mode with
    | .mention _ => none
    | .other _ => some { s with input }
  | .next => some (s.move fun values => (values.selected + 1) % values.found.length)
  | .previous =>
    some (s.move fun values => if values.selected = 0 then values.found.length - 1 else values.selected - 1)
  | .dismissed input => some (s.dismiss input)
  | .sending on => some { s with sending := on }
  | .complete force users other => s.complete force users other

end Line

/-- Some rules of the server let the name in, of one character at least. -/
def LetIn (user : String) : Prop := ∃ rules : NameRules, 1 ≤ rules.minLength ∧ rules.allows user = true

/-- A name that can be mentioned. -/
def ValidName (user : String) : Prop := user ≠ "" ∧ ∀ c ∈ user.toList, mentionChar c = true

/-- A name that the server lets in can be mentioned. -/
theorem LetIn.validName {user : String} (h : LetIn user) : ValidName user := by
  obtain ⟨rules, hmin, hallows⟩ := h
  obtain ⟨hlength, -, hchars, -⟩ := of_decide_eq_true hallows
  refine ⟨?_, fun c hc => List.all_eq_true.1 hchars c hc⟩
  rintro rfl
  have hzero : "".utf8ByteSize = 0 := rfl
  omega

/-- So can everyone's name. -/
theorem validName_everyone : ValidName mentionEveryone := ⟨by decide, List.all_eq_true.1 rfl⟩

/-- No blank is part of a name. -/
theorem not_isWhitespace_of_mentionChar {c : Char} (h : mentionChar c = true) : isWhitespace c = false := by
  have halnum : c.isAlphanum = (decide (c.val ≥ 'A'.val ∧ c.val ≤ 'Z'.val) ||
      (decide (c.val ≥ 'a'.val) && decide (c.val ≤ 'z'.val)) ||
      (decide (c.val ≥ '0'.val) && decide (c.val ≤ '9'.val))) := rfl
  have hrange : 33 ≤ c.val.toNat ∧ c.val.toNat ≤ 126 := by
    simp only [mentionChar, halnum, Bool.or_eq_true, decide_eq_true_eq, Bool.and_eq_true, UInt32.le_iff_toNat_le,
      ge_iff_le] at h
    obtain (h | rfl) | rfl := h
    · change (65 ≤ c.val.toNat ∧ c.val.toNat ≤ 90 ∨ 97 ≤ c.val.toNat ∧ c.val.toNat ≤ 122) ∨
        48 ≤ c.val.toNat ∧ c.val.toNat ≤ 57 at h
      omega
    all_goals decide
  by_contra hwhite
  simp only [isWhitespace, Bool.not_eq_false, Bool.or_eq_true, Bool.and_eq_true, decide_eq_true_eq, Char.le_def,
    UInt32.le_iff_toNat_le, Char.ext_iff, ← UInt32.toNat_inj] at hwhite
  change ((((((((((9 ≤ c.val.toNat ∧ c.val.toNat ≤ 13) ∨ c.val.toNat = 32) ∨ c.val.toNat = 0x85) ∨
    c.val.toNat = 0xa0) ∨ c.val.toNat = 0x1680) ∨ (0x2000 ≤ c.val.toNat ∧ c.val.toNat ≤ 0x200a)) ∨
    c.val.toNat = 0x2028) ∨ c.val.toNat = 0x2029) ∨ c.val.toNat = 0x202f) ∨ c.val.toNat = 0x205f) ∨
    c.val.toNat = 0x3000 at hwhite
  omega

/-- The line up to the word at its end. -/
theorem partialValue_split (input : List Char) :
    ∃ kept, input = kept ++ partialValue input ∧
      input.take (input.length - (partialValue input).length) = kept ∧
      ∀ c ∈ kept.getLast?, isWhitespace c = true := by
  have hsplit : input = (input.reverse.dropWhile fun c => !isWhitespace c).reverse ++ partialValue input := by
    rw [partialValue, List.rtakeWhile, ← List.reverse_append, List.takeWhile_append_dropWhile, List.reverse_reverse]
  refine ⟨_, hsplit, ?_, fun c hc => ?_⟩
  · have hlength := congrArg List.length hsplit
    rw [List.length_append] at hlength
    rw [show input.length - (partialValue input).length = _ from Nat.sub_eq_of_eq_add hlength]
    exact (congrArg (List.take _) hsplit).trans List.take_left
  · rw [List.getLast?_reverse] at hc
    have hnot := List.head?_dropWhile_not (fun c => !isWhitespace c) input.reverse
    rw [Option.mem_def.1 hc] at hnot
    simpa using hnot

/-- A word behind a blank is the one at the end of the line. -/
theorem partialValue_append {kept word : List Char} (hkept : ∀ c ∈ kept.getLast?, isWhitespace c = true)
    (hword : ∀ c ∈ word, isWhitespace c = false) : partialValue (kept ++ word) = word := by
  have hall : ∀ c ∈ word.reverse, (!isWhitespace c) = true := fun c hc => by
    rw [hword c (List.mem_reverse.1 hc)]
    rfl
  rw [partialValue, List.rtakeWhile, List.reverse_append, List.takeWhile_append_of_pos hall]
  have hblank : kept.reverse.takeWhile (fun c => !isWhitespace c) = [] := by
    cases hrev : kept.reverse with
    | nil => rfl
    | cons c rest =>
      have hlast : kept.getLast? = some c := by rw [← List.head?_reverse, hrev, List.head?_cons]
      rw [List.takeWhile_cons_of_neg (by simp [hkept c hlast])]
  rw [hblank, List.append_nil, List.reverse_reverse]

/-- **A name that is completed is mentioned**, whatever is written behind it. -/
theorem mentions_completed {kept tail : List Char} {user : String} (huser : ValidName user)
    (hkept : ∀ c ∈ kept.getLast?, isWhitespace c = true) (htail : ∀ c ∈ tail.head?, mentionChar c = false) :
    mentions (String.ofList (kept ++ '@' :: user.toList ++ tail)) user = true := by
  refine (mentions_of_ne huser.1).2 ⟨kept, user.toList, tail, ?_, fun c hc => ?_, huser.2, htail, .inl ?_⟩
  · rw [String.toList_ofList, List.append_assoc, List.cons_append]
  · rw [Option.or_none] at hc
    by_contra hchar
    have hnot := not_isWhitespace_of_mentionChar (Bool.not_eq_false _ ▸ hchar)
    rw [hkept c hc] at hnot
    cases hnot
  · rw [String.ofList_toList]
    exact decide_eq_true rfl

/-! ### Runs of the palette -/

/-- The selection is in the list. -/
theorem offer_selected {previous : Option ℕ} {found : List String} (typed input : List Char) (hfound : found ≠ []) :
    (offer previous found typed input).selected < found.length := by
  have hpos := List.length_pos_of_ne_nil hfound
  unfold offer
  dsimp only
  split
  case h_1 place _ hplace =>
    obtain ⟨hlt, -⟩ := List.findIdx?_eq_some_iff_getElem.1 hplace
    exact hlt
  case h_2 => exact (Nat.min_le_right _ _).trans_lt (Nat.sub_lt hpos Nat.one_pos)
  case h_3 => exact hpos

namespace Line

/-- What the palette shows is what it offers for the line. -/
structure Offers (s : Line) (v : Values) : Prop where
  typed : ∃ name, partialValue s.input = '@' :: name ∧ ∀ c ∈ name, mentionChar c = true
  found : v.found = offered (partialValue s.input) s.known
  selected : v.selected < v.found.length
  start : v.start = s.input.length - (partialValue s.input).length

/-- The users are those that the server lets in, and the palette shows what it offers. -/
structure Inv (s : Line) : Prop where
  known : ∀ user ∈ s.known, LetIn user
  offers : ∀ v, s.mode = .mention v → s.Offers v

/-- The users are those that the server lets in. -/
def Known : LineAction → Prop
  | .edited _ users _ => ∀ user ∈ users, LetIn user
  | .complete _ users _ => ∀ user ∈ users, LetIn user
  | _ => True

/-- A hidden palette shows nothing. -/
theorem Inv.dismiss {s : Line} (hknown : ∀ user ∈ s.known, LetIn user) (input : List Char) : (s.dismiss input).Inv :=
  ⟨hknown, fun v hv => by cases hv⟩

/-- What is shown for the line is what is offered for it. -/
theorem Inv.update (s : Line) (input : List Char) {users : List String} (other : Option ℕ)
    (husers : ∀ user ∈ users, LetIn user) : (s.update input users other).Inv := by
  rw [Line.update]
  dsimp only
  split
  case isTrue => exact .dismiss husers input
  case isFalse =>
    refine ⟨husers, fun v hv => ?_⟩
    dsimp only at hv
    split at hv
    case h_2 => cases hv
    case h_1 values hmention =>
      obtain rfl := Mode.mention.inj hv
      rw [Mention.mention] at hmention
      split at hmention
      case h_2 => cases hmention
      case h_1 name hname =>
        obtain ⟨⟨hchars, hsome⟩, hvalues⟩ := Option.ite_none_right_eq_some.1 hmention
        obtain rfl := Option.some.inj hvalues
        exact ⟨⟨name, hname, List.all_eq_true.1 hchars⟩, rfl, offer_selected _ _ hsome, rfl⟩

/-- The selection moves within the list. -/
theorem Inv.move {s : Line} (h : s.Inv) {f : Values → ℕ}
    (hf : ∀ v, v.selected < v.found.length → f v < v.found.length) : (s.move f).Inv := by
  rw [Line.move]
  split
  case h_1 values hmode =>
    refine ⟨h.known, fun v hv => ?_⟩
    obtain rfl := Mode.mention.inj hv
    obtain ⟨htyped, hfound, hselected, hstart⟩ := h.offers values hmode
    exact ⟨htyped, hfound, hf values hselected, hstart⟩
  case h_2 => exact h

/-- **One action:** the palette still shows what it offers. -/
theorem Inv.step {s s' : Line} {action : LineAction} (h : s.Inv) (hcond : Known action)
    (hstep : s.step action = some s') : s'.Inv := by
  cases action with
  | edited input users other =>
    obtain rfl := Option.some.inj hstep
    exact .update s input other hcond
  | recalled input =>
    rw [Line.step] at hstep
    split at hstep
    case h_1 => cases hstep
    case h_2 other hmode =>
      obtain rfl := Option.some.inj hstep
      refine ⟨h.known, fun v hv => ?_⟩
      dsimp only at hv
      rw [hmode] at hv
      cases hv
  | next =>
    obtain rfl := Option.some.inj hstep
    exact h.move fun v hv => Nat.mod_lt _ (Nat.zero_lt_of_lt hv)
  | previous =>
    obtain rfl := Option.some.inj hstep
    refine h.move fun v hv => ?_
    split <;> omega
  | dismissed input =>
    obtain rfl := Option.some.inj hstep
    exact .dismiss h.known input
  | sending on =>
    obtain rfl := Option.some.inj hstep
    exact ⟨h.known, fun v hv => ⟨(h.offers v hv).typed, (h.offers v hv).found, (h.offers v hv).selected,
      (h.offers v hv).start⟩⟩
  | complete force users other =>
    rw [Line.step, Line.complete] at hstep
    split at hstep
    case h_1 => cases hstep
    case h_2 values hmode =>
      obtain ⟨value, -, rfl⟩ := Option.map_eq_some_iff.1 hstep
      exact .update s _ other hcond

/-- **What is offered**: everyone's and the users' names that begin with what is typed, whatever the case. -/
theorem mem_offered_iff {typed : List Char} {users : List String} {value : String} : value ∈ offered typed users ↔
    ∃ user, (user = mentionEveryone ∨ user ∈ users) ∧ value = "@" ++ user ∧
      typed.map Char.toLower <+: value.toList.map Char.toLower := by
  constructor
  · intro h
    obtain ⟨hmem, hprefix⟩ := List.mem_filter.1 h
    obtain ⟨user, huser, rfl⟩ := List.mem_map.1 hmem
    exact ⟨user, List.mem_cons.1 huser, rfl, List.isPrefixOf_iff_prefix.1 hprefix⟩
  · rintro ⟨user, huser, rfl, hprefix⟩
    exact List.mem_filter.2 ⟨List.mem_map.2 ⟨user, List.mem_cons.2 huser, rfl⟩, List.isPrefixOf_iff_prefix.2 hprefix⟩

/-- What is selected is the name of a known user, or everyone's. -/
theorem Offers.selection {s : Line} {v : Values} (h : s.Offers v) :
    ∃ user, (user = mentionEveryone ∨ user ∈ s.known) ∧ v.selection = some ("@" ++ user) := by
  obtain ⟨value, hvalue⟩ : ∃ value, v.found[v.selected]? = some value :=
    ⟨_, List.getElem?_eq_getElem h.selected⟩
  have hmem := List.mem_of_getElem? hvalue
  rw [h.found] at hmem
  obtain ⟨user, huser, rfl, -⟩ := mem_offered_iff.1 hmem
  exact ⟨user, huser, hvalue⟩

/-- How a mention is written. -/
theorem toList_at (user : String) : ("@" ++ user).toList = '@' :: user.toList := by
  rw [String.toList_append]
  rfl

/-- A mention is one word. -/
theorem not_isWhitespace_of_validName {user : String} (h : ValidName user) :
    ∀ c ∈ '@' :: user.toList, isWhitespace c = false := by
  intro c hc
  rcases List.mem_cons.1 hc with rfl | hc
  · decide
  · exact not_isWhitespace_of_mentionChar (h.2 c hc)

/-- There is nothing to trim off a word. -/
theorem trim_of_forall {word : List Char} (h : ∀ c ∈ word, isWhitespace c = false) :
    trim (String.ofList word) = String.ofList word := by
  have hleft : word.dropWhile isWhitespace = word := by
    cases word with
    | nil => rfl
    | cons c word => rw [List.dropWhile_cons_of_neg (by simp [h c List.mem_cons_self])]
  have hright : word.rdropWhile isWhitespace = word :=
    List.rdropWhile_eq_self_iff.2 fun hne => by simp [h _ (List.getLast_mem hne)]
  rw [trim, String.toList_ofList, hleft, hright]

/-- A name that is spelled out is what the palette selects, and there is nothing to complete. -/
theorem update_spelled (s : Line) {kept : List Char} {user : String} {users : List String} (other : Option ℕ)
    (hsending : s.sending = true) (huser : ValidName user) (hmem : user ∈ mentionEveryone :: users)
    (hkept : ∀ c ∈ kept.getLast?, isWhitespace c = true) :
    ∃ v, (s.update (kept ++ '@' :: user.toList) users other).mode = .mention v ∧
      v.typed (kept ++ '@' :: user.toList) = true := by
  have hblank := not_isWhitespace_of_validName huser
  have hpartial := partialValue_append hkept hblank
  have hoffered : "@" ++ user ∈ offered ('@' :: user.toList) users := by
    refine mem_offered_iff.2 ⟨user, List.mem_cons.1 hmem, rfl, ?_⟩
    rw [toList_at]
  have hsome : offered ('@' :: user.toList) users ≠ [] := List.ne_nil_of_mem hoffered
  have hmention : Mention.mention s.mode.selected (kept ++ '@' :: user.toList) users =
      some (offer s.mode.selected (offered ('@' :: user.toList) users) ('@' :: user.toList)
        (kept ++ '@' :: user.toList)) := by
    rw [Mention.mention, hpartial]
    exact if_pos ⟨List.all_eq_true.2 huser.2, hsome⟩
  have hmode : (s.update (kept ++ '@' :: user.toList) users other).mode = .mention
      (offer s.mode.selected (offered ('@' :: user.toList) users) ('@' :: user.toList)
        (kept ++ '@' :: user.toList)) := by
    rw [update]
    simp only [hsending, Bool.not_true, Bool.false_eq_true, if_false, hmention]
  refine ⟨_, hmode, ?_⟩
  have hdrop : (kept ++ '@' :: user.toList).drop ((kept ++ '@' :: user.toList).length - ('@' :: user.toList).length) =
      '@' :: user.toList := by
    rw [List.length_append, Nat.add_sub_cancel, List.drop_left]
  -- The name itself is among what is found, so a spelling of it is selected.
  cases hfind : (offered ('@' :: user.toList) users).findIdx?
      (eqIgnoreAsciiCase · (String.ofList ('@' :: user.toList))) with
  | none =>
    have hnot := List.findIdx?_eq_none_iff.1 hfind _ hoffered
    have hsame : eqIgnoreAsciiCase ("@" ++ user) (String.ofList ('@' :: user.toList)) = true := by
      rw [eqIgnoreAsciiCase, toList_at, String.toList_ofList]
      exact decide_eq_true rfl
    rw [hsame] at hnot
    cases hnot
  | some index =>
    obtain ⟨hlt, hexact, -⟩ := List.findIdx?_eq_some_iff_getElem.1 hfind
    rw [Values.typed, Values.selection]
    unfold offer
    simp only [hfind, hdrop, trim_of_forall hblank, List.getElem?_eq_getElem hlt, Option.any_some]
    exact hexact

/-- **What is completed is a mention.**  Over every run of keys, with users that the server lets
in, a palette of names shows everyone and the known users whose names begin with the word that
is typed, and it selects one of them.  The line that is completed mentions that user, whatever
is written behind it, and Enter then has nothing more to complete. -/
theorem completed_mention {actions : List LineAction} {s : Line} (hexec : exec step start actions = some s)
    (hmeets : Meets step (fun _ action => Known action) start actions) :
    ∀ v, s.mode = .mention v →
      v.found = offered (partialValue s.input) s.known ∧
      (∀ value, value ∈ v.found ↔ ∃ user, (user = mentionEveryone ∨ user ∈ s.known) ∧ value = "@" ++ user ∧
        (partialValue s.input).map Char.toLower <+: value.toList.map Char.toLower) ∧
      ∃ user, (user = mentionEveryone ∨ user ∈ s.known) ∧ v.selection = some ("@" ++ user) ∧
        (∀ tail, (∀ c ∈ tail.head?, mentionChar c = false) →
          mentions (String.ofList (s.input.take v.start ++ '@' :: user.toList ++ tail)) user = true) ∧
        ∀ users other s', user ∈ mentionEveryone :: users → s.complete true users other = some s' →
          s'.input = s.input.take v.start ++ '@' :: user.toList ∧
          ∀ users' other', s'.complete false users' other' = none := by
  intro v hv
  have hinv : s.Inv := exec_induct (fun _ _ _ h hcond hstep => h.step hcond hstep)
    ⟨(fun _ h => by cases h), fun v hv => by cases hv⟩ hmeets hexec
  have hoffers := hinv.offers v hv
  obtain ⟨user, hknown, hselection⟩ := hoffers.selection
  have huser : ValidName user := by
    rcases hknown with rfl | hknown
    · exact validName_everyone
    · exact (hinv.known user hknown).validName
  obtain ⟨kept, -, hkept, hblank⟩ := partialValue_split s.input
  rw [← hoffers.start] at hkept
  rw [hkept]
  refine ⟨hoffers.found, fun value => hoffers.found ▸ mem_offered_iff, user, hknown, hselection,
    fun tail htail => mentions_completed huser hblank htail, ?_⟩
  intro users other s' hmem hcomplete
  rw [complete, hv] at hcomplete
  dsimp only at hcomplete
  rw [hselection, hkept] at hcomplete
  change some (s.update (kept ++ ("@" ++ user).toList) users other) = some s' at hcomplete
  rw [toList_at] at hcomplete
  obtain rfl := Option.some.inj hcomplete
  have hinput : (s.update (kept ++ '@' :: user.toList) users other).input = kept ++ '@' :: user.toList := by
    rw [update]
    split <;> rfl
  refine ⟨hinput, fun users' other' => ?_⟩
  rw [complete]
  cases hsending : s.sending with
  | false =>
    have hmode : (s.update (kept ++ '@' :: user.toList) users other).mode = .other none := by
      rw [update]
      simp only [hsending, Bool.not_false, if_true]
      rfl
    rw [hmode]
  | true =>
    obtain ⟨v', hmode, htyped⟩ := s.update_spelled other hsending huser hmem hblank
    rw [hmode]
    dsimp only
    rw [hinput, htyped]
    cases v'.selection <;> rfl

/-- The names the server lets in by default. -/
def defaultRules : NameRules := ⟨4, 20, "server"⟩

/-- A name is typed, and another one is selected and completed. -/
def typing : List LineAction :=
  [.sending true, .edited "hi @A".toList ["anna", "benny", "abel"] none, .next,
    .complete false ["anna", "benny", "abel"] none]

/-- `@A` becomes `@abel`. -/
theorem completed_mention_typing : ∃ s : Line,
    (String.ofList s.input, s.known) = ("hi @abel", ["anna", "benny", "abel"]) ∧
    ∀ v, s.mode = .mention v →
      v.found = offered (partialValue s.input) s.known ∧
      (∀ value, value ∈ v.found ↔ ∃ user, (user = mentionEveryone ∨ user ∈ s.known) ∧ value = "@" ++ user ∧
        (partialValue s.input).map Char.toLower <+: value.toList.map Char.toLower) ∧
      ∃ user, (user = mentionEveryone ∨ user ∈ s.known) ∧ v.selection = some ("@" ++ user) ∧
        (∀ tail, (∀ c ∈ tail.head?, mentionChar c = false) →
          mentions (String.ofList (s.input.take v.start ++ '@' :: user.toList ++ tail)) user = true) ∧
        ∀ users other s', user ∈ mentionEveryone :: users → s.complete true users other = some s' →
          s'.input = s.input.take v.start ++ '@' :: user.toList ∧
          ∀ users' other', s'.complete false users' other' = none := by
  have hrun : (exec step start typing).map (fun s => (String.ofList s.input, s.known)) =
      some ("hi @abel", ["anna", "benny", "abel"]) := by decide +kernel
  obtain ⟨s, hs, hv⟩ := Option.map_eq_some_iff.1 hrun
  have hallows : ["anna", "benny", "abel"].all defaultRules.allows = true := by decide +kernel
  have hknown : ∀ user ∈ ["anna", "benny", "abel"], LetIn user := fun user huser =>
    ⟨defaultRules, by decide, List.all_eq_true.1 hallows user huser⟩
  have hmeets : Meets step (fun _ action => Known action) start typing := by
    simp only [typing, Meets, Known]
    exact ⟨trivial, fun _ _ => ⟨hknown, fun _ _ => ⟨trivial, fun _ _ => ⟨hknown, fun _ _ => trivial⟩⟩⟩⟩
  exact ⟨s, hv, completed_mention hs hmeets⟩

end Line

end Mention
end Why2
