/-
# The settings of the server

`server.toml` is read key by key: `config_read` (`chat/src/config/mod.rs`) turns
the value into text and parses it as the type the place of use asks for, and
panics when that fails.  A key the file lacks is added by rebuilding the file from
the built-in one.  An owner edits the file from a client: `settings::write`
(`chat/src/config/settings.rs`) stores the rows whose key the file has with a value
of the same datatype, and drops the others.  Comments, the order of the keys and the
parts of a row that only describe it are left out.

The datatypes are three and the types of use are six (`uses`): a negative number of
clients is an integer like any other and is stored, and the next read of it as a
`usize` ends the server (`negative_accepted`).  A batch leaves every key readable
exactly when the last row it stores for a key is in the range of the types the key
is read at; the dropped rows never change a value (`write_safe_iff`).
-/

import Why2.Chat.Moderation
import Mathlib.Data.List.TakeWhile

namespace Why2

/-! ### Values and their texts -/

/-- `toml_edit::Value`: the datatypes the configuration reader understands, and any other. -/
inductive Value
  | string (text : String)
  | integer (number : Int64)
  | boolean (on : Bool)
  | unsupported
deriving DecidableEq

/-- `toml_edit::Item`: a value or a table. -/
inductive Item
  | value (v : Value)
  | table
deriving DecidableEq

/-- `Item::as_value`. -/
def Item.asValue : Item → Option Value
  | .value v => some v
  | .table => none

/-- The text of a value, as `to_string` gives it. -/
def Value.text : Value → Option String
  | .string text => some text
  | .integer number => some number.toInt.repr
  | .boolean on => some (if on then "true" else "false")
  | .unsupported => none

/-- The types a setting is read at. -/
inductive Kind
  | bool
  | usize
  | u64
  | u16
  | f32
  | string
deriving DecidableEq

/-- A setting as it is used.  The number next to a decimal text is not computed. -/
inductive Setting
  | bool (on : Bool)
  | number (n : ℕ)
  | float (text : String)
  | string (text : String)

/-- The characters after a sign. -/
def unsigned : List Char → List Char
  | '+' :: rest => rest
  | '-' :: rest => rest
  | all => all

/-- Digits before or behind a point that may be missing. -/
def isMantissa (text : List Char) : Bool :=
  let whole := text.takeWhile (· ≠ '.')
  let fraction := (text.dropWhile (· ≠ '.')).drop 1
  whole.all Char.isDigit && fraction.all Char.isDigit && !(whole ++ fraction).isEmpty

/-- Nothing, or digits behind an `e` and a sign. -/
def isExponent : List Char → Bool
  | [] => true
  | _ :: text => (unsigned text).all Char.isDigit && !(unsigned text).isEmpty

/-- Whether `f32::from_str` takes the text, by its grammar. -/
def isFloat (text : String) : Bool :=
  let number := (unsigned text.toList).map Char.toLower
  ["inf", "infinity", "nan"].any (fun name => name.toList = number) ||
    (isMantissa (number.takeWhile (· ≠ 'e')) && isExponent (number.dropWhile (· ≠ 'e')))

/-- `str::parse`. -/
def parse : Kind → String → Option Setting
  | .bool, text => if text = "true" then some (.bool true) else if text = "false" then some (.bool false) else none
  | .usize, text | .u64, text => (parseUsize text).map .number
  | .u16, text => ((parseUsize text).filter (· < 2 ^ 16)).map .number
  | .f32, text => if isFloat text then some (.float text) else none
  | .string, text => some (.string text)

/-- The item at this type. -/
def Item.read (item : Item) (kind : Kind) : Option Setting := do
  let value ← item.asValue
  let text ← value.text
  parse kind text

/-! ### The file -/

/-- A configuration file. -/
abbrev Document := AList fun _ : String => Item

/-- The keys of the built-in `server.toml`, with their values. -/
def serverSettings : List (String × Value) :=
  [("server_ip", .string "0.0.0.0"), ("server_port", .integer 1204), ("enable_voice_chat", .boolean true),
    ("enable_screenshare", .boolean true), ("show_offline_users", .boolean true),
    ("server_name", .string "WHY2 Server"), ("server_username", .string "server"),
    ("communication_time", .integer 300), ("allow_register", .boolean true),
    ("check_client_version", .boolean true), ("max_clients", .integer 20),
    ("max_unauth_clients", .integer 10), ("max_ip_clients", .integer 3), ("max_upload_size", .integer 50),
    ("max_client_parallel_uploads", .integer 1), ("max_auth_tries", .integer 3),
    ("max_auth_time", .integer 10), ("min_password_length", .integer 12),
    ("max_username_length", .integer 20), ("min_username_length", .integer 4),
    ("spam_protection", .boolean true), ("max_packet_size", .integer 2000000),
    ("max_message_length", .integer 256), ("min_message_delay", .integer 750),
    ("max_message_delay_violations", .integer 3), ("max_packet_rate", .integer 15),
    ("max_packet_burst", .integer 30), ("max_packet_rate_violations", .integer 40),
    ("max_channel_length", .integer 20), ("typing_indicator", .boolean true),
    ("message_timestamps", .boolean true), ("log_level", .string "info"),
    ("persistent_messages", .boolean false), ("max_persistent_messages", .integer 100000),
    ("history_page", .integer 100), ("max_pinned_messages", .integer 50), ("profiles", .boolean true),
    ("max_profile_bio", .integer 128), ("max_profile_field", .integer 64)]

/-- The built-in `server.toml`. -/
def serverToml : Document := (serverSettings.map fun row => ⟨row.1, .value row.2⟩).toAList

/-- Every key with every type it is read at on the server, in the order of the built-in file. -/
def uses : List (String × Kind) :=
  [("server_ip", .string), ("server_port", .u16), ("enable_voice_chat", .bool), ("enable_screenshare", .bool),
    ("show_offline_users", .bool), ("server_name", .string), ("server_username", .string),
    ("communication_time", .u64), ("allow_register", .bool), ("check_client_version", .bool),
    ("max_clients", .usize), ("max_unauth_clients", .usize), ("max_ip_clients", .usize),
    ("max_upload_size", .u64), ("max_client_parallel_uploads", .usize), ("max_auth_tries", .usize),
    ("max_auth_time", .u64), ("min_password_length", .u64), ("min_password_length", .usize),
    ("max_username_length", .u64), ("max_username_length", .usize), ("min_username_length", .u64),
    ("min_username_length", .usize), ("spam_protection", .bool), ("max_packet_size", .usize),
    ("max_message_length", .usize), ("min_message_delay", .u64), ("max_message_delay_violations", .usize),
    ("max_packet_rate", .f32), ("max_packet_burst", .f32), ("max_packet_rate_violations", .usize),
    ("max_channel_length", .usize), ("typing_indicator", .bool), ("message_timestamps", .bool),
    ("log_level", .string), ("persistent_messages", .bool), ("max_persistent_messages", .usize),
    ("history_page", .usize), ("max_pinned_messages", .usize), ("profiles", .bool),
    ("max_profile_bio", .usize), ("max_profile_field", .usize)]

namespace Document

/-- The built-in file with one value of the old one, when it has that key. -/
def keepOld (config : Document) (old : Sigma fun _ : String => Item) : Option Document :=
  if (config.lookup old.1).isSome then old.2.asValue.map fun value => config.insert old.1 (.value value)
  else some config

/-- The built-in file with every value the old one had. -/
def migrate (doc : Document) : Option Document := doc.entries.foldlM keepOld serverToml

/-- `config_read`: the setting, and the file afterwards.  `none` is a panic; a key that the
built-in file lacks as well would be looked for without end. -/
def configRead (doc : Document) (kind : Kind) (key : String) : Option (Setting × Document) :=
  match doc.lookup key with
  | some item => (item.read kind).map fun setting => (setting, doc)
  | none => do
    let doc ← doc.migrate
    let item ← doc.lookup key
    let setting ← item.read kind
    return (setting, doc)

/-- Every key can be read at every type the server asks for. -/
def Readable (doc : Document) : Prop := ∀ use ∈ uses, (doc.configRead use.2 use.1).isSome

instance (doc : Document) : Decidable doc.Readable := inferInstanceAs (Decidable (∀ use ∈ uses, _))

/-- `set_value`, with a panic for a key that holds a table. -/
def setValue (doc : Document) (key : String) (value : Value) : Option Document :=
  match doc.lookup key with
  | some item => item.asValue.map fun _ => doc.insert key (.value value)
  | none => some (doc.insert key (.value value))

end Document

/-! ### The rows of a client -/

/-- `SettingValue`. -/
inductive SettingValue
  | toggle (on : Bool)
  | number (number : Int64)
  | text (text : String)
deriving DecidableEq

/-- `ServerSetting`, as far as `write` reads it. -/
structure ServerSetting where
  key : String
  value : SettingValue
deriving DecidableEq

namespace Document

/-- The value a row stores: that of a key of the file, with the datatype it has there. -/
def accept (doc : Document) (row : ServerSetting) : Option (String × Value) := do
  let item ← doc.lookup row.key
  let current ← item.asValue
  match row.value, current with
  | .toggle on, .boolean _ => some (row.key, .boolean on)
  | .number number, .integer _ => some (row.key, .integer number)
  | .text text, .string _ => some (row.key, .string text)
  | _, _ => none

/-- `settings::write`: how many rows were stored, and the file afterwards. -/
def write (doc : Document) (rows : List ServerSetting) : Option (ℕ × Document) :=
  let accepted := rows.filterMap doc.accept
  (accepted.foldlM (fun (doc : Document) row => doc.setValue row.1 row.2) doc).map fun doc => (accepted.length, doc)

/-- What a save is to do: it stores the rows, every key can be read at every type the server
asks for afterwards, and the rows that are dropped do nothing: a key that no stored row names
keeps its value, and the save is the one of the stored rows alone. -/
def Safe (doc : Document) (rows : List ServerSetting) : Prop :=
  ∃ count doc', doc.write rows = some (count, doc') ∧ doc'.Readable ∧
    (∀ key, (∀ row ∈ rows, row.key = key → doc.accept row = none) → doc'.lookup key = doc.lookup key) ∧
    doc.write (rows.filter fun row => (doc.accept row).isSome) = some (count, doc')

/-! ### A number out of range -/

/-- The built-in settings are readable. -/
theorem readable_serverToml : serverToml.Readable := by decide +kernel

/-- **A save can make a key unreadable.**  A negative number of clients has the datatype of the
setting and is stored, but it is no `usize`. -/
theorem negative_accepted : ¬∀ (doc : Document) (rows : List ServerSetting), doc.Readable → doc.Safe rows := by
  intro h
  obtain ⟨count, doc', hwrite, hreadable, -⟩ := h serverToml [⟨"max_clients", .number (-1)⟩] readable_serverToml
  have hrun : (serverToml.write [⟨"max_clients", .number (-1)⟩]).map
      (fun r => decide (r.2.configRead .usize "max_clients").isSome) = some false := by
    decide +kernel
  rw [hwrite] at hrun
  have hread := hreadable ("max_clients", .usize) (by decide)
  exact of_decide_eq_false (Option.some.inj hrun) hread

/-! ### The range of a setting -/

/-- The value of the last row with a key. -/
def lastOf (accepted : List (String × Value)) (key : String) : Option Value :=
  ((accepted.filter fun row => row.1 = key).getLast?).map Prod.snd

/-- The value of the last row that is stored for a key. -/
def stored (doc : Document) (rows : List ServerSetting) (key : String) : Option Value :=
  lastOf (rows.filterMap doc.accept) key

end Document

/-- The range of a type: a count is not negative, and a port has sixteen bits.  A text is asked
for where the file holds the setting as one. -/
def Fits (kind : Kind) : Value → Prop
  | .integer number =>
    match kind with
    | .usize | .u64 => 0 ≤ number.toInt
    | .u16 => 0 ≤ number.toInt ∧ number.toInt < 2 ^ 16
    | .bool | .f32 | .string => True
  | .string text => (parse kind text).isSome
  | .boolean _ | .unsupported => True

instance (kind : Kind) (value : Value) : Decidable (Fits kind value) :=
  match value with
  | .integer number =>
    match kind with
    | .usize | .u64 => inferInstanceAs (Decidable (0 ≤ number.toInt))
    | .u16 => inferInstanceAs (Decidable (0 ≤ number.toInt ∧ number.toInt < 2 ^ 16))
    | .bool | .f32 | .string => .isTrue trivial
  | .string text => inferInstanceAs (Decidable ((parse kind text).isSome = true))
  | .boolean _ | .unsupported => .isTrue trivial

/-- What is stored for a key is in the range of every type the key is read at. -/
def Document.InRange (doc : Document) (rows : List ServerSetting) : Prop :=
  ∀ use ∈ uses, ∀ value ∈ doc.stored rows use.1, Fits use.2 value

instance (doc : Document) (rows : List ServerSetting) : Decidable (doc.InRange rows) :=
  inferInstanceAs (Decidable (∀ use ∈ uses, _))

/-! ### The texts of the integers -/

/-- A text of digits is parsed as their number. -/
theorem parseUsize_digits {text : String} (hne : text.toList ≠ []) (hdigits : ∀ c ∈ text.toList, c.isDigit) :
    parseUsize text = if Nat.ofDigitChars 10 text.toList 0 < 2 ^ 64
      then some (Nat.ofDigitChars 10 text.toList 0) else none := by
  have hall : text.toList.all Char.isDigit := List.all_eq_true.2 hdigits
  unfold parseUsize
  split
  next digits heq =>
    -- No digit is a plus sign.
    have hplus := hdigits '+' (heq ▸ List.mem_cons_self)
    exact absurd hplus (by decide)
  next => rw [if_pos ⟨hne, hall⟩]; rfl

/-- A number is written in digits. -/
theorem digits_repr (n : ℕ) : n.repr.toList ≠ [] ∧ ∀ c ∈ n.repr.toList, c.isDigit := by
  rw [Nat.toList_repr]
  exact ⟨Nat.toDigits_ne_nil, fun c hc => Nat.isDigit_of_mem_toDigits (by decide) (by decide) hc⟩

/-- **A number is read back.** -/
theorem parseUsize_repr {n : ℕ} (h : n < 2 ^ 64) : parseUsize n.repr = some n := by
  rw [parseUsize_digits (digits_repr n).1 (digits_repr n).2, Nat.toList_repr, Nat.ofDigitChars_ten_toDigits,
    if_pos h]

/-- There is no sign before a count. -/
theorem parseUsize_minus (text : String) : parseUsize ("-" ++ text) = none := by
  unfold parseUsize
  rw [String.toList_append]
  refine if_neg fun h => ?_
  have hminus := List.all_eq_true.1 h.2 '-' List.mem_cons_self
  exact absurd hminus (by decide)

/-- **An integer is a count when it is not negative.** -/
theorem parseUsize_integer (number : Int64) :
    parseUsize number.toInt.repr = if 0 ≤ number.toInt then some number.toInt.toNat else none := by
  rw [Int.repr_eq_if]
  have hlt := Int64.toInt_lt number
  split
  · exact parseUsize_repr (by omega)
  · exact parseUsize_minus _

/-- Digits hold no other character. -/
theorem span_digits {digits : List Char} (hdigits : ∀ c ∈ digits, c.isDigit) {x : Char}
    (hx : x.isDigit = false) : digits.takeWhile (· ≠ x) = digits ∧ digits.dropWhile (· ≠ x) = [] := by
  have hne : ∀ c ∈ digits, decide (c ≠ x) = true := by
    intro c hc
    refine decide_eq_true fun heq => ?_
    rw [← heq, hdigits c hc] at hx
    cases hx
  exact ⟨List.takeWhile_eq_self_iff.2 hne, List.dropWhile_eq_nil_iff.2 hne⟩

/-- Digits are a mantissa. -/
theorem isMantissa_digits {digits : List Char} (hne : digits ≠ []) (hdigits : ∀ c ∈ digits, c.isDigit) :
    isMantissa digits = true := by
  obtain ⟨htake, hdrop⟩ := span_digits hdigits (x := '.') (by decide)
  unfold isMantissa
  rw [htake, hdrop]
  simpa using ⟨hdigits, hne⟩

/-- A digit has no case. -/
theorem toLower_digit {c : Char} (h : c.isDigit) : c.toLower = c := by
  obtain ⟨-, hle⟩ := Char.isDigit_iff_toNat.1 h
  refine dif_neg fun hupper => ?_
  have hge : 'A'.toNat ≤ c.toNat := hupper.1
  exact absurd (hge.trans hle) (by decide)

/-- No digit is a sign. -/
theorem unsigned_digits {digits : List Char} (hdigits : ∀ c ∈ digits, c.isDigit) :
    unsigned digits = digits := by
  unfold unsigned
  split
  next rest => exact absurd (hdigits '+' List.mem_cons_self) (by decide)
  next rest => exact absurd (hdigits '-' List.mem_cons_self) (by decide)
  next => rfl

/-- **Every integer is the text of a float.** -/
theorem isFloat_integer (number : ℤ) : isFloat number.repr = true := by
  have hdigits (n : ℕ) (hn : unsigned number.repr.toList = n.repr.toList) : isFloat number.repr = true := by
    obtain ⟨hne, hall⟩ := digits_repr n
    obtain ⟨htake, hdrop⟩ := span_digits hall (x := 'e') (by decide)
    unfold isFloat
    rw [hn, List.map_congr_left fun c hc => toLower_digit (hall c hc), List.map_id']
    dsimp only
    rw [htake, hdrop, isMantissa_digits hne hall]
    exact Bool.or_true _
  by_cases hnonneg : 0 ≤ number
  · refine hdigits number.toNat ?_
    rw [Int.repr_eq_if, if_pos hnonneg]
    exact unsigned_digits (digits_repr _).2
  · refine hdigits (-number).toNat ?_
    rw [Int.repr_eq_if, if_neg hnonneg, String.toList_append]
    rfl

/-! ### Reading a stored value -/

/-- A switch is read as such, or as a text. -/
theorem read_boolean (kind : Kind) (on : Bool) :
    ((Item.value (.boolean on)).read kind).isSome ↔ kind = .bool ∨ kind = .string := by
  cases kind <;> cases on <;> decide +kernel

/-- An integer is read at every type but `bool`, when it is in the range of the type. -/
theorem read_integer (kind : Kind) (number : Int64) :
    ((Item.value (.integer number)).read kind).isSome ↔ kind ≠ .bool ∧ Fits kind (.integer number) := by
  have hcount := parseUsize_integer number
  cases kind with
  | bool =>
    -- The texts of the switches are not those of floats.
    have hfloat := isFloat_integer number.toInt
    have htrue : number.toInt.repr ≠ "true" := by
      intro h
      rw [h] at hfloat
      exact absurd hfloat (by decide +kernel)
    have hfalse : number.toInt.repr ≠ "false" := by
      intro h
      rw [h] at hfloat
      exact absurd hfloat (by decide +kernel)
    simp [Item.read, Item.asValue, Value.text, parse, htrue, hfalse]
  | usize =>
    by_cases h : 0 ≤ number.toInt
    · simp [Item.read, Item.asValue, Value.text, parse, Fits, hcount, h]
    · simp [Item.read, Item.asValue, Value.text, parse, Fits, hcount, h]
  | u64 =>
    by_cases h : 0 ≤ number.toInt
    · simp [Item.read, Item.asValue, Value.text, parse, Fits, hcount, h]
    · simp [Item.read, Item.asValue, Value.text, parse, Fits, hcount, h]
  | u16 =>
    by_cases h : 0 ≤ number.toInt
    · have hnat : number.toNatClampNeg = number.toInt.toNat := rfl
      simp [Item.read, Item.asValue, Value.text, parse, Fits, hcount, h]
      omega
    · simp [Item.read, Item.asValue, Value.text, parse, Fits, hcount, h]
  | f32 => simp [Item.read, Item.asValue, Value.text, parse, Fits, isFloat_integer]
  | string => simp [Item.read, Item.asValue, Value.text, parse, Fits]

/-- Two values of one datatype. -/
def Value.SameDatatype : Value → Value → Prop
  | .string _, .string _ | .integer _, .integer _ | .boolean _, .boolean _ => True
  | _, _ => False

/-- **A value in place of one of its datatype is read when it is in range.** -/
theorem read_iff_fits {kind : Kind} {current value : Value} (hsame : value.SameDatatype current)
    (hcurrent : ((Item.value current).read kind).isSome) :
    ((Item.value value).read kind).isSome ↔ Fits kind value := by
  cases value with
  | boolean on =>
    cases current with
    | boolean on' =>
      rw [read_boolean] at hcurrent ⊢
      exact ⟨fun _ => trivial, fun _ => hcurrent⟩
    | string _ | integer _ | unsupported => exact hsame.elim
  | integer number =>
    cases current with
    | integer number' =>
      rw [read_integer] at hcurrent ⊢
      exact and_iff_right hcurrent.1
    | string _ | boolean _ | unsupported => exact hsame.elim
  | string text => exact Iff.rfl
  | unsupported => exact hsame.elim

namespace Document

variable {doc : Document} {rows : List ServerSetting}

/-- A row that is stored has a key of the file and the datatype of the value there. -/
theorem accept_spec {row : ServerSetting} {key : String} {value : Value}
    (h : doc.accept row = some (key, value)) :
    key = row.key ∧ ∃ current, doc.lookup key = some (.value current) ∧ value.SameDatatype current := by
  obtain ⟨item, hitem, h⟩ := Option.bind_eq_some_iff.1 h
  obtain ⟨current, hcurrent, h⟩ := Option.bind_eq_some_iff.1 h
  cases item with
  | table => cases hcurrent
  | value v =>
    obtain rfl := Option.some.inj hcurrent
    split at h
    · obtain ⟨rfl, rfl⟩ := Prod.mk.inj (Option.some.inj h)
      exact ⟨rfl, _, hitem, trivial⟩
    · obtain ⟨rfl, rfl⟩ := Prod.mk.inj (Option.some.inj h)
      exact ⟨rfl, _, hitem, trivial⟩
    · obtain ⟨rfl, rfl⟩ := Prod.mk.inj (Option.some.inj h)
      exact ⟨rfl, _, hitem, trivial⟩
    · cases h

/-! ### What a save stores -/

/-- The last row of a key, with one more. -/
theorem lastOf_cons (row : String × Value) (accepted : List (String × Value)) (key : String) :
    lastOf (row :: accepted) key = (lastOf accepted key).or (if row.1 = key then some row.2 else none) := by
  unfold lastOf
  by_cases hkey : row.1 = key
  · rw [List.filter_cons_of_pos (by simpa using hkey), List.getLast?_cons, if_pos hkey]
    cases (accepted.filter fun row => row.1 = key).getLast? <;> rfl
  · rw [List.filter_cons_of_neg (by simpa using hkey), if_neg hkey, Option.or_none]

/-- Storing values in keys that hold one: the last value of each key is there. -/
theorem foldlM_setValue (accepted : List (String × Value))
    (h : ∀ row ∈ accepted, ∃ current, doc.lookup row.1 = some (.value current)) :
    ∃ doc', accepted.foldlM (fun (doc : Document) row => doc.setValue row.1 row.2) doc = some doc' ∧
      ∀ key, doc'.lookup key = ((lastOf accepted key).map Item.value).or (doc.lookup key) := by
  induction accepted generalizing doc with
  | nil => exact ⟨doc, rfl, fun _ => rfl⟩
  | cons row accepted ih =>
    obtain ⟨current, hcurrent⟩ := h row (.head _)
    have hset : doc.setValue row.1 row.2 = some (doc.insert row.1 (.value row.2)) := by
      simp [setValue, hcurrent, Item.asValue]
    have hvalues : ∀ row' ∈ accepted, ∃ current,
        (doc.insert row.1 (.value row.2)).lookup row'.1 = some (.value current) := by
      intro row' hrow'
      by_cases hkey : row'.1 = row.1
      · exact ⟨row.2, by rw [hkey, AList.lookup_insert]⟩
      · obtain ⟨current', hcurrent'⟩ := h row' (.tail _ hrow')
        exact ⟨current', by rw [AList.lookup_insert_ne hkey, hcurrent']⟩
    obtain ⟨doc', hrun, hlookup⟩ := ih hvalues
    refine ⟨doc', by rw [List.foldlM_cons, hset]; exact hrun, fun key => ?_⟩
    rw [hlookup, lastOf_cons]
    by_cases hkey : row.1 = key
    · rw [if_pos hkey, ← hkey, AList.lookup_insert]
      cases lastOf accepted row.1 <;> rfl
    · rw [if_neg hkey, Option.or_none, AList.lookup_insert_ne (Ne.symm hkey)]

/-- **A save stores the last row of each key.** -/
theorem write_spec (doc : Document) (rows : List ServerSetting) :
    ∃ doc', doc.write rows = some ((rows.filterMap doc.accept).length, doc') ∧
      ∀ key, doc'.lookup key = ((doc.stored rows key).map Item.value).or (doc.lookup key) := by
  have hvalues : ∀ row ∈ rows.filterMap doc.accept, ∃ current, doc.lookup row.1 = some (.value current) := by
    intro row hrow
    obtain ⟨setting, -, haccept⟩ := List.mem_filterMap.1 hrow
    obtain ⟨-, current, hcurrent, -⟩ := accept_spec haccept
    exact ⟨current, hcurrent⟩
  obtain ⟨doc', hrun, hlookup⟩ := foldlM_setValue _ hvalues
  exact ⟨doc', by rw [write, hrun]; rfl, hlookup⟩

/-- A stored value has the datatype of the one it replaces. -/
theorem stored_spec {key : String} {value : Value} (h : doc.stored rows key = some value) :
    (∃ row ∈ rows, row.key = key ∧ doc.accept row = some (key, value)) ∧
      ∃ current, doc.lookup key = some (.value current) ∧ value.SameDatatype current := by
  obtain ⟨⟨key', value'⟩, hlast, rfl⟩ := Option.map_eq_some_iff.1 h
  obtain ⟨hmem, hkey⟩ := List.mem_filter.1 (List.mem_of_getLast? hlast)
  obtain rfl := of_decide_eq_true hkey
  obtain ⟨row, hrow, haccept⟩ := List.mem_filterMap.1 hmem
  obtain ⟨hname, hcurrent⟩ := accept_spec haccept
  exact ⟨⟨row, hrow, hname.symm, haccept⟩, hcurrent⟩

/-- The rows that are dropped do nothing. -/
theorem write_filter (doc : Document) (rows : List ServerSetting) :
    doc.write (rows.filter fun row => (doc.accept row).isSome) = doc.write rows := by
  have hsame : (rows.filter fun row => (doc.accept row).isSome).filterMap doc.accept =
      rows.filterMap doc.accept := by
    rw [List.filterMap_filter]
    refine congrArg (List.filterMap · rows) (funext fun row => ?_)
    cases doc.accept row <;> rfl
  unfold write
  rw [hsame]

/-! ### Rebuilding the file -/

/-- One value is kept: it has to be one, and then it is the value of its key. -/
theorem keepOld_spec {config config' : Document} {old : Sigma fun _ : String => Item}
    (h : config.keepOld old = some config') (key : String) :
    config'.lookup key = (config.lookup key).map fun item => if old.1 = key then old.2 else item := by
  unfold keepOld at h
  split at h
  next hhas =>
    obtain ⟨value, hvalue, rfl⟩ := Option.map_eq_some_iff.1 h
    have hitem : old.2 = .value value := by
      cases hold : old.2 with
      | value v =>
        rw [hold] at hvalue
        rw [Option.some.inj hvalue]
      | table =>
        rw [hold] at hvalue
        cases hvalue
    by_cases hkey : old.1 = key
    · obtain ⟨item, hlookup⟩ := Option.isSome_iff_exists.1 (hkey ▸ hhas)
      rw [← hkey, AList.lookup_insert, hkey, hlookup, Option.map_some, if_pos rfl, hitem]
    · rw [AList.lookup_insert_ne (Ne.symm hkey)]
      simp [hkey]
  next hhas =>
    obtain rfl := Option.some.inj h
    by_cases hkey : old.1 = key
    · rw [hkey, Bool.not_eq_true, Option.isSome_eq_false_iff, Option.isNone_iff_eq_none] at hhas
      rw [hhas]
      rfl
    · simp [hkey]

/-- The keys stay those of the built-in file, with the values of the old one. -/
theorem lookup_foldlM_keepOld {olds : List (Sigma fun _ : String => Item)} (hnodup : olds.NodupKeys)
    {config config' : Document} (h : olds.foldlM keepOld config = some config') (key : String) :
    config'.lookup key = (config.lookup key).map fun item => (olds.dlookup key).getD item := by
  induction olds generalizing config with
  | nil =>
    obtain rfl := Option.some.inj h
    simp
  | cons old olds ih =>
    obtain ⟨next, hnext, hrest⟩ := Option.bind_eq_some_iff.1 h
    obtain ⟨hnotMem, hnodup⟩ := List.nodupKeys_cons.1 hnodup
    rw [ih hnodup hrest, keepOld_spec hnext, Option.map_map]
    refine congrArg (Option.map · _) (funext fun item => ?_)
    by_cases hkey : old.1 = key
    · obtain rfl := hkey
      rw [List.dlookup_cons_eq, Function.comp_apply, if_pos rfl, List.dlookup_eq_none.2 hnotMem]
      rfl
    · rw [List.dlookup_cons_ne _ _ (Ne.symm hkey), Function.comp_apply, if_neg hkey]

/-- A migrated key has its old item, or the built-in one. -/
theorem lookup_migrate {doc' : Document} (h : doc.migrate = some doc') (key : String) :
    doc'.lookup key = (serverToml.lookup key).map fun item => (doc.lookup key).getD item :=
  lookup_foldlM_keepOld doc.nodupKeys h key

/-- The file can be rebuilt when no key of the built-in one holds a table. -/
theorem isSome_foldlM_keepOld {olds : List (Sigma fun _ : String => Item)} {config : Document} :
    (olds.foldlM keepOld config).isSome ↔
      ∀ old ∈ olds, (config.lookup old.1).isSome → old.2.asValue.isSome := by
  induction olds generalizing config with
  | nil => simp
  | cons old olds ih =>
    rw [List.foldlM_cons, List.forall_mem_cons]
    cases hnext : config.keepOld old with
    | none =>
      unfold keepOld at hnext
      split at hnext
      next hhas => simp [hhas, Option.map_eq_none_iff.1 hnext]
      next => cases hnext
    | some next =>
      have hkept : (config.lookup old.1).isSome → old.2.asValue.isSome := by
        intro hhas
        rw [keepOld, if_pos hhas] at hnext
        obtain ⟨value, hvalue, -⟩ := Option.map_eq_some_iff.1 hnext
        exact Option.isSome_iff_exists.2 ⟨value, hvalue⟩
      have hkeys (key : String) : (next.lookup key).isSome = (config.lookup key).isSome := by
        rw [keepOld_spec hnext, Option.isSome_map]
      rw [and_iff_right hkept, Option.bind_eq_bind, Option.bind_some, ih]
      simp only [hkeys]

/-- A migration panics at items that are no values only. -/
theorem isSome_migrate : doc.migrate.isSome ↔
    ∀ key item, doc.lookup key = some item → (serverToml.lookup key).isSome → item.asValue.isSome := by
  unfold migrate
  rw [isSome_foldlM_keepOld]
  constructor
  · exact fun h key item hitem => h ⟨key, item⟩ (AList.mem_lookup_iff.1 hitem)
  · exact fun h old hold => h old.1 old.2 (AList.mem_lookup_iff.2 hold)

/-! ### Reading a key -/

section read

variable {kind : Kind} {key : String}

/-- A key that is there is read if its item is. -/
theorem isSome_configRead_of_lookup {item : Item} (h : doc.lookup key = some item) :
    (doc.configRead kind key).isSome = (item.read kind).isSome := by
  unfold configRead
  rw [h, Option.isSome_map]

/-- A missing key is read from the rebuilt file, where it has the built-in value. -/
theorem isSome_configRead_of_missing (h : doc.lookup key = none) :
    (doc.configRead kind key).isSome ↔
      doc.migrate.isSome ∧ ((serverToml.lookup key).bind fun item => item.read kind).isSome := by
  unfold configRead
  rw [h]
  cases hmigrate : doc.migrate with
  | none => simp
  | some doc' =>
    have hlookup : doc'.lookup key = serverToml.lookup key := by
      rw [lookup_migrate hmigrate, h]
      exact Option.map_id'
    cases hitem : serverToml.lookup key with
    | none => simp [hlookup, hitem]
    | some item =>
      cases hread : item.read kind with
      | none => simp [hlookup, hitem, hread]
      | some setting => simp [hlookup, hitem, hread]

end read

/-- A save does not hinder the rebuilding of the file. -/
theorem migrate_write {doc' : Document}
    (hlookup : ∀ key, doc'.lookup key = ((doc.stored rows key).map Item.value).or (doc.lookup key))
    (h : doc.migrate.isSome) : doc'.migrate.isSome := by
  rw [isSome_migrate] at h ⊢
  intro key item hitem hhas
  rw [hlookup] at hitem
  cases hstored : doc.stored rows key with
  | none =>
    rw [hstored] at hitem
    exact h key item hitem hhas
  | some value =>
    rw [hstored] at hitem
    obtain rfl := Option.some.inj hitem
    rfl

/-- After a save a key is read at a type when what is stored for it is in range. -/
theorem configRead_write {doc' : Document} {kind : Kind} {key : String}
    (hlookup : ∀ key, doc'.lookup key = ((doc.stored rows key).map Item.value).or (doc.lookup key))
    (hread : (doc.configRead kind key).isSome) :
    (doc'.configRead kind key).isSome ↔ ∀ value ∈ doc.stored rows key, Fits kind value := by
  have hkey := hlookup key
  cases hstored : doc.stored rows key with
  | none =>
    rw [hstored, Option.map_none, Option.none_or] at hkey
    refine iff_of_true ?_ fun _ h => nomatch h
    cases hitem : doc.lookup key with
    | none =>
      obtain ⟨hmigrate, hdefault⟩ := (isSome_configRead_of_missing hitem).1 hread
      exact (isSome_configRead_of_missing (hkey.trans hitem)).2 ⟨migrate_write hlookup hmigrate, hdefault⟩
    | some item =>
      rw [isSome_configRead_of_lookup hitem] at hread
      rwa [isSome_configRead_of_lookup (hkey.trans hitem)]
  | some value =>
    rw [hstored, Option.map_some, Option.some_or] at hkey
    obtain ⟨-, current, hcurrent, hsame⟩ := stored_spec hstored
    rw [isSome_configRead_of_lookup hcurrent] at hread
    rw [isSome_configRead_of_lookup hkey, read_iff_fits hsame hread]
    simp

/-- **When a save is safe.**  On a file whose every key can be read, a save leaves it so, without
touching a value by a row it drops, exactly when the last row that is stored for each key is in the
range of the types the key is read at. -/
theorem write_safe_iff (doc : Document) (rows : List ServerSetting) (hreadable : doc.Readable) :
    doc.Safe rows ↔ doc.InRange rows := by
  obtain ⟨doc', hwrite, hlookup⟩ := write_spec doc rows
  have hdropped (key : String) (hkey : ∀ row ∈ rows, row.key = key → doc.accept row = none) :
      doc'.lookup key = doc.lookup key := by
    rw [hlookup key]
    cases hstored : doc.stored rows key with
    | none => rfl
    | some value =>
      obtain ⟨⟨row, hrow, hname, haccept⟩, -⟩ := stored_spec hstored
      rw [hkey row hrow hname] at haccept
      cases haccept
  have hsame : doc'.Readable ↔ doc.InRange rows :=
    forall₂_congr fun use huse => configRead_write hlookup (hreadable use huse)
  constructor
  · rintro ⟨count, doc'', hwrite', hreadable', -⟩
    obtain ⟨-, rfl⟩ := Prod.mk.inj (Option.some.inj (hwrite.symm.trans hwrite'))
    exact hsame.1 hreadable'
  · intro hrange
    exact ⟨_, doc', hwrite, hsame.2 hrange, hdropped, (write_filter doc rows).trans hwrite⟩

/-- A port, a text in place of a number and an unknown key: the first is stored. -/
theorem write_safe_port :
    serverToml.Readable ∧ serverToml.Safe [⟨"server_port", .number 443⟩, ⟨"max_clients", .text "many"⟩,
      ⟨"motd", .text "hello"⟩] :=
  ⟨readable_serverToml, (write_safe_iff _ _ readable_serverToml).2 (by decide +kernel)⟩

/-- **Reading leaves the file readable**, also where it rebuilds it. -/
theorem Readable.configRead (hreadable : doc.Readable) {kind : Kind} {key : String} {setting : Setting}
    {doc' : Document} (h : doc.configRead kind key = some (setting, doc')) : doc'.Readable := by
  unfold Document.configRead at h
  split at h
  next item hitem =>
    obtain ⟨_, -, heq⟩ := Option.map_eq_some_iff.1 h
    obtain ⟨-, rfl⟩ := Prod.mk.inj heq
    exact hreadable
  next hmissing =>
    obtain ⟨migrated, hmigrate, h⟩ := Option.bind_eq_some_iff.1 h
    obtain ⟨item, -, h⟩ := Option.bind_eq_some_iff.1 h
    obtain ⟨_, -, heq⟩ := Option.bind_eq_some_iff.1 h
    obtain ⟨-, rfl⟩ := Prod.mk.inj (Option.some.inj heq)
    intro use huse
    have hbuiltin : ∀ use ∈ uses, (serverToml.lookup use.1).isSome := by decide +kernel
    obtain ⟨builtin, hbuiltin⟩ := Option.isSome_iff_exists.1 (hbuiltin use huse)
    have hlookup := lookup_migrate hmigrate use.1
    rw [hbuiltin, Option.map_some] at hlookup
    rw [isSome_configRead_of_lookup hlookup]
    have hread := hreadable use huse
    cases hold : doc.lookup use.1 with
    | some item => rwa [isSome_configRead_of_lookup hold] at hread
    | none =>
      have hdefault := ((isSome_configRead_of_missing hold).1 hread).2
      rwa [hbuiltin, Option.bind_some] at hdefault

end Document
end Why2
