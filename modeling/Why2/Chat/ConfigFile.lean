/-
# The configuration file and its cache

`chat/src/config/mod.rs`: a configuration file is parsed once and kept with the stamp
of the file it came from (`load`); `with_cached` reads the document, `with_cached_mut`
changes it and writes it back.  `config_read` looks a key up and parses its text; where
the key is missing it rebuilds the file from the built-in one, with the values the old
one had, and calls itself again.

The call is a recursion with nothing that decreases, so it is run with fuel here.  With
a key of the built-in file the second call finds it, whatever the old file held.  With
any other key the rebuilt file lacks it as well: the documentation promises a panic, and
the call rewrites the file and asks again without end (`config_read_migration_iff`).

The texts of documents are left out: `toml_edit` writes a document so that it parses to
the same one.
-/

import Why2.Chat.Settings

namespace Why2

/-- `stamp`: the time of the last change and the length of a file. -/
abbrev Stamp := ℕ × ℕ

/-- `Cached`: a document and the stamp of the file it came from. -/
structure Cached where
  doc : Document
  stamp : Option Stamp

/-- A configuration file on disk, how often it was written, and its entry in `CONFIG_CACHE`. -/
structure ConfigFile where
  disk : Document
  writes : ℕ
  cached : Option Cached

/-- The text of a value, with the panics of `config_read`. -/
def Item.text (item : Item) : Except String String :=
  match item.asValue with
  | none => .error "Invalid config"
  | some v =>
    match v.text with
    | none => .error "Unsupported config datatype"
    | some text => .ok text

/-- `parse`, with the panic of `config_read`. -/
def parseAs {T : Type} (fromStr : String → Option T) (text : String) : Except String T :=
  match fromStr text with
  | none => .error "Parsing config value failed"
  | some value => .ok value

/-- The loop over the old values: the value of a key that is in both replaces the built-in one. -/
def Document.copyOld (config : Document) (old : Sigma fun _ : String => Item) : Except String Document :=
  match config.lookup old.1 with
  | none => .ok config
  | some item =>
    match old.2.asValue with
    | none => .error "Invalid config"
    | some value =>
      match item.asValue with
      | none => .error "Updating config failed"
      | some _ => .ok (config.insert old.1 (.value value))

namespace ConfigFile

/-! ### The functions -/

section functions

-- what `fs::metadata` tells of the file after so many writes
variable (stampAt : ℕ → Option Stamp)

/-- `load`: an unreadable stamp keeps what is cached. -/
def load (file : ConfigFile) : Cached :=
  let current := stampAt file.writes
  match file.cached with
  | none => ⟨file.disk, current⟩
  | some cached => if current.isSome ∧ cached.stamp ≠ current then ⟨file.disk, current⟩ else cached

/-- `with_cached`. -/
def withCached {R : Type} (file : ConfigFile) (f : Document → R) : R × ConfigFile :=
  (f (file.load stampAt).doc, { file with cached := some (file.load stampAt) })

/-- `with_cached_mut`. -/
def withCachedMut (file : ConfigFile) (f : Document → Document) : ConfigFile :=
  let doc := f (file.load stampAt).doc
  { disk := doc, writes := file.writes + 1, cached := some ⟨doc, stampAt (file.writes + 1)⟩ }

/-- `config_read`, of a type with its `from_str`, with the built-in file `builtIn`: what it
returns or panics with, and the file afterwards.  `none` is a call that is still not over. -/
def configRead {T : Type} (builtIn : Document) (fromStr : String → Option T) :
    ℕ → ConfigFile → String → Option (Except String T × ConfigFile)
  | 0, _, _ => none
  | fuel + 1, file, key =>
    match file.withCached stampAt fun data => (data.lookup key).map Item.text with
    | (some text, file) => some (text >>= parseAs fromStr, file)
    | (none, file) =>
      match file.withCached stampAt fun data => data.entries.foldlM Document.copyOld builtIn with
      | (.error message, file) => some (.error message, file)
      | (.ok config, file) =>
        configRead builtIn fromStr fuel (file.withCachedMut stampAt fun _ => config) key

end functions

/-! ### The cache -/

section cache

variable {stampAt : ℕ → Option Stamp}

/-- What was loaded is loaded again. -/
theorem load_load (file : ConfigFile) :
    load stampAt { file with cached := some (file.load stampAt) } = file.load stampAt := by
  have hkeep : ∀ cached : Cached, (¬((stampAt file.writes).isSome ∧ cached.stamp ≠ stampAt file.writes)) →
      load stampAt { file with cached := some cached } = cached := fun cached h => if_neg h
  refine hkeep _ ?_
  unfold load
  cases file.cached with
  | none => exact fun h => h.2 rfl
  | some cached =>
    dsimp only
    split_ifs with hstale
    · exact fun h => h.2 rfl
    · exact hstale

/-- Our own write is not a change: the next read has the document that was written. -/
theorem load_withCachedMut (file : ConfigFile) (f : Document → Document) :
    load stampAt (file.withCachedMut stampAt f) =
      ⟨f (file.load stampAt).doc, stampAt (file.writes + 1)⟩ := by
  have hfresh : ¬((stampAt (file.writes + 1)).isSome ∧ stampAt (file.writes + 1) ≠ stampAt (file.writes + 1)) :=
    fun h => h.2 rfl
  exact if_neg hfresh

end cache

end ConfigFile

/-! ### Plain files -/

/-- A string, an integer or a boolean. -/
def Item.Plain : Item → Prop
  | .value (.string _) | .value (.integer _) | .value (.boolean _) => True
  | .value .unsupported | .table => False

instance (item : Item) : Decidable item.Plain :=
  match item with
  | .value (.string _) | .value (.integer _) | .value (.boolean _) => .isTrue trivial
  | .value .unsupported | .table => .isFalse id

/-- A plain item is a value. -/
theorem Item.Plain.asValue {item : Item} (h : item.Plain) : ∃ v, item = .value v ∧ item.asValue = some v := by
  cases item with
  | value v => exact ⟨v, rfl, rfl⟩
  | table => exact h.elim

/-- A plain item has a text. -/
theorem Item.Plain.text {item : Item} (h : item.Plain) : ∃ text, item.text = .ok text := by
  match item with
  | .value (.string text) => exact ⟨text, rfl⟩
  | .value (.integer number) => exact ⟨_, rfl⟩
  | .value (.boolean on) => exact ⟨_, rfl⟩
  | .value .unsupported => exact h.elim
  | .table => exact h.elim

namespace Document

/-- A file whose top-level values are strings, integers and booleans. -/
def Plain (doc : Document) : Prop := ∀ key item, doc.lookup key = some item → item.Plain

/-- A document of plain items is plain. -/
theorem plain_of_entries {doc : Document} (h : ∀ entry ∈ doc.entries, entry.2.Plain) : doc.Plain :=
  fun key item hitem => h ⟨key, item⟩ (AList.mem_lookup_iff.1 hitem)

/-- The built-in settings are plain. -/
theorem plain_serverToml : serverToml.Plain := plain_of_entries (by decide +kernel)

/-- One old value over a plain file. -/
theorem copyOld_of_keepOld {config config' : Document} {old : Sigma fun _ : String => Item}
    (hconfig : config.Plain) (h : config.keepOld old = some config') : config.copyOld old = .ok config' := by
  unfold keepOld at h
  unfold copyOld
  cases hlookup : config.lookup old.1 with
  | none =>
    rw [hlookup] at h
    exact congrArg Except.ok (Option.some.inj h)
  | some item =>
    rw [hlookup, if_pos Option.isSome_some] at h
    obtain ⟨v, hv, rfl⟩ := Option.map_eq_some_iff.1 h
    obtain ⟨w, -, hw⟩ := (hconfig old.1 item hlookup).asValue
    simp only [hv, hw]

/-- An item that is kept leaves the document plain. -/
theorem Plain.keepOld {config config' : Document} {old : Sigma fun _ : String => Item}
    (hconfig : config.Plain) (hold : old.2.Plain) (h : config.keepOld old = some config') : config'.Plain := by
  intro key item hitem
  rw [keepOld_spec h, Option.map_eq_some_iff] at hitem
  obtain ⟨item', hitem', rfl⟩ := hitem
  split_ifs
  · exact hold
  · exact hconfig key item' hitem'

/-- Over plain documents, items are copied one after the other. -/
theorem foldlM_copyOld {olds : List (Sigma fun _ : String => Item)} {config config' : Document}
    (hconfig : config.Plain) (holds : ∀ old ∈ olds, old.2.Plain)
    (h : olds.foldlM keepOld config = some config') :
    olds.foldlM copyOld config = .ok config' ∧ config'.Plain := by
  induction olds generalizing config with
  | nil =>
    obtain rfl := Option.some.inj h
    exact ⟨rfl, hconfig⟩
  | cons old olds ih =>
    obtain ⟨next, hnext, hrest⟩ := Option.bind_eq_some_iff.1 h
    obtain ⟨hold, holds⟩ := List.forall_mem_cons.1 holds
    rw [List.foldlM_cons, copyOld_of_keepOld hconfig hnext]
    exact ih (hconfig.keepOld hold hnext) holds hrest

/-- **The rebuilt file has the keys of the built-in one**, with the old values where there are. -/
theorem rebuild {builtIn old : Document} (hbuiltIn : builtIn.Plain) (hold : old.Plain) :
    ∃ config, old.entries.foldlM copyOld builtIn = .ok config ∧
      old.entries.foldlM keepOld builtIn = some config ∧ config.Plain ∧
      ∀ key, config.lookup key = (builtIn.lookup key).map fun item => (old.lookup key).getD item := by
  have hplain : ∀ entry ∈ old.entries, entry.2.Plain :=
    fun entry hentry => hold entry.1 entry.2 (AList.mem_lookup_iff.2 hentry)
  have hsome : (old.entries.foldlM keepOld builtIn).isSome := by
    refine isSome_foldlM_keepOld.2 fun entry hentry _ => ?_
    obtain ⟨v, -, hv⟩ := (hplain entry hentry).asValue
    exact Option.isSome_iff_exists.2 ⟨v, hv⟩
  obtain ⟨config, hconfig⟩ := Option.isSome_iff_exists.1 hsome
  obtain ⟨hcopy, hplain'⟩ := foldlM_copyOld hbuiltIn hplain hconfig
  exact ⟨config, hcopy, hconfig, hplain', lookup_foldlM_keepOld old.nodupKeys hconfig⟩

end Document

namespace ConfigFile

/-! ### One call -/

section call

variable {T : Type} {stampAt : ℕ → Option Stamp} {builtIn : Document} {fromStr : String → Option T}
  {file : ConfigFile} {key : String}

/-- A key that is there is read, and nothing is written. -/
theorem configRead_found {item : Item} (h : (file.load stampAt).doc.lookup key = some item) (fuel : ℕ) :
    configRead stampAt builtIn fromStr (fuel + 1) file key =
      some (item.text >>= parseAs fromStr, { file with cached := some (file.load stampAt) }) := by
  simp only [configRead, withCached, h, Option.map_some]

/-- The file with a document written to it. -/
def rebuilt (stampAt : ℕ → Option Stamp) (file : ConfigFile) (config : Document) : ConfigFile :=
  ⟨config, file.writes + 1, some ⟨config, stampAt (file.writes + 1)⟩⟩

/-- What is loaded is what was rebuilt. -/
theorem load_rebuilt (config : Document) :
    (file.rebuilt stampAt config).load stampAt = ⟨config, stampAt (file.writes + 1)⟩ :=
  load_withCachedMut file fun _ => config

/-- A key that is missing has the file rebuilt and is looked for again. -/
theorem configRead_missing (h : (file.load stampAt).doc.lookup key = none) {config : Document}
    (hconfig : (file.load stampAt).doc.entries.foldlM Document.copyOld builtIn = .ok config) (fuel : ℕ) :
    configRead stampAt builtIn fromStr (fuel + 1) file key =
      configRead stampAt builtIn fromStr fuel (file.rebuilt stampAt config) key := by
  simp only [configRead, withCached, h, Option.map_none, load_load, hconfig]
  rfl

/-- **A key that the built-in file lacks is asked for without end.** -/
theorem configRead_endless (hbuiltIn : builtIn.Plain) (hkey : builtIn.lookup key = none) (fuel : ℕ)
    (hold : (file.load stampAt).doc.Plain) (h : (file.load stampAt).doc.lookup key = none) :
    configRead stampAt builtIn fromStr fuel file key = none := by
  -- the rebuilt file is plain and lacks the key too, so the next call is like this one
  induction fuel generalizing file with
  | zero => rfl
  | succ fuel ih =>
    obtain ⟨config, hconfig, -, hplain, hlookup⟩ := Document.rebuild hbuiltIn hold
    rw [configRead_missing h hconfig]
    refine ih ?_ ?_
    · rw [load_rebuilt]
      exact hplain
    · rw [load_rebuilt, hlookup, hkey]
      rfl

/-- **A key of the built-in file is found in the second call**, with the built-in value. -/
theorem configRead_migrated (hbuiltIn : builtIn.Plain) {item : Item} (hkey : builtIn.lookup key = some item)
    (hold : (file.load stampAt).doc.Plain) (h : (file.load stampAt).doc.lookup key = none) :
    ∃ config, (∀ k, config.lookup k =
        (builtIn.lookup k).map fun item => ((file.load stampAt).doc.lookup k).getD item) ∧
      ∀ fuel, configRead stampAt builtIn fromStr (fuel + 2) file key =
        some (item.text >>= parseAs fromStr, file.rebuilt stampAt config) := by
  obtain ⟨config, hconfig, -, -, hlookup⟩ := Document.rebuild hbuiltIn hold
  have hitem : ((file.rebuilt stampAt config).load stampAt).doc.lookup key = some item := by
    rw [load_rebuilt, hlookup, hkey, h]
    rfl
  refine ⟨config, hlookup, fun fuel => ?_⟩
  rw [configRead_missing h hconfig, configRead_found hitem, load_rebuilt]
  rfl

end call

/-! ### The migration -/

section migration

variable {T : Type} (stampAt : ℕ → Option Stamp) (builtIn : Document) (fromStr : String → Option T)
  (file : ConfigFile) (key : String)

/-- What a read of a missing key is to do.  It ends.  With a key of the built-in file it returns
the built-in value, and the file holds the keys of the built-in one, with the old values where
there were; with any other key it panics. -/
def Migrates : Prop :=
  ∃ (bound : ℕ) (outcome : Except String T) (file' : ConfigFile),
    (∀ fuel, bound ≤ fuel → configRead stampAt builtIn fromStr fuel file key = some (outcome, file')) ∧
    (∀ item, builtIn.lookup key = some item →
      (∃ text, item.text = .ok text ∧ outcome = parseAs fromStr text) ∧
      (file'.load stampAt).doc = file'.disk ∧
      ∀ k, file'.disk.lookup k =
        (builtIn.lookup k).map fun item => ((file.load stampAt).doc.lookup k).getD item) ∧
    (builtIn.lookup key = none → ∃ message, outcome = .error message)

/-- **The migration keeps the values and ends, and exactly when.**  A read of a key that the file
lacks does what it is to do if and only if the built-in file has the key; otherwise the call is
never over. -/
theorem config_read_migration_iff (hbuiltIn : builtIn.Plain) (hold : (file.load stampAt).doc.Plain)
    (hmissing : (file.load stampAt).doc.lookup key = none) :
    (Migrates stampAt builtIn fromStr file key ↔ (builtIn.lookup key).isSome) ∧
    (builtIn.lookup key = none → ∀ fuel, configRead stampAt builtIn fromStr fuel file key = none) := by
  have hendless : builtIn.lookup key = none → ∀ fuel, configRead stampAt builtIn fromStr fuel file key = none :=
    fun hkey fuel => configRead_endless hbuiltIn hkey fuel hold hmissing
  refine ⟨⟨?_, fun hsome => ?_⟩, hendless⟩
  · rintro ⟨bound, outcome, file', hreturns, -⟩
    by_contra hnone
    rw [Bool.not_eq_true, Option.isSome_eq_false_iff, Option.isNone_iff_eq_none] at hnone
    have hreturn := hreturns bound le_rfl
    rw [hendless hnone] at hreturn
    cases hreturn
  · obtain ⟨item, hitem⟩ := Option.isSome_iff_exists.1 hsome
    obtain ⟨config, hlookup, hreturns⟩ := configRead_migrated hbuiltIn hitem hold hmissing
    refine ⟨2, item.text >>= parseAs fromStr, file.rebuilt stampAt config, fun fuel hfuel => ?_,
      fun item' hitem' => ⟨?_, congrArg Cached.doc (load_rebuilt config), hlookup⟩, fun hnone => ?_⟩
    · obtain ⟨fuel, rfl⟩ := Nat.exists_eq_add_of_le' hfuel
      exact hreturns fuel
    · obtain rfl := Option.some.inj (hitem.symm.trans hitem')
      obtain ⟨text, htext⟩ := (hbuiltIn key item hitem).text
      exact ⟨text, htext, by rw [htext]; rfl⟩
    · rw [hitem] at hnone
      cases hnone

end migration

/-- A file of an older version: one setting that was changed, and one that is gone. -/
def oldFile : ConfigFile :=
  ⟨([⟨"max_clients", .value (.integer 5)⟩, ⟨"motd", .value (.string "hi")⟩] :
    List (Sigma fun _ : String => Item)).toAList, 0, none⟩

/-- When the file was written, and how long it is. -/
def exampleStamp (writes : ℕ) : Option Stamp := some (writes, 40)

/-- The file of the example is plain. -/
theorem plain_oldFile : (oldFile.load exampleStamp).doc.Plain := Document.plain_of_entries (by decide +kernel)

/-- The theorem on a setting that is new. -/
theorem config_read_migration_new_key :
    serverToml.Plain ∧ (oldFile.load exampleStamp).doc.Plain ∧
      (oldFile.load exampleStamp).doc.lookup "server_port" = none ∧
      Migrates exampleStamp serverToml (parse .u16) oldFile "server_port" := by
  have hmissing : (oldFile.load exampleStamp).doc.lookup "server_port" = none := by decide +kernel
  exact ⟨Document.plain_serverToml, plain_oldFile, hmissing,
    (config_read_migration_iff exampleStamp serverToml (parse .u16) oldFile "server_port"
      Document.plain_serverToml plain_oldFile hmissing).1.2 (by decide +kernel)⟩

/-- **A key of neither file is no panic**: the call is never over. -/
theorem config_read_endless_key :
    serverToml.Plain ∧ (oldFile.load exampleStamp).doc.Plain ∧
      (∀ fuel, configRead exampleStamp serverToml (parse .u16) fuel oldFile "max_rooms" = none) ∧
      ¬Migrates exampleStamp serverToml (parse .u16) oldFile "max_rooms" := by
  have hmissing : (oldFile.load exampleStamp).doc.lookup "max_rooms" = none := by decide +kernel
  have hkey : serverToml.lookup "max_rooms" = none := by decide +kernel
  have hendless : ∀ fuel, configRead exampleStamp serverToml (parse .u16) fuel oldFile "max_rooms" = none :=
    fun fuel => configRead_endless Document.plain_serverToml hkey fuel plain_oldFile hmissing
  refine ⟨Document.plain_serverToml, plain_oldFile, hendless, ?_⟩
  rintro ⟨bound, outcome, file', hreturns, -⟩
  have hreturn := hreturns bound le_rfl
  rw [hendless] at hreturn
  cases hreturn

/-! ### The settings of the server -/

section settings

variable {stampAt : ℕ → Option Stamp} {file : ConfigFile} {kind : Kind} {key : String}

end settings

end ConfigFile

end Why2
