/-
# The message history

`chat/src/config/messages.rs`: the records of the lobby, the counter that gives
every message its id, and the calls of the server on them.  The counter and the
records are behind one lock, so a call is one action; what it reads from the
configuration is an argument.  The file of the history is the list of records
`load` would return: it is written whole, and serialisation is lossless.

Ids are 64-bit and wrap as in a release build.  While the counter does not run
over, the records stay in the order of their ids and below the counter, so the
binary search of `find` agrees with a linear one (`history_invariant`).

The counter itself is not in the file.  A restart takes it from the last record
that is kept, so an id whose record was deleted or never stored is handed out
again (`ids_reused`); if at every restart the last record kept is the last
message sent, no id is (`ids_never_reused`).
-/

import Why2.Chat.PacketStream
import Why2.Lib.PartitionPoint
import Why2.Lib.Runs

namespace Why2

open Lib

/-- `u64`. -/
abbrev U64 := BitVec 64

/-- The SHA-256 of a file, which names it. -/
abbrev Hash := Vector U8 32

/-- `VoiceNote`. -/
structure VoiceNote where
  hash : Hash
  duration : BitVec 32
deriving DecidableEq

/-- `Record`. -/
structure Record where
  id : U64
  username : String
  text : String
  image : Option Hash
  timestamp : Option U64
  reply : Option U64
  hearts : List String
  edited : Bool
  voice : Option VoiceNote
  pinned : Bool
deriving DecidableEq

/-- `Record::stored`. -/
def Record.stored (r : Record) : Option Hash := r.image.or (r.voice.map (·.hash))

/-- `History`. -/
structure History where
  next : U64
  records : List Record
deriving DecidableEq

namespace History

/-- `History::new`, with what `load` returned. -/
def new (records : List Record) : History :=
  ⟨(records.getLast?.map fun message => message.id + 1).getD 0, records⟩

/-- `History::take_id`. -/
def takeId (h : History) : U64 × History := (h.next, { h with next := h.next + 1 })

/-- `History::position`. -/
def position (h : History) (id : U64) : ℕ := partitionPoint (fun message => message.id < id) h.records

/-- `History::find`. -/
def find (h : History) (id : U64) : Option ℕ :=
  if (h.records[h.position id]?).any (·.id = id) then some (h.position id) else none

/-- The record `find` points at, with its index. -/
def entry (h : History) (id : U64) : Option (ℕ × Record) := do
  let index ← h.find id
  let record ← h.records[index]?
  return (index, record)

end History

/-- `HISTORY` and the records in `server_messages.bin`. -/
structure Messages where
  history : History
  file : List Record
deriving DecidableEq

namespace Messages

/-- The start of the server: the history is what the file holds. -/
def start (file : List Record) : Messages := ⟨History.new file, file⟩

/-- `History::save`. -/
def save (m : Messages) : Messages := { m with file := m.history.records }

/-- The history with one record rewritten. -/
def rewrite (m : Messages) (index : ℕ) (f : Record → Record) : Messages :=
  { m with history := { m.history with records := m.history.records.modify index f } }

/-- `next_id`. -/
def nextId (m : Messages) : U64 × Messages :=
  (m.history.takeId.1, { m with history := m.history.takeId.2 })

/-- `push`: the id, the files the trimmed records named, and the history afterwards. -/
def push (limit : ℕ) (username text : String) (image : Option Hash) (voice : Option VoiceNote)
    (timestamp reply : Option U64) (m : Messages) : U64 × List Hash × Messages :=
  let (id, history) := m.history.takeId
  -- A history of nothing does not touch the file.
  if limit = 0 then (id, [], { m with history })
  else
    let records := history.records ++
      [{ id, username, text, image, timestamp, reply, hearts := [], edited := false, voice,
         pinned := false }]
    let over' := records.length - limit
    (id, (records.take over').filterMap (·.stored),
      save { m with history := { history with records := records.drop over' } })

/-- `store`. -/
def store (limit : ℕ) (username text : String) (timestamp reply : Option U64) (m : Messages) :
    U64 × List Hash × Messages :=
  m.push limit username text none none timestamp reply

/-- `store_image`. -/
def storeImage (limit : ℕ) (username filename : String) (hash : Hash) (timestamp : Option U64)
    (m : Messages) : U64 × List Hash × Messages :=
  m.push limit username filename (some hash) none timestamp none

/-- `store_voice`. -/
def storeVoice (limit : ℕ) (username : String) (voice : VoiceNote) (timestamp : Option U64)
    (m : Messages) : U64 × List Hash × Messages :=
  m.push limit username "" none (some voice) timestamp none

/-- `exists`. -/
def exists' (m : Messages) (id : U64) : Bool := (m.history.find id).isSome

/-- `author`. -/
def author (m : Messages) (id : U64) : Option String :=
  (m.history.entry id).map fun entry => entry.2.username

/-- `delete`: whether there was such a message, and the file it named. -/
def delete (id : U64) (m : Messages) : Bool × List Hash × Messages :=
  match m.history.entry id with
  | none => (false, [], m)
  | some (index, record) =>
    (true, record.stored.toList,
      save { m with history := { m.history with records := m.history.records.eraseIdx index } })

/-- The hearts after `username` toggled theirs. -/
def toggleHeart (username : String) (hearts : List String) : List String :=
  match hearts.idxOf? username with
  | some heart => hearts.eraseIdx heart
  | none => hearts ++ [username]

/-- `heart`. -/
def heart (id : U64) (username : String) (m : Messages) : Option (List String) × Messages :=
  match m.history.entry id with
  | none => (none, m)
  | some (index, record) =>
    (some (toggleHeart username record.hearts),
      save (m.rewrite index fun record => { record with hearts := toggleHeart username record.hearts }))

/-- `edit`. -/
def edit (id : U64) (username text : String) (m : Messages) : Bool × Messages :=
  match m.history.entry id with
  | none => (false, m)
  | some (index, record) =>
    if record.username ≠ username ∨ record.stored.isSome then (false, m)
    else (true, save (m.rewrite index fun record => { record with text, edited := true }))

/-- The number of pinned messages. -/
def pinnedCount (m : Messages) : ℕ := m.history.records.countP (·.pinned)

/-- `pin`. -/
def pin (limit : ℕ) (id : U64) (m : Messages) : Option Bool × Messages :=
  match m.history.entry id with
  | none => (none, m)
  | some (index, record) =>
    if record.pinned = false ∧ limit ≤ m.pinnedCount then (none, m)
    else
      (some !record.pinned,
        save (m.rewrite index fun record => { record with pinned := !record.pinned }))

/-! ### Binary and linear search -/

end Messages

namespace History

variable {h : History}

/-- The records are in the order of their ids, and the counter is past all of them. -/
structure Ordered (h : History) : Prop where
  increasing : (h.records.map (·.id)).Pairwise (· < ·)
  below : ∀ r ∈ h.records, r.id < h.next

/-- The position of an id is where the records before it end. -/
theorem Ordered.partitioned (hord : h.Ordered) (id : U64) :
    Partitioned (fun message : Record => decide (message.id < id)) h.records (h.position id) := by
  have hpart : Partitioned (fun message : Record => decide (message.id < id)) h.records _ :=
    partitioned_takeWhile ((List.pairwise_map.1 hord.increasing).imp fun hxy hy => by
      rw [decide_eq_true_iff] at hy ⊢
      exact BitVec.lt_trans hxy hy)
  rwa [← partitionPoint_eq hpart] at hpart

/-- **The binary search for an id finds what a linear search finds.** -/
theorem Ordered.find_eq (hord : h.Ordered) (id : U64) :
    h.find id = h.records.findIdx? (·.id = id) := by
  have hinc := List.pairwise_map.1 hord.increasing
  have hpart := hord.partitioned id
  have hbefore : ∀ i (hi : i < h.records.length), h.records[i].id < id ↔ i < h.position id := by
    intro i hi
    have := hpart.any_iff i
    rwa [List.getElem?_eq_getElem hi, Option.any_some, decide_eq_true_iff] at this
  unfold find
  symm
  split
  · rename_i hany
    obtain ⟨r, hr, hid⟩ := (Option.any_eq_true _ _).1 hany
    obtain ⟨hlt, rfl⟩ := List.getElem?_eq_some_iff.1 hr
    refine List.findIdx?_eq_some_iff_getElem.2 ⟨hlt, hid, fun j hj => ?_⟩
    have := (hbefore j (hj.trans hlt)).2 hj
    rw [decide_eq_true_iff]
    intro heq
    rw [heq] at this
    exact BitVec.lt_irrefl _ this
  · rename_i hany
    refine List.findIdx?_eq_none_iff.2 fun r hr => decide_eq_false fun hid => hany ?_
    -- The record with this id is not before the position, and a record between would be.
    obtain ⟨i, hi, rfl⟩ := List.getElem_of_mem hr
    have hle : ¬i < h.position id := fun hlt => BitVec.lt_irrefl id (hid ▸ (hbefore i hi).2 hlt)
    rcases (Nat.le_of_not_lt hle).eq_or_lt with heq | hlt
    · rw [heq, List.getElem?_eq_getElem hi, Option.any_some, decide_eq_true_iff, hid]
    · have hpos : h.position id < h.records.length := hlt.trans hi
      have hid' := List.pairwise_iff_getElem.1 hinc _ _ hpos hi hlt
      rw [hid] at hid'
      exact absurd ((hbefore _ hpos).1 hid') (Nat.lt_irrefl _)

/-- The record at the index `find` gives is the first one a linear search meets. -/
theorem Ordered.entry_eq (hord : h.Ordered) (id : U64) :
    (h.entry id).map Prod.snd = h.records.find? (·.id = id) := by
  unfold entry
  rw [hord.find_eq id]
  cases hfind : h.records.findIdx? (·.id = id) with
  | none =>
    have hnone := List.findIdx?_eq_none_iff.1 hfind
    refine (List.find?_eq_none.2 fun r hr => ?_).symm
    rw [hnone r hr]
    exact Bool.false_ne_true
  | some i =>
    obtain ⟨hi, hid, hbefore⟩ := List.findIdx?_eq_some_iff_getElem.1 hfind
    simp only [Option.bind_eq_bind, Option.bind_some, List.getElem?_eq_getElem hi, pure, Option.map_some]
    symm
    refine List.find?_eq_some_iff_getElem.2 ⟨hid, i, hi, rfl, fun j hj => ?_⟩
    rw [Bool.not_eq_true', Bool.eq_false_iff]
    exact hbefore j hj

/-- An entry is the record at its index. -/
theorem getElem?_of_entry {id : U64} {index : ℕ} {record : Record}
    (hentry : h.entry id = some (index, record)) : h.records[index]? = some record := by
  obtain ⟨i, _, hrest⟩ := Option.bind_eq_some_iff.1 hentry
  obtain ⟨r, hr, hsome⟩ := Option.bind_eq_some_iff.1 hrest
  obtain ⟨rfl, rfl⟩ := Prod.mk.inj (Option.some.inj hsome)
  exact hr

/-- The record an id leads to, among records with other ids. -/
structure EntryAt (h : History) (id : U64) (index : ℕ) (record : Record) (before after : List Record) :
    Prop where
  records_eq : h.records = before ++ record :: after
  length_eq : before.length = index
  id_eq : record.id = id
  before_ne : ∀ r ∈ before, r.id ≠ id
  after_ne : ∀ r ∈ after, r.id ≠ id

/-- An entry, between the records before and after it. -/
theorem Ordered.entryAt (hord : h.Ordered) {id : U64} {index : ℕ} {record : Record}
    (hentry : h.entry id = some (index, record)) :
    ∃ before after, EntryAt h id index record before after := by
  have hfind := hord.entry_eq id
  rw [hentry, Option.map_some] at hfind
  have hid : record.id = id := by simpa using List.find?_some hfind.symm
  obtain ⟨hlt, hrecord⟩ := List.getElem?_eq_some_iff.1 (getElem?_of_entry hentry)
  have hsplit : h.records = h.records.take index ++ record :: h.records.drop (index + 1) := by
    rw [← hrecord, List.getElem_cons_drop, List.take_append_drop]
  have hinc := List.pairwise_map.1 hord.increasing
  rw [hsplit, List.pairwise_append, List.pairwise_cons] at hinc
  refine ⟨_, _, hsplit, List.length_take_of_le hlt.le, hid, fun r hr heq => ?_, fun r hr heq => ?_⟩
  · have hless := hinc.2.2 r hr record List.mem_cons_self
    rw [heq, hid] at hless
    exact BitVec.lt_irrefl _ hless
  · have hless := hinc.2.1.1 r hr
    rw [heq, hid] at hless
    exact BitVec.lt_irrefl _ hless

end History

/-! ### What one call does -/

/-- One call, with the limit the configuration holds at that moment. -/
inductive MessageAction
  | nextId
  | store (limit : ℕ) (username text : String) (timestamp reply : Option U64)
  | storeImage (limit : ℕ) (username filename : String) (hash : Hash) (timestamp : Option U64)
  | storeVoice (limit : ℕ) (username : String) (voice : VoiceNote) (timestamp : Option U64)
  | delete (id : U64)
  | heart (id : U64) (username : String)
  | edit (id : U64) (username text : String)
  | pin (limit : ℕ) (id : U64)
deriving DecidableEq

/-- The calls that hand out an id. -/
def MessageAction.takesId : MessageAction → Bool
  | .nextId | .store .. | .storeImage .. | .storeVoice .. => true
  | .delete _ | .heart .. | .edit .. | .pin .. => false

/-- The part of a record that no call changes. -/
def Record.message (r : Record) : Record :=
  { r with text := "", hearts := [], edited := false, pinned := false }

/-- The same message later: nobody hearts it twice if nobody did before. -/
def Rewritten (r r' : Record) : Prop :=
  r'.message = r.message ∧ (r.hearts.Nodup → r'.hearts.Nodup)

/-- A record that stays is rewritten to itself. -/
theorem Rewritten.refl (r : Record) : Rewritten r r := ⟨rfl, id⟩

/-- A record may be rewritten again. -/
theorem Rewritten.trans {r r' r'' : Record} (h : Rewritten r r') (h' : Rewritten r' r'') :
    Rewritten r r'' :=
  ⟨h'.1.trans h.1, fun hr => h'.2 (h.2 hr)⟩

/-- A rewritten record keeps its id. -/
theorem Rewritten.id_eq {r r' : Record} (h : Rewritten r r') : r'.id = r.id := by
  have hid : r'.message.id = r.message.id := congrArg Record.id h.1
  exact hid

/-- The records `new` are among the records `old`, rewritten, in their order. -/
structure Kept (old new : List Record) : Prop where
  ids : (new.map (·.id)).Sublist (old.map (·.id))
  rewritten : ∀ r' ∈ new, ∃ r ∈ old, Rewritten r r'

/-- Records that are removed are gone, and the others stay. -/
theorem Kept.of_sublist {old new : List Record} (h : new.Sublist old) : Kept old new :=
  ⟨h.map _, fun r hr => ⟨r, h.subset hr, .refl r⟩⟩

/-- One record may be rewritten. -/
theorem Kept.modify (records : List Record) (index : ℕ) {f : Record → Record}
    (hf : ∀ r, Rewritten r (f r)) : Kept records (records.modify index f) := by
  have hget : ∀ i, (records.modify index f)[i]? =
      records[i]?.map fun r => if index = i then f r else r := by
    intro i
    rw [List.getElem?_modify]
    rfl
  constructor
  · have heq : (records.modify index f).map (·.id) = records.map (·.id) := by
      refine List.ext_getElem? fun i => ?_
      rw [List.getElem?_map, List.getElem?_map, hget, Option.map_map]
      congr 1
      funext r
      by_cases hi : index = i
      · simp only [Function.comp, if_pos hi, (hf r).id_eq]
      · simp only [Function.comp, if_neg hi]
    rw [heq]
  · intro r' hr'
    obtain ⟨i, hi⟩ := List.mem_iff_getElem?.1 hr'
    rw [hget, Option.map_eq_some_iff] at hi
    obtain ⟨r, hr, rfl⟩ := hi
    refine ⟨r, List.mem_of_getElem? hr, ?_⟩
    split
    · exact hf r
    · exact .refl r

/-- A user has one heart at a message. -/
theorem nodup_toggleHeart (username : String) {hearts : List String} (h : hearts.Nodup) :
    (Messages.toggleHeart username hearts).Nodup := by
  unfold Messages.toggleHeart
  split
  · exact h.sublist (List.eraseIdx_sublist _ _)
  · rename_i hnone
    have hmem := List.idxOf?_eq_none_iff.1 hnone
    exact List.nodup_append.2 ⟨h, List.nodup_singleton _, fun a ha b hb hab =>
      hmem (List.mem_singleton.1 hb ▸ hab ▸ ha)⟩

namespace Messages

variable {m : Messages}

/-- The id a call hands out, if it does, and the history afterwards. -/
def act (m : Messages) : MessageAction → Option U64 × Messages
  | .nextId => (some m.nextId.1, m.nextId.2)
  | .store limit username text timestamp reply =>
    let (id, _, m) := m.store limit username text timestamp reply
    (some id, m)
  | .storeImage limit username filename hash timestamp =>
    let (id, _, m) := m.storeImage limit username filename hash timestamp
    (some id, m)
  | .storeVoice limit username voice timestamp =>
    let (id, _, m) := m.storeVoice limit username voice timestamp
    (some id, m)
  | .delete id => (none, (m.delete id).2.2)
  | .heart id username => (none, (m.heart id username).2)
  | .edit id username text => (none, (m.edit id username text).2)
  | .pin limit id => (none, (m.pin limit id).2)

/-- What a call does: a call that hands out an id takes the counter's, and stores a
record under it or leaves the records alone; any other call leaves the counter alone.
Of the records that were there it keeps some, in their order. -/
inductive Effect (m : Messages) : Option U64 → Messages → Prop
  | unstored (m' : Messages) (hnext : m'.history.next = m.history.next + 1)
      (hrecords : m'.history.records = m.history.records) (hfile : m'.file = m.file) :
      Effect m (some m.history.next) m'
  | stored (m' : Messages) (r : Record) (hnext : m'.history.next = m.history.next + 1)
      (hid : r.id = m.history.next) (hhearts : r.hearts = [])
      (hrecords : m'.history.records.Sublist (m.history.records ++ [r]))
      (hmem : r ∈ m'.history.records) (hfile : m'.file = m'.history.records) :
      Effect m (some m.history.next) m'
  | same : Effect m none m
  | kept (m' : Messages) (hnext : m'.history.next = m.history.next)
      (hrecords : Kept m.history.records m'.history.records)
      (hfile : m'.file = m'.history.records) : Effect m none m'

/-- A stored message comes last, with the next id. -/
theorem push_effect (limit : ℕ) (username text : String) (image : Option Hash)
    (voice : Option VoiceNote) (timestamp reply : Option U64) :
    Effect m (some (m.push limit username text image voice timestamp reply).1)
      (m.push limit username text image voice timestamp reply).2.2 := by
  unfold push
  simp only [History.takeId]
  split
  · exact .unstored _ rfl rfl rfl
  · rename_i hlimit
    refine .stored _ _ rfl rfl rfl (List.drop_sublist _ _) ?_ rfl
    -- The new record is last, and at least one record is kept.
    simp only [save, List.length_append, List.length_singleton]
    rw [List.drop_append_of_le_length (by omega)]
    exact List.mem_append_right _ (List.mem_singleton_self _)

/-- A rewritten record stays in its place. -/
theorem rewrite_effect (index : ℕ) {f : Record → Record} (hf : ∀ r, Rewritten r (f r)) :
    Effect m none (m.rewrite index f).save :=
  .kept _ rfl (.modify _ index hf) rfl

/-- **What any call does.** -/
theorem act_effect (m : Messages) (a : MessageAction) : Effect m (m.act a).1 (m.act a).2 := by
  cases a with
  | nextId => exact .unstored _ rfl rfl rfl
  | store limit username text timestamp reply => exact push_effect ..
  | storeImage limit username filename hash timestamp => exact push_effect ..
  | storeVoice limit username voice timestamp => exact push_effect ..
  | delete id =>
    simp only [act, delete]
    split
    · exact .same
    · exact .kept _ rfl (.of_sublist (List.eraseIdx_sublist _ _)) rfl
  | heart id username =>
    simp only [act, heart]
    split
    · exact .same
    · exact rewrite_effect _ fun r => ⟨rfl, nodup_toggleHeart username⟩
  | edit id username text =>
    simp only [act, edit]
    split
    · exact .same
    · split
      · exact .same
      · exact rewrite_effect _ fun r => ⟨rfl, fun hr => hr⟩
  | pin limit id =>
    simp only [act, pin]
    split
    · exact .same
    · split
      · exact .same
      · exact rewrite_effect _ fun r => ⟨rfl, fun hr => hr⟩

/-- The records after a push with a limit: at most so many, the new one among them, and
every record dropped is older than every record kept. -/
structure KeepsNewest (limit : ℕ) (m m' : Messages) (id : U64) : Prop where
  length_eq : m'.history.records.length = min limit (m.history.records.length + 1)
  newest : ∃ r ∈ m'.history.records, r.id = id ∧
    m'.history.records.Sublist (m.history.records ++ [r]) ∧
    ∀ old ∈ m.history.records, old ∉ m'.history.records →
      ∀ kept ∈ m'.history.records, old.id < kept.id

/-- **A push keeps the newest messages.** -/
theorem push_keepsNewest (hord : m.history.Ordered) {limit : ℕ} (hlimit : limit ≠ 0)
    (username text : String) (image : Option Hash) (voice : Option VoiceNote)
    (timestamp reply : Option U64) :
    KeepsNewest limit m (m.push limit username text image voice timestamp reply).2.2
      (m.push limit username text image voice timestamp reply).1 := by
  unfold push
  simp only [History.takeId, if_neg hlimit, save]
  refine ⟨?_, _, ?_, rfl, List.drop_sublist _ _, fun old hold hdropped kept hkept => ?_⟩
  · rw [List.length_drop, List.length_append, List.length_singleton]
    omega
  · rw [List.length_append, List.length_singleton, List.drop_append_of_le_length (by omega)]
    exact List.mem_append_right _ (List.mem_singleton_self _)
  · generalize hrec : Record.mk m.history.next username text image timestamp reply [] false voice false = r
    rw [hrec] at hdropped hkept
    have hr : r.id = m.history.next := by rw [← hrec]
    -- The order of the ids in the whole list, cut at the point where the trimming stops.
    have hall : (m.history.records ++ [r]).Pairwise fun r r' => r.id < r'.id := by
      refine List.pairwise_append.2 ⟨List.pairwise_map.1 hord.increasing, List.pairwise_singleton _ _, ?_⟩
      intro x hx y hy
      rw [List.mem_singleton.1 hy, hr]
      exact hord.below x hx
    have hmem : old ∈ m.history.records ++ [r] := List.mem_append_left _ hold
    rw [← List.take_append_drop ((m.history.records ++ [r]).length - limit) (m.history.records ++ [r])]
      at hall hmem
    rcases List.mem_append.1 hmem with htake | hdrop
    · exact (List.pairwise_append.1 hall).2.2 old htake kept hkept
    · exact absurd hdrop hdropped

/-- **A pin that adds to the pinned messages stays within the limit.** -/
theorem pin_le_limit (limit : ℕ) (id : U64)
    (h : m.pinnedCount < (m.pin limit id).2.pinnedCount) :
    (m.pin limit id).2.pinnedCount ≤ limit := by
  revert h
  unfold pin
  split
  · intro h
    exact absurd h (Nat.lt_irrefl _)
  · rename_i index record hentry
    have hget := History.getElem?_of_entry hentry
    obtain ⟨hlt, hrecord⟩ := List.getElem?_eq_some_iff.1 hget
    have hsplit : m.history.records = m.history.records.take index ++ record ::
        m.history.records.drop (index + 1) := by
      rw [← hrecord, List.getElem_cons_drop, List.take_append_drop]
    have hcount : m.pinnedCount = (m.history.records.take index).countP (·.pinned) +
        ((m.history.records.drop (index + 1)).countP (·.pinned) + if record.pinned then 1 else 0) := by
      unfold pinnedCount
      conv_lhs => rw [hsplit]
      rw [List.countP_append, List.countP_cons]
    split
    · intro h
      exact absurd h (Nat.lt_irrefl _)
    · rename_i hfull
      have hcount' : (m.rewrite index fun record =>
          { record with pinned := !record.pinned }).save.pinnedCount =
          (m.history.records.take index).countP (·.pinned) +
            ((m.history.records.drop (index + 1)).countP (·.pinned) + if record.pinned then 0 else 1) := by
        simp only [pinnedCount, rewrite, save]
        rw [List.modify_eq_take_cons_drop hlt, hrecord, List.countP_append, List.countP_cons]
        cases record.pinned <;> rfl
      intro h
      rw [hcount, hcount'] at h
      rw [hcount']
      cases hpinned : record.pinned with
      | true =>
        simp only [hpinned, if_true] at h
        omega
      | false =>
        simp only [hpinned, true_and, not_le, hcount] at hfull
        simp only [Bool.false_eq_true, if_false] at hfull ⊢
        omega

/-- Below the last id, the next one is new. -/
theorem lt_next_succ {next : U64} (h : next ≠ BitVec.allOnes 64) :
    next < next + 1 ∧ ∀ id, id < next → id < next + 1 := by
  have hne : next.toNat ≠ (BitVec.allOnes 64).toNat := fun heq => h (BitVec.eq_of_toNat_eq heq)
  rw [BitVec.toNat_allOnes] at hne
  have hlt := next.isLt
  have hsucc : (next + 1).toNat = next.toNat + 1 := by
    have hone : (1 : U64).toNat = 1 := rfl
    rw [BitVec.toNat_add, hone]
    omega
  simp only [BitVec.lt_def, hsucc]
  exact ⟨by omega, fun id hid => by omega⟩

/-- **A call keeps the order of the records**, while the counter does not run over. -/
theorem Effect.ordered {out : Option U64} {m' : Messages} (h : Effect m out m')
    (hord : m.history.Ordered) (hroom : out.isSome = true → m.history.next ≠ BitVec.allOnes 64) :
    m'.history.Ordered := by
  cases h with
  | unstored _ hnext hrecords hfile =>
    refine ⟨by rw [hrecords]; exact hord.increasing, fun r hr => ?_⟩
    rw [hnext]
    exact (lt_next_succ (hroom rfl)).2 _ (hord.below r (hrecords ▸ hr))
  | stored _ r hnext hid hhearts hrecords hmem hfile =>
    have hall : (m.history.records ++ [r]).Pairwise fun r r' => r.id < r'.id := by
      refine List.pairwise_append.2 ⟨List.pairwise_map.1 hord.increasing, List.pairwise_singleton _ _, ?_⟩
      intro r' hr' last hlast
      rw [List.mem_singleton.1 hlast, hid]
      exact hord.below r' hr'
    refine ⟨List.pairwise_map.2 (hall.sublist hrecords), fun r' hr' => ?_⟩
    rw [hnext]
    rcases List.mem_append.1 (hrecords.subset hr') with hr' | hr'
    · exact (lt_next_succ (hroom rfl)).2 _ (hord.below r' hr')
    · rw [List.mem_singleton.1 hr', hid]
      exact (lt_next_succ (hroom rfl)).1
  | same => exact hord
  | kept _ hnext hrecords hfile =>
    refine ⟨hord.increasing.sublist hrecords.ids, fun r' hr' => ?_⟩
    obtain ⟨r, hr, hrew⟩ := hrecords.rewritten r' hr'
    rw [hnext, hrew.id_eq]
    exact hord.below r hr

end Messages

/-! ### Runs -/

/-- A message that was given an id: the id, and the record stored under it, if any was. -/
structure Sent where
  id : U64
  origin : Option Record
deriving DecidableEq

/-- The history, with every message sent so far. -/
structure Ledger where
  messages : Messages
  log : List Sent
deriving DecidableEq

namespace Ledger

open Messages (lt_next_succ)

variable {file : List Record} {s s' : Ledger}

/-- The server starts from a file; the messages in it were sent before. -/
def start (file : List Record) : Ledger := ⟨.start file, file.map fun r => ⟨r.id, some r⟩⟩

/-- The log with the id of a call, and the record the history holds under it. -/
def record (log : List Sent) (out : Option U64) (m : Messages) : List Sent :=
  log ++ (out.map fun id => ⟨id, m.history.records.find? (·.id = id)⟩).toList

/-- One call. -/
def step (s : Ledger) (a : MessageAction) : Option Ledger :=
  some ⟨(s.messages.act a).2, record s.log (s.messages.act a).1 (s.messages.act a).2⟩

/-- The counter does not run over. -/
def Room (s : Ledger) (a : MessageAction) : Prop :=
  a.takesId → s.messages.history.next ≠ BitVec.allOnes 64

instance (s : Ledger) (a : MessageAction) : Decidable (s.Room a) :=
  inferInstanceAs (Decidable (a.takesId → s.messages.history.next ≠ BitVec.allOnes 64))

/-- The invariant: the records and the ids handed out are in order and the counter is
right after the last of these; the file is up to date; every record is the message that
was sent under its id; what was stored had no hearts, unless it came from the file. -/
structure Inv (file : List Record) (s : Ledger) : Prop where
  ordered : s.messages.history.Ordered
  saved : s.messages.file = s.messages.history.records
  increasing : (s.log.map (·.id)).Pairwise (· < ·)
  next : s.messages.history.next = (s.log.getLast?.map (·.id + 1)).getD 0
  below : ∀ e ∈ s.log, e.id < s.messages.history.next
  named : ∀ r ∈ s.messages.history.records,
    ∃ e ∈ s.log, ∃ o, e.origin = some o ∧ o.id = e.id ∧ Rewritten o r
  fresh : ∀ e ∈ s.log, ∀ o, e.origin = some o → o ∈ file ∨ o.hearts = []

/-- The records of a file in order start a history that is in order. -/
theorem ordered_new (hfile : (file.map (·.id)).Pairwise (· < ·))
    (hroom : ∀ r ∈ file, r.id ≠ BitVec.allOnes 64) : (History.new file).Ordered := by
  refine ⟨hfile, fun r hr => ?_⟩
  obtain ⟨init, last, rfl⟩ := (List.eq_nil_or_concat' file).resolve_left (List.ne_nil_of_mem hr)
  simp only [History.new, List.getLast?_append, List.getLast?_singleton, Option.some_or,
    Option.map_some, Option.getD_some]
  have hlast := lt_next_succ (hroom last (List.mem_append_right _ (List.mem_singleton_self _)))
  rcases List.mem_append.1 hr with hinit | hr
  · have := (List.pairwise_append.1 (List.pairwise_map.1 hfile)).2.2 r hinit last
      (List.mem_singleton_self _)
    exact hlast.2 _ this
  · rw [List.mem_singleton.1 hr]
    exact hlast.1

/-- A history that is loaded has the invariant. -/
theorem inv_start (hfile : (file.map (·.id)).Pairwise (· < ·))
    (hroom : ∀ r ∈ file, r.id ≠ BitVec.allOnes 64) : Inv file (start file) := by
  have hord := ordered_new hfile hroom
  have hids : (start file).log.map (·.id) = file.map (·.id) := by
    rw [start, List.map_map]
    rfl
  constructor
  case ordered => exact hord
  case saved => rfl
  case increasing => rw [hids]; exact hfile
  case next =>
    rw [start, List.getLast?_map, Option.map_map]
    rfl
  case below =>
    intro e he
    obtain ⟨r, hr, rfl⟩ := List.mem_map.1 he
    exact hord.below r hr
  case named =>
    intro r hr
    exact ⟨_, List.mem_map_of_mem hr, r, rfl, rfl, .refl r⟩
  case fresh =>
    intro e he o ho
    obtain ⟨r, hr, rfl⟩ := List.mem_map.1 he
    obtain rfl := Option.some.inj ho
    exact .inl hr

/-- The log after an id was handed out. -/
theorem Inv.log_next (hinv : Inv file s) (hroom : s.messages.history.next ≠ BitVec.allOnes 64)
    (e : Sent) (he : e.id = s.messages.history.next) :
    ((s.log ++ [e]).map (·.id)).Pairwise (· < ·) ∧
      ∀ e' ∈ s.log ++ [e], e'.id < s.messages.history.next + 1 := by
  obtain ⟨hself, hbelow⟩ := lt_next_succ hroom
  constructor
  · rw [List.map_append, List.map_singleton]
    refine List.pairwise_append.2 ⟨hinv.increasing, List.pairwise_singleton _ _, ?_⟩
    intro id hid last hlast
    obtain ⟨e', he', rfl⟩ := List.mem_map.1 hid
    rw [List.mem_singleton.1 hlast, he]
    exact hinv.below e' he'
  · intro e' he'
    rcases List.mem_append.1 he' with he' | he'
    · exact hbelow _ (hinv.below e' he')
    · rw [List.mem_singleton.1 he', he]
      exact hself

/-- An id handed out for a message that is not stored. -/
theorem Inv.unstored (hinv : Inv file s) (hroom : s.messages.history.next ≠ BitVec.allOnes 64)
    {m : Messages} (hnext : m.history.next = s.messages.history.next + 1)
    (hrecords : m.history.records = s.messages.history.records) (hfile : m.file = s.messages.file) :
    Inv file ⟨m, record s.log (some s.messages.history.next) m⟩ := by
  -- No record has the new id, since all are below the counter.
  have hnone : m.history.records.find? (·.id = s.messages.history.next) = none := by
    refine List.find?_eq_none.2 fun r hr hid => ?_
    have hlt := hinv.ordered.below r (hrecords ▸ hr)
    rw [of_decide_eq_true hid] at hlt
    exact BitVec.lt_irrefl _ hlt
  have hlog : record s.log (some s.messages.history.next) m =
      s.log ++ [⟨s.messages.history.next, none⟩] := by
    rw [← hnone]
    rfl
  rw [hlog]
  obtain ⟨hinc, hbelow⟩ := hinv.log_next hroom ⟨s.messages.history.next, none⟩ rfl
  constructor
  case ordered =>
    exact (Messages.Effect.unstored m hnext hrecords hfile).ordered hinv.ordered fun _ => hroom
  case saved => rw [hfile, hrecords]; exact hinv.saved
  case increasing => exact hinc
  case next => rw [hnext, List.getLast?_concat, Option.map_some, Option.getD_some]
  case below => rw [hnext]; exact hbelow
  case named =>
    intro r hr
    obtain ⟨e, he, o, ho⟩ := hinv.named r (hrecords ▸ hr)
    exact ⟨e, List.mem_append_left _ he, o, ho⟩
  case fresh =>
    intro e he o ho
    rcases List.mem_append.1 he with he | he
    · exact hinv.fresh e he o ho
    · rw [List.mem_singleton.1 he] at ho
      cases ho

/-- An id handed out for a message that is stored. -/
theorem Inv.stored (hinv : Inv file s) (hroom : s.messages.history.next ≠ BitVec.allOnes 64)
    {m : Messages} {r : Record} (hnext : m.history.next = s.messages.history.next + 1)
    (hid : r.id = s.messages.history.next) (hhearts : r.hearts = [])
    (hrecords : m.history.records.Sublist (s.messages.history.records ++ [r]))
    (hmem : r ∈ m.history.records) (hfile : m.file = m.history.records) :
    Inv file ⟨m, record s.log (some s.messages.history.next) m⟩ := by
  have hold : ∀ r' ∈ m.history.records, r' ∈ s.messages.history.records ∨ r' = r := by
    intro r' hr'
    rcases List.mem_append.1 (hrecords.subset hr') with h | h
    · exact .inl h
    · exact .inr (List.mem_singleton.1 h)
  -- The record under the new id is the new one.
  have hfind : m.history.records.find? (·.id = s.messages.history.next) = some r := by
    cases hfind : m.history.records.find? (·.id = s.messages.history.next) with
    | none =>
      have hnot := List.find?_eq_none.1 hfind r hmem
      exact absurd (decide_eq_true hid) hnot
    | some r' =>
      have hid' : r'.id = s.messages.history.next := by simpa using List.find?_some hfind
      rcases hold r' (List.mem_of_find?_eq_some hfind) with hr' | hr'
      · have hlt := hinv.ordered.below r' hr'
        rw [hid'] at hlt
        exact absurd hlt (BitVec.lt_irrefl _)
      · rw [hr']
  have hlog : record s.log (some s.messages.history.next) m =
      s.log ++ [⟨s.messages.history.next, some r⟩] := by
    rw [← hfind]
    rfl
  rw [hlog]
  obtain ⟨hinc, hbelow⟩ := hinv.log_next hroom ⟨s.messages.history.next, some r⟩ rfl
  constructor
  case ordered =>
    exact (Messages.Effect.stored m r hnext hid hhearts hrecords hmem hfile).ordered hinv.ordered
      fun _ => hroom
  case saved => exact hfile
  case increasing => exact hinc
  case next => rw [hnext, List.getLast?_concat, Option.map_some, Option.getD_some]
  case below => rw [hnext]; exact hbelow
  case named =>
    intro r' hr'
    rcases hold r' hr' with hr' | rfl
    · obtain ⟨e, he, o, ho⟩ := hinv.named r' hr'
      exact ⟨e, List.mem_append_left _ he, o, ho⟩
    · exact ⟨_, List.mem_append_right _ (List.mem_singleton_self _), r', rfl, hid, .refl r'⟩
  case fresh =>
    intro e he o ho
    rcases List.mem_append.1 he with he | he
    · exact hinv.fresh e he o ho
    · rw [List.mem_singleton.1 he] at ho
      obtain rfl := Option.some.inj ho
      exact .inr hhearts

/-- A call that hands out no id. -/
theorem Inv.kept (hinv : Inv file s) {m : Messages}
    (hnext : m.history.next = s.messages.history.next)
    (hrecords : Kept s.messages.history.records m.history.records)
    (hfile : m.file = m.history.records) : Inv file ⟨m, s.log⟩ := by
  constructor
  case ordered =>
    exact (Messages.Effect.kept m hnext hrecords hfile).ordered hinv.ordered fun h => (nomatch h)
  case saved => exact hfile
  case increasing => exact hinv.increasing
  case next => rw [hnext]; exact hinv.next
  case below => rw [hnext]; exact hinv.below
  case named =>
    intro r' hr'
    obtain ⟨r, hr, hrew⟩ := hrecords.rewritten r' hr'
    obtain ⟨e, he, o, ho, hid, horigin⟩ := hinv.named r hr
    exact ⟨e, he, o, ho, hid, horigin.trans hrew⟩
  case fresh => exact hinv.fresh

/-- Only a message takes an id. -/
theorem takesId_of_act (m : Messages) (a : MessageAction) (h : (m.act a).1.isSome = true) :
    a.takesId = true := by
  cases a with
  | nextId | store | storeImage | storeVoice => rfl
  | delete | heart | edit | pin => cases h

/-- **Every call keeps the invariant.** -/
theorem Inv.step {a : MessageAction} (hinv : Inv file s) (hroom : s.Room a)
    (h : Ledger.step s a = some s') : Inv file s' := by
  obtain rfl := Option.some.inj h
  have htakes := takesId_of_act s.messages a
  have heffect := s.messages.act_effect a
  revert htakes heffect
  generalize s.messages.act a = result
  obtain ⟨out, m⟩ := result
  rintro htakes heffect
  dsimp only at htakes heffect ⊢
  cases heffect with
  | unstored _ hnext hrecords hfile => exact hinv.unstored (hroom (htakes rfl)) hnext hrecords hfile
  | stored _ r hnext hid hhearts hrecords hmem hfile =>
    exact hinv.stored (hroom (htakes rfl)) hnext hid hhearts hrecords hmem hfile
  | same =>
    rw [record, Option.map_none, Option.toList_none, List.append_nil]
    exact hinv
  | kept _ hnext hrecords hfile =>
    rw [record, Option.map_none, Option.toList_none, List.append_nil]
    exact hinv.kept hnext hrecords hfile

/-- Nobody hearts a message twice, unless the file had it so. -/
theorem Inv.hearts (hinv : Inv file s) {r : Record} (hr : r ∈ s.messages.history.records)
    (hfile : ∀ r₀ ∈ file, r₀.id = r.id → r₀.hearts.Nodup) : r.hearts.Nodup := by
  obtain ⟨e, he, o, ho, _, hrew⟩ := hinv.named r hr
  refine hrew.2 ?_
  rcases hinv.fresh e he o ho with hmem | hnil
  · exact hfile o hmem hrew.id_eq.symm
  · rw [hnil]
    exact List.nodup_nil

/-- **The history keeps its shape in every run.**  From any file whose ids increase, and
while the counter does not run over: the ids of the records increase and are below the
counter; every id handed out is larger than those before; nobody hearts a message twice
that the file did not have so; a push keeps the newest messages up to its limit; a pin
does not add to the pinned messages past its limit; and the binary search for an id
finds what a linear search finds. -/
theorem history_invariant (file : List Record) (hfile : (file.map (·.id)).Pairwise (· < ·))
    (hroom : ∀ r ∈ file, r.id ≠ BitVec.allOnes 64) (actions : List MessageAction) (s : Ledger)
    (hmeets : Meets step Room (start file) actions) (hexec : exec step (start file) actions = some s) :
    s.messages.history.Ordered ∧
    (s.log.map (·.id)).Pairwise (· < ·) ∧
    (∀ r ∈ s.messages.history.records,
      (∀ r₀ ∈ file, r₀.id = r.id → r₀.hearts.Nodup) → r.hearts.Nodup) ∧
    (∀ limit username text image voice timestamp reply, limit ≠ 0 →
      (s.messages.KeepsNewest limit
        (s.messages.push limit username text image voice timestamp reply).2.2
        (s.messages.push limit username text image voice timestamp reply).1)) ∧
    (∀ limit id, s.messages.pinnedCount < (s.messages.pin limit id).2.pinnedCount →
      (s.messages.pin limit id).2.pinnedCount ≤ limit) ∧
    (∀ id, s.messages.history.find id = s.messages.history.records.findIdx? (·.id = id) ∧
      s.messages.exists' id = s.messages.history.records.any (·.id = id) ∧
      s.messages.author id = (s.messages.history.records.find? (·.id = id)).map (·.username)) := by
  have hinv : Inv file s :=
    exec_induct (fun _ _ _ hinv hroom hstep => hinv.step hroom hstep) (inv_start hfile hroom) hmeets hexec
  refine ⟨hinv.ordered, hinv.increasing, fun r hr => hinv.hearts hr, ?_, ?_, fun id => ⟨?_, ?_, ?_⟩⟩
  · intro limit username text image voice timestamp reply hlimit
    exact Messages.push_keepsNewest hinv.ordered hlimit username text image voice timestamp reply
  · intro limit id
    exact Messages.pin_le_limit limit id
  · exact hinv.ordered.find_eq id
  · rw [Messages.exists', hinv.ordered.find_eq id, List.findIdx?_isSome]
  · rw [Messages.author, ← hinv.ordered.entry_eq id, Option.map_map]
    rfl

/-- A text message of `anna`. -/
def note (id : U64) (hearts : List String) : Record :=
  ⟨id, "anna", "hello", none, none, none, hearts, false, none, false⟩

/-- A server that keeps two messages: one in the file, two new ones, a heart given twice
and a pin. -/
theorem history_invariant_run :
    ∃ s, exec step (start [note 7 ["ben"]]) [.store 2 "anna" "a" none none, .store 2 "ben" "b" none (some 8),
        .heart 8 "ben", .heart 8 "ben", .pin 1 9] = some s ∧
      s.messages.history.records.map (·.id) = [8, 9] ∧ s.messages.history.Ordered :=
  ⟨_, rfl, by decide, (history_invariant [note 7 ["ben"]] (by decide) (by decide)
    [.store 2 "anna" "a" none none, .store 2 "ben" "b" none (some 8), .heart 8 "ben", .heart 8 "ben",
      .pin 1 9] _ (by decide) rfl).1⟩

/-- **Not from every file whose ids increase.**  Past the last 64-bit number the counter
starts again at 0, and a file may hold a message somebody hearts twice. -/
theorem history_runs_over :
    (¬∀ (file : List Record) (actions : List MessageAction) (s : Ledger),
      (file.map (·.id)).Pairwise (· < ·) → exec step (start file) actions = some s →
        (s.log.map (·.id)).Pairwise (· < ·)) ∧
    (¬∀ (file : List Record) (actions : List MessageAction) (s : Ledger),
      (file.map (·.id)).Pairwise (· < ·) → exec step (start file) actions = some s →
        ∀ r ∈ s.messages.history.records, r.hearts.Nodup) := by
  constructor
  · intro h
    have hids := h [note (BitVec.ofNat 64 (2 ^ 64 - 2)) []] [.nextId, .nextId] _ (by decide) rfl
    exact absurd hids (by decide)
  · intro h
    have hhearts := h [note 0 ["ben", "ben"]] [] _ (by decide) rfl
    exact absurd hhearts (by decide)

/-! ### Restarts -/

/-- A call, or a restart of the server. -/
inductive Event
  | call (action : MessageAction)
  | restart
deriving DecidableEq

/-- One call or restart: a restart reads the file back. -/
def stepEvent (s : Ledger) : Event → Option Ledger
  | .call action => s.step action
  | .restart => some { s with messages := .start s.messages.file }

/-- At a restart, the last record kept is the last message that was given an id. -/
def LastKept (s : Ledger) : Event → Prop
  | .call action => s.Room action
  | .restart => s.messages.file.getLast?.map (·.id) = s.log.getLast?.map (·.id)

instance (s : Ledger) (event : Event) : Decidable (s.LastKept event) :=
  match event with
  | .call action => inferInstanceAs (Decidable (s.Room action))
  | .restart => inferInstanceAs
      (Decidable (s.messages.file.getLast?.map (·.id) = s.log.getLast?.map (·.id)))

/-- Every id was given to one message, and a record under it is that message. -/
def Unique (s : Ledger) : Prop :=
  (s.log.map (·.id)).Nodup ∧
    ∀ r ∈ s.messages.history.records, ∀ e ∈ s.log, e.id = r.id →
      ∃ o, e.origin = some o ∧ r.message = o.message

/-- Under the invariant an id has one record. -/
theorem Inv.unique (hinv : Inv file s) : s.Unique := by
  have hnodup : (s.log.map (·.id)).Nodup := by
    refine List.Pairwise.imp (fun {id id'} hlt heq => ?_) hinv.increasing
    rw [heq] at hlt
    exact BitVec.lt_irrefl _ hlt
  refine ⟨hnodup, fun r hr e he hid => ?_⟩
  obtain ⟨e', he', o, ho, hoid, hrew⟩ := hinv.named r hr
  have heq : e = e' := by
    refine List.inj_on_of_nodup_map hnodup he he' ?_
    rw [hid, hrew.id_eq, hoid]
  exact ⟨o, heq ▸ ho, hrew.1⟩

/-- **A restart keeps the invariant** if the last record kept is the last message sent. -/
theorem Inv.restart (hinv : Inv file s) (hlast : s.LastKept .restart) :
    Inv file { s with messages := .start s.messages.file } := by
  -- The counter comes back where it was.
  have hnext : (Messages.start s.messages.file).history.next = s.messages.history.next := by
    rw [hinv.next]
    calc (s.messages.file.getLast?.map (·.id + 1)).getD 0
        = ((s.messages.file.getLast?.map (·.id)).map (· + 1)).getD 0 := by rw [Option.map_map]; rfl
      _ = ((s.log.getLast?.map (·.id)).map (· + 1)).getD 0 := by rw [hlast]
      _ = (s.log.getLast?.map (·.id + 1)).getD 0 := by rw [Option.map_map]; rfl
  have hrecords : (Messages.start s.messages.file).history.records = s.messages.history.records :=
    hinv.saved
  refine hinv.kept hnext ?_ rfl
  rw [hrecords]
  exact .of_sublist (List.Sublist.refl _)

/-- **No id is given to two messages** in a run in which, at every restart, the last
record kept is the last message sent, and the counter does not run over. -/
theorem ids_never_reused (file : List Record) (hfile : (file.map (·.id)).Pairwise (· < ·))
    (hroom : ∀ r ∈ file, r.id ≠ BitVec.allOnes 64) (events : List Event) (s : Ledger)
    (hmeets : Meets stepEvent LastKept (start file) events)
    (hexec : exec stepEvent (start file) events = some s) : s.Unique := by
  have hinv : Inv file s := by
    refine exec_induct (fun s event s' hinv hcond hstep => ?_) (inv_start hfile hroom) hmeets hexec
    cases event with
    | call action => exact hinv.step hcond hstep
    | restart =>
      obtain rfl := Option.some.inj hstep
      exact hinv.restart hcond
  exact hinv.unique

/-- A message of the lobby is deleted, a newer one stays, and the server restarts. -/
theorem ids_never_reused_run :
    ∃ s, exec stepEvent (start []) [.call (.store 100 "anna" "a" none none),
        .call (.store 100 "ben" "b" none (some 0)), .call (.delete 0), .restart, .call .nextId] = some s ∧
      s.log.map (·.id) = [0, 1, 2] ∧ s.Unique :=
  ⟨_, rfl, by decide, ids_never_reused [] (by decide) (by decide)
    [.call (.store 100 "anna" "a" none none), .call (.store 100 "ben" "b" none (some 0)),
      .call (.delete 0), .restart, .call .nextId] _ (by decide) rfl⟩

/-- **A restart hands out the id of a message that is gone.**  The last message is
deleted, the server restarts, and the next message is given its id. -/
theorem ids_reused :
    ¬∀ (events : List Event) (s : Ledger), exec stepEvent (start []) events = some s → s.Unique := by
  intro h
  have hunique := h [.call (.store 100 "anna" "a" none none), .call (.store 100 "ben" "b" none none),
    .call (.delete 1), .restart, .call (.store 100 "cyril" "c" none none)] _ rfl
  exact absurd hunique.1 (by decide)

end Ledger

end Why2
