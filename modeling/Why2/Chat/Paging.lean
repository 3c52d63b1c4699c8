/-
# The pages of the history

`page` of `chat/src/config/messages.rs` and `send_history` of the server: a
client is sent the newest messages first, and asks for older ones with the id of
the oldest it was sent.  The id is looked up by binary search in the history of
that moment, which may have lost or gained records since.

A page of a history in order is the end of what is below the cursor (`Cut`), so
a walk over a history that stays as it is ends, and its pages in reverse order
are the records (`walk_eq`).  With other calls between the requests the cursor
only goes down and new messages are above it (`Inv`).
-/

import Why2.Chat.History

namespace Why2

open Lib

/-- What a record weighs on a page, in bytes. -/
def Record.weight (r : Record) : ℕ :=
  r.username.utf8ByteSize + r.text.utf8ByteSize + (r.hearts.map String.utf8ByteSize).sum

/-- `Page`, without the colors. -/
structure Page where
  messages : List Record
  start : U64
  more : Bool
  kept : ℕ
deriving DecidableEq

namespace History

/-- The loop of `page`: it walks back until the page is full.  At least one message is
taken. -/
def walkBack (records : List Record) (count budget to' : ℕ) : ℕ → ℕ → ℕ
  | 0, _ => 0
  | index + 1, size =>
    if to' - (index + 1) < count then
      let size := size + (records[index]?.map Record.weight).getD 0
      if budget < size ∧ index + 1 ≠ to' then index + 1
      else walkBack records count budget to' index size
    else index + 1

/-- `page`.  The timestamps are hidden while they are turned off (`wire`). -/
def page (h : History) (before : Option U64) (count budget : ℕ) (timestamps : Bool) : Page :=
  let to' := (before.map h.position).getD h.records.length
  let from' := walkBack h.records count budget to' to' 0
  let messages := ((h.records.take to').drop from').map fun r =>
    { r with timestamp := r.timestamp.filter fun _ => timestamps }
  ⟨messages, (h.records[from']?.map (·.id)).getD h.next, 0 < from', h.records.length⟩

end History

/-- `MAX_HISTORY_SIZE`, `chat/src/consts.rs`. -/
def maxHistorySize : ℕ := 12 * 1000000

/-- A record as `wire` sends it, without the colors. -/
def Record.wire (timestamps : Bool) (r : Record) : Record :=
  { r with timestamp := r.timestamp.filter fun _ => timestamps }

/-- `wire`, without the colors. -/
def wire (timestamps : Bool) (records : List Record) : List Record := records.map (Record.wire timestamps)

/-- `PacketCode::History`. -/
structure HistoryPacket where
  page : Page
  older : Bool
deriving DecidableEq

/-- `send_history`: the packet that is sent, if one is; `persistent_messages` and
`history_page` come from the configuration. -/
def sendHistory (h : History) (timestamps : Bool) (persistentMessages : Bool) (historyPage : ℕ)
    (before : Option U64) : Option HistoryPacket :=
  if persistentMessages = false then none
  else
    let page := h.page before (max historyPage 1) maxHistorySize timestamps
    -- Nothing stored is not worth a heading.
    if before.isNone ∧ page.messages.isEmpty then none
    else some ⟨page, before.isSome⟩

/-! ### One page -/

/-- The records of one page: the end of the records below its cursor, at least one if
there is one, and within the budget or a single one. -/
structure Cut (timestamps : Bool) (budget : ℕ) (below older newer : List Record) (p : Page) : Prop where
  split : below = older ++ newer
  messages : p.messages = wire timestamps newer
  more : p.more = true ↔ older ≠ []
  start : ∀ r, newer.head? = some r → p.start = r.id
  moves : below ≠ [] → newer ≠ []
  fits : (newer.map Record.weight).sum ≤ budget ∨ newer.length ≤ 1

/-- A page that leaves something out is not empty. -/
theorem Cut.newer_ne_nil {timestamps : Bool} {budget : ℕ} {below older newer : List Record} {p : Page}
    (hcut : Cut timestamps budget below older newer p) (holder : older ≠ []) : newer ≠ [] := by
  refine hcut.moves ?_
  rw [hcut.split]
  exact List.append_ne_nil_of_left_ne_nil holder _

namespace History

/-- The loop stops within the page it has walked so far and one more record that fits,
and it does not stop where it starts. -/
theorem walkBack_spec {records : List Record} {to' count budget : ℕ} (hto : to' ≤ records.length)
    {from' size : ℕ} (hfrom : from' ≤ to') (hsize : (((records.take to').drop from').map Record.weight).sum = size)
    (hfits : size ≤ budget ∨ to' - from' ≤ 1) :
    walkBack records count budget to' from' size ≤ from' ∧
      ((((records.take to').drop (walkBack records count budget to' from' size)).map Record.weight).sum ≤ budget ∨
        to' - walkBack records count budget to' from' size ≤ 1) := by
  induction from' generalizing size with
  | zero => exact ⟨Nat.le_refl _, by rw [walkBack, hsize]; exact hfits⟩
  | succ from' ih =>
    have hstop : (((records.take to').drop (from' + 1)).map Record.weight).sum ≤ budget ∨
        to' - (from' + 1) ≤ 1 := by rwa [hsize]
    unfold walkBack
    split
    · rw [List.getElem?_eq_getElem (show from' < records.length by omega), Option.map_some, Option.getD_some]
      dsimp only
      split
      · exact ⟨Nat.le_refl _, hstop⟩
      · rename_i hgo
        have hcons : (((records.take to').drop from').map Record.weight).sum =
            size + (records[from']).weight := by
          rw [List.drop_eq_getElem_cons (by rw [List.length_take]; omega), List.map_cons, List.sum_cons, hsize,
            List.getElem_take, Nat.add_comm]
        obtain ⟨hle, hrest⟩ := ih (by omega) hcons (by omega)
        exact ⟨by omega, hrest⟩
    · exact ⟨Nat.le_refl _, hstop⟩

/-- With room for a message, the loop takes one. -/
theorem walkBack_lt {records : List Record} {to' count budget : ℕ} (hto : to' ≤ records.length)
    (hcount : 1 ≤ count) (hpos : 0 < to') : walkBack records count budget to' to' 0 < to' := by
  obtain ⟨last, rfl⟩ : ∃ last, to' = last + 1 := ⟨to' - 1, by omega⟩
  unfold walkBack
  rw [if_pos (by omega), List.getElem?_eq_getElem (show last < records.length by omega), Option.map_some,
    Option.getD_some]
  dsimp only
  rw [if_neg (by simp)]
  have hcons : (((records.take (last + 1)).drop last).map Record.weight).sum = 0 + (records[last]).weight := by
    rw [List.drop_eq_getElem_cons (by rw [List.length_take]; omega), List.drop_eq_nil_of_le
      (by rw [List.length_take]; omega), List.map_singleton, List.sum_singleton, List.getElem_take, Nat.zero_add]
  have hle : walkBack records count budget (last + 1) last _ ≤ last :=
    (walkBack_spec hto (Nat.le_succ last) hcons (by omega)).1
  omega

variable {h : History} {timestamps : Bool} {count budget : ℕ}

/-- Where a page ends: at the cursor, or at the end of the list. -/
def pageEnd (h : History) (before : Option U64) : ℕ := (before.map h.position).getD h.records.length

/-- A page is the records from where the walk back ends. -/
theorem page_eq {before : Option U64} {from' : ℕ}
    (hfrom : walkBack h.records count budget (h.pageEnd before) (h.pageEnd before) 0 = from') :
    h.page before count budget timestamps =
      ⟨wire timestamps ((h.records.take (h.pageEnd before)).drop from'),
        (h.records[from']?.map (·.id)).getD h.next, 0 < from', h.records.length⟩ := by
  rw [← hfrom]
  rfl

/-- The records below a cursor. -/
def olderThan (h : History) (before : Option U64) : List Record :=
  h.records.filter fun r => before.all (r.id < ·)

/-- Without a cursor there are all records. -/
@[simp] theorem olderThan_none : h.olderThan none = h.records := List.filter_eq_self.2 fun _ _ => rfl

/-- A page ends before its cursor. -/
theorem Ordered.take_pageEnd (hord : h.Ordered) (before : Option U64) :
    h.pageEnd before ≤ h.records.length ∧ h.records.take (h.pageEnd before) = h.olderThan before := by
  cases before with
  | none =>
    refine ⟨Nat.le_refl _, ?_⟩
    rw [olderThan_none]
    exact List.take_length
  | some id => exact ⟨(hord.partitioned id).le_length, (hord.partitioned id).take_eq_filter⟩

/-- **A page of a history in order is the end of what is below its cursor.** -/
theorem Ordered.page_cut (hord : h.Ordered) (hcount : 1 ≤ count) (timestamps : Bool) (before : Option U64)
    (budget : ℕ) :
    ∃ older newer, Cut timestamps budget (h.olderThan before) older newer (h.page before count budget timestamps) := by
  obtain ⟨hend, htake⟩ := hord.take_pageEnd before
  have hnone : (((h.records.take (h.pageEnd before)).drop (h.pageEnd before)).map Record.weight).sum = 0 := by
    rw [List.drop_eq_nil_of_le (List.length_take_le _ _)]
    rfl
  obtain ⟨hle, hfits⟩ :=
    @walkBack_spec h.records (h.pageEnd before) count budget hend _ 0 (Nat.le_refl _) hnone (by omega)
  have hlt := @walkBack_lt h.records (h.pageEnd before) count budget hend hcount
  revert hle hfits hlt
  generalize hfrom : walkBack h.records count budget (h.pageEnd before) (h.pageEnd before) 0 = from'
  intro hle hfits hlt
  have hlen : (h.olderThan before).length = h.pageEnd before := by
    rw [← htake, List.length_take_of_le hend]
  rw [htake] at hfits
  refine ⟨(h.olderThan before).take from', (h.olderThan before).drop from', (List.take_append_drop _ _).symm,
    ?_, ?_, ?_, ?_, ?_⟩
  · rw [page_eq hfrom, htake]
  · rw [page_eq hfrom, decide_eq_true_iff]
    rw [← List.length_pos_iff, List.length_take]
    omega
  · intro r hr
    rw [List.head?_drop, ← htake, List.getElem?_take] at hr
    obtain ⟨-, hr⟩ := Option.ite_none_right_eq_some.1 hr
    rw [page_eq hfrom, hr, Option.map_some, Option.getD_some]
  · intro hne
    have := List.length_pos_iff.2 hne
    rw [← List.length_pos_iff, List.length_drop]
    omega
  · rw [List.length_drop]
    omega

/-- The records below the cursor a page gives are those of the page's range it leaves out. -/
theorem Ordered.olderThan_start (hord : h.Ordered) {before : Option U64} {older newer : List Record} {p : Page}
    (hcut : Cut timestamps budget (h.olderThan before) older newer p) (hnewer : newer ≠ []) :
    h.olderThan (some p.start) = older := by
  obtain ⟨r, rest, rfl⟩ := List.exists_cons_of_ne_nil hnewer
  have hstart : p.start = r.id := hcut.start r rfl
  have hr : r ∈ h.olderThan before := by
    rw [hcut.split]
    exact List.mem_append_right _ List.mem_cons_self
  have hbefore : before.all (r.id < ·) = true := (List.mem_filter.1 hr).2
  -- What is below the new cursor is below the old one.
  have hnarrow : h.olderThan (some p.start) = (h.olderThan before).filter fun r' => r'.id < r.id := by
    rw [olderThan, olderThan, List.filter_filter, hstart]
    refine List.filter_congr fun r' _ => ?_
    rw [Option.all_some, eq_comm, Bool.and_eq_left_iff_imp, decide_eq_true_iff]
    intro hlt
    cases before with
    | none => rfl
    | some c =>
      rw [Option.all_some, decide_eq_true_iff] at hbefore ⊢
      exact BitVec.lt_trans hlt hbefore
  have hinc : (older ++ r :: rest).Pairwise fun r r' => r.id < r'.id := by
    rw [← hcut.split]
    exact (List.pairwise_map.1 hord.increasing).sublist List.filter_sublist
  obtain ⟨-, hnewer', holder⟩ := List.pairwise_append.1 hinc
  rw [hnarrow, hcut.split, List.filter_append]
  have hkeep : older.filter (fun r' => r'.id < r.id) = older :=
    List.filter_eq_self.2 fun r' hr' => decide_eq_true (holder r' hr' r List.mem_cons_self)
  have hdrop : (r :: rest).filter (fun r' => r'.id < r.id) = [] := by
    refine List.filter_eq_nil_iff.2 fun r' hr' => ?_
    rw [decide_eq_true_iff, BitVec.not_lt]
    rcases List.mem_cons.1 hr' with rfl | hr'
    · exact BitVec.le_refl _
    · exact BitVec.le_of_lt ((List.pairwise_cons.1 hnewer').1 r' hr')
  rw [hkeep, hdrop, List.append_nil]

/-! ### A walk over a history that stays as it is -/

/-- The pages a client is sent that asks with the cursor of the last one while there are
more; `none` if it is not done after so many requests. -/
def walk (h : History) (timestamps : Bool) (count budget : ℕ) : ℕ → Option U64 → Option (List Page)
  | 0, _ => none
  | requests + 1, before =>
    let p := h.page before count budget timestamps
    if p.more then (h.walk timestamps count budget requests (some p.start)).map (p :: ·) else some [p]

/-- **A walk ends, and its pages in reverse order are the records below the cursor.** -/
theorem Ordered.walk_eq (hord : h.Ordered) (hcount : 1 ≤ count) (timestamps : Bool) (budget : ℕ) {requests : ℕ}
    {before : Option U64} (hrequests : (h.olderThan before).length < requests) :
    ∃ pages, h.walk timestamps count budget requests before = some pages ∧
      pages.reverse.flatMap (·.messages) = wire timestamps (h.olderThan before) := by
  induction requests generalizing before with
  | zero => exact absurd hrequests (Nat.not_lt_zero _)
  | succ requests ih =>
    obtain ⟨older, newer, hcut⟩ := hord.page_cut hcount timestamps before budget
    unfold walk
    dsimp only
    by_cases hmore : older = []
    · rw [if_neg (mt hcut.more.1 (not_not.2 hmore))]
      refine ⟨_, rfl, ?_⟩
      rw [hcut.split, hmore, List.nil_append, List.reverse_singleton, List.flatMap_singleton, hcut.messages]
    · rw [if_pos (hcut.more.2 hmore)]
      have hnewer := hcut.newer_ne_nil hmore
      have hpos := List.length_pos_iff.2 hnewer
      have hlength := congrArg List.length hcut.split
      rw [List.length_append] at hlength
      have holder := hord.olderThan_start hcut hnewer
      have hless : (h.olderThan (some (h.page before count budget timestamps).start)).length < requests := by
        rw [holder]
        omega
      obtain ⟨pages, hwalk, hpages⟩ := ih hless
      refine ⟨_, by rw [hwalk, Option.map_some], ?_⟩
      rw [List.reverse_cons, List.flatMap_append, hpages, holder, List.flatMap_singleton, hcut.messages, hcut.split,
        wire, wire, wire, List.map_append]

end History

/-! ### Other calls between the requests -/

/-- The ids after a call are ids from before and perhaps the one it was handed. -/
theorem Messages.Effect.ids_sublist {m m' : Messages} {out : Option U64} (h : Messages.Effect m out m') :
    (m'.history.records.map (·.id)).Sublist (m.history.records.map (·.id) ++ [m.history.next]) := by
  cases h with
  | unstored _ hnext hrecords hfile =>
    rw [hrecords]
    exact List.sublist_append_left _ _
  | stored _ r hnext hid hhearts hrecords hmem hfile =>
    have hids := hrecords.map (·.id)
    rwa [List.map_append, List.map_singleton, hid] at hids
  | same => exact List.sublist_append_left _ _
  | kept _ hnext hrecords hfile => exact hrecords.ids.trans (List.sublist_append_left _ _)

/-- The counter does not go back while it does not run over. -/
theorem Messages.Effect.next_le {m m' : Messages} {out : Option U64} (h : Messages.Effect m out m')
    (hroom : out.isSome = true → m.history.next ≠ BitVec.allOnes 64) : m.history.next ≤ m'.history.next := by
  cases h with
  | unstored _ hnext hrecords hfile =>
    rw [hnext]
    exact BitVec.le_of_lt (Messages.lt_next_succ (hroom rfl)).1
  | stored _ r hnext hid hhearts hrecords hmem hfile =>
    rw [hnext]
    exact BitVec.le_of_lt (Messages.lt_next_succ (hroom rfl)).1
  | same => exact BitVec.le_refl _
  | kept _ hnext hrecords hfile =>
    rw [hnext]
    exact BitVec.le_refl _

/-- A call of the server, or the client's request for the next page. -/
inductive ReadAction
  | call (action : MessageAction)
  | ask (timestamps : Bool)

/-- A client in a walk: the history, the pages it was sent, and the cursor and the mark
of the last of them. -/
structure Reading where
  messages : Messages
  pages : List Page
  cursor : U64
  more : Bool

namespace Reading

variable {count budget : ℕ} {m : Messages} {s s' : Reading}

/-- The client is sent a page. -/
def receive (m : Messages) (pages : List Page) (p : Page) : Reading := ⟨m, pages ++ [p], p.start, p.more⟩

/-- The client has its first page. -/
def start (count budget : ℕ) (timestamps : Bool) (m : Messages) : Reading :=
  receive m [] (m.history.page none count budget timestamps)

/-- One call, or one request; the client asks while there is more. -/
def step (count budget : ℕ) (s : Reading) : ReadAction → Option Reading
  | .call action => some { s with messages := (s.messages.act action).2 }
  | .ask timestamps =>
    if s.more then
      some (receive s.messages s.pages (s.messages.history.page (some s.cursor) count budget timestamps))
    else none

/-- The ids on some pages. -/
def idsOf (pages : List Page) : List U64 := pages.flatMap fun p => p.messages.map (·.id)

/-- The ids the client was sent, in the order of the pages. -/
def delivered (s : Reading) : List U64 := idsOf s.pages

/-- The counter does not run over. -/
def Room (s : Reading) : ReadAction → Prop
  | .call action => action.takesId → s.messages.history.next ≠ BitVec.allOnes 64
  | .ask _ => True

instance (s : Reading) (a : ReadAction) : Decidable (s.Room a) :=
  match a with
  | .call action => inferInstanceAs (Decidable (action.takesId → s.messages.history.next ≠ BitVec.allOnes 64))
  | .ask _ => .isTrue trivial

/-- The history holds the message in every state of the run. -/
def Throughout (count budget : ℕ) (s : Reading) (actions : List ReadAction) (id : U64) : Prop :=
  ∀ k s', exec (step count budget) s (actions.take k) = some s' →
    ∃ r ∈ s'.messages.history.records, r.id = id

/-- The page is within the budget, or a single message. -/
def Fits (budget : ℕ) (p : Page) : Prop := (p.messages.map Record.weight).sum ≤ budget ∨ p.messages.length = 1

/-- What holds of a client that has `pages` and asks with `before` next: the ids it has
are at the cursor or above it, each once, and among the messages from the first request
on it has all that are still there and not below the cursor. -/
structure Asks (budget : ℕ) (m : Messages) (h : History) (pages : List Page) (before : Option U64) : Prop where
  nodup : (idsOf pages).Nodup
  above : ∀ id ∈ idsOf pages, before.any (· ≤ id) = true
  complete : ∀ r ∈ m.history.records, ∀ r' ∈ h.records, r'.id = r.id → before.any (· ≤ r.id) = true →
    r.id ∈ idsOf pages
  fits : ∀ p ∈ pages, Fits budget p
  length_le : pages.length + (h.olderThan before).length ≤ m.history.records.length

/-- The invariant of a walk that started on `m`. -/
structure Inv (budget : ℕ) (m : Messages) (s : Reading) : Prop where
  ordered : s.messages.history.Ordered
  started : ∀ r ∈ m.history.records, r.id < s.messages.history.next
  cursor : s.more = true → s.cursor ≤ s.messages.history.next
  asks : s.more = true → Asks budget m s.messages.history s.pages (some s.cursor)
  nodup : s.delivered.Nodup
  complete : s.more = false → ∀ r ∈ m.history.records, ∀ r' ∈ s.messages.history.records, r'.id = r.id →
    r.id ∈ s.delivered
  fits : ∀ p ∈ s.pages, Fits budget p
  length_le : s.pages.length ≤ m.history.records.length + 1

/-- A message is not before the cursor exactly if it is at it or behind. -/
theorem not_lt_cursor_iff {before : Option U64} {id : U64} :
    before.all (id < ·) = false ↔ before.any (· ≤ id) = true := by
  cases before with
  | none => simp
  | some c => simp [BitVec.not_lt]

/-- One more page. -/
theorem idsOf_append {timestamps : Bool} {below older newer : List Record} {p : Page} (pages : List Page)
    (hcut : Cut timestamps budget below older newer p) :
    idsOf (pages ++ [p]) = idsOf pages ++ newer.map (·.id) := by
  rw [idsOf, List.flatMap_append, List.flatMap_singleton, hcut.messages, wire, List.map_map]
  rfl

/-- A page fits the budget, or has one message. -/
theorem fits_of_cut {timestamps : Bool} {below older newer : List Record} {p : Page}
    (hcut : Cut timestamps budget below older newer p) : Fits budget p := by
  have hsize : p.messages.map Record.weight = newer.map Record.weight := by
    rw [hcut.messages, wire, List.map_map]
    rfl
  have hlength : p.messages.length = newer.length := by rw [hcut.messages, wire, List.length_map]
  rw [Fits, hsize, hlength]
  rcases hcut.fits with hbudget | hone
  · exact .inl hbudget
  · cases newer with
    | nil => exact .inl (Nat.zero_le _)
    | cons r rest => exact .inr (Nat.le_antisymm hone (Nat.succ_le_succ (Nat.zero_le _)))

section Receive

variable {h : History} {pages : List Page} {before : Option U64} {timestamps : Bool} {older newer : List Record}
  {p : Page}

/-- The ids of a page increase. -/
theorem cut_increasing (hord : h.Ordered) (hcut : Cut timestamps budget (h.olderThan before) older newer p) :
    (older ++ newer).Pairwise fun r r' => r.id < r'.id := by
  rw [← hcut.split]
  exact (List.pairwise_map.1 hord.increasing).sublist List.filter_sublist

/-- What is on a page is in the history and below the cursor. -/
theorem cut_below (hcut : Cut timestamps budget (h.olderThan before) older newer p) {r : Record} (hr : r ∈ newer) :
    r ∈ h.records ∧ before.all (r.id < ·) = true := by
  have hmem : r ∈ h.olderThan before := by
    rw [hcut.split]
    exact List.mem_append_right _ hr
  exact List.mem_filter.1 hmem

/-- No message comes twice. -/
theorem Asks.nodup_receive (hasks : Asks budget m h pages before) (hord : h.Ordered)
    (hcut : Cut timestamps budget (h.olderThan before) older newer p) : (idsOf (pages ++ [p])).Nodup := by
  obtain ⟨-, hnewer, -⟩ := List.pairwise_append.1 (cut_increasing hord hcut)
  rw [idsOf_append pages hcut]
  refine List.nodup_append.2 ⟨hasks.nodup, ?_, fun id hid id' hid' heq => ?_⟩
  · refine (List.pairwise_map.2 hnewer).imp fun hlt heq => ?_
    rw [heq] at hlt
    exact BitVec.lt_irrefl _ hlt
  · obtain ⟨r, hr, rfl⟩ := List.mem_map.1 hid'
    have habove := not_lt_cursor_iff.2 (hasks.above id hid)
    rw [heq, (cut_below hcut hr).2] at habove
    cases habove

/-- A message that is still there was sent before, is on this page, or is older. -/
theorem Asks.sent_or_older (hasks : Asks budget m h pages before)
    (hcut : Cut timestamps budget (h.olderThan before) older newer p) {r r' : Record}
    (hr : r ∈ m.history.records) (hr' : r' ∈ h.records) (hid : r'.id = r.id) :
    r.id ∈ idsOf (pages ++ [p]) ∨ r' ∈ older := by
  rw [idsOf_append pages hcut]
  cases hall : before.all (r'.id < ·) with
  | false =>
    rw [not_lt_cursor_iff, hid] at hall
    exact .inl (List.mem_append_left _ (hasks.complete r hr r' hr' hid hall))
  | true =>
    have hmem : r' ∈ h.olderThan before := List.mem_filter.2 ⟨hr', hall⟩
    rw [hcut.split] at hmem
    rcases List.mem_append.1 hmem with hold | hnew
    · exact .inr hold
    · exact .inl (List.mem_append_right _ (List.mem_map.2 ⟨r', hnew, hid⟩))

/-- **The last page completes the walk.** -/
theorem Asks.last (hasks : Asks budget m h pages before)
    (hcut : Cut timestamps budget (h.olderThan before) older newer p) (hmore : p.more = false) {r r' : Record}
    (hr : r ∈ m.history.records) (hr' : r' ∈ h.records) (hid : r'.id = r.id) :
    r.id ∈ idsOf (pages ++ [p]) := by
  refine (hasks.sent_or_older hcut hr hr' hid).resolve_right fun hold => ?_
  rw [hcut.more.2 (List.ne_nil_of_mem hold)] at hmore
  cases hmore

/-- What is behind the cursor has come. -/
theorem Asks.above_receive (hasks : Asks budget m h pages before) (hord : h.Ordered)
    (hcut : Cut timestamps budget (h.olderThan before) older newer p) {first : Record} {rest : List Record}
    (hnewer : newer = first :: rest) {id : U64} (hid : id ∈ idsOf (pages ++ [p])) : first.id ≤ id := by
  rw [idsOf_append pages hcut] at hid
  subst hnewer
  rcases List.mem_append.1 hid with hid | hid
  · have habove := hasks.above id hid
    have hbefore := (cut_below hcut List.mem_cons_self).2
    cases before with
    | none => cases habove
    | some c =>
      rw [Option.any_some, decide_eq_true_iff] at habove
      rw [Option.all_some, decide_eq_true_iff] at hbefore
      bv_omega
  · obtain ⟨r, hr, rfl⟩ := List.mem_map.1 hid
    obtain ⟨-, hinc, -⟩ := List.pairwise_append.1 (cut_increasing hord hcut)
    rcases List.mem_cons.1 hr with rfl | hr
    · exact BitVec.le_refl _
    · exact BitVec.le_of_lt ((List.pairwise_cons.1 hinc).1 r hr)

/-- **A page with more to come keeps what holds of a client that asks.** -/
theorem Asks.next (hasks : Asks budget m h pages before) (hord : h.Ordered)
    (hcut : Cut timestamps budget (h.olderThan before) older newer p) (hmore : p.more = true) :
    p.start ≤ h.next ∧ Asks budget m h (pages ++ [p]) (some p.start) := by
  have hne := hcut.newer_ne_nil (hcut.more.1 hmore)
  obtain ⟨first, rest, hnewer⟩ := List.exists_cons_of_ne_nil hne
  have hmem : first ∈ newer := by
    rw [hnewer]
    exact List.mem_cons_self
  have hstart : p.start = first.id := hcut.start first (by rw [hnewer]; rfl)
  refine ⟨?_, hasks.nodup_receive hord hcut, fun id hid => ?_, fun r hr r' hr' hid hle => ?_, fun q hq => ?_, ?_⟩
  · rw [hstart]
    exact BitVec.le_of_lt (hord.below first (cut_below hcut hmem).1)
  · rw [Option.any_some, decide_eq_true_iff, hstart]
    exact hasks.above_receive hord hcut hnewer hid
  · -- What is older is below the new cursor.
    refine (hasks.sent_or_older hcut hr hr' hid).resolve_right fun hold => ?_
    have hlt := (List.pairwise_append.1 (cut_increasing hord hcut)).2.2 r' hold first hmem
    rw [Option.any_some, decide_eq_true_iff, hstart, ← hid] at hle
    bv_omega
  · rcases List.mem_append.1 hq with hq | hq
    · exact hasks.fits q hq
    · rw [List.mem_singleton.1 hq]
      exact fits_of_cut hcut
  · have hlength := hasks.length_le
    have hpos := List.length_pos_iff.2 hne
    rw [hcut.split, List.length_append] at hlength
    rw [hord.olderThan_start hcut hne, List.length_append, List.length_singleton]
    omega

/-- **A page keeps the invariant.** -/
theorem inv_receive {current : Messages} (hasks : Asks budget m current.history pages before)
    (hord : current.history.Ordered) (hstarted : ∀ r ∈ m.history.records, r.id < current.history.next)
    (hcut : Cut timestamps budget (current.history.olderThan before) older newer p) :
    Inv budget m (receive current pages p) := by
  constructor
  case ordered => exact hord
  case started => exact hstarted
  case cursor => exact fun hmore => (hasks.next hord hcut hmore).1
  case asks => exact fun hmore => (hasks.next hord hcut hmore).2
  case nodup => exact hasks.nodup_receive hord hcut
  case complete => exact fun hmore r hr r' hr' hid => hasks.last hcut hmore hr hr' hid
  case fits =>
    intro q hq
    rcases List.mem_append.1 hq with hq | hq
    · exact hasks.fits q hq
    · rw [List.mem_singleton.1 hq]
      exact fits_of_cut hcut
  case length_le =>
    have hlength := hasks.length_le
    simp only [receive, List.length_append, List.length_singleton]
    omega

end Receive

/-- Nothing was asked for. -/
theorem inv_start (hord : m.history.Ordered) (hcount : 1 ≤ count) (timestamps : Bool) :
    Inv budget m (start count budget timestamps m) := by
  obtain ⟨older, newer, hcut⟩ := hord.page_cut hcount timestamps none budget
  have hasks : Asks budget m m.history [] none := by
    refine ⟨List.nodup_nil, fun id hid => ?_, fun r hr r' hr' hid hle => ?_, fun p hp => ?_, ?_⟩
    · cases hid
    · cases hle
    · cases hp
    · rw [History.olderThan_none, List.length_nil, Nat.zero_add]
  exact inv_receive hasks hord hord.below hcut

/-- A message with an id from before the call was there before the call. -/
theorem exists_before_call {current : Messages} {out : Option U64} {m' : Messages}
    (heffect : Messages.Effect current out m') {r' : Record} (hr' : r' ∈ m'.history.records)
    (hlt : r'.id < current.history.next) : ∃ r ∈ current.history.records, r.id = r'.id := by
  have hmem := heffect.ids_sublist.subset (List.mem_map_of_mem (f := (·.id)) hr')
  rcases List.mem_append.1 hmem with hold | hnew
  · exact List.mem_map.1 hold
  · rw [List.mem_singleton.1 hnew] at hlt
    exact absurd hlt (BitVec.lt_irrefl _)

/-- A call adds no message below a cursor that is not past the counter. -/
theorem length_olderThan_le {current : Messages} {out : Option U64} {m' : Messages} {c : U64}
    (heffect : Messages.Effect current out m') (hc : c ≤ current.history.next) :
    (m'.history.olderThan (some c)).length ≤ (current.history.olderThan (some c)).length := by
  have hids : ∀ h : History, (h.olderThan (some c)).length = ((h.records.map (·.id)).filter (· < c)).length := by
    intro h
    rw [List.filter_map, List.length_map]
    rfl
  have hnew : [current.history.next].filter (· < c) = [] := by
    refine List.filter_eq_nil_iff.2 fun id hid => ?_
    rw [List.mem_singleton.1 hid, decide_eq_true_iff, BitVec.not_lt]
    exact hc
  have hle := (heffect.ids_sublist.filter (· < c)).length_le
  rw [List.filter_append, hnew, List.append_nil] at hle
  rwa [hids, hids]

/-- **A call keeps the invariant.** -/
theorem Inv.call (hinv : Inv budget m s) {out : Option U64} {m' : Messages}
    (heffect : Messages.Effect s.messages out m')
    (hroom : out.isSome = true → s.messages.history.next ≠ BitVec.allOnes 64) :
    Inv budget m { s with messages := m' } := by
  have hnext := heffect.next_le hroom
  -- A message from the first request on that is there after the call was there before it.
  have hold : ∀ r ∈ m.history.records, ∀ r' ∈ m'.history.records, r'.id = r.id →
      ∃ r'' ∈ s.messages.history.records, r''.id = r.id := by
    intro r hr r' hr' hid
    rw [← hid]
    exact exists_before_call heffect hr' (hid ▸ hinv.started r hr)
  constructor
  case ordered => exact heffect.ordered hinv.ordered hroom
  case started =>
    intro r hr
    have hlt := hinv.started r hr
    bv_omega
  case cursor =>
    intro hmore
    have hle := hinv.cursor hmore
    bv_omega
  case asks =>
    intro hmore
    have hasks := hinv.asks hmore
    refine ⟨hasks.nodup, hasks.above, fun r hr r' hr' hid hle => ?_, hasks.fits, ?_⟩
    · obtain ⟨r'', hr'', hid''⟩ := hold r hr r' hr' hid
      exact hasks.complete r hr r'' hr'' hid'' hle
    · have hless := length_olderThan_le heffect (hinv.cursor hmore)
      have hlength := hasks.length_le
      dsimp only at hless hlength ⊢
      omega
  case nodup => exact hinv.nodup
  case complete =>
    intro hmore r hr r' hr' hid
    obtain ⟨r'', hr'', hid''⟩ := hold r hr r' hr' hid
    exact hinv.complete hmore r hr r'' hr'' hid''
  case fits => exact hinv.fits
  case length_le => exact hinv.length_le

/-- **Every step keeps the invariant.** -/
theorem Inv.step (hinv : Inv budget m s) (hcount : 1 ≤ count) {a : ReadAction} (hroom : s.Room a)
    (h : Reading.step count budget s a = some s') : Inv budget m s' := by
  cases a with
  | call action =>
    obtain rfl := Option.some.inj h
    exact hinv.call (s.messages.act_effect action)
      fun htakes => hroom (Ledger.takesId_of_act s.messages action htakes)
  | ask timestamps =>
    obtain ⟨hmore, hs'⟩ := Option.ite_none_right_eq_some.1 h
    obtain rfl := Option.some.inj hs'
    obtain ⟨older, newer, hcut⟩ := hinv.ordered.page_cut hcount timestamps (some s.cursor) budget
    exact inv_receive (hinv.asks hmore) hinv.ordered hinv.started hcut

/-- **Paging is complete and ends.**  Over a history in order that stays as it is, the
walk from the newest page ends, and its pages in reverse order are the records.  With any
calls between the requests, and while the counter does not run over: no message is sent
twice; when there is no more, every message that was there throughout was sent; every
page is within the budget or a single message; and there are at most as many pages as
records at the first request, and one. -/
theorem paging_complete (m : Messages) (hord : m.history.Ordered) (count budget : ℕ) (hcount : 1 ≤ count) :
    (∀ timestamps, ∃ pages,
      m.history.walk timestamps count budget (m.history.records.length + 1) none = some pages ∧
      pages.reverse.flatMap (·.messages) = wire timestamps m.history.records) ∧
    ∀ (timestamps : Bool) (actions : List ReadAction) (s : Reading),
      Meets (step count budget) Room (start count budget timestamps m) actions →
      exec (step count budget) (start count budget timestamps m) actions = some s →
        s.delivered.Nodup ∧
        (s.more = false → ∀ id, Throughout count budget (start count budget timestamps m) actions id →
          id ∈ s.delivered) ∧
        (∀ p ∈ s.pages, (p.messages.map Record.weight).sum ≤ budget ∨ p.messages.length = 1) ∧
        s.pages.length ≤ m.history.records.length + 1 := by
  constructor
  · intro timestamps
    have hless : (m.history.olderThan none).length < m.history.records.length + 1 := by
      rw [History.olderThan_none]
      omega
    have hwalk := hord.walk_eq hcount timestamps budget hless
    rwa [History.olderThan_none] at hwalk
  · intro timestamps actions s hmeets hexec
    have hinv : Inv budget m s :=
      exec_induct (fun _ _ _ hinv hroom hstep => hinv.step hcount hroom hstep)
        (inv_start hord hcount timestamps) hmeets hexec
    refine ⟨hinv.nodup, fun hmore id hid => ?_, hinv.fits, hinv.length_le⟩
    obtain ⟨r, hr, rfl⟩ := hid 0 _ rfl
    obtain ⟨r', hr', hid'⟩ := hid actions.length s (by rw [List.take_length]; exact hexec)
    exact hinv.complete hmore r hr r' hr' hid'

/-- Four messages in pages of two; before the second request the third message is
deleted, a new one is stored and the history is cut to three. -/
theorem paging_complete_run :
    ∃ s, exec (step 2 100) (start 2 100 true (.start [Ledger.note 0 [], Ledger.note 1 [], Ledger.note 2 [],
          Ledger.note 3 []]))
        [.call (.delete 2), .call (.store 3 "ben" "b" none none), .ask true] = some s ∧
      s.pages.map (fun p => p.messages.map (·.id)) = [[2, 3], [1]] ∧ s.delivered.Nodup :=
  ⟨_, rfl, by decide +kernel, ((paging_complete (.start [Ledger.note 0 [], Ledger.note 1 [], Ledger.note 2 [],
      Ledger.note 3 []]) (Ledger.ordered_new (by decide) (by decide)) 2 100 (by decide)).2 true
    [.call (.delete 2), .call (.store 3 "ben" "b" none none), .ask true] _ (by decide +kernel) rfl).1⟩

/-- **Not over every history.**  Past the last 64-bit number the ids start again at 0, and
the message before is never sent: its id is not below the cursor. -/
theorem paging_runs_over :
    ¬∀ (file : List Record) (actions : List MessageAction) (s : Ledger),
      (file.map (·.id)).Pairwise (· < ·) → exec Ledger.step (Ledger.start file) actions = some s →
        ∃ requests pages, s.messages.history.walk true 1 100 requests none = some pages ∧
          pages.reverse.flatMap (·.messages) = wire true s.messages.history.records := by
  intro h
  obtain ⟨requests, pages, hwalk, hpages⟩ := h [Ledger.note (BitVec.allOnes 64) []]
    [.store 100 "ben" "b" none none] _ (by decide) rfl
  have hlength := congrArg List.length hpages
  rcases requests with _ | _ | requests
  · cases hwalk
  · cases hwalk
  · obtain rfl := Option.some.inj hwalk
    exact absurd hlength (by decide +kernel)

end Reading

end Why2
