/-
# Downloading files

The client end of a transfer (`download` in `chat/src/network/file/client.rs`).  A task for
each download makes a file under the last component of the announced name, truncating one
that is there, and writes what it receives to it until it has the announced size.  Then it
compares the hash.  The tasks go on side by side and share the directory.

Over any run, what a download writes is a plain name in the directory, whatever name was
announced (`downloads_stay`).  If no download begins under a name that another one is still
being written to, and what is written gets to the disk, then what is reported is what is on
the disk, until a download begins under the name again (`reported_on_disk`).  Two at once under
one name are mixed (`mixed_up`), and a write that fails behind the buffer is noticed by nothing
(`short_file`).  If the packets are those that a server sends of its files, a download is
reported once the last of them has arrived, and never as failed; an empty file is never
reported (`downloads_served`).

A file can always be made.  The file is written through a buffer: `write_all` may report that
it is done before the data gets to the disk, and what `flush` reports is thrown away.  So of
each write the run says both what was reported and how much of it got to the disk.  The socket,
the packet stream and the progress on the screen are left out: a packet of a run is one that
was received.
-/

import Why2.Chat.Uploads
import Why2.Lib.Lists
import Why2.Lib.Purge
import Why2.Lib.Runs

namespace Why2
namespace Download

open Lib

/-! ### The tasks -/

/-- A download that is under way: what the metadata said, what the hasher was fed, and where in
the file the next data goes. -/
structure Task where
  uid : U64
  filename : String
  size : ℕ
  hash : Hash
  hashed : List U8
  position : ℕ
deriving DecidableEq

/-- `Downloaded` and `DownloadFailed`, with what the metadata said. -/
structure Report where
  uid : U64
  filename : String
  size : ℕ
  hash : Hash
  valid : Bool
deriving DecidableEq

/-- The download directory, the tasks, and what they told the screen. -/
structure Downloads where
  files : String → Option (List U8)
  tasks : List Task
  reports : List Report
  /-- The report on the file under each name, since a download was last begun there. -/
  latest : String → Option Report

/-- What happens to the tasks. -/
inductive DownloadAction
  /-- The first packet of a transfer. -/
  | metadata (uid : U64) (metadata : FileMetadata)
  /-- The next packet of a task: what `write_all` reported, and how many bytes got to the disk. -/
  | data (k : ℕ) (data : List U8) (written : Bool) (landed : ℕ)
  /-- The transfer ends, or a packet is not one of data. -/
  | closed (k : ℕ)

/-- Bytes written to a file at a position. -/
def writeAt (position : ℕ) (data content : List U8) : List U8 :=
  (content ++ List.replicate (position - content.length) 0).take position ++ data ++
    content.drop (position + data.length)

namespace Downloads

/-- No download has begun. -/
def start (files : String → Option (List U8)) : Downloads := ⟨files, [], [], fun _ => none⟩

/-- `download`, up to its loop. -/
def begin (s : Downloads) (uid : U64) (metadata : FileMetadata) : Downloads :=
  let filename := fileName metadata.filename
  { s with
    files := Function.update s.files filename (some [])
    tasks := s.tasks ++ [⟨uid, filename, metadata.size, metadata.hash, [], 0⟩]
    latest := Function.update s.latest filename none }

/-- What gets to the disk. -/
def write (s : Downloads) (t : Task) (data : List U8) : Downloads :=
  { s with files := Function.update s.files t.filename ((s.files t.filename).map (writeAt t.position data)) }

/-- One turn of the loop of `download`, whose data is reported as written. -/
def receive (sha256 : List U8 → Hash) (s : Downloads) (k : ℕ) (t : Task) (data : List U8) (landed : ℕ) : Downloads :=
  let t := { t with hashed := t.hashed ++ data, position := t.position + landed }
  if t.hashed.length = t.size then
    let report := ⟨t.uid, t.filename, t.size, t.hash, decide (t.hash = sha256 t.hashed)⟩
    { s with
      tasks := s.tasks.eraseIdx k
      reports := s.reports ++ [report]
      latest := Function.update s.latest t.filename (some report) }
  else { s with tasks := s.tasks.set k t }

/-- One action. -/
def step (sha256 : List U8 → Hash) (s : Downloads) : DownloadAction → Option Downloads
  | .metadata uid metadata => some (s.begin uid metadata)
  | .data k data written landed =>
    (s.tasks[k]?).map fun t =>
      let s := s.write t (data.take landed)
      let landed := (data.take landed).length
      if written then s.receive sha256 k t data landed
      else { s with tasks := s.tasks.set k { t with position := t.position + landed } }
  | .closed k => (s.tasks[k]?).map fun _ => { s with tasks := s.tasks.eraseIdx k }

end Downloads

/-! ### The names -/

/-- A name in a directory: no path leads out of it. -/
def Plain (name : String) : Prop := name ≠ "" ∧ name ≠ "." ∧ name ≠ ".." ∧ '/' ∉ name.toList

/-- **Whatever is announced, the name is plain.** -/
theorem plain_fileName (filename : String) : Plain (fileName filename) := by
  have hunnamed : Plain "unnamed_file" := ⟨by decide, by decide, by decide, by decide⟩
  rw [fileName]
  split
  case h_1 => exact hunnamed
  case h_2 part hpart =>
    split
    case isTrue => exact hunnamed
    case isFalse hparent =>
      obtain ⟨hmem, hkept⟩ := List.mem_filter.1 (List.mem_of_getLast? hpart)
      obtain ⟨hempty, hcurrent⟩ := of_decide_eq_true hkept
      have hlist : (String.ofList part).toList = part := String.toList_ofList
      have hne : ∀ name : String, part ≠ name.toList → String.ofList part ≠ name := fun name hname heq =>
        hname (by rw [← heq, hlist])
      refine ⟨hne _ hempty, hne _ hcurrent, hne _ hparent, ?_⟩
      rw [hlist]
      exact not_mem_of_mem_splitOn hmem

namespace Downloads

variable {sha256 : List U8 → Hash} {s s' : Downloads}

/-- The files that were there, but for the plain names. -/
structure Stays (files : String → Option (List U8)) (s : Downloads) : Prop where
  tasks : ∀ t ∈ s.tasks, Plain t.filename
  files : ∀ name, ¬Plain name → s.files name = files name

/-- What is written goes to the file of a task. -/
theorem Stays.write {files : String → Option (List U8)} (h : Stays files s) {t : Task} (ht : t ∈ s.tasks)
    (data : List U8) : Stays files (s.write t data) where
  tasks := h.tasks
  files name hplain := by
    have hne : name ≠ t.filename := by
      rintro rfl
      exact hplain (h.tasks t ht)
    exact (Function.update_of_ne hne _ _).trans (h.files name hplain)

/-- A task goes on under its name. -/
theorem Stays.set {files : String → Option (List U8)} (h : Stays files s) {t t' : Task} (ht : t ∈ s.tasks)
    (heq : t'.filename = t.filename) (k : ℕ) : Stays files { s with tasks := s.tasks.set k t' } where
  tasks t'' ht'' := by
    rcases List.mem_or_eq_of_mem_set ht'' with hmem | rfl
    · exact h.tasks t'' hmem
    · exact heq ▸ h.tasks t ht
  files := h.files

/-- A task ends, with a report or without. -/
theorem Stays.erase {files : String → Option (List U8)} (h : Stays files s) (k : ℕ) (reports : List Report)
    (latest : String → Option Report) : Stays files ⟨s.files, s.tasks.eraseIdx k, reports, latest⟩ :=
  ⟨fun t ht => h.tasks t (List.mem_of_mem_eraseIdx ht), h.files⟩

/-- A download begins under the name that is made of the announced one. -/
theorem Stays.begin {files : String → Option (List U8)} (h : Stays files s) (uid : U64) (metadata : FileMetadata) :
    Stays files (s.begin uid metadata) where
  tasks t ht := by
    rcases List.mem_append.1 ht with ht | ht
    · exact h.tasks t ht
    · obtain rfl := List.mem_singleton.1 ht
      exact plain_fileName metadata.filename
  files name hplain := by
    have hne : name ≠ fileName metadata.filename := by
      rintro rfl
      exact hplain (plain_fileName metadata.filename)
    exact (Function.update_of_ne hne _ _).trans (h.files name hplain)

/-- **One action** leaves every other file as it was. -/
theorem Stays.step {files : String → Option (List U8)} {action : DownloadAction} (h : Stays files s)
    (hstep : s.step sha256 action = some s') : Stays files s' := by
  cases action with
  | metadata uid metadata =>
    obtain rfl := Option.some.inj hstep
    exact h.begin uid metadata
  | data k data written landed =>
    obtain ⟨t, ht, rfl⟩ := Option.map_eq_some_iff.1 hstep
    have hmem := List.mem_of_getElem? ht
    have hwrite := h.write hmem (data.take landed)
    cases written with
    | false =>
      dsimp only
      rw [if_neg Bool.false_ne_true]
      exact hwrite.set hmem (by rfl) k
    | true =>
      dsimp only
      rw [if_pos rfl, receive]
      dsimp only
      split
      case isTrue => exact hwrite.erase k _ _
      case isFalse => exact hwrite.set hmem (by rfl) k
  | closed k =>
    obtain ⟨t, -, rfl⟩ := Option.map_eq_some_iff.1 hstep
    exact h.erase k _ _

/-- **Downloads stay where they belong.**  Over every run, whatever names and data the servers
send, only files with a plain name in the download directory change. -/
theorem downloads_stay {files : String → Option (List U8)} {actions : List DownloadAction}
    (hexec : exec (step sha256) (start files) actions = some s) :
    ∀ name, s.files name ≠ files name → Plain name := by
  intro name hchanged
  have hstays : Stays files s := exec_induct (fun _ _ _ h _ hstep => h.step hstep)
    ⟨(fun _ ht => by cases ht), fun _ _ => rfl⟩ (meets_true ..) hexec
  by_contra hplain
  exact hchanged (hstays.files name hplain)

/-! ### What is reported -/

/-- No download begins under a name that another one is being written to. -/
def Alone (s : Downloads) : DownloadAction → Prop
  | .metadata _ metadata => ∀ t ∈ s.tasks, t.filename ≠ fileName metadata.filename
  | _ => True

instance (s : Downloads) : ∀ action, Decidable (s.Alone action)
  | .metadata _ metadata => inferInstanceAs (Decidable (∀ t ∈ s.tasks, t.filename ≠ fileName metadata.filename))
  | .data .. => inferInstanceAs (Decidable True)
  | .closed _ => inferInstanceAs (Decidable True)

end Downloads

/-- What is reported of a write is so: all of the data gets to the disk, or none of it. -/
def DownloadAction.Lands : DownloadAction → Prop
  | .data _ bytes written landed => landed = if written then bytes.length else 0
  | .metadata .. | .closed _ => True

instance : ∀ action : DownloadAction, Decidable action.Lands
  | .data _ data written landed => inferInstanceAs (Decidable (landed = if written then data.length else 0))
  | .metadata .. => inferInstanceAs (Decidable True)
  | .closed _ => inferInstanceAs (Decidable True)

namespace Downloads

/-- Each task has a file of its own with what it was fed, and each report that is not overtaken is
true of its file. -/
structure Inv (sha256 : List U8 → Hash) (s : Downloads) : Prop where
  names : (s.tasks.map Task.filename).Nodup
  tasks : ∀ t ∈ s.tasks,
    s.files t.filename = some t.hashed ∧ t.position = t.hashed.length ∧ s.latest t.filename = none
  latest : ∀ name r, s.latest name = some r → r.filename = name ∧
    ∃ data, s.files name = some data ∧ data.length = r.size ∧ (r.valid = true ↔ sha256 data = r.hash)

/-- What is written at the end of a file is behind the rest of it. -/
theorem writeAt_end (content data : List U8) : writeAt content.length data content = content ++ data := by
  rw [writeAt, Nat.sub_self, List.replicate_zero, List.append_nil, List.take_length,
    List.drop_eq_nil_of_le (Nat.le_add_right _ _), List.append_nil]

/-- Two tasks under one name are the same one. -/
theorem Inv.eq_of_filename (h : Inv sha256 s) {i j : ℕ} {t t' : Task} (hi : s.tasks[i]? = some t)
    (hj : s.tasks[j]? = some t') (heq : t.filename = t'.filename) : i = j := by
  have hi' : (s.tasks.map Task.filename)[i]? = some t.filename := by rw [List.getElem?_map, hi]; rfl
  have hj' : (s.tasks.map Task.filename)[j]? = some t.filename := by rw [List.getElem?_map, hj, heq]; rfl
  obtain ⟨hlt, -⟩ := List.getElem?_eq_some_iff.1 hi'
  exact (List.getElem?_inj hlt h.names).1 (hi'.trans hj'.symm)

/-- What was written to a file is all of it. -/
theorem Inv.files_write (h : Inv sha256 s) {t : Task} (ht : t ∈ s.tasks) (data : List U8) :
    (s.files t.filename).map (writeAt t.position data) = some (t.hashed ++ data) := by
  obtain ⟨hfile, hposition, -⟩ := h.tasks t ht
  rw [hfile, hposition, Option.map_some, writeAt_end]

/-- Nothing is written. -/
theorem Inv.write_nil (h : Inv sha256 s) {t : Task} (ht : t ∈ s.tasks) : s.write t [] = s := by
  rw [Downloads.write, h.files_write ht, List.append_nil, ← (h.tasks t ht).1, Function.update_eq_self]

/-- A file that was reported is not one that a task writes to. -/
theorem Inv.ne_of_latest (h : Inv sha256 s) {t : Task} (ht : t ∈ s.tasks) {name : String} {r : Report}
    (hr : s.latest name = some r) : name ≠ t.filename := by
  rintro rfl
  rw [(h.tasks t ht).2.2] at hr
  cases hr

/-- A download begins under a name that nothing is being written to. -/
theorem Inv.begin (h : Inv sha256 s) {uid : U64} {metadata : FileMetadata}
    (hcond : ∀ t ∈ s.tasks, t.filename ≠ fileName metadata.filename) : Inv sha256 (s.begin uid metadata) := by
  refine ⟨?_, fun t ht => ?_, fun name r hr => ?_⟩
  · rw [Downloads.begin, List.map_append]
    refine List.nodup_append.2 ⟨h.names, List.nodup_singleton _, fun name hname other hother heq => ?_⟩
    obtain ⟨t, ht, rfl⟩ := List.mem_map.1 hname
    obtain rfl := List.mem_singleton.1 hother
    exact hcond t ht heq
  · rcases List.mem_append.1 ht with ht | ht
    · have hne := hcond t ht
      obtain ⟨hfile, hposition, hlatest⟩ := h.tasks t ht
      exact ⟨(Function.update_of_ne hne _ _).trans hfile, hposition, (Function.update_of_ne hne _ _).trans hlatest⟩
    · obtain rfl := List.mem_singleton.1 ht
      exact ⟨Function.update_self .., rfl, Function.update_self ..⟩
  · rcases update_eq_cases hr with ⟨-, hr⟩ | ⟨hname, hr⟩
    · cases hr
    · dsimp only [Downloads.begin]
      rw [Function.update_of_ne hname]
      exact h.latest name r hr

/-- A download is given up. -/
theorem Inv.erase (h : Inv sha256 s) (k : ℕ) : Inv sha256 { s with tasks := s.tasks.eraseIdx k } :=
  ⟨List.eraseIdx_map .. ▸ h.names.eraseIdx k, fun t ht => h.tasks t (List.mem_of_mem_eraseIdx ht), h.latest⟩

/-- Another task has another file. -/
theorem Inv.other (h : Inv sha256 s) {k : ℕ} {t t' : Task} (ht : s.tasks[k]? = some t)
    (ht' : t' ∈ s.tasks.eraseIdx k) : t'.filename ≠ t.filename := by
  obtain ⟨j, hj, hjk⟩ := List.mem_eraseIdx_iff_getElem?.1 ht'
  intro heq
  exact hj (h.eq_of_filename hjk ht heq)

/-- Data is written, all of it. -/
theorem Inv.receive (h : Inv sha256 s) {k : ℕ} {t : Task} (ht : s.tasks[k]? = some t) (data : List U8) :
    Inv sha256 ((s.write t data).receive sha256 k t data data.length) := by
  have hmem := List.mem_of_getElem? ht
  have hfile := h.files_write hmem data
  obtain ⟨hlt, -⟩ := List.getElem?_eq_some_iff.1 ht
  rw [Downloads.receive, Downloads.write, hfile]
  dsimp only
  split
  case isTrue hdone =>
    refine ⟨List.eraseIdx_map .. ▸ h.names.eraseIdx k, fun t' ht' => ?_, fun name r hr => ?_⟩
    · have hne := h.other ht ht'
      obtain ⟨hfile', hposition', hlatest⟩ := h.tasks t' (List.mem_of_mem_eraseIdx ht')
      exact ⟨(Function.update_of_ne hne _ _).trans hfile', hposition', (Function.update_of_ne hne _ _).trans hlatest⟩
    · dsimp only
      rcases update_eq_cases hr with ⟨rfl, hreport⟩ | ⟨hname, hr⟩
      · obtain rfl := Option.some.inj hreport
        refine ⟨rfl, t.hashed ++ data, Function.update_self .., hdone, ?_⟩
        rw [decide_eq_true_iff]
        exact eq_comm
      · rw [Function.update_of_ne hname]
        exact h.latest name r hr
  case isFalse =>
    set next : Task := { t with hashed := t.hashed ++ data, position := t.position + data.length } with hnext
    have hnames : (s.tasks.set k next).map Task.filename = s.tasks.map Task.filename := by
      have hname : (s.tasks.map Task.filename)[k]? = some t.filename := by rw [List.getElem?_map, ht]; rfl
      obtain ⟨hlt', hget⟩ := List.getElem?_eq_some_iff.1 hname
      rw [List.map_set]
      exact hget ▸ List.set_getElem_self hlt'
    refine ⟨hnames ▸ h.names, fun t' ht' => ?_, fun name r hr => ?_⟩
    · obtain ⟨j, hj⟩ := List.mem_iff_getElem?.1 ht'
      rw [List.getElem?_set] at hj
      split at hj
      case isTrue =>
        obtain rfl := Option.some.inj hj
        obtain ⟨-, hposition, hlatest⟩ := h.tasks t hmem
        exact ⟨Function.update_self .., by rw [hnext, hposition, List.length_append], hlatest⟩
      case isFalse hjk =>
        have hne : t'.filename ≠ t.filename := fun heq => hjk (h.eq_of_filename hj ht heq).symm
        obtain ⟨hfile', hposition', hlatest⟩ := h.tasks t' (List.mem_of_getElem? hj)
        exact ⟨(Function.update_of_ne hne _ _).trans hfile', hposition', hlatest⟩
    · dsimp only
      rw [Function.update_of_ne (h.ne_of_latest hmem hr)]
      exact h.latest name r hr

/-- **One action** keeps each report true of its file. -/
theorem Inv.step {action : DownloadAction} (h : Inv sha256 s) (halone : s.Alone action) (hlands : action.Lands)
    (hstep : s.step sha256 action = some s') : Inv sha256 s' := by
  cases action with
  | metadata uid metadata =>
    obtain rfl := Option.some.inj hstep
    exact h.begin halone
  | data k data written landed =>
    obtain ⟨t, ht, rfl⟩ := Option.map_eq_some_iff.1 hstep
    obtain rfl := hlands
    cases written with
    | false =>
      obtain ⟨hlt, hget⟩ := List.getElem?_eq_some_iff.1 ht
      have hsame : s.tasks.set k t = s.tasks := hget ▸ List.set_getElem_self hlt
      simp only [Bool.false_eq_true, if_false, List.take_zero, h.write_nil (List.mem_of_getElem? ht),
        List.length_nil, Nat.add_zero, hsame]
      exact h
    | true =>
      simp only [if_true, List.take_length]
      exact h.receive ht data
  | closed k =>
    obtain ⟨t, -, rfl⟩ := Option.map_eq_some_iff.1 hstep
    exact h.erase k

/-- With no download there is nothing to be true of. -/
theorem inv_start (files : String → Option (List U8)) : Inv sha256 (start files) :=
  ⟨List.nodup_nil, (fun _ ht => by cases ht), (fun _ _ hr => by cases hr)⟩

/-- **What is reported is on the disk.**  In every run in which no download begins under a name
that another one is being written to, and in which what is reported of a write is so, the file
of the last report on a name, while no download has begun under it since, is as long as was
announced, and it was reported as downloaded if its hash is the announced one, and as failed if
not. -/
theorem reported_on_disk {files : String → Option (List U8)} {actions : List DownloadAction}
    (hexec : exec (step sha256) (start files) actions = some s)
    (hmeets : Meets (step sha256) (fun s action => s.Alone action ∧ action.Lands) (start files) actions) :
    ∀ name r, s.latest name = some r → r.filename = name ∧
      ∃ data, s.files name = some data ∧ data.length = r.size ∧ (r.valid = true ↔ sha256 data = r.hash) := by
  intro name r hr
  have hinv : Inv sha256 s := exec_induct (fun _ _ _ h hcond hstep => h.step hcond.1 hcond.2 hstep)
    (inv_start files) hmeets hexec
  exact hinv.latest name r hr

/-- A digest that tells files by their first byte. -/
def firstByte (data : List U8) : Hash := .replicate 32 (data.headD 0)

/-- Two files at once, one of them with a path for a name. -/
def served : List DownloadAction :=
  [.metadata 1 ⟨3, "../../notes", firstByte [1, 2, 3]⟩, .data 0 [1] true 1,
    .metadata 2 ⟨2, "letters", firstByte [4, 5]⟩, .data 0 [2, 3] true 2, .data 0 [4, 5] true 2]

/-- Two files arrive, and stay where they belong. -/
theorem downloads_stay_served : ∃ s : Downloads,
    (s.files "notes", s.files "letters") = (some [1, 2, 3], some [4, 5]) ∧
    ∀ name, s.files name ≠ (fun _ => none : String → Option (List U8)) name → Plain name := by
  have hrun : (exec (step firstByte) (start fun _ => none) served).map
      (fun s => (s.files "notes", s.files "letters")) = some (some [1, 2, 3], some [4, 5]) := by decide +kernel
  obtain ⟨s, hs, hv⟩ := Option.map_eq_some_iff.1 hrun
  exact ⟨s, hv, downloads_stay hs⟩

/-- Two files arrive and are on the disk as reported. -/
theorem reported_on_disk_served : ∃ s : Downloads, s.reports.map Report.valid = [true, true] ∧
    ∀ name r, s.latest name = some r → r.filename = name ∧
      ∃ data, s.files name = some data ∧ data.length = r.size ∧ (r.valid = true ↔ firstByte data = r.hash) := by
  have hrun : (exec (step firstByte) (start fun _ => none) served).map (·.reports.map Report.valid) =
      some [true, true] := by decide +kernel
  have hmeets : Meets (step firstByte) (fun s action => s.Alone action ∧ action.Lands) (start fun _ => none)
      served := by decide +kernel
  obtain ⟨s, hs, hv⟩ := Option.map_eq_some_iff.1 hrun
  exact ⟨s, hv, reported_on_disk hs hmeets⟩

/-- **The conditions are needed**: two downloads at once under one name are both reported as
downloaded, and what is on the disk is neither file. -/
theorem mixed_up :
    (exec (step firstByte) (start fun _ => none)
      [.metadata 1 ⟨2, "notes", firstByte [1, 2]⟩, .data 0 [1] true 1, .metadata 2 ⟨2, "notes", firstByte [3, 4]⟩,
        .data 1 [3] true 1, .data 1 [4] true 1, .data 0 [2] true 1]).map
      (fun s => (s.reports.map fun r => (r.uid, r.valid), s.files "notes")) =
    some ([(2, true), (1, true)], some [3, 2]) := by decide +kernel

/-- The disk is full when the buffer is written: the download is reported, and the file is short. -/
theorem short_file :
    (exec (step firstByte) (start fun _ => none)
      [.metadata 1 ⟨2, "notes", firstByte [1, 2]⟩, .data 0 [1] true 1, .data 0 [2] true 0]).map
      (fun s => (s.reports.map fun r => (r.uid, r.valid), s.files "notes")) =
    some ([(1, true)], some [1]) := by decide +kernel

/-! ### What a server sends -/

/-- What the server of a transfer sends: the size and the hash of its file, and then the
file, some bytes at a time.  What is sent can be written, and gets to the disk. -/
def Sent (sha256 : List U8 → Hash) (serve : U64 → List U8) (s : Downloads) : DownloadAction → Prop
  | .metadata uid metadata => metadata.size = (serve uid).length ∧ metadata.hash = sha256 (serve uid)
  | .data k data written landed =>
    written = true ∧ landed = data.length ∧ data ≠ [] ∧ ∀ t ∈ s.tasks[k]?, t.hashed ++ data <+: serve t.uid
  | .closed _ => True

instance (sha256 : List U8 → Hash) (serve : U64 → List U8) (s : Downloads) :
    ∀ action, Decidable (s.Sent sha256 serve action)
  | .metadata uid metadata =>
    inferInstanceAs (Decidable (metadata.size = (serve uid).length ∧ metadata.hash = sha256 (serve uid)))
  | .data k data written landed =>
    inferInstanceAs (Decidable (written = true ∧ landed = data.length ∧ data ≠ [] ∧
      ∀ t ∈ s.tasks[k]?, t.hashed ++ data <+: serve t.uid))
  | .closed _ => inferInstanceAs (Decidable True)

/-- The files of the server, as far as they have arrived. -/
structure Serves (sha256 : List U8 → Hash) (serve : U64 → List U8) (s : Downloads) : Prop extends Inv sha256 s where
  announced : ∀ t ∈ s.tasks, t.size = (serve t.uid).length ∧ t.hash = sha256 (serve t.uid)
  arrived : ∀ t ∈ s.tasks, t.hashed <+: serve t.uid ∧ (t.hashed = serve t.uid → serve t.uid = [])
  reports : ∀ r ∈ s.reports, r.valid = true ∧ serve r.uid ≠ []
  sent : ∀ name r, s.latest name = some r → s.files name = some (serve r.uid)

variable {serve : U64 → List U8}

/-- A file of the server is announced. -/
theorem Serves.begin (h : Serves sha256 serve s) {uid : U64} {metadata : FileMetadata}
    (halone : ∀ t ∈ s.tasks, t.filename ≠ fileName metadata.filename) (hsize : metadata.size = (serve uid).length)
    (hhash : metadata.hash = sha256 (serve uid)) : Serves sha256 serve (s.begin uid metadata) := by
  refine ⟨h.toInv.begin halone, fun t ht => ?_, fun t ht => ?_, h.reports, fun name r hr => ?_⟩
  · rcases List.mem_append.1 ht with ht | ht
    · exact h.announced t ht
    · obtain rfl := List.mem_singleton.1 ht
      exact ⟨hsize, hhash⟩
  · rcases List.mem_append.1 ht with ht | ht
    · exact h.arrived t ht
    · obtain rfl := List.mem_singleton.1 ht
      exact ⟨List.nil_prefix, fun heq => heq.symm⟩
  · rcases update_eq_cases hr with ⟨-, hr⟩ | ⟨hname, hr⟩
    · cases hr
    · dsimp only [Downloads.begin]
      rw [Function.update_of_ne hname]
      exact h.sent name r hr

/-- More of a file of the server arrives. -/
theorem Serves.receive (h : Serves sha256 serve s) {k : ℕ} {t : Task} (ht : s.tasks[k]? = some t)
    {data : List U8} (hdata : data ≠ []) (hnext : t.hashed ++ data <+: serve t.uid) :
    Serves sha256 serve ((s.write t data).receive sha256 k t data data.length) := by
  have hmem := List.mem_of_getElem? ht
  have hfile := h.toInv.files_write hmem data
  have hinv := h.toInv.receive ht data
  obtain ⟨hsize, hhash⟩ := h.announced t hmem
  -- The download is complete when the whole of the file has arrived.
  have hwhole : (t.hashed ++ data).length = t.size ↔ t.hashed ++ data = serve t.uid := by
    rw [hsize]
    exact ⟨hnext.eq_of_length, congrArg List.length⟩
  have hsome : t.hashed ++ data ≠ [] := fun hnil => hdata (List.append_eq_nil_iff.1 hnil).2
  rw [Downloads.receive, Downloads.write, hfile] at hinv ⊢
  dsimp only at hinv ⊢
  split
  case isTrue hdone =>
    rw [if_pos hdone] at hinv
    have hall := hwhole.1 hdone
    refine ⟨hinv, fun t' ht' => h.announced t' (List.mem_of_mem_eraseIdx ht'),
      fun t' ht' => h.arrived t' (List.mem_of_mem_eraseIdx ht'), fun r hr => ?_, fun name r hr => ?_⟩
    · rcases List.mem_append.1 hr with hr | hr
      · exact h.reports r hr
      · obtain rfl := List.mem_singleton.1 hr
        exact ⟨decide_eq_true (by rw [hall, hhash]), hall ▸ hsome⟩
    · dsimp only
      rcases update_eq_cases hr with ⟨rfl, hreport⟩ | ⟨hname, hr⟩
      · obtain rfl := Option.some.inj hreport
        rw [Function.update_self, hall]
      · rw [Function.update_of_ne hname]
        exact h.sent name r hr
  case isFalse hrest =>
    rw [if_neg hrest] at hinv
    refine ⟨hinv, fun t' ht' => ?_, fun t' ht' => ?_, h.reports, fun name r hr => ?_⟩
    · rcases List.mem_or_eq_of_mem_set ht' with ht' | rfl
      · exact h.announced t' ht'
      · exact ⟨hsize, hhash⟩
    · rcases List.mem_or_eq_of_mem_set ht' with ht' | rfl
      · exact h.arrived t' ht'
      · exact ⟨hnext, fun heq => absurd (hwhole.2 heq) hrest⟩
    · dsimp only
      rw [Function.update_of_ne (h.toInv.ne_of_latest hmem hr)]
      exact h.sent name r hr

/-- **One action** of servers that send their files. -/
theorem Serves.step {action : DownloadAction} (h : Serves sha256 serve s) (halone : s.Alone action)
    (hcond : s.Sent sha256 serve action) (hstep : s.step sha256 action = some s') : Serves sha256 serve s' := by
  cases action with
  | metadata uid metadata =>
    obtain rfl := Option.some.inj hstep
    exact h.begin halone hcond.1 hcond.2
  | data k data written landed =>
    obtain ⟨t, ht, rfl⟩ := Option.map_eq_some_iff.1 hstep
    obtain ⟨rfl, rfl, hdata, hnext⟩ := hcond
    simp only [if_true, List.take_length]
    exact h.receive ht hdata (hnext t ht)
  | closed k =>
    obtain ⟨t, -, rfl⟩ := Option.map_eq_some_iff.1 hstep
    exact ⟨h.toInv.erase k, fun t' ht' => h.announced t' (List.mem_of_mem_eraseIdx ht'),
      fun t' ht' => h.arrived t' (List.mem_of_mem_eraseIdx ht'), h.reports, h.sent⟩

/-- **A download that has arrived is reported.**  In every run in which no download begins
under a name that another one is being written to, and in which the servers send their
files, wherever a transfer ends: a task that goes on lacks some of its file, unless the file
is empty; no download is reported as failed, and none of an empty file is reported; and the
last file that was reported under a name, while no download has begun under it since, is there
as it was sent. -/
theorem downloads_served {files : String → Option (List U8)} {actions : List DownloadAction}
    (hexec : exec (step sha256) (start files) actions = some s)
    (hmeets : Meets (step sha256) (fun s action => s.Alone action ∧ s.Sent sha256 serve action) (start files)
      actions) :
    (∀ t ∈ s.tasks, t.hashed <+: serve t.uid ∧ (t.hashed = serve t.uid → serve t.uid = [])) ∧
      (∀ r ∈ s.reports, r.valid = true ∧ serve r.uid ≠ []) ∧
      ∀ name r, s.latest name = some r → s.files name = some (serve r.uid) := by
  have hserves : Serves sha256 serve s :=
    exec_induct (fun _ _ _ h hcond hstep => h.step hcond.1 hcond.2 hstep)
      ⟨inv_start files, (fun _ ht => by cases ht), (fun _ ht => by cases ht), (fun _ hr => by cases hr),
        (fun _ _ hr => by cases hr)⟩ hmeets hexec
  exact ⟨hserves.arrived, hserves.reports, hserves.sent⟩

/-- The files of the two transfers. -/
def twoFiles (uid : U64) : List U8 := if uid = 1 then [1, 2, 3] else [4, 5]

/-- Two files arrive as they were sent. -/
theorem downloads_served_twice : ∃ s : Downloads, s.reports.map Report.uid = [1, 2] ∧
    (∀ t ∈ s.tasks, t.hashed <+: twoFiles t.uid ∧ (t.hashed = twoFiles t.uid → twoFiles t.uid = [])) ∧
      (∀ r ∈ s.reports, r.valid = true ∧ twoFiles r.uid ≠ []) ∧
      ∀ name r, s.latest name = some r → s.files name = some (twoFiles r.uid) := by
  have hrun : (exec (step firstByte) (start fun _ => none) served).map (·.reports.map Report.uid) =
      some [1, 2] := by decide +kernel
  have hmeets : Meets (step firstByte) (fun s action => s.Alone action ∧ s.Sent firstByte twoFiles action)
      (start fun _ => none) served := by decide +kernel
  obtain ⟨s, hs, hv⟩ := Option.map_eq_some_iff.1 hrun
  exact ⟨s, hv, downloads_served hs hmeets⟩

end Downloads

end Download
end Why2
