/-
# The picture store

The directory `server_images`: an upload is built there under the number of its
upload and renamed to its hash when it is complete (`download`,
`chat/src/network/file/server.rs`), and a history record, an account or the
server then names it.  A file goes when nothing names it any more: `push` and
`delete` remove the files of dropped records, and `sweep_images` every file
without a name (`chat/src/config/messages.rs`).

Naming a file and making it are separate steps, and whoever deletes one decides
first and deletes later, without a lock.  A sweep takes the files of running
uploads with it, as nothing names them yet (`upload_swept`).  A trim holds the
history while it looks for another name of a dropped file, but it looks up the
accounts one by one, and one that was looked up may take the file.  If no task
decides to delete a file that another one is using, none starts to use a file that
another one is about to delete, and no account takes one that it was looked up
for, then every file that is named is there, in every state of every run, and no
upload loses its file (`pictures_complete`).

An action is what a task does between two `await`s or under one lock: each
account is looked up under a lock of its own, and the server's icon is a file.  The
files that are not persistent are in other directories and play no part here.
-/

import Why2.Chat.Uploads
import Why2.Lib.Runs

namespace Why2

open Lib

/-- A file in the picture directory: the hash of its content, or the number of its upload. -/
inductive PictureName
  | hash (h : Hash)
  | temp (uid : U64)
deriving DecidableEq

/-- Where a task is that makes, names or deletes pictures. -/
inductive PictureTask
  | upload (uid : U64) (kind : UploadKind) (username : String)
  /-- The upload is complete; `insert` if there was no file of its name. -/
  | probed (uid : U64) (kind : UploadKind) (username : String) (hash : Hash) (insert : Bool)
  | renamed (kind : UploadKind) (username : String) (hash : Hash) (insert : Bool)
  /-- A request for a file that is stored already. -/
  | found (kind : UploadKind) (username : String) (hash : Hash)
  | dropping (hash : Hash)
  /-- `History::orphans`, under the lock of the history: which of the dropped files are named? -/
  | judging (dropped orphans : List Hash)
  /-- `names_avatar`, and then the icon: no account but these may name the file. -/
  | lookingUp (hash : Hash) (accounts : List String) (dropped orphans : List Hash)
  | removing (orphans : List Hash)
  | sweep
  | listed (files : List PictureName)
  | keptHistory (files kept : List PictureName)
  /-- `avatars`: these accounts are still to be looked up. -/
  | keptAvatars (files kept : List PictureName) (accounts : List String)
  | sweeping (rest : List PictureName)
  | done
deriving DecidableEq

namespace PictureTask

/-- The files the task goes on to use. -/
def uses : PictureTask → List PictureName
  | .upload uid .. | .probed uid .. => [.temp uid]
  | .renamed _ _ hash _ | .found _ _ hash => [.hash hash]
  | _ => []

/-- The files the task may go on to delete. -/
def mayDelete : PictureTask → List PictureName
  | .dropping hash => [.hash hash]
  | .judging _ orphans | .lookingUp _ _ _ orphans | .removing orphans => orphans.map .hash
  | .listed files => files
  | .keptHistory files kept | .keptAvatars files kept _ => files.filter (· ∉ kept)
  | .sweeping rest => rest
  | _ => []

/-- An upload that has not been renamed. -/
def builds (uid : U64) : PictureTask → Bool
  | .upload uid' .. | .probed uid' .. => uid = uid'
  | _ => false

/-- The task holds the history. -/
def locks : PictureTask → Bool
  | .judging .. | .lookingUp .. => true
  | _ => false

/-- Nothing is in progress but the receiving of an upload. -/
def quiet : PictureTask → Bool
  | .upload .. | .done => true
  | _ => false

end PictureTask

/-- The directory, the history, the pictures of the accounts and of the server, the tasks,
and the uploads whose file was deleted under them. -/
structure PictureStore where
  dir : List PictureName
  messages : Messages
  avatars : AList fun _ : String => Option Hash
  icon : Option Hash
  tasks : List PictureTask
  lost : List U64

/-- What comes with a message that names a picture. -/
structure PicturePost where
  limit : ℕ
  filename : String
  duration : BitVec 32
  timestamp : Option U64

/-- What names a file. -/
inductive NameSource
  | history
  | avatar (username : String)
  | icon

/-- The task looks for a name of the file, and does not look here any more. -/
def PictureTask.overlooks (source : NameSource) (h : Hash) : PictureTask → Bool
  | .lookingUp hash accounts _ _ => hash = h &&
    match source with
    | .history => true
    | .avatar username => username ∉ accounts
    | .icon => false
  | _ => false

/-- What one task does between two `await`s or under one lock. -/
inductive PictureAction
  | create (uid : U64) (kind : UploadKind) (username : String)
  | abort (k : ℕ)
  | probe (k : ℕ) (hash : Hash)
  | rename (k : ℕ)
  | publish (k : ℕ) (kept : Bool) (post : PicturePost)
  | find (kind : UploadKind) (username : String) (hash : Hash)
  | refuse (k : ℕ)
  | use (k : ℕ) (kept : Bool) (post : PicturePost)
  | store (limit : ℕ) (username text : String) (timestamp reply : Option U64)
  | delete (id : U64)
  | dropAvatar (username : String)
  | dropIcon
  | removeUser (username : String)
  | sweep
  /-- A sweep, a lookup or a removal goes on. -/
  | advance (k : ℕ)

namespace PictureStore

/-- The server as it starts, with what is on the disk. -/
def start (dir : List PictureName) (records : List Record) (avatars : AList fun _ : String => Option Hash)
    (icon : Option Hash) : PictureStore :=
  ⟨dir, .start records, avatars, icon, [], []⟩

variable (s : PictureStore)

/-- `users::names_avatar`. -/
def namesAvatar (hash : Hash) : Bool := s.avatars.entries.any fun entry => entry.2 = some hash

/-- `messages::has_image`. -/
def hasImage (hash : Hash) : Bool := s.messages.history.records.any fun message => message.image = some hash

/-- A task holds the history. -/
def held : Bool := s.tasks.any (·.locks)

/-- `messages::stored`: one of its lookups has found the file. -/
def stored (hash : Hash) : Bool := !s.held && s.hasImage hash || s.namesAvatar hash || s.icon = some hash

/-- `messages::voice`, as far as there is one. -/
def hasVoice (hash : Hash) : Bool :=
  s.messages.history.records.any fun message => message.voice.any (·.hash = hash)

/-- The rest of `push` and `delete`: the dropped files are judged. -/
def pushed (dropped : List Hash) (messages : Messages) : PictureStore × PictureTask :=
  ({ s with messages }, .judging dropped [])

/-- A file is put to use as a picture of this kind. -/
def name (kind : UploadKind) (username : String) (hash : Hash) (kept : Bool) (post : PicturePost) :
    PictureStore × PictureTask :=
  match kind with
  | .avatar => ({ s with avatars := s.avatars.insert username (some hash) }, .sweep)
  | .icon => ({ s with icon := some hash }, .sweep)
  | .image =>
    if kept then
      let (_, dropped, messages) := s.messages.storeImage post.limit username post.filename hash post.timestamp
      s.pushed dropped messages
    else ({ s with messages := s.messages.nextId.2 }, .done)
  | .voice =>
    if kept then
      let (_, dropped, messages) := s.messages.storeVoice post.limit username ⟨hash, post.duration⟩ post.timestamp
      s.pushed dropped messages
    else ({ s with messages := s.messages.nextId.2 }, .done)
  | .file => (s, .done)

/-- The end of an upload: one that is not kept is deleted again, if there was no file of
its name before. -/
def publish (kind : UploadKind) (username : String) (hash : Hash) (insert kept : Bool) (post : PicturePost) :
    PictureStore × PictureTask :=
  if (kind = .image ∨ kind = .voice) ∧ kept = false ∧ insert = true then
    ({ s with messages := s.messages.nextId.2 }, .dropping hash)
  else s.name kind username hash kept post

/-- A file is deleted, if it is there. -/
def delete (file : PictureName) : PictureStore :=
  { s with
    dir := s.dir.filter (· ≠ file)
    lost :=
      match file with
      | .temp uid => if file ∈ s.dir ∧ s.tasks.any (·.builds uid) then uid :: s.lost else s.lost
      | .hash _ => s.lost }

/-- The names in the history, as `sweep_images` collects them. -/
def keptHistory : List PictureName := s.messages.history.records.filterMap fun message => message.stored.map .hash

/-- The names of the accounts. -/
def keptAvatars : List PictureName := s.avatars.entries.filterMap fun entry => entry.2.map .hash

/-- `sweep_images`, `orphans` and `remove_images`, one step at a time. -/
def advance : PictureTask → Option (PictureStore × PictureTask)
  | .sweep => some (s, if s.dir = [] then .done else .listed s.dir)
  | .listed files => if s.held then none else some (s, .keptHistory files s.keptHistory)
  | .keptHistory files kept => some (s, .keptAvatars files kept s.avatars.keys)
  | .keptAvatars files kept (username :: accounts) =>
    let avatar := (s.avatars.lookup username).getD none
    some (s, .keptAvatars files (kept ++ (avatar.map PictureName.hash).toList) accounts)
  | .keptAvatars files kept [] =>
    some (s, .sweeping (files.filter (· ∉ kept ++ (s.icon.map PictureName.hash).toList)))
  | .judging (hash :: dropped) orphans =>
    if s.messages.history.records.any fun message => message.stored = some hash then
      some (s, .judging dropped orphans)
    else some (s, .lookingUp hash s.avatars.keys dropped orphans)
  | .lookingUp hash (username :: accounts) dropped orphans =>
    if s.avatars.lookup username = some (some hash) then some (s, .judging dropped orphans)
    else some (s, .lookingUp hash accounts dropped orphans)
  | .lookingUp hash [] dropped orphans =>
    some (s, .judging dropped (if s.icon = some hash then orphans else orphans ++ [hash]))
  -- The file of the history is written, and the lock released.
  | .judging [] orphans => some (s, .removing orphans)
  | .sweeping (file :: rest) => some (s.delete file, .sweeping rest)
  | .sweeping [] | .removing [] => some (s, .done)
  | .removing (hash :: rest) => some (s.delete (.hash hash), .removing rest)
  | .dropping hash => some (s.delete (.hash hash), .done)
  | _ => none

/-- A new task. -/
def spawn (result : PictureStore × PictureTask) : PictureStore :=
  { result.1 with tasks := result.1.tasks ++ [result.2] }

/-- The task goes on. -/
def goto (k : ℕ) (result : PictureStore × PictureTask) : PictureStore :=
  { result.1 with tasks := result.1.tasks.set k result.2 }

/-- One action. -/
def step (s : PictureStore) : PictureAction → Option PictureStore
  | .create uid kind username =>
    if kind.persistent = true ∧ .temp uid ∉ s.dir then
      some (spawn ({ s with dir := .temp uid :: s.dir }, .upload uid kind username))
    else none
  | .abort k =>
    match s.tasks[k]? with
    | some (.upload uid ..) | some (.probed uid ..) =>
      some (goto k ({ s with dir := s.dir.filter (· ≠ .temp uid) }, .done))
    | _ => none
  | .probe k hash =>
    match s.tasks[k]? with
    | some (.upload uid kind username) =>
      some (goto k (s, .probed uid kind username hash (.hash hash ∉ s.dir)))
    | _ => none
  | .rename k =>
    match s.tasks[k]? with
    | some (.probed uid kind username hash insert) =>
      if .temp uid ∈ s.dir then
        some (goto k ({ s with dir := .hash hash :: s.dir.filter (· ≠ .temp uid) },
          .renamed kind username hash insert))
      else some (goto k (s, .done))
    | _ => none
  | .publish k kept post =>
    match s.tasks[k]? with
    | some (.renamed kind username hash insert) =>
      if (kind = .image ∨ kind = .voice) ∧ s.held = true then none
      else some (goto k (s.publish kind username hash insert kept post))
    | _ => none
  | .find kind username hash =>
    if kind.persistent = true ∧ (if kind = .voice then !s.held && s.hasVoice hash else s.stored hash) = true then
      some (spawn (s, .found kind username hash))
    else none
  | .refuse k =>
    match s.tasks[k]? with
    | some (.found ..) => some (goto k (s, .done))
    | _ => none
  | .use k kept post =>
    match s.tasks[k]? with
    | some (.found kind username hash) =>
      if (kind = .image ∨ kind = .voice) ∧ s.held = true then none
      else some (goto k (s.name kind username hash kept post))
    | _ => none
  | .store limit username text timestamp reply =>
    if s.held then none
    else
      let (_, dropped, messages) := s.messages.store limit username text timestamp reply
      some (spawn (s.pushed dropped messages))
  | .delete id =>
    if s.held then none
    else
      let (_, dropped, messages) := s.messages.delete id
      some (spawn (s.pushed dropped messages))
  | .dropAvatar username => some (spawn ({ s with avatars := s.avatars.insert username none }, .sweep))
  | .dropIcon => some (spawn ({ s with icon := none }, .sweep))
  | .removeUser username => some (spawn ({ s with avatars := s.avatars.erase username }, .sweep))
  | .sweep => some (spawn (s, .sweep))
  | .advance k => do
    let task ← s.tasks[k]?
    let result ← s.advance task
    return goto k result

/-- The hash is named by a record, an account or the server. -/
def Named (s : PictureStore) (h : Hash) : Prop :=
  (∃ message ∈ s.messages.history.records, message.stored = some h) ∨
    (∃ username, s.avatars.lookup username = some (some h)) ∨ s.icon = some h

/-- While no operation is in progress every named file is there; no upload has lost its
file. -/
structure Complete (s : PictureStore) : Prop where
  named : (∀ task ∈ s.tasks, task.quiet = true) → ∀ h, s.Named h → .hash h ∈ s.dir
  lost : s.lost = []

/-! ### A sweep during an upload -/

/-- A picture is being uploaded when another user drops a profile picture. -/
def swept : List PictureAction :=
  [.create 5 .image "anna", .dropAvatar "ben", .advance 1, .advance 1, .advance 1, .advance 1, .advance 1, .advance 1]

/-- **A sweep deletes the file of a running upload.** -/
theorem upload_swept :
    ¬∀ (actions : List PictureAction) (s : PictureStore),
      exec step (start [] [] ∅ none) actions = some s → s.Complete := by
  intro h
  have hvalues : (exec step (start [] [] ∅ none) swept).map (·.lost) = some [5] := by decide
  obtain ⟨s, hs, hlost⟩ := Option.map_eq_some_iff.1 hvalues
  have hcomplete := (h swept s hs).lost
  rw [hlost] at hcomplete
  cases hcomplete

/-! ### No file that one task uses and another deletes -/

/-- No task of these goes on to use one of these files. -/
def Unused (tasks : List PictureTask) (files : List PictureName) : Prop :=
  ∀ task ∈ tasks, ∀ file ∈ files, file ∉ task.uses

/-- No task of these goes on to delete the file. -/
def Safe (tasks : List PictureTask) (file : PictureName) : Prop := ∀ task ∈ tasks, file ∉ task.mayDelete

instance (tasks : List PictureTask) (files : List PictureName) : Decidable (Unused tasks files) :=
  inferInstanceAs (Decidable (∀ task ∈ tasks, ∀ file ∈ files, file ∉ task.uses))

instance (tasks : List PictureTask) (file : PictureName) : Decidable (Safe tasks file) :=
  inferInstanceAs (Decidable (∀ task ∈ tasks, file ∉ task.mayDelete))

/-- The names, as a list. -/
def named (s : PictureStore) : List PictureName :=
  s.keptHistory ++ (s.keptAvatars ++ (s.icon.map PictureName.hash).toList)

/-- The tasks beside the one that acts. -/
def others (s : PictureStore) : PictureAction → List PictureTask
  | .abort k | .probe k _ | .rename k | .publish k .. | .refuse k | .use k .. | .advance k => s.tasks.eraseIdx k
  | _ => s.tasks

/-- The files an action starts to use: one it makes, one it renames an upload to, one it
finds stored. -/
def starts (s : PictureStore) : PictureAction → List PictureName
  | .create uid _ _ => [.temp uid]
  | .rename k =>
    match s.tasks[k]? with
    | some (.probed _ _ _ hash _) => [.hash hash]
    | _ => []
  | .find _ _ hash => [.hash hash]
  | _ => []

/-- The picture an upload that is not kept deletes again. -/
def drops (s : PictureStore) : PictureAction → List PictureName
  | .publish k kept _ =>
    match s.tasks[k]? with
    | some (.renamed kind _ hash insert) =>
      if (kind = .image ∨ kind = .voice) ∧ kept = false ∧ insert = true then [.hash hash] else []
    | _ => []
  | _ => []

/-- The files an action decides to delete: the picture that is not kept, a dropped file that the last
lookup finds no name of, and for a sweep the whole directory. -/
def decides (s : PictureStore) : PictureAction → List PictureName
  | .advance k =>
    match s.tasks[k]? with
    | some .sweep => s.dir
    | some (.lookingUp hash [] _ _) => if s.icon = some hash then [] else [.hash hash]
    | _ => []
  | action => s.drops action

/-- The account that an action gives an avatar. -/
def takes (s : PictureStore) : PictureAction → List (String × Hash)
  | .publish k _ _ =>
    match s.tasks[k]? with
    | some (.renamed .avatar username hash _) => [(username, hash)]
    | _ => []
  | .use k _ _ =>
    match s.tasks[k]? with
    | some (.found .avatar username hash) => [(username, hash)]
    | _ => []
  | _ => []

/-- No task decides to delete a file that another one goes on to use, none starts to use one that
another may go on to delete, a picture that is not kept is not named, and no account takes a file
that a task looks for a name of and did not find there, or does not look for there. -/
def Undisputed (s : PictureStore) (action : PictureAction) : Prop :=
  Unused (s.others action) (s.decides action) ∧ (∀ file ∈ s.starts action, Safe (s.others action) file) ∧
    (∀ file ∈ s.drops action, file ∉ s.named) ∧
    ∀ taken ∈ s.takes action, ∀ task ∈ s.others action, task.overlooks (.avatar taken.1) taken.2 = false

instance (s : PictureStore) (action : PictureAction) : Decidable (s.Undisputed action) :=
  inferInstanceAs (Decidable (Unused (s.others action) (s.decides action) ∧
    (∀ file ∈ s.starts action, Safe (s.others action) file) ∧ (∀ file ∈ s.drops action, file ∉ s.named) ∧
    ∀ taken ∈ s.takes action, ∀ task ∈ s.others action, task.overlooks (.avatar taken.1) taken.2 = false))

/-! ### Names -/

end PictureStore

/-- A named file that the task does not go on to delete: while a sweep collects the names, one that is
in those it has collected of this source; while a file is looked up, one that may still be found. -/
def PictureTask.Spares (source : NameSource) (h : Hash) : PictureTask → Prop
  | .listed _ => True
  | .keptHistory files kept =>
    match source with
    | .history => .hash h ∈ files → .hash h ∈ kept
    | _ => True
  | .keptAvatars files kept accounts =>
    match source with
    | .history => .hash h ∈ files → .hash h ∈ kept
    | .avatar username => username ∈ accounts ∨ (.hash h ∈ files → .hash h ∈ kept)
    | .icon => True
  | task => .hash h ∉ task.mayDelete ∧ task.overlooks source h = false

namespace PictureTask

variable {hash h : Hash} {accounts : List String} {dropped orphans : List Hash}

/-- The icon is read last. -/
theorem overlooks_icon (task : PictureTask) : task.overlooks .icon h = false := by
  cases task with
  | lookingUp hash accounts dropped orphans => exact Bool.and_false _
  | _ => rfl

/-- A lookup of the accounts is past the history. -/
theorem overlooks_history : (lookingUp hash accounts dropped orphans).overlooks .history hash = true := by
  simp [overlooks]

/-- A lookup is past the accounts it does not have to look up any more. -/
theorem overlooks_avatar {username : String} :
    (lookingUp hash accounts dropped orphans).overlooks (.avatar username) hash = false ↔ username ∈ accounts := by
  simp [overlooks]

/-- Other files are not looked for. -/
theorem overlooks_of_ne (hne : hash ≠ h) (source : NameSource) :
    (lookingUp hash accounts dropped orphans).overlooks source h = false := by
  simp [overlooks, hne]

end PictureTask

/-- A task spares what it does not delete. -/
theorem PictureTask.spares_of_safe {task : PictureTask} {h : Hash} {source : NameSource}
    (hsafe : .hash h ∉ task.mayDelete) (hlooks : task.overlooks source h = false) : task.Spares source h := by
  have hkept : ∀ files kept : List PictureName, .hash h ∉ files.filter (· ∉ kept) →
      .hash h ∈ files → .hash h ∈ kept := by
    intro files kept hnot hmem
    by_contra hkept
    exact hnot (List.mem_filter.2 ⟨hmem, decide_eq_true hkept⟩)
  cases task with
  | listed files => trivial
  | keptHistory files kept =>
    cases source with
    | history => exact hkept files kept hsafe
    | avatar username | icon => trivial
  | keptAvatars files kept accounts =>
    cases source with
    | icon => trivial
    | history => exact hkept files kept hsafe
    | avatar username => exact .inr (hkept files kept hsafe)
  | _ => exact ⟨hsafe, hlooks⟩

namespace PictureStore

variable {s s' : PictureStore} {k : ℕ} {task task' : PictureTask} {h : Hash}

/-- The hash is named by this source. -/
def NamedBy (s : PictureStore) : NameSource → Hash → Prop
  | .history, h => ∃ message ∈ s.messages.history.records, message.stored = some h
  | .avatar username, h => s.avatars.lookup username = some (some h)
  | .icon, h => s.icon = some h

/-- A picture is named by a record, an account or the icon. -/
theorem named_iff : s.Named h ↔ ∃ source, s.NamedBy source h := by
  constructor
  · rintro (hh | ⟨username, ha⟩ | hi)
    · exact ⟨.history, hh⟩
    · exact ⟨.avatar username, ha⟩
    · exact ⟨.icon, hi⟩
  · rintro ⟨_ | username | _, hn⟩
    · exact .inl hn
    · exact .inr (.inl ⟨username, hn⟩)
    · exact .inr (.inr hn)

/-- The pictures kept for the history are those it names. -/
theorem mem_keptHistory : .hash h ∈ s.keptHistory ↔ s.NamedBy .history h := by
  unfold keptHistory
  rw [List.mem_filterMap]
  refine exists_congr fun message => and_congr_right fun _ => ?_
  rw [Option.map_eq_some_iff]
  exact ⟨fun ⟨x, hx, heq⟩ => PictureName.hash.inj heq ▸ hx, fun hx => ⟨h, hx, rfl⟩⟩

/-- The pictures kept for the accounts are those they name. -/
theorem mem_keptAvatars : .hash h ∈ s.keptAvatars ↔ ∃ username, s.NamedBy (.avatar username) h := by
  unfold keptAvatars
  rw [List.mem_filterMap]
  constructor
  · rintro ⟨⟨username, avatar⟩, hmem, hmap⟩
    obtain ⟨x, rfl, hx⟩ := Option.map_eq_some_iff.1 hmap
    obtain rfl := PictureName.hash.inj hx
    exact ⟨username, AList.mem_lookup_iff.2 hmem⟩
  · rintro ⟨username, hlookup⟩
    exact ⟨⟨username, some h⟩, AList.mem_lookup_iff.1 hlookup, rfl⟩

/-- `names_avatar` looks through all accounts. -/
theorem namesAvatar_iff : s.namesAvatar h = true ↔ ∃ username, s.NamedBy (.avatar username) h := by
  unfold namesAvatar
  rw [List.any_eq_true]
  constructor
  · rintro ⟨⟨username, avatar⟩, hmem, havatar⟩
    exact ⟨username, AList.mem_lookup_iff.2 (of_decide_eq_true havatar ▸ hmem)⟩
  · rintro ⟨username, hlookup⟩
    exact ⟨⟨username, some h⟩, AList.mem_lookup_iff.1 hlookup, decide_eq_true rfl⟩

/-- An account with an avatar is among all. -/
theorem mem_keys_of_lookup {username : String} (hn : s.NamedBy (.avatar username) h) : username ∈ s.avatars.keys :=
  AList.mem_keys.1 (AList.lookup_isSome.1 (Option.isSome_of_mem hn))

/-- A picture that no record names is looked up at the accounts. -/
theorem advance_judging (hash : Hash) (dropped orphans : List Hash) :
    s.advance (.judging (hash :: dropped) orphans) =
      if s.messages.history.records.any fun message => message.stored = some hash then
        some (s, .judging dropped orphans)
      else some (s, .lookingUp hash s.avatars.keys dropped orphans) := rfl

/-- The next account names the picture, or does not. -/
theorem advance_lookingUp (hash : Hash) (username : String) (accounts : List String) (dropped orphans : List Hash) :
    s.advance (.lookingUp hash (username :: accounts) dropped orphans) =
      if s.avatars.lookup username = some (some hash) then some (s, .judging dropped orphans)
      else some (s, .lookingUp hash accounts dropped orphans) := rfl

end PictureStore

/-! ### Tasks that do not get in each other's way -/

/-- Neither may delete what the other uses, and they do not build the same upload. -/
structure Compatible (a b : PictureTask) : Prop where
  left : ∀ file ∈ a.uses, file ∉ b.mayDelete
  right : ∀ file ∈ b.uses, file ∉ a.mayDelete
  apart : ∀ uid, .temp uid ∈ a.uses → .temp uid ∉ b.uses

/-- Tasks are compatible either way. -/
theorem Compatible.symm {a b : PictureTask} (h : Compatible a b) : Compatible b a :=
  ⟨h.right, h.left, fun uid hb ha => h.apart uid ha hb⟩

/-- A task that uses less and deletes less. -/
theorem Compatible.mono {a a' b : PictureTask} (h : Compatible a b) (huses : a'.uses ⊆ a.uses)
    (hdelete : a'.mayDelete ⊆ a.mayDelete) : Compatible a' b :=
  ⟨fun file hfile => h.left file (huses hfile), fun file hfile hmem => h.right file hfile (hdelete hmem),
    fun uid hmem => h.apart uid (huses hmem)⟩

/-- A task that uses nothing and deletes nothing. -/
theorem compatible_of_nil {a : PictureTask} (huses : a.uses = []) (hdelete : a.mayDelete = []) (b : PictureTask) :
    Compatible a b := by
  refine ⟨fun file hfile => ?_, fun file _ hfile => ?_, fun uid hfile => ?_⟩
  · rw [huses] at hfile
    cases hfile
  · rw [hdelete] at hfile
    cases hfile
  · rw [huses] at hfile
    cases hfile

namespace PictureStore

variable {s s' : PictureStore} {k : ℕ} {task task' : PictureTask} {rest : List PictureTask} {h : Hash}

/-- Every named file is there and no task goes on to delete it; every file that a task uses
is there, and no other task gets in its way. -/
structure Inv (s : PictureStore) : Prop where
  named : ∀ source h, s.NamedBy source h → .hash h ∈ s.dir
  spared : ∀ task ∈ s.tasks, ∀ source h, s.NamedBy source h → task.Spares source h
  used : ∀ task ∈ s.tasks, ∀ file ∈ task.uses, file ∈ s.dir
  compatible : s.tasks.Pairwise Compatible
  single : ∀ message ∈ s.messages.history.records, message.image = none ∨ message.voice = none
  lost : s.lost = []

/-- The invariant after one task changed. -/
theorem Inv.of_perm (hcompatible : rest.Pairwise Compatible) (htasks : s'.tasks.Perm (task' :: rest))
    (hnamed : ∀ source h, s'.NamedBy source h → .hash h ∈ s'.dir)
    (hspared : ∀ t ∈ task' :: rest, ∀ source h, s'.NamedBy source h → t.Spares source h)
    (hused : ∀ t ∈ task' :: rest, ∀ file ∈ t.uses, file ∈ s'.dir) (htask : ∀ t ∈ rest, Compatible task' t)
    (hsingle : ∀ message ∈ s'.messages.history.records, message.image = none ∨ message.voice = none)
    (hlost : s'.lost = []) : s'.Inv where
  named := hnamed
  spared t ht := hspared t (htasks.mem_iff.1 ht)
  used t ht := hused t (htasks.mem_iff.1 ht)
  compatible := (htasks.pairwise_iff Compatible.symm).2 (List.pairwise_cons.2 ⟨htask, hcompatible⟩)
  single := hsingle
  lost := hlost

/-- The directory stays, and what is named anew is there and no other task deletes it. -/
theorem Inv.same_dir (hinv : s.Inv) (hrest : rest.Sublist s.tasks) (htasks : s'.tasks.Perm (task' :: rest))
    (hdir : s'.dir = s.dir) (hlost : s'.lost = s.lost)
    (hnames : ∀ source h, s'.NamedBy source h →
      s.NamedBy source h ∨ .hash h ∈ s.dir ∧ ∀ t ∈ rest, t.Spares source h)
    (hspares : ∀ source h, s'.NamedBy source h → task'.Spares source h)
    (huses : ∀ file ∈ task'.uses, file ∈ s.dir) (htask : ∀ t ∈ rest, Compatible task' t)
    (hsingle : ∀ message ∈ s'.messages.history.records, message.image = none ∨ message.voice = none) :
    s'.Inv := by
  refine .of_perm (hinv.compatible.sublist hrest) htasks ?_ ?_ ?_ htask hsingle (hlost.trans hinv.lost)
  · intro source h hn
    rw [hdir]
    rcases hnames source h hn with hold | ⟨hmem, _⟩
    · exact hinv.named source h hold
    · exact hmem
  · intro t ht source h hn
    rcases List.mem_cons.1 ht with rfl | ht
    · exact hspares source h hn
    rcases hnames source h hn with hold | ⟨_, hsafe⟩
    · exact hinv.spared t (hrest.subset ht) source h hold
    · exact hsafe t ht
  · intro t ht file hfile
    rw [hdir]
    rcases List.mem_cons.1 ht with rfl | ht
    · exact huses file hfile
    · exact hinv.used t (hrest.subset ht) file hfile

/-- What the task that acts was before. -/
theorem Inv.compatible_rest (hinv : s.Inv) (hk : s.tasks[k]? = some task) :
    ∀ t ∈ s.tasks.eraseIdx k, Compatible task t := by
  obtain ⟨hlt, rfl⟩ := List.getElem?_eq_some_iff.1 hk
  have hperm := List.getElem_cons_eraseIdx_perm hlt
  exact (List.pairwise_cons.1 ((hperm.pairwise_iff Compatible.symm).2 hinv.compatible)).1

/-- A task goes on in its place. -/
theorem perm_goto (hk : s.tasks[k]? = some task) (result : PictureStore × PictureTask)
    (htasks : result.1.tasks = s.tasks) : (goto k result).tasks.Perm (result.2 :: s.tasks.eraseIdx k) := by
  rw [goto, htasks]
  exact List.set_perm_cons_eraseIdx (List.getElem?_eq_some_iff.1 hk).1 _

/-- A new task is one more. -/
theorem perm_spawn (result : PictureStore × PictureTask) (htasks : result.1.tasks = s.tasks) :
    (spawn result).tasks.Perm (result.2 :: s.tasks) := by
  rw [spawn, htasks]
  exact List.perm_append_singleton _ _

/-! ### The history -/

/-- The acting task uses nothing and deletes nothing any more. -/
theorem Inv.idle (hinv : s.Inv) (hrest : rest.Sublist s.tasks) (htasks : s'.tasks.Perm (task' :: rest))
    (hdir : s'.dir = s.dir) (hlost : s'.lost = s.lost) (huses : task'.uses = []) (hdelete : task'.mayDelete = [])
    (hlooks : ∀ source h, task'.overlooks source h = false)
    (hnames : ∀ source h, s'.NamedBy source h →
      s.NamedBy source h ∨ .hash h ∈ s.dir ∧ ∀ t ∈ rest, t.Spares source h)
    (hsingle : ∀ message ∈ s'.messages.history.records, message.image = none ∨ message.voice = none) : s'.Inv := by
  refine hinv.same_dir hrest htasks hdir hlost hnames ?_ ?_ (fun t _ => compatible_of_nil huses hdelete t) hsingle
  · intro source h _
    refine PictureTask.spares_of_safe ?_ (hlooks source h)
    rw [hdelete]
    exact List.not_mem_nil
  · intro file hfile
    rw [huses] at hfile
    cases hfile

/-- While nobody holds the history no task looks for a name. -/
theorem overlooks_of_free (hfree : s.held = false) (htask : task ∈ s.tasks) (source : NameSource) :
    task.overlooks source h = false := by
  have hlocks : task.locks ≠ true := fun hlocks => by
    have hheld : s.held = true := List.any_eq_true.2 ⟨task, htask, hlocks⟩
    rw [hfree] at hheld
    cases hheld
  cases task with
  | lookingUp hash accounts dropped orphans => exact absurd rfl hlocks
  | _ => rfl

/-- The records of a history after `push`: old ones, and the new one. -/
theorem mem_push {m : Messages} {limit : ℕ} {username text : String} {image : Option Hash}
    {voice : Option VoiceNote} {timestamp reply : Option U64} {message : Record}
    (hmem : message ∈ (m.push limit username text image voice timestamp reply).2.2.history.records) :
    message ∈ m.history.records ∨ message.image = image ∧ message.voice = voice := by
  unfold Messages.push at hmem
  simp only [History.takeId] at hmem
  split at hmem
  · exact .inl hmem
  · rcases List.mem_append.1 (List.mem_of_mem_drop hmem) with hold | hnew
    · exact .inl hold
    · obtain rfl := List.mem_singleton.1 hnew
      exact .inr ⟨rfl, rfl⟩

/-- The history has changed, and its dropped files are to be judged. -/
theorem Inv.pushed (hinv : s.Inv) (hfree : s.held = false) (hrest : rest.Sublist s.tasks) {dropped : List Hash}
    {messages : Messages} (htasks : s'.tasks.Perm ((s.pushed dropped messages).2 :: rest)) (hdir : s'.dir = s.dir)
    (hlost : s'.lost = s.lost) (hmessages : s'.messages = messages) (havatars : s'.avatars = s.avatars)
    (hicon : s'.icon = s.icon)
    (hrecords : ∀ message ∈ messages.history.records, message ∈ s.messages.history.records ∨
      (message.image = none ∨ message.voice = none) ∧
        ∀ h, message.stored = some h → .hash h ∈ s.dir ∧ ∀ t ∈ rest, .hash h ∉ t.mayDelete) : s'.Inv := by
  refine hinv.idle hrest htasks hdir hlost rfl rfl (fun _ _ => rfl) ?_ ?_
  · intro source h hn
    cases source with
    | history =>
      obtain ⟨message, hmem, hstored⟩ := hn
      rcases hrecords message (hmessages ▸ hmem) with hold | ⟨_, hnew⟩
      · exact .inl ⟨message, hold, hstored⟩
      · obtain ⟨hmem, hsafe⟩ := hnew h hstored
        exact .inr ⟨hmem, fun t ht =>
          PictureTask.spares_of_safe (hsafe t ht) (overlooks_of_free hfree (hrest.subset ht) .history)⟩
    | avatar username =>
      have hlookup : s'.avatars.lookup username = some (some h) := hn
      rw [havatars] at hlookup
      exact .inl hlookup
    | icon => exact .inl (hicon.symm.trans hn)
  · intro message hmem
    rw [hmessages] at hmem
    rcases hrecords message hmem with hold | ⟨hsingle, _⟩
    · exact hinv.single message hold
    · exact hsingle

/-- A stored message keeps the invariant: what it trims is judged under the history's lock. -/
theorem Inv.store (hinv : s.Inv) {limit : ℕ} {username text : String} {timestamp reply : Option U64}
    (h : s.step (.store limit username text timestamp reply) = some s') : s'.Inv := by
  simp only [step] at h
  obtain ⟨hfree, h⟩ := Option.ite_none_left_eq_some.1 h
  obtain rfl := Option.some.inj h
  refine hinv.pushed (Bool.eq_false_iff.2 hfree) (List.Sublist.refl _) (perm_spawn _ rfl) rfl rfl rfl rfl rfl ?_
  intro message hmem
  refine (mem_push hmem).imp_right fun ⟨himage, hvoice⟩ => ⟨.inl himage, fun h hstored => ?_⟩
  rw [Record.stored, himage, hvoice] at hstored
  cases hstored

/-- A deletion brings no record. -/
theorem mem_delete {m : Messages} {id : U64} {message : Record}
    (hmem : message ∈ (m.delete id).2.2.history.records) : message ∈ m.history.records := by
  unfold Messages.delete at hmem
  split at hmem
  · exact hmem
  · exact (List.eraseIdx_sublist _ _).subset hmem

/-- So does a deletion. -/
theorem Inv.delete (hinv : s.Inv) {id : U64} (h : s.step (.delete id) = some s') : s'.Inv := by
  simp only [step] at h
  obtain ⟨hfree, h⟩ := Option.ite_none_left_eq_some.1 h
  obtain rfl := Option.some.inj h
  exact hinv.pushed (Bool.eq_false_iff.2 hfree) (List.Sublist.refl _) (perm_spawn _ rfl) rfl rfl rfl rfl rfl
    fun message hmem => .inl (mem_delete hmem)

/-! ### Naming a file -/

/-- **A file that is used is named.** -/
theorem Inv.name (hinv : s.Inv) (hk : s.tasks[k]? = some task) {kind : UploadKind} {username : String}
    {hash : Hash} {kept : Bool} {post : PicturePost} (huse : .hash hash ∈ task.uses)
    (hfree : kind = .image ∨ kind = .voice → s.held = false)
    (htakes : kind = .avatar → ∀ t ∈ s.tasks.eraseIdx k, t.overlooks (.avatar username) hash = false) :
    (goto k (s.name kind username hash kept post)).Inv := by
  have hrest := List.eraseIdx_sublist s.tasks k
  have hnew : .hash hash ∈ s.dir ∧ ∀ t ∈ s.tasks.eraseIdx k, .hash hash ∉ t.mayDelete :=
    ⟨hinv.used task (List.mem_of_getElem? hk) _ huse, fun t ht => (hinv.compatible_rest hk t ht).left _ huse⟩
  have hid : (goto k ({ s with messages := s.messages.nextId.2 }, .done)).Inv :=
    hinv.idle hrest (perm_goto hk _ rfl) rfl rfl rfl rfl (fun _ _ => rfl)
      (fun source h hn => .inl (by cases source <;> exact hn)) hinv.single
  cases kind with
  | avatar =>
    refine hinv.idle hrest (perm_goto hk _ rfl) rfl rfl rfl rfl (fun _ _ => rfl) (fun source h hn => ?_) hinv.single
    cases source with
    | avatar other =>
      have hlookup : (s.avatars.insert username (some hash)).lookup other = some (some h) := hn
      rcases eq_or_ne other username with rfl | hne
      · rw [AList.lookup_insert] at hlookup
        obtain rfl := Option.some.inj (Option.some.inj hlookup)
        exact .inr ⟨hnew.1, fun t ht => PictureTask.spares_of_safe (hnew.2 t ht) (htakes rfl t ht)⟩
      · rw [AList.lookup_insert_ne hne] at hlookup
        exact .inl hlookup
    | history | icon => exact .inl hn
  | icon =>
    refine hinv.idle hrest (perm_goto hk _ rfl) rfl rfl rfl rfl (fun _ _ => rfl) (fun source h hn => ?_) hinv.single
    cases source with
    | icon =>
      obtain rfl := Option.some.inj hn
      exact .inr ⟨hnew.1, fun t ht => PictureTask.spares_of_safe (hnew.2 t ht) (PictureTask.overlooks_icon t)⟩
    | history | avatar other => exact .inl hn
  | file =>
    exact hinv.idle hrest (perm_goto hk _ rfl) rfl rfl rfl rfl (fun _ _ => rfl)
      (fun source h hn => .inl (by cases source <;> exact hn)) hinv.single
  | image =>
    cases kept with
    | false => exact hid
    | true =>
      refine hinv.pushed (hfree (.inl rfl)) hrest (perm_goto hk _ rfl) rfl rfl rfl rfl rfl fun message hmem => ?_
      refine (mem_push hmem).imp_right fun ⟨himage, hvoice⟩ => ⟨.inr hvoice, fun h hstored => ?_⟩
      rw [Record.stored, himage] at hstored
      obtain rfl := Option.some.inj hstored
      exact hnew
  | voice =>
    cases kept with
    | false => exact hid
    | true =>
      refine hinv.pushed (hfree (.inr rfl)) hrest (perm_goto hk _ rfl) rfl rfl rfl rfl rfl fun message hmem => ?_
      refine (mem_push hmem).imp_right fun ⟨himage, hvoice⟩ => ⟨.inl himage, fun h hstored => ?_⟩
      rw [Record.stored, himage, hvoice] at hstored
      obtain rfl := Option.some.inj hstored
      exact hnew

/-- A picture that is posted is in the directory. -/
theorem Inv.publish (hinv : s.Inv) {kept : Bool} {post : PicturePost} (hcond : s.Undisputed (.publish k kept post))
    (h : s.step (.publish k kept post) = some s') : s'.Inv := by
  simp only [step] at h
  split at h
  case h_2 => cases h
  rename_i kind username hash insert hk
  obtain ⟨hfree, h⟩ := Option.ite_none_left_eq_some.1 h
  obtain rfl := Option.some.inj h
  obtain ⟨hunused, -, hdrops, htakes⟩ := hcond
  unfold decides at hunused
  unfold drops at hunused hdrops
  unfold takes at htakes
  simp only [hk] at hunused hdrops htakes
  have huse : .hash hash ∈ (PictureTask.renamed kind username hash insert).uses := List.mem_singleton_self _
  unfold PictureStore.publish
  split
  · rename_i hdrop
    rw [if_pos hdrop] at hunused hdrops
    have hfree := hdrops _ (List.mem_singleton_self _)
    refine hinv.same_dir (List.eraseIdx_sublist s.tasks k) (perm_goto hk _ rfl) rfl rfl
      (fun source h hn => .inl (by cases source <;> exact hn)) ?_ (fun _ hfile => (nomatch hfile)) ?_ hinv.single
    · intro source x hn
      refine ⟨fun hmem => ?_, rfl⟩
      obtain rfl := PictureName.hash.inj (List.mem_singleton.1 hmem)
      refine hfree ?_
      unfold PictureStore.named
      rw [List.mem_append, List.mem_append]
      cases source with
      | history => exact .inl (mem_keptHistory.2 hn)
      | avatar other => exact .inr (.inl (mem_keptAvatars.2 ⟨other, hn⟩))
      | icon =>
        have hicon : s.icon = some x := hn
        rw [hicon]
        exact .inr (.inr (List.mem_singleton_self _))
    · intro t ht
      exact ⟨fun _ hfile => (nomatch hfile), fun file hfile hmem => hunused t ht file hmem hfile,
        fun _ hmem => (nomatch hmem)⟩
  · refine hinv.name hk huse (fun hkind => Bool.eq_false_iff.2 fun hheld => hfree ⟨hkind, hheld⟩) ?_
    rintro rfl
    exact htakes _ (List.mem_singleton_self _)

/-- A picture that is taken for an account or the icon is in the directory. -/
theorem Inv.use (hinv : s.Inv) {kept : Bool} {post : PicturePost} (hcond : s.Undisputed (.use k kept post))
    (h : s.step (.use k kept post) = some s') : s'.Inv := by
  simp only [step] at h
  split at h
  case h_2 => cases h
  rename_i kind username hash hk
  obtain ⟨hfree, h⟩ := Option.ite_none_left_eq_some.1 h
  obtain rfl := Option.some.inj h
  have htakes := hcond.2.2.2
  unfold takes at htakes
  simp only [hk] at htakes
  refine hinv.name hk (List.mem_singleton_self _)
    (fun hkind => Bool.eq_false_iff.2 fun hheld => hfree ⟨hkind, hheld⟩) ?_
  rintro rfl
  exact htakes _ (List.mem_singleton_self _)

/-! ### Making and finding a file -/

/-- An upload begins a file of its own. -/
theorem Inv.create (hinv : s.Inv) {uid : U64} {kind : UploadKind} {username : String}
    (hcond : s.Undisputed (.create uid kind username)) (h : s.step (.create uid kind username) = some s') :
    s'.Inv := by
  simp only [step] at h
  obtain ⟨hnew, h⟩ := Option.ite_none_right_eq_some.1 h
  obtain rfl := Option.some.inj h
  have hsafe := hcond.2.1 _ (List.mem_singleton_self _)
  have htasks := perm_spawn (s := s) ({ s with dir := .temp uid :: s.dir }, .upload uid kind username) rfl
  refine .of_perm hinv.compatible htasks ?_ ?_ ?_ ?_ hinv.single hinv.lost
  · intro source x hn
    refine List.mem_cons_of_mem _ (hinv.named source x ?_)
    cases source <;> exact hn
  · intro t ht source x hn
    rcases List.mem_cons.1 ht with rfl | ht
    · exact ⟨List.not_mem_nil, rfl⟩
    · refine hinv.spared t ht source x ?_
      cases source <;> exact hn
  · intro t ht file hfile
    rcases List.mem_cons.1 ht with rfl | ht
    · obtain rfl := List.mem_singleton.1 hfile
      exact List.mem_cons_self
    · exact List.mem_cons_of_mem _ (hinv.used t ht file hfile)
  · intro t ht
    refine ⟨fun file hfile => ?_, fun _ _ hmem => (nomatch hmem), fun uid' hmem huse => ?_⟩
    · obtain rfl := List.mem_singleton.1 hfile
      exact hsafe t ht
    · -- What another task uses is there, and the new file was not.
      obtain rfl := PictureName.temp.inj (List.mem_singleton.1 hmem)
      exact hnew.2 (hinv.used t ht _ huse)

/-- A file that is found is named. -/
theorem Inv.named_of_stored (hinv : s.Inv) {kind : UploadKind}
    (hfound : (if kind = .voice then !s.held && s.hasVoice h else s.stored h) = true) :
    ∃ source, s.NamedBy source h := by
  split at hfound
  · obtain ⟨message, hmem, hvoice⟩ := List.any_eq_true.1 (Bool.and_eq_true_iff.1 hfound).2
    refine ⟨.history, message, hmem, ?_⟩
    cases hv : message.voice with
    | none =>
      rw [hv] at hvoice
      cases hvoice
    | some voice =>
      rw [hv] at hvoice
      rcases hinv.single message hmem with himage | hnone
      · rw [Record.stored, himage, hv]
        exact congrArg some (of_decide_eq_true hvoice)
      · rw [hv] at hnone
        cases hnone
  · unfold stored at hfound
    rcases Bool.or_eq_true_iff.1 hfound with hfound | hicon
    · rcases Bool.or_eq_true_iff.1 hfound with himage | havatar
      · obtain ⟨message, hmem, hm⟩ := List.any_eq_true.1 (Bool.and_eq_true_iff.1 himage).2
        refine ⟨.history, message, hmem, ?_⟩
        rw [Record.stored, of_decide_eq_true hm]
        rfl
      · obtain ⟨username, hnamed⟩ := namesAvatar_iff.1 havatar
        exact ⟨.avatar username, hnamed⟩
    · have hicon : s.icon = some h := of_decide_eq_true hicon
      exact ⟨.icon, hicon⟩

/-- A picture that is there already is not deleted meanwhile. -/
theorem Inv.find (hinv : s.Inv) {kind : UploadKind} {username : String} {hash : Hash}
    (hcond : s.Undisputed (.find kind username hash)) (h : s.step (.find kind username hash) = some s') :
    s'.Inv := by
  simp only [step] at h
  obtain ⟨hfound, h⟩ := Option.ite_none_right_eq_some.1 h
  obtain rfl := Option.some.inj h
  have hsafe := hcond.2.1 _ (List.mem_singleton_self _)
  obtain ⟨source, hnamed⟩ := hinv.named_of_stored hfound.2
  refine hinv.same_dir (List.Sublist.refl _) (perm_spawn _ rfl) rfl rfl (fun _ _ hn => .inl hn)
    (fun _ _ _ => ⟨List.not_mem_nil, rfl⟩) ?_ ?_ hinv.single
  · intro file hfile
    obtain rfl := List.mem_singleton.1 hfile
    exact hinv.named source hash hnamed
  · intro t ht
    refine ⟨fun file hfile => ?_, fun _ _ hmem => (nomatch hmem), fun uid hmem => ?_⟩
    · obtain rfl := List.mem_singleton.1 hfile
      exact hsafe t ht
    · cases List.mem_singleton.1 hmem

/-! ### Uploads that end, and files that are deleted -/

/-- A file that is being written is in use. -/
theorem PictureTask.temp_mem_uses {uid : U64} (hbuilds : task.builds uid = true) : .temp uid ∈ task.uses := by
  cases task with
  | upload uid' kind username =>
    rw [of_decide_eq_true hbuilds]
    exact List.mem_singleton_self _
  | probed uid' kind username hash insert =>
    rw [of_decide_eq_true hbuilds]
    exact List.mem_singleton_self _
  | _ => cases hbuilds

/-- The temp file of an upload goes; no other task uses it. -/
theorem Inv.temp_gone (hinv : s.Inv) (hk : s.tasks[k]? = some task) {uid : U64} (huses : .temp uid ∈ task.uses)
    {t : PictureTask} (ht : t ∈ s.tasks.eraseIdx k) {file : PictureName} (hfile : file ∈ t.uses) :
    file ∈ s.dir.filter (· ≠ .temp uid) := by
  refine List.mem_filter.2 ⟨hinv.used t ((List.eraseIdx_sublist _ _).subset ht) file hfile, decide_eq_true ?_⟩
  rintro rfl
  exact (hinv.compatible_rest hk t ht).apart uid huses hfile

/-- A file without a hash that goes leaves the pictures. -/
theorem mem_filter_temp {dir : List PictureName} (hmem : .hash h ∈ dir) (uid : U64) :
    .hash h ∈ dir.filter (· ≠ .temp uid) :=
  List.mem_filter.2 ⟨hmem, decide_eq_true fun heq => by cases heq⟩

/-- An upload is given up, and its file deleted. -/
theorem Inv.aborted (hinv : s.Inv) (hk : s.tasks[k]? = some task) {uid : U64} (huses : .temp uid ∈ task.uses) :
    (goto k ({ s with dir := s.dir.filter (· ≠ .temp uid) }, .done)).Inv := by
  refine .of_perm (hinv.compatible.sublist (List.eraseIdx_sublist s.tasks k)) (perm_goto hk _ rfl) ?_ ?_ ?_
    (fun t _ => compatible_of_nil rfl rfl t) hinv.single hinv.lost
  · intro source x hn
    refine mem_filter_temp (hinv.named source x ?_) uid
    cases source <;> exact hn
  · intro t ht source x hn
    rcases List.mem_cons.1 ht with rfl | ht
    · exact ⟨List.not_mem_nil, rfl⟩
    · refine hinv.spared t ((List.eraseIdx_sublist _ _).subset ht) source x ?_
      cases source <;> exact hn
  · intro t ht file hfile
    rcases List.mem_cons.1 ht with rfl | ht
    · cases hfile
    · exact hinv.temp_gone hk huses ht hfile

/-- A finished file takes its hash as its name. -/
theorem Inv.rename (hinv : s.Inv) (hcond : s.Undisputed (.rename k)) (h : s.step (.rename k) = some s') :
    s'.Inv := by
  simp only [step] at h
  split at h
  case h_2 => cases h
  rename_i uid kind username hash insert hk
  have hsafe := hcond.2.1
  unfold starts at hsafe
  simp only [hk] at hsafe
  have huses : .temp uid ∈ (PictureTask.probed uid kind username hash insert).uses := List.mem_singleton_self _
  split at h
  · obtain rfl := Option.some.inj h
    refine .of_perm (hinv.compatible.sublist (List.eraseIdx_sublist s.tasks k)) (perm_goto hk _ rfl) ?_ ?_ ?_ ?_
      hinv.single hinv.lost
    · intro source x hn
      refine List.mem_cons_of_mem _ (mem_filter_temp (hinv.named source x ?_) uid)
      cases source <;> exact hn
    · intro t ht source x hn
      rcases List.mem_cons.1 ht with rfl | ht
      · exact ⟨List.not_mem_nil, rfl⟩
      · refine hinv.spared t ((List.eraseIdx_sublist _ _).subset ht) source x ?_
        cases source <;> exact hn
    · intro t ht file hfile
      rcases List.mem_cons.1 ht with rfl | ht
      · obtain rfl := List.mem_singleton.1 hfile
        exact List.mem_cons_self
      · exact List.mem_cons_of_mem _ (hinv.temp_gone hk huses ht hfile)
    · intro t ht
      refine ⟨fun file hfile => ?_, fun _ _ hmem => (nomatch hmem), fun uid hmem => ?_⟩
      · obtain rfl := List.mem_singleton.1 hfile
        exact hsafe _ (List.mem_singleton_self _) t ht
      · cases List.mem_singleton.1 hmem
  · obtain rfl := Option.some.inj h
    exact hinv.idle (List.eraseIdx_sublist s.tasks k) (perm_goto hk _ rfl) rfl rfl rfl rfl (fun _ _ => rfl)
      (fun _ _ hn => .inl hn) hinv.single

/-- **A task deletes a file it had decided to delete.** -/
theorem Inv.deleted (hinv : s.Inv) (hk : s.tasks[k]? = some task) {file : PictureName}
    (hfile : file ∈ task.mayDelete) (hnone : task.uses = []) (hnone' : task'.uses = [])
    (hdelete : task'.mayDelete ⊆ task.mayDelete) (hlooks : ∀ source h, task'.overlooks source h = false)
    (hspares : ∀ source h, s.NamedBy source h → .hash h ∉ task.mayDelete) :
    (goto k (s.delete file, task')).Inv := by
  have hrest := List.eraseIdx_sublist s.tasks k
  have hsame : ∀ source h, (goto k (s.delete file, task')).NamedBy source h → s.NamedBy source h := by
    intro source h hn
    cases source <;> exact hn
  refine .of_perm (hinv.compatible.sublist hrest) (perm_goto hk _ rfl) ?_ ?_ ?_ ?_ hinv.single ?_
  · intro source x hn
    have hn := hsame source x hn
    refine List.mem_filter.2 ⟨hinv.named source x hn, decide_eq_true ?_⟩
    rintro rfl
    exact hspares source x hn hfile
  · intro t ht source x hn
    have hn := hsame source x hn
    rcases List.mem_cons.1 ht with rfl | ht
    · exact PictureTask.spares_of_safe (fun hmem => hspares source x hn (hdelete hmem)) (hlooks source x)
    · exact hinv.spared t (hrest.subset ht) source x hn
  · intro t ht other hother
    rcases List.mem_cons.1 ht with rfl | hmem
    · rw [hnone'] at hother
      cases hother
    · refine List.mem_filter.2 ⟨hinv.used t (hrest.subset hmem) other hother, decide_eq_true ?_⟩
      rintro rfl
      exact (hinv.compatible_rest hk t hmem).right _ hother hfile
  · intro t ht
    refine (hinv.compatible_rest hk t ht).mono ?_ hdelete
    rw [hnone']
    exact List.nil_subset _
  · -- No task builds the upload whose file is deleted.
    have hkept : (s.delete file).lost = s.lost := by
      unfold PictureStore.delete
      split
      · rename_i uid
        refine if_neg ?_
        rintro ⟨_, hany⟩
        obtain ⟨t, ht, hbuilds⟩ := List.any_eq_true.1 hany
        have huses := PictureTask.temp_mem_uses hbuilds
        obtain ⟨hlt, rfl⟩ := List.getElem?_eq_some_iff.1 hk
        rcases List.mem_cons.1 ((List.getElem_cons_eraseIdx_perm hlt).mem_iff.2 ht) with rfl | ht
        · rw [hnone] at huses
          cases huses
        · exact (hinv.compatible_rest hk t ht).right _ huses hfile
      · rfl
    exact hkept.trans hinv.lost

/-! ### A sweep -/

/-- The more is kept, the less is deleted. -/
theorem filter_kept_subset (files kept more : List PictureName) :
    files.filter (· ∉ kept ++ more) ⊆ files.filter (· ∉ kept) := by
  intro file hfile
  obtain ⟨hmem, hnot⟩ := List.mem_filter.1 hfile
  exact List.mem_filter.2 ⟨hmem, decide_eq_true fun h => of_decide_eq_true hnot (List.mem_append_left _ h)⟩

/-- The sweep goes on without deleting anything. -/
theorem Inv.collected (hinv : s.Inv) (hk : s.tasks[k]? = some task) (hnone : task'.uses = [])
    (hdelete : task'.mayDelete ⊆ task.mayDelete)
    (hspares : ∀ source h, s.NamedBy source h → task'.Spares source h) : (goto k (s, task')).Inv := by
  refine hinv.same_dir (List.eraseIdx_sublist s.tasks k) (perm_goto hk _ rfl) rfl rfl (fun _ _ hn => .inl hn)
    hspares ?_ ?_ hinv.single
  · intro file hfile
    rw [hnone] at hfile
    cases hfile
  · intro t ht
    refine (hinv.compatible_rest hk t ht).mono ?_ hdelete
    rw [hnone]
    exact List.nil_subset _

/-! ### A lookup -/

/-- **The last lookup decides**: nothing names the file. -/
theorem Inv.decided (hinv : s.Inv) {hash : Hash} {dropped orphans : List Hash}
    (hk : s.tasks[k]? = some (.lookingUp hash [] dropped orphans)) (hicon : s.icon ≠ some hash)
    (hunused : Unused (s.tasks.eraseIdx k) [.hash hash]) :
    (goto k (s, .judging dropped (orphans ++ [hash]))).Inv := by
  have hspared := hinv.spared _ (List.mem_of_getElem? hk)
  refine hinv.same_dir (List.eraseIdx_sublist s.tasks k) (perm_goto hk _ rfl) rfl rfl (fun _ _ hn => .inl hn)
    (fun source h hn => ?_) (fun _ hfile => (nomatch hfile)) (fun t ht => ?_) hinv.single
  · obtain ⟨hsafe, hlooks⟩ := hspared source h hn
    refine ⟨fun hmem => ?_, rfl⟩
    obtain ⟨x, hx, heq⟩ := List.mem_map.1 hmem
    obtain rfl := PictureName.hash.inj heq
    rcases List.mem_append.1 hx with hold | hnew
    · exact hsafe (List.mem_map_of_mem hold)
    · -- It is not in the history, which is held, of no account, as each was looked up, and not the icon.
      obtain rfl := List.mem_singleton.1 hnew
      cases source with
      | history =>
        rw [PictureTask.overlooks_history] at hlooks
        cases hlooks
      | avatar username => exact List.not_mem_nil (PictureTask.overlooks_avatar.1 hlooks)
      | icon => exact hicon hn
  · refine ⟨fun _ hfile => (nomatch hfile), fun file hfile hmem => ?_, fun _ hmem => (nomatch hmem)⟩
    obtain ⟨x, hx, rfl⟩ := List.mem_map.1 hmem
    rcases List.mem_append.1 hx with hold | hnew
    · exact (hinv.compatible_rest hk t ht).right _ hfile (List.mem_map_of_mem hold)
    · obtain rfl := List.mem_singleton.1 hnew
      exact hunused t ht _ (List.mem_singleton_self _) hfile

/-- A lookup goes on: what is named is named by what is still to be looked up. -/
theorem Inv.looked (hinv : s.Inv) (hk : s.tasks[k]? = some task) {hash : Hash} {accounts : List String}
    {dropped orphans : List Hash} (hdelete : task.mayDelete = orphans.map .hash)
    (hspared : ∀ source h, s.NamedBy source h → .hash h ∉ task.mayDelete)
    (hhistory : ¬s.NamedBy .history hash)
    (havatar : ∀ username, s.NamedBy (.avatar username) hash → username ∈ accounts) :
    (goto k (s, .lookingUp hash accounts dropped orphans)).Inv := by
  refine hinv.collected hk rfl (fun file hfile => hdelete ▸ hfile) fun source h hn => ?_
  refine ⟨fun hmem => hspared source h hn (hdelete ▸ hmem), ?_⟩
  rcases eq_or_ne hash h with rfl | hne
  · cases source with
    | history => exact absurd hn hhistory
    | avatar username => exact PictureTask.overlooks_avatar.2 (havatar username hn)
    | icon => exact PictureTask.overlooks_icon _
  · exact PictureTask.overlooks_of_ne hne source

/-- Every step of a task keeps the invariant. -/
theorem Inv.advance (hinv : s.Inv) (hcond : s.Undisputed (.advance k)) (h : s.step (.advance k) = some s') :
    s'.Inv := by
  obtain ⟨task, hk, h⟩ := Option.bind_eq_some_iff.1 h
  obtain ⟨result, hresult, h⟩ := Option.bind_eq_some_iff.1 h
  obtain rfl := Option.some.inj h
  have hspared := hinv.spared task (List.mem_of_getElem? hk)
  have hdone : (goto k (s, .done)).Inv := hinv.collected hk rfl (List.nil_subset _)
    fun _ _ _ => ⟨List.not_mem_nil, rfl⟩
  have hunused := hcond.1
  unfold decides at hunused
  simp only [hk] at hunused
  cases task with
  | sweep =>
    obtain rfl := Option.some.inj hresult
    split
    · exact hdone
    · -- The directory is listed; no other task uses a file of it.
      refine hinv.same_dir (List.eraseIdx_sublist s.tasks k) (perm_goto hk _ rfl) rfl rfl (fun _ _ hn => .inl hn)
        (fun _ _ _ => trivial) (fun _ hfile => (nomatch hfile)) (fun t ht => ?_) hinv.single
      exact ⟨fun _ hfile => (nomatch hfile), fun file hfile hmem => hunused t ht file hmem hfile,
        fun _ hmem => (nomatch hmem)⟩
  | listed files =>
    obtain ⟨-, hresult⟩ := Option.ite_none_left_eq_some.1 hresult
    obtain rfl := Option.some.inj hresult
    refine hinv.collected hk rfl (List.filter_subset_self _) fun source h hn => ?_
    cases source with
    | history => exact fun _ => mem_keptHistory.2 hn
    | avatar username | icon => trivial
  | keptHistory files kept =>
    obtain rfl := Option.some.inj hresult
    refine hinv.collected hk rfl (fun _ hfile => hfile) fun source h hn => ?_
    cases source with
    | history => exact hspared .history h hn
    | avatar username => exact .inl (mem_keys_of_lookup hn)
    | icon => trivial
  | keptAvatars files kept accounts =>
    cases accounts with
    | nil =>
      obtain rfl := Option.some.inj hresult
      refine hinv.collected hk rfl (filter_kept_subset files kept _) fun source h hn => ⟨fun hmem => ?_, rfl⟩
      obtain ⟨hmem, hnot⟩ := List.mem_filter.1 hmem
      refine of_decide_eq_true hnot ?_
      cases source with
      | history => exact List.mem_append_left _ (hspared .history h hn hmem)
      | avatar username =>
        exact List.mem_append_left _ ((hspared (.avatar username) h hn).resolve_left List.not_mem_nil hmem)
      | icon =>
        have hicon : s.icon = some h := hn
        rw [hicon]
        exact List.mem_append_right _ (List.mem_singleton_self _)
    | cons looked accounts =>
      obtain rfl := Option.some.inj hresult
      refine hinv.collected hk rfl (filter_kept_subset files kept _) fun source x hn => ?_
      cases source with
      | history => exact fun hmem => List.mem_append_left _ (hspared .history x hn hmem)
      | avatar username =>
        rcases hspared (.avatar username) x hn with hleft | hkept
        · rcases List.mem_cons.1 hleft with rfl | hleft
          · have hlookup : s.avatars.lookup username = some (some x) := hn
            refine .inr fun _ => List.mem_append_right _ ?_
            rw [hlookup]
            exact List.mem_singleton_self _
          · exact .inl hleft
        · exact .inr fun hmem => List.mem_append_left _ (hkept hmem)
      | icon => trivial
  | judging dropped orphans =>
    cases dropped with
    | nil =>
      obtain rfl := Option.some.inj hresult
      exact hinv.collected hk rfl (fun _ hfile => hfile) hspared
    | cons hash dropped =>
      rw [advance_judging] at hresult
      split at hresult
      · obtain rfl := Option.some.inj hresult
        exact hinv.collected hk rfl (fun _ hfile => hfile) hspared
      · rename_i hrecords
        obtain rfl := Option.some.inj hresult
        refine hinv.looked hk rfl (fun source h hn => (hspared source h hn).1) ?_ fun _ hn => mem_keys_of_lookup hn
        rintro ⟨message, hmem, hstored⟩
        exact hrecords (List.any_eq_true.2 ⟨message, hmem, decide_eq_true hstored⟩)
  | lookingUp hash accounts dropped orphans =>
    have hsame : ∀ orphans', orphans' = orphans → (goto k (s, .judging dropped orphans')).Inv := by
      rintro _ rfl
      exact hinv.collected hk rfl (fun _ hfile => hfile) fun source h hn => ⟨(hspared source h hn).1, rfl⟩
    cases accounts with
    | nil =>
      obtain rfl := Option.some.inj hresult
      by_cases hicon : s.icon = some hash
      · rw [if_pos hicon]
        exact hsame _ rfl
      · simp only [if_neg hicon] at hunused ⊢
        exact hinv.decided hk hicon hunused
    | cons looked accounts =>
      rw [advance_lookingUp] at hresult
      split at hresult
      · obtain rfl := Option.some.inj hresult
        exact hsame _ rfl
      · rename_i hother
        obtain rfl := Option.some.inj hresult
        refine hinv.looked hk rfl (fun source h hn => (hspared source h hn).1) (fun hn => ?_) fun username hn => ?_
        · have hlooks := (hspared .history hash hn).2
          rw [PictureTask.overlooks_history] at hlooks
          cases hlooks
        · have hleft := PictureTask.overlooks_avatar.1 (hspared (.avatar username) hash hn).2
          rcases List.mem_cons.1 hleft with rfl | hleft
          · exact absurd hn hother
          · exact hleft
  | sweeping files =>
    cases files with
    | nil =>
      obtain rfl := Option.some.inj hresult
      exact hdone
    | cons file rest =>
      obtain rfl := Option.some.inj hresult
      exact hinv.deleted hk List.mem_cons_self rfl rfl (List.subset_cons_self _ _) (fun _ _ => rfl)
        fun source h hn => (hspared source h hn).1
  | removing orphans =>
    cases orphans with
    | nil =>
      obtain rfl := Option.some.inj hresult
      exact hdone
    | cons hash rest =>
      obtain rfl := Option.some.inj hresult
      exact hinv.deleted hk List.mem_cons_self rfl rfl (List.subset_cons_self _ _) (fun _ _ => rfl)
        fun source h hn => (hspared source h hn).1
  | dropping hash =>
    obtain rfl := Option.some.inj hresult
    exact hinv.deleted hk List.mem_cons_self rfl rfl (List.nil_subset _) (fun _ _ => rfl)
      fun source h hn => (hspared source h hn).1
  | upload | probed | renamed | found | done => cases hresult

/-! ### Every run -/

/-- **Every action that is undisputed keeps the invariant.** -/
theorem Inv.step (hinv : s.Inv) {action : PictureAction} (hcond : s.Undisputed action)
    (h : s.step action = some s') : s'.Inv := by
  cases action with
  | create uid kind username => exact hinv.create hcond h
  | abort k =>
    simp only [PictureStore.step] at h
    split at h
    · rename_i hk
      obtain rfl := Option.some.inj h
      exact hinv.aborted hk (List.mem_singleton_self _)
    · rename_i hk
      obtain rfl := Option.some.inj h
      exact hinv.aborted hk (List.mem_singleton_self _)
    · cases h
  | probe k hash =>
    simp only [PictureStore.step] at h
    split at h
    case h_2 => cases h
    rename_i hk
    obtain rfl := Option.some.inj h
    refine hinv.same_dir (List.eraseIdx_sublist s.tasks k) (perm_goto hk _ rfl) rfl rfl (fun _ _ hn => .inl hn)
      (fun _ _ _ => ⟨List.not_mem_nil, rfl⟩) ?_ ?_ hinv.single
    · intro file hfile
      exact hinv.used _ (List.mem_of_getElem? hk) file hfile
    · exact fun t ht => (hinv.compatible_rest hk t ht).mono (fun _ h => h) (fun _ h => h)
  | rename k => exact hinv.rename hcond h
  | publish k kept post => exact hinv.publish hcond h
  | find kind username hash => exact hinv.find hcond h
  | refuse k =>
    simp only [PictureStore.step] at h
    split at h
    case h_2 => cases h
    rename_i hk
    obtain rfl := Option.some.inj h
    exact hinv.idle (List.eraseIdx_sublist s.tasks k) (perm_goto hk _ rfl) rfl rfl rfl rfl (fun _ _ => rfl)
      (fun _ _ hn => .inl hn) hinv.single
  | use k kept post => exact hinv.use hcond h
  | store limit username text timestamp reply => exact hinv.store h
  | delete id => exact hinv.delete h
  | dropAvatar username =>
    obtain rfl := Option.some.inj h
    refine hinv.idle (List.Sublist.refl _) (perm_spawn _ rfl) rfl rfl rfl rfl (fun _ _ => rfl)
      (fun source x hn => .inl ?_) hinv.single
    cases source with
    | avatar other =>
      have hlookup : (s.avatars.insert username none).lookup other = some (some x) := hn
      rcases eq_or_ne other username with rfl | hne
      · rw [AList.lookup_insert] at hlookup
        cases hlookup
      · rw [AList.lookup_insert_ne hne] at hlookup
        exact hlookup
    | history | icon => exact hn
  | dropIcon =>
    obtain rfl := Option.some.inj h
    refine hinv.idle (List.Sublist.refl _) (perm_spawn _ rfl) rfl rfl rfl rfl (fun _ _ => rfl)
      (fun source x hn => .inl ?_) hinv.single
    cases source with
    | icon => cases hn
    | history | avatar other => exact hn
  | removeUser username =>
    obtain rfl := Option.some.inj h
    refine hinv.idle (List.Sublist.refl _) (perm_spawn _ rfl) rfl rfl rfl rfl (fun _ _ => rfl)
      (fun source x hn => .inl ?_) hinv.single
    cases source with
    | avatar other =>
      have hlookup : (s.avatars.erase username).lookup other = some (some x) := hn
      rcases eq_or_ne other username with rfl | hne
      · rw [AList.lookup_erase] at hlookup
        cases hlookup
      · rw [AList.lookup_erase_ne hne] at hlookup
        exact hlookup
    | history | icon => exact hn
  | sweep =>
    obtain rfl := Option.some.inj h
    exact hinv.idle (List.Sublist.refl _) (perm_spawn _ rfl) rfl rfl rfl rfl (fun _ _ => rfl)
      (fun _ _ hn => .inl hn) hinv.single
  | advance k => exact hinv.advance hcond h

/-- A server that starts on a directory with all named pictures has the invariant. -/
theorem start_inv {dir : List PictureName} {records : List Record} {avatars : AList fun _ : String => Option Hash}
    {icon : Option Hash} (hnamed : ∀ h, (start dir records avatars icon).Named h → .hash h ∈ dir)
    (hsingle : ∀ message ∈ records, message.image = none ∨ message.voice = none) :
    (start dir records avatars icon).Inv where
  named source h hn := hnamed h (named_iff.2 ⟨source, hn⟩)
  spared _ h := nomatch h
  used _ h := nomatch h
  compatible := List.Pairwise.nil
  single := hsingle
  lost := rfl

/-- **Every named file is there, and no upload loses its file**, in every run in which no
task decides to delete a file that another one goes on to use, none starts to use a file
that another may go on to delete, and a picture that is not kept is not named by then.  The
run starts from a store in which every named file is there. -/
theorem pictures_complete (dir : List PictureName) (records : List Record)
    (avatars : AList fun _ : String => Option Hash) (icon : Option Hash)
    (hnamed : ∀ h, (start dir records avatars icon).Named h → .hash h ∈ dir)
    (hsingle : ∀ message ∈ records, message.image = none ∨ message.voice = none)
    (actions : List PictureAction) {s : PictureStore}
    (hmeets : Meets step Undisputed (start dir records avatars icon) actions)
    (hrun : exec step (start dir records avatars icon) actions = some s) : s.Complete := by
  have hstart := start_inv hnamed hsingle
  have hinv : s.Inv := exec_induct (fun _ _ _ hinv => hinv.step) hstart hmeets hrun
  refine ⟨fun _ h hn => ?_, hinv.lost⟩
  obtain ⟨source, hn⟩ := named_iff.1 hn
  exact hinv.named source h hn

/-- A picture in the history, which another user takes as a profile picture and which is then trimmed
from the history, while a second picture is being uploaded; after that upload the profile picture is
dropped and the directory swept.  The second picture is trimmed by a third, and nothing else names
it. -/
def taken : List PictureAction :=
  List.flatten [
    [.create 5 .image "anna", .probe 0 (.replicate 32 1), .rename 0, .publish 0 true ⟨1, "a", 0, none⟩],
    .replicate 2 (.advance 0),
    [.find .avatar "ben" (.replicate 32 1), .use 1 true ⟨1, "", 0, none⟩], .replicate 6 (.advance 1),
    [.create 6 .image "anna", .store 1 "anna" "text" none none], .replicate 4 (.advance 3),
    [.probe 2 (.replicate 32 2), .rename 2, .publish 2 true ⟨1, "b", 0, none⟩], .replicate 2 (.advance 2),
    [.dropAvatar "ben"], .replicate 7 (.advance 4),
    [.create 7 .image "carl", .probe 5 (.replicate 32 3), .rename 5, .publish 5 true ⟨1, "c", 0, none⟩],
    .replicate 6 (.advance 5)]

/-- The theorem on that run: only the third picture is left. -/
theorem pictures_complete_taken : ∃ s : PictureStore,
    exec step (start [] [] ∅ none) taken = some s ∧ Meets step Undisputed (start [] [] ∅ none) taken ∧
      s.Complete ∧ s.dir = [.hash (.replicate 32 3)] := by
  have hvalues : (exec step (start [] [] ∅ none) taken).map (·.dir) = some [.hash (.replicate 32 3)] := by
    decide +kernel
  obtain ⟨s, hs, hdir⟩ := Option.map_eq_some_iff.1 hvalues
  have hmeets : Meets step Undisputed (start [] [] ∅ none) taken := by decide +kernel
  refine ⟨s, hs, hmeets, pictures_complete [] [] ∅ none ?_ ?_ taken hmeets hs, hdir⟩
  · rintro h (⟨message, hmem, _⟩ | ⟨username, hlookup⟩ | hicon)
    · cases hmem
    · cases hlookup
    · cases hicon
  · intro message hmem
    cases hmem

end PictureStore

end Why2
