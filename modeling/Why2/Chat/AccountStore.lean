/-
# The account store

`chat/src/config/users.rs` keeps the accounts in `server_users.toml`, one table
per username with the profile in a subtable of its own.  Each setter takes the
lock of the file for one field and makes the entry when there is none
(`Users.writeUserField`, `Users.writeProfileField`), so a registration is nine
writes and a deletion is one, and the writes of one operation may fall between
those of another.  The writers are the sessions, which do one request after the
other, and the uploads of profile pictures, which remember the username and write
when the last byte has come (`chat/src/network/file/server.rs`), whatever has become
of the account by then: a deletion takes the entry out of the file first, and ends the
session with its uploads later.

An update that lands after the account was deleted makes an entry of its own:
a table with a picture and no password and no role (`deleted_account_back`).
When every update finds its account still there, every entry is whole between
the operations and a deleted account stays away until it is registered again
(`accounts_whole`).
-/

import Why2.Chat.Moderation
import Why2.Chat.Text
import Why2.Lib.Runs

namespace Why2

open Lib

/-! ### The names of the roles and the colors -/

/-- `Role::name`. -/
def Role.name : Role → String
  | .user => "user"
  | .moderator => "moderator"
  | .owner => "owner"

/-- `Role::ALL`. -/
def Role.all : List Role := [.user, .moderator, .owner]

/-- `str::eq_ignore_ascii_case`. -/
def eqIgnoreAsciiCase (a b : String) : Bool := a.toList.map Char.toLower = b.toList.map Char.toLower

/-- `Role::from_str`. -/
def Role.fromStr (text : String) : Option Role :=
  Role.all.find? fun role => eqIgnoreAsciiCase role.name (trim text)

/-- The name of a role is read back as the role. -/
theorem Role.fromStr_name (role : Role) : Role.fromStr role.name = some role := by
  cases role <;> decide +kernel

/-- `colors::COLORS`. -/
def colorNames : List String :=
  ["black", "dark_red", "dark_green", "dark_yellow", "dark_blue", "dark_magenta", "dark_cyan", "grey",
    "dark_grey", "red", "green", "yellow", "blue", "magenta", "cyan", "white"]

/-- `colors::NONE`. -/
def noColor : String := "none"

/-- `colors::name`. -/
def colorName (code : Option U8) : String :=
  (code.bind fun code => colorNames[code.toNat]?).getD noColor

/-- `misc::hex`. -/
def hex (bytes : List U8) : String :=
  String.ofList (bytes.flatMap fun b => [Nat.digitChar (b.toNat / 16), Nat.digitChar (b.toNat % 16)])

/-! ### The file -/

/-- The table of an account: its strings, and those of the subtable `profile`. -/
structure UserEntry where
  fields : AList fun _ : String => String
  profile : Option (AList fun _ : String => String)

namespace UserEntry

/-- A table with nothing in it. -/
def new : UserEntry := ⟨∅, none⟩

/-- The hash of the password. -/
def password (entry : UserEntry) : Option String := entry.fields.lookup "password"

/-- The role, when it is one the server knows. -/
def role (entry : UserEntry) : Option Role := (entry.fields.lookup "role").bind Role.fromStr

/-- The entry of a user who can log in: a password hash and a role. -/
def Whole (entry : UserEntry) : Prop := entry.password.isSome ∧ entry.role.isSome

instance (entry : UserEntry) : Decidable entry.Whole := inferInstanceAs (Decidable (_ ∧ _))

end UserEntry

/-- `server_users.toml`. -/
abbrev Users := AList fun _ : String => UserEntry

namespace Users

/-- `COLOR_KEYS`. -/
def colorKeys : List String := ["username_color", "message_color"]

/-- `PROFILE_KEYS`. -/
def profileKeys : List String := ["bio", "pronouns", "website", "status"]

/-- `AVATAR_KEY`. -/
def avatarKey : String := "avatar"

/-- `password`. -/
def password (users : Users) (username : String) : Option String :=
  (users.lookup username).bind UserEntry.password

/-- `role`. -/
def role (users : Users) (username : String) : Option Role :=
  (users.lookup username).bind UserEntry.role

/-- `contains`. -/
def contains (users : Users) (username : String) : Bool := (users.lookup username).isSome

/-- `len`. -/
def len (users : Users) : ℕ := users.entries.length

/-- `write_user_field`. -/
def writeUserField (users : Users) (username key value : String) : Users :=
  let entry := (users.lookup username).getD .new
  users.insert username { entry with fields := entry.fields.insert key value }

/-- `write_profile_field`. -/
def writeProfileField (users : Users) (username key value : String) : Users :=
  let entry := (users.lookup username).getD .new
  users.insert username { entry with profile := some ((entry.profile.getD ∅).insert key value) }

/-- `remove`. -/
def remove (users : Users) (username : String) : Users := users.erase username

/-- Every account has a password hash and a role. -/
def Whole (users : Users) : Prop := ∀ username entry, users.lookup username = some entry → entry.Whole

end Users

/-- What one locked access does to the entry of an account. -/
inductive Change
  | userField (key value : String)
  | profileField (key value : String)
  | remove
deriving DecidableEq

/-- One locked access to the file.  `registers` marks the first one of a registration. -/
structure Write where
  account : String
  change : Change
  registers : Bool
deriving DecidableEq

/-- The file after the access. -/
def Users.apply (users : Users) (w : Write) : Users :=
  match w.change with
  | .userField key value => users.writeUserField w.account key value
  | .profileField key value => users.writeProfileField w.account key value
  | .remove => users.remove w.account

namespace Write

/-- `set_avatar`. -/
def setAvatar (username : String) (hash : Option (List U8)) : Write :=
  ⟨username, .profileField Users.avatarKey ((hash.map hex).getD ""), false⟩

/-- `set_profile`, of the fields in the order of `PROFILE_KEYS`. -/
def setProfile (username bio pronouns website status : String) : List Write :=
  (Users.profileKeys.zip [bio, pronouns, website, status]).map fun (key, value) =>
    ⟨username, .profileField key value, false⟩

/-- `set_color`. -/
def setColor (username : String) (usernameColor : Bool) (code : U8) : Write :=
  ⟨username, .userField (Users.colorKeys.getD (!usernameColor).toNat "") (colorName (some code)), false⟩

/-- `set_role`. -/
def setRole (username : String) (role : Role) : Write := ⟨username, .userField "role" role.name, false⟩

/-- `set_password`. -/
def setPassword (username hash : String) : Write := ⟨username, .userField "password" hash, false⟩

/-- `add`, once it has seen whether this is the first user. -/
def add (username hash : String) (firstUser : Bool) : List Write :=
  { setPassword username hash with registers := true }
    :: setRole username (if firstUser then .owner else .user)
    :: Users.colorKeys.map (fun key => ⟨username, .userField key noColor, false⟩)
    ++ Users.profileKeys.map (fun key => ⟨username, .profileField key "", false⟩)
    ++ [setAvatar username none]

end Write

/-! ### The writers -/

/-- What a writer is at: a connection asked for the password of a new account, a session,
the upload of a profile picture, or over. -/
inductive Stage
  | registering
  | serving
  | uploading
  | closed
deriving DecidableEq

/-- A session or an upload, with the accesses that are left of its operation. -/
structure Worker where
  username : String
  stage : Stage
  pending : List Write
deriving DecidableEq

/-- The requests that end in a write.  `hash` is that of the new password, `own` the rank the
session holds, and `target` the user the request names. -/
inductive AccountRequest
  | accountPasswdRequest (hash : String)
  | accountDeleteRequest
  | colorRequest (usernameColor : Bool) (color : U8)
  | profileRequest (bio pronouns website status : String)
  | avatarRequest (hash : Option (List U8))
  | serverRoleRequest (own : Role) (target : String) (role : Role)

/-- What the server can do next.  A `write` is one access to the file by the writer `i`;
every other action checks what the code checks and leaves the accesses pending.  That a
name is in use by one connection at most is no matter of the store and not asked here. -/
inductive AccountAction
  | connect (username : String)
  | register (i : ℕ) (hash : String)
  | request (i : ℕ) (request : AccountRequest)
  | upload (i : ℕ)
  | uploaded (i : ℕ) (hash : List U8)
  | close (i : ℕ)
  | write (i : ℕ)

/-- The file and its writers.  `deleted` lists the usernames whose deletion has completed and
that no registration has made again. -/
structure AccountServer where
  users : Users
  workers : List Worker
  deleted : List String

namespace AccountServer

/-- The server before the first connection. -/
def start (users : Users) : AccountServer := ⟨users, [], []⟩

/-- A new writer. -/
def spawn (s : AccountServer) (worker : Worker) : AccountServer :=
  { s with workers := s.workers ++ [worker] }

/-- Writer `i` at another stage, with these accesses to do. -/
def put (s : AccountServer) (i : ℕ) (worker : Worker) : AccountServer :=
  { s with workers := s.workers.set i worker }

/-- Writer `i`, when it is at this stage and has finished its last operation. -/
def idle (s : AccountServer) (i : ℕ) (stage : Stage) : Option Worker :=
  s.workers[i]?.filter fun worker => worker.stage = stage && worker.pending.isEmpty

/-- The accesses a request leads to, and `none` where it is refused: a password has to be
verified against the stored one, and a new role is for a user with a lower one. -/
def accepted (users : Users) (username : String) : AccountRequest → Option (List Write)
  | .accountPasswdRequest hash =>
    if (users.password username).isSome then some [.setPassword username hash] else none
  | .accountDeleteRequest =>
    if (users.password username).isSome then some [⟨username, .remove, false⟩] else none
  | .colorRequest usernameColor color => some [.setColor username usernameColor color]
  | .profileRequest bio pronouns website status =>
    some (Write.setProfile username bio pronouns website status)
  | .avatarRequest hash => some [.setAvatar username hash]
  | .serverRoleRequest own target role =>
    if own < .owner ∨ own < role ∨ target = username then none
    else match users.role target with
      | none => none
      | some targetRole => if own ≤ targetRole ∨ targetRole = role then none else some [.setRole target role]

/-- A session ends with the deletion of its account. -/
def stageAfter : AccountRequest → Stage
  | .accountDeleteRequest => .closed
  | _ => .serving

/-- One access by the file's lock: it is done, and the rest stays pending. -/
def write (s : AccountServer) (i : ℕ) (worker : Worker) (w : Write) (rest : List Write) :
    AccountServer where
  users := s.users.apply w
  workers := s.workers.set i { worker with pending := rest }
  deleted :=
    if w.change = .remove then w.account :: s.deleted
    else if w.registers then s.deleted.filter (· ≠ w.account)
    else s.deleted

/-- One action of the server. -/
def step (s : AccountServer) : AccountAction → Option AccountServer
  | .connect username =>
    if s.users.contains username then
      if (s.users.password username).isSome then some (s.spawn ⟨username, .serving, []⟩) else none
    else some (s.spawn ⟨username, .registering, []⟩)
  | .register i hash =>
    (s.idle i .registering).map fun worker =>
      s.put i ⟨worker.username, .serving, Write.add worker.username hash (s.users.len = 0)⟩
  | .request i request =>
    (s.idle i .serving).bind fun worker =>
      (accepted s.users worker.username request).map fun writes =>
        s.put i ⟨worker.username, stageAfter request, writes⟩
  | .upload i =>
    (s.workers[i]?.filter fun worker => worker.stage = .serving).map fun worker =>
      s.spawn ⟨worker.username, .uploading, []⟩
  | .uploaded i hash =>
    (s.idle i .uploading).map fun worker =>
      s.put i ⟨worker.username, .closed, [.setAvatar worker.username (some hash)]⟩
  | .close i =>
    (s.workers[i]?.filter fun worker => worker.pending.isEmpty).map fun worker =>
      s.put i ⟨worker.username, .closed, []⟩
  | .write i =>
    match s.workers[i]? with
    | some worker =>
      match worker.pending with
      | w :: rest => some (s.write i worker w rest)
      | [] => none
    | none => none

/-- No operation is in progress. -/
def Quiet (s : AccountServer) : Prop := ∀ worker ∈ s.workers, worker.pending = []

/-- Between the operations every entry is whole, and a deleted account has no entry until it
is registered again. -/
def Sound (s : AccountServer) : Prop :=
  (s.Quiet → s.users.Whole) ∧ ∀ username ∈ s.deleted, s.users.contains username = false

/-! ### A deleted account comes back -/

/-- One account, of an owner. -/
def oneUser : Users :=
  AList.insert "alice" ⟨AList.insert "role" "owner" (AList.insert "password" "hash" ∅), none⟩ ∅

/-- The account is deleted while the upload of its picture goes on. -/
def lateUpload : List AccountAction :=
  [.connect "alice", .upload 0, .request 0 .accountDeleteRequest, .write 0, .uploaded 1 [0xab], .write 1]

/-- The account is whole. -/
theorem oneUser_whole : oneUser.Whole := by
  intro username entry hentry
  by_cases h : username = "alice"
  · rw [h, oneUser, AList.lookup_insert] at hentry
    obtain rfl := Option.some.inj hentry
    decide +kernel
  · rw [oneUser, AList.lookup_insert_ne h] at hentry
    cases hentry

/-- **An account comes back after its deletion.**  The upload of a picture outlives the session
that deletes the account, and its last write makes an entry without a password. -/
theorem deleted_account_back :
    ¬∀ (users : Users) (actions : List AccountAction) (s : AccountServer), users.Whole →
      exec step (start users) actions = some s → s.Sound := by
  intro h
  have hrun : (exec step (start oneUser) lateUpload).map (fun s =>
      ((s.users.lookup "alice").map fun entry => decide entry.Whole, s.workers.map Worker.pending,
        s.deleted)) = some (some false, [[], []], ["alice"]) := by
    decide +kernel
  obtain ⟨s, hs, hfacts⟩ := Option.map_eq_some_iff.1 hrun
  obtain ⟨hentry, hpending, -⟩ : _ ∧ _ ∧ _ := by simpa only [Prod.mk.injEq] using hfacts
  obtain ⟨entry, hlookup, hwhole⟩ := Option.map_eq_some_iff.1 hentry
  have hquiet : s.Quiet := by
    intro worker hworker
    have hmem := List.mem_map_of_mem (f := Worker.pending) hworker
    rw [hpending] at hmem
    simpa using hmem
  exact of_decide_eq_false hwhole ((h oneUser lateUpload s oneUser_whole hs).1 hquiet _ _ hlookup)

/-! ### The updates that find their account -/

/-- The access writer `i` does next. -/
def next (s : AccountServer) (i : ℕ) : Option Write := s.workers[i]?.bind fun worker => worker.pending.head?

/-- An update lands while its account is in the file: only the deletion, and the first write of
a registration, may find no entry. -/
def Lands (s : AccountServer) : AccountAction → Prop
  | .write i => ∀ w ∈ s.next i, w.change = .remove ∨ w.registers = true ∨ s.users.contains w.account = true
  | _ => True

instance (s : AccountServer) (action : AccountAction) : Decidable (s.Lands action) :=
  match action with
  | .write i => inferInstanceAs (Decidable (∀ w ∈ s.next i, _ ∨ _ ∨ _))
  | .connect _ | .register .. | .request .. | .upload _ | .uploaded .. | .close _ => .isTrue trivial

/-! ### The shape of an operation -/

end AccountServer

/-- The write gives the account a role. -/
def Write.SetsRole (w : Write) (username : String) : Prop :=
  w.account = username ∧ ∃ role : Role, w.change = .userField "role" role.name

/-- What is left of an operation: a role is written by its name, and the first write of a
registration stands before all others, writes the password and has that of the role behind it. -/
structure Shaped (pending : List Write) : Prop where
  role : ∀ w ∈ pending, ∀ value, w.change = .userField "role" value → ∃ role : Role, value = role.name
  later : ∀ w ∈ pending.tail, w.registers = false
  first : ∀ w ∈ pending.head?, w.registers = true →
    (∃ hash, w.change = .userField "password" hash) ∧ ∃ w' ∈ pending.tail, w'.SetsRole w.account

namespace Shaped

/-- Nothing is written. -/
theorem nil : Shaped [] := ⟨by simp, by simp, by simp⟩

/-- What is left after one write. -/
theorem tail {w : Write} {rest : List Write} (h : Shaped (w :: rest)) : Shaped rest := by
  refine ⟨fun w' hw' => h.role w' (.tail _ hw'), fun w' hw' => h.later w' (List.mem_of_mem_tail hw'), ?_⟩
  intro w' hw' hregisters
  rw [h.later w' (List.mem_of_mem_head? hw')] at hregisters
  cases hregisters

/-- The writes of an update. -/
theorem update {pending : List Write} (hregisters : ∀ w ∈ pending, w.registers = false)
    (hrole : ∀ w ∈ pending, ∀ value, w.change = .userField "role" value → ∃ role : Role, value = role.name) :
    Shaped pending := by
  refine ⟨hrole, fun w hw => hregisters w (List.mem_of_mem_tail hw), ?_⟩
  intro w hw h
  rw [hregisters w (List.mem_of_mem_head? hw)] at h
  cases h

/-- A single write, of no registration. -/
theorem single {w : Write} (hregisters : w.registers = false)
    (hrole : ∀ value, w.change = .userField "role" value → ∃ role : Role, value = role.name) :
    Shaped [w] := by
  refine update (fun w' hw' => ?_) fun w' hw' => ?_
  · rwa [List.mem_singleton.1 hw']
  · rwa [List.mem_singleton.1 hw']

/-- An avatar is one write. -/
theorem setAvatar (username : String) (hash : Option (List U8)) : Shaped [.setAvatar username hash] :=
  single rfl fun _ h => nomatch h

/-- A color is one write. -/
theorem setColor (username : String) (usernameColor : Bool) (code : U8) :
    Shaped [.setColor username usernameColor code] := by
  refine single rfl fun value h => ?_
  cases usernameColor <;> exact absurd (Change.userField.inj h).1 (by decide)

/-- A profile is written field by field. -/
theorem setProfile (username bio pronouns website status : String) :
    Shaped (Write.setProfile username bio pronouns website status) := by
  refine update (fun w hw => ?_) fun w hw value h => ?_
  · obtain ⟨_, -, rfl⟩ := List.mem_map.1 hw
    rfl
  · obtain ⟨_, -, rfl⟩ := List.mem_map.1 hw
    cases h

/-- A registration is the account, and then its fields. -/
theorem add (username hash : String) (firstUser : Bool) : Shaped (Write.add username hash firstUser) := by
  refine ⟨fun w hw value h => ?_, fun w hw => ?_, fun w hw _ => ?_⟩
  · simp only [Write.add, Users.colorKeys, Users.profileKeys, List.map_cons, List.map_nil, List.cons_append,
      List.nil_append, List.mem_cons, List.not_mem_nil, or_false] at hw
    rcases hw with rfl | rfl | rfl | rfl | rfl | rfl | rfl | rfl | rfl
    case inr.inl => exact ⟨_, (Change.userField.inj h).2.symm⟩
    all_goals simp [Write.setPassword, Write.setAvatar] at h
  · simp only [Write.add, Users.colorKeys, Users.profileKeys, List.map_cons, List.map_nil, List.cons_append,
      List.nil_append, List.tail_cons, List.mem_cons, List.not_mem_nil, or_false] at hw
    rcases hw with rfl | rfl | rfl | rfl | rfl | rfl | rfl | rfl <;> rfl
  · obtain rfl := Option.some.inj hw
    exact ⟨⟨hash, rfl⟩, _, .head _, rfl, _, rfl⟩

/-- The writes of an accepted request. -/
theorem accepted {users : Users} {username : String} {request : AccountRequest} {writes : List Write}
    (h : AccountServer.accepted users username request = some writes) : Shaped writes := by
  cases request with
  | accountPasswdRequest hash =>
    obtain ⟨-, ⟨⟩⟩ := Option.ite_none_right_eq_some.1 h
    exact single rfl fun value hvalue => absurd (Change.userField.inj hvalue).1 (by decide)
  | accountDeleteRequest =>
    obtain ⟨-, ⟨⟩⟩ := Option.ite_none_right_eq_some.1 h
    exact single rfl fun _ hvalue => nomatch hvalue
  | colorRequest usernameColor color =>
    obtain rfl := Option.some.inj h
    exact setColor username usernameColor color
  | profileRequest bio pronouns website status =>
    obtain rfl := Option.some.inj h
    exact setProfile username bio pronouns website status
  | avatarRequest hash =>
    obtain rfl := Option.some.inj h
    exact setAvatar username hash
  | serverRoleRequest own target role =>
    obtain ⟨-, h⟩ := Option.ite_none_left_eq_some.1 h
    split at h
    · cases h
    · obtain ⟨-, ⟨⟩⟩ := Option.ite_none_left_eq_some.1 h
      exact single rfl fun value hvalue => ⟨role, (Change.userField.inj hvalue).2.symm⟩

end Shaped

/-! ### What a write does to the entries -/

namespace Users

/-- Only the entry of its account is touched by a write. -/
theorem lookup_apply_ne {users : Users} {w : Write} {username : String} (hne : username ≠ w.account) :
    (users.apply w).lookup username = users.lookup username := by
  unfold apply
  split
  · exact AList.lookup_insert_ne hne
  · exact AList.lookup_insert_ne hne
  · exact AList.lookup_erase_ne hne

/-- A removed account is gone. -/
theorem lookup_apply_remove {users : Users} {w : Write} (h : w.change = .remove) :
    (users.apply w).lookup w.account = none := by
  unfold apply
  rw [h]
  exact AList.lookup_erase _ _

/-- An entry after a write to its account: the one before, or a new one, with a field set. -/
theorem lookup_apply {users : Users} {w : Write} {entry : UserEntry}
    (h : (users.apply w).lookup w.account = some entry) :
    ∃ old, old = (users.lookup w.account).getD .new ∧
      ((∃ key value, w.change = .userField key value ∧ entry.fields = old.fields.insert key value) ∨
        (∃ key value, w.change = .profileField key value) ∧ entry.fields = old.fields) := by
  refine ⟨_, rfl, ?_⟩
  unfold apply at h
  split at h
  next key value hchange =>
    obtain rfl := Option.some.inj ((AList.lookup_insert _).symm.trans h)
    exact .inl ⟨key, value, hchange, rfl⟩
  next key value hchange =>
    obtain rfl := Option.some.inj ((AList.lookup_insert _).symm.trans h)
    exact .inr ⟨⟨key, value, hchange⟩, rfl⟩
  next =>
    rw [remove, AList.lookup_erase] at h
    cases h

end Users

namespace UserEntry

/-- An entry keeps its password, or gets the one that is written. -/
theorem password_insert {entry old : UserEntry} {key value : String}
    (h : entry.fields = old.fields.insert key value) (hold : key = "password" ∨ old.password.isSome) :
    entry.password.isSome := by
  unfold password
  rw [h]
  by_cases hkey : "password" = key
  · rw [← hkey, AList.lookup_insert]
    rfl
  · rw [AList.lookup_insert_ne hkey]
    exact hold.resolve_left (Ne.symm hkey)

/-- A role that is written by its name is there afterwards. -/
theorem role_insert_role {entry old : UserEntry} {role : Role}
    (h : entry.fields = old.fields.insert "role" role.name) : entry.role = some role := by
  unfold UserEntry.role
  rw [h, AList.lookup_insert, Option.bind_some, Role.fromStr_name]

/-- Another field leaves the role. -/
theorem role_insert_ne {entry old : UserEntry} {key value : String}
    (h : entry.fields = old.fields.insert key value) (hkey : key ≠ "role") : entry.role = old.role := by
  unfold role
  rw [h, AList.lookup_insert_ne hkey.symm]

end UserEntry

namespace AccountServer

variable {s : AccountServer}

/-- Some operation has the role of the account still to write. -/
def RolePending (s : AccountServer) (username : String) : Prop :=
  ∃ (i : ℕ) (worker : Worker), s.workers[i]? = some worker ∧ ∃ w ∈ worker.pending, w.SetsRole username

/-- Every entry has a password; it has a role, or its registration is about to write one; and a
deleted account has no entry. -/
structure Inv (s : AccountServer) : Prop where
  shaped : ∀ worker ∈ s.workers, Shaped worker.pending
  password : ∀ username entry, s.users.lookup username = some entry → entry.password.isSome
  role : ∀ username entry, s.users.lookup username = some entry → entry.role.isSome ∨ s.RolePending username
  gone : ∀ username ∈ s.deleted, s.users.contains username = false

/-- A server that starts on whole accounts has the invariant. -/
theorem inv_start {users : Users} (h : users.Whole) : (start users).Inv where
  shaped _ hworker := nomatch hworker
  password username entry hentry := (h username entry hentry).1
  role username entry hentry := .inl (h username entry hentry).2
  gone _ hmem := nomatch hmem

/-- Between the operations nothing is pending. -/
theorem Inv.sound (hinv : s.Inv) : s.Sound := by
  refine ⟨fun hquiet username entry hentry => ⟨hinv.password username entry hentry, ?_⟩, hinv.gone⟩
  refine (hinv.role username entry hentry).resolve_right ?_
  rintro ⟨i, worker, hworker, w, hw, -⟩
  rw [hquiet worker (List.mem_of_getElem? hworker)] at hw
  cases hw

/-- A new writer has nothing to write yet. -/
theorem Inv.spawn (hinv : s.Inv) {worker : Worker} (hworker : worker.pending = []) :
    (s.spawn worker).Inv where
  shaped worker' hmem := by
    rcases List.mem_append.1 hmem with hold | hnew
    · exact hinv.shaped worker' hold
    · rw [List.mem_singleton.1 hnew, hworker]
      exact .nil
  password := hinv.password
  role username entry hentry := by
    refine (hinv.role username entry hentry).imp_right fun ⟨i, worker', hi, hw⟩ => ⟨i, worker', ?_, hw⟩
    exact (List.getElem?_append_left (List.getElem?_eq_some_iff.1 hi).1).trans hi
  gone := hinv.gone

/-- A writer that has finished an operation begins the next. -/
theorem Inv.put (hinv : s.Inv) {i : ℕ} {old worker : Worker} (hold : s.workers[i]? = some old)
    (hidle : old.pending = []) (hshaped : Shaped worker.pending) : (s.put i worker).Inv where
  shaped worker' hmem := by
    rcases List.mem_or_eq_of_mem_set hmem with h | rfl
    · exact hinv.shaped worker' h
    · exact hshaped
  password := hinv.password
  role username entry hentry := by
    refine (hinv.role username entry hentry).imp_right fun ⟨j, worker', hj, w, hw, hrole⟩ =>
      ⟨j, worker', ?_, w, hw, hrole⟩
    have hne : i ≠ j := by
      rintro rfl
      rw [Option.some.inj (hj.symm.trans hold), hidle] at hw
      cases hw
    exact (List.getElem?_set_ne hne).trans hj
  gone := hinv.gone

section write

variable {i : ℕ} {worker : Worker} {w : Write} {rest : List Write}

/-- A role that is still to be written stays so, or is what has just been written. -/
theorem RolePending.write {username : String} (h : s.RolePending username) (hi : s.workers[i]? = some worker)
    (hpending : worker.pending = w :: rest) :
    (s.write i worker w rest).RolePending username ∨ w.SetsRole username := by
  obtain ⟨j, worker', hj, w', hw', hrole⟩ := h
  by_cases hij : i = j
  · obtain rfl := hij
    obtain rfl := Option.some.inj (hi.symm.trans hj)
    rw [hpending] at hw'
    rcases List.mem_cons.1 hw' with rfl | hrest
    · exact .inr hrole
    · refine .inl ⟨i, _, List.getElem?_set_self (List.getElem?_eq_some_iff.1 hi).1, w', hrest, hrole⟩
  · exact .inl ⟨j, worker', (List.getElem?_set_ne hij).trans hj, w', hw', hrole⟩

/-- The entry an update finds is the one that was there. -/
theorem Inv.password_old (hinv : s.Inv) (hcontains : s.users.contains w.account = true) :
    ((s.users.lookup w.account).getD .new).password.isSome := by
  obtain ⟨old, hold⟩ := Option.isSome_iff_exists.1 hcontains
  rw [hold]
  exact hinv.password w.account old hold

/-- The password of the account that is written to. -/
theorem Inv.password_write (hinv : s.Inv) (hshaped : Shaped (w :: rest))
    (hlands : w.change = .remove ∨ w.registers = true ∨ s.users.contains w.account = true)
    {entry : UserEntry} (hentry : (s.users.apply w).lookup w.account = some entry) :
    entry.password.isSome := by
  obtain ⟨old, rfl, ⟨key, value, hchange, hfields⟩ | ⟨⟨key, value, hchange⟩, hfields⟩⟩ :=
    Users.lookup_apply hentry
  · refine UserEntry.password_insert hfields ?_
    rcases hlands with hremove | hregisters | hcontains
    · rw [hchange] at hremove
      cases hremove
    · obtain ⟨⟨hash, hhash⟩, -⟩ := hshaped.first w rfl hregisters
      exact .inl (Change.userField.inj (hchange.symm.trans hhash)).1
    · exact .inr (hinv.password_old hcontains)
  · unfold UserEntry.password
    rw [hfields]
    rcases hlands with hremove | hregisters | hcontains
    · rw [hchange] at hremove
      cases hremove
    · obtain ⟨⟨hash, hhash⟩, -⟩ := hshaped.first w rfl hregisters
      rw [hchange] at hhash
      cases hhash
    · exact hinv.password_old hcontains

/-- A write of the role gives the entry one. -/
theorem role_of_setsRole {username : String} (hsets : w.SetsRole username) {entry : UserEntry}
    (hentry : (s.users.apply w).lookup w.account = some entry) : entry.role.isSome := by
  obtain ⟨-, role, hrole⟩ := hsets
  obtain ⟨old, -, ⟨key, value, hchange, hfields⟩ | ⟨⟨key, value, hchange⟩, -⟩⟩ := Users.lookup_apply hentry
  · obtain ⟨rfl, rfl⟩ := Change.userField.inj (hchange.symm.trans hrole)
    rw [UserEntry.role_insert_role hfields]
    rfl
  · rw [hchange] at hrole
    cases hrole

/-- Any other write leaves the role of the entry. -/
theorem role_of_not_setsRole (hshaped : Shaped (w :: rest)) (hsets : ¬w.SetsRole w.account)
    {old entry : UserEntry} (hold : s.users.lookup w.account = some old)
    (hentry : (s.users.apply w).lookup w.account = some entry) : entry.role = old.role := by
  obtain ⟨old', hold', ⟨key, value, hchange, hfields⟩ | ⟨-, hfields⟩⟩ := Users.lookup_apply hentry
  · rw [hold, Option.getD_some] at hold'
    obtain rfl := hold'
    refine UserEntry.role_insert_ne hfields ?_
    rintro rfl
    obtain ⟨role, rfl⟩ := hshaped.role w (.head _) value hchange
    exact hsets ⟨rfl, role, hchange⟩
  · rw [hold, Option.getD_some] at hold'
    obtain rfl := hold'
    unfold UserEntry.role
    rw [hfields]

/-- The role of the account that is written to. -/
theorem Inv.role_write (hinv : s.Inv) (hi : s.workers[i]? = some worker)
    (hpending : worker.pending = w :: rest) (hshaped : Shaped (w :: rest))
    (hlands : w.change = .remove ∨ w.registers = true ∨ s.users.contains w.account = true)
    {entry : UserEntry} (hentry : (s.users.apply w).lookup w.account = some entry) :
    entry.role.isSome ∨ (s.write i worker w rest).RolePending w.account := by
  by_cases hsets : w.SetsRole w.account
  · exact .inl (role_of_setsRole hsets hentry)
  · rcases hlands with hremove | hregisters | hcontains
    · rw [Users.lookup_apply_remove hremove] at hentry
      cases hentry
    · -- The registration has the role still to write.
      obtain ⟨-, w', hw', hrole⟩ := hshaped.first w rfl hregisters
      exact .inr ⟨i, _, List.getElem?_set_self (List.getElem?_eq_some_iff.1 hi).1, w', hw', hrole⟩
    · obtain ⟨old, hold⟩ := Option.isSome_iff_exists.1 hcontains
      rw [role_of_not_setsRole hshaped hsets hold hentry]
      exact (hinv.role w.account old hold).imp_right fun h => (h.write hi hpending).resolve_right hsets

/-- A deleted account has no entry after a write: an update finds one, and so is of another
account. -/
theorem Inv.gone_write (hinv : s.Inv)
    (hlands : w.change = .remove ∨ w.registers = true ∨ s.users.contains w.account = true)
    {username : String} (hdeleted : username ∈ (s.write i worker w rest).deleted) :
    (s.users.apply w).contains username = false := by
  unfold AccountServer.write at hdeleted
  unfold Users.contains
  by_cases hremove : w.change = .remove
  · rw [if_pos hremove] at hdeleted
    by_cases hname : username = w.account
    · rw [hname, Users.lookup_apply_remove hremove]
      rfl
    · rw [Users.lookup_apply_ne hname]
      exact hinv.gone username ((List.mem_cons.1 hdeleted).resolve_left hname)
  · rw [if_neg hremove] at hdeleted
    have hne : username ≠ w.account ∧ username ∈ s.deleted := by
      by_cases hregisters : w.registers = true
      · rw [if_pos hregisters] at hdeleted
        obtain ⟨hmem, hne⟩ := List.mem_filter.1 hdeleted
        exact ⟨of_decide_eq_true hne, hmem⟩
      · rw [if_neg hregisters] at hdeleted
        refine ⟨?_, hdeleted⟩
        rintro rfl
        have hthere := (hlands.resolve_left hremove).resolve_left hregisters
        rw [hinv.gone _ hdeleted] at hthere
        cases hthere
    rw [Users.lookup_apply_ne hne.1]
    exact hinv.gone username hne.2

/-- **A write keeps the invariant** if it lands on an account that is there. -/
theorem Inv.write (hinv : s.Inv) (hi : s.workers[i]? = some worker) (hpending : worker.pending = w :: rest)
    (hlands : w.change = .remove ∨ w.registers = true ∨ s.users.contains w.account = true) :
    (s.write i worker w rest).Inv := by
  have hshaped : Shaped (w :: rest) := hpending ▸ hinv.shaped worker (List.mem_of_getElem? hi)
  refine ⟨fun worker' hmem => ?_, fun username entry hentry => ?_, fun username entry hentry => ?_,
    fun username hdeleted => hinv.gone_write hlands hdeleted⟩
  · rcases List.mem_or_eq_of_mem_set hmem with h | rfl
    · exact hinv.shaped worker' h
    · exact hshaped.tail
  · by_cases hname : username = w.account
    · obtain rfl := hname
      exact hinv.password_write hshaped hlands hentry
    · exact hinv.password username entry ((Users.lookup_apply_ne hname).symm.trans hentry)
  · by_cases hname : username = w.account
    · obtain rfl := hname
      exact hinv.role_write hi hpending hshaped hlands hentry
    · refine (hinv.role username entry ((Users.lookup_apply_ne hname).symm.trans hentry)).imp_right
        fun h => (h.write hi hpending).resolve_right ?_
      exact fun hsets => hname hsets.1.symm

end write

/-- An idle worker has written everything. -/
theorem idle_spec {i : ℕ} {stage : Stage} {worker : Worker} (h : s.idle i stage = some worker) :
    s.workers[i]? = some worker ∧ worker.pending = [] := by
  obtain ⟨hi, hidle⟩ := Option.filter_eq_some_iff.1 h
  exact ⟨hi, List.isEmpty_iff.1 (Bool.and_eq_true_iff.1 hidle).2⟩

/-- Every action keeps the invariant, if its writes land. -/
theorem Inv.step {s' : AccountServer} {action : AccountAction} (hinv : s.Inv) (hlands : s.Lands action)
    (h : s.step action = some s') : s'.Inv := by
  cases action with
  | connect username =>
    unfold AccountServer.step at h
    dsimp only at h
    split at h
    · obtain ⟨-, ⟨⟩⟩ := Option.ite_none_right_eq_some.1 h
      exact hinv.spawn rfl
    · obtain rfl := Option.some.inj h
      exact hinv.spawn rfl
  | register i hash =>
    obtain ⟨worker, hidle, rfl⟩ := Option.map_eq_some_iff.1 h
    exact hinv.put (idle_spec hidle).1 (idle_spec hidle).2 (.add ..)
  | request i request =>
    obtain ⟨worker, hidle, h⟩ := Option.bind_eq_some_iff.1 h
    obtain ⟨writes, haccepted, rfl⟩ := Option.map_eq_some_iff.1 h
    exact hinv.put (idle_spec hidle).1 (idle_spec hidle).2 (.accepted haccepted)
  | upload i =>
    obtain ⟨worker, -, rfl⟩ := Option.map_eq_some_iff.1 h
    exact hinv.spawn rfl
  | uploaded i hash =>
    obtain ⟨worker, hidle, rfl⟩ := Option.map_eq_some_iff.1 h
    exact hinv.put (idle_spec hidle).1 (idle_spec hidle).2 (.setAvatar ..)
  | close i =>
    obtain ⟨worker, hidle, rfl⟩ := Option.map_eq_some_iff.1 h
    obtain ⟨hi, hempty⟩ := Option.filter_eq_some_iff.1 hidle
    exact hinv.put hi (List.isEmpty_iff.1 hempty) .nil
  | write i =>
    unfold AccountServer.step at h
    dsimp only at h
    split at h
    next worker hi =>
      split at h
      next w rest hpending =>
        obtain rfl := Option.some.inj h
        refine hinv.write hi hpending (hlands w ?_)
        simp [next, hi, hpending]
      next => cases h
    next => cases h

/-- **The accounts are whole between the operations.**  In every run from whole accounts in which
every update lands while its account is in the file, every entry has a password hash and a role
whenever no operation is in progress, and a deleted account has no entry until it is registered
again. -/
theorem accounts_whole {users : Users} (husers : users.Whole) {actions : List AccountAction}
    {s : AccountServer} (hlands : Meets step Lands (start users) actions)
    (hrun : exec step (start users) actions = some s) : s.Sound :=
  (exec_induct (fun _ _ _ hinv hlands hstep => hinv.step hlands hstep) (inv_start husers) hlands hrun).sound

/-- The picture is there before the account is deleted, and the name is registered anew. -/
def earlyUpload : List AccountAction :=
  [.connect "alice", .upload 0, .uploaded 1 [0xab], .write 1, .request 0 .accountDeleteRequest, .write 0,
    .connect "alice", .register 2 "other", .write 2, .write 2, .write 2, .write 2, .write 2, .write 2,
    .write 2, .write 2, .write 2]

/-- After this run the name is taken again, and the accounts are sound. -/
theorem accounts_whole_anew :
    ∃ s, exec step (start oneUser) earlyUpload = some s ∧ s.users.contains "alice" = true ∧ s.Sound := by
  have hrun : (exec step (start oneUser) earlyUpload).map (fun s => s.users.contains "alice") = some true := by
    decide +kernel
  obtain ⟨s, hs, hcontains⟩ := Option.map_eq_some_iff.1 hrun
  exact ⟨s, hs, hcontains, accounts_whole oneUser_whole (by decide +kernel) hs⟩

end AccountServer
end Why2
