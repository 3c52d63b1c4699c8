/-
# Rank protection

The six handlers of `listen_client` (`chat/src/network/server/mod.rs`) with
which one user acts on another: `ServerMute`, `ServerKick`, `ServerBan`,
`ServerBanIp`, `ServerRoleRequest` and `DeleteRequest`.  Each has its own
permission test and its own way to find its target: by session id, by username
or by address.  A user's rank is stored with the account
(`chat/src/config/users.rs`) and kept in each of their sessions; the two need
not agree.  The bans are those of `chat/src/config/bans.rs`.

A mute and a kick look at the rank of the session, a deletion and a change of
rank at that of the account, and a ban at neither: an owner can ban another
owner (`peer_banned`).  `rank_protected_iff` says exactly when a request leaves
the peers and superiors of its sender alone.
-/

import Why2.Chat.History
import Why2.Chat.Login
import Why2.Lib.Lists
import Mathlib.Order.Lattice

namespace Why2

/-- The place of a role in the order of the source. -/
def Role.rank : Role → ℕ
  | .user => 0
  | .moderator => 1
  | .owner => 2

instance : LinearOrder Role :=
  LinearOrder.lift' Role.rank fun a b h => by cases a <;> cases b <;> first | rfl | cases h

namespace Connections

variable {Addr : Type} [DecidableEq Addr] {table : Connections Addr}

/-- The first session that satisfies a test, with its address. -/
def findSession (table : Connections Addr) (p : Authenticated Addr → Bool) :
    Option (Addr × Authenticated Addr) :=
  table.entries.findSome? fun entry =>
    match entry.2 with
    | .authenticated conn => if p conn then some (entry.1, conn) else none
    | .nonAuthenticated _ => none

/-- The session with this id: only a connection that has logged in has one. -/
def byId (table : Connections Addr) (id : ℕ) : Option (Addr × Authenticated Addr) :=
  table.findSession (·.id = id)

/-- `session_of`. -/
def sessionOf (table : Connections Addr) (username : String) : Option Addr :=
  (table.findSession (·.username = username)).map Prod.fst

/-- The table with every connection changed, as by `iter_mut`. -/
def mapAll (f : Connection Addr → Connection Addr) (table : Connections Addr) : Connections Addr :=
  ⟨table.entries.map (.map id fun _ => f), table.nodupKeys.map₂ fun _ => f⟩

/-- The table without these addresses. -/
def removeAll (addrs : List Addr) (table : Connections Addr) : Connections Addr :=
  addrs.foldl (fun table a => table.erase a) table

/-- A change of every entry, at one address. -/
theorem lookup_mapAll (f : Connection Addr → Connection Addr) (table : Connections Addr) (a : Addr) :
    (table.mapAll f).lookup a = (table.lookup a).map f :=
  List.dlookup_map₂ a

/-- A change that leaves the identities. -/
theorem identity_mapAll {f : Connection Addr → Connection Addr}
    (h : ∀ c, (f c).identity = c.identity) (a : Addr) :
    (table.mapAll f).identity a = table.identity a := by
  unfold identity
  rw [lookup_mapAll, Option.bind_map]
  exact congrArg _ (funext h)

/-- What is removed is not found any more. -/
theorem lookup_removeAll (addrs : List Addr) (table : Connections Addr) (a : Addr) :
    (table.removeAll addrs).lookup a = if a ∈ addrs then none else table.lookup a := by
  unfold removeAll
  induction addrs generalizing table with
  | nil => rfl
  | cons b addrs ih =>
    rw [List.foldl_cons, ih]
    by_cases ha : a ∈ addrs
    · rw [if_pos ha, if_pos (List.mem_cons_of_mem b ha)]
    · rw [if_neg ha]
      by_cases hab : a = b
      · rw [hab, AList.lookup_erase, if_pos List.mem_cons_self]
      · rw [AList.lookup_erase_ne hab, if_neg (List.not_mem_cons_of_ne_of_not_mem hab ha)]

/-- What is found is a session as asked for. -/
theorem findSession_spec {p : Authenticated Addr → Bool} {a : Addr} {conn : Authenticated Addr}
    (h : table.findSession p = some (a, conn)) :
    table.lookup a = some (.authenticated conn) ∧ p conn = true := by
  obtain ⟨⟨b, entry⟩, hmem, hentry⟩ := List.exists_of_findSome?_eq_some h
  cases entry with
  | nonAuthenticated conn => cases hentry
  | authenticated conn' =>
    dsimp only at hentry
    split at hentry
    · rename_i hp
      obtain ⟨rfl, rfl⟩ := Prod.mk.inj (Option.some.inj hentry)
      exact ⟨AList.mem_lookup_iff.2 hmem, hp⟩
    · cases hentry

/-- If nothing is found, there is no such session. -/
theorem findSession_eq_none {p : Authenticated Addr → Bool} (h : table.findSession p = none)
    {a : Addr} {conn : Authenticated Addr} (hconn : table.lookup a = some (.authenticated conn)) :
    p conn = false := by
  have hmem : (⟨a, .authenticated conn⟩ : Sigma _) ∈ table.entries := AList.mem_lookup_iff.1 hconn
  have hnone := List.findSome?_eq_none_iff.1 h _ hmem
  cases hp : p conn with
  | false => rfl
  | true =>
    dsimp only at hnone
    rw [hp] at hnone
    cases hnone

/-- The name of a session is that of its connection. -/
theorem sessionName_iff {a : Addr} {username : String} :
    table.sessionName a = some username ↔
      ∃ conn, table.lookup a = some (.authenticated conn) ∧ conn.username = username := by
  unfold sessionName identity
  cases table.lookup a with
  | none => simp
  | some conn => cases conn <;> simp [Connection.identity]

/-- The session of a name has the name. -/
theorem sessionName_of_sessionOf {username : String} {a : Addr} (h : table.sessionOf username = some a) :
    table.sessionName a = some username := by
  obtain ⟨⟨b, conn⟩, hfind, rfl⟩ := Option.map_eq_some_iff.1 h
  obtain ⟨hconn, hname⟩ := findSession_spec hfind
  exact sessionName_iff.2 ⟨conn, hconn, of_decide_eq_true hname⟩

/-- A name that has a session is found. -/
theorem exists_sessionOf {username : String} {a : Addr} (h : table.sessionName a = some username) :
    ∃ b, table.sessionOf username = some b := by
  obtain ⟨conn, hconn, hname⟩ := sessionName_iff.1 h
  cases hfind : table.findSession (·.username = username) with
  | none => exact absurd hname (of_decide_eq_false (findSession_eq_none hfind hconn))
  | some found => exact ⟨found.1, by rw [sessionOf, hfind, Option.map_some]⟩

end Connections

/-! ### The server -/

/-- `server_users.toml`: every account, with its role if that is one the server knows. -/
abbrev Accounts := AList fun _ : String => Option Role

/-- `users::role`. -/
def Accounts.role (accounts : Accounts) (username : String) : Option Role :=
  (accounts.lookup username).join

/-- `str::parse::<usize>`: decimal digits, perhaps after a plus sign, below `2^64`. -/
def parseUsize (text : String) : Option ℕ :=
  let digits := match text.toList with
    | '+' :: rest => rest
    | all => all
  if digits ≠ [] ∧ digits.all Char.isDigit then
    let value := digits.foldl (fun n c => 10 * n + (c.toNat - '0'.toNat)) 0
    if value < 2 ^ 64 then some value else none
  else none

/-- `resolve_user`. -/
def Connections.resolveUser {Addr : Type} (table : Connections Addr) (accounts : Accounts)
    (target : String) : Option String :=
  if (accounts.lookup target).isSome then some target
  else do
    let id ← parseUsize target
    let (_, conn) ← table.byId id
    return conn.username

/-- `set_ban`. -/
def setBan {α : Type} [DecidableEq α] (bans : List α) (key : α) : List α :=
  if bans.any (· = key) then bans else bans ++ [key]

/-- The sessions, the accounts, the two ban lists and the history. -/
structure ModerationServer (Addr Ip : Type) where
  table : Connections Addr
  accounts : Accounts
  bans : List String
  ipBans : List Ip
  messages : Messages

/-- A packet of a client in its session.  `other` stands for the packets that do not
touch roles, bans, mutes, other sessions or stored messages. -/
inductive ModerationRequest
  | deleteRequest (messageId : U64)
  | serverMute (id : ℕ)
  | serverKick (id : ℕ)
  | serverBan (target : String)
  | serverBanIp (id : ℕ)
  | serverRoleRequest (target : String) (role : Role)
  | accountDeleteRequest (valid : Bool)
  | other
deriving DecidableEq

namespace ModerationServer

variable {Addr Ip : Type} [DecidableEq Addr] (ip : Addr → Ip)

/-- `resolve_user`, on this server. -/
def resolveUser (s : ModerationServer Addr Ip) (target : String) : Option String :=
  s.table.resolveUser s.accounts target

/-- The sessions of a user get a new role. -/
def setRole (username : String) (role : Role) : Connection Addr → Connection Addr
  | .authenticated conn =>
    if conn.username = username then .authenticated { conn with role } else .authenticated conn
  | .nonAuthenticated conn => .nonAuthenticated conn

/-- `DeleteRequest`. -/
def deleteRequest (s : ModerationServer Addr Ip) (conn : Authenticated Addr) (messageId : U64) :
    ModerationServer Addr Ip :=
  match s.messages.author messageId with
  | none => s
  | some author =>
    if author = conn.username ∨
        (.moderator ≤ conn.role ∧ (s.accounts.role author).all (· < conn.role)) then
      { s with messages := (s.messages.delete messageId).2.2 }
    else s

/-- What `ServerMute` and `ServerKick` have in common: a moderator changes a session of
lower rank, found by its id. -/
def onSession (s : ModerationServer Addr Ip) (conn : Authenticated Addr) (id : ℕ)
    (change : Addr → Authenticated Addr → Connections Addr) : ModerationServer Addr Ip :=
  if conn.role < .moderator then s
  else match s.table.byId id with
    | none => s
    | some (a, target) => if target.role < conn.role then { s with table := change a target } else s

/-- `ServerMute`. -/
def serverMute (s : ModerationServer Addr Ip) (conn : Authenticated Addr) (id : ℕ) :
    ModerationServer Addr Ip :=
  s.onSession conn id fun a target => s.table.alter (·.set (.muted !target.muted)) a

/-- `ServerKick`. -/
def serverKick (s : ModerationServer Addr Ip) (conn : Authenticated Addr) (id : ℕ) :
    ModerationServer Addr Ip :=
  s.onSession conn id fun a _ => s.table.erase a

/-- `ServerBan`. -/
def serverBan (s : ModerationServer Addr Ip) (conn : Authenticated Addr) (target : String) :
    ModerationServer Addr Ip :=
  if conn.role < .owner then s
  else match (s.resolveUser target).filter (· ≠ conn.username) with
    | none => s
    | some target =>
      { s with
        bans := setBan s.bans target
        table := s.table.removeAll (s.table.sessionOf target).toList }

/-- `ServerBanIp`. -/
def serverBanIp [DecidableEq Ip] (s : ModerationServer Addr Ip) (conn : Authenticated Addr) (uid : ℕ) :
    ModerationServer Addr Ip :=
  if conn.role < .owner ∨ conn.id = uid then s
  else match s.table.byId uid with
    | none => s
    | some (a, _) =>
      { s with
        ipBans := setBan s.ipBans (ip a)
        table := s.table.removeAll (s.table.keys.filter (ip · = ip a)) }

/-- `ServerRoleRequest`. -/
def serverRoleRequest (s : ModerationServer Addr Ip) (conn : Authenticated Addr) (target : String)
    (newRole : Role) : ModerationServer Addr Ip :=
  if conn.role < .owner ∨ conn.role < newRole then s
  else match (s.resolveUser target).filter (· ≠ conn.username) with
    | none => s
    | some target =>
      match s.accounts.role target with
      | none => s
      | some targetRole =>
        if conn.role ≤ targetRole ∨ targetRole = newRole then s
        else
          { s with
            accounts := s.accounts.insert target (some newRole)
            table := s.table.mapAll (setRole target newRole) }

/-- `AccountDeleteRequest`, with whether the password was right. -/
def accountDeleteRequest (s : ModerationServer Addr Ip) (a : Addr) (conn : Authenticated Addr)
    (valid : Bool) : ModerationServer Addr Ip :=
  if valid then
    { s with accounts := s.accounts.erase conn.username, table := s.table.erase a }
  else s

/-- A packet of the session at address `a`. -/
def handle [DecidableEq Ip] (s : ModerationServer Addr Ip) (a : Addr) (conn : Authenticated Addr) :
    ModerationRequest → ModerationServer Addr Ip
  | .deleteRequest messageId => s.deleteRequest conn messageId
  | .serverMute id => s.serverMute conn id
  | .serverKick id => s.serverKick conn id
  | .serverBan target => s.serverBan conn target
  | .serverBanIp id => s.serverBanIp ip conn id
  | .serverRoleRequest target role => s.serverRoleRequest conn target role
  | .accountDeleteRequest valid => s.accountDeleteRequest a conn valid
  | .other => s

/-! ### The law -/

/-- The user has this rank or more, by the account or by a session. -/
def Ranks (s : ModerationServer Addr Ip) (rank : Role) (username : String) : Prop :=
  (∃ role, s.accounts.role username = some role ∧ rank ≤ role) ∨
    ∃ b target, s.table.lookup b = some (.authenticated target) ∧ target.username = username ∧
      rank ≤ target.role

/-- Nobody muted, disconnected, banned or re-ranked the user or deleted a message of
theirs. -/
structure Untouched (s s' : ModerationServer Addr Ip) (username : String) : Prop where
  sessions : ∀ b target, s.table.lookup b = some (.authenticated target) →
    target.username = username → ∃ target', s'.table.lookup b = some (.authenticated target') ∧
      target'.muted = target.muted ∧ target'.role = target.role
  bans : username ∉ s.bans → username ∉ s'.bans
  ipBans : ∀ b target, s.table.lookup b = some (.authenticated target) →
    target.username = username → ip b ∉ s.ipBans → ip b ∉ s'.ipBans
  role : s'.accounts.role username = s.accounts.role username
  messages : s'.messages.history.records.filter (·.username = username) =
    s.messages.history.records.filter (·.username = username)

/-- A request of the session `conn` leaves its peers and superiors alone, gives nobody a
role above the sender's, and gives the sender no other role. -/
structure RankProtected (s s' : ModerationServer Addr Ip) (conn : Authenticated Addr) : Prop where
  others : ∀ username, username ≠ conn.username → s.Ranks conn.role username →
    Untouched ip s s' username
  granted : ∀ username role, s'.accounts.role username = some role →
    s.accounts.role username = some role ∨ role ≤ conn.role
  grantedLive : ∀ b target', s'.table.lookup b = some (.authenticated target') →
    ∃ target, s.table.lookup b = some (.authenticated target) ∧
      (target'.role = target.role ∨ target'.role ≤ conn.role)
  own : ∀ role, s'.accounts.role conn.username = some role →
    s.accounts.role conn.username = some role
  ownLive : ∀ b target', s'.table.lookup b = some (.authenticated target') →
    target'.username = conn.username → ∃ target, s.table.lookup b = some (.authenticated target) ∧
      target'.role = target.role

/-- The requests that meet the law, case by case.  A mute or a kick finds a session of
lower rank whose user has no higher rank elsewhere; a deletion or a change of rank finds
an account of lower rank that has no session of higher rank; a ban finds a user of lower
rank, or one who is banned already and not connected; a ban of an address finds only
users of lower rank there. -/
def Lawful (s : ModerationServer Addr Ip) (conn : Authenticated Addr) : ModerationRequest → Prop
  | .deleteRequest messageId => ∀ author, s.messages.author messageId = some author →
      author ≠ conn.username → .moderator ≤ conn.role →
      (s.accounts.role author).all (· < conn.role) = true → ¬s.Ranks conn.role author
  | .serverMute id | .serverKick id => ∀ a target, s.table.byId id = some (a, target) →
      target.username ≠ conn.username → .moderator ≤ conn.role → target.role < conn.role →
      ¬s.Ranks conn.role target.username
  | .serverBan target => ∀ username, s.resolveUser target = some username →
      username ≠ conn.username → .owner ≤ conn.role → s.Ranks conn.role username →
      username ∈ s.bans ∧ s.table.sessionOf username = none
  | .serverBanIp id => ∀ a target, s.table.byId id = some (a, target) → conn.id ≠ id →
      .owner ≤ conn.role → ∀ b other, s.table.lookup b = some (.authenticated other) →
      ip b = ip a → other.username ≠ conn.username → ¬s.Ranks conn.role other.username
  | .serverRoleRequest target role => ∀ username targetRole,
      s.resolveUser target = some username → username ≠ conn.username → .owner ≤ conn.role →
      role ≤ conn.role → s.accounts.role username = some targetRole → targetRole < conn.role →
      targetRole ≠ role → ¬s.Ranks conn.role username
  | .accountDeleteRequest _ | .other => True

variable {ip} {s s' : ModerationServer Addr Ip} {conn : Authenticated Addr}

/-- What stays is untouched. -/
theorem Untouched.refl (s : ModerationServer Addr Ip) (username : String) :
    Untouched ip s s username :=
  ⟨fun _ target h _ => ⟨target, h, rfl, rfl⟩, fun h => h, fun _ _ _ _ h => h, rfl, rfl⟩

/-- A request that does nothing meets the law. -/
theorem RankProtected.refl (s : ModerationServer Addr Ip) (conn : Authenticated Addr) :
    RankProtected ip s s conn :=
  ⟨fun username _ _ => .refl s username, fun _ _ h => .inl h,
    fun _ target h => ⟨target, h, .inl rfl⟩, fun _ h => h, fun _ target h _ => ⟨target, h, rfl⟩⟩

/-- A request that leaves the accounts alone and gives no session another role meets the
law if it leaves the peers and superiors alone. -/
theorem RankProtected.of_same_roles (haccounts : s'.accounts = s.accounts)
    (htable : ∀ b target', s'.table.lookup b = some (.authenticated target') →
      ∃ target, s.table.lookup b = some (.authenticated target) ∧ target'.role = target.role)
    (hothers : ∀ username, username ≠ conn.username → s.Ranks conn.role username →
      Untouched ip s s' username) : RankProtected ip s s' conn := by
  refine ⟨hothers, fun username role h => .inl (haccounts ▸ h), fun b target' h => ?_,
    fun role h => haccounts ▸ h, fun b target' h _ => htable b target' h⟩
  obtain ⟨target, htarget, hrole⟩ := htable b target' h
  exact ⟨target, htarget, .inl hrole⟩

/-! ### The handlers, one by one -/

/-- What is found under an id is a session. -/
theorem byId_spec {id : ℕ} {a : Addr} {target : Authenticated Addr}
    (h : s.table.byId id = some (a, target)) : s.table.lookup a = some (.authenticated target) :=
  (Connections.findSession_spec h).1

/-- A change of one session leaves everybody else alone. -/
theorem Untouched.of_session {table : Connections Addr} {a : Addr} {target : Authenticated Addr}
    (htarget : s.table.lookup a = some (.authenticated target))
    (htable : ∀ b, b ≠ a → table.lookup b = s.table.lookup b) {username : String}
    (hne : target.username ≠ username) : Untouched ip s { s with table } username := by
  refine ⟨fun b other hother husername => ?_, fun h => h, fun _ _ _ _ h => h, rfl, rfl⟩
  have hba : b ≠ a := by
    rintro rfl
    obtain rfl := Connection.authenticated.inj (Option.some.inj (htarget.symm.trans hother))
    exact hne husername
  exact ⟨other, (htable b hba).trans hother, rfl, rfl⟩

/-- A handler that changes a session of lower rank, so that it is muted otherwise or
gone, meets the law exactly if the user has no higher rank elsewhere. -/
theorem onSession_iff (id : ℕ) (change : Addr → Authenticated Addr → Connections Addr)
    (hother : ∀ a target b, b ≠ a → (change a target).lookup b = s.table.lookup b)
    (hself : ∀ a target target', s.table.lookup a = some (.authenticated target) →
      (change a target).lookup a = some (.authenticated target') →
      target'.role = target.role ∧ target'.muted ≠ target.muted) :
    RankProtected ip s (s.onSession conn id change) conn ↔ s.Lawful ip conn (.serverMute id) := by
  unfold onSession Lawful
  split
  · rename_i hrank
    exact ⟨fun _ _ _ _ _ hmod => absurd hrank (not_lt.2 hmod), fun _ => .refl s conn⟩
  rename_i hrank
  split
  · rename_i hnone
    refine ⟨fun _ a target h => ?_, fun _ => .refl s conn⟩
    rw [hnone] at h
    cases h
  rename_i a target hfind
  have htarget := byId_spec hfind
  split
  · rename_i hlower
    constructor
    · intro hprot a' target' h hne _ _ hranks
      rw [hfind] at h
      obtain ⟨rfl, rfl⟩ := Prod.mk.inj (Option.some.inj h)
      obtain ⟨target', hlookup, hmuted, _⟩ := (hprot.others _ hne hranks).sessions a target htarget rfl
      exact (hself a target target' htarget hlookup).2 hmuted
    · intro hlaw
      refine .of_same_roles rfl (fun b target' h => ?_) fun username hne hranks => ?_
      · by_cases hba : b = a
        · rw [hba] at h ⊢
          exact ⟨target, htarget, (hself a target target' htarget h).1⟩
        · exact ⟨target', (hother a target b hba).symm.trans h, rfl⟩
      · refine .of_session htarget (hother a target) fun heq => ?_
        subst heq
        exact hlaw a target hfind hne (not_lt.1 hrank) hlower hranks
  · rename_i hlower
    refine ⟨fun _ a' target' h _ _ hlt => ?_, fun _ => .refl s conn⟩
    rw [hfind] at h
    obtain ⟨rfl, rfl⟩ := Prod.mk.inj (Option.some.inj h)
    exact absurd hlt hlower

/-- **A mute is within the ranks exactly if it is lawful.** -/
theorem serverMute_iff (id : ℕ) :
    RankProtected ip s (s.serverMute conn id) conn ↔ s.Lawful ip conn (.serverMute id) := by
  refine onSession_iff id _ (fun a target b hb => ?_) fun a target target' htarget h => ?_
  · have := congrFun (Connections.lookup_alter (·.set (.muted !target.muted)) a s.table) b
    rwa [Function.update_of_ne hb] at this
  · have := congrFun (Connections.lookup_alter (·.set (.muted !target.muted)) a s.table) a
    rw [Function.update_self, htarget] at this
    obtain rfl := Connection.authenticated.inj (Option.some.inj (this.symm.trans h))
    exact ⟨rfl, Bool.not_ne_self _⟩

/-- **So is a kick.** -/
theorem serverKick_iff (id : ℕ) :
    RankProtected ip s (s.serverKick conn id) conn ↔ s.Lawful ip conn (.serverKick id) := by
  refine onSession_iff id _ (fun a target b hb => AList.lookup_erase_ne hb) fun a target target' _ h => ?_
  rw [AList.lookup_erase] at h
  cases h

/-- A ban is one more. -/
theorem mem_setBan {α : Type} [DecidableEq α] {bans : List α} {key x : α} :
    x ∈ setBan bans key ↔ x ∈ bans ∨ x = key := by
  unfold setBan
  split
  · rename_i hany
    obtain ⟨y, hy, hkey⟩ := List.any_eq_true.1 hany
    rw [of_decide_eq_true hkey] at hy
    constructor
    · exact .inl
    · rintro (h | rfl)
      · exact h
      · exact hy
  · rw [List.mem_append, List.mem_singleton]

/-- Sessions that were there after a removal were there before. -/
theorem lookup_of_removeAll {addrs : List Addr} {b : Addr} {target' : Authenticated Addr}
    (h : (s.table.removeAll addrs).lookup b = some (.authenticated target')) :
    b ∉ addrs ∧ s.table.lookup b = some (.authenticated target') := by
  rw [Connections.lookup_removeAll] at h
  split at h
  · cases h
  · exact ⟨‹_›, h⟩

/-- **So is a ban.** -/
theorem serverBan_iff (target : String) :
    RankProtected ip s (s.serverBan conn target) conn ↔ s.Lawful ip conn (.serverBan target) := by
  unfold serverBan Lawful
  split
  · rename_i hrank
    exact ⟨fun _ _ _ _ howner => absurd hrank (not_lt.2 howner), fun _ => .refl s conn⟩
  rename_i hrank
  split
  · rename_i hnone
    refine ⟨fun _ username h hne => ?_, fun _ => .refl s conn⟩
    rw [h, Option.filter_some, if_pos (decide_eq_true hne)] at hnone
    cases hnone
  rename_i username hfilter
  obtain ⟨hresolve, hne⟩ := Option.filter_eq_some_iff.1 hfilter
  have hne : username ≠ conn.username := of_decide_eq_true hne
  constructor
  · intro hprot username' h _ _ hranks
    rw [hresolve] at h
    obtain rfl := Option.some.inj h
    have huntouched := hprot.others username hne hranks
    constructor
    · by_contra hbanned
      exact huntouched.bans hbanned (mem_setBan.2 (.inr rfl))
    · -- A session that was found is gone.
      rw [Connections.sessionOf, Option.map_eq_none_iff]
      cases hsession : s.table.findSession (·.username = username) with
      | none => rfl
      | some entry =>
        obtain ⟨b, other⟩ := entry
        obtain ⟨hlookup, husername⟩ := Connections.findSession_spec hsession
        obtain ⟨other', hlookup', _⟩ :=
          huntouched.sessions b other hlookup (of_decide_eq_true husername)
        have hb := (lookup_of_removeAll hlookup').1
        rw [Connections.sessionOf, hsession] at hb
        exact absurd (List.mem_singleton_self b) hb
  · intro hlaw
    refine .of_same_roles rfl (fun b target' h => ⟨target', (lookup_of_removeAll h).2, rfl⟩)
      fun username' hne' hranks => ?_
    by_cases heq : username' = username
    · obtain ⟨hbanned, hnone⟩ := hlaw username hresolve hne (not_lt.1 hrank) (heq ▸ hranks)
      refine ⟨fun b other hother _ => ⟨other, ?_, rfl, rfl⟩, fun h => absurd hbanned (heq ▸ h),
        fun _ _ _ _ h => h, rfl, rfl⟩
      rw [hnone]
      exact hother
    · refine ⟨fun b other hother husername => ⟨other, ?_, rfl, rfl⟩, fun h hmem => ?_,
        fun _ _ _ _ h => h, rfl, rfl⟩
      · rw [Connections.lookup_removeAll, if_neg]
        · exact hother
        intro hmem
        obtain ⟨⟨b', found⟩, hfound, rfl⟩ := Option.map_eq_some_iff.1 (Option.mem_toList.1 hmem)
        obtain ⟨hlookup, hname⟩ := Connections.findSession_spec hfound
        obtain rfl := Connection.authenticated.inj (Option.some.inj (hlookup.symm.trans hother))
        exact heq (husername.symm.trans (of_decide_eq_true hname))
      · rcases mem_setBan.1 hmem with hmem | hmem
        · exact h hmem
        · exact heq hmem

/-- **So is a ban of an address.** -/
theorem serverBanIp_iff [DecidableEq Ip] (id : ℕ) :
    RankProtected ip s (s.serverBanIp ip conn id) conn ↔ s.Lawful ip conn (.serverBanIp id) := by
  unfold serverBanIp Lawful
  split
  · rename_i hrank
    refine ⟨fun _ a target _ hid howner => ?_, fun _ => .refl s conn⟩
    rcases hrank with hrank | hrank
    · exact absurd hrank (not_lt.2 howner)
    · exact absurd hrank hid
  rename_i hrank
  rw [not_or, not_lt] at hrank
  split
  · rename_i hnone
    refine ⟨fun _ a target h => ?_, fun _ => .refl s conn⟩
    rw [hnone] at h
    cases h
  rename_i a target hfind
  have hmem : ∀ {b other}, s.table.lookup b = some (.authenticated other) →
      (b ∈ s.table.keys.filter (ip · = ip a) ↔ ip b = ip a) := by
    intro b other hother
    have hkey : b ∈ s.table.keys := AList.mem_keys.1 (AList.lookup_isSome.1 (by rw [hother]; rfl))
    rw [List.mem_filter, decide_eq_true_iff]
    exact ⟨fun h => h.2, fun h => ⟨hkey, h⟩⟩
  constructor
  · intro hprot a' target' h _ _ b other hother hip hne hranks
    rw [hfind] at h
    obtain ⟨rfl, rfl⟩ := Prod.mk.inj (Option.some.inj h)
    obtain ⟨other', hlookup, _⟩ := (hprot.others _ hne hranks).sessions b other hother rfl
    exact (lookup_of_removeAll hlookup).1 ((hmem hother).2 hip)
  · intro hlaw
    refine .of_same_roles rfl (fun b target' h => ⟨target', (lookup_of_removeAll h).2, rfl⟩)
      fun username hne hranks => ?_
    -- Nobody of this name is at the address.
    have haway : ∀ b other, s.table.lookup b = some (.authenticated other) →
        other.username = username → ip b ≠ ip a := by
      rintro b other hother rfl hip
      exact hlaw a target hfind hrank.2 hrank.1 b other hother hip hne hranks
    refine ⟨fun b other hother husername => ⟨other, ?_, rfl, rfl⟩, fun h => h,
      fun b other hother husername h hbanned => ?_, rfl, rfl⟩
    · rw [Connections.lookup_removeAll, if_neg (mt (hmem hother).1 (haway b other hother husername))]
      exact hother
    · rcases mem_setBan.1 hbanned with hbanned | hbanned
      · exact h hbanned
      · exact haway b other hother husername hbanned

/-- The role that was given. -/
theorem role_insert_self (accounts : Accounts) (username : String) (role : Role) :
    Accounts.role (accounts.insert username (some role)) username = some role := by
  rw [Accounts.role, AList.lookup_insert]
  rfl

/-- The roles of the others stay. -/
theorem role_insert_ne (accounts : Accounts) {username username' : String} (h : username' ≠ username)
    (role : Role) :
    Accounts.role (accounts.insert username (some role)) username' = accounts.role username' := by
  rw [Accounts.role, AList.lookup_insert_ne h]
  rfl

/-- What a change of role does to a session. -/
theorem lookup_setRole {username : String} {role : Role} {b : Addr} {target' : Authenticated Addr}
    (h : (s.table.mapAll (setRole username role)).lookup b = some (.authenticated target')) :
    ∃ target, s.table.lookup b = some (.authenticated target) ∧ target'.username = target.username ∧
      (target.username = username ∧ target'.role = role ∨
        target.username ≠ username ∧ target' = target) := by
  rw [Connections.lookup_mapAll, Option.map_eq_some_iff] at h
  obtain ⟨entry, hentry, heq⟩ := h
  cases entry with
  | nonAuthenticated conn => cases heq
  | authenticated target =>
    rw [setRole] at heq
    refine ⟨target, hentry, ?_⟩
    split at heq
    · obtain rfl := Connection.authenticated.inj heq
      exact ⟨rfl, .inl ⟨‹_›, rfl⟩⟩
    · obtain rfl := Connection.authenticated.inj heq
      exact ⟨rfl, .inr ⟨‹_›, rfl⟩⟩

/-- **So is a role.** -/
theorem serverRoleRequest_iff (target : String) (role : Role) :
    RankProtected ip s (s.serverRoleRequest conn target role) conn ↔
      s.Lawful ip conn (.serverRoleRequest target role) := by
  unfold serverRoleRequest Lawful
  split
  · rename_i hrank
    refine ⟨fun _ username targetRole _ _ howner hle => ?_, fun _ => .refl s conn⟩
    rcases hrank with hrank | hrank
    · exact absurd hrank (not_lt.2 howner)
    · exact absurd hrank (not_lt.2 hle)
  rename_i hrank
  rw [not_or, not_lt, not_lt] at hrank
  split
  · rename_i hnone
    refine ⟨fun _ username targetRole h hne => ?_, fun _ => .refl s conn⟩
    rw [h, Option.filter_some, if_pos (decide_eq_true hne)] at hnone
    cases hnone
  rename_i username hfilter
  obtain ⟨hresolve, hne⟩ := Option.filter_eq_some_iff.1 hfilter
  have hne : username ≠ conn.username := of_decide_eq_true hne
  split
  · rename_i hnone
    refine ⟨fun _ username' targetRole h _ _ _ hstored => ?_, fun _ => .refl s conn⟩
    obtain rfl := Option.some.inj (hresolve.symm.trans h)
    rw [hnone] at hstored
    cases hstored
  rename_i targetRole hstored
  split
  · rename_i hrefused
    refine ⟨fun _ username' targetRole' h _ _ _ hstored' hlt hrole => ?_, fun _ => .refl s conn⟩
    obtain rfl := Option.some.inj (hresolve.symm.trans h)
    obtain rfl := Option.some.inj (hstored.symm.trans hstored')
    rcases hrefused with hle | heq
    · exact absurd hlt (not_lt.2 hle)
    · exact absurd heq hrole
  rename_i hchange
  rw [not_or, not_le] at hchange
  constructor
  · intro hprot username' targetRole' h _ _ _ _ _ _ hranks
    obtain rfl := Option.some.inj (hresolve.symm.trans h)
    have hkept := (hprot.others username hne hranks).role
    rw [role_insert_self, hstored] at hkept
    exact hchange.2 (Option.some.inj hkept).symm
  · intro hlaw
    have hlower := hlaw username targetRole hresolve hne hrank.1 hrank.2 hstored hchange.1 hchange.2
    constructor
    · intro username' hne' hranks
      have hother : username' ≠ username := by
        rintro rfl
        exact hlower hranks
      refine ⟨fun b other hother' husername => ⟨other, ?_, rfl, rfl⟩, fun h => h, fun _ _ _ _ h => h,
        role_insert_ne _ hother _, rfl⟩
      rw [Connections.lookup_mapAll, hother', Option.map_some, setRole, if_neg]
      rw [husername]
      exact hother
    · intro username' role' h
      by_cases heq : username' = username
      · rw [heq, role_insert_self] at h
        obtain rfl := Option.some.inj h
        exact .inr hrank.2
      · rw [role_insert_ne _ heq] at h
        exact .inl h
    · intro b target' h
      obtain ⟨target, htarget, _, ⟨_, hrole⟩ | ⟨_, rfl⟩⟩ := lookup_setRole h
      · exact ⟨target, htarget, .inr (hrole ▸ hrank.2)⟩
      · exact ⟨_, htarget, .inl rfl⟩
    · intro role' h
      rwa [role_insert_ne _ hne.symm] at h
    · intro b target' h husername
      obtain ⟨target, htarget, hname, ⟨htarget', _⟩ | ⟨_, rfl⟩⟩ := lookup_setRole h
      · exact absurd (htarget'.symm.trans (hname.symm.trans husername)) hne
      · exact ⟨_, htarget, rfl⟩

/-- **So is a deletion of a message.** -/
theorem deleteRequest_iff (messageId : U64) :
    RankProtected ip s (s.deleteRequest conn messageId) conn ↔
      s.Lawful ip conn (.deleteRequest messageId) := by
  unfold deleteRequest Lawful
  split
  · rename_i hnone
    refine ⟨fun _ author h => ?_, fun _ => .refl s conn⟩
    rw [hnone] at h
    cases h
  rename_i author hauthor
  split
  · rename_i hallowed
    obtain ⟨⟨index, record⟩, hentry, rfl⟩ := Option.map_eq_some_iff.1 hauthor
    have hget := History.getElem?_of_entry hentry
    have hrecords : (s.messages.delete messageId).2.2.history.records =
        s.messages.history.records.eraseIdx index := by
      rw [Messages.delete, hentry]
      rfl
    constructor
    · intro hprot author' h hne _ _ hranks
      obtain rfl := Option.some.inj (hauthor.symm.trans h)
      have hkept := (hprot.others _ hne hranks).messages
      have hlost := (Lib.filter_eraseIdx (fun r : Record => decide (r.username = record.username)) hget).1
      rw [← hrecords, hkept] at hlost
      simp at hlost
    · intro hlaw
      refine .of_same_roles rfl (fun b target' h => ⟨target', h, rfl⟩) fun username hne hranks => ?_
      have hother : record.username ≠ username := by
        rintro rfl
        rcases hallowed with hown | ⟨hmod, hlower⟩
        · exact hne hown
        · exact hlaw _ hauthor hne hmod hlower hranks
      refine ⟨fun b other h _ => ⟨other, h, rfl, rfl⟩, fun h => h, fun _ _ _ _ h => h, rfl, ?_⟩
      dsimp only
      rw [hrecords]
      exact (Lib.filter_eraseIdx _ hget).2 (decide_eq_false hother)
  · rename_i hrefused
    rw [not_or] at hrefused
    refine ⟨fun _ author' h _ hmod hlower => ?_, fun _ => .refl s conn⟩
    obtain rfl := Option.some.inj (hauthor.symm.trans h)
    exact absurd ⟨hmod, hlower⟩ hrefused.2

/-- Deleting one's own account is always within the ranks. -/
theorem accountDeleteRequest_protected {a : Addr} (valid : Bool)
    (hconn : s.table.lookup a = some (.authenticated conn)) :
    RankProtected ip s (s.accountDeleteRequest a conn valid) conn := by
  unfold accountDeleteRequest
  split
  · have hlookup : ∀ b target', (s.table.erase a).lookup b = some (.authenticated target') →
        s.table.lookup b = some (.authenticated target') := by
      intro b target' h
      by_cases hba : b = a
      · rw [hba, AList.lookup_erase] at h
        cases h
      · rwa [AList.lookup_erase_ne hba] at h
    have hrole : ∀ username, username ≠ conn.username →
        Accounts.role (s.accounts.erase conn.username) username = s.accounts.role username := by
      intro username hne
      rw [Accounts.role, AList.lookup_erase_ne hne]
      rfl
    have hgone : Accounts.role (s.accounts.erase conn.username) conn.username = none := by
      rw [Accounts.role, AList.lookup_erase]
      rfl
    constructor
    · intro username hne _
      refine ⟨fun b other hother husername => ⟨other, ?_, rfl, rfl⟩, fun h => h, fun _ _ _ _ h => h,
        hrole username hne, rfl⟩
      rw [AList.lookup_erase_ne]
      · exact hother
      rintro rfl
      obtain rfl := Connection.authenticated.inj (Option.some.inj (hconn.symm.trans hother))
      exact hne husername.symm
    · intro username role h
      by_cases heq : username = conn.username
      · rw [heq, hgone] at h
        cases h
      · rw [hrole username heq] at h
        exact .inl h
    · intro b target' h
      exact ⟨target', hlookup b target' h, .inl rfl⟩
    · intro role h
      rw [hgone] at h
      cases h
    · intro b target' h _
      exact ⟨target', hlookup b target' h, rfl⟩
  · exact .refl s conn

/-- **A request leaves the peers and superiors of its sender alone, gives nobody a role
above the sender's and the sender no other role, exactly if it is lawful.** -/
theorem rank_protected_iff [DecidableEq Ip] (ip : Addr → Ip) (s : ModerationServer Addr Ip) (a : Addr)
    (conn : Authenticated Addr) (hconn : s.table.lookup a = some (.authenticated conn))
    (request : ModerationRequest) :
    RankProtected ip s (s.handle ip a conn request) conn ↔ s.Lawful ip conn request := by
  cases request with
  | deleteRequest messageId => exact deleteRequest_iff messageId
  | serverMute id => exact serverMute_iff id
  | serverKick id => exact serverKick_iff id
  | serverBan target => exact serverBan_iff target
  | serverBanIp id => exact serverBanIp_iff id
  | serverRoleRequest target role => exact serverRoleRequest_iff target role
  | accountDeleteRequest valid =>
    exact ⟨fun _ => trivial, fun _ => accountDeleteRequest_protected valid hconn⟩
  | other => exact ⟨fun _ => trivial, fun _ => .refl s conn⟩

/-- A session of this name, role and id. -/
def session (username : String) (role : Role) (id : ℕ) : Authenticated (ℕ × ℕ) :=
  { writeStream := id, task := id, fileStreams := id, screenStream := none, peerAddr := (id, 0),
    username, device := none, role, id, keys := ([], []), attachedScreen := none, lastActivity := 0,
    lastKeyExchange := 0, lastImage := 0, lastTyping := 0, lastPm := none, spamViolations := 0,
    credit := 0, refill := 0, throttles := 0, channel := none, seq := 0, serverSeq := 0, alive := true,
    muted := false }

/-- Two owners in their sessions, each from an address of their own, and a user. -/
def twoOwners : ModerationServer (ℕ × ℕ) ℕ where
  table := ((∅ : Connections (ℕ × ℕ)).insert (0, 0) (.authenticated (session "anna" .owner 0))).insert
    (1, 0) (.authenticated (session "ben" .owner 1))
  accounts := ((AList.insert "anna" (some .owner) ∅).insert "ben" (some .owner)).insert "cyril"
    (some .user)
  bans := []
  ipBans := []
  messages := .start []

/-- **An owner bans another owner.** -/
theorem peer_banned :
    ¬∀ (s : ModerationServer (ℕ × ℕ) ℕ) (a : ℕ × ℕ) (conn : Authenticated (ℕ × ℕ))
      (request : ModerationRequest), s.table.lookup a = some (.authenticated conn) →
      RankProtected Prod.fst s (s.handle Prod.fst a conn request) conn := by
  intro h
  have hprot := h twoOwners (0, 0) (session "anna" .owner 0) (.serverBan "ben") (by decide)
  have hbanned := (hprot.others "ben" (by decide) (.inl ⟨.owner, by decide, by decide⟩)).bans (by decide)
  exact hbanned (by decide)

/-- An owner bans a user. -/
theorem rank_protected_user :
    RankProtected Prod.fst twoOwners
      (twoOwners.handle Prod.fst (0, 0) (session "anna" .owner 0) (.serverBan "cyril"))
      (session "anna" .owner 0) := by
  refine (rank_protected_iff Prod.fst twoOwners (0, 0) (session "anna" .owner 0) (by decide)
    (.serverBan "cyril")).2 ?_
  intro username hresolve _ _ hranks
  obtain rfl : "cyril" = username := Option.some.inj hresolve
  rcases hranks with ⟨role, hrole, hle⟩ | ⟨b, target, htarget, hname, _⟩
  · obtain rfl : Role.user = role := Option.some.inj hrole
    exact absurd hle (by decide)
  · -- Neither of the two sessions is theirs.
    have hmem := AList.mem_lookup_iff.1 htarget
    simp only [twoOwners] at hmem
    rcases List.mem_cons.1 hmem with h | h
    · cases h
      exact absurd hname (by decide)
    · rcases List.mem_cons.1 h with h | h
      · cases h
        exact absurd hname (by decide)
      · cases h

end ModerationServer

end Why2
