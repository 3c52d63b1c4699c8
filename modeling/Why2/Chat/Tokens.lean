/-
# One-time tokens

A session asks for a token on its main connection and presents it on a second
socket: `open_connection` (`chat/src/network/server/mod.rs`), and the sweep of
old tokens and the dispatch of the accept loop (`chat/src/bin/server.rs`).  The
table `PENDING_TOKENS` keeps the id of the session with the token.  The dispatch
takes the token out, and the task it starts looks the session up by that id, to
use its keys and to register itself there.

A session that ends leaves its tokens in the table, and its id is given to the
next session that logs in, so a token can reach another session
(`token_reaches_other_session`).  It reaches its own in every run in which no
session takes an id that a token, an auxiliary socket, a task or a session has
(`tokens_bound`).  A token is accepted at most once in any run.

Sessions and tokens are numbered in the order they are made; the numbers stand
for which session and which token it is and are not part of the server's state.
-/

import Why2.Chat.Moderation

namespace Why2

open Lib

variable {Addr : Type} [DecidableEq Addr] {File : Type}

/-- `ConnectionType`. -/
inductive ConnectionType (File : Type)
  | fileUpload (uid : U64)
  | image (uid : U64)
  | avatar (uid : U64)
  | icon (uid : U64)
  | voice (uid : U64)
  | fileDownload (uid : U64) (file : File)
  | screen
  | attach (id : ℕ)
deriving DecidableEq

/-- An entry of `PENDING_TOKENS`, with the number of the token and of its session. -/
structure PendingToken (File : Type) where
  id : ℕ
  kind : ConnectionType File
  created : Instant
  mint : ℕ
  owner : ℕ
deriving DecidableEq

/-- An auxiliary socket: the token it presented and what came with it. -/
structure Auxiliary (File : Type) where
  token : Vector U8 32
  pending : PendingToken File
deriving DecidableEq

/-- A session was looked up for a token: the token, its session and the session found. -/
structure TokenUse where
  mint : ℕ
  owner : ℕ
  user : ℕ
deriving DecidableEq, Repr

/-- The logins, with the id and the number each task works under and the number of the
session of each entry; the tokens; the auxiliary sockets; the numbers of the accepted
tokens; and every use of a session for a token. -/
structure TokenServer (Addr File : Type) where
  login : LoginServer Addr
  task : Addr → Option (ℕ × ℕ)
  serial : Addr → ℕ
  logins : ℕ
  pending : AList fun _ : Vector U8 32 => PendingToken File
  mints : ℕ
  sockets : List (Auxiliary File)
  accepted : List ℕ
  uses : List TokenUse

/-- One access to the shared state. -/
inductive TokenAction (Addr File : Type)
  | login (action : LoginAction Addr)
  | openConnection (a : Addr) (token : Vector U8 32) (kind : ConnectionType File) (now : Instant)
  | expire (now : Instant)
  | present (token : Vector U8 32)
  | access (k : ℕ) (handle : ℕ)
  | close (k : ℕ)

/-- What a task that found its session does to the entry: a screen share registers itself,
a viewer attaches; a file transfer goes into the shared map of the session's transfers. -/
def Auxiliary.register (socket : Auxiliary File) (handle : ℕ) (conn : Connection Addr) : Connection Addr :=
  match socket.pending.kind with
  | .screen => conn.set (.screenStream (some handle))
  | .attach sharer => conn.set (.attachedScreen (some ⟨handle, sharer, socket.token, false⟩))
  | _ => conn

omit [DecidableEq Addr] in
theorem Auxiliary.identity_register (socket : Auxiliary File) (handle : ℕ) (conn : Connection Addr) :
    (socket.register handle conn).identity = conn.identity := by
  unfold register
  split
  · exact conn.identity_set _
  · exact conn.identity_set _
  · rfl

namespace TokenServer

/-- The server as it starts. -/
def start : TokenServer Addr File where
  login := .empty
  task _ := none
  serial _ := 0
  logins := 0
  pending := ∅
  mints := 0
  sockets := []
  accepted := []
  uses := []

/-- A step of the login.  The task that stores its id starts a session. -/
def afterLogin (s : TokenServer Addr File) (action : LoginAction Addr) (login : LoginServer Addr) :
    TokenServer Addr File :=
  match action with
  | .authenticate a .. =>
    match s.login.phase a with
    | .numbered _ id =>
      { s with
        login
        task := Function.update s.task a (some (id, s.logins))
        serial := Function.update s.serial a s.logins
        logins := s.logins + 1 }
    | _ => { s with login }
  | .finish a => { s with login, task := Function.update s.task a none }
  | _ => { s with login }

/-- The tokens younger than five seconds. -/
def young (now : Instant) (pending : AList fun _ : Vector U8 32 => PendingToken File) :
    AList fun _ : Vector U8 32 => PendingToken File :=
  ⟨pending.entries.filter fun entry => (now - entry.2.created) / 1000 < 5,
    pending.nodupKeys.sublist List.filter_sublist⟩

/-- One action. -/
def step (s : TokenServer Addr File) : TokenAction Addr File → Option (TokenServer Addr File)
  | .login action => (s.login.step action).map (s.afterLogin action)
  | .openConnection a token kind now =>
    match s.task a with
    | none => none
    | some (id, owner) =>
      some { s with
        pending := s.pending.insert token ⟨id, kind, now, s.mints, owner⟩
        mints := s.mints + 1 }
  | .expire now => some { s with pending := young now s.pending }
  | .present token =>
    match s.pending.lookup token with
    -- An unknown token is the first packet of a main connection.
    | none => some s
    | some pending =>
      some { s with
        pending := s.pending.erase token
        sockets := ⟨token, pending⟩ :: s.sockets
        accepted := pending.mint :: s.accepted }
  | .access k handle =>
    match s.sockets[k]? with
    | none => none
    | some socket =>
      match s.login.table.byId socket.pending.id with
      | none => some s
      | some (a, _) =>
        some { s with
          login := { s.login with table := s.login.table.alter (socket.register handle) a }
          uses := ⟨socket.pending.mint, socket.pending.owner, s.serial a⟩ :: s.uses }
  | .close k => some { s with sockets := s.sockets.eraseIdx k }

/-- No token is accepted twice, and a session is used only for its own accepted tokens. -/
structure TokensBound (s : TokenServer Addr File) : Prop where
  once : s.accepted.Nodup
  accepted : ∀ use ∈ s.uses, use.mint ∈ s.accepted
  bound : ∀ use ∈ s.uses, use.user = use.owner

/-! ### A token that outlives its session -/

/-- A user asks for an upload and leaves.  The next one to log in gets the id, and the
socket that presents the token the session. -/
def inheritance : List (TokenAction ℕ ℕ) :=
  [.login (.connect 1 1 1 (.replicate 32 0) 0), .login (.keyExchange 1 ([1], [1]) 0),
    .login (.checkName 1 ⟨1, 16, "server"⟩ "anna"), .login (.recordName 1), .login (.pickId 1),
    .login (.authenticate 1 ⟨0, 5⟩ none .user 1 0),
    .openConnection 1 (.replicate 32 7) (.fileUpload 3) 1000, .login (.remove 1), .login (.finish 1),
    .login (.connect 2 2 2 (.replicate 32 0) 1000), .login (.keyExchange 2 ([2], [2]) 1000),
    .login (.checkName 2 ⟨1, 16, "server"⟩ "ben"), .login (.recordName 2), .login (.pickId 2),
    .login (.authenticate 2 ⟨0, 5⟩ none .user 2 2000),
    .expire 3000, .present (.replicate 32 7), .access 0 5]

/-- **A token of a session that has ended reaches the next one.** -/
theorem token_reaches_other_session :
    ¬∀ (actions : List (TokenAction ℕ ℕ)) (s : TokenServer ℕ ℕ),
      exec step start actions = some s → s.TokensBound := by
  intro h
  have hvalues : (exec step start inheritance).map (·.uses) = some [⟨0, 0, 1⟩] := by decide
  obtain ⟨s, hs, huses⟩ := Option.map_eq_some_iff.1 hvalues
  have hbound := (h inheritance s hs).bound ⟨0, 0, 1⟩ (by rw [huses]; exact List.mem_singleton_self _)
  cases hbound

/-! ### Without such a token -/

/-- Every session with this id has this number. -/
def Owned (s : TokenServer Addr File) (id owner : ℕ) : Prop :=
  ∀ a username, s.login.table.identity a = some (id, username) → s.serial a = owner

/-- The condition: the id a session takes is not that of a pending token, of an auxiliary
socket, of another session or of a task that is still running. -/
def Reserved (s : TokenServer Addr File) : TokenAction Addr File → Prop
  | .login (.authenticate a ..) => ∀ username id, s.login.phase a = .numbered username id →
      (∀ entry ∈ s.pending.entries, entry.2.id ≠ id) ∧ (∀ socket ∈ s.sockets, socket.pending.id ≠ id) ∧
      ∀ b, b ≠ a → (∀ x ∈ s.login.table.identity b, x.1 ≠ id) ∧ ∀ x ∈ s.task b, x.1 ≠ id
  | _ => True

instance [Fintype Addr] (s : TokenServer Addr File) (action : TokenAction Addr File) :
    Decidable (s.Reserved action) :=
  match action with
  | .login (.authenticate a ..) =>
    match h : s.login.phase a with
    | .numbered username id =>
      decidable_of_iff ((∀ entry ∈ s.pending.entries, entry.2.id ≠ id) ∧
        (∀ socket ∈ s.sockets, socket.pending.id ≠ id) ∧
        ∀ b, b ≠ a → (∀ x ∈ s.login.table.identity b, x.1 ≠ id) ∧ ∀ x ∈ s.task b, x.1 ≠ id) (by
          simp only [Reserved, h, LoginPhase.numbered.injEq]
          exact ⟨by rintro hfree _ _ ⟨rfl, rfl⟩; exact hfree, fun hfree => hfree _ _ ⟨rfl, rfl⟩⟩)
    | .idle | .handshake | .checked _ | .recorded _ | .session =>
      .isTrue fun _ _ hphase => by rw [h] at hphase; cases hphase
  | .login (.connect ..) | .login (.keyExchange ..) | .login (.checkName ..) | .login (.recordName ..)
  | .login (.pickId ..) | .login (.channel ..) | .login (.set ..) | .login (.remove ..)
  | .login (.finish ..) | .openConnection .. | .expire .. | .present .. | .access .. | .close .. =>
    .isTrue trivial

/-- The invariant: the tokens, the sockets and the tasks know their sessions, every use was
of the right session, and the numbers of the tokens are fresh. -/
structure Inv (s : TokenServer Addr File) : Prop where
  pending : ∀ token p, s.pending.lookup token = some p → s.Owned p.id p.owner
  sockets : ∀ socket ∈ s.sockets, s.Owned socket.pending.id socket.pending.owner
  tasks : ∀ a id owner, s.task a = some (id, owner) → s.Owned id owner
  bound : ∀ use ∈ s.uses, use.user = use.owner
  fresh : ∀ token p, s.pending.lookup token = some p → p.mint < s.mints ∧ p.mint ∉ s.accepted
  distinct : ∀ token token' p p', s.pending.lookup token = some p → s.pending.lookup token' = some p' →
    p.mint = p'.mint → token = token'
  minted : ∀ mint ∈ s.accepted, mint < s.mints
  once : s.accepted.Nodup
  dispatched : ∀ socket ∈ s.sockets, socket.pending.mint ∈ s.accepted
  accepted : ∀ use ∈ s.uses, use.mint ∈ s.accepted

variable {s s' : TokenServer Addr File} {action : TokenAction Addr File}

omit [DecidableEq Addr] in
theorem lookup_young {now : Instant} {token : Vector U8 32} {p : PendingToken File}
    (h : (young now s.pending).lookup token = some p) : s.pending.lookup token = some p :=
  AList.mem_lookup_iff.2 (List.mem_of_mem_filter (AList.mem_lookup_iff.1 h))

/-- Sessions that were there before have the same number. -/
theorem Owned.frame {id owner : ℕ} (howned : s.Owned id owner) (hserial : s'.serial = s.serial)
    (hidentity : ∀ b x, s'.login.table.identity b = some x → s.login.table.identity b = some x) :
    s'.Owned id owner := by
  intro a username ha
  rw [hserial]
  exact howned a username (hidentity a _ ha)

/-- The invariant after a step that makes no session and no token. -/
theorem Inv.frame (hinv : s.Inv) (hserial : s'.serial = s.serial)
    (hidentity : ∀ b x, s'.login.table.identity b = some x → s.login.table.identity b = some x)
    (htask : ∀ b x, s'.task b = some x → s.task b = some x)
    (hpending : ∀ token p, s'.pending.lookup token = some p → s.pending.lookup token = some p)
    (hsockets : ∀ socket ∈ s'.sockets, socket ∈ s.sockets) (hmints : s'.mints = s.mints)
    (haccepted : s'.accepted = s.accepted) (hbound : ∀ use ∈ s'.uses, use.user = use.owner)
    (huses : ∀ use ∈ s'.uses, use.mint ∈ s.accepted) : s'.Inv := by
  constructor
  · exact fun token p h => (hinv.pending token p (hpending token p h)).frame hserial hidentity
  · exact fun socket h => (hinv.sockets socket (hsockets socket h)).frame hserial hidentity
  · exact fun a id owner h => (hinv.tasks a id owner (htask a _ h)).frame hserial hidentity
  · exact hbound
  · rw [hmints, haccepted]
    exact fun token p h => hinv.fresh token p (hpending token p h)
  · exact fun token token' p p' h h' => hinv.distinct token token' p p' (hpending _ _ h) (hpending _ _ h')
  · rw [hmints, haccepted]
    exact hinv.minted
  · rw [haccepted]
    exact hinv.once
  · rw [haccepted]
    exact fun socket h => hinv.dispatched socket (hsockets socket h)
  · rw [haccepted]
    exact huses

/-- A step of the login that makes no session. -/
theorem Inv.login (hinv : s.Inv) {action : LoginAction Addr} {login : LoginServer Addr}
    (hstep : s.login.step action = some login)
    (hnot : ∀ a config device role fileStreams now,
      action ≠ .authenticate a config device role fileStreams now) : (s.afterLogin action login).Inv := by
  have hidentity : ∀ b x, login.table.identity b = some x → s.login.table.identity b = some x := by
    intro b x hb
    rcases LoginServer.step_identity hstep hb with hold | ⟨-, config, device, role, fileStreams, now, heq⟩
    · exact hold
    · exact absurd heq (hnot b config device role fileStreams now)
  cases action with
  | authenticate a config device role fileStreams now => exact absurd rfl (hnot a _ _ _ _ _)
  | finish a =>
    refine hinv.frame rfl hidentity (fun b x hb => ?_) (fun _ _ h => h) (fun _ h => h) rfl rfl hinv.bound
      hinv.accepted
    simp only [afterLogin] at hb
    rcases eq_or_ne b a with rfl | hba
    · rw [Function.update_self] at hb
      cases hb
    · rwa [Function.update_of_ne hba] at hb
  | _ =>
    exact hinv.frame rfl hidentity (fun _ _ h => h) (fun _ _ h => h) (fun _ h => h) rfl rfl hinv.bound
      hinv.accepted

/-- **A session that takes a reserved id has nothing of another.** -/
theorem Inv.authenticate (hinv : s.Inv) {a : Addr} {config : LoginConfig} {device : Option Device}
    {role : Role} {fileStreams : ℕ} {now : Instant} {login : LoginServer Addr}
    (hcond : s.Reserved (.login (.authenticate a config device role fileStreams now)))
    (hstep : s.login.step (.authenticate a config device role fileStreams now) = some login) :
    (s.afterLogin (.authenticate a config device role fileStreams now) login).Inv := by
  obtain ⟨username, id, hphase⟩ : ∃ username id, s.login.phase a = .numbered username id := by
    rw [LoginServer.step] at hstep
    split at hstep
    · rename_i username id hphase
      exact ⟨username, id, hphase⟩
    · cases hstep
  obtain ⟨hpending, hsockets, hothers⟩ := hcond username id hphase
  have hafter : s.afterLogin (.authenticate a config device role fileStreams now) login =
      { s with
        login
        task := Function.update s.task a (some (id, s.logins))
        serial := Function.update s.serial a s.logins
        logins := s.logins + 1 } := by
    simp only [afterLogin, hphase]
  rw [hafter]
  -- The sessions at the other addresses are the old ones.
  have hidentity : ∀ b x, b ≠ a → login.table.identity b = some x → s.login.table.identity b = some x := by
    intro b x hba hb
    rcases LoginServer.step_identity hstep hb with hold | ⟨-, _, _, _, _, _, heq⟩
    · exact hold
    · obtain ⟨rfl, -⟩ := LoginAction.authenticate.inj heq
      exact absurd rfl hba
  have hold : ∀ i owner, i ≠ id → s.Owned i owner → ∀ b name,
      login.table.identity b = some (i, name) → Function.update s.serial a s.logins b = owner := by
    intro i owner hi howned b name hb
    rcases eq_or_ne b a with rfl | hba
    · have hpicked := LoginServer.identity_authenticate hstep hb
      rw [hphase] at hpicked
      exact absurd (LoginPhase.numbered.inj hpicked).2.symm hi
    · rw [Function.update_of_ne hba]
      exact howned b name (hidentity b _ hba hb)
  refine ⟨?_, ?_, ?_, hinv.bound, hinv.fresh, hinv.distinct, hinv.minted, hinv.once, hinv.dispatched,
    hinv.accepted⟩
  · intro token p hp
    exact hold p.id p.owner (hpending ⟨token, p⟩ (AList.mem_lookup_iff.1 hp)) (hinv.pending token p hp)
  · intro socket hsocket
    exact hold _ _ (hsockets socket hsocket) (hinv.sockets socket hsocket)
  · intro b i owner hb
    dsimp only at hb
    rcases eq_or_ne b a with rfl | hba
    · -- The new session is the only one with its id.
      rw [Function.update_self] at hb
      obtain ⟨rfl, rfl⟩ := Prod.mk.inj (Option.some.inj hb)
      intro c name hc
      rcases eq_or_ne c b with rfl | hcb
      · exact Function.update_self ..
      · exact absurd rfl ((hothers c hcb).1 _ (hidentity c _ hcb hc))
    · rw [Function.update_of_ne hba] at hb
      exact hold i owner ((hothers b hba).2 _ hb) (hinv.tasks b i owner hb)

/-- A new token is of the session that asked for it. -/
theorem Inv.openConnection (hinv : s.Inv) {a : Addr} {token : Vector U8 32} {kind : ConnectionType File}
    {now : Instant} (h : s.step (.openConnection a token kind now) = some s') : s'.Inv := by
  rw [TokenServer.step] at h
  split at h
  · cases h
  · rename_i id owner htask
    obtain rfl := Option.some.inj h
    have hcases : ∀ token' p, (s.pending.insert token ⟨id, kind, now, s.mints, owner⟩).lookup token' =
        some p → token' = token ∧ p = ⟨id, kind, now, s.mints, owner⟩ ∨
          token' ≠ token ∧ s.pending.lookup token' = some p := by
      intro token' p hp
      rcases eq_or_ne token' token with rfl | hne
      · rw [AList.lookup_insert] at hp
        exact .inl ⟨rfl, (Option.some.inj hp).symm⟩
      · rw [AList.lookup_insert_ne hne] at hp
        exact .inr ⟨hne, hp⟩
    refine ⟨?_, hinv.sockets, hinv.tasks, hinv.bound, ?_, ?_, ?_, hinv.once, hinv.dispatched, hinv.accepted⟩
    · intro token' p hp
      rcases hcases token' p hp with ⟨-, rfl⟩ | ⟨-, hold⟩
      · exact hinv.tasks a id owner htask
      · exact hinv.pending token' p hold
    · intro token' p hp
      rcases hcases token' p hp with ⟨-, rfl⟩ | ⟨-, hold⟩
      · exact ⟨Nat.lt_succ_self _, fun hmem => Nat.lt_irrefl _ (hinv.minted _ hmem)⟩
      · exact ⟨Nat.lt_succ_of_lt (hinv.fresh token' p hold).1, (hinv.fresh token' p hold).2⟩
    · intro t₁ t₂ p₁ p₂ h₁ h₂ hmint
      rcases hcases t₁ p₁ h₁ with ⟨rfl, rfl⟩ | ⟨-, hold₁⟩
      · rcases hcases t₂ p₂ h₂ with ⟨rfl, -⟩ | ⟨-, hold₂⟩
        · rfl
        · have := (hinv.fresh t₂ p₂ hold₂).1
          exact absurd hmint (by dsimp only; omega)
      · rcases hcases t₂ p₂ h₂ with ⟨rfl, rfl⟩ | ⟨-, hold₂⟩
        · have := (hinv.fresh t₁ p₁ hold₁).1
          exact absurd hmint (by dsimp only; omega)
        · exact hinv.distinct t₁ t₂ p₁ p₂ hold₁ hold₂ hmint
    · exact fun mint hmem => Nat.lt_succ_of_lt (hinv.minted mint hmem)

/-- A token that is presented is taken out, and the socket is of its session. -/
theorem Inv.present (hinv : s.Inv) {token : Vector U8 32} (h : s.step (.present token) = some s') :
    s'.Inv := by
  rw [TokenServer.step] at h
  split at h
  · obtain rfl := Option.some.inj h
    exact hinv
  · rename_i p hp
    obtain rfl := Option.some.inj h
    have hcases : ∀ token' p', (s.pending.erase token).lookup token' = some p' →
        token' ≠ token ∧ s.pending.lookup token' = some p' := by
      intro token' p' hp'
      rcases eq_or_ne token' token with rfl | hne
      · rw [AList.lookup_erase] at hp'
        cases hp'
      · rw [AList.lookup_erase_ne hne] at hp'
        exact ⟨hne, hp'⟩
    refine ⟨?_, ?_, hinv.tasks, hinv.bound, ?_, ?_, ?_, ?_, ?_, ?_⟩
    · exact fun token' p' hp' => hinv.pending token' p' (hcases token' p' hp').2
    · intro socket hmem
      rcases List.mem_cons.1 hmem with rfl | hold
      · exact hinv.pending token p hp
      · exact hinv.sockets socket hold
    · intro token' p' hp'
      obtain ⟨hne, hold⟩ := hcases token' p' hp'
      refine ⟨(hinv.fresh token' p' hold).1, fun hmem => ?_⟩
      rcases List.mem_cons.1 hmem with hmint | hmem
      · exact hne (hinv.distinct token' token p' p hold hp hmint)
      · exact (hinv.fresh token' p' hold).2 hmem
    · intro t₁ t₂ p₁ p₂ h₁ h₂
      exact hinv.distinct t₁ t₂ p₁ p₂ (hcases t₁ p₁ h₁).2 (hcases t₂ p₂ h₂).2
    · intro mint hmem
      rcases List.mem_cons.1 hmem with rfl | hold
      · exact (hinv.fresh token p hp).1
      · exact hinv.minted mint hold
    · exact List.nodup_cons.2 ⟨(hinv.fresh token p hp).2, hinv.once⟩
    · intro socket hmem
      rcases List.mem_cons.1 hmem with rfl | hold
      · exact List.mem_cons_self
      · exact List.mem_cons_of_mem _ (hinv.dispatched socket hold)
    · exact fun use hmem => List.mem_cons_of_mem _ (hinv.accepted use hmem)

/-- The session a socket finds by the id is the one the token was for. -/
theorem Inv.access (hinv : s.Inv) {k handle : ℕ} (h : s.step (.access k handle) = some s') : s'.Inv := by
  rw [TokenServer.step] at h
  split at h
  · cases h
  rename_i socket hsocket
  split at h
  · obtain rfl := Option.some.inj h
    exact hinv
  · rename_i a conn hconn
    obtain rfl := Option.some.inj h
    have hmem := List.mem_of_getElem? hsocket
    obtain ⟨hlookup, hid⟩ := Connections.findSession_spec hconn
    have hidentity : s.login.table.identity a = some (socket.pending.id, conn.username) := by
      rw [Connections.identity, hlookup, ← of_decide_eq_true hid]
      rfl
    refine hinv.frame rfl (fun b x hb => ?_) (fun _ _ h => h) (fun _ _ h => h) (fun _ h => h) rfl rfl ?_ ?_
    · rwa [Connections.identity_alter (socket.identity_register handle)] at hb
    · intro use huse
      rcases List.mem_cons.1 huse with rfl | hold
      · exact hinv.sockets socket hmem a conn.username hidentity
      · exact hinv.bound use hold
    · intro use huse
      rcases List.mem_cons.1 huse with rfl | hold
      · exact hinv.dispatched socket hmem
      · exact hinv.accepted use hold

/-- **Every action under the condition keeps the invariant.** -/
theorem Inv.step (hinv : s.Inv) (hcond : s.Reserved action) (h : s.step action = some s') : s'.Inv := by
  cases action with
  | login action =>
    obtain ⟨login, hstep, rfl⟩ := Option.map_eq_some_iff.1 h
    cases action with
    | authenticate a config device role fileStreams now => exact hinv.authenticate hcond hstep
    | _ => exact hinv.login hstep (by simp)
  | openConnection a token kind now => exact hinv.openConnection h
  | expire now =>
    obtain rfl := Option.some.inj h
    exact hinv.frame rfl (fun _ _ h => h) (fun _ _ h => h) (fun _ _ => lookup_young) (fun _ h => h) rfl rfl
      hinv.bound hinv.accepted
  | present token => exact hinv.present h
  | access k handle => exact hinv.access h
  | close k =>
    obtain rfl := Option.some.inj h
    exact hinv.frame rfl (fun _ _ h => h) (fun _ _ h => h) (fun _ _ h => h)
      (fun _ h => List.mem_of_mem_eraseIdx h) rfl rfl hinv.bound hinv.accepted

theorem start_inv : (start : TokenServer Addr File).Inv := by
  constructor
  · exact fun token p h => by cases h
  · exact fun socket h => by cases h
  · exact fun a id owner h => by cases h
  · exact fun use h => by cases h
  · exact fun token p h => by cases h
  · exact fun token token' p p' h => by cases h
  · exact fun mint h => by cases h
  · exact List.nodup_nil
  · exact fun socket h => by cases h
  · exact fun use h => by cases h

/-- **A token reaches its own session and no other.**  In every run in which no session
takes an id that a pending token, an auxiliary socket, another session or a running task
has, no token is accepted twice, and whenever a session is used for a token, it is the one
the token was made for, which has not ended. -/
theorem tokens_bound (actions : List (TokenAction Addr File)) {s : TokenServer Addr File}
    (hmeets : Meets step Reserved start actions) (hrun : exec step start actions = some s) :
    s.TokensBound := by
  have hinv : s.Inv := exec_induct (fun _ _ _ => Inv.step) start_inv hmeets hrun
  exact ⟨hinv.once, hinv.accepted, hinv.bound⟩

/-- The first user's token is swept before the second one logs in; the second uploads. -/
def expiry : List (TokenAction Bool ℕ) :=
  [.login (.connect false 1 1 (.replicate 32 0) 0), .login (.keyExchange false ([1], [1]) 0),
    .login (.checkName false ⟨1, 16, "server"⟩ "anna"), .login (.recordName false), .login (.pickId false),
    .login (.authenticate false ⟨0, 5⟩ none .user 1 0),
    .openConnection false (.replicate 32 7) (.fileUpload 3) 1000, .login (.remove false), .login (.finish false),
    .expire 6000,
    .login (.connect true 2 2 (.replicate 32 0) 6000), .login (.keyExchange true ([2], [2]) 6000),
    .login (.checkName true ⟨1, 16, "server"⟩ "ben"), .login (.recordName true), .login (.pickId true),
    .login (.authenticate true ⟨0, 5⟩ none .user 2 6000),
    .openConnection true (.replicate 32 8) (.fileUpload 4) 7000,
    .present (.replicate 32 7), .present (.replicate 32 8), .present (.replicate 32 8), .access 0 5]

/-- The theorem on that run. -/
theorem tokens_bound_expiry : ∃ s : TokenServer Bool ℕ,
    exec step start expiry = some s ∧ Meets step Reserved start expiry ∧ s.TokensBound ∧
      s.accepted = [1] ∧ s.uses = [⟨1, 1, 1⟩] := by
  have hvalues : (exec step start expiry).map (fun s : TokenServer Bool ℕ => (s.accepted, s.uses)) =
      some ([1], [⟨1, 1, 1⟩]) := by decide
  obtain ⟨s, hs, hvalue⟩ := Option.map_eq_some_iff.1 hvalues
  obtain ⟨haccepted, huses⟩ := Prod.mk.inj hvalue
  have hmeets : Meets step Reserved start expiry := by decide
  exact ⟨s, hs, hmeets, tokens_bound expiry hmeets hs, haccepted, huses⟩

end TokenServer

end Why2
