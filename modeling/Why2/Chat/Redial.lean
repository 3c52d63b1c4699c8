/-
# Dialling back

A session that ends on its own dials itself back and answers the server's questions
(`chat/src/bin/client/tui/login.rs`, `state.rs`, `event.rs` and `mod.rs`).  What is typed
at each step is remembered, and kept as the credentials once the server accepts it.

Between two acceptances there are at most `RECONNECT_ATTEMPTS` dials and two answers
for each (`redial_bounded`), and after a logout, a cancelled dial, a farewell of the
server or a name it refuses there is none (`given_up`).  A remembered answer only goes to
the address that it was typed for, provided that a server asks for the name and the
password before it accepts, and that no cancelled dial is still under way then
(`replayed_where_typed`).  What was typed last is not forgotten with a session: a server that
accepts without asking gets the pair that was typed for another one
(`replayed_elsewhere`).  The counter of the dials is lost with the box, and a cancelled dial
that takes longer than `RECONNECT_DELAY` would be taken for the one that dials back
(`cancelled_dial_taken`); `CONNECT_TIMEOUT` ends it before.

The server is only a source of events here, and it may send any of them at any time.
The field holds a text without a cursor.  A dial takes some time and may fail.
-/

import Why2.Chat.Text
import Why2.Lib.Runs
import Mathlib.Data.List.Nodup

namespace Why2
namespace Redial

open Lib

/-- `RECONNECT_DELAY`, in milliseconds. -/
def reconnectDelay : ℕ := 3000

/-- `RECONNECT_ATTEMPTS`. -/
def reconnectAttempts : ℕ := 5

/-- `Stage`. -/
inductive Stage
  | address
  | username
  | password (register : Bool)
deriving DecidableEq

/-! ### The credentials -/

/-- `Reconnect`. -/
structure Reconnect where
  /-- The name and the password that the server accepted. -/
  credentials : Option (String × String)
  /-- What was typed last at the two steps. -/
  typed : String × String
  due : Option ℕ
  left : ℕ
  answers : ℕ
  retrying : Bool
  submit : Bool
deriving DecidableEq

namespace Reconnect

/-- `forget`. -/
def forget : Reconnect := ⟨none, ("", ""), none, 0, 0, false, false⟩

/-- `remember`. -/
def remember (stage : Stage) (text : String) (r : Reconnect) : Reconnect :=
  match stage with
  | .username => { r with typed := (text, r.typed.2) }
  | .password _ => { r with typed := (r.typed.1, text) }
  | .address => r

/-- `passwd`. -/
def passwd (password : String) (r : Reconnect) : Reconnect :=
  { r with credentials := r.credentials.map fun pair => (pair.1, password) }

/-- `accepted`. -/
def accepted (r : Reconnect) : Reconnect :=
  { r with credentials := some r.typed, left := reconnectAttempts, retrying := false, due := none }

/-- `arm`. -/
def arm (now : ℕ) (r : Reconnect) : Reconnect :=
  if r.credentials = none ∨ r.left = 0 then { r with retrying := false }
  else { r with left := r.left - 1, retrying := true, answers := 2, due := some (now + reconnectDelay) }

/-- `take_due`. -/
def takeDue (now : ℕ) (r : Reconnect) : Bool × Reconnect :=
  match r.due with
  | none => (false, r)
  | some due => if now < due then (false, r) else (true, { r with due := none })

/-- `answer`. -/
def answer (stage : Stage) (r : Reconnect) : Option (String × Reconnect) :=
  if r.retrying = false ∨ r.answers = 0 then none
  else
    match r.credentials, stage with
    | some (username, _), .username => some (username, { r with answers := r.answers - 1 })
    | some (_, password), .password false => some (password, { r with answers := r.answers - 1 })
    | _, _ => none

end Reconnect

/-! ### The box -/

/-- `Login`. -/
structure Login where
  input : String
  stage : Stage
  busy : Bool
  connected : Bool
  attempt : ℕ
deriving DecidableEq

/-- `Login::ask`. -/
def Login.ask (stage : Stage) (login : Login) : Login := { login with stage, busy := false, input := "" }

/-- What a server makes the client do about its identity. -/
inductive ServerEvent
  | username
  | login
  | register
  | authenticated
  | usernameRejected
  /-- `Quit`, with whether the server said so. -/
  | quit (said : Bool)
  /-- `HandshakeFailed` and `ReconnectFailed`. -/
  | failed
  | passwd (changed : Bool)
deriving DecidableEq

/-- `App`: what getting in is about. -/
structure Client where
  login : Option Login
  reconnect : Reconnect
  address : String
  /-- The dials that have no result yet. -/
  dialling : List (ℕ × String)
  /-- The address of the connection. -/
  stream : Option String
  /-- The new password of the account form, when it was confirmed. -/
  account : Option String
  loggingOut : Bool
deriving DecidableEq

namespace Client

/-- `connect`. -/
def connect (s : Client) : Client :=
  match s.login with
  | none => s
  | some login =>
    let display := trim login.input
    if display = "" then s
    else
      { s with login := some { login with busy := true, attempt := login.attempt + 1 }
               address := display, dialling := s.dialling ++ [(login.attempt + 1, display)] }

/-- `take_input`, in the box. -/
def takeInput (login : Login) (s : Client) : Client :=
  { s with login := some { login with input := "", busy := true }
           reconnect := s.reconnect.remember login.stage login.input }

/-- `disconnected`. -/
def disconnected (now : ℕ) (s : Client) : Client :=
  let attempt := (s.login.map Login.attempt).getD 0
  let reconnect := (if s.loggingOut then .forget else s.reconnect).arm now
  { s with login := some ⟨s.address, .address, reconnect.retrying, false, attempt⟩
           reconnect, stream := none, account := none, loggingOut := false }

/-- `Login::ask`, then `answer_step`. -/
def ask (stage : Stage) (s : Client) : Client :=
  let login := s.login.map (Login.ask stage)
  match s.reconnect.answer stage with
  | none => { s with login }
  | some (answer, reconnect) =>
    { s with login := login.map fun login => { login with input := answer }
             reconnect := { reconnect with submit := true } }

/-- `apply`. -/
def apply (event : ServerEvent) (now : ℕ) (s : Client) : Client :=
  match event with
  | .username => s.ask .username
  | .login => s.ask (.password false)
  | .register => s.ask (.password true)
  | .authenticated => { s with login := none, reconnect := s.reconnect.accepted }
  | .usernameRejected => { s with reconnect := .forget }
  | .quit said =>
    if s.loggingOut then s.disconnected now
    else if said then ({ s with reconnect := .forget } : Client).disconnected now
    else s.disconnected now
  | .failed => s.disconnected now
  | .passwd true =>
    match s.account with
    | none => s
    | some new => { s with account := none, reconnect := s.reconnect.passwd new }
  -- the form starts over
  | .passwd false => { s with account := s.account.map fun _ => "" }

/-- `connected`: the result of a dial that the box waits for. -/
def connected (attempt : ℕ) (address : String) (ok : Bool) (now : ℕ) (s : Client) : Client :=
  match s.login with
  | none => s
  | some login =>
    if login.busy ∧ attempt = login.attempt then
      if ok then { s with stream := some address, login := some { login with connected := true } }
      else
        let reconnect := s.reconnect.arm now
        { s with login := some { login with busy := reconnect.retrying }, reconnect }
    else s

end Client

/-! ### Runs -/

/-- A line that is handed to a server. -/
structure Sent where
  address : String
  text : String
  /-- It is an answer that the client gives for the user. -/
  replayed : Bool
deriving DecidableEq

/-- The client, and what it did. -/
structure Watched where
  client : Client
  /-- The texts that the user typed, with the address that was dialled. -/
  typed : List (String × String)
  sent : List Sent
  /-- Whether the name and the password were given on this connection. -/
  answered : Bool × Bool
  /-- The dials that the client made for the user since the last acceptance. -/
  redials : ℕ
  /-- The answers that it gave for the user since it was last armed. -/
  replays : ℕ
deriving DecidableEq

/-- What happens to a client that is watched. -/
inductive Action
  /-- Keys and pastes leave this text in the field. -/
  | edit (text : String)
  | enter
  | esc
  /-- A dial ends. -/
  | dialled (attempt : ℕ) (address : String) (ok : Bool) (now : ℕ)
  | tick (now : ℕ)
  | event (event : ServerEvent) (now : ℕ)
  /-- `/logout`. -/
  | logout
  | openAccount
  /-- The form of a new password is confirmed. -/
  | confirm (new : String)
  | closeAccount
deriving DecidableEq

namespace Watched

/-- Which step was given. -/
def given (stage : Stage) (answered : Bool × Bool) : Bool × Bool :=
  match stage with
  | .username => (true, answered.2)
  | .password _ => (answered.1, true)
  | .address => answered

/-- `take_input` and `submit`.  Without the box the line is empty, and is not sent. -/
def submit (replayed : Bool) (w : Watched) : Watched :=
  match w.client.stream, w.client.login with
  | some address, some login =>
    { w with client := w.client.takeInput login, sent := w.sent ++ [⟨address, login.input, replayed⟩]
             answered := given login.stage w.answered }
  | _, _ => w

/-- A dial that is due. -/
def dial (now : ℕ) (w : Watched) : Watched :=
  match w.client.reconnect.takeDue now with
  | (false, _) => w
  | (true, reconnect) =>
    { w with client := ({ w.client with reconnect } : Client).connect, redials := w.redials + 1 }

/-- An answer that waits in the field. -/
def answer (w : Watched) : Watched :=
  if w.client.reconnect.submit ∧ w.client.stream.isSome then
    submit true { w with client := { w.client with reconnect := { w.client.reconnect with submit := false } } }
  else w

/-- The answers since the client was last armed. -/
def sinceArmed (before after : Reconnect) (replays : ℕ) : ℕ :=
  if after.retrying ∧ after.left + 1 = before.left then 0 else replays

/-- The client does what a server says. -/
def event (event : ServerEvent) (now : ℕ) (w : Watched) : Watched :=
  let client := w.client.apply event now
  let asked (stage : Stage) : ℕ := if (w.client.reconnect.answer stage).isSome then 1 else 0
  match event with
  | .username => { w with client, replays := w.replays + asked .username }
  | .login => { w with client, replays := w.replays + asked (.password false) }
  | .register => { w with client, replays := w.replays + asked (.password true) }
  | .authenticated => { w with client, redials := 0 }
  | .quit _ | .failed => { w with client, replays := sinceArmed w.client.reconnect client.reconnect w.replays }
  | .usernameRejected | .passwd _ => { w with client }

/-- One action. -/
def step (w : Watched) : Action → Option Watched
  | .edit text =>
    match w.client.login with
    | none => none
    | some login =>
      if login.busy then none
      else
        let client := { w.client with login := some { login with input := text } }
        if login.stage = .address then some { w with client }
        else some { w with client, typed := w.typed ++ [(w.client.address, text)] }
  | .enter =>
    match w.client.login with
    | none => none
    | some login =>
      if login.busy then none
      else if login.stage = .address then some { w with client := w.client.connect }
      else if login.input = "" then some w
      else some (w.submit false)
  | .esc =>
    match w.client.login with
    | none => none
    | some login =>
      -- anywhere else, Esc leaves the client
      if login.connected ∨ login.stage ≠ .address ∨ login.busy = false then none
      else
        some { w with client := { w.client with login := some { login with busy := false }, reconnect := .forget } }
  | .dialled attempt address ok now =>
    if (attempt, address) ∈ w.client.dialling then
      let dialled := { w.client with dialling := w.client.dialling.erase (attempt, address) }
      let client := dialled.connected attempt address ok now
      some { w with
        client
        answered := if client.stream = dialled.stream then w.answered else (false, false)
        replays := sinceArmed w.client.reconnect client.reconnect w.replays }
    else none
  | .tick now => some (w.dial now).answer
  | .event event now => if w.client.stream.isSome then some (w.event event now) else none
  | .logout =>
    if w.client.login = none ∧ w.client.stream.isSome then
      some { w with client := { w.client with loggingOut := true } }
    else none
  | .openAccount =>
    if w.client.login = none then some { w with client := { w.client with account := some "" } } else none
  | .confirm new =>
    match w.client.account, w.client.stream with
    | some _, some address =>
      some { w with client := { w.client with account := some new }
                    typed := w.typed ++ [(w.client.address, new)], sent := w.sent ++ [⟨address, new, false⟩] }
    | _, _ => none
  | .closeAccount => some { w with client := { w.client with account := none } }

/-- The box as it opens, with the address that is dialled without a key if there is one. -/
def start (auto : Option String) : Watched where
  client :=
    let login : Login := ⟨trim (auto.getD ""), .address, auto.isSome, false, 0⟩
    let client : Client := ⟨some login, .forget, "", [], none, none, false⟩
    if auto.isSome then client.connect else client
  typed := []
  sent := []
  answered := (false, false)
  redials := 0
  replays := 0

end Watched

/-! ### How often -/

namespace Reconnect

/-- The dials and the answers that are left are the same. -/
structure SameBounds (r r' : Reconnect) : Prop where
  due : r'.due = r.due
  left : r'.left = r.left
  retrying : r'.retrying = r.retrying
  answers : r'.answers = r.answers

/-- Remembering an answer neither dials nor counts. -/
theorem remember_bounds (stage : Stage) (text : String) (r : Reconnect) : SameBounds r (r.remember stage text) := by
  cases stage <;> exact ⟨rfl, rfl, rfl, rfl⟩

/-- A dial is taken from those that are left. -/
theorem arm_bounds (now : ℕ) (r : Reconnect) :
    (r.arm now).due.toList.length + (r.arm now).left ≤ r.due.toList.length + r.left ∧
      ((r.arm now).retrying = true → (r.arm now).answers = 2 ∧ (r.arm now).left + 1 = r.left) := by
  unfold arm
  split
  · exact ⟨le_rfl, fun h => absurd h Bool.false_ne_true⟩
  · rename_i hleft
    rw [not_or] at hleft
    refine ⟨?_, fun _ => ⟨rfl, ?_⟩⟩
    · simp only [Option.toList_some, List.length_singleton]
      omega
    · dsimp only
      omega

/-- An answer is one of the credentials, taken from those that are left, in a dial of the client's
own. -/
theorem answer_spec {stage : Stage} {r r' : Reconnect} {text : String} (h : r.answer stage = some (text, r')) :
    r.retrying = true ∧ 0 < r.answers ∧ r' = { r with answers := r.answers - 1 } ∧
      ∃ pair, r.credentials = some pair ∧ (text = pair.1 ∨ text = pair.2) := by
  unfold answer at h
  split at h
  · cases h
  · rename_i hgives
    rw [not_or, Bool.not_eq_false] at hgives
    split at h
    · rename_i username password hcredentials
      obtain ⟨rfl, rfl⟩ := Prod.mk.inj (Option.some.inj h)
      exact ⟨hgives.1, Nat.pos_of_ne_zero hgives.2, rfl, _, hcredentials, .inl rfl⟩
    · rename_i username password hcredentials
      obtain ⟨rfl, rfl⟩ := Prod.mk.inj (Option.some.inj h)
      exact ⟨hgives.1, Nat.pos_of_ne_zero hgives.2, rfl, _, hcredentials, .inr rfl⟩
    · cases h

end Reconnect

namespace Client

/-- Connecting leaves what is remembered. -/
theorem connect_reconnect (s : Client) : s.connect.reconnect = s.reconnect := by
  unfold connect
  split
  · rfl
  · dsimp only
    split
    · rfl
    · rfl

/-- A step is asked for, and an answer is put in the field or not. -/
theorem ask_cases (stage : Stage) (s : Client) :
    (s.reconnect.answer stage = none ∧ s.ask stage = { s with login := s.login.map (Login.ask stage) }) ∨
    ∃ text reconnect, s.reconnect.answer stage = some (text, reconnect) ∧
      s.ask stage = { s with
        login := s.login.map fun login => { login.ask stage with input := text }
        reconnect := { reconnect with submit := true } } := by
  unfold ask
  dsimp only
  split
  · rename_i hnone
    exact .inl ⟨hnone, rfl⟩
  · rename_i text reconnect hsome
    refine .inr ⟨text, reconnect, hsome, ?_⟩
    rw [Option.map_map]
    rfl

end Client

namespace Watched

/-- What the counters of the client leave. -/
structure Bounded (w : Watched) : Prop where
  dials : w.redials + w.client.reconnect.due.toList.length + w.client.reconnect.left ≤ reconnectAttempts
  replays : w.replays ≤ 2
  answers : w.client.reconnect.retrying = true → w.replays + w.client.reconnect.answers ≤ 2

/-- Where nothing is dialled or replayed, the bounds stay. -/
theorem Bounded.same {w w' : Watched} (h : w.Bounded) (hsame : w.client.reconnect.SameBounds w'.client.reconnect)
    (hredials : w'.redials = w.redials) (hreplays : w'.replays = w.replays) : w'.Bounded := by
  obtain ⟨hdue, hleft, hretrying, hanswers⟩ := hsame
  refine ⟨?_, ?_, ?_⟩
  · rw [hredials, hdue, hleft]
    exact h.dials
  · rw [hreplays]
    exact h.replays
  · rw [hretrying, hreplays, hanswers]
    exact h.answers

/-- Nothing is left after `forget`. -/
theorem Bounded.forget {w w' : Watched} (h : w.Bounded) (hforget : w'.client.reconnect = .forget)
    (hredials : w'.redials = w.redials) (hreplays : w'.replays = w.replays) : w'.Bounded := by
  have hdials := h.dials
  refine ⟨?_, ?_, ?_⟩
  · rw [hredials, hforget]
    simp only [Reconnect.forget, Option.toList_none, List.length_nil]
    omega
  · rw [hreplays]
    exact h.replays
  · rw [hforget]
    exact fun hretrying => absurd hretrying Bool.false_ne_true

/-- A dial is armed, or the client gives up. -/
theorem Bounded.arm {w w' : Watched} (h : w.Bounded) (now : ℕ)
    (hreconnect : w'.client.reconnect = w.client.reconnect.arm now)
    (hredials : w'.redials = w.redials)
    (hreplays : w'.replays = sinceArmed w.client.reconnect w'.client.reconnect w.replays) : w'.Bounded := by
  obtain ⟨hless, harmed⟩ := w.client.reconnect.arm_bounds now
  have hdials := h.dials
  refine ⟨?_, ?_, fun hretrying => ?_⟩
  · rw [hredials, hreconnect]
    omega
  · rw [hreplays, sinceArmed]
    split
    · omega
    · exact h.replays
  · obtain ⟨hanswers, hleft⟩ := harmed (hreconnect ▸ hretrying)
    rw [hreplays, sinceArmed, if_pos ⟨hretrying, hreconnect ▸ hleft⟩, hreconnect, hanswers]

/-- A step of the server is asked for. -/
theorem Bounded.ask {w w' : Watched} {stage : Stage} (h : w.Bounded) (hclient : w'.client = w.client.ask stage)
    (hredials : w'.redials = w.redials)
    (hreplays : w'.replays = w.replays + if (w.client.reconnect.answer stage).isSome then 1 else 0) : w'.Bounded := by
  rcases w.client.ask_cases stage with ⟨hnone, hask⟩ | ⟨text, reconnect, hsome, hask⟩
  · refine h.same ?_ hredials ?_
    · rw [hclient, hask]
      exact ⟨rfl, rfl, rfl, rfl⟩
    · rw [hreplays, hnone]
      rfl
  · obtain ⟨hretrying, hpos, rfl, -⟩ := Reconnect.answer_spec hsome
    have hanswers := h.answers hretrying
    rw [hsome] at hreplays
    simp only [Option.isSome_some, if_true] at hreplays
    refine ⟨?_, ?_, fun _ => ?_⟩
    · rw [hredials, hclient, hask]
      exact h.dials
    · omega
    · rw [hclient, hask]
      dsimp only
      omega

/-- A line that is sent neither dials nor counts. -/
theorem submit_bounds (replayed : Bool) (w : Watched) :
    w.client.reconnect.SameBounds (w.submit replayed).client.reconnect ∧ (w.submit replayed).redials = w.redials ∧
      (w.submit replayed).replays = w.replays := by
  unfold submit
  split
  · exact ⟨Reconnect.remember_bounds _ _ _, rfl, rfl⟩
  · exact ⟨⟨rfl, rfl, rfl, rfl⟩, rfl, rfl⟩

/-- A dial is due or not. -/
theorem dial_cases (now : ℕ) (w : Watched) :
    w.dial now = w ∨ w.client.reconnect.due.isSome ∧ w.dial now = { w with
      client := ({ w.client with reconnect := { w.client.reconnect with due := none } } : Client).connect
      redials := w.redials + 1 } := by
  unfold dial Reconnect.takeDue
  split
  · exact .inl rfl
  · rename_i reconnect hdue
    split at hdue
    · cases hdue
    · rename_i due hsome
      split at hdue
      · cases hdue
      · obtain ⟨-, rfl⟩ := Prod.mk.inj hdue
        exact .inr ⟨hsome ▸ rfl, rfl⟩

/-- A dial is one attempt of those that are left. -/
theorem Bounded.dial {w : Watched} (h : w.Bounded) (now : ℕ) : (w.dial now).Bounded := by
  rcases w.dial_cases now with hsame | ⟨hdue, hdial⟩
  · rw [hsame]
    exact h
  · obtain ⟨due, hdue⟩ := Option.isSome_iff_exists.1 hdue
    have hdials := h.dials
    rw [hdue, Option.toList_some, List.length_singleton] at hdials
    rw [hdial]
    refine ⟨?_, h.replays, ?_⟩
    · dsimp only
      rw [Client.connect_reconnect]
      exact hdials
    · dsimp only
      rw [Client.connect_reconnect]
      exact h.answers

/-- An answer that is replayed is one of the two. -/
theorem Bounded.answer {w : Watched} (h : w.Bounded) : w.answer.Bounded := by
  unfold Watched.answer
  split
  · obtain ⟨⟨hdue, hleft, hretrying, hanswers⟩, hredials, hreplays⟩ :=
      submit_bounds true { w with client := { w.client with reconnect := { w.client.reconnect with submit := false } } }
    exact h.same ⟨hdue, hleft, hretrying, hanswers⟩ hredials hreplays
  · exact h

end Watched

namespace Client

/-- The result of a dial is not waited for, opens a connection, or arms another dial. -/
theorem connected_cases (attempt : ℕ) (address : String) (ok : Bool) (now : ℕ) (s : Client) :
    s.connected attempt address ok now = s ∨
    ∃ login, s.login = some login ∧ login.busy = true ∧ attempt = login.attempt ∧
      (ok = true ∧ s.connected attempt address ok now =
          { s with stream := some address, login := some { login with connected := true } } ∨
        ok = false ∧ s.connected attempt address ok now =
          { s with
            login := some { login with busy := (s.reconnect.arm now).retrying }
            reconnect := s.reconnect.arm now }) := by
  unfold connected
  split
  · exact .inl rfl
  · rename_i login hlogin
    split
    · rename_i hwaits
      refine .inr ⟨login, hlogin, hwaits.1, hwaits.2, ?_⟩
      cases ok with
      | true => exact .inl ⟨rfl, rfl⟩
      | false => exact .inr ⟨rfl, rfl⟩
    · exact .inl rfl

/-- What `disconnected` arms, if anything. -/
def armed (s : Client) : Reconnect := if s.loggingOut then .forget else s.reconnect

end Client

namespace Watched

/-- The client is thrown out. -/
theorem Bounded.disconnected {w w' : Watched} (h : w.Bounded) {s : Client} {now : ℕ}
    (hclient : w'.client = s.disconnected now)
    (hs : s.reconnect = w.client.reconnect ∨ s.reconnect = .forget) (hredials : w'.redials = w.redials)
    (hreplays : w'.replays = sinceArmed w.client.reconnect w'.client.reconnect w.replays) : w'.Bounded := by
  have hreconnect : w'.client.reconnect = s.armed.arm now := by rw [hclient, Client.disconnected, Client.armed]
  have harmed : s.armed = w.client.reconnect ∨ s.armed = .forget := by
    unfold Client.armed
    split
    · exact .inr rfl
    · exact hs
  rcases harmed with harmed | harmed
  · exact h.arm now (harmed ▸ hreconnect) hredials hreplays
  · have hforget : w'.client.reconnect = .forget := by
      rw [hreconnect, harmed]
      rfl
    refine h.forget hforget hredials ?_
    rw [hreplays, hforget, sinceArmed, if_neg fun harmed => absurd harmed.1 Bool.false_ne_true]

/-- Every event keeps the bounds. -/
theorem Bounded.event {w : Watched} (h : w.Bounded) (event : ServerEvent) (now : ℕ) : (w.event event now).Bounded := by
  cases event with
  | username | login | register => exact h.ask rfl rfl rfl
  | authenticated =>
    refine ⟨?_, h.replays, fun hretrying => absurd hretrying Bool.false_ne_true⟩
    show 0 + 0 + reconnectAttempts ≤ reconnectAttempts
    omega
  | usernameRejected => exact h.forget rfl rfl rfl
  | quit said =>
    unfold Watched.event
    simp only [Client.apply]
    split
    · exact h.disconnected rfl (.inl rfl) rfl rfl
    · split
      · exact h.disconnected rfl (.inr rfl) rfl rfl
      · exact h.disconnected rfl (.inl rfl) rfl rfl
  | failed => exact h.disconnected rfl (.inl rfl) rfl rfl
  | passwd changed =>
    refine h.same ?_ rfl rfl
    cases changed with
    | false => exact ⟨rfl, rfl, rfl, rfl⟩
    | true =>
      simp only [Watched.event, Client.apply]
      split
      · exact ⟨rfl, rfl, rfl, rfl⟩
      · exact ⟨rfl, rfl, rfl, rfl⟩

/-- With as many attempts left, no count begins again. -/
theorem sinceArmed_of_left {r r' : Reconnect} (h : r'.left = r.left) (n : ℕ) : sinceArmed r r' n = n := by
  rw [sinceArmed, if_neg fun harmed => absurd (h ▸ harmed.2) (Nat.succ_ne_self _)]

/-- **Every action keeps the bounds.** -/
theorem Bounded.step {w w' : Watched} {a : Action} (h : w.Bounded) (hstep : w.step a = some w') : w'.Bounded := by
  cases a with
  | edit text =>
    rw [Watched.step] at hstep
    split at hstep
    · cases hstep
    · split at hstep
      · cases hstep
      · split at hstep
        · obtain rfl := Option.some.inj hstep
          exact h.same ⟨rfl, rfl, rfl, rfl⟩ rfl rfl
        · obtain rfl := Option.some.inj hstep
          exact h.same ⟨rfl, rfl, rfl, rfl⟩ rfl rfl
  | enter =>
    rw [Watched.step] at hstep
    split at hstep
    · cases hstep
    · split at hstep
      · cases hstep
      · split at hstep
        · obtain rfl := Option.some.inj hstep
          have hsame := w.client.connect_reconnect
          exact h.same ⟨congrArg _ hsame, congrArg _ hsame, congrArg _ hsame, congrArg _ hsame⟩ rfl rfl
        · split at hstep
          · obtain rfl := Option.some.inj hstep
            exact h
          · obtain rfl := Option.some.inj hstep
            obtain ⟨hsame, hredials, hreplays⟩ := submit_bounds false w
            exact h.same hsame hredials hreplays
  | esc =>
    rw [Watched.step] at hstep
    split at hstep
    · cases hstep
    · split at hstep
      · cases hstep
      · obtain rfl := Option.some.inj hstep
        exact h.forget rfl rfl rfl
  | dialled attempt address ok now =>
    rw [Watched.step] at hstep
    split at hstep
    · obtain rfl := Option.some.inj hstep
      rcases Client.connected_cases attempt address ok now
        { w.client with dialling := w.client.dialling.erase (attempt, address) } with
        hsame | ⟨login, -, -, -, ⟨rfl, heq⟩ | ⟨rfl, heq⟩⟩
      · exact h.same (by rw [hsame]; exact ⟨rfl, rfl, rfl, rfl⟩) rfl (sinceArmed_of_left (by rw [hsame]) _)
      · exact h.same (by rw [heq]; exact ⟨rfl, rfl, rfl, rfl⟩) rfl (sinceArmed_of_left (by rw [heq]) _)
      · exact h.arm now (by rw [heq]) rfl rfl
    · cases hstep
  | tick now =>
    obtain rfl := Option.some.inj hstep
    exact (h.dial now).answer
  | event event now =>
    rw [Watched.step] at hstep
    split at hstep
    · obtain rfl := Option.some.inj hstep
      exact h.event event now
    · cases hstep
  | logout | openAccount =>
    rw [Watched.step] at hstep
    split at hstep
    · obtain rfl := Option.some.inj hstep
      exact h.same ⟨rfl, rfl, rfl, rfl⟩ rfl rfl
    · cases hstep
  | confirm new =>
    rw [Watched.step] at hstep
    split at hstep
    · obtain rfl := Option.some.inj hstep
      exact h.same ⟨rfl, rfl, rfl, rfl⟩ rfl rfl
    · cases hstep
  | closeAccount =>
    obtain rfl := Option.some.inj hstep
    exact h.same ⟨rfl, rfl, rfl, rfl⟩ rfl rfl

/-- At the start nothing was dialled. -/
theorem Bounded.start (auto : Option String) : (start auto).Bounded := by
  have hreconnect : (Watched.start auto).client.reconnect = .forget := by
    unfold Watched.start
    dsimp only
    split
    · rw [Client.connect_reconnect]
    · rfl
  refine ⟨?_, Nat.zero_le _, ?_⟩
  · rw [hreconnect]
    exact Nat.zero_le _
  · rw [hreconnect]
    exact fun hretrying => absurd hretrying Bool.false_ne_true

/-- **A client does not dial or answer for ever.**  Whatever servers send, in every run there are
at most `RECONNECT_ATTEMPTS` dials that the user did not ask for since a server last accepted, and
at most two answers since the last one was armed. -/
theorem redial_bounded {auto : Option String} {w : Watched} {actions : List Action}
    (hexec : exec step (start auto) actions = some w) : w.redials ≤ reconnectAttempts ∧ w.replays ≤ 2 := by
  have h : w.Bounded := exec_induct (fun _ _ _ h _ hstep => Bounded.step h hstep) (Bounded.start auto)
    (meets_true _ _ actions) hexec
  have hdials := h.dials
  exact ⟨by omega, h.replays⟩

/-- The user gets in at `a:1`. -/
def gettingIn : List Action :=
  [.edit "a:1", .enter, .dialled 1 "a:1" true 0, .event .username 0, .edit "anna", .enter, .event .login 0,
    .edit "secret", .enter]

/-- The session ends, and the client gets in at an address with the answers it remembers. -/
def dialledBack (address : String) : List Action :=
  [.event .authenticated 0, .event (.quit false) 0, .tick reconnectDelay, .dialled 1 address true reconnectDelay,
    .event .username reconnectDelay, .tick reconnectDelay, .event .login reconnectDelay, .tick reconnectDelay]

/-- A run that dials once and replays both answers. -/
theorem redial_bounded_back :
    ∃ w : Watched, w.redials = 1 ∧ w.replays = 2 ∧ w.redials ≤ reconnectAttempts ∧ w.replays ≤ 2 := by
  have hrun : (exec step (start none) (gettingIn ++ dialledBack "a:1")).map (fun w => (w.redials, w.replays)) =
      some (1, 2) := by decide +kernel
  obtain ⟨w, hw, hcounts⟩ := Option.map_eq_some_iff.1 hrun
  obtain ⟨hredials, hreplays⟩ := Prod.mk.inj hcounts
  exact ⟨w, hredials, hreplays, redial_bounded hw⟩

end Watched

/-! ### When it is over -/

/-- No credentials are kept, and the rest of what is kept makes the client do nothing. -/
structure Reconnect.Silent (r : Reconnect) : Prop where
  credentials : r.credentials = none
  due : r.due = none
  submit : r.submit = false

namespace Reconnect.Silent

/-- What is forgotten is silent. -/
theorem of_forget : Silent .forget := ⟨rfl, rfl, rfl⟩

/-- Remembering does not arm a reconnect. -/
theorem remember {r : Reconnect} (h : r.Silent) (stage : Stage) (text : String) : (r.remember stage text).Silent := by
  cases stage <;> exact ⟨h.credentials, h.due, h.submit⟩

/-- Without an address nothing is armed. -/
theorem arm {r : Reconnect} (h : r.Silent) (now : ℕ) : (r.arm now).Silent := by
  rw [Reconnect.arm, if_pos (.inl h.credentials)]
  exact ⟨h.credentials, h.due, h.submit⟩

/-- Without answers there is none to replay. -/
theorem answer {r : Reconnect} (h : r.Silent) (stage : Stage) : r.answer stage = none := by
  refine Option.eq_none_iff_forall_ne_some.2 fun ⟨text, r'⟩ hnext => ?_
  obtain ⟨-, -, -, pair, hpair, -⟩ := Reconnect.answer_spec hnext
  rw [h.credentials] at hpair
  cases hpair

end Reconnect.Silent

/-- After a logout, a loss of the connection arms nothing. -/
theorem Client.disconnected_silent {s : Client} (h : s.loggingOut = true ∨ s.reconnect.Silent) (now : ℕ) :
    (s.disconnected now).reconnect.Silent := by
  refine Reconnect.Silent.arm ?_ now
  split
  · exact .of_forget
  · rename_i hstays
    exact h.resolve_left hstays

/-- A server accepts. -/
def Action.accepts : Action → Bool
  | .event .authenticated _ => true
  | _ => false

namespace Watched

/-- The actions after which the client gives up: a dial is cancelled, the server refuses a name or
says that it ends the session, or the session ends after `/logout`. -/
def GivesUp (w : Watched) : Action → Prop
  | .esc | .event .usernameRejected _ | .event (.quit true) _ => True
  | .event (.quit false) _ | .event .failed _ => w.client.loggingOut = true
  | _ => False

/-- The answers that were given for the user. -/
def replayed (w : Watched) : List Sent := w.sent.filter (·.replayed)

/-- Giving up leaves nothing to reconnect to. -/
theorem GivesUp.step {w w' : Watched} {a : Action} (ha : w.GivesUp a) (hstep : w.step a = some w') :
    w'.client.reconnect.Silent := by
  cases a with
  | esc =>
    rw [Watched.step] at hstep
    split at hstep
    · cases hstep
    · split at hstep
      · cases hstep
      · obtain rfl := Option.some.inj hstep
        exact .of_forget
  | event event now =>
    rw [Watched.step] at hstep
    split at hstep
    · obtain rfl := Option.some.inj hstep
      cases event with
      | usernameRejected => exact .of_forget
      | quit said =>
        show (w.client.apply (.quit said) now).reconnect.Silent
        rw [Client.apply]
        split
        · rename_i hlogout
          exact Client.disconnected_silent (.inl hlogout) now
        · rename_i hstays
          cases said with
          | true => exact Client.disconnected_silent (.inr .of_forget) now
          | false => exact absurd ha hstays
      | failed => exact Client.disconnected_silent (.inl ha) now
      | username | login | register | authenticated | passwd _ => exact ha.elim
    · cases hstep
  | edit _ | enter | dialled _ _ _ _ | tick _ | logout | openAccount | confirm _ | closeAccount => exact ha.elim

/-- A line that is typed replays nothing. -/
theorem submit_replayed (replayed' : Bool) (w : Watched) :
    (replayed' = false → (w.submit replayed').replayed = w.replayed) ∧ (w.submit replayed').redials = w.redials := by
  unfold submit
  split
  · refine ⟨fun hhand => ?_, rfl⟩
    rw [replayed, List.filter_append, hhand]
    exact List.append_nil _
  · exact ⟨fun _ => rfl, rfl⟩

/-- **Without credentials the client does nothing of its own** until a server accepts. -/
theorem silent_step {w w' : Watched} {a : Action} (h : w.client.reconnect.Silent)
    (ha : a.accepts = false) (hstep : w.step a = some w') :
    w'.client.reconnect.Silent ∧ w'.redials = w.redials ∧ w'.replayed = w.replayed := by
  cases a with
  | edit text =>
    rw [Watched.step] at hstep
    split at hstep
    · cases hstep
    · split at hstep
      · cases hstep
      · split at hstep
        · obtain rfl := Option.some.inj hstep
          exact ⟨h, rfl, rfl⟩
        · obtain rfl := Option.some.inj hstep
          exact ⟨h, rfl, rfl⟩
  | enter =>
    rw [Watched.step] at hstep
    split at hstep
    · cases hstep
    · split at hstep
      · cases hstep
      · split at hstep
        · obtain rfl := Option.some.inj hstep
          exact ⟨w.client.connect_reconnect.symm ▸ h, rfl, rfl⟩
        · split at hstep
          · obtain rfl := Option.some.inj hstep
            exact ⟨h, rfl, rfl⟩
          · obtain rfl := Option.some.inj hstep
            obtain ⟨hreplayed, hredials⟩ := w.submit_replayed false
            refine ⟨?_, hredials, hreplayed rfl⟩
            unfold submit
            split
            · exact h.remember _ _
            · exact h
  | esc =>
    have hsilent := GivesUp.step (a := .esc) trivial hstep
    rw [Watched.step] at hstep
    split at hstep
    · cases hstep
    · split at hstep
      · cases hstep
      · obtain rfl := Option.some.inj hstep
        exact ⟨hsilent, rfl, rfl⟩
  | dialled attempt address ok now =>
    rw [Watched.step] at hstep
    split at hstep
    · obtain rfl := Option.some.inj hstep
      refine ⟨?_, rfl, rfl⟩
      dsimp only
      rcases Client.connected_cases attempt address ok now
        { w.client with dialling := w.client.dialling.erase (attempt, address) } with
        heq | ⟨login, -, -, -, ⟨-, heq⟩ | ⟨-, heq⟩⟩
      · rw [heq]
        exact h
      · rw [heq]
        exact h
      · rw [heq]
        exact h.arm now
    · cases hstep
  | tick now =>
    obtain rfl := Option.some.inj hstep
    have hdial : w.dial now = w := by
      rcases w.dial_cases now with hsame | ⟨hdue, -⟩
      · exact hsame
      · rw [h.due] at hdue
        cases hdue
    have hanswer : w.answer = w := by
      rw [answer, if_neg fun hsubmit => absurd (h.submit.symm.trans hsubmit.1) Bool.false_ne_true]
    rw [hdial, hanswer]
    exact ⟨h, rfl, rfl⟩
  | event event now =>
    rw [Watched.step] at hstep
    split at hstep
    · obtain rfl := Option.some.inj hstep
      have hask (stage : Stage) : (w.client.ask stage).reconnect.Silent := by
        rw [Client.ask, h.answer]
        exact h
      cases event with
      | username => exact ⟨hask .username, rfl, rfl⟩
      | login => exact ⟨hask (.password false), rfl, rfl⟩
      | register => exact ⟨hask (.password true), rfl, rfl⟩
      | authenticated => cases ha
      | usernameRejected => exact ⟨.of_forget, rfl, rfl⟩
      | quit said =>
        refine ⟨?_, rfl, rfl⟩
        show (w.client.apply (.quit said) now).reconnect.Silent
        rw [Client.apply]
        split
        · exact Client.disconnected_silent (.inr h) now
        · split
          · exact Client.disconnected_silent (.inr .of_forget) now
          · exact Client.disconnected_silent (.inr h) now
      | failed => exact ⟨Client.disconnected_silent (.inr h) now, rfl, rfl⟩
      | passwd changed =>
        refine ⟨?_, rfl, rfl⟩
        show (w.client.apply (.passwd changed) now).reconnect.Silent
        cases changed with
        | false => exact h
        | true =>
          rw [Client.apply]
          split
          · exact h
          · exact ⟨by rw [Reconnect.passwd, h.credentials]; rfl, h.due, h.submit⟩
    · cases hstep
  | logout | openAccount =>
    rw [Watched.step] at hstep
    split at hstep
    · obtain rfl := Option.some.inj hstep
      exact ⟨h, rfl, rfl⟩
    · cases hstep
  | confirm new =>
    rw [Watched.step] at hstep
    split at hstep
    · obtain rfl := Option.some.inj hstep
      refine ⟨h, rfl, ?_⟩
      rw [replayed, List.filter_append]
      exact List.append_nil _
    · cases hstep
  | closeAccount =>
    obtain rfl := Option.some.inj hstep
    exact ⟨h, rfl, rfl⟩

/-- **When the client gives up, it is over**: until a server accepts again, there is no dial and no
answer that the user did not give. -/
theorem given_up {w w' w'' : Watched} {a : Action} {actions : List Action} (ha : w.GivesUp a)
    (hstep : w.step a = some w') (hmeets : Meets step (fun _ a => a.accepts = false) w' actions)
    (hexec : exec step w' actions = some w'') : w''.redials = w'.redials ∧ w''.replayed = w'.replayed := by
  let Quiet : Watched → Prop := fun v =>
    v.client.reconnect.Silent ∧ v.redials = w'.redials ∧ v.replayed = w'.replayed
  have h : Quiet w'' := by
    refine exec_induct (fun v a v' hv ha hstep => ?_) ⟨ha.step hstep, rfl, rfl⟩ hmeets hexec
    obtain ⟨hsilent, hredials, hreplayed⟩ := silent_step hv.1 ha hstep
    exact ⟨hsilent, hredials.trans hv.2.1, hreplayed.trans hv.2.2⟩
  exact h.2

/-- The session ends, and the client dials again. -/
def diallingBack : List Action :=
  gettingIn ++ [.event .authenticated 0, .event (.quit false) 0, .tick reconnectDelay]

/-- The dial gets through too late, and the user dials another server, which asks who it is. -/
def diallingElsewhere : List Action :=
  [.dialled 1 "a:1" true reconnectDelay, .edit "b:2", .enter, .dialled 2 "b:2" true reconnectDelay,
    .event .username reconnectDelay, .tick reconnectDelay]

/-- A dial that is cancelled by a user whose answers are remembered. -/
theorem given_up_cancelled : ∃ w w' w'' : Watched, exec step (start none) diallingBack = some w ∧
    w.client.reconnect.credentials = some ("anna", "secret") ∧ w.step .esc = some w' ∧
    exec step w' diallingElsewhere = some w'' ∧ w''.client.stream = some "b:2" ∧ w''.redials = 1 ∧
    w''.replayed = [] := by
  have hrun : ((exec step (start none) diallingBack).bind fun w => (w.step .esc).bind fun w' =>
      (exec step w' diallingElsewhere).map fun w'' =>
        (w.client.reconnect.credentials, w''.client.stream, w'.redials, w'.replayed)) =
      some (some ("anna", "secret"), some "b:2", 1, []) := by decide +kernel
  obtain ⟨w, hw, hrun⟩ := Option.bind_eq_some_iff.1 hrun
  obtain ⟨w', hstep, hrun⟩ := Option.bind_eq_some_iff.1 hrun
  obtain ⟨w'', hexec, hvalues⟩ := Option.map_eq_some_iff.1 hrun
  simp only [Prod.mk.injEq] at hvalues
  obtain ⟨hcredentials, hstream, hredials, hreplayed⟩ := hvalues
  have hmeets : Meets step (fun _ a => a.accepts = false) w' diallingElsewhere :=
    ⟨rfl, fun _ _ => ⟨rfl, fun _ _ => ⟨rfl, fun _ _ => ⟨rfl, fun _ _ => ⟨rfl, fun _ _ => ⟨rfl, fun _ _ => trivial⟩⟩⟩⟩⟩⟩
  obtain ⟨hsame, hsame'⟩ := given_up (a := .esc) trivial hstep hmeets hexec
  exact ⟨w, w', w'', hw, hcredentials, hstep, hexec, hstream, hsame.trans hredials, hsame'.trans hreplayed⟩

end Watched

/-! ### Where answers go -/

/-- A trimmed text stays as it is. -/
theorem trim_trim (s : String) : trim (trim s) = trim s := by
  have hfirst : ((s.toList.dropWhile isWhitespace).rdropWhile isWhitespace).dropWhile isWhitespace =
      (s.toList.dropWhile isWhitespace).rdropWhile isWhitespace := by
    refine List.dropWhile_eq_self_iff.2 fun hpos => ?_
    have hstart := List.rdropWhile_prefix isWhitespace (s.toList.dropWhile isWhitespace)
    rw [hstart.getElem hpos]
    exact List.dropWhile_eq_self_iff.1 (List.dropWhile_idempotent isWhitespace s.toList) _
  rw [trim, trim, String.toList_ofList, hfirst, List.rdropWhile_idempotent]

/-- The user typed the text for this address, or it is empty. -/
def Typed (typed : List (String × String)) (address text : String) : Prop := text = "" ∨ (address, text) ∈ typed

/-- What was typed stays typed. -/
theorem Typed.mono {typed : List (String × String)} {address text : String} (h : Typed typed address text)
    (more : List (String × String)) : Typed (typed ++ more) address text :=
  h.imp_right (List.mem_append_left more)

namespace Watched

/-- The box, with the dials and the connection. -/
structure Box (w : Watched) (login : Login) : Prop where
  dials : ∀ dial ∈ w.client.dialling, dial.1 ≤ login.attempt ∧ (dial.1 = login.attempt →
    login.stage = .address ∧ login.connected = false ∧ dial.2 = w.client.address)
  waiting : login.stage = .address → login.busy = true → login.connected = false → trim login.input = w.client.address
  opened : login.stage = .address → login.connected = true →
    login.busy = true ∧ (login.input = "" ∨ trim login.input = w.client.address)
  field : login.stage ≠ .address → Typed w.typed w.client.address login.input
  connected : w.client.stream.isSome = true → login.connected = true
  /-- The user only dials when nothing is kept that could be answered. -/
  idle : login.stage = .address → login.busy = false → w.client.reconnect.retrying = false ∧
    (w.client.reconnect.credentials = none ∨ w.client.reconnect.left = 0)
  due : w.client.reconnect.due.isSome = true → login.stage = .address ∧ login.busy = true ∧ login.connected = false ∧
    ∀ dial ∈ w.client.dialling, dial.1 ≠ login.attempt

/-- What holds after every action. -/
structure Inv (w : Watched) : Prop where
  trimmed : trim w.client.address = w.client.address
  stream : ∀ address, w.client.stream = some address → address = w.client.address
  attempts : (w.client.dialling.map Prod.fst).Nodup
  session : w.client.login = none → w.client.dialling = [] ∧ w.client.reconnect.due = none
  box : ∀ login, w.client.login = some login → w.Box login
  account : ∀ new, w.client.account = some new → w.client.login = none ∧ Typed w.typed w.client.address new
  /-- What is kept and may be answered was typed for the address that is dialled. -/
  kept : ∀ pair, w.client.reconnect.credentials = some pair →
    0 < w.client.reconnect.left ∨ w.client.reconnect.retrying = true ∨ w.client.login = none →
    Typed w.typed w.client.address pair.1 ∧ Typed w.typed w.client.address pair.2
  given : w.client.stream.isSome = true →
    (w.answered.1 = true → Typed w.typed w.client.address w.client.reconnect.typed.1) ∧
    (w.answered.2 = true → Typed w.typed w.client.address w.client.reconnect.typed.2)
  sent : ∀ line ∈ w.sent, line.replayed = true →
    trim line.text = line.address ∨ Typed w.typed line.address line.text

/-- A server asks for the name and the password before it accepts, and no cancelled dial is still
under way then. -/
def Asks (w : Watched) : Action → Prop
  | .event .authenticated _ => w.answered = (true, true) ∧ w.client.dialling = []
  | _ => True

instance (w : Watched) (a : Action) : Decidable (Asks w a) :=
  match a with
  | .event .authenticated _ => inferInstanceAs (Decidable (w.answered = (true, true) ∧ w.client.dialling = []))
  | .event .username _ | .event .login _ | .event .register _ | .event .usernameRejected _ | .event (.quit _) _
  | .event .failed _ | .event (.passwd _) _ | .edit _ | .enter | .esc | .dialled _ _ _ _ | .tick _ | .logout
  | .openAccount | .confirm _ | .closeAccount => .isTrue trivial

/-- The counts are nothing to the invariant. -/
theorem Inv.counted {w : Watched} (h : w.Inv) (redials replays : ℕ) : ({ w with redials, replays } : Watched).Inv := by
  refine ⟨h.trimmed, h.stream, h.attempts, h.session, fun login hlogin => ?_, h.account, h.kept, h.given, h.sent⟩
  have hbox := h.box login hlogin
  exact ⟨hbox.dials, hbox.waiting, hbox.opened, hbox.field, hbox.connected, hbox.idle, hbox.due⟩

/-- The user, or the client, dials the address in the field. -/
theorem Inv.connect {w : Watched} {login : Login} (h : w.Inv) (hlogin : w.client.login = some login)
    (hstage : login.stage = .address) (hconnected : login.connected = false) (hdue : w.client.reconnect.due = none)
    (hkept : trim login.input = w.client.address ∨ login.busy = false) (redials : ℕ) :
    ({ w with client := w.client.connect, redials } : Watched).Inv := by
  have hbox := h.box login hlogin
  have hstream : w.client.stream = none := by
    refine Option.not_isSome_iff_eq_none.1 fun hsome => ?_
    exact absurd (hconnected.symm.trans (hbox.connected hsome)) Bool.false_ne_true
  have haccount : w.client.account = none := by
    refine Option.eq_none_iff_forall_ne_some.2 fun new hnew => ?_
    cases hlogin.symm.trans (h.account new hnew).1
  unfold Client.connect
  rw [hlogin]
  dsimp only
  split
  · -- an empty field is not dialled
    exact h.counted redials w.replays
  · have hnew : ∀ dial ∈ w.client.dialling, dial.1 < login.attempt + 1 := fun dial hdial =>
      Nat.lt_succ_of_le (hbox.dials dial hdial).1
    refine ⟨trim_trim _, fun address haddress => ?_, ?_, fun hnone => ?_, fun login' hlogin' => ?_, fun new hnew' => ?_,
      fun pair hpair hmay => ?_, fun hsome => ?_, h.sent⟩
    · cases hstream.symm.trans haddress
    · rw [List.map_append, List.map_singleton, List.nodup_append]
      refine ⟨h.attempts, List.nodup_singleton _, fun attempt hattempt attempt' hattempt' heq => ?_⟩
      obtain ⟨dial, hdial, rfl⟩ := List.mem_map.1 hattempt
      exact absurd (heq.trans (List.mem_singleton.1 hattempt')) (Nat.ne_of_lt (hnew dial hdial))
    · cases hnone
    · obtain rfl := Option.some.inj hlogin'
      refine ⟨fun dial hdial => ?_, fun _ _ _ => rfl, fun _ hopen => ?_, fun hother => absurd hstage hother,
        fun hsome => ?_, fun _ hidle => ?_, fun hsome => ?_⟩
      · rcases List.mem_append.1 hdial with hold | hlast
        · have := hnew dial hold
          exact ⟨this.le, fun heq => absurd heq (Nat.ne_of_lt this)⟩
        · obtain rfl := List.mem_singleton.1 hlast
          exact ⟨le_rfl, fun _ => ⟨hstage, hconnected, rfl⟩⟩
      · exact absurd (hconnected.symm.trans hopen) Bool.false_ne_true
      · rw [hstream] at hsome
        cases hsome
      · cases hidle
      · rw [hdue] at hsome
        cases hsome
    · cases haccount.symm.trans hnew'
    · dsimp only at hpair hmay ⊢
      rcases hkept with hsame | hidle
      · rw [hsame]
        refine h.kept pair hpair (hmay.imp_right fun hor => hor.imp_right fun hnone => ?_)
        cases hnone
      · obtain ⟨hretrying, hcredentials⟩ := hbox.idle hstage hidle
        rcases hmay with hleft | hretry | hnone
        · rcases hcredentials with hnone | hzero
          · cases hnone.symm.trans hpair
          · exact absurd hzero (Nat.ne_of_gt hleft)
        · exact absurd (hretrying.symm.trans hretry) Bool.false_ne_true
        · cases hnone
    · rw [hstream] at hsome
      cases hsome

/-- A line is taken from the field. -/
theorem Inv.submit {w : Watched} (h : w.Inv) (replayed : Bool) : (w.submit replayed).Inv := by
  unfold Watched.submit
  split
  · rename_i address login hstream hlogin
    obtain rfl := h.stream address hstream
    have hbox := h.box login hlogin
    have hsome : w.client.stream.isSome = true := hstream ▸ rfl
    have hconnected := hbox.connected hsome
    have hdue : w.client.reconnect.due = none := by
      refine Option.not_isSome_iff_eq_none.1 fun hdue => ?_
      exact absurd ((hbox.due hdue).2.2.1.symm.trans hconnected) Bool.false_ne_true
    have hsame := Reconnect.remember_bounds login.stage login.input w.client.reconnect
    have hcredentials : (w.client.reconnect.remember login.stage login.input).credentials =
        w.client.reconnect.credentials := by
      cases login.stage <;> rfl
    unfold Client.takeInput
    refine ⟨h.trimmed, h.stream, h.attempts, fun hnone => ?_, fun login' hlogin' => ?_, fun new hnew => ?_,
      fun pair hpair hmay => ?_, fun _ => ?_, fun line hline hreplayed => ?_⟩
    · cases hnone
    · obtain rfl := Option.some.inj hlogin'
      refine ⟨fun dial hdial => ⟨(hbox.dials dial hdial).1, fun heq => ?_⟩, fun _ _ hnot => ?_,
        fun _ _ => ⟨rfl, .inl rfl⟩, fun _ => .inl rfl, fun _ => hconnected, fun _ hidle => ?_, fun hdue' => ?_⟩
      · exact absurd (((hbox.dials dial hdial).2 heq).2.1.symm.trans hconnected) Bool.false_ne_true
      · exact absurd (hnot.symm.trans hconnected) Bool.false_ne_true
      · cases hidle
      · dsimp only at hdue'
        rw [hsame.due, hdue] at hdue'
        cases hdue'
    · cases hlogin.symm.trans (h.account new hnew).1
    · dsimp only at hpair hmay ⊢
      rw [hcredentials] at hpair
      rw [hsame.left, hsame.retrying] at hmay
      exact h.kept pair hpair (hmay.imp_right fun hor => hor.imp_right fun hnone => nomatch hnone)
    · have hgiven := h.given hsome
      dsimp only
      cases hstage : login.stage with
      | address => exact hgiven
      | username => exact ⟨fun _ => hbox.field (by rw [hstage]; decide), hgiven.2⟩
      | password _ => exact ⟨hgiven.1, fun _ => hbox.field (by rw [hstage]; exact Stage.noConfusion)⟩
    · rcases List.mem_append.1 hline with hold | hlast
      · exact h.sent line hold hreplayed
      · obtain rfl := List.mem_singleton.1 hlast
        dsimp only
        by_cases hstage : login.stage = .address
        · rcases (hbox.opened hstage hconnected).2 with hempty | haddress
          · exact .inr (.inl hempty)
          · exact .inl haddress
        · exact .inr (hbox.field hstage)
  · exact h

/-- A server asks for a step. -/
theorem Inv.ask {w : Watched} (h : w.Inv) (hstream : w.client.stream.isSome = true) {stage : Stage}
    (hstage : stage ≠ .address) (replays : ℕ) : ({ w with client := w.client.ask stage, replays } : Watched).Inv := by
  -- the box asks for the step, with an empty field or an answer
  have hask (input : String) (hinput : Typed w.typed w.client.address input) (answers : ℕ) (submit : Bool) :
      ({ w with
        client := { w.client with
          login := w.client.login.map fun login => { login.ask stage with input }
          reconnect := { w.client.reconnect with answers, submit } }
        replays } : Watched).Inv := by
    refine ⟨h.trimmed, h.stream, h.attempts, fun hnone => ?_, fun login' hlogin' => ?_, fun new hnew => ?_,
      fun pair hpair hmay => ?_, h.given, h.sent⟩
    · exact h.session (Option.map_eq_none_iff.1 hnone)
    · obtain ⟨login, hlogin, rfl⟩ := Option.map_eq_some_iff.1 hlogin'
      have hbox := h.box login hlogin
      have hconnected := hbox.connected hstream
      refine ⟨fun dial hdial => ⟨(hbox.dials dial hdial).1, fun heq => ?_⟩, fun haddress => absurd haddress hstage,
        fun haddress => absurd haddress hstage, fun _ => hinput, fun _ => hconnected,
        fun haddress => absurd haddress hstage, fun hdue => ?_⟩
      · exact absurd (((hbox.dials dial hdial).2 heq).2.1.symm.trans hconnected) Bool.false_ne_true
      · exact absurd ((hbox.due hdue).2.2.1.symm.trans hconnected) Bool.false_ne_true
    · have haccount := h.account new hnew
      exact ⟨by rw [haccount.1]; rfl, haccount.2⟩
    · refine h.kept pair hpair (hmay.imp_right fun hor => hor.imp_right fun hnone => ?_)
      exact Option.map_eq_none_iff.1 hnone
  rcases w.client.ask_cases stage with ⟨-, heq⟩ | ⟨text, reconnect, hanswer, heq⟩
  · rw [heq]
    exact hask "" (.inl rfl) w.client.reconnect.answers w.client.reconnect.submit
  · obtain ⟨hretrying, -, rfl, pair, hpair, htext⟩ := Reconnect.answer_spec hanswer
    obtain ⟨husername, hpassword⟩ := h.kept pair hpair (.inr (.inl hretrying))
    rw [heq]
    refine hask text ?_ (w.client.reconnect.answers - 1) true
    rcases htext with rfl | rfl
    · exact husername
    · exact hpassword

/-- What is left of the credentials after a session. -/
theorem Inv.arm {w : Watched} (h : w.Inv) {r : Reconnect} (hr : r = w.client.reconnect ∨ r = .forget) (now : ℕ) :
    (∀ pair, (r.arm now).credentials = some pair → 0 < (r.arm now).left ∨ (r.arm now).retrying = true →
      Typed w.typed w.client.address pair.1 ∧ Typed w.typed w.client.address pair.2) ∧
    ((r.arm now).retrying = false → (r.arm now).credentials = none ∨ (r.arm now).left = 0) ∧
    (r.due = none → (r.arm now).retrying = false → (r.arm now).due = none) := by
  unfold Reconnect.arm
  split
  · rename_i hnone
    refine ⟨fun pair hpair hmay => ?_, fun _ => hnone, fun hdue _ => hdue⟩
    dsimp only at hpair hmay
    rcases hnone with hnone | hzero
    · cases hnone.symm.trans hpair
    · rcases hmay with hleft | hretrying
      · exact absurd hzero (Nat.ne_of_gt hleft)
      · cases hretrying
  · rename_i hsome
    rw [not_or] at hsome
    refine ⟨fun pair hpair _ => ?_, fun hretrying => ?_, fun _ hretrying => ?_⟩
    · rcases hr with rfl | rfl
      · exact h.kept pair hpair (.inl (Nat.pos_of_ne_zero hsome.2))
      · cases hpair
    · cases hretrying
    · cases hretrying

/-- While a stream is open, no dial is due. -/
theorem Inv.due_eq_none {w : Watched} (h : w.Inv) (hstream : w.client.stream.isSome = true) :
    w.client.reconnect.due = none := by
  cases hlogin : w.client.login with
  | none => exact (h.session hlogin).2
  | some login =>
    have hbox := h.box login hlogin
    refine Option.not_isSome_iff_eq_none.1 fun hdue => ?_
    exact absurd ((hbox.due hdue).2.2.1.symm.trans (hbox.connected hstream)) Bool.false_ne_true

/-- The client is thrown out. -/
theorem Inv.disconnected {w : Watched} (h : w.Inv) (hstream : w.client.stream.isSome = true) (now : ℕ) {s : Client}
    (hs : s = w.client ∨ s = { w.client with reconnect := .forget }) (replays : ℕ) :
    ({ w with client := s.disconnected now, replays } : Watched).Inv := by
  have hdue := h.due_eq_none hstream
  obtain ⟨hlogin, haddress, hdialling⟩ : s.login = w.client.login ∧ s.address = w.client.address ∧
      s.dialling = w.client.dialling := by
    rcases hs with rfl | rfl
    · exact ⟨rfl, rfl, rfl⟩
    · exact ⟨rfl, rfl, rfl⟩
  obtain ⟨r, hr, hr'⟩ : ∃ r : Reconnect, (if s.loggingOut then Reconnect.forget else s.reconnect) = r ∧
      (r = w.client.reconnect ∨ r = .forget) := by
    refine ⟨_, rfl, ?_⟩
    split
    · exact .inr rfl
    · rcases hs with rfl | rfl
      · exact .inl rfl
      · exact .inr rfl
  have hrdue : r.due = none := by
    rcases hr' with rfl | rfl
    · exact hdue
    · rfl
  obtain ⟨hkept, hidle, hnodue⟩ := h.arm hr' now
  have hold : ∀ dial ∈ w.client.dialling, dial.1 ≤ (w.client.login.map Login.attempt).getD 0 ∧
      dial.1 ≠ (w.client.login.map Login.attempt).getD 0 := by
    intro dial hdial
    cases hbox : w.client.login with
    | none =>
      rw [(h.session hbox).1] at hdial
      cases hdial
    | some login =>
      have hbox := h.box login hbox
      refine ⟨(hbox.dials dial hdial).1, fun heq => ?_⟩
      exact absurd (((hbox.dials dial hdial).2 heq).2.1.symm.trans (hbox.connected hstream)) Bool.false_ne_true
  unfold Client.disconnected
  rw [hr, hlogin, haddress]
  refine ⟨?_, fun address hnone => ?_, ?_, fun hnone => ?_, fun login hlogin' => ?_, fun new hnew => ?_,
    fun pair hpair hmay => ?_, fun hsome => ?_, h.sent⟩
  · exact haddress ▸ h.trimmed
  · cases hnone
  · exact hdialling ▸ h.attempts
  · cases hnone
  · obtain rfl := Option.some.inj hlogin'
    dsimp only
    refine ⟨fun dial hdial => ?_, fun _ _ _ => ?_, fun _ hopen => ?_, fun hother => absurd rfl hother,
      fun hsome => ?_, fun _ hbusy => ⟨hbusy, hidle hbusy⟩, fun hsome => ?_⟩
    · have := hold dial (hdialling ▸ hdial)
      exact ⟨this.1, fun heq => absurd heq this.2⟩
    · exact haddress ▸ h.trimmed
    · cases hopen
    · cases hsome
    · refine ⟨rfl, ?_, rfl, fun dial hdial => (hold dial (hdialling ▸ hdial)).2⟩
      refine Bool.not_eq_false _ ▸ fun hbusy => ?_
      dsimp only at hsome hbusy
      rw [hnodue hrdue hbusy] at hsome
      cases hsome
  · cases hnew
  · dsimp only at hpair hmay ⊢
    refine hkept pair hpair (hmay.imp_right fun hor => hor.resolve_right fun hnone => ?_)
    cases hnone
  · cases hsome

/-- A dial ends. -/
theorem Inv.dialled {w w' : Watched} (h : w.Inv) {attempt : ℕ} {address : String} {ok : Bool} {now : ℕ}
    (hstep : w.step (.dialled attempt address ok now) = some w') : w'.Inv := by
  rw [Watched.step] at hstep
  split at hstep
  swap
  · cases hstep
  rename_i hdial
  have hfewer : ∀ dial ∈ w.client.dialling.erase (attempt, address), dial ∈ w.client.dialling := fun dial =>
    List.mem_of_mem_erase
  have hattempts : ((w.client.dialling.erase (attempt, address)).map Prod.fst).Nodup :=
    h.attempts.sublist (List.erase_sublist.map _)
  -- no other dial has this number
  have hother : ∀ dial ∈ w.client.dialling.erase (attempt, address), dial.1 ≠ attempt := by
    have hperm := ((List.perm_cons_erase hdial).map Prod.fst).nodup_iff.1 h.attempts
    intro dial hmem heq
    exact (List.nodup_cons.1 hperm).1 (List.mem_map.2 ⟨dial, hmem, heq⟩)
  rcases Client.connected_cases attempt address ok now
    { w.client with dialling := w.client.dialling.erase (attempt, address) } with
    heq | ⟨login, hlogin, hbusy, rfl, hopens⟩
  · simp only [heq, if_true] at hstep
    obtain rfl := Option.some.inj hstep
    refine ⟨h.trimmed, h.stream, hattempts, fun hnone => ?_, fun login hlogin => ?_, h.account, h.kept, h.given, h.sent⟩
    · rw [(h.session hnone).1] at hdial
      cases hdial
    · have hbox := h.box login hlogin
      exact ⟨fun dial hmem => hbox.dials dial (hfewer dial hmem), hbox.waiting, hbox.opened, hbox.field, hbox.connected,
        hbox.idle, fun hdue => ⟨(hbox.due hdue).1, (hbox.due hdue).2.1, (hbox.due hdue).2.2.1,
          fun dial hmem => (hbox.due hdue).2.2.2 dial (hfewer dial hmem)⟩⟩
  have hlogin : w.client.login = some login := hlogin
  have hbox := h.box login hlogin
  obtain ⟨hstage, hconnected, haddress⟩ := (hbox.dials _ hdial).2 rfl
  have hstream : w.client.stream = none := by
    refine Option.not_isSome_iff_eq_none.1 fun hsome => ?_
    exact absurd (hconnected.symm.trans (hbox.connected hsome)) Bool.false_ne_true
  have hdue : w.client.reconnect.due = none := by
    refine Option.not_isSome_iff_eq_none.1 fun hsome => ?_
    exact (hbox.due hsome).2.2.2 _ hdial rfl
  have haccount : w.client.account = none := by
    refine Option.eq_none_iff_forall_ne_some.2 fun new hnew => ?_
    cases hlogin.symm.trans (h.account new hnew).1
  rcases hopens with ⟨rfl, heq⟩ | ⟨rfl, heq⟩
  · -- the connection is open, and nothing was given on it
    simp only [heq] at hstep
    simp only [hstream, reduceCtorEq, if_false] at hstep
    obtain rfl := Option.some.inj hstep
    refine ⟨h.trimmed, fun address' haddress' => ?_, hattempts, fun hnone => ?_, fun login' hlogin' => ?_,
      fun new hnew => ?_, fun pair hpair hmay => ?_, fun _ => ⟨fun hgiven => ?_, fun hgiven => ?_⟩, h.sent⟩
    · exact (Option.some.inj haddress').symm.trans haddress
    · cases hnone
    · obtain rfl := Option.some.inj hlogin'
      refine ⟨fun dial hmem => ⟨(hbox.dials dial (hfewer dial hmem)).1, fun hsame => absurd hsame (hother dial hmem)⟩,
        fun _ _ hnot => ?_, fun _ _ => ⟨hbusy, .inr (hbox.waiting hstage hbusy hconnected)⟩,
        fun hnot => absurd hstage hnot, fun _ => rfl, fun _ hidle => ?_, fun hsome => ?_⟩
      · cases hnot
      · exact absurd (hidle.symm.trans hbusy) Bool.false_ne_true
      · dsimp only at hsome
        rw [hdue] at hsome
        cases hsome
    · cases haccount.symm.trans hnew
    · refine h.kept pair hpair (hmay.imp_right fun hor => hor.imp_right fun hnone => ?_)
      cases hnone
    · cases hgiven
    · cases hgiven
  · -- another dial is armed, or the box is the user's again
    simp only [heq, if_true] at hstep
    obtain rfl := Option.some.inj hstep
    obtain ⟨hkept, hidle, hnodue⟩ := h.arm (.inl rfl) now
    refine ⟨h.trimmed, h.stream, hattempts, fun hnone => ?_, fun login' hlogin' => ?_, fun new hnew => ?_,
      fun pair hpair hmay => ?_, fun hsome => ?_, h.sent⟩
    · cases hnone
    · obtain rfl := Option.some.inj hlogin'
      refine ⟨fun dial hmem => ⟨(hbox.dials dial (hfewer dial hmem)).1, fun hsame => absurd hsame (hother dial hmem)⟩,
        fun _ _ _ => hbox.waiting hstage hbusy hconnected, fun _ hopen => ?_, fun hnot => absurd hstage hnot,
        fun hsome => ?_, fun _ hretrying => ⟨hretrying, hidle hretrying⟩, fun hsome => ?_⟩
      · exact absurd (hconnected.symm.trans hopen) Bool.false_ne_true
      · dsimp only at hsome
        rw [hstream] at hsome
        cases hsome
      · refine ⟨hstage, Bool.not_eq_false _ ▸ fun hretrying => ?_, hconnected, hother⟩
        dsimp only at hsome hretrying
        rw [hnodue hdue hretrying] at hsome
        cases hsome
    · cases haccount.symm.trans hnew
    · refine hkept pair hpair (hmay.imp_right fun hor => hor.resolve_right fun hnone => ?_)
      cases hnone
    · dsimp only at hsome
      rw [hstream] at hsome
      cases hsome

end Watched

namespace Watched

/-- The box as it opens. -/
def opening (input : String) (busy : Bool) : Watched where
  client := ⟨some ⟨input, .address, busy, false, 0⟩, .forget, "", [], none, none, false⟩
  typed := []
  sent := []
  answered := (false, false)
  redials := 0
  replays := 0

/-- The first screen has the invariant. -/
theorem Inv.opening {input : String} {busy : Bool} (h : busy = true → trim input = "") : (opening input busy).Inv := by
  refine ⟨(by decide : trim "" = ""), fun _ hnone => (nomatch hnone), List.nodup_nil, fun hnone => (nomatch hnone),
    fun login hlogin => ?_, fun _ hnone => (nomatch hnone), fun _ hnone => (nomatch hnone),
    fun hsome => (nomatch hsome), fun _ hnone => (nomatch hnone)⟩
  obtain rfl := Option.some.inj hlogin
  exact ⟨fun _ hnone => (nomatch hnone), fun _ hbusy _ => h hbusy, fun _ hopen => (nomatch hopen),
    fun hother => absurd rfl hother, fun hsome => (nomatch hsome), fun _ _ => ⟨rfl, .inl rfl⟩,
    fun hsome => (nomatch hsome)⟩

/-- So has the start. -/
theorem Inv.start (auto : Option String) : (start auto).Inv := by
  cases auto with
  | none => exact Inv.opening fun hbusy => absurd hbusy Bool.false_ne_true
  | some address =>
    have hstart : Watched.start (some address) = { Watched.opening (trim address) true with
        client := (Watched.opening (trim address) true).client.connect } := by
      simp only [Watched.start, Watched.opening, Option.getD_some, Option.isSome_some, if_true]
    rw [hstart]
    by_cases hempty : trim (trim address) = ""
    · have hsame : (Watched.opening (trim address) true).client.connect =
          (Watched.opening (trim address) true).client := by
        simp only [Watched.opening, Client.connect, hempty, if_true]
      rw [hsame]
      exact Inv.opening fun _ => hempty
    · have hsame : (Watched.opening (trim address) true).client.connect =
          (Watched.opening (trim address) false).client.connect := by
        simp only [Watched.opening, Client.connect, hempty, if_false]
      have hopening : (Watched.opening (trim address) false).Inv :=
        Inv.opening fun hbusy => absurd hbusy Bool.false_ne_true
      rw [hsame]
      exact @Inv.connect _ ⟨trim address, .address, false, false, 0⟩ hopening rfl rfl rfl rfl (.inr rfl) 0

/-- A dial keeps the invariant. -/
theorem Inv.dial {w : Watched} (h : w.Inv) (now : ℕ) : (w.dial now).Inv := by
  rcases w.dial_cases now with hsame | ⟨hdue, hdial⟩
  · rw [hsame]
    exact h
  · cases hlogin : w.client.login with
    | none =>
      rw [(h.session hlogin).2] at hdue
      cases hdue
    | some login =>
      have hbox := h.box login hlogin
      obtain ⟨hstage, hbusy, hconnected, -⟩ := hbox.due hdue
      have hcleared : ({ w with client := { w.client with reconnect := { w.client.reconnect with due := none } } } :
          Watched).Inv := by
        refine ⟨h.trimmed, h.stream, h.attempts, fun hnone => ?_, fun login' hlogin' => ?_, h.account, h.kept, h.given,
          h.sent⟩
        · exact ⟨(h.session hnone).1, rfl⟩
        · have hbox := h.box login' hlogin'
          exact ⟨hbox.dials, hbox.waiting, hbox.opened, hbox.field, hbox.connected, hbox.idle,
            fun hsome => (nomatch hsome)⟩
      rw [hdial]
      exact hcleared.connect hlogin hstage hconnected rfl (.inl (hbox.waiting hstage hbusy hconnected)) (w.redials + 1)

/-- An answer keeps the invariant. -/
theorem Inv.answer {w : Watched} (h : w.Inv) : w.answer.Inv := by
  unfold Watched.answer
  split
  · have hcleared : ({ w with
        client := { w.client with reconnect := { w.client.reconnect with submit := false } } } : Watched).Inv := by
      refine ⟨h.trimmed, h.stream, h.attempts, h.session, fun login hlogin => ?_, h.account, h.kept, h.given, h.sent⟩
      have hbox := h.box login hlogin
      exact ⟨hbox.dials, hbox.waiting, hbox.opened, hbox.field, hbox.connected, hbox.idle, hbox.due⟩
    exact hcleared.submit true
  · exact h

/-- Every event keeps the invariant. -/
theorem Inv.event {w : Watched} (h : w.Inv) (hstream : w.client.stream.isSome = true) {event : ServerEvent} {now : ℕ}
    (hasks : w.Asks (.event event now)) : (w.event event now).Inv := by
  cases event with
  | username => exact h.ask hstream (by decide) _
  | login | register => exact h.ask hstream (by decide) _
  | authenticated =>
    obtain ⟨hanswered, hdialling⟩ := hasks
    have hgiven := h.given hstream
    rw [hanswered] at hgiven
    refine ⟨h.trimmed, h.stream, h.attempts, fun _ => ⟨hdialling, rfl⟩, fun login hlogin => ?_, fun new hnew => ?_,
      fun pair hpair _ => ?_, h.given, h.sent⟩
    · cases hlogin
    · exact ⟨rfl, (h.account new hnew).2⟩
    · obtain rfl := Option.some.inj hpair
      exact ⟨hgiven.1 rfl, hgiven.2 rfl⟩
  | usernameRejected =>
    refine ⟨h.trimmed, h.stream, h.attempts, fun hnone => ⟨(h.session hnone).1, rfl⟩, fun login hlogin => ?_, h.account,
      fun pair hpair => ?_, fun _ => ⟨fun _ => .inl rfl, fun _ => .inl rfl⟩, h.sent⟩
    · have hbox := h.box login hlogin
      exact ⟨hbox.dials, hbox.waiting, hbox.opened, hbox.field, hbox.connected, fun _ _ => ⟨rfl, .inl rfl⟩,
        fun hsome => (nomatch hsome)⟩
    · cases hpair
  | quit said =>
    unfold Watched.event
    simp only [Client.apply]
    split
    · exact h.disconnected hstream now (.inl rfl) _
    · split
      · exact h.disconnected hstream now (.inr rfl) _
      · exact h.disconnected hstream now (.inl rfl) _
  | failed => exact h.disconnected hstream now (.inl rfl) _
  | passwd changed =>
    cases changed with
    | false =>
      refine ⟨h.trimmed, h.stream, h.attempts, h.session, fun login hlogin => ?_, fun new hnew => ?_, h.kept, h.given,
        h.sent⟩
      · have hbox := h.box login hlogin
        exact ⟨hbox.dials, hbox.waiting, hbox.opened, hbox.field, hbox.connected, hbox.idle, hbox.due⟩
      · obtain ⟨old, hold, rfl⟩ := Option.map_eq_some_iff.1 hnew
        exact ⟨(h.account old hold).1, .inl rfl⟩
    | true =>
      simp only [Watched.event, Client.apply]
      split
      · exact h
      · rename_i new hnew
        obtain ⟨hlogin, hnew⟩ := h.account new hnew
        refine ⟨h.trimmed, h.stream, h.attempts, h.session, fun login hlogin' => ?_, fun _ hnone => (nomatch hnone),
          fun pair hpair _ => ?_, h.given, h.sent⟩
        · cases hlogin.symm.trans hlogin'
        · obtain ⟨old, hold, rfl⟩ := Option.map_eq_some_iff.1 hpair
          exact ⟨(h.kept old hold (.inr (.inr hlogin))).1, hnew⟩

/-- Some more is typed. -/
theorem Inv.more {w : Watched} (h : w.Inv) (more : List (String × String)) :
    ({ w with typed := w.typed ++ more } : Watched).Inv := by
  refine ⟨h.trimmed, h.stream, h.attempts, h.session, fun login hlogin => ?_, fun new hnew => ?_,
    fun pair hpair hmay => ?_, fun hsome => ?_, fun line hline hreplayed => ?_⟩
  · have hbox := h.box login hlogin
    exact ⟨hbox.dials, hbox.waiting, hbox.opened, fun hstage => (hbox.field hstage).mono more, hbox.connected,
      hbox.idle, hbox.due⟩
  · exact ⟨(h.account new hnew).1, (h.account new hnew).2.mono more⟩
  · exact ⟨(h.kept pair hpair hmay).1.mono more, (h.kept pair hpair hmay).2.mono more⟩
  · exact ⟨fun hgiven => ((h.given hsome).1 hgiven).mono more, fun hgiven => ((h.given hsome).2 hgiven).mono more⟩
  · exact (h.sent line hline hreplayed).imp_right fun htyped => htyped.mono more

/-- Keys leave a text in the field. -/
theorem Inv.edit {w w' : Watched} (h : w.Inv) {text : String} (hstep : w.step (.edit text) = some w') : w'.Inv := by
  rw [Watched.step] at hstep
  split at hstep
  · cases hstep
  rename_i login hlogin
  split at hstep
  · cases hstep
  rename_i hbusy
  have hbusy := Bool.eq_false_iff.2 hbusy
  have hbox := h.box login hlogin
  have hnodue : w.client.reconnect.due = none := by
    refine Option.not_isSome_iff_eq_none.1 fun hsome => ?_
    exact absurd (hbusy.symm.trans (hbox.due hsome).2.1) Bool.false_ne_true
  split at hstep
  · rename_i hstage
    obtain rfl := Option.some.inj hstep
    refine ⟨h.trimmed, h.stream, h.attempts, fun hnone => (nomatch hnone), fun login' hlogin' => ?_, fun new hnew => ?_,
      fun pair hpair hmay => ?_, h.given, h.sent⟩
    · obtain rfl := Option.some.inj hlogin'
      refine ⟨hbox.dials, fun _ hnot => ?_, fun _ hopen => ?_, fun hother => absurd hstage hother, hbox.connected,
        hbox.idle, hbox.due⟩
      · exact absurd (hbusy.symm.trans hnot) Bool.false_ne_true
      · exact absurd (hbusy.symm.trans (hbox.opened hstage hopen).1) Bool.false_ne_true
    · cases hlogin.symm.trans (h.account new hnew).1
    · refine h.kept pair hpair (hmay.imp_right fun hor => hor.imp_right fun hnone => ?_)
      cases hnone
  · rename_i hstage
    obtain rfl := Option.some.inj hstep
    have hmore := h.more [(w.client.address, text)]
    have hbox := hmore.box login hlogin
    refine ⟨h.trimmed, h.stream, h.attempts, fun hnone => (nomatch hnone), fun login' hlogin' => ?_, fun new hnew => ?_,
      fun pair hpair hmay => ?_, hmore.given, hmore.sent⟩
    · obtain rfl := Option.some.inj hlogin'
      exact ⟨hbox.dials, fun haddress => absurd haddress hstage, fun haddress => absurd haddress hstage,
        fun _ => .inr (List.mem_append_right _ List.mem_cons_self), hbox.connected, hbox.idle, hbox.due⟩
    · cases hlogin.symm.trans (h.account new hnew).1
    · refine hmore.kept pair hpair (hmay.imp_right fun hor => hor.imp_right fun hnone => ?_)
      cases hnone

/-- **Every action keeps the invariant.** -/
theorem Inv.step {w w' : Watched} {a : Action} (h : w.Inv) (hasks : w.Asks a) (hstep : w.step a = some w') :
    w'.Inv := by
  cases a with
  | edit text => exact h.edit hstep
  | enter =>
    rw [Watched.step] at hstep
    split at hstep
    · cases hstep
    rename_i login hlogin
    split at hstep
    · cases hstep
    rename_i hbusy
    have hbusy := Bool.eq_false_iff.2 hbusy
    have hbox := h.box login hlogin
    split at hstep
    · rename_i hstage
      obtain rfl := Option.some.inj hstep
      have hconnected : login.connected = false := by
        refine Bool.eq_false_iff.2 fun hopen => ?_
        exact absurd (hbusy.symm.trans (hbox.opened hstage hopen).1) Bool.false_ne_true
      have hnodue : w.client.reconnect.due = none := by
        refine Option.not_isSome_iff_eq_none.1 fun hsome => ?_
        exact absurd (hbusy.symm.trans (hbox.due hsome).2.1) Bool.false_ne_true
      exact h.connect hlogin hstage hconnected hnodue (.inr hbusy) w.redials
    · split at hstep
      · obtain rfl := Option.some.inj hstep
        exact h
      · obtain rfl := Option.some.inj hstep
        exact h.submit false
  | esc =>
    rw [Watched.step] at hstep
    split at hstep
    · cases hstep
    rename_i login hlogin
    split at hstep
    · cases hstep
    rename_i hstays
    simp only [not_or, Bool.not_eq_true, Bool.not_eq_false, not_not] at hstays
    obtain ⟨hconnected, hstage, -⟩ := hstays
    obtain rfl := Option.some.inj hstep
    have hbox := h.box login hlogin
    refine ⟨h.trimmed, h.stream, h.attempts, fun hnone => (nomatch hnone), fun login' hlogin' => ?_, fun new hnew => ?_,
      fun _ hnone => (nomatch hnone), fun _ => ⟨fun _ => .inl rfl, fun _ => .inl rfl⟩, h.sent⟩
    · obtain rfl := Option.some.inj hlogin'
      refine ⟨hbox.dials, fun _ hnot => (nomatch hnot), fun _ hopen => ?_, hbox.field, hbox.connected,
        fun _ _ => ⟨rfl, .inl rfl⟩, fun hsome => (nomatch hsome)⟩
      exact absurd (hconnected.symm.trans hopen) Bool.false_ne_true
    · cases hlogin.symm.trans (h.account new hnew).1
  | dialled attempt address ok now => exact h.dialled hstep
  | tick now =>
    obtain rfl := Option.some.inj hstep
    exact (h.dial now).answer
  | event event now =>
    rw [Watched.step] at hstep
    split at hstep
    · rename_i hstream
      obtain rfl := Option.some.inj hstep
      exact h.event hstream hasks
    · cases hstep
  | logout =>
    rw [Watched.step] at hstep
    split at hstep
    · obtain rfl := Option.some.inj hstep
      refine ⟨h.trimmed, h.stream, h.attempts, h.session, fun login hlogin => ?_, h.account, h.kept, h.given, h.sent⟩
      have hbox := h.box login hlogin
      exact ⟨hbox.dials, hbox.waiting, hbox.opened, hbox.field, hbox.connected, hbox.idle, hbox.due⟩
    · cases hstep
  | openAccount =>
    rw [Watched.step] at hstep
    split at hstep
    · rename_i hlogin
      obtain rfl := Option.some.inj hstep
      refine ⟨h.trimmed, h.stream, h.attempts, h.session, fun login hlogin' => ?_, fun new hnew => ?_, h.kept, h.given,
        h.sent⟩
      · cases hlogin.symm.trans hlogin'
      · obtain rfl := Option.some.inj hnew
        exact ⟨hlogin, .inl rfl⟩
    · cases hstep
  | confirm new =>
    rw [Watched.step] at hstep
    split at hstep
    · rename_i old address hold hstream
      obtain rfl := Option.some.inj hstep
      have hmore := h.more [(w.client.address, new)]
      refine ⟨h.trimmed, h.stream, h.attempts, h.session, fun login hlogin => ?_, fun new' hnew => ?_, hmore.kept,
        hmore.given, fun line hline hreplayed => ?_⟩
      · cases (h.account old hold).1.symm.trans hlogin
      · obtain rfl := Option.some.inj hnew
        exact ⟨(h.account old hold).1, .inr (List.mem_append_right _ List.mem_cons_self)⟩
      · rcases List.mem_append.1 hline with hline | hlast
        · exact hmore.sent line hline hreplayed
        · obtain rfl := List.mem_singleton.1 hlast
          cases hreplayed
    · cases hstep
  | closeAccount =>
    obtain rfl := Option.some.inj hstep
    refine ⟨h.trimmed, h.stream, h.attempts, h.session, fun login hlogin => ?_, fun _ hnone => (nomatch hnone), h.kept,
      h.given, h.sent⟩
    have hbox := h.box login hlogin
    exact ⟨hbox.dials, hbox.waiting, hbox.opened, hbox.field, hbox.connected, hbox.idle, hbox.due⟩

/-- **A remembered answer only goes where it was typed.**  In every run in which servers ask for the
name and the password before they accept, and no cancelled dial is still under way then, a line that
the client gives for the user is one that the user typed for that address, the address itself, or
nothing. -/
theorem replayed_where_typed {auto : Option String} {w : Watched} {actions : List Action}
    (hmeets : Meets step Asks (start auto) actions) (hexec : exec step (start auto) actions = some w) :
    ∀ line ∈ w.sent, line.replayed = true →
      trim line.text = line.address ∨ line.text = "" ∨ (line.address, line.text) ∈ w.typed :=
  (exec_induct (fun _ _ _ h hasks hstep => Inv.step h hasks hstep) (Inv.start auto) hmeets hexec : w.Inv).sent

end Watched

namespace Watched

/-- The password is replayed where it was typed. -/
theorem replayed_where_typed_back :
    ∃ w : Watched, w.sent.getLast? = some ⟨"a:1", "secret", true⟩ ∧ ∀ line ∈ w.sent, line.replayed = true →
      trim line.text = line.address ∨ line.text = "" ∨ (line.address, line.text) ∈ w.typed := by
  have hrun : (exec step (start none) (gettingIn ++ dialledBack "a:1")).map (·.sent.getLast?) =
      some (some ⟨"a:1", "secret", true⟩) := by decide +kernel
  obtain ⟨w, hw, hlast⟩ := Option.map_eq_some_iff.1 hrun
  exact ⟨w, hlast, replayed_where_typed (by decide +kernel) hw⟩

/-- **The pair that is kept may be the one of another server.**  A server that accepts without asking
gets the password that was typed for `a:1`. -/
theorem replayed_elsewhere :
    (exec step (start none) (gettingIn ++ [.event (.quit false) 0, .edit "b:1", .enter, .dialled 2 "b:1" true 0] ++
      dialledBack "b:1")).map (fun w => (w.sent.getLast?, decide (("b:1", "secret") ∈ w.typed))) =
        some (some ⟨"b:1", "secret", true⟩, false) := by
  decide +kernel

/-- **The counter of the dials starts over with a session.**  A dial to `b:1` that was cancelled before
is taken for the one that dials back, if it is that slow. -/
theorem cancelled_dial_taken :
    (exec step (start none) ([.edit "b:1", .enter, .esc, .edit "a:1", .enter, .dialled 2 "a:1" true 0] ++
      gettingIn.drop 3 ++ dialledBack "b:1")).map
        (fun w => (w.sent.getLast?, decide (("b:1", "secret") ∈ w.typed))) =
          some (some ⟨"b:1", "secret", true⟩, false) := by
  decide +kernel

end Watched

end Redial
end Why2
