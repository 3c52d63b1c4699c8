/-
# Playing voice messages

The player of voice messages (`chat/src/network/voice/client/message.rs`), the tasks that
bring a clip to it, and what the screen shows of it (`state.rs` and `voice_message.rs` in
`chat/src/bin/client/tui/`).  A play or a stop takes two steps, raising the generation and
taking the player, with the tasks of earlier plays going on between them.  A clip that is
not in the cache is asked of the server, and its answer is given to the first play that
waits for the clip.

Over any run, what plays is what the last call asked for, and it is the clip of that
digest (`plays_last_asked`).  A play comes to its end when nothing is under way any more,
unless a session ended while a clip was awaited (`plays_settled`, `play_lost`).  What an
entry shows is what the player does (`shows_playing`).  The playhead plays the samples of
a clip in order, and a packet that cannot be decoded is left out (`Playhead.plays_samples`).

The resampling and the volume of the output are left out, and so is the list of requests
that wait for a slot: a request is on its way until it is answered.
-/

import Why2.Chat.Recording
import Why2.Lib.Lists

namespace Why2
namespace VoiceMessage

open Lib

/-! ### The player -/

section Player

variable {H : Type}

/-- What the screen asks of the player: `play`, `stop`, and the stop at the end of a session. -/
inductive Call (H : Type)
  | play (hash : H)
  | stop
  | reset
deriving DecidableEq

/-- A play that is under way. -/
structure Play (H : Type) where
  hash : H
  generation : ℕ
deriving DecidableEq

/-- The play that a call is, at its generation. -/
def Call.toPlay? (generation : ℕ) : Call H → Option (Play H)
  | .play hash => some ⟨hash, generation⟩
  | _ => none

/-- A play with the file for it. -/
structure Fetched (H : Type) where
  play : Play H
  data : List U8
deriving DecidableEq

/-- How a play ended. -/
inductive Outcome
  | started
  | stale
  | failed
  | invalid
deriving DecidableEq

/-- `Player`, with the play that started it. -/
structure Player (H : Type) where
  play : Play H
  clip : Clip
  /-- `Progress::frames`. -/
  frames : ℕ
  /-- `Progress::done`. -/
  done : Bool
deriving DecidableEq

/-- The output callback: the next packet is decoded, or there is none. -/
def Player.decoded (p : Player H) : Player H :=
  if p.frames < p.clip.frames.length then { p with frames := p.frames + 1 } else { p with done := true }

/-- What `playing` returns, in seconds. -/
def Player.shown (p : Player H) : H × ℕ := (p.play.hash, p.frames * frameMs / 1000)

/-- `Playback`. -/
inductive Playback
  | idle
  | loading
  | playing (seconds : ℕ)
  | gone
deriving DecidableEq

/-- `Entry::Voice`. -/
structure VoiceEntry (H : Type) where
  hash : H
  playback : Playback
deriving DecidableEq

/-- `ClientEvent`: the ones about playing. -/
inductive PlayEvent (H : Type)
  | imageRequest (hash : H)
  | voiceData (hash : H) (valid : Bool)
  | voiceMessageFailed
deriving DecidableEq

/-- SHA-256 and the decoding of a clip. -/
structure PlayEnv (H : Type) where
  sha256 : List U8 → H
  deserialize : List U8 → Option Clip

/-- The player, the tasks of its plays, and what the screen shows. -/
structure VoicePlayer (H : Type) where
  /-- `PLAYER`. -/
  player : Option (Player H)
  /-- `PLAY_GENERATION`. -/
  generation : ℕ
  /-- `AWAITED`. -/
  awaited : List (Play H)
  /-- The call that has raised the generation and has not taken the player yet. -/
  call : Option (Call H)
  /-- Plays that look their clip up in the cache. -/
  loading : List (Play H)
  /-- Requests in the queue, at the server, and answered. -/
  outstanding : List H
  /-- Answers that are hashed. -/
  verifying : List (Fetched H)
  /-- Plays that open the output. -/
  opening : List (Fetched H)
  /-- Events that the screen has not handled. -/
  events : List (PlayEvent H)
  /-- The voice messages of the pane, and those of the panes of other channels. -/
  messages : List (VoiceEntry H)
  panes : List (VoiceEntry H)
  /-- `App::playing`. -/
  playing : Option (H × ℕ)
  /-- The last call. -/
  last : Option (Call H)
  /-- The generations of all plays, and how they ended. -/
  plays : List ℕ
  ended : List (ℕ × Outcome)

/-- What happens to a player: what the user asks for, what its tasks do, what comes from the server. -/
inductive PlayAction (H : Type)
  | play (hash : H)
  | stop
  | disconnected
  /-- The second step of a call. -/
  | taken
  | loaded (k : ℕ) (data : Option (List U8))
  /-- The server answers a request, or sends a file that nobody asked for. -/
  | answer (k : ℕ) (data : List U8)
  | unasked (hash : H) (data : List U8)
  | verified (k : ℕ)
  | opened (k : ℕ)
  | openFailed (k : ℕ)
  /-- The output takes the next packet of the clip, or finds none. -/
  | decoded
  /-- A picture is asked for. -/
  | request (hash : H)
  | handle
  | tick
  /-- Entries come, go and move between the panes. -/
  | arranged (messages panes : List (VoiceEntry H))

namespace VoicePlayer

/-- A player that was not asked for anything. -/
def start : VoicePlayer H where
  player := none
  generation := 0
  awaited := []
  call := none
  loading := []
  outstanding := []
  verifying := []
  opening := []
  events := []
  messages := []
  panes := []
  playing := none
  last := none
  plays := []
  ended := []

section Screen

variable [DecidableEq H]

/-- `set_playback`, of one entry. -/
def setEntry (hash : H) (playback : Playback) (entry : VoiceEntry H) : VoiceEntry H :=
  if entry.hash = hash then { entry with playback } else entry

/-- `set_playback`. -/
def setPlayback (s : VoicePlayer H) (hash : H) (playback : Playback) : VoicePlayer H :=
  { s with messages := s.messages.map (setEntry hash playback), panes := s.panes.map (setEntry hash playback) }

/-- `stop_loading`. -/
def stopLoading (s : VoicePlayer H) : VoicePlayer H :=
  ((s.messages.filter (·.playback = .loading)).map (·.hash)).foldl (fun s hash => s.setPlayback hash .idle) s

/-- `sync_playing`: the one that stopped is reset. -/
def resetStopped (s : VoicePlayer H) (now : Option (H × ℕ)) : VoicePlayer H :=
  match s.playing.filter (fun p => now.all fun q => q.1 ≠ p.1) with
  | some (hash, _) => s.setPlayback hash .idle
  | none => s

/-- `sync_playing`, with the seconds. -/
def syncPlaying (s : VoicePlayer H) (now : Option (H × ℕ)) : VoicePlayer H :=
  if now = s.playing then s
  else
    let s := s.resetStopped now
    let s := match now with
      | some (hash, seconds) => s.setPlayback hash (.playing seconds)
      | none => s
    { s with playing := now }

end Screen

/-- The first step of a call. -/
def raise (s : VoicePlayer H) (call : Call H) : VoicePlayer H :=
  { s with generation := s.generation + 1, call := some call, last := some call }

variable [DecidableEq H]

/-- `play`, in `voice_message.rs` and in `message.rs`. -/
def play (s : VoicePlayer H) (hash : H) : VoicePlayer H :=
  let s := (s.stopLoading.setPlayback hash .loading).raise (.play hash)
  { s with plays := s.plays ++ [s.generation] }

/-- `disconnected`, with `reset_session`. -/
def disconnected (s : VoicePlayer H) : VoicePlayer H :=
  { s with messages := [], panes := [], playing := none, outstanding := [] }.raise .reset

/-- The second step of a call: the player is taken, and what comes after. -/
def take (s : VoicePlayer H) (call : Call H) : VoicePlayer H :=
  let s := { s with player := none, call := none }
  match call with
  | .play hash => { s with loading := s.loading ++ [⟨hash, s.generation⟩] }
  | .stop => s.stopLoading.syncPlaying none
  | .reset => s

/-- `play`: what the cache has. -/
def loaded (s : VoicePlayer H) (k : ℕ) (play : Play H) (data : Option (List U8)) : VoicePlayer H :=
  let s := { s with loading := s.loading.eraseIdx k }
  match data with
  | some data => { s with opening := s.opening ++ [⟨play, data⟩] }
  | none => { s with awaited := s.awaited ++ [play], events := s.events ++ [.imageRequest play.hash] }

/-- `listen_server`, on `ImageData`, with `awaited`.  A picture goes to the captions. -/
def imageData (s : VoicePlayer H) (hash : H) (data : List U8) : VoicePlayer H :=
  match s.awaited.findIdx? (·.hash = hash) with
  | none => s
  | some index =>
    { s with
      awaited := swapRemove s.awaited index
      verifying := s.verifying ++ (s.awaited[index]?.map (⟨·, data⟩)).toList }

/-- `listen_server`, when the file is hashed. -/
def verified (env : PlayEnv H) (s : VoicePlayer H) (k : ℕ) (f : Fetched H) : VoicePlayer H :=
  let valid := decide (env.sha256 f.data = f.play.hash ∧ f.data ≠ [])
  let s : VoicePlayer H :=
    { s with verifying := s.verifying.eraseIdx k, events := s.events ++ [.voiceData f.play.hash valid] }
  if valid then { s with opening := s.opening ++ [f] }
  else { s with ended := s.ended ++ [(f.play.generation, .invalid)] }

/-- `play_data`, if `open_output` fails. -/
def openFailed (s : VoicePlayer H) (k : ℕ) (f : Fetched H) : VoicePlayer H :=
  { s with
    opening := s.opening.eraseIdx k
    events := s.events ++ [.voiceMessageFailed]
    ended := s.ended ++ [(f.play.generation, .failed)] }

/-- `open_output`, if there is an output. -/
def opened (env : PlayEnv H) (s : VoicePlayer H) (k : ℕ) (f : Fetched H) : VoicePlayer H :=
  match Clip.decode env.deserialize f.data with
  | none => s.openFailed k f
  | some clip =>
    let s := { s with opening := s.opening.eraseIdx k }
    if s.generation = f.play.generation then
      { s with player := some ⟨f.play, clip, 0, false⟩, ended := s.ended ++ [(f.play.generation, .started)] }
    else { s with ended := s.ended ++ [(f.play.generation, .stale)] }

/-- `App::apply`, on one event. -/
def handle (s : VoicePlayer H) : PlayEvent H → VoicePlayer H
  | .imageRequest hash => { s with outstanding := s.outstanding ++ [hash] }
  | .voiceData hash valid => if valid then s else s.setPlayback hash .gone
  | .voiceMessageFailed => s.stopLoading

/-- `tick`, with `playing`. -/
def tick (s : VoicePlayer H) : VoicePlayer H :=
  let player := s.player.filter (!·.done)
  { s with player }.syncPlaying (player.map Player.shown)

/-- The screen goes on when a call is over. -/
def step (env : PlayEnv H) (s : VoicePlayer H) : PlayAction H → Option (VoicePlayer H)
  | .taken => s.call.map s.take
  | .loaded k data => (s.loading[k]?).map (s.loaded k · data)
  | .answer k data =>
    (s.outstanding[k]?).map fun hash => { s with outstanding := s.outstanding.eraseIdx k }.imageData hash data
  | .unasked hash data => some (s.imageData hash data)
  | .verified k => (s.verifying[k]?).map (s.verified env k)
  | .opened k => (s.opening[k]?).map (s.opened env k)
  | .openFailed k => (s.opening[k]?).map (s.openFailed k)
  | .decoded => some { s with player := s.player.map Player.decoded }
  | .request hash => some { s with outstanding := s.outstanding ++ [hash] }
  | .play hash => if s.call.isNone then some (s.play hash) else none
  | .stop => if s.call.isNone then some (s.raise .stop) else none
  | .disconnected => if s.call.isNone then some s.disconnected else none
  | .handle =>
    match s.call, s.events with
    | none, event :: events => some ({ s with events }.handle event)
    | _, _ => none
  | .tick => if s.call.isNone then some s.tick else none
  | .arranged messages panes =>
    if s.call.isNone ∧ ∀ e ∈ messages ++ panes, e ∈ s.messages ++ s.panes ∨ e.playback = .idle then
      some { s with messages, panes }
    else none

/-! ### What a step does -/

/-- All plays that are under way. -/
def tasks (s : VoicePlayer H) : List (Play H) :=
  s.loading ++ s.awaited ++ s.verifying.map Fetched.play ++ s.opening.map Fetched.play

/-- `stop_loading` changes the entries only. -/
theorem stopLoading_screen (s : VoicePlayer H) :
    ∃ messages panes, s.stopLoading = { s with messages, panes } := by
  rw [stopLoading]
  generalize (s.messages.filter (·.playback = .loading)).map (·.hash) = hashes
  induction hashes generalizing s with
  | nil => exact ⟨s.messages, s.panes, rfl⟩
  | cons hash hashes ih =>
    obtain ⟨messages, panes, h⟩ := ih (s.setPlayback hash .idle)
    exact ⟨messages, panes, h⟩

/-- `sync_playing` changes the entries and what is shown as playing. -/
theorem syncPlaying_screen (s : VoicePlayer H) (now : Option (H × ℕ)) :
    ∃ messages panes, s.syncPlaying now = { s with messages, panes, playing := now } := by
  rw [syncPlaying]
  split
  case isTrue h => exact ⟨s.messages, s.panes, by rw [h]⟩
  case isFalse =>
    rw [resetStopped]
    split <;> cases now <;> exact ⟨_, _, rfl⟩

/-- A step of the tasks or of the screen.  One play may come to its end. -/
structure Moved (s s' : VoicePlayer H) (settled : Option (Play H × Outcome)) : Prop where
  generation : s'.generation = s.generation
  call : s'.call = s.call
  last : s'.last = s.last
  plays : s'.plays = s.plays
  tasks : s.tasks.Perm (settled.toList.map Prod.fst ++ s'.tasks)
  ended : s'.ended = s.ended ++ settled.toList.map fun p => (p.1.generation, p.2)
  stale : ∀ t, settled = some (t, .stale) → t.generation ≠ s.generation
  player : ∀ p, s'.player = some p → (∃ p₀, s.player = some p₀ ∧ p.play = p₀.play) ∨
    p.play ∈ s.tasks ∧ p.play.generation = s.generation

/-- The first step of a call. -/
structure Called (s s' : VoicePlayer H) (c : Call H) : Prop where
  idle : s.call = none
  generation : s'.generation = s.generation + 1
  call : s'.call = some c
  last : s'.last = some c
  plays : s'.plays = s.plays ++ (c.toPlay? (s.generation + 1)).toList.map Play.generation
  tasks : s'.tasks = s.tasks
  ended : s'.ended = s.ended

/-- The second step of a call. -/
structure Taken (s s' : VoicePlayer H) (c : Call H) : Prop where
  busy : s.call = some c
  generation : s'.generation = s.generation
  call : s'.call = none
  last : s'.last = s.last
  plays : s'.plays = s.plays
  tasks : s'.tasks.Perm ((c.toPlay? s.generation).toList ++ s.tasks)
  ended : s'.ended = s.ended
  player : s'.player = none

/-- What an action does: a play moves on, a call is made, or a call is taken. -/
inductive Effect (s s' : VoicePlayer H) : Prop
  | moved (settled : Option (Play H × Outcome)) (h : Moved s s' settled)
  | called (c : Call H) (h : Called s s' c)
  | taken (c : Call H) (h : Taken s s' c)

omit [DecidableEq H] in
/-- Only the screen changes. -/
theorem moved_screen (s : VoicePlayer H) (messages panes : List (VoiceEntry H)) (playing : Option (H × ℕ))
    (events : List (PlayEvent H)) (outstanding : List H) :
    Moved s { s with messages, panes, playing, events, outstanding } none :=
  ⟨rfl, rfl, rfl, rfl, .refl _, (List.append_nil _).symm, (fun _ h => by cases h), fun p hp => .inl ⟨p, hp, rfl⟩⟩

/-- What the cache answers moves the play on. -/
theorem loaded_moved {s : VoicePlayer H} {k : ℕ} {play : Play H} (h : s.loading[k]? = some play)
    (data : Option (List U8)) : Moved s (s.loaded k play data) none := by
  obtain ⟨hlt, rfl⟩ := List.getElem?_eq_some_iff.1 h
  have hperm := (List.getElem_cons_eraseIdx_perm hlt).symm
  cases data with
  | some data =>
    refine ⟨rfl, rfl, rfl, rfl, List.perm_iff_count.2 fun t => ?_, (List.append_nil _).symm,
      (fun _ h => by cases h), fun p hp => .inl ⟨p, hp, rfl⟩⟩
    have hcount := hperm.count_eq t
    simp only [tasks, loaded, List.map_append, List.map_cons, List.map_nil, List.count_append, List.count_cons,
      List.count_nil, Option.toList_none] at hcount ⊢
    omega
  | none =>
    refine ⟨rfl, rfl, rfl, rfl, List.perm_iff_count.2 fun t => ?_, (List.append_nil _).symm,
      (fun _ h => by cases h), fun p hp => .inl ⟨p, hp, rfl⟩⟩
    have hcount := hperm.count_eq t
    simp only [tasks, loaded, List.map_nil, List.count_append, List.count_cons, List.count_nil,
      Option.toList_none] at hcount ⊢
    omega

/-- A file from the server moves the plays on that wait for it. -/
theorem imageData_moved (s : VoicePlayer H) (outstanding : List H) (hash : H) (data : List U8) :
    Moved s ({ s with outstanding }.imageData hash data) none := by
  rw [imageData]
  split
  case h_1 => exact moved_screen s s.messages s.panes s.playing s.events outstanding
  case h_2 index hindex =>
    obtain ⟨hlt, -⟩ := List.findIdx?_eq_some_iff_getElem.1 hindex
    have hat : s.awaited[index]? = some s.awaited[index] := List.getElem?_eq_getElem hlt
    have hperm := swapRemove_perm hat
    refine ⟨rfl, rfl, rfl, rfl, List.perm_iff_count.2 fun t => ?_, (List.append_nil _).symm,
      (fun _ h => by cases h), fun p hp => .inl ⟨p, hp, rfl⟩⟩
    have hcount := hperm.count_eq t
    dsimp only at hlt
    simp only [tasks, hat, Option.map_some, Option.toList_some, List.map_append, List.map_cons, List.map_nil,
      List.count_append, List.count_cons, List.count_nil, Option.toList_none] at hcount ⊢
    omega

/-- A verified file moves its play on, or ends it. -/
theorem verified_moved (env : PlayEnv H) {s : VoicePlayer H} {k : ℕ} {f : Fetched H}
    (h : s.verifying[k]? = some f) : ∃ settled, Moved s (s.verified env k f) settled := by
  obtain ⟨hlt, hget⟩ := List.getElem?_eq_some_iff.1 h
  have hperm := (List.getElem_cons_eraseIdx_perm hlt).symm.map Fetched.play
  rw [hget] at hperm
  rw [verified]
  split
  case isTrue =>
    refine ⟨none, rfl, rfl, rfl, rfl, List.perm_iff_count.2 fun t => ?_, (List.append_nil _).symm,
      (fun _ h => by cases h), fun p hp => .inl ⟨p, hp, rfl⟩⟩
    have hcount := hperm.count_eq t
    simp only [tasks, List.map_append, List.map_cons, List.map_nil, List.count_append, List.count_cons,
      List.count_nil, Option.toList_none] at hcount ⊢
    omega
  case isFalse =>
    refine ⟨some (f.play, .invalid), rfl, rfl, rfl, rfl, List.perm_iff_count.2 fun t => ?_, rfl,
      (fun _ h => by cases h), fun p hp => .inl ⟨p, hp, rfl⟩⟩
    have hcount := hperm.count_eq t
    simp only [tasks, List.map_cons, List.map_nil, List.count_append, List.count_cons, List.count_nil,
      Option.toList_some] at hcount ⊢
    omega

/-- A play that opened the output, or failed to, is over. -/
theorem perm_opening {s : VoicePlayer H} {k : ℕ} {f : Fetched H} (h : s.opening[k]? = some f) :
    s.tasks.Perm (f.play :: { s with opening := s.opening.eraseIdx k }.tasks) := by
  obtain ⟨hlt, hget⟩ := List.getElem?_eq_some_iff.1 h
  have hperm := (List.getElem_cons_eraseIdx_perm hlt).symm.map Fetched.play
  rw [hget] at hperm
  refine List.perm_iff_count.2 fun t => ?_
  have hcount := hperm.count_eq t
  simp only [tasks, List.map_cons, List.count_append, List.count_cons] at hcount ⊢
  omega

/-- A play without an output has failed. -/
theorem openFailed_moved {s : VoicePlayer H} {k : ℕ} {f : Fetched H} (h : s.opening[k]? = some f) :
    Moved s (s.openFailed k f) (some (f.play, .failed)) :=
  ⟨rfl, rfl, rfl, rfl, perm_opening h, rfl, (fun _ h => by cases h), fun p hp => .inl ⟨p, hp, rfl⟩⟩

/-- An output that opens moves its play on, or ends it. -/
theorem opened_moved (env : PlayEnv H) {s : VoicePlayer H} {k : ℕ} {f : Fetched H}
    (h : s.opening[k]? = some f) : ∃ settled, Moved s (s.opened env k f) settled := by
  have hmem : f.play ∈ s.tasks := (perm_opening h).mem_iff.2 List.mem_cons_self
  rw [opened]
  split
  case h_1 => exact ⟨_, openFailed_moved h⟩
  case h_2 clip hclip =>
    dsimp only
    split
    case isTrue hcurrent =>
      refine ⟨some (f.play, .started), rfl, rfl, rfl, rfl, perm_opening h, rfl, (fun _ h => by cases h), ?_⟩
      rintro p hp
      obtain rfl := Option.some.inj hp
      exact .inr ⟨hmem, hcurrent.symm⟩
    case isFalse hstale =>
      refine ⟨some (f.play, .stale), rfl, rfl, rfl, rfl, perm_opening h, rfl, ?_, fun p hp => .inl ⟨p, hp, rfl⟩⟩
      rintro t ht heq
      obtain rfl := congrArg Prod.fst (Option.some.inj ht)
      exact hstale heq.symm

/-- An event that is handled settles no play. -/
theorem handle_moved (s : VoicePlayer H) (events : List (PlayEvent H)) (event : PlayEvent H) :
    Moved s ({ s with events }.handle event) none := by
  cases event with
  | imageRequest hash => exact moved_screen s s.messages s.panes s.playing events _
  | voiceData hash valid =>
    cases valid with
    | true => exact moved_screen s s.messages s.panes s.playing events s.outstanding
    | false => exact moved_screen s _ _ s.playing events s.outstanding
  | voiceMessageFailed =>
    obtain ⟨messages, panes, h⟩ := stopLoading_screen { s with events }
    rw [handle, h]
    exact moved_screen s messages panes s.playing events s.outstanding

/-- A tick settles no play. -/
theorem tick_moved (s : VoicePlayer H) : Moved s s.tick none := by
  obtain ⟨messages, panes, h⟩ := syncPlaying_screen { s with player := s.player.filter (!·.done) }
    ((s.player.filter (!·.done)).map Player.shown)
  rw [tick, h]
  exact ⟨rfl, rfl, rfl, rfl, .refl _, (List.append_nil _).symm, (fun _ h => by cases h),
    fun p hp => .inl ⟨p, (Option.filter_eq_some_iff.1 hp).1, rfl⟩⟩

/-- A play asked for on the screen is a call. -/
theorem play_called {s : VoicePlayer H} (hcall : s.call = none) (hash : H) : Called s (s.play hash) (.play hash) := by
  obtain ⟨messages, panes, h⟩ := stopLoading_screen s
  rw [play, h]
  exact ⟨hcall, rfl, rfl, rfl, rfl, rfl, rfl⟩

/-- The second step of a call takes it. -/
theorem take_taken {s : VoicePlayer H} {call : Call H} (hcall : s.call = some call) : Taken s (s.take call) call := by
  cases call with
  | play hash =>
    refine ⟨hcall, rfl, rfl, rfl, rfl, ?_, rfl, rfl⟩
    show (s.loading ++ [_] ++ s.awaited ++ _ ++ _).Perm ([_] ++ (s.loading ++ s.awaited ++ _ ++ _))
    rw [List.append_assoc s.loading]
    simp only [List.append_assoc]
    exact List.perm_append_comm_assoc _ _ _
  | stop =>
    obtain ⟨messages, panes, h⟩ := stopLoading_screen { s with player := none, call := none }
    obtain ⟨messages', panes', h'⟩ := syncPlaying_screen { s with player := none, call := none, messages, panes } none
    rw [take, h, h']
    exact ⟨hcall, rfl, rfl, rfl, rfl, .refl _, rfl, rfl⟩
  | reset => exact ⟨hcall, rfl, rfl, rfl, rfl, .refl _, rfl, rfl⟩

/-- When an action is possible, and what it does. -/
inductive Steps (env : PlayEnv H) (s : VoicePlayer H) : PlayAction H → VoicePlayer H → Prop
  | play (hash : H) (h : s.call = none) : Steps env s (.play hash) (s.play hash)
  | stop (h : s.call = none) : Steps env s .stop (s.raise .stop)
  | disconnected (h : s.call = none) : Steps env s .disconnected s.disconnected
  | taken (c : Call H) (h : s.call = some c) : Steps env s .taken (s.take c)
  | loaded (k : ℕ) (data : Option (List U8)) (play : Play H) (h : s.loading[k]? = some play) :
      Steps env s (.loaded k data) (s.loaded k play data)
  | answer (k : ℕ) (data : List U8) (hash : H) (h : s.outstanding[k]? = some hash) :
      Steps env s (.answer k data) ({ s with outstanding := s.outstanding.eraseIdx k }.imageData hash data)
  | unasked (hash : H) (data : List U8) : Steps env s (.unasked hash data) (s.imageData hash data)
  | verified (k : ℕ) (f : Fetched H) (h : s.verifying[k]? = some f) : Steps env s (.verified k) (s.verified env k f)
  | opened (k : ℕ) (f : Fetched H) (h : s.opening[k]? = some f) : Steps env s (.opened k) (s.opened env k f)
  | openFailed (k : ℕ) (f : Fetched H) (h : s.opening[k]? = some f) : Steps env s (.openFailed k) (s.openFailed k f)
  | decoded : Steps env s .decoded { s with player := s.player.map Player.decoded }
  | request (hash : H) : Steps env s (.request hash) { s with outstanding := s.outstanding ++ [hash] }
  | handle (event : PlayEvent H) (events : List (PlayEvent H)) (h : s.events = event :: events) :
      Steps env s .handle ({ s with events }.handle event)
  | tick (h : s.call = none) : Steps env s .tick s.tick
  | arranged (messages panes : List (VoiceEntry H))
      (h : ∀ e ∈ messages ++ panes, e ∈ s.messages ++ s.panes ∨ e.playback = .idle) :
      Steps env s (.arranged messages panes) { s with messages, panes }

/-- The action is one of the cases, by the code. -/
theorem step_cases {env : PlayEnv H} {s s' : VoicePlayer H} {action : PlayAction H}
    (h : s.step env action = some s') : Steps env s action s' := by
  cases action with
  | play hash =>
    obtain ⟨hcall, h⟩ := Option.ite_none_right_eq_some.1 h
    obtain rfl := Option.some.inj h
    exact .play hash (Option.isNone_iff_eq_none.1 hcall)
  | stop =>
    obtain ⟨hcall, h⟩ := Option.ite_none_right_eq_some.1 h
    obtain rfl := Option.some.inj h
    exact .stop (Option.isNone_iff_eq_none.1 hcall)
  | disconnected =>
    obtain ⟨hcall, h⟩ := Option.ite_none_right_eq_some.1 h
    obtain rfl := Option.some.inj h
    exact .disconnected (Option.isNone_iff_eq_none.1 hcall)
  | taken =>
    obtain ⟨c, hcall, rfl⟩ := Option.map_eq_some_iff.1 h
    exact .taken c hcall
  | loaded k data =>
    obtain ⟨play, hplay, rfl⟩ := Option.map_eq_some_iff.1 h
    exact .loaded k data play hplay
  | answer k data =>
    obtain ⟨hash, hhash, rfl⟩ := Option.map_eq_some_iff.1 h
    exact .answer k data hash hhash
  | unasked hash data =>
    obtain rfl := Option.some.inj h
    exact .unasked hash data
  | verified k =>
    obtain ⟨f, hf, rfl⟩ := Option.map_eq_some_iff.1 h
    exact .verified k f hf
  | opened k =>
    obtain ⟨f, hf, rfl⟩ := Option.map_eq_some_iff.1 h
    exact .opened k f hf
  | openFailed k =>
    obtain ⟨f, hf, rfl⟩ := Option.map_eq_some_iff.1 h
    exact .openFailed k f hf
  | decoded =>
    obtain rfl := Option.some.inj h
    exact .decoded
  | request hash =>
    obtain rfl := Option.some.inj h
    exact .request hash
  | handle =>
    rw [step] at h
    split at h
    case h_1 event events _ hevents =>
      obtain rfl := Option.some.inj h
      exact .handle event events hevents
    case h_2 => cases h
  | tick =>
    obtain ⟨hcall, h⟩ := Option.ite_none_right_eq_some.1 h
    obtain rfl := Option.some.inj h
    exact .tick (Option.isNone_iff_eq_none.1 hcall)
  | arranged messages panes =>
    obtain ⟨hguard, h⟩ := Option.ite_none_right_eq_some.1 h
    obtain rfl := Option.some.inj h
    exact .arranged messages panes hguard.2

/-- **What one step does** to the player and to the plays. -/
theorem step_effect {env : PlayEnv H} {s s' : VoicePlayer H} {action : PlayAction H}
    (h : s.step env action = some s') : Effect s s' := by
  cases step_cases h with
  | play hash hcall => exact .called _ (play_called hcall hash)
  | stop hcall => exact .called .stop ⟨hcall, rfl, rfl, rfl, (List.append_nil _).symm, rfl, rfl⟩
  | disconnected hcall => exact .called .reset ⟨hcall, rfl, rfl, rfl, (List.append_nil _).symm, rfl, rfl⟩
  | taken c hcall => exact .taken c (take_taken hcall)
  | loaded k data play hplay => exact .moved _ (loaded_moved hplay data)
  | answer k data hash _ => exact .moved _ (imageData_moved s _ hash data)
  | unasked hash data => exact .moved _ (imageData_moved s s.outstanding hash data)
  | verified k f hf => exact (verified_moved env hf).elim .moved
  | opened k f hf => exact (opened_moved env hf).elim .moved
  | openFailed k f hf => exact .moved _ (openFailed_moved hf)
  | decoded =>
    refine .moved none ⟨rfl, rfl, rfl, rfl, .refl _, (List.append_nil _).symm, (fun _ h => by cases h), ?_⟩
    rintro p hp
    obtain ⟨p₀, hp₀, rfl⟩ := Option.map_eq_some_iff.1 hp
    refine .inl ⟨p₀, hp₀, ?_⟩
    rw [Player.decoded]
    split <;> rfl
  | request hash => exact .moved none (moved_screen s s.messages s.panes s.playing s.events _)
  | handle event events _ => exact .moved none (handle_moved s events event)
  | tick _ => exact .moved none (tick_moved s)
  | arranged messages panes _ =>
    exact .moved none (moved_screen s messages panes s.playing s.events s.outstanding)

/-! ### What plays -/

/-- The play of a call that has not been started yet. -/
def pending (s : VoicePlayer H) : List (Play H) := (s.call.bind (Call.toPlay? s.generation)).toList

/-- What holds after every action. -/
structure Inv (s : VoicePlayer H) : Prop where
  tasks : ∀ t ∈ s.tasks, t.generation ≤ s.generation ∧
    (t.generation = s.generation → s.call = none ∧ s.last = some (.play t.hash))
  player : ∀ p, s.player = some p → s.call = none →
    p.play.generation = s.generation ∧ s.last = some (.play p.play.hash)
  call : ∀ c, s.call = some c → s.last = some c
  stale : ∀ g, (g, .stale) ∈ s.ended → g < s.generation
  current : ∀ hash, s.last = some (.play hash) → s.generation ∈ s.plays
  once : s.plays.Nodup ∧ ∀ g ∈ s.plays, g ≤ s.generation
  plays : s.plays.Perm ((s.pending ++ s.tasks).map Play.generation ++ s.ended.map Prod.fst)

omit [DecidableEq H] in
/-- A play that moves on, or ends, keeps the invariant. -/
theorem Inv.moved {s s' : VoicePlayer H} {settled : Option (Play H × Outcome)} (h : Inv s)
    (hmoved : Moved s s' settled) : Inv s' := by
  have hsub : ∀ t ∈ s'.tasks, t ∈ s.tasks := fun t ht =>
    hmoved.tasks.mem_iff.2 (List.mem_append_right _ ht)
  have hsettled : ∀ p, settled = some p → p.1 ∈ s.tasks := by
    rintro p rfl
    exact hmoved.tasks.mem_iff.2 List.mem_cons_self
  refine ⟨fun t ht => ?_, fun p hp hcall => ?_, fun c hc => ?_, fun g hg => ?_, fun hash hlast => ?_, ?_, ?_⟩
  · rw [hmoved.generation, hmoved.call, hmoved.last]
    exact h.tasks t (hsub t ht)
  · rw [hmoved.call] at hcall
    rw [hmoved.generation, hmoved.last]
    rcases hmoved.player p hp with ⟨p₀, hp₀, hplay⟩ | ⟨hmem, hcurrent⟩
    · rw [hplay]
      exact h.player p₀ hp₀ hcall
    · exact ⟨hcurrent, ((h.tasks _ hmem).2 hcurrent).2⟩
  · rw [hmoved.last]
    exact h.call c (hmoved.call ▸ hc)
  · rw [hmoved.generation]
    rw [hmoved.ended, List.mem_append] at hg
    rcases hg with hg | hg
    · exact h.stale g hg
    · obtain ⟨⟨t, o⟩, ht, heq⟩ := List.mem_map.1 hg
      have hgeneration : t.generation = g := (Prod.ext_iff.1 heq).1
      have hstale : o = .stale := (Prod.ext_iff.1 heq).2
      subst hgeneration hstale
      have hsome := Option.mem_toList.1 ht
      exact lt_of_le_of_ne (h.tasks t (hsettled _ hsome)).1 (hmoved.stale t hsome)
  · rw [hmoved.generation, hmoved.plays]
    exact h.current hash (hmoved.last ▸ hlast)
  · rw [hmoved.plays, hmoved.generation]
    exact h.once
  · refine List.perm_iff_count.2 fun g => ?_
    have hcount := h.plays.count_eq g
    have htasks := (hmoved.tasks.map Play.generation).count_eq g
    have hpending : s'.pending = s.pending := by rw [pending, pending, hmoved.call, hmoved.generation]
    have hmap : (settled.toList.map fun p => (p.1.generation, p.2)).map Prod.fst =
        (settled.toList.map Prod.fst).map Play.generation := by
      rw [List.map_map, List.map_map]
      rfl
    rw [hmoved.plays, hmoved.ended, hpending]
    simp only [List.map_append, List.count_append, hmap] at hcount htasks ⊢
    omega

omit [DecidableEq H] in
/-- A call makes every earlier play stale, and is the newest. -/
theorem Inv.called {s s' : VoicePlayer H} {c : Call H} (h : Inv s) (hcalled : Called s s' c) : Inv s' := by
  refine ⟨fun t ht => ?_, fun p _ hcall => ?_, fun c' hc => ?_, fun g hg => ?_, fun hash hlast => ?_, ?_, ?_⟩
  · -- Every play that is under way is of an earlier generation.
    rw [hcalled.tasks] at ht
    rw [hcalled.generation]
    have hle := (h.tasks t ht).1
    exact ⟨by omega, fun heq => by omega⟩
  · rw [hcalled.call] at hcall
    cases hcall
  · rw [hcalled.last, ← hc, hcalled.call]
  · rw [hcalled.ended] at hg
    rw [hcalled.generation]
    exact (h.stale g hg).trans (Nat.lt_succ_self _)
  · rw [hcalled.last] at hlast
    obtain rfl := Option.some.inj hlast
    rw [hcalled.plays, hcalled.generation]
    exact List.mem_append_right _ (List.mem_singleton_self _)
  · have hnew : ∀ g ∈ (c.toPlay? (s.generation + 1)).toList.map Play.generation, g = s.generation + 1 := by
      cases c <;> simp [Call.toPlay?]
    have hnodup : ((c.toPlay? (s.generation + 1)).toList.map Play.generation).Nodup := by
      cases c <;> simp [Call.toPlay?]
    rw [hcalled.plays, hcalled.generation]
    refine ⟨List.nodup_append.2 ⟨h.once.1, hnodup, fun g hg g' hg' heq => ?_⟩, fun g hg => ?_⟩
    · have hle := h.once.2 g hg
      have hlast := hnew g' hg'
      omega
    · rcases List.mem_append.1 hg with hg | hg
      · exact (h.once.2 g hg).trans (Nat.le_succ _)
      · exact (hnew g hg).le
  · refine List.perm_iff_count.2 fun g => ?_
    have hcount := h.plays.count_eq g
    have hbefore : s.pending = [] := by rw [pending, hcalled.idle]; rfl
    have hafter : s'.pending = (c.toPlay? (s.generation + 1)).toList := by
      rw [pending, hcalled.call, hcalled.generation]
      rfl
    rw [hcalled.plays, hcalled.ended, hcalled.tasks, hafter]
    rw [hbefore] at hcount
    simp only [List.map_append, List.count_append, List.map_nil, List.count_nil] at hcount ⊢
    omega

omit [DecidableEq H] in
/-- A call that is taken becomes the task of its play. -/
theorem Inv.taken {s s' : VoicePlayer H} {c : Call H} (h : Inv s) (htaken : Taken s s' c) : Inv s' := by
  have hlast := h.call c htaken.busy
  refine ⟨fun t ht => ?_, fun p hp => ?_, fun c' hc => ?_, fun g hg => ?_, fun hash hplay => ?_, ?_, ?_⟩
  · rw [htaken.generation, htaken.call, htaken.last]
    rcases List.mem_append.1 (htaken.tasks.mem_iff.1 ht) with ht | ht
    · cases c with
      | play hash =>
        obtain rfl := List.mem_singleton.1 ht
        exact ⟨le_rfl, fun _ => ⟨rfl, hlast⟩⟩
      | stop => cases ht
      | reset => cases ht
    · refine ⟨(h.tasks t ht).1, fun heq => ?_⟩
      have hcall := ((h.tasks t ht).2 heq).1
      rw [htaken.busy] at hcall
      cases hcall
  · rw [htaken.player] at hp
    cases hp
  · rw [htaken.call] at hc
    cases hc
  · rw [htaken.ended] at hg
    rw [htaken.generation]
    exact h.stale g hg
  · rw [htaken.last] at hplay
    rw [htaken.generation, htaken.plays]
    exact h.current hash hplay
  · rw [htaken.plays, htaken.generation]
    exact h.once
  · refine List.perm_iff_count.2 fun g => ?_
    have hcount := h.plays.count_eq g
    have htasks := (htaken.tasks.map Play.generation).count_eq g
    have hbefore : s.pending = (c.toPlay? s.generation).toList := by
      rw [pending, htaken.busy]
      rfl
    have hafter : s'.pending = [] := by rw [pending, htaken.call]; rfl
    rw [hbefore] at hcount
    rw [htaken.plays, htaken.ended, hafter]
    simp only [List.map_append, List.count_append, List.map_nil, List.count_nil] at hcount htasks ⊢
    omega

/-- Every action keeps the invariant. -/
theorem Inv.step {env : PlayEnv H} {s s' : VoicePlayer H} {action : PlayAction H} (h : Inv s)
    (hstep : s.step env action = some s') : Inv s' := by
  cases step_effect hstep with
  | moved settled hmoved => exact h.moved hmoved
  | called c hcalled => exact h.called hcalled
  | taken c htaken => exact h.taken htaken

omit [DecidableEq H] in
/-- A player that was not asked for anything has the invariant. -/
theorem inv_start : Inv (start : VoicePlayer H) :=
  ⟨(fun _ ht => by cases ht), (fun _ hp => by cases hp), (fun _ hc => by cases hc), (fun _ hg => by cases hg),
    (fun _ hlast => by cases hlast), ⟨List.nodup_nil, (fun _ hg => by cases hg)⟩, .refl _⟩

/-- Every run keeps the invariant. -/
theorem inv_of_exec {env : PlayEnv H} {actions : List (PlayAction H)} {s : VoicePlayer H}
    (hexec : exec (step env) start actions = some s) : Inv s :=
  exec_induct (fun _ _ _ hinv _ hstep => hinv.step hstep) inv_start (meets_true ..) hexec

/-- What the cache has under a hash is a file of that hash. -/
def CacheHonest (env : PlayEnv H) (s : VoicePlayer H) : PlayAction H → Prop
  | .loaded k (some data) => ∀ play, s.loading[k]? = some play → env.sha256 data = play.hash
  | _ => True

instance (env : PlayEnv H) (s : VoicePlayer H) (action : PlayAction H) : Decidable (CacheHonest env s action) :=
  match action with
  | .loaded k (some data) => inferInstanceAs (Decidable (∀ play ∈ s.loading[k]?, env.sha256 data = play.hash))
  | .loaded _ none | .play _ | .stop | .disconnected | .taken | .answer _ _ | .unasked _ _ | .verified _ | .opened _
  | .openFailed _ | .decoded | .request _ | .handle | .tick | .arranged _ _ => .isTrue trivial

/-- The files of the plays, and what plays of them. -/
structure Genuine (env : PlayEnv H) (s : VoicePlayer H) : Prop where
  opening : ∀ f ∈ s.opening, env.sha256 f.data = f.play.hash
  player : ∀ p, s.player = some p → p.frames ≤ p.clip.frames.length ∧
    ∃ data, env.sha256 data = p.play.hash ∧ Clip.decode env.deserialize data = some p.clip

omit [DecidableEq H] in
/-- The screen is nothing to the files. -/
theorem Genuine.screen {env : PlayEnv H} {s : VoicePlayer H} (h : Genuine env s)
    (messages panes : List (VoiceEntry H)) (playing : Option (H × ℕ)) :
    Genuine env { s with messages, panes, playing } := ⟨h.opening, h.player⟩

/-- `stop_loading` is nothing to the files. -/
theorem Genuine.stopLoading {env : PlayEnv H} {s : VoicePlayer H} (h : Genuine env s) :
    Genuine env s.stopLoading := by
  obtain ⟨messages, panes, heq⟩ := stopLoading_screen s
  rw [heq]
  exact h.screen messages panes s.playing

/-- `sync_playing` is nothing to the files. -/
theorem Genuine.syncPlaying {env : PlayEnv H} {s : VoicePlayer H} (h : Genuine env s) (now : Option (H × ℕ)) :
    Genuine env (s.syncPlaying now) := by
  obtain ⟨messages, panes, heq⟩ := syncPlaying_screen s now
  rw [heq]
  exact h.screen messages panes now

/-- A call has no file yet. -/
theorem Genuine.take {env : PlayEnv H} {s : VoicePlayer H} (h : Genuine env s) (c : Call H) :
    Genuine env (s.take c) := by
  have hnone : Genuine env { s with player := none, call := none } := ⟨h.opening, (fun _ hp => by cases hp)⟩
  cases c with
  | play hash => exact ⟨hnone.opening, hnone.player⟩
  | stop => exact hnone.stopLoading.syncPlaying none
  | reset => exact hnone

omit [DecidableEq H] in
/-- What begins to play is the clip of the file. -/
theorem Genuine.opened {env : PlayEnv H} {s : VoicePlayer H} (h : Genuine env s) {k : ℕ} {f : Fetched H}
    (hf : s.opening[k]? = some f) : Genuine env (s.opened env k f) := by
  have hrest : ∀ f' ∈ s.opening.eraseIdx k, env.sha256 f'.data = f'.play.hash := fun f' hf' =>
    h.opening f' (List.mem_of_mem_eraseIdx hf')
  rw [VoicePlayer.opened]
  split
  case h_1 => exact ⟨hrest, h.player⟩
  case h_2 clip hclip =>
    dsimp only
    split
    case isTrue =>
      refine ⟨hrest, fun p hp => ?_⟩
      obtain rfl := Option.some.inj hp
      exact ⟨Nat.zero_le _, f.data, h.opening f (List.mem_of_getElem? hf), hclip⟩
    case isFalse => exact ⟨hrest, h.player⟩

/-- If the cache is honest, every action leaves plays with files of their hashes. -/
theorem Genuine.step {env : PlayEnv H} {s s' : VoicePlayer H} {action : PlayAction H} (h : Genuine env s)
    (hcond : CacheHonest env s action) (hstep : s.step env action = some s') : Genuine env s' := by
  cases step_cases hstep with
  | play hash _ =>
    have hscreen := h.stopLoading
    exact ⟨hscreen.opening, hscreen.player⟩
  | stop _ =>
    exact ⟨h.opening, h.player⟩
  | disconnected _ =>
    exact ⟨h.opening, h.player⟩
  | taken c _ =>
    exact h.take c
  | loaded k data play hplay =>
    cases data with
    | none => exact ⟨h.opening, h.player⟩
    | some data =>
      refine ⟨fun f hf => ?_, h.player⟩
      rcases List.mem_append.1 hf with hf | hf
      · exact h.opening f hf
      · obtain rfl := List.mem_singleton.1 hf
        exact hcond play hplay
  | answer k data hash _ =>
    rw [imageData]
    split <;> exact ⟨h.opening, h.player⟩
  | unasked hash data =>
    rw [imageData]
    split <;> exact ⟨h.opening, h.player⟩
  | verified k f _ =>
    rw [VoicePlayer.verified]
    split
    case isTrue hvalid =>
      refine ⟨fun f' hf => ?_, h.player⟩
      rcases List.mem_append.1 hf with hf | hf
      · exact h.opening f' hf
      · obtain rfl := List.mem_singleton.1 hf
        exact (of_decide_eq_true hvalid).1
    case isFalse => exact ⟨h.opening, h.player⟩
  | opened k f hf =>
    exact h.opened hf
  | openFailed k f _ =>
    exact ⟨fun f' hf' => h.opening f' (List.mem_of_mem_eraseIdx hf'), h.player⟩
  | decoded =>
    refine ⟨h.opening, fun p hp => ?_⟩
    obtain ⟨p₀, hp₀, rfl⟩ := Option.map_eq_some_iff.1 hp
    have hold := h.player p₀ hp₀
    rw [Player.decoded]
    split
    case isTrue hlt => exact ⟨hlt, hold.2⟩
    case isFalse => exact hold
  | request hash =>
    exact ⟨h.opening, h.player⟩
  | handle event events _ =>
    have hsame : Genuine env { s with events } := ⟨h.opening, h.player⟩
    cases event with
    | imageRequest hash => exact ⟨h.opening, h.player⟩
    | voiceData hash valid => cases valid <;> exact ⟨h.opening, h.player⟩
    | voiceMessageFailed => exact hsame.stopLoading
  | tick _ =>
    have hkept : Genuine env { s with player := s.player.filter (!·.done) } :=
      ⟨h.opening, fun p hp => h.player p (Option.filter_eq_some_iff.1 hp).1⟩
    exact hkept.syncPlaying _
  | arranged messages panes _ =>
    exact ⟨h.opening, h.player⟩

/-- **What plays is what was last asked for.**  In every run in which the cache is honest,
whenever no call is under way, what plays was started by the last call, which is a play of
its hash, and it is decoded from a file of that hash.  So nothing plays once a stop is
over, whatever plays were under way. -/
theorem plays_last_asked {env : PlayEnv H} {actions : List (PlayAction H)} {s : VoicePlayer H}
    (hexec : exec (step env) start actions = some s) (hmeets : Meets (step env) (CacheHonest env) start actions) :
    ∀ p, s.player = some p → s.call = none →
      p.play.generation = s.generation ∧ s.last = some (.play p.play.hash) ∧ p.frames ≤ p.clip.frames.length ∧
      ∃ data, env.sha256 data = p.play.hash ∧ Clip.decode env.deserialize data = some p.clip := by
  intro p hp hcall
  have hgenuine : Genuine env s := exec_induct (fun _ _ _ h hcond hstep => h.step hcond hstep)
    ⟨(fun _ hf => by cases hf), (fun _ hp => by cases hp)⟩ hmeets hexec
  obtain ⟨hgeneration, hlast⟩ := (inv_of_exec hexec).player p hp hcall
  exact ⟨hgeneration, hlast, hgenuine.player p hp⟩

/-- A clip of one silent packet, and the files that are known by their content. -/
def silent : Clip := ⟨messageChannels, [[0xFC, 0xFF, 0xFE]]⟩

/-- The clip as a file. -/
def file : List U8 := silent.encode Recorder.fixedWidth

/-- Files are known by their content. -/
def byContent : PlayEnv (List U8) := ⟨id, Recorder.fixedWidth.deserialize⟩

/-- The clip is not in the cache, and the server has it. -/
def asked : List (PlayAction (List U8)) :=
  [.play file, .taken, .loaded 0 none, .handle, .answer 0 file, .verified 0, .handle, .opened 0]

/-- The clip is played again, and now it is in the cache. -/
def playedAgain : List (PlayAction (List U8)) := asked ++ [.play file, .taken, .loaded 0 (some file), .opened 0]

/-- At the end of the second play the clip plays, out of the cache. -/
theorem plays_last_asked_silent : ∃ s : VoicePlayer (List U8), s.player.map Player.clip = some silent ∧
    ∀ p, s.player = some p → s.call = none →
      p.play.generation = s.generation ∧ s.last = some (.play p.play.hash) ∧ p.frames ≤ p.clip.frames.length ∧
      ∃ data, byContent.sha256 data = p.play.hash ∧ Clip.decode byContent.deserialize data = some p.clip := by
  have hrun : (exec (step byContent) start playedAgain).map (·.player.map Player.clip) = some (some silent) := by
    decide +kernel
  obtain ⟨s, hs, hv⟩ := Option.map_eq_some_iff.1 hrun
  have hmeets : Meets (step byContent) (CacheHonest byContent) start playedAgain := by
    decide +kernel
  exact ⟨s, hv, plays_last_asked hs hmeets⟩

/-! ### How a play ends -/

/-- No clip is awaited when a session ends. -/
def Heard (s : VoicePlayer H) (action : PlayAction H) : Prop := action = .disconnected → s.awaited = []

/-- For every awaited play of a clip, the clip is asked for. -/
def Owed (s : VoicePlayer H) : Prop :=
  ∀ hash, (s.awaited.map Play.hash).count hash ≤ s.events.count (.imageRequest hash) + s.outstanding.count hash

/-- An answer is one request less, of the clips that were awaited with it. -/
theorem Owed.imageData {s : VoicePlayer H} {hash : H} {data : List U8}
    (h : ∀ hash', (s.awaited.map Play.hash).count hash' ≤
      s.events.count (.imageRequest hash') + s.outstanding.count hash' + if hash' = hash then 1 else 0) :
    Owed (s.imageData hash data) := by
  intro hash'
  have hold := h hash'
  rw [VoicePlayer.imageData]
  split
  case h_1 hnone =>
    -- Nothing of this hash is awaited.
    by_cases heq : hash' = hash
    · have hzero : (s.awaited.map Play.hash).count hash' = 0 := by
        refine List.count_eq_zero.2 fun hmem => ?_
        obtain ⟨t, ht, hhash⟩ := List.mem_map.1 hmem
        have hne := List.findIdx?_eq_none_iff.1 hnone t ht
        exact of_decide_eq_false hne (hhash.trans heq)
      rw [hzero]
      exact Nat.zero_le _
    · rwa [if_neg heq] at hold
  case h_2 index hindex =>
    obtain ⟨hlt, hhash, -⟩ := List.findIdx?_eq_some_iff_getElem.1 hindex
    have hperm := (swapRemove_perm (List.getElem?_eq_getElem hlt)).map Play.hash
    have hcount := hperm.count_eq hash'
    rw [List.map_cons, of_decide_eq_true hhash, List.count_cons] at hcount
    show ((swapRemove s.awaited index).map Play.hash).count hash' ≤ _
    by_cases heq : hash' = hash
    · subst heq
      rw [if_pos rfl] at hold
      rw [if_pos (beq_self_eq_true _)] at hcount
      dsimp only
      omega
    · rw [if_neg heq] at hold
      exact (Nat.le_of_add_right_le hcount.ge).trans hold

/-- Every action but the end of a session leaves the awaited clips asked for. -/
theorem Owed.step {env : PlayEnv H} {s s' : VoicePlayer H} {action : PlayAction H} (h : Owed s)
    (hcond : Heard s action) (hstep : s.step env action = some s') : Owed s' := by
  cases step_cases hstep with
  | play hash _ =>
    obtain ⟨messages, panes, hscreen⟩ := stopLoading_screen s
    rw [VoicePlayer.play, hscreen]
    exact h
  | stop _ =>
    exact h
  | disconnected _ =>
    intro hash
    show (s.awaited.map Play.hash).count hash ≤ _
    rw [hcond rfl]
    exact Nat.zero_le _
  | taken c _ =>
    cases c with
    | play hash => exact h
    | stop =>
      obtain ⟨messages, panes, hloading⟩ := stopLoading_screen { s with player := none, call := none }
      obtain ⟨messages', panes', hsync⟩ := syncPlaying_screen
        { s with player := none, call := none, messages, panes } none
      rw [VoicePlayer.take, hloading, hsync]
      exact h
    | reset => exact h
  | loaded k data play _ =>
    cases data with
    | some data => exact h
    | none =>
      intro hash
      have hold := h hash
      have hsame : (PlayEvent.imageRequest play.hash == .imageRequest hash) = (play.hash == hash) := by
        rw [Bool.eq_iff_iff]
        simp
      simp only [VoicePlayer.loaded, List.map_append, List.map_cons, List.map_nil, List.count_append,
        List.count_cons, List.count_nil, hsame]
      omega
  | answer k data hash hhash =>
    refine Owed.imageData fun hash' => ?_
    have hold := h hash'
    obtain ⟨hlt, hget⟩ := List.getElem?_eq_some_iff.1 hhash
    have hcount := (List.getElem_cons_eraseIdx_perm hlt).symm.count_eq hash'
    rw [hget, List.count_cons] at hcount
    simp only [beq_iff_eq, eq_comm (a := hash) (b := hash')] at hcount
    dsimp only
    omega
  | unasked hash data =>
    exact Owed.imageData fun hash' => (h hash').trans (Nat.le_add_right _ _)
  | verified k f _ =>
    intro hash
    rw [VoicePlayer.verified]
    split <;> simpa [List.count_append] using h hash
  | opened k f _ =>
    intro hash
    rw [VoicePlayer.opened]
    split
    · simpa [VoicePlayer.openFailed, List.count_append] using h hash
    · dsimp only
      split <;> exact h hash
  | openFailed k f _ =>
    intro hash
    simpa [VoicePlayer.openFailed, List.count_append] using h hash
  | decoded =>
    exact h
  | request hash =>
    intro hash'
    have hold := h hash'
    simp only [List.count_append]
    omega
  | handle event events hevents =>
    intro hash'
    have hold := h hash'
    rw [hevents, List.count_cons] at hold
    cases event with
    | imageRequest hash =>
      have hsame : (PlayEvent.imageRequest hash == .imageRequest hash') = (hash == hash') := by
        rw [Bool.eq_iff_iff]
        simp
      rw [hsame] at hold
      simp only [VoicePlayer.handle, List.count_append, List.count_cons, List.count_nil]
      omega
    | voiceData hash valid =>
      have hother : (PlayEvent.voiceData hash valid == .imageRequest hash') = false := by simp
      rw [hother] at hold
      cases valid <;> exact hold
    | voiceMessageFailed =>
      obtain ⟨messages, panes, hscreen⟩ := stopLoading_screen { s with events }
      rw [VoicePlayer.handle, hscreen]
      have hother : (PlayEvent.voiceMessageFailed == .imageRequest hash') = false := by simp
      rw [hother] at hold
      exact hold
  | tick _ =>
    obtain ⟨messages, panes, hscreen⟩ := syncPlaying_screen { s with player := s.player.filter (!·.done) }
      ((s.player.filter (!·.done)).map Player.shown)
    rw [VoicePlayer.tick, hscreen]
    exact h
  | arranged messages panes _ =>
    exact h

/-- Nothing is under way: no call, no task, no request and no event. -/
structure Quiet (s : VoicePlayer H) : Prop where
  call : s.call = none
  loading : s.loading = []
  outstanding : s.outstanding = []
  verifying : s.verifying = []
  opening : s.opening = []
  events : s.events = []

instance (s : VoicePlayer H) : Decidable s.Quiet :=
  decidable_of_iff (s.call = none ∧ s.loading = [] ∧ s.outstanding = [] ∧ s.verifying = [] ∧ s.opening = [] ∧
      s.events = [])
    ⟨fun ⟨hcall, hloading, houtstanding, hverifying, hopening, hevents⟩ =>
      ⟨hcall, hloading, houtstanding, hverifying, hopening, hevents⟩,
      fun h => ⟨h.call, h.loading, h.outstanding, h.verifying, h.opening, h.events⟩⟩

/-- **Every play comes to its end.**  In every run in which no clip is awaited at the end of
a session, when nothing is under way any more, no clip is awaited, every play has ended,
and has ended once.  The last call, if it is a play, was not dropped as a stale one: it
started, or it failed. -/
theorem plays_settled {env : PlayEnv H} {actions : List (PlayAction H)} {s : VoicePlayer H}
    (hexec : exec (step env) start actions = some s) (hmeets : Meets (step env) Heard start actions)
    (hquiet : s.Quiet) :
    s.awaited = [] ∧ s.plays.Perm (s.ended.map Prod.fst) ∧ (s.ended.map Prod.fst).Nodup ∧
      ∀ hash, s.last = some (.play hash) → ∃ o, (s.generation, o) ∈ s.ended ∧ o ≠ .stale := by
  have hinv := inv_of_exec hexec
  have howed : Owed s := exec_induct (fun _ _ _ h hcond hstep => h.step hcond hstep)
    (fun _ => Nat.zero_le _) hmeets hexec
  have hawaited : s.awaited = [] := by
    refine List.eq_nil_iff_forall_not_mem.2 fun t ht => ?_
    have hle := howed t.hash
    rw [hquiet.events, hquiet.outstanding] at hle
    exact List.count_eq_zero.1 (Nat.le_zero.1 hle) (List.mem_map_of_mem ht)
  have hended : s.plays.Perm (s.ended.map Prod.fst) := by
    have hplays := hinv.plays
    rwa [pending, hquiet.call, tasks, hquiet.loading, hawaited, hquiet.verifying, hquiet.opening] at hplays
  refine ⟨hawaited, hended, hended.nodup_iff.1 hinv.once.1, fun hash hlast => ?_⟩
  obtain ⟨⟨g, o⟩, ho, hg⟩ := List.mem_map.1 (hended.mem_iff.1 (hinv.current hash hlast))
  obtain rfl : g = s.generation := hg
  refine ⟨o, ho, ?_⟩
  rintro rfl
  exact lt_irrefl _ (hinv.stale _ ho)

/-- A play of a clip that is not in the cache has started. -/
theorem plays_settled_silent : ∃ s : VoicePlayer (List U8), (s.plays, s.ended) = ([1], [(1, .started)]) ∧
    s.awaited = [] ∧ s.plays.Perm (s.ended.map Prod.fst) ∧ (s.ended.map Prod.fst).Nodup ∧
      ∀ hash, s.last = some (.play hash) → ∃ o, (s.generation, o) ∈ s.ended ∧ o ≠ .stale := by
  have hrun : (exec (step byContent) start asked).map (fun s => ((s.plays, s.ended), decide s.Quiet)) =
      some (([1], [(1, .started)]), true) := by
    decide +kernel
  obtain ⟨s, hs, hv⟩ := Option.map_eq_some_iff.1 hrun
  obtain ⟨hview, hquiet⟩ := Prod.mk.inj hv
  have hmeets : Meets (step byContent) Heard start asked := by
    simp [asked, Meets, Heard]
  exact ⟨s, hview, plays_settled hs hmeets (of_decide_eq_true hquiet)⟩

/-- **The condition is needed**: a play that waits when the session ends takes the answer of
the next session's play of the clip, which is never started, and whose entry stays as it is. -/
theorem play_lost :
    (exec (step byContent) start [.play file, .taken, .loaded 0 none, .handle, .disconnected, .taken,
      .arranged [⟨file, .idle⟩] [], .play file, .taken, .loaded 0 none, .handle, .answer 0 file, .verified 0, .handle,
      .opened 0, .tick]).map (fun s =>
        ((decide s.Quiet, s.ended), s.awaited.map Play.generation, s.messages.map VoiceEntry.playback)) =
    some ((true, [(1, .stale)]), [3], [.loading]) := by
  decide +kernel

/-! ### What the screen shows -/

/-- The voice messages of all panes. -/
def entries (s : VoicePlayer H) : List (VoiceEntry H) := s.messages ++ s.panes

/-- What the entries of a clip show is set in all panes. -/
@[simp] theorem entries_setPlayback (s : VoicePlayer H) (hash : H) (playback : Playback) :
    (s.setPlayback hash playback).entries = s.entries.map (setEntry hash playback) := by
  rw [entries, entries, List.map_append]
  rfl

/-- The hash of an entry stays, and so does what the others show. -/
theorem setEntry_eq (hash : H) (playback : Playback) (e : VoiceEntry H) :
    (setEntry hash playback e).hash = e.hash ∧
      (setEntry hash playback e).playback = if e.hash = hash then playback else e.playback := by
  rw [setEntry]
  split <;> exact ⟨rfl, rfl⟩

/-- An entry that shows that it is playing is of the clip that the screen takes to play. -/
def Shows (s : VoicePlayer H) : Prop :=
  ∀ e ∈ s.entries, ∀ seconds, e.playback = .playing seconds → s.playing = some (e.hash, seconds)

/-- No entry begins to show a clip as playing. -/
theorem Shows.setPlayback {s : VoicePlayer H} (h : Shows s) (hash : H) {playback : Playback}
    (hother : ∀ seconds, playback ≠ .playing seconds) : Shows (s.setPlayback hash playback) := by
  intro e he seconds hplaying
  rw [entries_setPlayback] at he
  obtain ⟨e₀, he₀, rfl⟩ := List.mem_map.1 he
  obtain ⟨hhash, hshown⟩ := setEntry_eq hash playback e₀
  rw [hshown] at hplaying
  split at hplaying
  · exact absurd hplaying (hother seconds)
  · rw [hhash]
    exact h e₀ he₀ seconds hplaying

/-- No entry shows a clip as loading after `stop_loading`, and none begins to show one as playing. -/
theorem Shows.stopLoading {s : VoicePlayer H} (h : Shows s) : Shows s.stopLoading := by
  rw [VoicePlayer.stopLoading]
  generalize (s.messages.filter (·.playback = .loading)).map (·.hash) = hashes
  induction hashes generalizing s with
  | nil => exact h
  | cons hash hashes ih => exact ih (h.setPlayback hash (by simp))

/-- The entry of the clip that plays no longer is reset. -/
theorem Shows.resetStopped {s : VoicePlayer H} (h : Shows s) (now : Option (H × ℕ)) :
    ∀ e ∈ (s.resetStopped now).entries, ∀ seconds, e.playback = .playing seconds →
      ∃ seconds', now = some (e.hash, seconds') := by
  intro e he seconds hplaying
  rw [VoicePlayer.resetStopped] at he
  split at he
  case h_1 hash _ hreset =>
    -- What played is reset, so nothing is left that shows it.
    rw [entries_setPlayback] at he
    obtain ⟨e₀, he₀, rfl⟩ := List.mem_map.1 he
    rw [(setEntry_eq hash .idle e₀).2] at hplaying
    split at hplaying
    case isTrue => cases hplaying
    case isFalse hne =>
      have hbefore := h e₀ he₀ seconds hplaying
      rw [(Option.filter_eq_some_iff.1 hreset).1] at hbefore
      exact absurd (congrArg Prod.fst (Option.some.inj hbefore)).symm hne
  case h_2 hkept =>
    have hbefore := h e he seconds hplaying
    rw [hbefore] at hkept
    have hsame : ¬(now.all fun q => decide (q.1 ≠ e.hash)) = true := by
      intro hall
      rw [Option.filter_some, if_pos hall] at hkept
      cases hkept
    cases now with
    | none => exact absurd rfl hsame
    | some p =>
      have hhash : p.1 = e.hash := by
        by_contra hne
        exact hsame (decide_eq_true hne)
      exact ⟨p.2, by rw [← hhash]⟩

/-- What is shown as playing is what is playing. -/
theorem Shows.syncPlaying {s : VoicePlayer H} (h : Shows s) (now : Option (H × ℕ)) : Shows (s.syncPlaying now) := by
  have hreset := h.resetStopped now
  rw [VoicePlayer.syncPlaying]
  split
  case isTrue => exact h
  case isFalse =>
    intro e he seconds hplaying
    dsimp only at he ⊢
    generalize s.resetStopped now = s₁ at hreset he
    cases now with
    | none =>
      obtain ⟨_, hnow⟩ := hreset e he seconds hplaying
      cases hnow
    | some p =>
      have hmem : e ∈ (s₁.setPlayback p.1 (.playing p.2)).entries := he
      rw [entries_setPlayback] at hmem
      obtain ⟨e₀, he₀, rfl⟩ := List.mem_map.1 hmem
      obtain ⟨hhash, hshown⟩ := setEntry_eq p.1 (.playing p.2) e₀
      rw [hshown] at hplaying
      rw [hhash]
      split at hplaying
      case isTrue heq =>
        obtain rfl := Playback.playing.inj hplaying
        rw [heq]
      case isFalse hne =>
        obtain ⟨_, hnow⟩ := hreset e₀ he₀ seconds hplaying
        exact absurd (congrArg Prod.fst (Option.some.inj hnow)).symm hne

/-- Every action leaves what is shown as playing right. -/
theorem Shows.step {env : PlayEnv H} {s s' : VoicePlayer H} {action : PlayAction H} (h : Shows s)
    (hstep : s.step env action = some s') : Shows s' := by
  cases step_cases hstep with
  | play hash _ =>
    exact h.stopLoading.setPlayback hash (by simp)
  | stop _ =>
    exact h
  | disconnected _ =>
    rintro e ⟨⟩
  | taken c _ =>
    have hnone : Shows { s with player := none, call := none } := h
    cases c with
    | play hash => exact h
    | stop => exact hnone.stopLoading.syncPlaying none
    | reset => exact h
  | loaded k data play _ =>
    cases data <;> exact h
  | answer k data hash _ =>
    rw [VoicePlayer.imageData]
    split <;> exact h
  | unasked hash data =>
    rw [VoicePlayer.imageData]
    split <;> exact h
  | verified k f _ =>
    rw [VoicePlayer.verified]
    split <;> exact h
  | opened k f _ =>
    rw [VoicePlayer.opened]
    split
    · exact h
    · dsimp only
      split <;> exact h
  | openFailed k f _ =>
    exact h
  | decoded =>
    exact h
  | request hash =>
    exact h
  | handle event events _ =>
    have hsame : Shows { s with events } := h
    cases event with
    | imageRequest hash => exact h
    | voiceData hash valid =>
      cases valid with
      | true => exact h
      | false => exact hsame.setPlayback hash (by simp)
    | voiceMessageFailed => exact hsame.stopLoading
  | tick _ =>
    have hkept : Shows { s with player := s.player.filter (!·.done) } := h
    exact hkept.syncPlaying _
  | arranged messages panes hguard =>
    intro e he seconds hplaying
    rcases hguard e he with hold | hidle
    · exact h e hold seconds hplaying
    · rw [hidle] at hplaying
      cases hplaying

/-- **The screen shows what plays.**  After a tick, over every run, an entry in any pane that
shows that it is playing is of the clip that the player plays, which is the one that was
last asked for, and shows its second.  When the second or the clip has changed, every entry
of the clip shows it. -/
theorem shows_playing {env : PlayEnv H} {actions : List (PlayAction H)} {s s' : VoicePlayer H}
    (hexec : exec (step env) start actions = some s) (htick : s.step env .tick = some s') :
    (∀ e ∈ s'.entries, ∀ seconds, e.playback = .playing seconds → ∃ p, s'.player = some p ∧
      p.shown = (e.hash, seconds) ∧ s'.last = some (.play e.hash)) ∧
    (s'.playing ≠ s.playing → ∀ p, s'.player = some p → ∀ e ∈ s'.entries, e.hash = p.play.hash →
      e.playback = .playing p.shown.2) := by
  have hshows : Shows s := exec_induct (fun _ _ _ h _ hstep => h.step hstep)
    (by rintro e ⟨⟩) (meets_true ..) hexec
  have hinv : Inv s' := (inv_of_exec hexec).step htick
  have hafter := hshows.step htick
  obtain ⟨hcall, htick⟩ := Option.ite_none_right_eq_some.1 htick
  obtain rfl := Option.some.inj htick
  obtain ⟨messages, panes, hscreen⟩ := syncPlaying_screen { s with player := s.player.filter (!·.done) }
    ((s.player.filter (!·.done)).map Player.shown)
  have hplaying : s.tick.playing = s.tick.player.map Player.shown := by
    rw [tick, hscreen]
  refine ⟨fun e he seconds hshown => ?_, fun hchanged p hp e he hhash => ?_⟩
  · have hnow := hafter e he seconds hshown
    rw [hplaying] at hnow
    obtain ⟨p, hp, hsame⟩ := Option.map_eq_some_iff.1 hnow
    have hidle : s.tick.call = none := (tick_moved s).call.trans (Option.isNone_iff_eq_none.1 hcall)
    have hlast := (hinv.player p hp hidle).2
    have hhash : p.play.hash = e.hash := congrArg Prod.fst hsame
    exact ⟨p, hp, hsame, by rw [hlast, hhash]⟩
  · have hfilter : s.player.filter (!·.done) = some p := by
      rw [tick, hscreen] at hp
      exact hp
    have hne : some p.shown ≠ s.playing := by
      rw [hplaying, hp] at hchanged
      exact hchanged
    rw [tick, hfilter, Option.map_some, VoicePlayer.syncPlaying, if_neg hne] at he
    generalize { s with player := some p }.resetStopped (some p.shown) = s₁ at he
    have hmem : e ∈ (s₁.setPlayback p.shown.1 (.playing p.shown.2)).entries := he
    rw [entries_setPlayback] at hmem
    obtain ⟨e₀, -, rfl⟩ := List.mem_map.1 hmem
    obtain ⟨hsame, hshown⟩ := setEntry_eq p.shown.1 (.playing p.shown.2) e₀
    have hclip : e₀.hash = p.shown.1 := hsame.symm.trans hhash
    rw [hshown, if_pos hclip]

/-- While a clip plays, its entry shows it, and the other entry shows nothing. -/
theorem shows_playing_silent : ∃ s s' : VoicePlayer (List U8),
    s'.entries.map VoiceEntry.playback = [.playing 0, .idle] ∧
    (∀ e ∈ s'.entries, ∀ seconds, e.playback = .playing seconds → ∃ p, s'.player = some p ∧
      p.shown = (e.hash, seconds) ∧ s'.last = some (.play e.hash)) ∧
    (s'.playing ≠ s.playing → ∀ p, s'.player = some p → ∀ e ∈ s'.entries, e.hash = p.play.hash →
      e.playback = .playing p.shown.2) := by
  have hrun : (exec (step byContent) start (.arranged [⟨file, .idle⟩] [⟨[], .idle⟩] :: asked)).bind (fun s =>
      (s.step byContent .tick).map fun s' => s'.entries.map VoiceEntry.playback) = some [.playing 0, .idle] := by
    decide +kernel
  obtain ⟨s, hs, hnext⟩ := Option.bind_eq_some_iff.1 hrun
  obtain ⟨s', hs', hv⟩ := Option.map_eq_some_iff.1 hnext
  exact ⟨s, s', hv, shows_playing hs hs'⟩

end VoicePlayer

end Player

/-! ### The playhead -/

section Playhead

variable {σ : Type}

/-- The decoder of a clip. -/
structure Decoder (σ : Type) where
  State : Type
  /-- `decode_float`: the samples of the channels by turns, if the packet can be decoded. -/
  decodeFloat : State → List U8 → Option (List σ) × State

/-- A packet is decoded to as many samples for each channel. -/
def Decoder.Whole (D : Decoder σ) (channels : ℕ) : Prop :=
  ∀ state packet samples state', D.decodeFloat state packet = (some samples, state') → channels ∣ samples.length

/-- The samples of some packets.  One that cannot be decoded has none. -/
def Decoder.decodeAll (D : Decoder σ) : D.State → List (List U8) → List σ
  | _, [] => []
  | state, packet :: packets =>
    let (samples, state) := D.decodeFloat state packet
    samples.getD [] ++ D.decodeAll state packets

/-- `Playhead`. -/
structure Playhead (D : Decoder σ) where
  frames : List (List U8)
  channels : ℕ
  decoder : D.State
  next : ℕ
  buffer : List σ
  read : ℕ

/-- The samples of two channels, in pairs. -/
def pairs : List σ → List (σ × σ)
  | left :: right :: rest => (left, right) :: pairs rest
  | _ => []

/-- Samples for both sides. -/
def stereoOf (channels : ℕ) (samples : List σ) : List (σ × σ) :=
  if channels = 2 then pairs samples else samples.map fun sample => (sample, sample)

variable {D : Decoder σ}

namespace Playhead

/-- A clip that begins to play. -/
def start (D : Decoder σ) (decoder : D.State) (clip : Clip) : Playhead D :=
  ⟨clip.frames, clip.channels.toNat, decoder, 0, [], 0⟩

/-- The loop of `Playhead::next`: every turn takes a packet. -/
def fill : ℕ → Playhead D → Playhead D
  | 0, p => p
  | fuel + 1, p =>
    if p.read < p.buffer.length then p
    else
      match p.frames[p.next]? with
      | none => p
      | some packet =>
        let (samples, decoder) := D.decodeFloat p.decoder packet
        fill fuel { p with next := p.next + 1, decoder, buffer := samples.getD [], read := 0 }

/-- `Playhead::next`. -/
def nextSample (p : Playhead D) : Option (σ × σ) × Playhead D :=
  let p := p.fill (p.frames.length - p.next)
  match p.buffer[p.read]? with
  | none => (none, p)
  | some left =>
    (some (left, if p.channels = 2 then p.buffer.getD (p.read + 1) left else left),
      { p with read := p.read + p.channels })

/-- What is left to play. -/
def remaining (p : Playhead D) : List (σ × σ) :=
  stereoOf p.channels (p.buffer.drop p.read ++ D.decodeAll p.decoder (p.frames.drop p.next))

/-- The buffer is read in whole steps. -/
structure Aligned (p : Playhead D) : Prop where
  channels : p.channels = 1 ∨ p.channels = 2
  read : p.read ≤ p.buffer.length
  whole : p.channels ∣ p.buffer.length - p.read
  next : p.next ≤ p.frames.length

/-- What the loop leaves: a sample to read, or no packet. -/
structure Filled (p p' : Playhead D) : Prop where
  aligned : p'.Aligned
  remaining : p'.remaining = p.remaining
  frames : p'.frames = p.frames
  channels : p'.channels = p.channels
  ready : p'.read < p'.buffer.length ∨ p'.next = p'.frames.length

/-- `fill` gives the packets in turn, as far as its bound reaches. -/
theorem fill_filled {p : Playhead D} (h : p.Aligned) (hD : D.Whole p.channels) {fuel : ℕ}
    (hfuel : p.frames.length - p.next ≤ fuel) : Filled p (p.fill fuel) := by
  have hle := h.next
  induction fuel generalizing p with
  | zero => exact ⟨h, rfl, rfl, rfl, .inr (by rw [fill]; omega)⟩
  | succ fuel ih =>
    rw [fill]
    split
    case isTrue hready => exact ⟨h, rfl, rfl, rfl, .inl hready⟩
    case isFalse hempty =>
      split
      case h_1 hnone =>
        have hend := List.getElem?_eq_none_iff.1 hnone
        exact ⟨h, rfl, rfl, rfl, .inr (by omega)⟩
      case h_2 packet hpacket =>
        obtain ⟨hlt, hget⟩ := List.getElem?_eq_some_iff.1 hpacket
        rcases hresult : D.decodeFloat p.decoder packet with ⟨samples, decoder⟩
        -- The buffer is read to its end, so the packet is what comes next.
        have hread : p.buffer.drop p.read = [] := List.drop_eq_nil_of_le (not_lt.1 hempty)
        have hsplit : p.frames.drop p.next = packet :: p.frames.drop (p.next + 1) := by
          rw [← hget]
          exact List.drop_eq_getElem_cons hlt
        have hwhole : p.channels ∣ (samples.getD []).length := by
          cases samples with
          | none => exact dvd_zero _
          | some samples => exact hD _ _ _ _ hresult
        have hrest := ih (p := { p with next := p.next + 1, decoder, buffer := samples.getD [], read := 0 })
          ⟨h.channels, Nat.zero_le _, hwhole, hlt⟩ hD (by dsimp only; omega) hlt
        refine ⟨hrest.aligned, hrest.remaining.trans ?_, hrest.frames, hrest.channels, hrest.ready⟩
        rw [remaining, remaining, hread, hsplit, Decoder.decodeAll, hresult]
        rfl

/-- **One sample** is the next one of what is left. -/
theorem nextSample_spec {p : Playhead D} (h : p.Aligned) (hD : D.Whole p.channels) :
    p.nextSample.1 = p.remaining.head? ∧ p.nextSample.2.remaining = p.remaining.tail ∧ p.nextSample.2.Aligned ∧
      p.nextSample.2.channels = p.channels ∧ p.nextSample.2.frames = p.frames ∧
      (p.nextSample.1 = none → p.nextSample.2.next = p.frames.length) := by
  obtain ⟨haligned, hremaining, hframes, hchannels, hready⟩ := fill_filled h hD le_rfl
  rw [nextSample]
  generalize p.fill (p.frames.length - p.next) = q at haligned hremaining hframes hchannels hready
  rw [← hremaining, ← hchannels, ← hframes]
  rcases Nat.lt_or_ge q.read q.buffer.length with hlt | hge
  · obtain ⟨left, rest, hdrop⟩ : ∃ left rest, q.buffer.drop q.read = left :: rest :=
      ⟨_, _, List.drop_eq_getElem_cons hlt⟩
    have hleft : q.buffer[q.read]? = some left := by
      rw [← List.head?_drop, hdrop]
      rfl
    have hlength := congrArg List.length hdrop
    rw [List.length_drop, List.length_cons] at hlength
    have hwhole := haligned.whole
    rw [hleft]
    rcases haligned.channels with hone | htwo
    · -- Both sides get the same sample.
      have hnext : q.buffer.drop (q.read + 1) = rest := by
        rw [← List.tail_drop, hdrop]
        rfl
      refine ⟨?_, ?_, ⟨haligned.channels, ?_, ?_, haligned.next⟩, rfl, rfl, (fun hnone => by cases hnone)⟩
      · simp [remaining, stereoOf, hone, hdrop]
      · simp [remaining, stereoOf, hone, hdrop, hnext]
      · show q.read + q.channels ≤ q.buffer.length
        omega
      · rw [hone]
        exact one_dvd _
    · obtain ⟨right, rest', rfl⟩ : ∃ right rest', rest = right :: rest' := by
        cases rest with
        | nil =>
          rw [htwo, hlength] at hwhole
          exact absurd (Nat.le_of_dvd (Nat.succ_pos _) hwhole) (by simp)
        | cons right rest' => exact ⟨right, rest', rfl⟩
      have htail : q.buffer.drop (q.read + 1) = right :: rest' := by
        rw [← List.tail_drop, hdrop]
        rfl
      have hnext : q.buffer.drop (q.read + 2) = rest' := by
        rw [← List.tail_drop, htail]
        rfl
      have hright : q.buffer.getD (q.read + 1) left = right := by
        rw [List.getD_eq_getElem?_getD, ← List.head?_drop, htail]
        rfl
      rw [List.length_cons] at hlength
      refine ⟨?_, ?_, ⟨haligned.channels, ?_, ?_, haligned.next⟩, rfl, rfl, (fun hnone => by cases hnone)⟩
      · dsimp only
        rw [hright, remaining, stereoOf, if_pos htwo, if_pos htwo, hdrop]
        rfl
      · dsimp only [remaining]
        rw [stereoOf, stereoOf, if_pos htwo, if_pos htwo, htwo, hnext, hdrop]
        rfl
      · show q.read + q.channels ≤ q.buffer.length
        omega
      · show q.channels ∣ q.buffer.length - (q.read + q.channels)
        rw [← Nat.sub_sub]
        exact Nat.dvd_sub hwhole dvd_rfl
  · have hend := hready.resolve_left (not_lt.2 hge)
    have hnone : q.buffer[q.read]? = none := List.getElem?_eq_none hge
    have hempty : q.remaining = [] := by
      rw [remaining, List.drop_eq_nil_of_le hge, hend, List.drop_length, Decoder.decodeAll, stereoOf]
      split <;> rfl
    rw [hnone]
    exact ⟨by rw [hempty]; rfl, by rw [hempty]; rfl, haligned, rfl, rfl, fun _ => hend⟩

/-- **What is heard of a clip**: the samples of its packets, in order and none twice, with
nothing in the place of a packet that cannot be decoded.  The count of packets, which the
time that is shown is taken from, is never beyond the clip, and it is all of it at the end. -/
theorem plays_samples (decoder : D.State) {clip : Clip} (hchannels : clip.channels = 1 ∨ clip.channels = 2)
    (hD : D.Whole clip.channels.toNat) (n : ℕ) :
    let p := (fun p : Playhead D => p.nextSample.2)^[n] (start D decoder clip)
    p.nextSample.1 = (stereoOf clip.channels.toNat (D.decodeAll decoder clip.frames))[n]? ∧
      p.next ≤ clip.frames.length ∧ (p.nextSample.1 = none → p.nextSample.2.next = clip.frames.length) := by
  have haligned : (start D decoder clip).Aligned :=
    ⟨hchannels.imp (congrArg BitVec.toNat) (congrArg BitVec.toNat), le_rfl, dvd_zero _, Nat.zero_le _⟩
  have hrun : ∀ n, let p := (fun p : Playhead D => p.nextSample.2)^[n] (start D decoder clip)
      p.Aligned ∧ p.channels = clip.channels.toNat ∧ p.frames = clip.frames ∧
        p.remaining = (stereoOf clip.channels.toNat (D.decodeAll decoder clip.frames)).drop n := by
    intro n
    induction n with
    | zero => exact ⟨haligned, rfl, rfl, rfl⟩
    | succ n ih =>
      dsimp only at ih ⊢
      rw [Function.iterate_succ_apply']
      obtain ⟨hp, hpchannels, hpframes, hpremaining⟩ := ih
      obtain ⟨-, hrest, hnext, hsame, hframes, -⟩ := nextSample_spec hp (hpchannels ▸ hD)
      exact ⟨hnext, hsame.trans hpchannels, hframes.trans hpframes, by rw [hrest, hpremaining, List.tail_drop]⟩
  obtain ⟨hp, hpchannels, hpframes, hpremaining⟩ := hrun n
  obtain ⟨hfirst, -, -, -, -, hend⟩ := nextSample_spec hp (hpchannels ▸ hD)
  exact ⟨by rw [hfirst, hpremaining, List.head?_drop], hpframes ▸ hp.next, fun hnone => hpframes ▸ hend hnone⟩

/-- Silent packets are decoded, and no others. -/
def silentDecoder : Decoder ℤ where
  State := Unit
  decodeFloat := fun _ packet =>
    (if packet = [0xFC, 0xFF, 0xFE] then some (List.replicate frameSamples 0) else none, ())

/-- A decoder of silence gives both channels of every sample. -/
theorem silentDecoder_whole : silentDecoder.Whole 2 := by
  intro state packet samples state' h
  obtain ⟨-, hsamples⟩ := Option.ite_none_right_eq_some.1 (Prod.ext_iff.1 h).1
  obtain rfl := Option.some.inj hsamples
  rw [List.length_replicate]
  decide

/-- A packet that cannot be decoded, between two that can. -/
def broken : Clip := ⟨2, [[0xFC, 0xFF, 0xFE], [0x00], [0xFC, 0xFF, 0xFE]]⟩

/-- Packets that are not decoded are left out, and the samples of the others follow. -/
theorem plays_samples_broken :
    let p := (fun p : Playhead silentDecoder => p.nextSample.2)^[1000] (start silentDecoder () broken)
    p.nextSample.1 = (stereoOf broken.channels.toNat (silentDecoder.decodeAll () broken.frames))[1000]? ∧
      p.next ≤ broken.frames.length ∧ (p.nextSample.1 = none → p.nextSample.2.next = broken.frames.length) := by
  have hchannels : broken.channels = 2 := rfl
  have hwhole : silentDecoder.Whole broken.channels.toNat := silentDecoder_whole
  exact plays_samples (D := silentDecoder) () (.inr hchannels) hwhole 1000

end Playhead

end Playhead

end VoiceMessage
end Why2
