/-
# The life of a screen share

A session shares its screen over a socket of its own, which it opens with a token
from the answer to its `ScreenRequest`.  The task of that socket (`screen`,
`chat/src/network/screen/server.rs`) registers itself on the connection
(`screen_stream`), enters its share into `SHARES` under the id of the session, and
relays.  When the socket closes it takes itself off the connection and detaches
the viewers (`end_share`); and however it ends, a guard removes the entry of
`SHARES` and aborts the task that is registered (`ScreenTransferGuard`).  A second
`ScreenRequest` stops the share (`chat/src/network/server/mod.rs`), and so does the
end of the session.

All of these find the share by the id of the session.  If a new share is
registered before the task of the old one has ended, the guard of the old one
unlists and aborts the new one (`new_share_aborted`).  If a share is only
registered when every earlier one has ended and no stop is still to detach its
viewers, no share's end touches another, and the connection has a share exactly
when `SHARES` has one that is running (`shares_apart`).

An action is what a task does between two `await`s or under one lock; an aborted
task goes on until it waits.
-/

import Why2.Lib.Runs
import Mathlib.Data.List.AList

namespace Why2

open Lib

/-- Where the task of a share is. -/
inductive SharePhase
  /-- The socket has been accepted with its token. -/
  | opened
  /-- `screen_stream` is set. -/
  | registered
  /-- The share is in `SHARES`, and the loop runs. -/
  | relaying
  /-- The loop is over. -/
  | closed
  /-- `end_share` has taken `screen_stream`. -/
  | taken
  /-- The viewers are detached; they and the sharer are being told. -/
  | deattached
  /-- The guard is being dropped. -/
  | dropping
  | unlisted
  | ended
deriving DecidableEq

/-- The task of one share. -/
structure ShareTask where
  phase : SharePhase
  aborted : Bool
deriving DecidableEq

/-- Where the handler of the session is: it may have aborted a share whose viewers it has
yet to detach. -/
inductive ShareHandler
  | idle
  | stopping (k : ℕ)
deriving DecidableEq

/-- Where the end of the session is (`remove_connection`). -/
inductive ShareLeave
  | staying
  /-- The connection is out of the table, with its `screen_stream`. -/
  | removed (stream : Option ℕ)
  | detaching (k : ℕ)
  | left
deriving DecidableEq

/-- A session that shares its screen: its `screen_stream`, its entry of `SHARES`, its tokens,
its tasks, the clients that watch it with the share each one joined, and which end of a
share did harm to which other one. -/
structure ShareSession where
  stream : Option ℕ
  listed : Option ℕ
  tokens : ℕ
  tasks : List ShareTask
  handler : ShareHandler
  leave : ShareLeave
  attached : AList fun _ : ℕ => Option ℕ
  harm : List (ℕ × ℕ)

/-- What one task does between two `await`s or under one lock. -/
inductive ShareAction
  /-- A `ScreenRequest`, with the setting `enable_screenshare`. -/
  | request (enabled : Bool)
  | stopDeattach
  | expire
  | accept
  | register (k : ℕ)
  | list (k : ℕ)
  | hangUp (k : ℕ)
  | takeStream (k : ℕ)
  | deattach (k : ℕ)
  | finish (k : ℕ)
  /-- An abort takes effect. -/
  | cancel (k : ℕ)
  | unlist (k : ℕ)
  | release (k : ℕ)
  | disconnect
  | leaveAbort
  | leaveDeattach
  | attach (client : ℕ)
  | join (client : ℕ)
  | deattachClient (client : ℕ)

namespace ShareSession

/-- A session without a share. -/
def start : ShareSession := ⟨none, none, 0, [], .idle, .staying, ∅, []⟩

/-- The share is being relayed, or about to be. -/
def running (s : ShareSession) (k : ℕ) : Bool :=
  s.tasks[k]?.any fun task => task.aborted = false ∧ (task.phase = .registered ∨ task.phase = .relaying)

/-- The end of share `k` unlists, aborts or takes the viewers of these shares. -/
def harms (s : ShareSession) (k : ℕ) (shares : List ℕ) : List (ℕ × ℕ) :=
  (shares.filter fun j => j ≠ k ∧ s.running j).map (k, ·)

/-- `AbortHandle::abort`. -/
def abort (tasks : List ShareTask) (k : ℕ) : List ShareTask := tasks.modify k ({ · with aborted := true })

/-- `server::deattach`, at the end of share `k`. -/
def deattachAll (s : ShareSession) (k : ℕ) : ShareSession :=
  { s with attached := ∅, harm := s.harm ++ s.harms k (s.attached.entries.filterMap (·.2)) }

/-- A task goes on. -/
def goto (s : ShareSession) (k : ℕ) (task : ShareTask) (phase : SharePhase) : ShareSession :=
  { s with tasks := s.tasks.set k { task with phase } }

/-- `screen` registers the task, which aborts the one that was registered before.  Its own
handle has not been anywhere else until then. -/
def register (s : ShareSession) (k : ℕ) (task : ShareTask) : ShareSession :=
  match s.leave with
  | .staying =>
    { s with tasks := (s.stream.elim s.tasks (abort s.tasks)).set k ⟨.registered, false⟩, stream := some k }
  | _ => s.goto k task .ended

/-- The beginning of `end_share`. -/
def takeStream (s : ShareSession) (k : ℕ) (task : ShareTask) : ShareSession :=
  match s.leave, s.stream with
  | .staying, some _ => { s with stream := none }.goto k task .taken
  | _, _ => s.goto k task .dropping

/-- The end of the guard: the task that is registered is aborted. -/
def release (s : ShareSession) (k : ℕ) (task : ShareTask) : ShareSession :=
  match s.leave, s.stream with
  | .staying, some j =>
    { s with
      stream := none
      tasks := abort (s.tasks.set k { task with phase := .ended }) j
      harm := s.harm ++ s.harms k [j] }
  | _, _ => s.goto k task .ended

/-- A task that is at this place goes on. -/
def advance (s : ShareSession) (k : ℕ) (phase : SharePhase) (next : ShareTask → ShareSession) :
    Option ShareSession := do
  let task ← s.tasks[k]?
  if task.phase = phase then some (next task) else none

/-- One action. -/
def step (s : ShareSession) : ShareAction → Option ShareSession
  | .request enabled =>
    match s.leave, s.handler with
    | .staying, .idle =>
      match s.stream with
      | some k => some { s with stream := none, tasks := abort s.tasks k, handler := .stopping k }
      | none => some (if enabled then { s with tokens := s.tokens + 1 } else s)
    | _, _ => none
  | .stopDeattach =>
    match s.handler with
    | .stopping k => some { s.deattachAll k with handler := .idle }
    | .idle => none
  | .expire => some { s with tokens := s.tokens - 1 }
  | .accept =>
    if s.tokens = 0 then none
    else some { s with tokens := s.tokens - 1, tasks := s.tasks ++ [⟨.opened, false⟩] }
  | .register k => s.advance k .opened (s.register k)
  | .list k => s.advance k .registered fun task => { s with listed := some k }.goto k task .relaying
  | .hangUp k => s.advance k .relaying fun task => s.goto k task .closed
  | .takeStream k => s.advance k .closed (s.takeStream k)
  | .deattach k => s.advance k .taken fun task => (s.deattachAll k).goto k task .deattached
  | .finish k => s.advance k .deattached fun task => s.goto k task .dropping
  | .cancel k => do
    let task ← s.tasks[k]?
    if task.aborted = true ∧ (task.phase = .relaying ∨ task.phase = .deattached) then some (s.goto k task .dropping)
    else none
  | .unlist k =>
    s.advance k .dropping fun task =>
      { s with listed := none, harm := s.harm ++ s.harms k s.listed.toList }.goto k task .unlisted
  | .release k => s.advance k .unlisted (s.release k)
  | .disconnect =>
    match s.leave with
    | .staying => some { s with leave := .removed s.stream, stream := none }
    | _ => none
  | .leaveAbort =>
    match s.leave with
    | .removed (some k) => some { s with leave := .detaching k, tasks := abort s.tasks k }
    | .removed none => some { s with leave := .left }
    | _ => none
  | .leaveDeattach =>
    match s.leave with
    | .detaching k => some { s.deattachAll k with leave := .left }
    | _ => none
  | .attach client => some { s with attached := s.attached.insert client none }
  | .join client =>
    if client ∈ s.attached then some { s with attached := s.attached.insert client s.listed } else some s
  | .deattachClient client => some { s with attached := s.attached.erase client }

/-- Nothing of the session is being started, stopped or ended. -/
def Quiet (s : ShareSession) : Prop :=
  s.handler = .idle ∧ (s.leave = .staying ∨ s.leave = .left) ∧
    ∀ task ∈ s.tasks, task.phase = .ended ∨ task.phase = .relaying ∧ task.aborted = false

/-- The end of a share does no harm to another one that is running, and between the
operations the connection has a share exactly when `SHARES` has one that is running. -/
structure Apart (s : ShareSession) : Prop where
  harm : s.harm = []
  listed : s.Quiet → (s.stream.isSome = true ↔ ∃ k, s.listed = some k ∧ s.running k = true)

/-! ### A share that is aborted by the guard of the one before -/

/-- A share is stopped, and the next one registered before the task of the first has ended. -/
def restarted : List ShareAction :=
  [.request true, .accept, .register 0, .list 0, .request true, .stopDeattach, .request true, .accept, .register 1,
    .list 1, .cancel 0, .unlist 0, .release 0]

/-- **The guard of a share that was stopped unlists and aborts the next one.** -/
theorem new_share_aborted :
    ¬∀ (actions : List ShareAction) (s : ShareSession), exec step start actions = some s → s.Apart := by
  intro h
  have hvalues : (exec step start restarted).map (·.harm) = some [(0, 1), (0, 1)] := by decide
  obtain ⟨s, hs, hharm⟩ := Option.map_eq_some_iff.1 hvalues
  have hnone := (h restarted s hs).harm
  rw [hharm] at hnone
  cases hnone

end ShareSession

/-! ### One share at a time -/

/-- The task has registered and not ended. -/
def SharePhase.active : SharePhase → Bool
  | .opened | .ended => false
  | _ => true

/-- The share is in `SHARES`. -/
def SharePhase.shared : SharePhase → Bool
  | .relaying | .closed | .taken | .deattached | .dropping => true
  | _ => false

/-- The task is the one that is registered on the connection. -/
def ShareTask.streaming (task : ShareTask) : Bool :=
  !task.aborted && (task.phase = .registered || task.phase = .relaying || task.phase = .closed)

namespace ShareSession

/-- A share is registered only when every other share of the session has ended, and no stop
is still to detach its viewers. -/
def Sequential (s : ShareSession) : ShareAction → Prop
  | .register k =>
    s.leave = .staying → s.handler = .idle ∧ ∀ task ∈ s.tasks.eraseIdx k, task.phase.active = false
  | _ => True

instance (s : ShareSession) (action : ShareAction) : Decidable (s.Sequential action) :=
  match action with
  | .register k =>
    inferInstanceAs (Decidable (s.leave = .staying →
      s.handler = .idle ∧ ∀ task ∈ s.tasks.eraseIdx k, task.phase.active = false))
  | .request _ | .stopDeattach | .expire | .accept | .list _ | .hangUp _ | .takeStream _ | .deattach _ | .finish _
  | .cancel _ | .unlist _ | .release _ | .disconnect | .leaveAbort | .leaveDeattach | .attach _ | .join _
  | .deattachClient _ => .isTrue trivial

/-- There is no share. -/
structure Free (s : ShareSession) : Prop where
  none : ∀ task ∈ s.tasks, task.phase.active = false
  stream : s.stream = .none
  listed : s.listed = .none

/-- There is one share. -/
structure Held (s : ShareSession) (k : ℕ) (task : ShareTask) : Prop where
  at' : s.tasks[k]? = some task
  active : task.phase.active = true
  only : ∀ j other, s.tasks[j]? = some other → other.phase.active = true → j = k
  stream : s.stream = if s.leave = .staying ∧ task.streaming = true then some k else none
  listed : s.listed = if task.phase.shared then some k else none
  handler : ∀ j, s.handler = .stopping j → j = k
  removed : task.streaming = true → s.leave ≠ .staying → s.leave = .removed (some k)
  leaving : ∀ j, s.leave = .removed (some j) ∨ s.leave = .detaching j → j = k

/-- What holds after every action. -/
def Inv (s : ShareSession) : Prop := s.harm = [] ∧ (s.Free ∨ ∃ k task, s.Held k task)

variable {s s' : ShareSession} {k : ℕ} {task : ShareTask}

/-- What runs is a share that streams. -/
theorem active_of_running {j : ℕ} (h : s.running j = true) :
    ∃ task, s.tasks[j]? = some task ∧ task.phase.active = true ∧ task.streaming = true := by
  unfold running at h
  cases hj : s.tasks[j]? with
  | none =>
    rw [hj] at h
    cases h
  | some task =>
    rw [hj] at h
    obtain ⟨haborted, hphase⟩ := of_decide_eq_true h
    refine ⟨task, rfl, ?_⟩
    unfold ShareTask.streaming
    rcases hphase with hphase | hphase
    · rw [haborted, hphase]
      exact ⟨rfl, rfl⟩
    · rw [haborted, hphase]
      exact ⟨rfl, rfl⟩

/-- Of a free session nothing runs. -/
theorem Free.not_running (h : s.Free) (j : ℕ) : s.running j = false := by
  refine Bool.eq_false_iff.2 fun hrunning => ?_
  obtain ⟨task, hj, hactive, _⟩ := active_of_running hrunning
  rw [h.none task (List.mem_of_getElem? hj)] at hactive
  cases hactive

/-- What runs is the share that holds the session. -/
theorem Held.eq_of_running (h : s.Held k task) {j : ℕ} (hrunning : s.running j = true) : j = k := by
  obtain ⟨other, hj, hactive, _⟩ := active_of_running hrunning
  exact h.only j other hj hactive

/-- The end of a share does no harm if no other one is running. -/
theorem harms_eq_nil (h : ∀ j, s.running j = true → j = k) (shares : List ℕ) : s.harms k shares = [] := by
  unfold harms
  rw [List.filter_eq_nil_iff.2 fun j _ hj => ?_]
  · rfl
  · obtain ⟨hne, hrunning⟩ := of_decide_eq_true hj
    exact hne (h j hrunning)

/-- At most one share is running, and nothing else is ended. -/
theorem Inv.harms_eq_nil (hinv : s.Inv) (h : ∀ j task, s.Held j task → k = j) (shares : List ℕ) :
    s.harms k shares = [] := by
  refine ShareSession.harms_eq_nil (fun j hrunning => ?_) shares
  rcases hinv.2 with hfree | ⟨i, task, hheld⟩
  · rw [hfree.not_running] at hrunning
    cases hrunning
  · rw [h i task hheld]
    exact hheld.eq_of_running hrunning

/-! ### One action -/

/-- A task that is not active leaves the session free. -/
theorem Free.of_set (h : s.Free) {task' : ShareTask} (htask : task'.phase.active = false)
    (htasks : s'.tasks = s.tasks.set k task') (hstream : s'.stream = s.stream) (hlisted : s'.listed = s.listed) :
    s'.Free := by
  refine ⟨fun t ht => ?_, hstream.trans h.stream, hlisted.trans h.listed⟩
  rw [htasks] at ht
  rcases List.mem_or_eq_of_mem_set ht with ht | rfl
  · exact h.none t ht
  · exact htask

/-- The task of the share changes, and nobody else's. -/
theorem Held.set (h : s.Held k task) {task' : ShareTask} (htasks : s'.tasks = s.tasks.set k task')
    (hactive : task'.phase.active = true)
    (hstream : s'.stream = if s'.leave = .staying ∧ task'.streaming = true then some k else none)
    (hlisted : s'.listed = if task'.phase.shared then some k else none)
    (hhandler : ∀ j, s'.handler = .stopping j → j = k)
    (hremoved : task'.streaming = true → s'.leave ≠ .staying → s'.leave = .removed (some k))
    (hleaving : ∀ j, s'.leave = .removed (some j) ∨ s'.leave = .detaching j → j = k) : s'.Held k task' where
  at' := by
    rw [htasks]
    exact List.getElem?_set_self (List.getElem?_eq_some_iff.1 h.at').1
  active := hactive
  only j other hj hother := by
    rw [htasks] at hj
    by_contra hne
    rw [List.getElem?_set_ne (Ne.symm hne)] at hj
    exact hne (h.only j other hj hother)
  stream := hstream
  listed := hlisted
  handler := hhandler
  removed := hremoved
  leaving := hleaving

/-- The share goes on to another place. -/
theorem Held.goto (h : s.Held k task) {phase : SharePhase} {stream listed : Option ℕ}
    {attached : AList fun _ : ℕ => Option ℕ} {harm : List (ℕ × ℕ)} (hactive : phase.active = true)
    (hstream : stream =
      if s.leave = .staying ∧ ({ task with phase } : ShareTask).streaming = true then some k else none)
    (hlisted : listed = if phase.shared then some k else none)
    (hstreaming : ({ task with phase } : ShareTask).streaming = true → task.streaming = true) :
    (({ s with stream, listed, attached, harm } : ShareSession).goto k task phase).Held k { task with phase } :=
  h.set rfl hactive hstream hlisted h.handler (fun hs => h.removed (hstreaming hs)) h.leaving

/-- The share is over. -/
theorem Held.ended (h : s.Held k task) {task' : ShareTask} (htasks : s'.tasks = s.tasks.set k task')
    (htask : task'.phase.active = false) (hstream : s'.stream = none) (hlisted : s'.listed = none) : s'.Free := by
  refine ⟨fun t ht => ?_, hstream, hlisted⟩
  obtain ⟨j, hj⟩ := List.mem_iff_getElem?.1 ht
  rw [htasks] at hj
  rcases eq_or_ne k j with rfl | hne
  · rw [List.getElem?_set_self (List.getElem?_eq_some_iff.1 h.at').1] at hj
    obtain rfl := Option.some.inj hj
    exact htask
  · rw [List.getElem?_set_ne hne] at hj
    exact Bool.eq_false_iff.2 fun hactive => hne (h.only j t hj hactive).symm

/-- A task that has registered and not ended is the one there is. -/
theorem Inv.held_of_active (hinv : s.Inv) (hk : s.tasks[k]? = some task) (hactive : task.phase.active = true) :
    s.Held k task := by
  rcases hinv.2 with hfree | ⟨j, other, hheld⟩
  · have hnone := hfree.none task (List.mem_of_getElem? hk)
    rw [hactive] at hnone
    cases hnone
  · obtain rfl := hheld.only k task hk hactive
    obtain rfl := Option.some.inj (hk.symm.trans hheld.at')
    exact hheld

/-- A task in an active phase holds the session. -/
theorem Inv.held_of_advance (hinv : s.Inv) {phase : SharePhase} (hactive : phase.active = true)
    {next : ShareTask → ShareSession} (h : s.advance k phase next = some s') :
    ∃ task, s.Held k task ∧ task.phase = phase ∧ s' = next task := by
  obtain ⟨task, hk, h⟩ := Option.bind_eq_some_iff.1 h
  split_ifs at h with hphase
  exact ⟨task, hinv.held_of_active hk (hphase ▸ hactive), hphase, (Option.some.inj h).symm⟩

/-- A share that registers alone holds the session. -/
theorem Inv.register (hinv : s.Inv) (hcond : s.Sequential (.register k)) (h : s.step (.register k) = some s') :
    s'.Inv := by
  obtain ⟨task, hk, h⟩ := Option.bind_eq_some_iff.1 h
  split_ifs at h with hphase
  obtain rfl := Option.some.inj h
  unfold ShareSession.register
  split
  · -- Every other task has ended, so there is no share.
    rename_i hstaying
    obtain ⟨hidle, hothers⟩ := hcond hstaying
    have hfree : s.Free := by
      refine hinv.2.resolve_right ?_
      rintro ⟨j, other, hheld⟩
      have hne : j ≠ k := by
        rintro rfl
        obtain rfl := Option.some.inj (hk.symm.trans hheld.at')
        have hactive := hheld.active
        rw [hphase] at hactive
        cases hactive
      have hactive := hothers other (List.mem_eraseIdx_iff_getElem?.2 ⟨j, hne, hheld.at'⟩)
      rw [hheld.active] at hactive
      cases hactive
    have hlt := (List.getElem?_eq_some_iff.1 hk).1
    rw [hfree.stream]
    refine ⟨hinv.1, .inr ⟨k, ⟨.registered, false⟩, ?_⟩⟩
    refine ⟨List.getElem?_set_self hlt, rfl, fun j other hj hactive => ?_, ?_, hfree.listed, fun j hj => ?_,
      fun _ hne => absurd hstaying hne, fun j hj => ?_⟩
    · by_contra hne
      rw [Option.elim_none, List.getElem?_set_ne (Ne.symm hne)] at hj
      rw [hfree.none other (List.mem_of_getElem? hj)] at hactive
      cases hactive
    · exact (if_pos ⟨hstaying, rfl⟩).symm
    · rw [show s.handler = .stopping j from hj] at hidle
      cases hidle
    · have hleave : s.leave = .removed (some j) ∨ s.leave = .detaching j := hj
      rw [hstaying] at hleave
      rcases hleave with hleave | hleave <;> cases hleave
  · -- The session is over, and the task ends at once.
    refine ⟨hinv.1, ?_⟩
    rcases hinv.2 with hfree | ⟨j, other, hheld⟩
    · have hended : ({ task with phase := .ended } : ShareTask).phase.active = false := rfl
      exact .inl (hfree.of_set hended rfl rfl rfl)
    · have hne : j ≠ k := by
        rintro rfl
        obtain rfl := Option.some.inj (hk.symm.trans hheld.at')
        have hactive := hheld.active
        rw [hphase] at hactive
        cases hactive
      refine .inr ⟨j, other, ?_, hheld.active, fun i t hi hactive => ?_, hheld.stream, hheld.listed, hheld.handler,
        hheld.removed, hheld.leaving⟩
      · exact (List.getElem?_set_ne hne.symm).trans hheld.at'
      · rcases eq_or_ne k i with rfl | hki
        · have hi : (s.tasks.set k { task with phase := .ended })[k]? = some t := hi
          rw [List.getElem?_set_self (List.getElem?_eq_some_iff.1 hk).1] at hi
          obtain rfl := Option.some.inj hi
          cases hactive
        · exact hheld.only i t ((List.getElem?_set_ne hki).symm.trans hi) hactive

/-- The shares are left as they are. -/
theorem Inv.of_same (hinv : s.Inv) (htasks : s'.tasks = s.tasks) (hstream : s'.stream = s.stream)
    (hlisted : s'.listed = s.listed) (hleave : s'.leave = s.leave)
    (hhandler : ∀ j, s'.handler = .stopping j → s.handler = .stopping j) (hharm : s'.harm = []) : s'.Inv := by
  refine ⟨hharm, ?_⟩
  rcases hinv.2 with hfree | ⟨k, task, hheld⟩
  · exact .inl ⟨htasks ▸ hfree.none, hstream.trans hfree.stream, hlisted.trans hfree.listed⟩
  · refine .inr ⟨k, task, htasks ▸ hheld.at', hheld.active, htasks ▸ hheld.only, ?_, hlisted.trans hheld.listed,
      fun j hj => hheld.handler j (hhandler j hj), ?_, ?_⟩
    · rw [hstream, hleave]
      exact hheld.stream
    · rw [hleave]
      exact hheld.removed
    · rw [hleave]
      exact hheld.leaving

/-- A stop, by the handler or the end of the session, aborts the task that is registered. -/
theorem abort_eq_set (hk : s.tasks[k]? = some task) :
    abort s.tasks k = s.tasks.set k { task with aborted := true } := by
  refine List.ext_getElem? fun j => ?_
  unfold abort
  rcases eq_or_ne k j with rfl | hne
  · rw [List.getElem?_modify_eq, hk, List.getElem?_set_self (List.getElem?_eq_some_iff.1 hk).1]
    rfl
  · rw [List.getElem?_modify_ne _ _ hne, List.getElem?_set_ne hne]

/-- A task that is aborted leaves the session free. -/
theorem Free.abort (h : s.Free) (htasks : s'.tasks = ShareSession.abort s.tasks k) (hstream : s'.stream = s.stream)
    (hlisted : s'.listed = s.listed) : s'.Free := by
  refine ⟨fun t ht => ?_, hstream.trans h.stream, hlisted.trans h.listed⟩
  obtain ⟨j, hj⟩ := List.mem_iff_getElem?.1 ht
  rw [htasks, ShareSession.abort, List.getElem?_modify] at hj
  obtain ⟨other, hother, rfl⟩ := Option.map_eq_some_iff.1 hj
  have hnone := h.none other (List.mem_of_getElem? hother)
  split
  · exact hnone
  · exact hnone

/-- The share that is registered is the one there is. -/
theorem Inv.held_of_stream (hinv : s.Inv) (h : s.stream = some k) :
    s.leave = .staying ∧ ∃ task, s.Held k task ∧ task.streaming = true := by
  rcases hinv.2 with hfree | ⟨j, task, hheld⟩
  · rw [hfree.stream] at h
    cases h
  · rw [hheld.stream] at h
    split_ifs at h with hcond
    obtain rfl := Option.some.inj h
    exact ⟨hcond.1, task, hheld, hcond.2⟩

/-- A request holds nothing yet. -/
theorem Inv.request (hinv : s.Inv) {enabled : Bool} (h : s.step (.request enabled) = some s') : s'.Inv := by
  simp only [ShareSession.step] at h
  split at h
  · rename_i hstaying hidle
    split at h
    · rename_i k hstream
      obtain rfl := Option.some.inj h
      obtain ⟨_, task, hheld, _⟩ := hinv.held_of_stream hstream
      refine ⟨hinv.1, .inr ⟨k, { task with aborted := true }, ?_⟩⟩
      refine hheld.set (abort_eq_set hheld.at') hheld.active ?_ hheld.listed ?_ (fun hs => by cases hs) hheld.leaving
      · exact (if_neg fun hcond => by cases hcond.2).symm
      · intro j hj
        cases hj
        rfl
    · obtain rfl := Option.some.inj h
      split
      · exact hinv.of_same rfl rfl rfl rfl (fun _ h => h) hinv.1
      · exact hinv
  · cases h

/-- The viewers are detached at the end of the share there is, if there is one. -/
theorem Inv.harm_deattachAll (hinv : s.Inv) (h : ∀ j task, s.Held j task → k = j) : (s.deattachAll k).harm = [] := by
  unfold deattachAll
  dsimp only
  rw [hinv.1, hinv.harms_eq_nil h]
  rfl

/-- One share holds the session. -/
theorem Held.eq_of_held (h : s.Held k task) {j : ℕ} {other : ShareTask} (h' : s.Held j other) : k = j :=
  h'.only k task h.at' h.active

/-- The stream is taken by the share that holds it. -/
theorem Inv.takeStream (hinv : s.Inv) (h : s.step (.takeStream k) = some s') : s'.Inv := by
  obtain ⟨task, hheld, hphase, rfl⟩ := hinv.held_of_advance rfl h
  have hlisted : s.listed = some k := by
    rw [hheld.listed, hphase]
    rfl
  unfold ShareSession.takeStream
  split
  · refine ⟨hinv.1, .inr ⟨k, { task with phase := .taken }, hheld.goto rfl ?_ hlisted fun hs => ?_⟩⟩
    · refine (if_neg fun hcond => ?_).symm
      simp [ShareTask.streaming] at hcond
    · simp [ShareTask.streaming] at hs
  · -- The share has been stopped, and is no longer registered.
    rename_i hnot
    have hstream : s.stream = none := by
      by_contra hsome
      obtain ⟨j, hj⟩ := Option.ne_none_iff_exists'.1 hsome
      exact hnot j (hinv.held_of_stream hj).1 hj
    refine ⟨hinv.1, .inr ⟨k, { task with phase := .dropping }, hheld.goto rfl ?_ hlisted fun hs => ?_⟩⟩
    · rw [hstream]
      refine (if_neg fun hcond => ?_).symm
      simp [ShareTask.streaming] at hcond
    · simp [ShareTask.streaming] at hs

/-- The last part of the guard finds no share registered. -/
theorem Inv.release (hinv : s.Inv) (h : s.step (.release k) = some s') : s'.Inv := by
  obtain ⟨task, hheld, hphase, rfl⟩ := hinv.held_of_advance rfl h
  have hstream : s.stream = none := by
    rw [hheld.stream]
    refine if_neg fun hcond => ?_
    simp [ShareTask.streaming, hphase] at hcond
  have hlisted : s.listed = none := by
    rw [hheld.listed, hphase]
    rfl
  unfold ShareSession.release
  split
  · rename_i hsome
    rw [hstream] at hsome
    cases hsome
  · have hended : ({ task with phase := .ended } : ShareTask).phase.active = false := rfl
    exact ⟨hinv.1, .inl (hheld.ended rfl hended hstream hlisted)⟩

/-- A share that is no longer listed is closing. -/
theorem Inv.unlist (hinv : s.Inv) (h : s.step (.unlist k) = some s') : s'.Inv := by
  obtain ⟨task, hheld, hphase, rfl⟩ := hinv.held_of_advance rfl h
  have hharm : s.harm ++ s.harms k s.listed.toList = [] := by
    rw [hinv.1, hinv.harms_eq_nil fun j other hother => hheld.eq_of_held hother]
    rfl
  refine ⟨hharm, .inr ⟨k, { task with phase := .unlisted }, hheld.goto rfl ?_ rfl fun hs => ?_⟩⟩
  · rw [hheld.stream]
    have hnot : task.streaming = false := by simp [ShareTask.streaming, hphase]
    rw [hnot]
    simp [ShareTask.streaming]
  · simp [ShareTask.streaming] at hs

/-- A place of the task at which it is neither registered nor left differently in `SHARES`. -/
theorem Inv.goto (hinv : s.Inv) (hheld : s.Held k task) {phase : SharePhase} (hactive : phase.active = true)
    (hshared : phase.shared = task.phase.shared)
    (hstreaming : ({ task with phase } : ShareTask).streaming = task.streaming) : (s.goto k task phase).Inv := by
  refine ⟨hinv.1, .inr ⟨k, { task with phase }, hheld.goto hactive ?_ ?_ fun hs => hstreaming ▸ hs⟩⟩
  · rw [hstreaming]
    exact hheld.stream
  · rw [hshared]
    exact hheld.listed

/-- A share that is cancelled is the one that holds the session. -/
theorem Inv.cancel (hinv : s.Inv) (h : s.step (.cancel k) = some s') : s'.Inv := by
  obtain ⟨task, hk, h⟩ := Option.bind_eq_some_iff.1 h
  split_ifs at h with hcond
  obtain ⟨haborted, hphase⟩ := hcond
  obtain rfl := Option.some.inj h
  have hactive : task.phase.active = true := by
    rcases hphase with hphase | hphase
    · rw [hphase]
      rfl
    · rw [hphase]
      rfl
  have hshared : SharePhase.dropping.shared = task.phase.shared := by
    rcases hphase with hphase | hphase
    · rw [hphase]
      rfl
    · rw [hphase]
      rfl
  have hstreaming : ({ task with phase := .dropping } : ShareTask).streaming = task.streaming := by
    simp [ShareTask.streaming, haborted]
  exact hinv.goto (hinv.held_of_active hk hactive) rfl hshared hstreaming

/-- The session ends: its connection is out of the table. -/
theorem Inv.disconnect (hinv : s.Inv) (h : s.step .disconnect = some s') : s'.Inv := by
  simp only [ShareSession.step] at h
  split at h
  case h_2 => cases h
  rename_i hstaying
  obtain rfl := Option.some.inj h
  refine ⟨hinv.1, ?_⟩
  rcases hinv.2 with hfree | ⟨k, task, hheld⟩
  · exact .inl ⟨hfree.none, rfl, hfree.listed⟩
  · have hstream := hheld.stream
    rw [hstaying] at hstream
    refine .inr ⟨k, task, hheld.at', hheld.active, hheld.only, ?_, hheld.listed, hheld.handler, fun hs _ => ?_, ?_⟩
    · exact (if_neg fun hcond => by cases hcond.1).symm
    · rw [if_pos ⟨rfl, hs⟩] at hstream
      rw [hstream]
    · rintro j (hj | hj)
      · have hj : s.stream = some j := ShareLeave.removed.inj hj
        rw [hstream] at hj
        split_ifs at hj
        exact (Option.some.inj hj).symm
      · cases hj

/-- The end of the session aborts the share that was registered. -/
theorem Inv.leaveAbort (hinv : s.Inv) (h : s.step .leaveAbort = some s') : s'.Inv := by
  simp only [ShareSession.step] at h
  split at h
  · rename_i k hremoved
    obtain rfl := Option.some.inj h
    refine ⟨hinv.1, ?_⟩
    rcases hinv.2 with hfree | ⟨j, task, hheld⟩
    · exact .inl (hfree.abort rfl rfl rfl)
    · obtain rfl := hheld.leaving k (.inl hremoved)
      refine .inr ⟨k, { task with aborted := true }, hheld.set (abort_eq_set hheld.at') hheld.active ?_ hheld.listed
        hheld.handler (fun hs => by cases hs) ?_⟩
      · rw [if_neg fun hcond => by cases hcond.1]
        have hstream := hheld.stream
        rwa [hremoved, if_neg fun hcond => by cases hcond.1] at hstream
      · rintro j (hj | hj) <;> cases hj
        rfl
  · rename_i hremoved
    obtain rfl := Option.some.inj h
    refine ⟨hinv.1, ?_⟩
    rcases hinv.2 with hfree | ⟨k, task, hheld⟩
    · exact .inl ⟨hfree.none, hfree.stream, hfree.listed⟩
    · have hstream := hheld.stream
      rw [hremoved, if_neg fun hcond => by cases hcond.1] at hstream
      refine .inr ⟨k, task, hheld.at', hheld.active, hheld.only, ?_, hheld.listed, hheld.handler, fun hs hne => ?_, ?_⟩
      · exact hstream.trans (if_neg fun hcond => by cases hcond.1).symm
      · have hleave := hheld.removed hs (by rw [hremoved]; exact fun h => by cases h)
        rw [hremoved] at hleave
        cases hleave
      · rintro j (hj | hj) <;> cases hj
  · cases h

/-- A client who leaves holds nothing. -/
theorem Inv.leaveDeattach (hinv : s.Inv) (h : s.step .leaveDeattach = some s') : s'.Inv := by
  simp only [ShareSession.step] at h
  split at h
  case h_2 => cases h
  rename_i k hdetaching
  obtain rfl := Option.some.inj h
  refine ⟨hinv.harm_deattachAll fun j task hheld => hheld.leaving k (.inr hdetaching), ?_⟩
  rcases hinv.2 with hfree | ⟨j, task, hheld⟩
  · exact .inl ⟨hfree.none, hfree.stream, hfree.listed⟩
  · have hstream := hheld.stream
    rw [hdetaching, if_neg fun hcond => by cases hcond.1] at hstream
    refine .inr ⟨j, task, hheld.at', hheld.active, hheld.only, ?_, hheld.listed, hheld.handler, fun hs hne => ?_, ?_⟩
    · exact hstream.trans (if_neg fun hcond => by cases hcond.1).symm
    · have hleave := hheld.removed hs (by rw [hdetaching]; exact fun h => by cases h)
      rw [hdetaching] at hleave
      cases hleave
    · rintro j (hj | hj) <;> cases hj

/-- **Every action of shares that follow each other keeps the invariant.** -/
theorem Inv.step (hinv : s.Inv) {action : ShareAction} (hcond : s.Sequential action)
    (h : s.step action = some s') : s'.Inv := by
  cases action with
  | request enabled => exact hinv.request h
  | stopDeattach =>
    simp only [ShareSession.step] at h
    split at h
    · rename_i k hstopping
      obtain rfl := Option.some.inj h
      refine hinv.of_same rfl rfl rfl rfl (fun j hj => by cases hj) ?_
      exact hinv.harm_deattachAll fun j task hheld => hheld.handler k hstopping
    · cases h
  | expire =>
    obtain rfl := Option.some.inj h
    exact hinv.of_same rfl rfl rfl rfl (fun _ h => h) hinv.1
  | accept =>
    simp only [ShareSession.step] at h
    split_ifs at h
    obtain rfl := Option.some.inj h
    refine ⟨hinv.1, ?_⟩
    rcases hinv.2 with hfree | ⟨k, task, hheld⟩
    · refine .inl ⟨fun t ht => ?_, hfree.stream, hfree.listed⟩
      rcases List.mem_append.1 ht with ht | ht
      · exact hfree.none t ht
      · rw [List.mem_singleton.1 ht]
        rfl
    · refine .inr ⟨k, task, ?_, hheld.active, fun j t hj hactive => ?_, hheld.stream, hheld.listed, hheld.handler,
        hheld.removed, hheld.leaving⟩
      · exact (List.getElem?_append_left (List.getElem?_eq_some_iff.1 hheld.at').1).trans hheld.at'
      · rcases Nat.lt_or_ge j s.tasks.length with hlt | hge
        · exact hheld.only j t ((List.getElem?_append_left hlt).symm.trans hj) hactive
        · have hj := (List.getElem?_append_right hge).symm.trans hj
          rw [List.mem_singleton.1 (List.mem_of_getElem? hj)] at hactive
          cases hactive
  | register k => exact hinv.register hcond h
  | list k =>
    obtain ⟨task, hheld, hphase, rfl⟩ := hinv.held_of_advance rfl h
    have hstreaming : ({ task with phase := .relaying } : ShareTask).streaming = task.streaming := by
      simp [ShareTask.streaming, hphase]
    refine ⟨hinv.1, .inr ⟨k, { task with phase := .relaying }, hheld.goto rfl ?_ rfl fun hs => hstreaming ▸ hs⟩⟩
    rw [hstreaming]
    exact hheld.stream
  | hangUp k =>
    obtain ⟨task, hheld, hphase, rfl⟩ := hinv.held_of_advance rfl h
    exact hinv.goto hheld rfl (by rw [hphase]; rfl) (by simp [ShareTask.streaming, hphase])
  | takeStream k => exact hinv.takeStream h
  | deattach k =>
    obtain ⟨task, hheld, hphase, rfl⟩ := hinv.held_of_advance rfl h
    have hinv' : (s.deattachAll k).Inv :=
      hinv.of_same rfl rfl rfl rfl (fun _ h => h) (hinv.harm_deattachAll fun j other hother => hheld.eq_of_held hother)
    exact hinv'.goto (hinv'.held_of_active hheld.at' hheld.active) rfl (by rw [hphase]; rfl)
      (by simp [ShareTask.streaming, hphase])
  | finish k =>
    obtain ⟨task, hheld, hphase, rfl⟩ := hinv.held_of_advance rfl h
    exact hinv.goto hheld rfl (by rw [hphase]; rfl) (by simp [ShareTask.streaming, hphase])
  | cancel k => exact hinv.cancel h
  | unlist k => exact hinv.unlist h
  | release k => exact hinv.release h
  | disconnect => exact hinv.disconnect h
  | leaveAbort => exact hinv.leaveAbort h
  | leaveDeattach => exact hinv.leaveDeattach h
  | attach client =>
    obtain rfl := Option.some.inj h
    exact hinv.of_same rfl rfl rfl rfl (fun _ h => h) hinv.1
  | join client =>
    simp only [ShareSession.step] at h
    split_ifs at h
    · obtain rfl := Option.some.inj h
      exact hinv.of_same rfl rfl rfl rfl (fun _ h => h) hinv.1
    · obtain rfl := Option.some.inj h
      exact hinv
  | deattachClient client =>
    obtain rfl := Option.some.inj h
    exact hinv.of_same rfl rfl rfl rfl (fun _ h => h) hinv.1

/-! ### Every run -/

/-- Between the operations the connection has a share exactly when `SHARES` has one that is
running. -/
theorem Inv.listed (hinv : s.Inv) (hquiet : s.Quiet) :
    s.stream.isSome = true ↔ ∃ k, s.listed = some k ∧ s.running k = true := by
  obtain ⟨_, hleave, htasks⟩ := hquiet
  constructor
  · intro hsome
    obtain ⟨k, hk⟩ := Option.isSome_iff_exists.1 hsome
    obtain ⟨_, task, hheld, hstreaming⟩ := hinv.held_of_stream hk
    rcases htasks task (List.mem_of_getElem? hheld.at') with hphase | ⟨hphase, haborted⟩
    · have hactive := hheld.active
      rw [hphase] at hactive
      cases hactive
    · refine ⟨k, ?_, ?_⟩
      · rw [hheld.listed, hphase]
        rfl
      · unfold running
        rw [hheld.at']
        exact decide_eq_true ⟨haborted, .inr hphase⟩
  · rintro ⟨k, hk, hrunning⟩
    obtain ⟨task, hat, hactive, hstreaming⟩ := active_of_running hrunning
    have hheld := hinv.held_of_active hat hactive
    have hstaying : s.leave = .staying := by
      rcases hleave with hleave | hleave
      · exact hleave
      · have hremoved := hheld.removed hstreaming (by rw [hleave]; exact fun h => by cases h)
        rw [hleave] at hremoved
        cases hremoved
    rw [hheld.stream, if_pos ⟨hstaying, hstreaming⟩]
    rfl

/-- **Shares of one session stay apart**, in every run in which a share is registered only
when every earlier one has ended and no stop is still to detach its viewers. -/
theorem shares_apart (actions : List ShareAction) {s : ShareSession} (hmeets : Meets step Sequential start actions)
    (hrun : exec step start actions = some s) : s.Apart := by
  have hstart : start.Inv := ⟨rfl, .inl ⟨fun _ h => (nomatch h), rfl, rfl⟩⟩
  have hinv : s.Inv := exec_induct (fun _ _ _ hinv => hinv.step) hstart hmeets hrun
  exact ⟨hinv.1, hinv.listed⟩

/-- Two tokens are given out.  The share of the first is stopped and ends, and the socket of
the second is opened after that. -/
def oneAfterAnother : List ShareAction :=
  [.request true, .accept, .request true, .register 0, .list 0, .attach 7, .join 7, .request true, .stopDeattach,
    .cancel 0, .unlist 0, .release 0, .accept, .register 1, .list 1, .attach 7, .join 7]

/-- The theorem on that run: the second share is registered and listed. -/
theorem shares_apart_one_after_another : ∃ s : ShareSession,
    exec step start oneAfterAnother = some s ∧ Meets step Sequential start oneAfterAnother ∧ s.Apart ∧
      s.stream = some 1 ∧ s.listed = some 1 := by
  have hvalues : (exec step start oneAfterAnother).map (fun s => (s.stream, s.listed)) = some (some 1, some 1) := by
    decide
  obtain ⟨s, hs, hvalue⟩ := Option.map_eq_some_iff.1 hvalues
  have hmeets : Meets step Sequential start oneAfterAnother := by decide
  obtain ⟨hstream, hlisted⟩ := Prod.mk.inj hvalue
  exact ⟨s, hs, hmeets, shares_apart oneAfterAnother hmeets hs, hstream, hlisted⟩

end ShareSession

end Why2
