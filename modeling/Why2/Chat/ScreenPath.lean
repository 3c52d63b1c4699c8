/-
# From the sharer's encoder to a viewer's decoder

A viewer's window takes the frames that have come in a batch at a time and decodes
from the newest keyframe of the batch on (`process_pending_frames`,
`chat/src/network/screen/client/display.rs`).  A batch without one is dropped if it is
too old, or if something was dropped before; so is the rest of a batch after a frame
the decoder rejects.  The window then wants a keyframe, and tells the sharer so until
one has been decoded (`Session.Asks`).

Together with the sharer (`Why2.Chat.Sharing`) and the relay (`Why2.Chat.Screen`) this is
the path of a share.  On it frames are dropped in many places, by each party on its own.
Still, a decoder is given a predicted frame only right after the frame it was predicted
from (`fed_decodable`), if no mute of the relay ends with a predicted frame.
-/

import Why2.Chat.Sharing

namespace Why2

open Lib

/-- An H.264 decoder: `decode` fails, or says whether there is a picture. -/
structure VideoDecoder where
  Decoder : Type
  new : Decoder
  decode : Decoder → List U8 → Option Bool × Decoder

/-- `Session`, and `needs_key` of its reports; `fed` is what its decoder was given and `uploaded`
what was drawn. -/
structure Session (d : VideoDecoder) where
  pending : List Frame
  decoder : d.Decoder
  awaitingKey : Bool
  needsKey : Bool
  fed : List Frame
  uploaded : List Frame

namespace Session

variable {d : VideoDecoder}

/-- `create_session`. -/
def create (d : VideoDecoder) : Session d := ⟨[], d.new, false, false, [], []⟩

/-- `request_keyframe`, after something was dropped. -/
def request (s : Session d) : Session d := { s with awaitingKey := true, needsKey := true }

/-- `rposition` of a keyframe. -/
def lastKey (batch : List Frame) : Option ℕ :=
  (batch.reverse.findIdx? fun frame => isKeyframe frame.data).map (batch.length - 1 - ·)

/-- The frames are decoded in turn; only the newest one is drawn. -/
def decodeAll (s : Session d) : List Frame → Session d
  | [] => s
  | frame :: frames =>
    match d.decode s.decoder frame.data with
    -- The references are gone.
    | (none, decoder) => { s with decoder, fed := s.fed ++ [frame] }.request
    | (some false, decoder) => decodeAll { s with decoder, fed := s.fed ++ [frame] } frames
    | (some true, decoder) =>
      let s := if isKeyframe frame.data then { s with awaitingKey := false, needsKey := false } else s
      let uploaded := if frames.isEmpty then s.uploaded ++ [frame] else s.uploaded
      decodeAll { s with decoder, fed := s.fed ++ [frame], uploaded } frames

/-- `process_pending_frames` with the frames that have come in by then, the first of which may
be older than `STALE_FRAME_AGE`. -/
def process (s : Session d) (count : ℕ) (stale : Bool) : Session d :=
  let batch := s.pending.take count
  let s := { s with pending := s.pending.drop count }
  if batch.isEmpty then s
  else
    match lastKey batch with
    | some start => s.decodeAll (batch.drop start)
    | none =>
      if stale then s.request
      else if s.awaitingKey then { s with needsKey := true }
      else s.decodeAll batch

/-! ### What a decoder is given -/

variable {s : Session d} {frames received : List Frame}

/-- The newest keyframe is a keyframe. -/
theorem lastKey_eq_some {batch : List Frame} {k : ℕ} (h : lastKey batch = some k) :
    ∃ frame rest, batch.drop k = frame :: rest ∧ frame.Key := by
  obtain ⟨i, hi, rfl⟩ := Option.map_eq_some_iff.1 h
  obtain ⟨hlt, hkey, -⟩ := List.findIdx?_eq_some_iff_getElem.1 hi
  rw [List.length_reverse] at hlt
  have hk : batch.length - 1 - i < batch.length := by omega
  refine ⟨batch[batch.length - 1 - i], _, List.drop_eq_getElem_cons hk, ?_⟩
  rwa [List.getElem_reverse] at hkey

/-- What decoding a batch does: the decoder is given a first part of it, and all of it unless
the session waits for a keyframe in the end. -/
theorem decodeAll_fed (s : Session d) (frames : List Frame) :
    (s.decodeAll frames).pending = s.pending ∧
      ∃ given rest, frames = given ++ rest ∧ (s.decodeAll frames).fed = s.fed ++ given ∧
        ((s.decodeAll frames).awaitingKey = false → rest = []) := by
  induction frames generalizing s with
  | nil => exact ⟨rfl, [], [], rfl, (List.append_nil _).symm, fun _ => rfl⟩
  | cons frame frames ih =>
    rw [decodeAll]
    split
    · refine ⟨rfl, [frame], frames, rfl, rfl, fun h => ?_⟩
      cases h
    · rename_i decoder _
      obtain ⟨hpending, given, rest, rfl, hfed, hrest⟩ := ih { s with decoder, fed := s.fed ++ [frame] }
      exact ⟨hpending, frame :: given, rest, rfl, hfed.trans (List.append_assoc ..), hrest⟩
    · rename_i decoder _
      dsimp only
      generalize hkey : (if isKeyframe frame.data then { s with awaitingKey := false, needsKey := false } else s) = t
      have ht : t.pending = s.pending ∧ t.fed = s.fed := by
        split_ifs at hkey
        · exact hkey ▸ ⟨rfl, rfl⟩
        · exact hkey ▸ ⟨rfl, rfl⟩
      obtain ⟨hpending, given, rest, rfl, hfed, hrest⟩ := ih
        { t with
          decoder, fed := t.fed ++ [frame]
          uploaded := if frames.isEmpty then t.uploaded ++ [frame] else t.uploaded }
      refine ⟨hpending.trans ht.1, frame :: given, rest, rfl, hfed.trans ?_, hrest⟩
      rw [ht.2]
      exact List.append_assoc ..

/-- A session that waits for a keyframe says so. -/
def Asks (s : Session d) : Prop := s.awaitingKey = true → s.needsKey = true

/-- Decoding leaves a session that waits asking. -/
theorem Asks.decodeAll (h : s.Asks) (frames : List Frame) : (s.decodeAll frames).Asks := by
  induction frames generalizing s with
  | nil => exact h
  | cons frame frames ih =>
    rw [Session.decodeAll]
    split
    · exact fun _ => rfl
    · exact ih h
    · refine ih ?_
      by_cases hkey : isKeyframe frame.data = true
      · rw [if_pos hkey]
        exact fun h => Bool.noConfusion h
      · rw [if_neg hkey]
        exact h

/-- So does a batch. -/
theorem Asks.process (h : s.Asks) (count : ℕ) (stale : Bool) : (s.process count stale).Asks := by
  have hrest : ({ s with pending := s.pending.drop count } : Session d).Asks := h
  unfold Session.process
  dsimp only
  split
  · exact hrest
  · split
    · exact hrest.decodeAll _
    · split_ifs
      · exact fun _ => rfl
      · exact fun _ => rfl
      · exact hrest.decodeAll _

/-- What holds of a session that has received these frames. -/
structure Inv (s : Session d) (received : List Frame) : Prop where
  taken : ∃ consumed, received = consumed ++ s.pending ∧
    (s.awaitingKey = false → s.fed.getLast? = consumed.getLast?)
  fed : s.fed ⊆ received
  sound : Restarting Frame.Key Frame.Next s.fed
  asks : s.Asks

/-- **A batch is decoded** from a keyframe on, or from where the decoder is. -/
theorem inv_decodeAll (s : Session d) (consumed skipped : List Frame)
    (hreceived : Restarting Frame.Key Frame.Next received)
    (hsplit : received = consumed ++ (skipped ++ frames) ++ s.pending) (hne : frames ≠ [])
    (hincl : s.fed ⊆ received) (hsound : Restarting Frame.Key Frame.Next s.fed) (hasks : s.Asks)
    (hhead : ∀ frame ∈ frames.head?, frame.Key ∨ skipped = [] ∧ s.fed.getLast? = consumed.getLast?) :
    (s.decodeAll frames).Inv received := by
  obtain ⟨hpending, given, rest, rfl, hfed, hrest⟩ := decodeAll_fed s frames
  have hchain := hreceived.chain
  rw [hsplit] at hchain
  have hbatch := (List.isChain_append.1 hchain.left_of_append).2.1.right_of_append
  refine ⟨⟨consumed ++ (skipped ++ (given ++ rest)), ?_, fun hawaits => ?_⟩, ?_, ?_, hasks.decodeAll _⟩
  · rw [hpending]
    exact hsplit
  · obtain rfl := hrest hawaits
    rw [List.append_nil] at hne hfed ⊢
    rw [hfed, List.getLast?_append_of_ne_nil _ hne, ← List.append_assoc, List.getLast?_append_of_ne_nil _ hne]
  · rw [hfed]
    refine List.append_subset.2 ⟨hincl, fun frame hframe => ?_⟩
    rw [hsplit]
    refine List.mem_append_left _ (List.mem_append_right _ (List.mem_append_right _ (List.mem_append_left _ hframe)))
  · rw [hfed]
    refine hsound.append hbatch.left_of_append fun frame hframe => ?_
    have hfirst : frame ∈ (given ++ rest).head? := by
      obtain ⟨rest', rfl⟩ := List.head?_eq_some_iff.1 hframe
      rfl
    rcases hhead frame hfirst with hkey | ⟨rfl, hlast⟩
    · exact ⟨fun _ => hkey, fun _ _ => .inl hkey⟩
    · rw [List.nil_append, List.append_assoc] at hsplit
      constructor
      · intro hnil
        rw [hnil] at hlast
        rw [List.getLast?_eq_none_iff.1 hlast.symm, List.nil_append] at hsplit
        refine hreceived.head frame ?_
        rw [hsplit, List.head?_append, hfirst]
        rfl
      · intro last hmem
        rw [hlast] at hmem
        exact (List.isChain_append.1 hchain.left_of_append).2.2 last hmem frame (by rwa [List.nil_append])

/-- **A batch keeps the invariant**, whichever frames of it are decoded. -/
theorem Inv.process (hreceived : Restarting Frame.Key Frame.Next received) (h : s.Inv received) (count : ℕ)
    (stale : Bool) : (s.process count stale).Inv received := by
  obtain ⟨consumed, hsplit, hlast⟩ := h.taken
  have hbatch : received = consumed ++ s.pending.take count ++ s.pending.drop count := by
    rw [List.append_assoc, List.take_append_drop]
    exact hsplit
  unfold Session.process
  dsimp only
  split
  · rename_i hempty
    refine ⟨⟨consumed, ?_, hlast⟩, h.fed, h.sound, h.asks⟩
    rw [List.isEmpty_iff.1 hempty, List.append_nil] at hbatch
    exact hbatch
  · rename_i hempty
    have hne : s.pending.take count ≠ [] := fun hnil => hempty (List.isEmpty_iff.2 hnil)
    split
    · rename_i start hstart
      obtain ⟨frame, rest, hdrop, hkey⟩ := lastKey_eq_some hstart
      refine inv_decodeAll { s with pending := s.pending.drop count } consumed ((s.pending.take count).take start)
        hreceived ?_ ?_ h.fed h.sound h.asks ?_
      · rw [List.take_append_drop]
        exact hbatch
      · rw [hdrop]
        exact List.cons_ne_nil _ _
      · rw [hdrop]
        rintro _ ⟨⟩
        exact .inl hkey
    · split_ifs with hstale hawaits
      · exact ⟨⟨consumed ++ s.pending.take count, hbatch, fun h => Bool.noConfusion h⟩, h.fed, h.sound, fun _ => rfl⟩
      · refine ⟨⟨consumed ++ s.pending.take count, hbatch, fun h => ?_⟩, h.fed, h.sound, fun _ => rfl⟩
        have hfalse : s.awaitingKey = false := h
        rw [hawaits] at hfalse
        cases hfalse
      · exact inv_decodeAll { s with pending := s.pending.drop count } consumed [] hreceived hbatch hne h.fed h.sound
          h.asks fun _ _ => .inr ⟨rfl, hlast (Bool.eq_false_iff.2 hawaits)⟩

/-- So does a frame that is received. -/
theorem Inv.receive (h : s.Inv received) (frame : Frame) :
    ({ s with pending := s.pending ++ [frame] } : Session d).Inv (received ++ [frame]) := by
  obtain ⟨consumed, hsplit, hlast⟩ := h.taken
  refine ⟨⟨consumed, ?_, hlast⟩, fun f hf => List.mem_append_left _ (h.fed hf), h.sound, h.asks⟩
  rw [hsplit, List.append_assoc]

/-- A new session has received nothing. -/
theorem create_inv (d : VideoDecoder) : (create d).Inv [] :=
  ⟨⟨[], rfl, fun _ => rfl⟩, List.nil_subset _, .nil, fun h => Bool.noConfusion h⟩

end Session

/-! ### What the relay makes of a frame -/

section
variable {P Q : Frame → Prop}

/-- All frames of a viewer are such. -/
structure Viewer.Holds (P : Frame → Prop) (viewer : Viewer) : Prop where
  queue : ∀ entry ∈ viewer.queue.video, P entry.1
  taken : ∀ item ∈ viewer.taken, ∀ frame ∈ item.frames, P frame
  written : ∀ frame ∈ viewer.written, P frame

/-- All frames in a share are such. -/
structure ScreenShare.Holds (P : Frame → Prop) (s : ScreenShare) : Prop where
  keyframe : ∀ frame ∈ s.keyframe, P frame
  packet : ∀ packet ∈ s.relay.packet, ∀ frame ∈ packet.frames, P frame
  viewers : ∀ viewer ∈ s.viewers, viewer.Holds P

/-- What is true of the frames may be weakened. -/
theorem Viewer.Holds.imp {viewer : Viewer} (h : viewer.Holds P) (himp : ∀ frame, P frame → Q frame) : viewer.Holds Q :=
  ⟨fun entry hentry => himp _ (h.queue entry hentry),
    fun item hitem frame hframe => himp _ (h.taken item hitem frame hframe),
    fun frame hframe => himp _ (h.written frame hframe)⟩

/-- Only the frames matter. -/
theorem Viewer.Holds.congr {viewer viewer' : Viewer} (h : viewer.Holds P)
    (hqueue : viewer'.queue.video = viewer.queue.video) (htaken : viewer'.taken = viewer.taken)
    (hwritten : viewer'.written = viewer.written) : viewer'.Holds P :=
  ⟨hqueue ▸ h.queue, htaken ▸ h.taken, hwritten ▸ h.written⟩

/-- A packet in the queue, dropped or not, brings no other frames. -/
theorem Viewer.Holds.forward {viewer : Viewer} (h : viewer.Holds P) (id : ℕ) {packet : Queued}
    (hpacket : ∀ frame ∈ packet.frames, P frame) : (viewer.forward id packet).Holds P := by
  cases packet with
  | video frame =>
    have hframe : P frame := hpacket frame (List.mem_singleton_self frame)
    show (viewer.forwardVideo frame).Holds P
    rcases Viewer.forwardVideo_cases viewer frame with ⟨-, heq⟩ | ⟨video, needsKey, heq, hcases⟩
    · rw [heq]
      exact h
    · rw [heq]
      refine ⟨fun entry hentry => ?_, h.taken, h.written⟩
      rcases hcases with ⟨-, rfl⟩ | ⟨-, rfl⟩ | ⟨-, rfl | rfl⟩
      · exact List.mem_singleton.1 hentry ▸ hframe
      · rcases List.mem_append.1 hentry with hentry | hentry
        · exact h.queue entry hentry
        · exact List.mem_singleton.1 hentry ▸ hframe
      · exact h.queue entry hentry
      · exact absurd hentry List.not_mem_nil
  | audio data =>
    unfold Viewer.forward
    dsimp only
    split
    · exact h
    · exact h.congr rfl rfl rfl

/-- The writer takes a packet out of the queue. -/
theorem Viewer.Holds.take {viewer : Viewer} (h : viewer.Holds P) {item : Queued} {queue : ViewerQueue}
    (hnext : viewer.queue.next = some (item, queue)) :
    ({ viewer with queue, taken := some item } : Viewer).Holds P := by
  unfold ViewerQueue.next at hnext
  split at hnext
  · obtain ⟨rfl, rfl⟩ := Prod.mk.inj (Option.some.inj hnext)
    refine ⟨h.queue, ?_, h.written⟩
    rintro _ ⟨⟩ frame hmem
    exact absurd hmem List.not_mem_nil
  · split at hnext
    · rename_i frame key video hvideo
      obtain ⟨rfl, rfl⟩ := Prod.mk.inj (Option.some.inj hnext)
      have hqueue := h.queue
      rw [hvideo] at hqueue
      refine ⟨fun entry hentry => hqueue entry (List.mem_cons_of_mem _ hentry), ?_, h.written⟩
      rintro _ ⟨⟩ f hmem
      exact List.mem_singleton.1 hmem ▸ hqueue (frame, key) List.mem_cons_self
    · cases hnext

/-- The writer is done with a packet. -/
theorem Viewer.Holds.write {viewer : Viewer} (h : viewer.Holds P) {item : Queued} (htaken : viewer.taken = some item)
    (ok : Bool) : (viewer.write item ok).Holds P := by
  have hnone : ∀ item' ∈ (none : Option Queued), ∀ frame ∈ item'.frames, P frame := fun _ h =>
    absurd h (Option.not_mem_none _)
  cases ok with
  | true =>
    cases item with
    | video frame =>
      refine ⟨h.queue, hnone, fun f hmem => ?_⟩
      rcases List.mem_append.1 hmem with hmem | hmem
      · exact h.written f hmem
      · exact h.taken _ htaken f hmem
    | audio data => exact ⟨h.queue, hnone, h.written⟩
  | false => exact ⟨h.queue, hnone, h.written⟩

namespace ScreenShare

variable {animation : List (List U8)} {s s' : ScreenShare} {k : ℕ} {viewer viewer' : Viewer}

/-- What is true of the frames of a share may be weakened. -/
theorem Holds.imp (h : s.Holds P) (himp : ∀ frame, P frame → Q frame) : s.Holds Q :=
  ⟨fun frame hframe => himp _ (h.keyframe frame hframe),
    fun packet hpacket frame hframe => himp _ (h.packet packet hpacket frame hframe),
    fun viewer hviewer => (h.viewers viewer hviewer).imp himp⟩

/-- One viewer may change, if its frames are such. -/
theorem Holds.set (h : s.Holds P) (hviewer : viewer'.Holds P) :
    ({ s with viewers := s.viewers.set k viewer' } : ScreenShare).Holds P := by
  refine ⟨h.keyframe, h.packet, fun v hv => ?_⟩
  rcases List.mem_or_eq_of_mem_set hv with hv | rfl
  · exact h.viewers v hv
  · exact hviewer

/-- Viewers that are adopted have their frames. -/
theorem holds_adoptOne {viewers : List Viewer} (h : ∀ viewer ∈ viewers, viewer.Holds P) (k : ℕ) :
    ∀ viewer ∈ adoptOne viewers k, viewer.Holds P := by
  unfold adoptOne
  split
  · rename_i viewer hk
    split
    · intro v hv
      rcases List.mem_or_eq_of_mem_set hv with hv | rfl
      · obtain ⟨other, hother, rfl⟩ := List.mem_map.1 hv
        split
        · exact (h other hother).congr rfl rfl rfl
        · exact h other hother
      · exact (h viewer (List.mem_of_getElem? hk)).congr rfl rfl rfl
    · exact h
  · exact h

/-- Adopting many is adopting one after the other. -/
theorem holds_adopt {viewers : List Viewer} (h : ∀ viewer ∈ viewers, viewer.Holds P) (pending : List ℕ) :
    ∀ viewer ∈ pending.foldl adoptOne viewers, viewer.Holds P := by
  induction pending generalizing viewers with
  | nil => exact h
  | cons k pending ih => exact ih (holds_adoptOne h k)

/-- A frame of the sharer, and the frames of the placeholder, come into the share. -/
theorem Holds.receive (h : s.Holds P) {code : ScreenPacketCode} {elapsed : ℕ}
    (hframe : ∀ data, code = .video data → P ⟨some s.frames, data⟩) (hanimation : ∀ data ∈ animation, P ⟨none, data⟩) :
    (s.receive animation code elapsed).Holds P := by
  unfold ScreenShare.receive
  split
  · exact h
  · rename_i data _
    refine ⟨h.keyframe, ?_, h.viewers⟩
    rintro _ ⟨⟩ frame hmem
    exact List.mem_singleton.1 hmem ▸ hframe data rfl
  · refine ⟨h.keyframe, ?_, h.viewers⟩
    rintro _ ⟨⟩ frame hmem
    exact absurd hmem List.not_mem_nil
  · exact h
  · have hskipped : ({ s with frames := s.frames + 1, hidden := true } : ScreenShare).Holds P :=
      ⟨h.keyframe, h.packet, h.viewers⟩
    dsimp only
    split
    · exact hskipped
    · rename_i frame hmuted
      split
      · exact hskipped
      · refine ⟨h.keyframe, ?_, h.viewers⟩
        rintro _ ⟨⟩ f hmem
        obtain rfl := List.mem_singleton.1 hmem
        unfold mutedFrame at hmuted
        split at hmuted
        · cases hmuted
        · rename_i hlen
          obtain rfl := Option.some.inj hmuted
          have hlt := Nat.mod_lt (elapsed / mutedFrameInterval) (Nat.pos_of_ne_zero hlen)
          rw [List.getD_eq_getElem _ _ hlt]
          exact hanimation _ (List.getElem_mem hlt)

/-- **The relay only passes frames on**: what holds of the frames it is sent and of the
placeholder's holds of all. -/
theorem Holds.step (h : s.Holds P) {action : ScreenAction}
    (hframe : ∀ data elapsed, action = .receive (.video data) elapsed → P ⟨some s.frames, data⟩)
    (hanimation : ∀ data ∈ animation, P ⟨none, data⟩) (hstep : s.step animation action = some s') : s'.Holds P := by
  cases action with
  | attach client token =>
    obtain rfl := Option.some.inj hstep
    refine ⟨h.keyframe, h.packet, fun v hv => ?_⟩
    rcases List.mem_append.1 hv with hv | hv
    · exact h.viewers v hv
    · obtain rfl := List.mem_singleton.1 hv
      exact ⟨fun _ h => absurd h List.not_mem_nil, fun _ h => absurd h (Option.not_mem_none _),
        fun _ h => absurd h List.not_mem_nil⟩
  | open' k =>
    obtain ⟨viewer, hk, hstep⟩ := Option.bind_eq_some_iff.1 hstep
    split at hstep
    · rename_i frame hkeyframe
      split_ifs at hstep
      obtain rfl := Option.some.inj hstep
      have hviewer := h.viewers viewer (List.mem_of_getElem? hk)
      refine h.set ⟨fun entry hentry => ?_, hviewer.taken, hviewer.written⟩
      exact List.mem_singleton.1 hentry ▸ h.keyframe frame hkeyframe
    · cases hstep
  | enlist k =>
    obtain ⟨viewer, hk, hstep⟩ := Option.bind_eq_some_iff.1 hstep
    split_ifs at hstep
    obtain rfl := Option.some.inj hstep
    have hset : ({ s with viewers := s.viewers.set k { viewer with stage := .pending } } : ScreenShare).Holds P :=
      h.set ((h.viewers viewer (List.mem_of_getElem? hk)).congr rfl rfl rfl)
    exact ⟨hset.keyframe, hset.packet, hset.viewers⟩
  | deattach client =>
    obtain rfl := Option.some.inj hstep
    exact ⟨h.keyframe, h.packet, h.viewers⟩
  | toggleMute client =>
    simp only [ScreenShare.step] at hstep
    split at hstep
    · obtain rfl := Option.some.inj hstep
      exact ⟨h.keyframe, h.packet, h.viewers⟩
    · obtain rfl := Option.some.inj hstep
      exact h
  | mute muted =>
    obtain rfl := Option.some.inj hstep
    exact ⟨h.keyframe, h.packet, h.viewers⟩
  | receive code elapsed =>
    simp only [ScreenShare.step] at hstep
    split at hstep
    · obtain rfl := Option.some.inj hstep
      exact h.receive (fun data hdata => hframe data elapsed (hdata ▸ rfl)) hanimation
    · cases hstep
  | adopt =>
    simp only [ScreenShare.step] at hstep
    split at hstep
    · rename_i packet hrelay
      obtain rfl := Option.some.inj hstep
      exact ⟨h.keyframe, fun p hp => h.packet p (hrelay ▸ hp), holds_adopt h.viewers s.pending⟩
    · cases hstep
  | collect =>
    simp only [ScreenShare.step] at hstep
    split at hstep
    · rename_i packet hrelay
      obtain rfl := Option.some.inj hstep
      exact ⟨h.keyframe, fun p hp => h.packet p (hrelay ▸ hp), h.viewers⟩
    · cases hstep
  | retain =>
    simp only [ScreenShare.step] at hstep
    split at hstep
    · rename_i packet entries hrelay
      obtain rfl := Option.some.inj hstep
      refine ⟨h.keyframe, fun p hp => h.packet p (hrelay ▸ hp), fun v hv => ?_⟩
      obtain ⟨viewer, hviewer, rfl⟩ := List.mem_map.1 hv
      have hholds := h.viewers viewer hviewer
      unfold Viewer.retain
      split
      · split
        · exact hholds.congr rfl rfl rfl
        · split
          · exact hholds.congr rfl rfl rfl
          · exact hholds.congr rfl rfl rfl
      · exact hholds
    · cases hstep
  | forward k =>
    simp only [ScreenShare.step] at hstep
    split at hstep
    · rename_i packet done hrelay
      obtain ⟨viewer, hk, hstep⟩ := Option.bind_eq_some_iff.1 hstep
      split_ifs at hstep
      obtain rfl := Option.some.inj hstep
      have hpacket := h.packet packet (hrelay ▸ rfl)
      have hset : ({ s with viewers := s.viewers.set k (viewer.forward s.id packet) } : ScreenShare).Holds P :=
        h.set ((h.viewers viewer (List.mem_of_getElem? hk)).forward s.id hpacket)
      exact ⟨hset.keyframe, fun p hp => h.packet p (hrelay ▸ hp), hset.viewers⟩
    · cases hstep
  | finish =>
    simp only [ScreenShare.step] at hstep
    split at hstep
    · rename_i packet done hrelay
      split_ifs at hstep
      obtain rfl := Option.some.inj hstep
      have hpacket := h.packet packet (hrelay ▸ rfl)
      refine ⟨fun frame hmem => ?_, fun p hp => absurd hp (Option.not_mem_none _), h.viewers⟩
      cases packet with
      | video last =>
        have hmem : (if isKeyframe last.data then some last else s.keyframe) = some frame := hmem
        split at hmem
        · obtain rfl := Option.some.inj hmem
          exact hpacket last (List.mem_singleton_self last)
        · exact h.keyframe frame hmem
      | audio data => exact h.keyframe frame hmem
    · cases hstep
  | take k =>
    obtain ⟨viewer, hk, hstep⟩ := Option.bind_eq_some_iff.1 hstep
    obtain ⟨⟨item, queue⟩, hnext, hstep⟩ := Option.bind_eq_some_iff.1 hstep
    dsimp only at hstep
    split_ifs at hstep
    obtain rfl := Option.some.inj hstep
    exact h.set ((h.viewers viewer (List.mem_of_getElem? hk)).take hnext)
  | write k ok =>
    obtain ⟨viewer, hk, hstep⟩ := Option.bind_eq_some_iff.1 hstep
    obtain ⟨item, htaken, hstep⟩ := Option.bind_eq_some_iff.1 hstep
    split_ifs at hstep
    obtain rfl := Option.some.inj hstep
    exact h.set ((h.viewers viewer (List.mem_of_getElem? hk)).write htaken ok)
  | close k =>
    obtain ⟨viewer, hk, hstep⟩ := Option.bind_eq_some_iff.1 hstep
    obtain rfl := Option.some.inj hstep
    exact h.set ((h.viewers viewer (List.mem_of_getElem? hk)).congr rfl rfl rfl)
  | stop k =>
    obtain ⟨viewer, hk, hstep⟩ := Option.bind_eq_some_iff.1 hstep
    split_ifs at hstep
    obtain rfl := Option.some.inj hstep
    have hviewer := h.viewers viewer (List.mem_of_getElem? hk)
    exact h.set ⟨hviewer.queue, fun _ h => absurd h (Option.not_mem_none _), hviewer.written⟩

/-! ### What is written stays written -/

/-- Every viewer keeps its place and what was written to it. -/
def Grown (viewers viewers' : List Viewer) : Prop :=
  ∀ (k : ℕ) (viewer : Viewer), viewers[k]? = some viewer →
    ∃ viewer' : Viewer, viewers'[k]? = some viewer' ∧ viewer.written <+: viewer'.written

/-- Nothing has to be written. -/
theorem Grown.refl (viewers : List Viewer) : Grown viewers viewers :=
  fun _ viewer h => ⟨viewer, h, List.prefix_rfl⟩

/-- What grows goes on growing. -/
theorem Grown.trans {viewers viewers' viewers'' : List Viewer} (h : Grown viewers viewers')
    (h' : Grown viewers' viewers'') : Grown viewers viewers'' := by
  intro k viewer hk
  obtain ⟨viewer', hk', hwritten⟩ := h k viewer hk
  obtain ⟨viewer'', hk'', hwritten'⟩ := h' k viewer' hk'
  exact ⟨viewer'', hk'', hwritten.trans hwritten'⟩

/-- One viewer may be written more. -/
theorem Grown.set {viewers : List Viewer} (hk : viewers[k]? = some viewer) (h : viewer.written <+: viewer'.written) :
    Grown viewers (viewers.set k viewer') := by
  intro i v hi
  rcases eq_or_ne k i with rfl | hne
  · obtain rfl := Option.some.inj (hk.symm.trans hi)
    exact ⟨viewer', List.getElem?_set_self (List.getElem?_eq_some_iff.1 hk).1, h⟩
  · exact ⟨v, (List.getElem?_set_ne hne).trans hi, List.prefix_rfl⟩

/-- A change of the queues writes nothing. -/
theorem Grown.map {viewers : List Viewer} {f : Viewer → Viewer} (h : ∀ viewer, (f viewer).written = viewer.written) :
    Grown viewers (viewers.map f) := by
  intro k viewer hk
  refine ⟨f viewer, ?_, (h viewer).symm ▸ List.prefix_rfl⟩
  rw [List.getElem?_map, hk]
  rfl

/-- An adoption writes nothing. -/
theorem grown_adoptOne (viewers : List Viewer) (k : ℕ) : Grown viewers (adoptOne viewers k) := by
  unfold adoptOne
  split
  · rename_i viewer hk
    split
    · have hmap : ∀ other : Viewer, (if other.stage = .serving ∧ other.client = viewer.client then
          { other with stage := .dropped } else other).written = other.written := by
        intro other
        split
        · rfl
        · rfl
      refine (Grown.map hmap).trans ?_
      have hat := congrArg (Option.map fun other : Viewer =>
        if other.stage = .serving ∧ other.client = viewer.client then { other with stage := .dropped } else other) hk
      rw [← List.getElem?_map] at hat
      exact Grown.set hat (hmap viewer ▸ List.prefix_rfl)
    · exact Grown.refl viewers
  · exact Grown.refl viewers

/-- Nor do many. -/
theorem grown_adopt (viewers : List Viewer) (pending : List ℕ) : Grown viewers (pending.foldl adoptOne viewers) := by
  induction pending generalizing viewers with
  | nil => exact Grown.refl viewers
  | cons k pending ih => exact (grown_adoptOne viewers k).trans (ih _)

/-- A packet that is forwarded is not written yet. -/
theorem written_forward (viewer : Viewer) (id : ℕ) (packet : Queued) :
    (viewer.forward id packet).written = viewer.written := by
  cases packet with
  | video frame =>
    show (viewer.forwardVideo frame).written = viewer.written
    rcases Viewer.forwardVideo_cases viewer frame with ⟨-, heq⟩ | ⟨video, needsKey, heq, -⟩
    · rw [heq]
    · rw [heq]
  | audio data =>
    unfold Viewer.forward
    dsimp only
    split
    · rfl
    · rfl

/-- A packet that is received changes no viewer yet. -/
theorem viewers_receive (s : ScreenShare) (code : ScreenPacketCode) (elapsed : ℕ) :
    (s.receive animation code elapsed).viewers = s.viewers := by
  unfold ScreenShare.receive
  split
  · rfl
  · rfl
  · rfl
  · rfl
  · dsimp only
    split
    · rfl
    · split
      · rfl
      · rfl

/-- **An action of the relay takes back nothing** that was written. -/
theorem grown_step {action : ScreenAction} (hstep : s.step animation action = some s') :
    Grown s.viewers s'.viewers := by
  cases action with
  | attach client token =>
    obtain rfl := Option.some.inj hstep
    intro k viewer hk
    exact ⟨viewer, (List.getElem?_append_left (List.getElem?_eq_some_iff.1 hk).1).trans hk, List.prefix_rfl⟩
  | open' k =>
    obtain ⟨viewer, hk, hstep⟩ := Option.bind_eq_some_iff.1 hstep
    split at hstep
    · split_ifs at hstep
      obtain rfl := Option.some.inj hstep
      exact Grown.set hk List.prefix_rfl
    · cases hstep
  | enlist k =>
    obtain ⟨viewer, hk, hstep⟩ := Option.bind_eq_some_iff.1 hstep
    split_ifs at hstep
    obtain rfl := Option.some.inj hstep
    exact Grown.set hk List.prefix_rfl
  | deattach client =>
    obtain rfl := Option.some.inj hstep
    exact Grown.refl s.viewers
  | toggleMute client =>
    simp only [ScreenShare.step] at hstep
    split at hstep
    · obtain rfl := Option.some.inj hstep
      exact Grown.refl s.viewers
    · obtain rfl := Option.some.inj hstep
      exact Grown.refl s.viewers
  | mute muted =>
    obtain rfl := Option.some.inj hstep
    exact Grown.refl s.viewers
  | receive code elapsed =>
    simp only [ScreenShare.step] at hstep
    split at hstep
    · obtain rfl := Option.some.inj hstep
      rw [viewers_receive]
      exact Grown.refl s.viewers
    · cases hstep
  | adopt =>
    simp only [ScreenShare.step] at hstep
    split at hstep
    · obtain rfl := Option.some.inj hstep
      exact grown_adopt s.viewers s.pending
    · cases hstep
  | collect =>
    simp only [ScreenShare.step] at hstep
    split at hstep
    · obtain rfl := Option.some.inj hstep
      exact Grown.refl s.viewers
    · cases hstep
  | retain =>
    simp only [ScreenShare.step] at hstep
    split at hstep
    · rename_i packet entries _
      obtain rfl := Option.some.inj hstep
      refine Grown.map fun viewer => ?_
      unfold Viewer.retain
      split
      · split
        · rfl
        · split
          · rfl
          · rfl
      · rfl
    · cases hstep
  | forward k =>
    simp only [ScreenShare.step] at hstep
    split at hstep
    · rename_i packet done _
      obtain ⟨viewer, hk, hstep⟩ := Option.bind_eq_some_iff.1 hstep
      split_ifs at hstep
      obtain rfl := Option.some.inj hstep
      exact Grown.set hk (written_forward viewer s.id packet ▸ List.prefix_rfl)
    · cases hstep
  | finish =>
    simp only [ScreenShare.step] at hstep
    split at hstep
    · split_ifs at hstep
      obtain rfl := Option.some.inj hstep
      exact Grown.refl s.viewers
    · cases hstep
  | take k =>
    obtain ⟨viewer, hk, hstep⟩ := Option.bind_eq_some_iff.1 hstep
    obtain ⟨⟨item, queue⟩, hnext, hstep⟩ := Option.bind_eq_some_iff.1 hstep
    dsimp only at hstep
    split_ifs at hstep
    obtain rfl := Option.some.inj hstep
    exact Grown.set hk List.prefix_rfl
  | write k ok =>
    obtain ⟨viewer, hk, hstep⟩ := Option.bind_eq_some_iff.1 hstep
    obtain ⟨item, -, hstep⟩ := Option.bind_eq_some_iff.1 hstep
    split_ifs at hstep
    obtain rfl := Option.some.inj hstep
    refine Grown.set hk ?_
    cases ok with
    | true =>
      cases item with
      | video frame => exact List.prefix_append _ _
      | audio data => exact List.prefix_rfl
    | false => exact List.prefix_rfl
  | close k =>
    obtain ⟨viewer, hk, hstep⟩ := Option.bind_eq_some_iff.1 hstep
    obtain rfl := Option.some.inj hstep
    exact Grown.set hk List.prefix_rfl
  | stop k =>
    obtain ⟨viewer, hk, hstep⟩ := Option.bind_eq_some_iff.1 hstep
    split_ifs at hstep
    obtain rfl := Option.some.inj hstep
    exact Grown.set hk List.prefix_rfl

end ScreenShare

end

/-! ### The whole path -/

namespace Sharer

variable {π : Type} {b : Backend π} {scaler : Scaler π} {s s' : Sharer b}

/-- A picture that is submitted is not sent yet. -/
theorem submit_sent (s : Sharer b) (forced : Bool) (fps : ℕ) (target : Option ℕ) (picture : Capture) (now : ℕ) :
    (s.submit scaler forced fps target picture now).sent = s.sent := by
  unfold Sharer.submit
  dsimp only
  split
  · rfl
  · split <;> rfl

/-- What is sent is sent. -/
theorem sent_step {action : SharerAction} (hstep : s.step scaler action = some s') : s.sent <+: s'.sent := by
  cases action with
  | poll =>
    simp only [Sharer.step] at hstep
    split at hstep
    · obtain rfl := Option.some.inj hstep
      split_ifs
      · exact List.prefix_rfl
      · exact List.prefix_rfl
    · cases hstep
  | takeRequest =>
    simp only [Sharer.step] at hstep
    split at hstep
    · obtain rfl := Option.some.inj hstep
      exact List.prefix_rfl
    · cases hstep
  | skip =>
    simp only [Sharer.step] at hstep
    split at hstep
    · obtain rfl := Option.some.inj hstep
      exact List.prefix_rfl
    · cases hstep
  | submit fps target picture now =>
    simp only [Sharer.step] at hstep
    split at hstep
    · rename_i forced _
      obtain rfl := Option.some.inj hstep
      rw [submit_sent]
    · cases hstep
  | dispatch =>
    simp only [Sharer.step] at hstep
    split at hstep
    · rename_i forced unit _
      obtain rfl := Option.some.inj hstep
      unfold Sharer.dispatch
      split
      · exact List.prefix_rfl
      · exact List.prefix_rfl
    · cases hstep
  | restart fps bitrate now =>
    simp only [Sharer.step] at hstep
    split at hstep
    · obtain rfl := Option.some.inj hstep
      exact List.prefix_rfl
    · obtain rfl := Option.some.inj hstep
      exact List.prefix_rfl
    · cases hstep
  | endCapture =>
    simp only [Sharer.step] at hstep
    split at hstep
    · cases hstep
    · obtain rfl := Option.some.inj hstep
      exact List.prefix_rfl
  | receive queued =>
    simp only [Sharer.step] at hstep
    split at hstep
    · obtain rfl := Option.some.inj hstep
      unfold Sharer.receive
      split_ifs
      · exact List.prefix_rfl
      · exact List.prefix_rfl
      · exact List.prefix_rfl
    · cases hstep
  | requestKeyframe =>
    simp only [Sharer.step] at hstep
    split at hstep
    · obtain rfl := Option.some.inj hstep
      exact List.prefix_rfl
    · cases hstep
  | send ok =>
    simp only [Sharer.step] at hstep
    split at hstep
    · obtain rfl := Option.some.inj hstep
      split_ifs
      · exact List.prefix_append _ _
      · exact List.prefix_rfl
    · cases hstep
  | tick queued =>
    simp only [Sharer.step] at hstep
    split at hstep
    · obtain rfl := Option.some.inj hstep
      unfold Sharer.tick
      split_ifs
      · exact List.prefix_rfl
      · exact List.prefix_rfl
      · exact List.prefix_rfl
      · exact List.prefix_rfl
    · cases hstep
  | report shed =>
    obtain rfl := Option.some.inj hstep
    exact List.prefix_rfl
  | endSender =>
    obtain rfl := Option.some.inj hstep
    exact List.prefix_rfl

end Sharer

/-- A share with its sharer, its relay, and one window: the place of the viewer it belongs to,
the frames the window has received, and its session. -/
structure ScreenPath {π : Type} (b : Backend π) (d : VideoDecoder) where
  sharer : Sharer b
  share : ScreenShare
  viewer : ℕ
  received : List Frame
  session : Session d

/-- What one party does. -/
inductive PathAction
  | sharer (action : SharerAction)
  | relay (action : ScreenAction)
  | watch (viewer : ℕ)
  /-- A frame comes in.  While the window empties the channel more may come, so that a batch is
  not bounded by the channel. -/
  | deliver
  | process (count : ℕ) (stale : Bool)

namespace ScreenPath

variable {π : Type} {b : Backend π} {d : VideoDecoder}

/-- A share that starts, with a window for its first viewer. -/
def start (b : Backend π) (d : VideoDecoder) (fps bitrate now id : ℕ) : ScreenPath b d :=
  ⟨.start b fps bitrate now, .start id, 0, [], .create d⟩

/-- The relay reads what the sharer sent, in the order it was sent. -/
def reads (s : ScreenPath b d) : ScreenAction → Bool
  | .receive (.video data) _ => s.sharer.sent[s.share.frames]?.any (·.data = data)
  | _ => true

/-- One action. -/
def step (scaler : Scaler π) (animation : List (List U8)) (s : ScreenPath b d) : PathAction → Option (ScreenPath b d)
  | .sharer action => (s.sharer.step scaler action).map fun sharer => { s with sharer }
  | .relay action =>
    if s.reads action then (s.share.step animation action).map fun share => { s with share } else none
  | .watch viewer => some { s with viewer, received := [], session := .create d }
  | .deliver => do
    let viewer ← s.share.viewers[s.viewer]?
    let frame ← viewer.written[s.received.length]?
    some { s with
      received := s.received ++ [frame]
      session := { s.session with pending := s.session.pending ++ [frame] } }
  | .process count stale => some { s with session := s.session.process count stale }

/-- The frame is the sharer's unit of that place, or the placeholder's. -/
def Genuine (sent : List AccessUnit) (frame : Frame) : Prop :=
  ∀ n, frame.origin = some n → ∃ unit, sent[n]? = some unit ∧ unit.data = frame.data

/-- The frame was predicted from the other one: they are two units of one encoder, in turn. -/
def Predicted (sent : List AccessUnit) (previous frame : Frame) : Prop :=
  ∃ (n : ℕ) (u v : AccessUnit), previous.origin = some n ∧ frame.origin = some (n + 1) ∧ sent[n]? = some u ∧
    sent[n + 1]? = some v ∧ u.data = previous.data ∧ v.data = frame.data ∧ u.Next v

/-- No mute of the relay ends with a predicted frame for a viewer that has the frame before it. -/
def Resumes (s : ScreenPath b d) : PathAction → Prop
  | .relay action => s.share.Resumes action
  | _ => True

instance (s : ScreenPath b d) (action : PathAction) : Decidable (s.Resumes action) :=
  match action with
  | .relay action => inferInstanceAs (Decidable (s.share.Resumes action))
  | .sharer _ | .watch _ | .deliver | .process .. => .isTrue trivial

/-- What holds after every action. -/
structure Inv (c : b.Contract) (s : ScreenPath b d) : Prop where
  sharer : s.sharer.Inv c
  share : s.share.Inv
  genuine : s.share.Holds (Genuine s.sharer.sent)
  received : s.received = [] ∨ ∃ viewer, s.share.viewers[s.viewer]? = some viewer ∧ s.received <+: viewer.written
  session : s.session.Inv s.received

variable {c : b.Contract} {scaler : Scaler π} {animation : List (List U8)} {s s' : ScreenPath b d}
  {sent sent' : List AccessUnit}

/-- A frame stays genuine while the sharer sends on. -/
theorem Genuine.mono {frame : Frame} (h : Genuine sent frame) (hsent : sent <+: sent') : Genuine sent' frame := by
  intro n hn
  obtain ⟨unit, hunit, hdata⟩ := h n hn
  obtain ⟨rest, rfl⟩ := hsent
  exact ⟨unit, (List.getElem?_append_left (List.getElem?_eq_some_iff.1 hunit).1).trans hunit, hdata⟩

/-- The window has received the first frames that were written for it. -/
theorem Inv.prefix (h : s.Inv c) {viewer : Viewer} (hviewer : s.share.viewers[s.viewer]? = some viewer) :
    s.received <+: viewer.written := by
  rcases h.received with hnil | ⟨viewer', hviewer', hreceived⟩
  · rw [hnil]
    exact List.nil_prefix
  · obtain rfl := Option.some.inj (hviewer.symm.trans hviewer')
    exact hreceived

/-- What a window has received is restartable. -/
theorem Inv.restarting (h : s.Inv c) : Restarting Frame.Key Frame.Next s.received := by
  rcases h.received with hnil | ⟨viewer, hviewer, rest, hrest⟩
  · rw [hnil]
    exact .nil
  · have hwritten := (h.share.sound viewer (List.mem_of_getElem? hviewer)).written
    rw [← hrest] at hwritten
    exact hwritten.of_append

/-- **Every action of a party keeps the invariant**, if no mute ends with a predicted frame. -/
theorem Inv.step (hanimation : ∀ data ∈ animation, isKeyframe data = true) (h : s.Inv c) {action : PathAction}
    (hresumes : s.Resumes action) (hstep : s.step scaler animation action = some s') : s'.Inv c := by
  cases action with
  | sharer action =>
    obtain ⟨sharer, hsharer, rfl⟩ := Option.map_eq_some_iff.1 hstep
    have hgenuine := h.genuine.imp fun frame hframe => hframe.mono (Sharer.sent_step hsharer)
    exact ⟨h.sharer.step hsharer, h.share, hgenuine, h.received, h.session⟩
  | relay action =>
    simp only [ScreenPath.step] at hstep
    split at hstep
    · rename_i hreads
      obtain ⟨share, hshare, rfl⟩ := Option.map_eq_some_iff.1 hstep
      refine ⟨h.sharer, h.share.step hanimation hresumes hshare, h.genuine.step ?_ ?_ hshare, ?_, h.session⟩
      · rintro data elapsed rfl n hn
        obtain rfl := Option.some.inj hn
        obtain ⟨unit, hunit, hdata⟩ := (Option.any_eq_true _ _).1 hreads
        exact ⟨unit, hunit, of_decide_eq_true hdata⟩
      · exact fun _ _ _ hn => absurd hn.symm (Option.some_ne_none _)
      · refine h.received.imp_right fun ⟨viewer, hviewer, hreceived⟩ => ?_
        obtain ⟨viewer', hviewer', hwritten⟩ := ScreenShare.grown_step hshare s.viewer viewer hviewer
        exact ⟨viewer', hviewer', hreceived.trans hwritten⟩
    · cases hstep
  | watch viewer =>
    obtain rfl := Option.some.inj hstep
    exact ⟨h.sharer, h.share, h.genuine, .inl rfl, Session.create_inv d⟩
  | deliver =>
    obtain ⟨viewer, hviewer, hstep⟩ := Option.bind_eq_some_iff.1 hstep
    obtain ⟨frame, hframe, hstep⟩ := Option.bind_eq_some_iff.1 hstep
    obtain rfl := Option.some.inj hstep
    refine ⟨h.sharer, h.share, h.genuine, .inr ⟨viewer, hviewer, ?_⟩, h.session.receive frame⟩
    obtain ⟨rest, hrest⟩ := h.prefix hviewer
    rw [← hrest, List.getElem?_append_right (Nat.le_refl _), Nat.sub_self] at hframe
    obtain ⟨rest, rfl⟩ := List.head?_eq_some_iff.1 (List.head?_eq_getElem? ▸ hframe)
    exact ⟨rest, by rw [← hrest, List.append_assoc, List.singleton_append]⟩
  | process count stale =>
    obtain rfl := Option.some.inj hstep
    exact ⟨h.sharer, h.share, h.genuine, h.received, h.session.process h.restarting count stale⟩

/-- A share that starts has sent and received nothing. -/
theorem start_inv (c : b.Contract) (d : VideoDecoder) (fps bitrate now id : ℕ) :
    (start b d fps bitrate now id).Inv c where
  sharer := Sharer.start_inv c fps bitrate now
  share := ⟨fun _ h => absurd h List.not_mem_nil, fun _ h => absurd h List.not_mem_nil,
    fun _ h => absurd h (Option.not_mem_none _), fun _ _ h => absurd h.symm (Option.some_ne_none _),
    fun _ h => absurd h (Option.not_mem_none _)⟩
  genuine := ⟨fun _ h => absurd h (Option.not_mem_none _), fun _ h => absurd h (Option.not_mem_none _),
    fun _ h => absurd h List.not_mem_nil⟩
  received := .inl rfl
  session := Session.create_inv d

/-- Of two frames with places in turn, the later one stands on its own or was predicted from
the other one. -/
theorem predicted_of_next (hsent : Restarting AccessUnit.Key AccessUnit.Next sent) {previous frame : Frame}
    (hprevious : Genuine sent previous) (hframe : Genuine sent frame) (hnext : previous.Next frame) :
    frame.Key ∨ Predicted sent previous frame := by
  obtain ⟨n, hn, hn'⟩ := hnext
  obtain ⟨u, hu, hudata⟩ := hprevious n hn
  obtain ⟨v, hv, hvdata⟩ := hframe (n + 1) hn'
  have hlt := (List.getElem?_eq_some_iff.1 hv).1
  have hchain := List.isChain_iff_getElem.1 hsent.chain n hlt
  rw [(List.getElem?_eq_some_iff.1 hu).2, (List.getElem?_eq_some_iff.1 hv).2] at hchain
  rcases hchain with hkey | huv
  · refine .inl ?_
    unfold Frame.Key
    rw [← hvdata]
    exact hkey
  · exact .inr ⟨n, u, v, hn, hn', hu, hv, hudata, hvdata, huv⟩

/-- **A decoder is given a predicted frame only right after the frame it was predicted from**,
whatever the sharer, the relay and the window drop on the way, in every run in which no mute
ends with a predicted frame. -/
theorem fed_decodable (scaler : Scaler π) (c : b.Contract) (d : VideoDecoder) (animation : List (List U8))
    (hanimation : ∀ data ∈ animation, isKeyframe data = true) (fps bitrate now id : ℕ) (actions : List PathAction)
    (s : ScreenPath b d) (hmeets : Meets (step scaler animation) Resumes (start b d fps bitrate now id) actions)
    (hrun : exec (step scaler animation) (start b d fps bitrate now id) actions = some s) :
    Restarting Frame.Key (Predicted s.sharer.sent) s.session.fed := by
  have h : s.Inv c := exec_induct (fun _ _ _ h => h.step hanimation) (start_inv c d fps bitrate now id) hmeets hrun
  have hgenuine : ∀ frame ∈ s.session.fed, Genuine s.sharer.sent frame := by
    intro frame hframe
    have hreceived := h.session.fed hframe
    rcases h.received with hnil | ⟨viewer, hviewer, hfirst⟩
    · rw [hnil] at hreceived
      exact absurd hreceived List.not_mem_nil
    · exact (h.genuine.viewers viewer (List.mem_of_getElem? hviewer)).written frame (hfirst.subset hreceived)
  exact h.session.sound.refine fun previous hprevious frame hframe =>
    predicted_of_next h.sharer.sound (hgenuine previous hprevious) (hgenuine frame hframe)

/-- A decoder that has a picture of every frame. -/
def everyFrame : VideoDecoder := ⟨Unit, (), fun _ _ => (some true, ())⟩

/-- A picture is captured, encoded and sent. -/
def encodeAndSend (now : ℕ) : List PathAction :=
  [SharerAction.poll, .takeRequest, .submit 30 none ⟨1, 1, [0, 0, 0, 0]⟩ now, .dispatch, .receive none, .send true].map
    .sharer

/-- The relay takes it and writes it, and the window takes that in. -/
def pass (data : List U8) : List PathAction :=
  (ScreenShare.turn (.video data)).map .relay ++ [.deliver]

/-- Two pictures, which the window decodes at once. -/
theorem fed_decodable_two : ∃ s : ScreenPath Sharer.openh264 everyFrame,
    s.session.fed.map (·.origin) = [some 0, some 1] ∧
      Restarting Frame.Key (Predicted s.sharer.sent) s.session.fed := by
  let actions : List PathAction :=
    [.relay (.attach 1 (.replicate 32 0)), .relay (.enlist 0)] ++ encodeAndSend 0 ++ pass [0, 0, 0, 1, 0x65] ++
      encodeAndSend 33 ++ pass [0, 0, 0, 1, 0x41] ++ [.process 2 false]
  have hmeets : Meets (step Sharer.sizeOnly []) Resumes (start Sharer.openh264 everyFrame 30 2500000 0 0) actions := by
    decide +kernel
  have hfed : (exec (step Sharer.sizeOnly []) (start Sharer.openh264 everyFrame 30 2500000 0 0) actions).map
      (·.session.fed.map (·.origin)) = some [some 0, some 1] := by decide +kernel
  obtain ⟨s, hs, hfed⟩ := Option.map_eq_some_iff.1 hfed
  exact ⟨s, hfed, fed_decodable Sharer.sizeOnly Sharer.openh264Contract everyFrame []
    (fun _ h => absurd h List.not_mem_nil) 30 2500000 0 0 actions s hmeets hs⟩

end ScreenPath

end Why2
