/-
# What an upload is tested for

A persistent file is tested when its first packet arrives, and its size, its
hash and, for a clip, its content when it is complete.  The first packet is the
first of the socket, whatever upload it names and whether or not it is taken:
one for another upload, one that is too long or one the disk refuses passes the
test for the chunks after it (`content_untested`).

The tests hold for every file that is put to use in every run in which a packet
names the upload of its socket, the first packet of a persistent upload is not
too long and the disk takes it (`uploads_checked`).  Each upload is then fed by
one task, and what the task knows of it is true whatever the others do.
-/

import Why2.Chat.Uploads
import Why2.Lib.Runs

namespace Why2

open Lib

/-- What the first chunk of a file of this kind has to look like. -/
def UploadKind.Content (kind : UploadKind) (first : List U8) : Prop :=
  match kind with
  | .file => True
  | .image => isImage first = true
  | .avatar | .icon => isImage first = true ∧ isAvatar first = true
  | .voice => isClip first = true

/-- What is accepted is content of the kind. -/
theorem UploadKind.content_of_accepts {kind : UploadKind} {data : List U8} (h : kind.accepts data = true) :
    kind.Content data := by
  cases kind with
  | file => trivial
  | image => simpa [accepts, persistent, Content] using h
  | avatar => simpa [accepts, persistent, Content] using h
  | icon => simpa [accepts, persistent, Content] using h
  | voice => simpa [accepts, persistent, Content] using h

/-- The announced size, within the ceiling; the hash it is named after; the content of the
kind it is used as. -/
structure UploadUse.Checked (env : UploadEnv) (use : UploadUse) : Prop where
  size : use.chunks.flatten.length = use.announced
  ceiling : use.announced ≤ use.kind.ceiling
  name : env.P.sha256 use.chunks.flatten = use.name
  first : ∃ first, use.chunks.head? = some first ∧ use.kind.Content first
  clip : use.kind = .voice → (Clip.decode env.deserialize use.chunks.flatten).isSome = true

namespace UploadServer

/-! ### A first packet for nobody -/

/-- A server that hashes everything to zeros and knows no clips. -/
def plainEnv : UploadEnv := ⟨default, ⟨false, false⟩, [], fun _ => none⟩

/-- The first packet of a picture names no upload and starts like a bitmap; the second is
the whole picture, two zeros. -/
def smuggled : List UploadAction :=
  [.accept 1 "anna" 5 .image,
    .metadata 0 ⟨4, 100⟩ ⟨2, "a.bmp", .replicate 32 0⟩ (.replicate 32 0) (.replicate 32 0),
    .create 0 true, .insert 0, .packet 0 9 (ascii "BM"), .packet 0 5 [0, 0], .write 0 none, .update 0,
    .collect 0, .tag 0 true, .probe 0, .rename 0 true, .publish 0 true]

/-- **A picture gets into the history untested.** -/
theorem content_untested :
    ¬∀ (env : UploadEnv) (actions : List UploadAction) (s : UploadServer),
      exec (step env) start actions = some s → ∀ use ∈ s.used, use.Checked env := by
  intro h
  have hvalues : (exec (step plainEnv) start smuggled).map (·.used) =
      some [⟨.image, 2, .replicate 32 0, [[0, 0]], none, true⟩] := by decide +kernel
  obtain ⟨s, hs, hused⟩ := Option.map_eq_some_iff.1 hvalues
  obtain ⟨first, hfirst, hcontent⟩ := (h plainEnv smuggled s hs ⟨.image, 2, .replicate 32 0, [[0, 0]], none, true⟩
    (by rw [hused]; exact List.mem_singleton_self _)).first
  obtain rfl := Option.some.inj hfirst
  have himage : isImage [0, 0] = true := hcontent
  exact absurd himage (by decide)

/-! ### One task for each upload -/

/-- The upload has taken a chunk, or is not there. -/
def started (s : UploadServer) (uid : U64) : Bool := (s.active.lookup uid).all (·.currentSize ≠ 0)

/-- A packet names the upload of its socket; the first one of a persistent upload is not
too long, and the disk takes it; the ids of uploads and downloads are not drawn twice. -/
def OwnUploads (s : UploadServer) : UploadAction → Prop
  | .accept _ _ uid _ | .downloaded uid => ∀ socket ∈ s.sockets, socket.uid ≠ uid
  | .packet k uid data => ∀ socket ∈ s.sockets[k]?,
    uid = socket.uid ∧ (socket.phase.unchecked = true → data.length ≤ uploadChunkSize)
  | .write k (some _) => ∀ socket ∈ s.sockets[k]?, socket.kind = .file ∨ s.started socket.uid = true
  | _ => True

instance (s : UploadServer) : DecidablePred s.OwnUploads := fun
  | .accept _ _ uid _ | .downloaded uid =>
    inferInstanceAs (Decidable (∀ socket ∈ s.sockets, socket.uid ≠ uid))
  | .packet k uid data => inferInstanceAs (Decidable (∀ socket ∈ s.sockets[k]?,
      uid = socket.uid ∧ (socket.phase.unchecked = true → data.length ≤ uploadChunkSize)))
  | .write k (some _) => inferInstanceAs (Decidable (∀ socket ∈ s.sockets[k]?,
      socket.kind = .file ∨ s.started socket.uid = true))
  | .write _ none | .login _ | .metadata .. | .create .. | .insert _ | .update _ | .collect _ | .tag ..
  | .probe _ | .rename .. | .publish .. | .retire _ | .drop _ | .unlink _ => .isTrue trivial

end UploadServer

/-! ### What a task knows -/

/-- The upload of a socket before it is collected. -/
structure Fileshare.Sound (id : ℕ) (kind : UploadKind) (active : Fileshare) : Prop where
  client : active.clientId = id
  hashed : active.hashed = active.chunks.flatten
  size : active.currentSize = active.chunks.flatten.length
  ceiling : kind.persistent = true → active.size ≤ kind.ceiling
  image : kind.persistent = true → active.image = some active.chunks.flatten
  head : ∀ first ∈ active.chunks.head?, kind.accepts first = true

/-- A chunk that is counted. -/
theorem Fileshare.Sound.take {id : ℕ} {kind : UploadKind} {active : Fileshare} {data : List U8}
    (hupload : active.Sound id kind) (hdata : active.chunks = [] → kind.accepts data = true) (bytes : List U8) :
    (active.take data bytes).Sound id kind := by
  have hflatten : (active.take data bytes).chunks.flatten = active.chunks.flatten ++ data := by
    simp [Fileshare.take]
  refine ⟨hupload.client, ?_, ?_, hupload.ceiling, fun hpersistent => ?_, ?_⟩
  · rw [hflatten, ← hupload.hashed]
    rfl
  · rw [hflatten, List.length_append, ← hupload.size]
    rfl
  · rw [hflatten]
    simp only [Fileshare.take, hupload.image hpersistent, Option.map_some]
  · intro first hfirst
    cases hchunks : active.chunks with
    | nil =>
      simp only [Fileshare.take, hchunks, List.nil_append, List.head?_cons] at hfirst
      obtain rfl := Option.some.inj hfirst
      exact hdata hchunks
    | cons chunk chunks =>
      refine hupload.head first ?_
      simpa only [Fileshare.take, hchunks, List.cons_append, List.head?_cons] using hfirst

/-- What is collected of a complete upload. -/
structure Finished.Sound (env : UploadEnv) (uid : U64) (kind : UploadKind) (final : Finished) : Prop where
  uid_eq : final.uid = uid
  size : final.chunks.flatten.length = final.announced
  ceiling : kind.persistent = true → final.announced ≤ kind.ceiling
  hash : final.finalHash = env.P.sha256 final.chunks.flatten
  image : kind.persistent = true → final.image = some final.chunks.flatten
  head : ∃ first, final.chunks.head? = some first ∧ kind.accepts first = true

/-- And of one that has passed. -/
structure Finished.Passed (env : UploadEnv) (uid : U64) (kind : UploadKind) (final : Finished) : Prop
    extends final.Sound env uid kind where
  clip : kind = .voice → (Clip.decode env.deserialize final.chunks.flatten).isSome = true

/-- What the task of a socket knows of its upload, in each phase. -/
def Socket.Sound (env : UploadEnv) (active : Option Fileshare) (socket : Socket) : Prop :=
  match socket.phase with
  | .announced metadata | .created metadata .. =>
    socket.kind.persistent = true → metadata.size ≤ socket.kind.ceiling
  | .receiving checked => ∀ a ∈ active, a.Sound socket.id socket.kind ∧
    (checked = false → a.chunks = []) ∧ (checked = true → a.chunks = [] → socket.kind = .file)
  | .prepared uid data .. | .written uid data .. => uid = socket.uid ∧
    ∀ a ∈ active, a.Sound socket.id socket.kind ∧ (a.chunks = [] → socket.kind.accepts data = true)
  | .complete uid _ => uid = socket.uid ∧
    ∀ a ∈ active, a.Sound socket.id socket.kind ∧ a.currentSize = a.size ∧ a.chunks ≠ []
  | .collected _ final => final.Sound env socket.uid socket.kind
  | .verified final _ | .probed final .. | .renamed final .. => final.Passed env socket.uid socket.kind
  | .published uid => uid = socket.uid
  | _ => True

namespace UploadServer

variable {env : UploadEnv} {s s' : UploadServer} {k : ℕ} {socket socket' : Socket}

/-- Every socket has an upload id of its own. -/
def Distinct (s : UploadServer) : Prop :=
  ∀ (i j : ℕ) (a b : Socket), s.sockets[i]? = some a → s.sockets[j]? = some b → a.uid = b.uid → i = j

/-- The sockets after the task of one of them acted. -/
theorem socket_of_set (hk : s.sockets[k]? = some socket) (hsockets : s'.sockets = s.sockets.set k socket')
    {j : ℕ} {b : Socket} (hb : s'.sockets[j]? = some b) :
    j = k ∧ b = socket' ∨ j ≠ k ∧ s.sockets[j]? = some b := by
  rw [hsockets] at hb
  rcases eq_or_ne j k with rfl | hne
  · rw [List.getElem?_set_self (List.getElem?_eq_some_iff.1 hk).1] at hb
    exact .inl ⟨rfl, (Option.some.inj hb).symm⟩
  · rw [List.getElem?_set_ne hne.symm] at hb
    exact .inr ⟨hne, hb⟩

/-- A socket that keeps its uid leaves the uploads apart. -/
theorem Distinct.set (hdistinct : s.Distinct) (hk : s.sockets[k]? = some socket)
    (hsockets : s'.sockets = s.sockets.set k socket') (huid : socket'.uid = socket.uid) : s'.Distinct := by
  -- Each socket has the id of the one that was in its place.
  have hids : ∀ (j : ℕ) (b : Socket), s'.sockets[j]? = some b →
      ∃ a, s.sockets[j]? = some a ∧ a.uid = b.uid := by
    intro j b hb
    rcases socket_of_set hk hsockets hb with ⟨rfl, rfl⟩ | ⟨_, hb⟩
    · exact ⟨socket, hk, huid.symm⟩
    · exact ⟨b, hb, rfl⟩
  intro i j a b ha hb hab
  obtain ⟨a', ha', hau⟩ := hids i a ha
  obtain ⟨b', hb', hbu⟩ := hids j b hb
  exact hdistinct i j a' b' ha' hb' (by rw [hau, hbu, hab])

/-- A new socket with a new id. -/
theorem Distinct.append (hdistinct : s.Distinct) (hsockets : s'.sockets = s.sockets ++ [socket])
    (hfresh : ∀ a ∈ s.sockets, a.uid ≠ socket.uid) : s'.Distinct := by
  intro i j a b ha hb hab
  rw [hsockets, List.getElem?_append] at ha hb
  split at ha <;> split at hb
  · exact hdistinct i j a b ha hb hab
  · obtain rfl := List.mem_singleton.1 (List.mem_of_getElem? hb)
    exact absurd hab (hfresh a (List.mem_of_getElem? ha))
  · obtain rfl := List.mem_singleton.1 (List.mem_of_getElem? ha)
    exact absurd hab.symm (hfresh b (List.mem_of_getElem? hb))
  · have hi := (List.getElem?_eq_some_iff.1 ha).1
    have hj := (List.getElem?_eq_some_iff.1 hb).1
    rw [List.length_singleton] at hi hj
    omega

/-- Every socket has an upload id of its own, what its task knows is true, and everything
that was put to use is as it should be. -/
structure Inv (env : UploadEnv) (s : UploadServer) : Prop where
  distinct : s.Distinct
  sound : ∀ (k : ℕ) (socket : Socket), s.sockets[k]? = some socket → socket.Sound env (s.active.lookup socket.uid)
  used : ∀ use ∈ s.used, use.Checked env

/-- **A task that keeps to its own upload leaves what the others know.** -/
theorem Inv.frame (hinv : s.Inv env) (hk : s.sockets[k]? = some socket)
    (hsockets : s'.sockets = s.sockets.set k socket') (huid : socket'.uid = socket.uid)
    (hactive : ∀ uid, uid ≠ socket.uid → s'.active.lookup uid = s.active.lookup uid)
    (hsound : socket'.Sound env (s'.active.lookup socket.uid))
    (hused : ∀ use ∈ s'.used, use ∈ s.used ∨ use.Checked env) : s'.Inv env := by
  refine ⟨hinv.distinct.set hk hsockets huid, ?_, ?_⟩
  · intro j b hb
    rcases socket_of_set hk hsockets hb with ⟨rfl, rfl⟩ | ⟨hne, hb⟩
    · rwa [huid]
    · have hother : b.uid ≠ socket.uid := fun h => hne (hinv.distinct j k b socket hb hk h)
      rw [hactive _ hother]
      exact hinv.sound j b hb
  · intro use huse
    rcases hused use huse with h | h
    · exact hinv.used use h
    · exact h

/-- The socket only moves on. -/
theorem Inv.goto (hinv : s.Inv env) (hk : s.sockets[k]? = some socket) {phase : UploadPhase}
    (hsound : Socket.Sound env (s.active.lookup socket.uid) { socket with phase }) :
    (s.goto k socket phase).Inv env :=
  hinv.frame hk rfl rfl (fun _ _ => rfl) hsound fun _ h => .inl h

/-- A socket is accepted. -/
theorem Inv.accept (hinv : s.Inv env) {id : ℕ} {username : String} {uid : U64} {kind : UploadKind}
    (hfresh : ∀ a ∈ s.sockets, a.uid ≠ uid) :
    Inv env { s with sockets := s.sockets ++ [⟨id, username, uid, kind, ⟨[], [], none⟩, .waiting⟩] } := by
  refine ⟨hinv.distinct.append rfl hfresh, ?_, hinv.used⟩
  intro j b hb
  rw [List.getElem?_append] at hb
  split at hb
  · exact hinv.sound j b hb
  · obtain rfl := List.mem_singleton.1 (List.mem_of_getElem? hb)
    trivial

/-! ### Its actions -/

/-- An announced upload has received nothing. -/
theorem Inv.metadata (hinv : s.Inv env) (hk : s.sockets[k]? = some socket) (config : UploadConfig)
    (data : FileMetadata) (keySeed nonceSeed : Vector U8 32) :
    (s.metadata env k socket config data keySeed nonceSeed).Inv env := by
  have hclosing : (s.goto k socket .closing).Inv env := hinv.goto hk trivial
  unfold UploadServer.metadata
  split
  · exact hclosing
  split
  · exact hclosing
  rename_i hceiling
  split
  · exact hclosing
  split
  · refine hinv.frame hk rfl rfl (fun _ _ => rfl) (fun hpersistent => ?_) fun _ h => .inl h
    exact Nat.le_of_not_lt fun h => hceiling ⟨hpersistent, h⟩
  · exact hclosing

/-- A created upload has received nothing. -/
theorem Inv.create (hinv : s.Inv env) (hk : s.sockets[k]? = some socket) {data : FileMetadata}
    (hphase : socket.phase = .announced data) (ok : Bool) : (s.create env k socket data ok).Inv env := by
  have hsound := hinv.sound k socket hk
  rw [Socket.Sound, hphase] at hsound
  have hclosing : (s.goto k socket .closing).Inv env := hinv.goto hk trivial
  unfold UploadServer.create
  split
  · exact hclosing
  split
  · exact hclosing
  · exact hinv.frame hk rfl rfl (fun _ _ => rfl) hsound fun _ h => .inl h

/-- A registered upload has received nothing. -/
theorem Inv.insert (hinv : s.Inv env) (hk : s.sockets[k]? = some socket) {data : FileMetadata}
    {stream : RexStream 8 8} {file : ℕ} (hphase : socket.phase = .created data stream file) :
    (s.insert k socket data stream file).Inv env := by
  have hsound := hinv.sound k socket hk
  rw [Socket.Sound, hphase] at hsound
  refine hinv.frame hk rfl rfl (fun _ hne => AList.lookup_insert_ne hne) ?_ fun _ h => .inl h
  intro a ha
  obtain rfl : fileshare socket data stream file = a := by
    rw [UploadServer.insert, AList.lookup_insert] at ha
    exact Option.some.inj ha
  refine ⟨⟨rfl, rfl, rfl, hsound, fun hpersistent => ?_, fun first hfirst => (nomatch hfirst)⟩, fun _ => rfl, ?_⟩
  · exact if_pos hpersistent
  · intro hchecked _
    simpa [UploadKind.persistent] using hchecked

/-- The first packet is checked. -/
theorem Inv.packet (hinv : s.Inv env) (hk : s.sockets[k]? = some socket) {checked : Bool}
    (hphase : socket.phase = .receiving checked) {data : List U8}
    (hshort : checked = false → data.length ≤ uploadChunkSize) :
    (s.packet env k socket checked socket.uid data).Inv env := by
  have hsound := hinv.sound k socket hk
  rw [Socket.Sound, hphase] at hsound
  have hclosing : (s.goto k socket .closing).Inv env := hinv.goto hk trivial
  unfold UploadServer.packet
  split
  · exact hclosing
  rename_i htest
  split
  · rename_i hnone
    refine hinv.goto hk fun a ha => ?_
    rw [hnone] at ha
    cases ha
  rename_i active hactive
  obtain ⟨hupload, hempty, hfile⟩ := hsound active hactive
  split
  · split
    · exact hclosing
    rename_i bytes encrypted hencrypt
    obtain ⟨stream, _, rfl⟩ := ActiveFileshare.encrypt_eq_ok hencrypt
    refine hinv.frame hk rfl rfl (fun _ hne => AList.lookup_insert_ne hne) ⟨rfl, fun a ha => ?_⟩
      fun _ h => .inl h
    rw [AList.lookup_insert] at ha
    obtain rfl := Option.some.inj ha
    refine ⟨⟨hupload.client, hupload.hashed, hupload.size, hupload.ceiling, hupload.image, hupload.head⟩,
      fun hchunks => ?_⟩
    cases checked with
    | false => simpa using htest
    | true => simp [UploadKind.accepts, UploadKind.persistent, hfile rfl hchunks]
  · rename_i hrefused
    refine hinv.goto hk fun a ha => ?_
    obtain rfl := Option.some.inj (hactive.symm.trans ha)
    refine ⟨hupload, fun h => (nomatch h), fun _ hchunks => ?_⟩
    cases checked with
    | false => exact absurd ⟨hupload.client, hshort rfl⟩ hrefused
    | true => exact hfile rfl hchunks

/-- What is written was checked. -/
theorem Inv.write (hinv : s.Inv env) (hk : s.sockets[k]? = some socket) {uid : U64}
    {data bytes : List U8} {file : ℕ} (hphase : socket.phase = .prepared uid data bytes file)
    {failed : Option ℕ} (hfirst : failed.isSome = true → socket.kind = .file ∨ s.started socket.uid = true) :
    (s.write k socket uid data bytes file failed).Inv env := by
  have hsound := hinv.sound k socket hk
  rw [Socket.Sound, hphase] at hsound
  obtain ⟨rfl, hactive⟩ := hsound
  unfold UploadServer.write
  split
  · exact hinv.frame hk rfl rfl (fun _ _ => rfl) ⟨rfl, hactive⟩ fun _ h => .inl h
  · refine hinv.frame hk rfl rfl (fun _ _ => rfl) (fun a ha => ?_) fun _ h => .inl h
    obtain ⟨hupload, _⟩ := hactive a ha
    refine ⟨hupload, fun h => (nomatch h), fun _ hchunks => ?_⟩
    rcases hfirst rfl with hkind | hstarted
    · exact hkind
    · -- The upload has bytes, so it has a chunk.
      have hlookup : s.active.lookup socket.uid = some a := ha
      rw [started, hlookup, Option.all_some, hupload.size, hchunks] at hstarted
      exact absurd hstarted (by decide)

/-- What was written is counted. -/
theorem Inv.update (hinv : s.Inv env) (hk : s.sockets[k]? = some socket) {uid : U64}
    {data bytes : List U8} {file : ℕ} (hphase : socket.phase = .written uid data bytes file) :
    (s.update k socket uid data bytes file).Inv env := by
  have hsound := hinv.sound k socket hk
  rw [Socket.Sound, hphase] at hsound
  obtain ⟨rfl, hactive⟩ := hsound
  unfold UploadServer.update
  split
  · exact hinv.goto hk trivial
  rename_i active hlookup
  obtain ⟨hupload, hdata⟩ := hactive active hlookup
  split
  · exact hinv.frame hk rfl rfl (fun _ hne => AList.lookup_insert_ne hne) trivial fun _ h => .inl h
  have htaken := hupload.take hdata bytes
  have hne : (active.take data bytes).chunks ≠ [] := by simp [Fileshare.take]
  refine hinv.frame hk rfl rfl (fun _ hne => AList.lookup_insert_ne hne) ?_ fun _ h => .inl h
  rw [AList.lookup_insert]
  split
  · rename_i hdone
    refine ⟨rfl, fun a ha => ?_⟩
    obtain rfl := Option.some.inj ha
    exact ⟨htaken, hdone, hne⟩
  · intro a ha
    obtain rfl := Option.some.inj ha
    exact ⟨htaken, fun h => (nomatch h), fun _ h => absurd h hne⟩

/-- A collected upload was checked. -/
theorem Inv.collect (hinv : s.Inv env) (hk : s.sockets[k]? = some socket) {uid : U64} {file : ℕ}
    (hphase : socket.phase = .complete uid file) : (s.collect env k socket uid file).Inv env := by
  have hsound := hinv.sound k socket hk
  rw [Socket.Sound, hphase] at hsound
  obtain ⟨rfl, hactive⟩ := hsound
  unfold UploadServer.collect
  split
  · exact hinv.goto hk trivial
  rename_i active hlookup
  obtain ⟨hupload, hdone, hne⟩ := hactive active hlookup
  refine hinv.frame hk rfl rfl (fun _ hne => AList.lookup_insert_ne hne) ?_ fun _ h => .inl h
  obtain ⟨first, hfirst⟩ := Option.isSome_iff_exists.1 (List.isSome_head?.2 hne)
  exact ⟨rfl, hupload.size.symm.trans hdone, hupload.ceiling, congrArg env.P.sha256 hupload.hashed,
    hupload.image, first, hfirst, hupload.head first hfirst⟩

/-- A verified upload was checked. -/
theorem Inv.tag (hinv : s.Inv env) (hk : s.sockets[k]? = some socket) {file : ℕ} {final : Finished}
    (hphase : socket.phase = .collected file final) (ok : Bool) :
    (s.tag env k socket file final ok).Inv env := by
  have hsound := hinv.sound k socket hk
  rw [Socket.Sound, hphase] at hsound
  unfold UploadServer.tag
  split
  · exact hinv.goto hk trivial
  -- The tag goes to the disk, which nothing here depends on.
  extract_lets tagged
  have htagged : tagged.Inv env := ⟨hinv.distinct, hinv.sound, hinv.used⟩
  split
  · exact htagged.goto hk trivial
  split
  · rename_i hkind
    split
    · exact htagged.goto hk trivial
    · rename_i clip hclip
      refine htagged.goto hk ⟨hsound, fun _ => ?_⟩
      rw [hsound.image (by rw [hkind]; rfl)] at hclip
      exact Option.isSome_iff_exists.2 ⟨clip, hclip⟩
  · rename_i hkind
    exact htagged.goto hk ⟨hsound, fun h => absurd h hkind⟩

/-- A probe changes no upload. -/
theorem Inv.probe (hinv : s.Inv env) (hk : s.sockets[k]? = some socket) {final : Finished}
    {voice : Option VoiceNote} (hphase : socket.phase = .verified final voice) :
    (s.probe k socket final voice).Inv env := by
  have hsound := hinv.sound k socket hk
  rw [Socket.Sound, hphase] at hsound
  exact hinv.goto hk hsound

/-- A rename changes no upload. -/
theorem Inv.rename (hinv : s.Inv env) (hk : s.sockets[k]? = some socket) {final : Finished}
    {voice : Option VoiceNote} {insert : Bool} (hphase : socket.phase = .probed final voice insert) (ok : Bool) :
    (s.rename k socket final voice insert ok).Inv env := by
  have hsound := hinv.sound k socket hk
  rw [Socket.Sound, hphase] at hsound
  unfold UploadServer.rename
  split
  · exact hinv.goto hk trivial
  · exact hinv.frame hk rfl rfl (fun _ _ => rfl) hsound fun _ h => .inl h

/-- What has passed may be used. -/
theorem checked_of_passed {kind : UploadKind} {uid : U64} {final : Finished} (hpassed : final.Passed env uid kind)
    (hpersistent : kind.persistent = true) (voice : Option VoiceNote) (kept : Bool) :
    UploadUse.Checked env ⟨kind, final.announced, final.finalHash, final.chunks, voice, kept⟩ := by
  obtain ⟨first, hfirst, haccepts⟩ := hpassed.head
  exact ⟨hpassed.size, hpassed.ceiling hpersistent, hpassed.hash.symm,
    ⟨first, hfirst, UploadKind.content_of_accepts haccepts⟩, hpassed.clip⟩

/-- What is published was checked. -/
theorem Inv.publish (hinv : s.Inv env) (hk : s.sockets[k]? = some socket) {final : Finished}
    {voice : Option VoiceNote} {insert : Bool} (hphase : socket.phase = .renamed final voice insert) (kept : Bool) :
    (s.publish k socket final voice insert kept).Inv env := by
  have hpassed := hinv.sound k socket hk
  rw [Socket.Sound, hphase] at hpassed
  have hdone : (s.goto k socket (.published final.uid)).Inv env := hinv.goto hk hpassed.uid_eq
  unfold UploadServer.publish
  extract_lets done
  split
  · rename_i hkind
    have hpersistent : socket.kind.persistent = true := by
      rcases hkind with h | h <;> rw [h] <;> rfl
    refine hinv.frame hk rfl rfl (fun _ _ => rfl) hpassed.uid_eq fun use huse => ?_
    rcases List.mem_cons.1 huse with rfl | hmem
    · exact .inr (checked_of_passed hpassed hpersistent none true)
    · exact .inl hmem
  split
  · rename_i hpersistent
    split
    · exact hdone
    · refine hinv.frame hk rfl rfl (fun _ _ => rfl) hpassed.uid_eq fun use huse => ?_
      rcases List.mem_cons.1 huse with rfl | hmem
      · exact .inr (checked_of_passed hpassed hpersistent voice kept)
      · exact .inl hmem
  split
  · split
    · exact hinv.goto hk trivial
    · exact hinv.frame hk rfl rfl (fun _ _ => rfl) hpassed.uid_eq fun _ h => .inl h
  · exact hdone

/-- The guard of a transfer takes out its own upload. -/
theorem lookup_dropGuard (s : UploadServer) {uid own : U64} (hne : uid ≠ own) :
    (s.dropGuard own).active.lookup uid = s.active.lookup uid := by
  unfold dropGuard
  split
  · rfl
  · exact AList.lookup_erase_ne hne

/-- The guard changes no socket. -/
theorem sockets_dropGuard (s : UploadServer) (uid : U64) : (s.dropGuard uid).sockets = s.sockets := by
  unfold dropGuard
  split <;> rfl

/-- The guard gives no uid back. -/
theorem used_dropGuard (s : UploadServer) (uid : U64) : (s.dropGuard uid).used = s.used := by
  unfold dropGuard
  split <;> rfl

/-- An upload that is dropped is gone. -/
theorem Inv.drop (hinv : s.Inv env) (hk : s.sockets[k]? = some socket) :
    ((s.dropGuard socket.uid).goto k socket .closed).Inv env := by
  have hsockets : ((s.dropGuard socket.uid).goto k socket .closed).sockets =
      s.sockets.set k { socket with phase := .closed } := by
    rw [UploadServer.goto, sockets_dropGuard]
  refine hinv.frame hk hsockets rfl (fun uid hne => s.lookup_dropGuard hne) trivial fun use huse => .inl ?_
  exact s.used_dropGuard socket.uid ▸ huse

/-- A download ends, whose id is that of no upload. -/
theorem Inv.downloaded (hinv : s.Inv env) {uid : U64} (hfresh : ∀ a ∈ s.sockets, a.uid ≠ uid) :
    (s.dropGuard uid).Inv env := by
  have hsockets := s.sockets_dropGuard uid
  refine ⟨?_, ?_, ?_⟩
  · intro i j a b ha hb
    rw [hsockets] at ha hb
    exact hinv.distinct i j a b ha hb
  · intro j b hb
    rw [hsockets] at hb
    rw [s.lookup_dropGuard (hfresh b (List.mem_of_getElem? hb))]
    exact hinv.sound j b hb
  · intro use huse
    exact hinv.used use (s.used_dropGuard uid ▸ huse)

/-- **What the tasks know stays true**, action by action. -/
theorem Inv.act (hinv : s.Inv env) (hk : s.sockets[k]? = some socket) {action : UploadAction}
    (hcond : s.OwnUploads action) (h : Acts env s k socket action s') : s'.Inv env := by
  cases h with
  | metadata _ => exact hinv.metadata hk _ _ _ _
  | create hphase => exact hinv.create hk hphase _
  | insert hphase => exact hinv.insert hk hphase
  | packet hphase =>
    obtain ⟨rfl, hshort⟩ := hcond socket hk
    rw [hphase] at hshort
    exact hinv.packet hk hphase fun hchecked => hshort (by rw [hchecked]; rfl)
  | write hphase =>
    refine hinv.write hk hphase fun hfailed => ?_
    obtain ⟨n, rfl⟩ := Option.isSome_iff_exists.1 hfailed
    exact hcond socket hk
  | update hphase => exact hinv.update hk hphase
  | collect hphase => exact hinv.collect hk hphase
  | tag hphase => exact hinv.tag hk hphase _
  | probe hphase => exact hinv.probe hk hphase
  | rename hphase => exact hinv.rename hk hphase _
  | publish hphase => exact hinv.publish hk hphase _
  | retire hphase =>
    have hsound := hinv.sound k socket hk
    rw [Socket.Sound, hphase] at hsound
    obtain rfl := hsound
    exact hinv.frame hk rfl rfl (fun _ hne => AList.lookup_erase_ne hne) trivial fun _ h => .inl h
  | drop => exact hinv.drop hk

/-- **Every action keeps the invariant**, as long as uploads are fed by their own sockets. -/
theorem Inv.step (hinv : s.Inv env) {action : UploadAction} (hcond : s.OwnUploads action)
    (h : s.step env action = some s') : s'.Inv env := by
  unfold UploadServer.step at h
  split at h
  · obtain rfl := Option.some.inj h
    exact ⟨hinv.distinct, hinv.sound, hinv.used⟩
  · obtain rfl := Option.some.inj h
    exact hinv.accept hcond
  · split at h
    · cases h
    · obtain rfl := Option.some.inj h
      exact ⟨hinv.distinct, hinv.sound, hinv.used⟩
  · obtain rfl := Option.some.inj h
    exact hinv.downloaded hcond
  · obtain ⟨k, hsocket, h⟩ := Option.bind_eq_some_iff.1 h
    obtain ⟨socket, hk, h⟩ := Option.bind_eq_some_iff.1 h
    exact hinv.act hk hcond (acts_of_act hsocket h)

/-- A server that starts has no uploads. -/
theorem start_inv (env : UploadEnv) : start.Inv env :=
  ⟨fun _ _ _ _ h => (nomatch h), fun _ _ h => (nomatch h), fun _ h => (nomatch h)⟩

/-- **The tests hold for every file that is put to use**, in every run in which each packet
names the upload of its socket, the first packet of a persistent upload is at most
`UPLOAD_CHUNK_SIZE` bytes and is written, and no id is drawn twice: its size is the
announced one and within the ceiling of the kind it is used as, its hash is its name, its
first chunk looks like that kind, and a clip decodes. -/
theorem uploads_checked (env : UploadEnv) (actions : List UploadAction) {s : UploadServer}
    (hmeets : Meets (step env) OwnUploads start actions) (hrun : exec (step env) start actions = some s) :
    ∀ use ∈ s.used, use.Checked env := by
  have hinv : s.Inv env := exec_induct (fun _ _ _ hinv => hinv.step) (start_inv env) hmeets hrun
  exact hinv.used

/-- A picture in two chunks, while a file of the same client is uploaded. -/
def honest : List UploadAction :=
  [.login "anna", .accept 1 "anna" 5 .image, .accept 1 "anna" 6 .file,
    .metadata 0 ⟨4, 100⟩ ⟨3, "a.bmp", .replicate 32 0⟩ (.replicate 32 0) (.replicate 32 0),
    .metadata 1 ⟨4, 100⟩ ⟨1, "notes", .replicate 32 0⟩ (.replicate 32 1) (.replicate 32 2),
    .create 0 true, .create 1 true, .insert 1, .insert 0, .packet 0 5 (ascii "BM"), .packet 1 6 [7],
    .write 1 none, .write 0 none, .update 1, .update 0, .packet 0 5 [0], .write 0 none, .update 0,
    .collect 0, .tag 0 true, .probe 0, .rename 0 true, .publish 0 true, .retire 0, .drop 0, .drop 1]

/-- The theorem on that run. -/
theorem uploads_checked_honest : ∃ s : UploadServer,
    exec (step plainEnv) start honest = some s ∧ Meets (step plainEnv) OwnUploads start honest ∧
      (∀ use ∈ s.used, use.Checked plainEnv) ∧
      s.used = [⟨.image, 3, .replicate 32 0, [ascii "BM", [0]], none, true⟩] := by
  have hvalues : (exec (step plainEnv) start honest).map (·.used) =
      some [⟨.image, 3, .replicate 32 0, [ascii "BM", [0]], none, true⟩] := by decide +kernel
  obtain ⟨s, hs, hused⟩ := Option.map_eq_some_iff.1 hvalues
  have hmeets : Meets (step plainEnv) OwnUploads start honest := by decide +kernel
  exact ⟨s, hs, hmeets, uploads_checked plainEnv honest hmeets hs, hused⟩

end UploadServer

end Why2
