/-
# Shared files

A file that is not persistent goes to `AVAILABLE_FILES` when it is complete,
with the key and the nonce that were drawn for it, its size and its hash, and a
download decrypts it with those (`upload` and `send_file`,
`chat/src/network/file`).  On the disk it is under the name the client gave it.
A second file of that name takes the place of the first one and has no entry of
its own, and the first one's entry then reads the second file with the wrong key
(`shared_file_replaced`).

Every entry reads back as it was recorded in every run in which no file is
renamed over a shared file, or one that is being built; a packet names the
upload of its socket; the disk takes every chunk; and every chunk starts at a
multiple of 512 bytes in its piece of `UPLOAD_CHUNK_SIZE` bytes and ends in it,
so that the reader is in step with the writer (`shared_files_readable`).
-/

import Why2.Chat.UploadChecks

namespace Why2

open Lib

/-- The file of the entry is on the disk, and decrypted with the entry's key and nonce the
way `send_file` does it has the recorded size and hash. -/
def AvailableFile.Readable (env : UploadEnv) (files : Files UploadPath U8) (entry : AvailableFile) : Prop :=
  ∃ bytes stream text, files.read entry.path = some bytes ∧
    diskStream env.P entry.key entry.nonce = .ok stream ∧
    readFile env.build stream bytes = .ok text ∧ text.length = entry.size ∧ env.P.sha256 text = entry.hash

namespace UploadServer

/-- Every entry of `AVAILABLE_FILES` is readable. -/
def SharedReadable (env : UploadEnv) (s : UploadServer) : Prop :=
  ∀ username files, s.available.lookup username = some files → ∀ entry ∈ files, entry.Readable env s.files

/-! ### A name used twice -/

/-- One upload of a file in one chunk, on the socket at place `k`. -/
def uploadOnce (k : ℕ) (uid : U64) (filename : String) (data : List U8) : List UploadAction :=
  [.accept 1 "anna" uid .file,
    .metadata k ⟨4, 100⟩ ⟨data.length, filename, .replicate 32 0⟩ (.replicate 32 1) (.replicate 32 2),
    .create k true, .insert k, .packet k uid data, .write k none, .update k, .collect k, .tag k true,
    .probe k, .rename k true, .publish k false, .retire k, .drop k]

/-- A file of one byte, then one of two bytes under the same name. -/
def replaced : List UploadAction :=
  .login "anna" :: uploadOnce 0 5 "notes" [7] ++ uploadOnce 1 6 "notes" [8, 9]

/-- The path, the size and the length on disk of the entries of a user. -/
def listing (s : UploadServer) (username : String) : List (UploadPath × ℕ × Option ℕ) :=
  ((s.available.lookup username).getD []).map fun entry =>
    (entry.path, entry.size, (s.files.read entry.path).map List.length)

/-- The text is as long as the file. -/
theorem length_of_readable {env : UploadEnv} {files : Files UploadPath U8} {entry : AvailableFile}
    (h : entry.Readable env files) : (files.read entry.path).map List.length = some entry.size := by
  obtain ⟨bytes, stream, text, hread, hstream, htext, hsize, _⟩ := h
  rw [readFile_eq env.build (atBlock_of_diskStream hstream)] at htext
  rw [hread, Option.map_some, ← hsize, ← Except.ok.inj htext, length_xorPieces]

/-- **An entry outlives the file it was made for.** -/
theorem shared_file_replaced :
    ¬∀ (env : UploadEnv) (actions : List UploadAction) (s : UploadServer),
      exec (step env) start actions = some s → s.SharedReadable env := by
  intro h
  have hvalues : (exec (step plainEnv) start replaced).map (·.listing "anna") =
      some [(.upload "anna" "notes", 1, some 2)] := by decide +kernel
  obtain ⟨s, hs, hlisting⟩ := Option.map_eq_some_iff.1 hvalues
  have hreadable := h plainEnv replaced s hs "anna"
  unfold listing at hlisting
  cases hfiles : s.available.lookup "anna" with
  | none =>
    rw [hfiles] at hlisting
    cases hlisting
  | some files =>
    rw [hfiles, Option.getD_some] at hlisting
    obtain ⟨entry, hmem, hvalue⟩ := List.mem_map.1 (hlisting.symm ▸ List.mem_singleton_self _ :
      (UploadPath.upload "anna" "notes", 1, some 2) ∈ files.map _)
    obtain ⟨_, hvalue⟩ := Prod.mk.inj hvalue
    obtain ⟨hsize, hlength⟩ := Prod.mk.inj hvalue
    have hlength' := length_of_readable (hreadable files hfiles entry hmem)
    rw [hsize, hlength] at hlength'
    cases hlength'

end UploadServer

/-! ### Files that stay apart -/

/-- The entry a socket is about to share. -/
def Socket.entry (socket : Socket) : Option AvailableFile :=
  match socket.phase with
  | .renamed final _ true =>
    if socket.kind = .file then
      some ⟨final.finalHash, socket.newPath final, fileName final.filename, final.finalSize,
        socket.sealing.key, socket.sealing.nonce⟩
    else none
  | _ => none

/-- The path a socket is about to rename its file to. -/
def Socket.target (socket : Socket) : Option UploadPath :=
  match socket.phase with
  | .probed final .. => some (socket.newPath final)
  | _ => none

/-- The task has made its file and has not put it into `ACTIVE_FILESHARES` yet. -/
def UploadPhase.isCreated : UploadPhase → Bool
  | .created .. => true
  | _ => false

namespace UploadServer

/-- The shared files, and those about to be. -/
def shared (s : UploadServer) : List AvailableFile :=
  s.available.entries.flatMap (·.2) ++ s.sockets.filterMap Socket.entry

/-- The socket has a file at its temp path, or its guard would delete one there. -/
def holds (s : UploadServer) (socket : Socket) : Bool :=
  socket.phase.isCreated || (s.active.lookup socket.uid).isSome

/-- A packet names the upload of its socket; a chunk of a file starts at a multiple of 512
in its piece of `UPLOAD_CHUNK_SIZE` bytes and ends in it, and the disk takes it; no file is
renamed over a shared file or over one that is being built; the ids of uploads and
downloads are not drawn twice. -/
def KeepsFiles (s : UploadServer) : UploadAction → Prop
  | .accept _ _ uid _ | .downloaded uid => ∀ socket ∈ s.sockets, socket.uid ≠ uid
  | .packet k uid data => ∀ socket ∈ s.sockets[k]?, uid = socket.uid ∧
    (socket.kind = .file → data.length ≤ uploadChunkSize → ∀ active ∈ s.active.lookup uid,
      Aligned 512 uploadChunkSize active.currentSize [data.length])
  | .write k (some _) => ∀ socket ∈ s.sockets[k]?, socket.kind ≠ .file
  | .rename k _ => ∀ socket ∈ s.sockets[k]?, ∀ target ∈ socket.target,
    (∀ entry ∈ s.shared, entry.path ≠ target) ∧
      ∀ other ∈ s.sockets, other.uid ≠ socket.uid → s.holds other = true → other.tempPath ≠ target
  | _ => True

instance (s : UploadServer) : DecidablePred s.KeepsFiles := fun
  | .accept _ _ uid _ | .downloaded uid =>
    inferInstanceAs (Decidable (∀ socket ∈ s.sockets, socket.uid ≠ uid))
  | .packet k uid data => inferInstanceAs (Decidable (∀ socket ∈ s.sockets[k]?, uid = socket.uid ∧
      (socket.kind = .file → data.length ≤ uploadChunkSize → ∀ active ∈ s.active.lookup uid,
        Aligned 512 uploadChunkSize active.currentSize [data.length])))
  | .write k (some _) => inferInstanceAs (Decidable (∀ socket ∈ s.sockets[k]?, socket.kind ≠ .file))
  | .rename k _ => inferInstanceAs (Decidable (∀ socket ∈ s.sockets[k]?, ∀ target ∈ socket.target,
      (∀ entry ∈ s.shared, entry.path ≠ target) ∧
        ∀ other ∈ s.sockets, other.uid ≠ socket.uid → s.holds other = true → other.tempPath ≠ target))
  | .write _ none | .login _ | .metadata .. | .create .. | .insert _ | .update _ | .collect _ | .tag ..
  | .probe _ | .publish .. | .retire _ | .drop _ | .unlink _ => .isTrue trivial

end UploadServer

/-- Numbers are read back. -/
theorem repr_inj {m n : ℕ} (h : m.repr = n.repr) : m = n := by
  have hdigits : Nat.toDigits 10 m = Nat.toDigits 10 n := String.ofList_injective h
  rw [← Nat.ofDigitChars_ten_toDigits (n := m), hdigits, Nat.ofDigitChars_ten_toDigits]

/-- Two uploads have two paths. -/
theorem Socket.tempPath_inj {a b : Socket} (h : a.tempPath = b.tempPath) : a.uid = b.uid := by
  unfold tempPath currentPath at h
  split at h <;> split at h
  · exact UploadPath.imageTemp.inj h
  · cases h
  · cases h
  · exact BitVec.eq_of_toNat_eq (repr_inj (UploadPath.upload.inj h).2)

/-! ### What one action leaves of the disk -/

/-- A path in the directory of a user. -/
def UploadPath.isUpload : UploadPath → Bool
  | .upload .. => true
  | _ => false

/-- A file that is in no user's directory. -/
def Hidden (files : Files UploadPath U8) (file : ℕ) : Prop :=
  file < files.next ∧ ∀ p, p.isUpload = true → files.entry p ≠ some file

/-- The users' files at these paths stay, and what is hidden stays hidden. -/
structure Undisturbed (keep : UploadPath → Prop) (files files' : Files UploadPath U8) : Prop where
  entry : ∀ p file, p.isUpload = true → keep p → files.entry p = some file →
    files'.entry p = some file ∧ files'.content file = files.content file
  hidden : ∀ file, Hidden files file → Hidden files' file

namespace Undisturbed

variable {keep : UploadPath → Prop} {files files' : Files UploadPath U8} {p q : UploadPath} {file : ℕ}

/-- Files that stay are not disturbed. -/
theorem refl (keep : UploadPath → Prop) (files : Files UploadPath U8) : Undisturbed keep files files :=
  ⟨fun _ _ _ _ h => ⟨h, rfl⟩, fun _ h => h⟩

/-- A file that is kept is read as before. -/
theorem read (h : Undisturbed keep files files') (hp : p.isUpload = true) (hkeep : keep p) {bytes : List U8}
    (hread : files.read p = some bytes) : files'.read p = some bytes := by
  obtain ⟨file, hfile, hbytes⟩ := Files.read_eq_some.1 hread
  obtain ⟨hfile', hcontent⟩ := h.entry p file hp hkeep hfile
  exact Files.read_eq_some.2 ⟨file, hfile', hcontent.trans hbytes⟩

/-- A new file disturbs no other. -/
theorem createNew (hproper : files.Proper) (h : files.createNew p = some (file, files')) :
    Undisturbed keep files files' := by
  obtain ⟨hnone, rfl, hentry, hcontent, hnext⟩ := Files.entry_createNew h
  constructor
  · intro q f _ _ hf
    have hne : q ≠ p := by
      rintro rfl
      rw [hnone] at hf
      cases hf
    have hlt := hproper.lt_next q f hf
    rw [hentry, hcontent, Function.update_of_ne hne, Function.update_of_ne (Nat.ne_of_lt hlt)]
    exact ⟨hf, rfl⟩
  · rintro f ⟨hlt, hpaths⟩
    refine ⟨by omega, fun q hq hf => ?_⟩
    rw [hentry] at hf
    rcases eq_or_ne q p with rfl | hne
    · rw [Function.update_self] at hf
      have := Option.some.inj hf
      omega
    · rw [Function.update_of_ne hne] at hf
      exact hpaths q hq hf

/-- Nothing at the paths that are kept is written. -/
theorem append (hkeep : ∀ q, q.isUpload = true → keep q → files.entry q ≠ some file) (bytes : List U8) :
    Undisturbed keep files (files.append file bytes) := by
  refine ⟨fun q f hq hk hf => ⟨hf, Function.update_of_ne ?_ ..⟩, fun _ h => h⟩
  rintro rfl
  exact hkeep q hq hk hf

/-- A file that is removed disturbs no other. -/
theorem remove (hkeep : ∀ q, q.isUpload = true → keep q → q ≠ p) : Undisturbed keep files (files.remove p) := by
  constructor
  · intro q f hq hk hf
    rw [Files.entry_remove _ (hkeep q hq hk)]
    exact ⟨hf, rfl⟩
  · rintro f ⟨hlt, hpaths⟩
    refine ⟨hlt, fun q hq hf => ?_⟩
    rcases eq_or_ne q p with rfl | hne
    · rw [Files.entry_remove_self] at hf
      cases hf
    · rw [Files.entry_remove _ hne] at hf
      exact hpaths q hq hf

/-- A file is moved within the users' directories, or outside of them. -/
theorem rename (h : files.rename p q = some files') (hdir : p.isUpload = q.isUpload)
    (hkeep : ∀ r, r.isUpload = true → keep r → r ≠ p ∧ r ≠ q) : Undisturbed keep files files' := by
  obtain ⟨f, hf, hentry, hcontent, hnext⟩ := Files.entry_rename h
  constructor
  · intro r g hr hk hg
    obtain ⟨hrp, hrq⟩ := hkeep r hr hk
    rw [hentry, hcontent, Function.update_of_ne hrq, Files.entry_remove _ hrp]
    exact ⟨hg, rfl⟩
  · rintro g ⟨hlt, hpaths⟩
    refine ⟨by omega, fun r hr hg => ?_⟩
    rw [hentry] at hg
    rcases eq_or_ne r q with rfl | hrq
    · rw [Function.update_self] at hg
      obtain rfl := Option.some.inj hg
      exact hpaths p (hdir.trans hr) hf
    · rw [Function.update_of_ne hrq] at hg
      rcases eq_or_ne r p with rfl | hrp
      · rw [Files.entry_remove_self] at hg
        cases hg
      · rw [Files.entry_remove _ hrp] at hg
        exact hpaths r hr hg

end Undisturbed

/-! ### What is on the disk of an upload -/

/-- These bytes are the chunks, each aligned, under the keystream of the keys, and the
stream is where the chunks end. -/
def Stored (env : UploadEnv) (sealing : Sealing) (bytes : List U8) (stream : RexStream 8 8)
    (chunks : List (List U8)) : Prop :=
  ∃ origin, diskStream env.P sealing.key sealing.nonce = .ok origin ∧
    AtBlock stream origin (blocksOf chunks) ∧ Aligned 512 uploadChunkSize 0 (chunks.map List.length) ∧
    bytes = xorPieces env.build origin 0 (chunks.map List.length) chunks.flatten

namespace Stored

variable {env : UploadEnv} {sealing : Sealing} {bytes more data : List U8} {stream stream' : RexStream 8 8}
  {chunks : List (List U8)}

/-- Nothing is stored yet. -/
theorem nil (h : diskStream env.P sealing.key sealing.nonce = .ok stream) : Stored env sealing [] stream [] :=
  ⟨stream, h, atBlock_of_diskStream h, trivial, rfl⟩

/-- A chunk is encrypted. -/
theorem concat (h : Stored env sealing bytes stream chunks)
    (hcrypt : RexPacketStream.crypt env.build stream data = .ok (more, stream'))
    (haligned : Aligned 512 uploadChunkSize chunks.flatten.length [data.length]) :
    Stored env sealing (bytes ++ more) stream' (chunks ++ [data]) := by
  obtain ⟨origin, horigin, hat, hchunks, rfl⟩ := h
  obtain ⟨stream'', hcrypt', hnext⟩ := crypt_piece env.build hat data
  obtain ⟨rfl, rfl⟩ := Prod.mk.inj (Except.ok.inj (hcrypt.symm.trans hcrypt'))
  refine ⟨origin, horigin, ?_, ?_, ?_⟩
  · have hblocks : blocksOf (chunks ++ [data]) = blocksOf chunks + blockCount 512 data.length := by
      simp [blocksOf]
    rwa [hblocks]
  · rw [List.map_append, List.map_singleton]
    refine aligned_concat hchunks ?_
    rwa [Nat.zero_add, ← List.length_flatten]
  · rw [xorPieces_concat, Nat.zero_add]

/-- It reads back. -/
theorem read (h : Stored env sealing bytes stream chunks) :
    ∃ origin, diskStream env.P sealing.key sealing.nonce = .ok origin ∧
      readFile env.build origin bytes = .ok chunks.flatten := by
  obtain ⟨origin, horigin, _, haligned, rfl⟩ := h
  refine ⟨origin, horigin, ?_⟩
  rw [readFile_xorPieces env.build env.build (atBlock_of_diskStream horigin)]
  intro i hi
  rw [position_eq_readPosition haligned (by rwa [← List.length_flatten])]

end Stored

/-- The file a socket writes to: the one at its temp path, or one that no user sees. -/
def Socket.Writes (files : Files UploadPath U8) (socket : Socket) (file : ℕ) : Prop :=
  if socket.kind = .file then files.entry socket.tempPath = some file else Hidden files file

/-- The file of a socket: once `pending` is written, it is these chunks. -/
structure Socket.Made (env : UploadEnv) (files : Files UploadPath U8) (socket : Socket) (file : ℕ)
    (pending : List U8) (stream : RexStream 8 8) (chunks : List (List U8)) : Prop where
  writes : socket.Writes files file
  stored : socket.kind = .file → Stored env socket.sealing (files.content file ++ pending) stream chunks

/-- The counters of an upload that is not persistent. -/
structure Fileshare.Counted (kind : UploadKind) (active : Fileshare) : Prop where
  hashed : kind = .file → active.hashed = active.chunks.flatten
  size : kind = .file → active.currentSize = active.chunks.flatten.length
  macKey : kind = .file → active.macKey = none

/-- What is collected of one. -/
structure Finished.Counted (env : UploadEnv) (uid : U64) (kind : UploadKind) (final : Finished) : Prop where
  uid_eq : final.uid = uid
  hash : kind = .file → final.finalHash = env.P.sha256 final.chunks.flatten
  size : kind = .file → final.finalSize = final.chunks.flatten.length
  macKey : kind = .file → final.macKey = none

/-- What the task of a socket knows of its file, in each phase. -/
def Socket.Building (env : UploadEnv) (files : Files UploadPath U8) (active : Option Fileshare)
    (socket : Socket) : Prop :=
  match socket.phase with
  | .waiting => active = none
  | .announced _ => active = none ∧ (socket.kind = .file → socket.sealing.macKey = none)
  | .created _ stream file => active = none ∧ (socket.kind = .file → socket.sealing.macKey = none) ∧
    socket.Made env files file [] stream []
  | .receiving _ => ∃ a, active = some a ∧ a.Counted socket.kind ∧
    socket.Made env files a.file [] a.stream a.chunks
  | .prepared uid data bytes file => uid = socket.uid ∧ ∃ a, active = some a ∧ a.Counted socket.kind ∧
    socket.Made env files file bytes a.stream (a.chunks ++ [data]) ∧ a.file = file
  | .written uid data _ file => uid = socket.uid ∧ ∃ a, active = some a ∧ a.Counted socket.kind ∧
    socket.Made env files file [] a.stream (a.chunks ++ [data]) ∧ a.file = file
  | .complete uid file => uid = socket.uid ∧ ∃ a, active = some a ∧ a.Counted socket.kind ∧
    socket.Made env files file [] a.stream a.chunks
  | .collected file final => active.isSome = true ∧ final.Counted env socket.uid socket.kind ∧
    ∃ stream, socket.Made env files file [] stream final.chunks
  | .verified final _ => active.isSome = true ∧ final.Counted env socket.uid socket.kind ∧
    ∃ file stream, socket.Made env files file [] stream final.chunks
  | .probed final _ insert => active.isSome = true ∧ final.Counted env socket.uid socket.kind ∧
    (insert = true → socket.kind = .file → socket.newPath final ≠ socket.tempPath) ∧
      ∃ file stream, socket.Made env files file [] stream final.chunks
  | .renamed final .. => final.uid = socket.uid
  | .published uid => uid = socket.uid
  | .closing | .closed => True

/-- The path of a running upload is one of uploads. -/
theorem Socket.isUpload_tempPath {socket : Socket} (h : socket.kind = .file) :
    socket.tempPath.isUpload = true := by
  unfold tempPath currentPath
  rw [h]
  rfl

/-- Its path is of the kind of the finished one. -/
theorem Socket.isUpload_currentPath (socket : Socket) (uid : U64) (final : Finished) :
    (socket.currentPath uid).isUpload = (socket.newPath final).isUpload := by
  unfold Socket.currentPath Socket.newPath
  split <;> rfl

section Frame

variable {env : UploadEnv} {keep : UploadPath → Prop} {files files' : Files UploadPath U8} {socket : Socket}
  {file : ℕ} {pending : List U8} {stream : RexStream 8 8} {chunks : List (List U8)}

/-- What a socket has made stays while its file does. -/
theorem Socket.Made.frame (h : socket.Made env files file pending stream chunks)
    (hfiles : Undisturbed keep files files') (hkeep : keep socket.tempPath) :
    socket.Made env files' file pending stream chunks := by
  have hwrites := h.writes
  unfold Socket.Writes at hwrites
  split at hwrites
  · rename_i hkind
    obtain ⟨hentry, hcontent⟩ := hfiles.entry _ file (isUpload_tempPath hkind) hkeep hwrites
    refine ⟨?_, fun hfile => ?_⟩
    · rwa [Socket.Writes, if_pos hkind]
    · rw [hcontent]
      exact h.stored hfile
  · rename_i hkind
    refine ⟨?_, fun hfile => absurd hfile hkind⟩
    rw [Socket.Writes, if_neg hkind]
    exact hfiles.hidden file hwrites

/-- The file a socket has just made. -/
theorem Socket.made_createNew (hproper : files.Proper) (hcreate : files.createNew socket.tempPath = some (file, files'))
    (hstream : diskStream env.P socket.sealing.key socket.sealing.nonce = .ok stream) :
    socket.Made env files' file [] stream [] := by
  obtain ⟨hnone, rfl, hentry, hcontent, hnext⟩ := Files.entry_createNew hcreate
  refine ⟨?_, fun _ => ?_⟩
  · unfold Socket.Writes
    split
    · rw [hentry, Function.update_self]
    · rename_i hkind
      refine ⟨by omega, fun p hp hfile => ?_⟩
      have hne : p ≠ socket.tempPath := by
        rintro rfl
        unfold Socket.tempPath Socket.currentPath at hp
        rw [if_pos (by simp [UploadKind.persistent, hkind])] at hp
        cases hp
      rw [hentry, Function.update_of_ne hne] at hfile
      exact absurd (hproper.lt_next p _ hfile) (Nat.lt_irrefl _)
  · rw [hcontent, Function.update_self]
    exact .nil hstream

/-- There is no tag on a file that is not persistent. -/
theorem Socket.Made.tag {final : Finished}
    (hmade : socket.Made env files file [] stream final.chunks)
    (hcounted : final.Counted env socket.uid socket.kind) :
    socket.Made env (files.append file (final.tag env)) file [] stream final.chunks := by
  refine ⟨hmade.writes, fun hkind => ?_⟩
  rw [Files.content_append_self, Finished.tag, hcounted.macKey hkind, List.append_nil]
  exact hmade.stored hkind

/-- What a task knows of its file is about its own path. -/
theorem Socket.Building.frame {active : Option Fileshare} (h : socket.Building env files active)
    (hfiles : Undisturbed keep files files')
    (hkeep : (socket.phase.isCreated || active.isSome) = true → keep socket.tempPath) :
    socket.Building env files' active := by
  unfold Socket.Building at h ⊢
  cases hphase : socket.phase with
  | waiting | announced | renamed | published =>
    simp only [hphase] at h ⊢
    exact h
  | closing | closed => trivial
  | created data stream file =>
    simp only [hphase] at h ⊢
    have hown := hkeep (by rw [hphase]; rfl)
    exact ⟨h.1, h.2.1, h.2.2.frame hfiles hown⟩
  | receiving checked =>
    simp only [hphase] at h ⊢
    obtain ⟨a, ha, hcounted, hmade⟩ := h
    exact ⟨a, ha, hcounted, hmade.frame hfiles (hkeep (by rw [ha, hphase]; rfl))⟩
  | prepared uid data bytes file =>
    simp only [hphase] at h ⊢
    obtain ⟨huid, a, ha, hcounted, hmade, hfile⟩ := h
    exact ⟨huid, a, ha, hcounted, hmade.frame hfiles (hkeep (by rw [ha, hphase]; rfl)), hfile⟩
  | written uid data bytes file =>
    simp only [hphase] at h ⊢
    obtain ⟨huid, a, ha, hcounted, hmade, hfile⟩ := h
    exact ⟨huid, a, ha, hcounted, hmade.frame hfiles (hkeep (by rw [ha, hphase]; rfl)), hfile⟩
  | complete uid file =>
    simp only [hphase] at h ⊢
    obtain ⟨huid, a, ha, hcounted, hmade⟩ := h
    exact ⟨huid, a, ha, hcounted, hmade.frame hfiles (hkeep (by rw [ha, hphase]; rfl))⟩
  | collected file final =>
    simp only [hphase] at h ⊢
    obtain ⟨hactive, hcounted, stream, hmade⟩ := h
    exact ⟨hactive, hcounted, stream, hmade.frame hfiles (hkeep (by rw [hactive, hphase]; rfl))⟩
  | verified final voice =>
    simp only [hphase] at h ⊢
    obtain ⟨hactive, hcounted, file, stream, hmade⟩ := h
    exact ⟨hactive, hcounted, file, stream, hmade.frame hfiles (hkeep (by rw [hactive, hphase]; rfl))⟩
  | probed final voice insert =>
    simp only [hphase] at h ⊢
    obtain ⟨hactive, hcounted, hnew, file, stream, hmade⟩ := h
    exact ⟨hactive, hcounted, hnew, file, stream, hmade.frame hfiles (hkeep (by rw [hactive, hphase]; rfl))⟩

/-- A shared file stays readable while it is kept. -/
theorem AvailableFile.Readable.frame {entry : AvailableFile} (h : entry.Readable env files)
    (hfiles : Undisturbed keep files files') (hpath : entry.path.isUpload = true) (hkeep : keep entry.path) :
    entry.Readable env files' := by
  obtain ⟨bytes, stream, text, hread, hstream, htext⟩ := h
  exact ⟨bytes, stream, text, hfiles.read hpath hkeep hread, hstream, htext⟩

end Frame

namespace UploadServer

variable {env : UploadEnv} {s s' : UploadServer} {k : ℕ} {socket socket' : Socket} {entry : AvailableFile}

/-- What is shared, or is about to be. -/
theorem mem_shared : entry ∈ s.shared ↔
    (∃ username files, s.available.lookup username = some files ∧ entry ∈ files) ∨
      ∃ other ∈ s.sockets, other.entry = some entry := by
  unfold shared
  rw [List.mem_append, List.mem_flatMap, List.mem_filterMap]
  refine or_congr_left ⟨?_, ?_⟩
  · rintro ⟨⟨username, files⟩, hmem, hentry⟩
    exact ⟨username, files, AList.mem_lookup_iff.2 hmem, hentry⟩
  · rintro ⟨username, files, hlookup, hentry⟩
    exact ⟨⟨username, files⟩, AList.mem_lookup_iff.1 hlookup, hentry⟩

/-- Only the task that acts can bring in an entry. -/
theorem shared_of_set (h : entry ∈ s'.shared) (hsockets : s'.sockets = s.sockets.set k socket')
    (havailable : s'.available = s.available) : entry ∈ s.shared ∨ socket'.entry = some entry := by
  rcases mem_shared.1 h with htable | ⟨other, hother, hentry⟩
  · rw [havailable] at htable
    exact .inl (mem_shared.2 (.inl htable))
  · rw [hsockets] at hother
    rcases List.mem_or_eq_of_mem_set hother with hmem | rfl
    · exact .inl (mem_shared.2 (.inr ⟨other, hmem, hentry⟩))
    · exact .inr hentry

/-- Every socket has an upload id of its own, what its task knows of its file is true, every
shared file can be read, and no other file is built at its path. -/
structure Shares (env : UploadEnv) (s : UploadServer) : Prop where
  distinct : s.Distinct
  proper : s.files.Proper
  owned : ∀ uid a, s.active.lookup uid = some a → ∃ socket ∈ s.sockets, socket.uid = uid ∧ a.path = socket.tempPath
  building : ∀ (k : ℕ) (socket : Socket), s.sockets[k]? = some socket →
    socket.Building env s.files (s.active.lookup socket.uid)
  readable : ∀ entry ∈ s.shared, entry.Readable env s.files ∧ entry.path.isUpload = true
  apart : ∀ entry ∈ s.shared, ∀ socket ∈ s.sockets, s.holds socket = true → socket.tempPath ≠ entry.path

/-- Two sockets have two uploads. -/
theorem Distinct.eq_of_mem (hdistinct : s.Distinct) {a b : Socket} (ha : a ∈ s.sockets) (hb : b ∈ s.sockets)
    (huid : a.uid = b.uid) : a = b := by
  obtain ⟨i, hi⟩ := List.mem_iff_getElem?.1 ha
  obtain ⟨j, hj⟩ := List.mem_iff_getElem?.1 hb
  obtain rfl := hdistinct i j a b hi hj huid
  exact Option.some.inj (hi.symm.trans hj)

/-- The upload of a socket is at its temp path. -/
theorem Shares.path_eq (hinv : s.Shares env) (hk : s.sockets[k]? = some socket) {a : Fileshare}
    (ha : s.active.lookup socket.uid = some a) : a.path = socket.tempPath := by
  obtain ⟨other, hother, huid, hpath⟩ := hinv.owned socket.uid a ha
  rw [hpath, hinv.distinct.eq_of_mem hother (List.mem_of_getElem? hk) huid]

/-- **A task that keeps to its own upload and its own paths leaves the shared files and
what the others know.** -/
theorem Shares.frame (hinv : s.Shares env) (hk : s.sockets[k]? = some socket) (keep : UploadPath → Prop)
    (hsockets : s'.sockets = s.sockets.set k socket') (huid : socket'.uid = socket.uid)
    (htemp : socket'.tempPath = socket.tempPath)
    (hactive : ∀ uid, uid ≠ socket.uid → s'.active.lookup uid = s.active.lookup uid)
    (hown : ∀ a, s'.active.lookup socket.uid = some a → a.path = socket.tempPath)
    (hproper : s'.files.Proper) (hfiles : Undisturbed keep s.files s'.files)
    (hkeep : ∀ other ∈ s.sockets, other.uid ≠ socket.uid → s.holds other = true → keep other.tempPath)
    (hkept : ∀ entry ∈ s.shared, keep entry.path)
    (hbuilding : socket'.Building env s'.files (s'.active.lookup socket.uid))
    (hholds : s'.holds socket' = true → ∀ entry ∈ s.shared, socket.tempPath ≠ entry.path)
    (hshared : ∀ entry ∈ s'.shared, entry ∈ s.shared ∨
      entry.Readable env s'.files ∧ entry.path.isUpload = true ∧ socket.tempPath ≠ entry.path ∧
        ∀ other ∈ s.sockets, other.uid ≠ socket.uid → s.holds other = true → other.tempPath ≠ entry.path) :
    s'.Shares env := by
  have hmem : socket ∈ s.sockets := List.mem_of_getElem? hk
  have hmem' : socket' ∈ s'.sockets := by
    rw [hsockets]
    exact List.mem_set (List.getElem?_eq_some_iff.1 hk).1 _
  -- A socket is the one that acted, or another one as it was.
  have hothers : ∀ (j : ℕ) (b : Socket), s'.sockets[j]? = some b →
      j = k ∧ b = socket' ∨ b ∈ s.sockets ∧ b.uid ≠ socket.uid ∧ s.sockets[j]? = some b := by
    intro j b hb
    rcases socket_of_set hk hsockets hb with h | ⟨hne, hb⟩
    · exact .inl h
    · exact .inr ⟨List.mem_of_getElem? hb, fun h => hne (hinv.distinct j k b socket hb hk h), hb⟩
  refine ⟨hinv.distinct.set hk hsockets huid, hproper, ?_, ?_, ?_, ?_⟩
  · intro uid a ha
    rcases eq_or_ne uid socket.uid with rfl | hne
    · exact ⟨socket', hmem', huid, (hown a ha).trans htemp.symm⟩
    · rw [hactive uid hne] at ha
      obtain ⟨other, hother, rfl, hpath⟩ := hinv.owned uid a ha
      obtain ⟨j, hj⟩ := List.mem_iff_getElem?.1 hother
      have hjk : k ≠ j := by
        rintro rfl
        exact hne (congrArg Socket.uid (Option.some.inj (hj.symm.trans hk)))
      refine ⟨other, ?_, rfl, hpath⟩
      rw [hsockets]
      exact List.mem_of_getElem? (by rw [List.getElem?_set_ne hjk]; exact hj)
  · intro j b hb
    rcases hothers j b hb with ⟨_, rfl⟩ | ⟨hmemb, hne, hb⟩
    · rwa [huid]
    · rw [hactive _ hne]
      exact (hinv.building j b hb).frame hfiles fun h => hkeep b hmemb hne h
  · intro entry hentry
    rcases hshared entry hentry with hold | ⟨hreadable, hupload, _⟩
    · obtain ⟨hreadable, hupload⟩ := hinv.readable entry hold
      exact ⟨hreadable.frame hfiles hupload (hkept entry hold), hupload⟩
    · exact ⟨hreadable, hupload⟩
  · intro entry hentry b hb hheld
    obtain ⟨j, hj⟩ := List.mem_iff_getElem?.1 hb
    rcases hothers j b hj with ⟨_, rfl⟩ | ⟨hmemb, hne, _⟩
    · rw [htemp]
      rcases hshared entry hentry with hold | ⟨_, _, hnew, _⟩
      · exact hholds hheld entry hold
      · exact hnew
    · have hheld' : s.holds b = true := by
        unfold holds at hheld ⊢
        rwa [hactive _ hne] at hheld
      rcases hshared entry hentry with hold | ⟨_, _, _, hnew⟩
      · exact hinv.apart entry hold b hmemb hheld'
      · exact hnew b hmemb hne hheld'

/-- The disk and the table stay as they are. -/
theorem Shares.quiet (hinv : s.Shares env) (hk : s.sockets[k]? = some socket)
    (hsockets : s'.sockets = s.sockets.set k socket') (huid : socket'.uid = socket.uid)
    (htemp : socket'.tempPath = socket.tempPath)
    (hactive : ∀ uid, uid ≠ socket.uid → s'.active.lookup uid = s.active.lookup uid)
    (hown : ∀ a, s'.active.lookup socket.uid = some a → a.path = socket.tempPath)
    (hfiles : s'.files = s.files) (havailable : s'.available = s.available) (hentry : socket'.entry = none)
    (hbuilding : socket'.Building env s.files (s'.active.lookup socket.uid))
    (hholds : s'.holds socket' = true → s.holds socket = true) : s'.Shares env := by
  refine hinv.frame hk (fun _ => True) hsockets huid htemp hactive hown ?_ ?_ (fun _ _ _ _ => trivial)
    (fun _ _ => trivial) ?_ ?_ ?_
  · rw [hfiles]
    exact hinv.proper
  · rw [hfiles]
    exact Undisturbed.refl _ _
  · rwa [hfiles]
  · intro h entry hmem
    exact hinv.apart entry hmem socket (List.mem_of_getElem? hk) (hholds h)
  · intro entry hmem
    rcases shared_of_set hmem hsockets havailable with hold | hnew
    · exact .inl hold
    · rw [hentry] at hnew
      cases hnew

/-- The socket only moves on. -/
theorem Shares.goto (hinv : s.Shares env) (hk : s.sockets[k]? = some socket) {phase : UploadPhase}
    (hentry : Socket.entry { socket with phase } = none)
    (hbuilding : Socket.Building env s.files (s.active.lookup socket.uid) { socket with phase })
    (hcreated : phase.isCreated = true → s.holds socket = true) : (s.goto k socket phase).Shares env := by
  refine hinv.quiet hk rfl rfl rfl (fun _ _ => rfl) (fun a ha => hinv.path_eq hk ha) rfl rfl hentry hbuilding ?_
  intro h
  rcases Bool.or_eq_true_iff.1 h with hphase | hactive
  · exact hcreated hphase
  · exact Bool.or_eq_true_iff.2 (.inr hactive)

/-- A socket that closes shares nothing more. -/
theorem Shares.closing (hinv : s.Shares env) (hk : s.sockets[k]? = some socket) :
    (s.goto k socket .closing).Shares env :=
  hinv.goto hk rfl trivial fun h => (nomatch h)

/-! ### The actions of a task -/

/-- An announced upload has no file yet. -/
theorem Shares.metadata (hinv : s.Shares env) (hk : s.sockets[k]? = some socket)
    (hphase : socket.phase = .waiting) (config : UploadConfig) (data : FileMetadata)
    (keySeed nonceSeed : Vector U8 32) :
    (s.metadata env k socket config data keySeed nonceSeed).Shares env := by
  have hnone := hinv.building k socket hk
  rw [Socket.Building, hphase] at hnone
  unfold UploadServer.metadata
  split
  · exact hinv.closing hk
  split
  · exact hinv.closing hk
  split
  · exact hinv.closing hk
  rename_i sealing hsealing
  split
  · refine hinv.quiet hk rfl rfl rfl (fun _ _ => rfl) (fun a ha => hinv.path_eq hk ha) rfl rfl rfl ?_ ?_
    · refine ⟨hnone, fun hkind => ?_⟩
      have hkind' : socket.kind = .file := hkind
      unfold UploadEnv.sealing at hsealing
      rw [hkind', if_neg (by decide)] at hsealing
      cases hnonce : generateNonce (W := 8) (H := 8) env.P nonceSeed with
      | error fault =>
        rw [hnonce] at hsealing
        cases hsealing
      | ok nonce =>
        rw [hnonce] at hsealing
        obtain rfl := Except.ok.inj hsealing
        rfl
    · intro h
      have hlookup : (s.active.lookup socket.uid).isSome = true := h
      rw [hnone] at hlookup
      cases hlookup
  · exact hinv.closing hk

/-- A created file belongs to its upload. -/
theorem Shares.create (hinv : s.Shares env) (hk : s.sockets[k]? = some socket) {data : FileMetadata}
    (hphase : socket.phase = .announced data) (ok : Bool) : (s.create env k socket data ok).Shares env := by
  have hbuilding := hinv.building k socket hk
  rw [Socket.Building, hphase] at hbuilding
  obtain ⟨hnone, hmac⟩ := hbuilding
  unfold UploadServer.create
  split
  · exact hinv.closing hk
  rename_i stream hstream
  split
  · exact hinv.closing hk
  rename_i file files hfile
  have hcreate : s.files.createNew socket.tempPath = some (file, files) := by
    cases ok with
    | false => cases hfile
    | true => exact hfile
  refine hinv.frame hk (fun _ => True) rfl rfl rfl (fun _ _ => rfl) (fun a ha => hinv.path_eq hk ha)
    (hinv.proper.createNew hcreate) (Undisturbed.createNew hinv.proper hcreate) (fun _ _ _ _ => trivial)
    (fun _ _ => trivial) ?_ ?_ ?_
  · have hmade := Socket.made_createNew hinv.proper hcreate hstream
    exact ⟨hnone, hmac, hmade.writes, hmade.stored⟩
  · -- There is no file at the temp path, and there is one at every shared path.
    intro _ entry hentry htemp
    obtain ⟨⟨bytes, _, _, hread, _⟩, _⟩ := hinv.readable entry hentry
    rw [← htemp, Files.read, (Files.entry_createNew hcreate).1] at hread
    cases hread
  · intro entry hentry
    exact (shared_of_set (s := s) hentry rfl rfl).imp_right fun h => by cases h

/-- The upload of a socket is changed, and stays at its path. -/
theorem Shares.upload (hinv : s.Shares env) (hk : s.sockets[k]? = some socket) {phase : UploadPhase}
    {a a' : Fileshare} (ha : s.active.lookup socket.uid = some a) (hpath : a'.path = a.path)
    (hentry : Socket.entry { socket with phase } = none)
    (hbuilding : Socket.Building env s.files (some a') { socket with phase }) :
    Shares env { s.goto k socket phase with active := s.active.insert socket.uid a' } := by
  refine hinv.quiet hk rfl rfl rfl (fun _ hne => AList.lookup_insert_ne hne) ?_ rfl rfl hentry ?_ ?_
  · intro b hb
    rw [AList.lookup_insert] at hb
    obtain rfl := Option.some.inj hb
    exact hpath.trans (hinv.path_eq hk ha)
  · rwa [AList.lookup_insert]
  · intro _
    rw [holds, ha]
    exact Bool.or_true _

/-- An upload that is registered is that of its socket. -/
theorem Shares.insert (hinv : s.Shares env) (hk : s.sockets[k]? = some socket) {data : FileMetadata}
    {stream : RexStream 8 8} {file : ℕ} (hphase : socket.phase = .created data stream file) :
    (s.insert k socket data stream file).Shares env := by
  have hbuilding := hinv.building k socket hk
  rw [Socket.Building, hphase] at hbuilding
  obtain ⟨_, hmac, hmade⟩ := hbuilding
  refine hinv.quiet hk rfl rfl rfl (fun _ hne => AList.lookup_insert_ne hne) ?_ rfl rfl rfl ?_ ?_
  · intro a ha
    rw [UploadServer.insert, AList.lookup_insert] at ha
    obtain rfl := Option.some.inj ha
    rfl
  · rw [UploadServer.insert, AList.lookup_insert]
    exact ⟨_, rfl, ⟨fun _ => rfl, fun _ => rfl, hmac⟩, hmade.writes, hmade.stored⟩
  · intro _
    rw [holds, hphase]
    rfl

/-- A packet is encrypted where the last one ended. -/
theorem Shares.packet (hinv : s.Shares env) (hk : s.sockets[k]? = some socket) {checked : Bool}
    (hphase : socket.phase = .receiving checked) {data : List U8}
    (haligned : socket.kind = .file → data.length ≤ uploadChunkSize → ∀ active ∈ s.active.lookup socket.uid,
      Aligned 512 uploadChunkSize active.currentSize [data.length]) :
    (s.packet env k socket checked socket.uid data).Shares env := by
  have hbuilding := hinv.building k socket hk
  rw [Socket.Building, hphase] at hbuilding
  obtain ⟨a, ha, hcounted, hmade⟩ := hbuilding
  have hreceiving : (s.goto k socket (.receiving true)).Shares env :=
    hinv.goto hk rfl ⟨a, ha, hcounted, hmade.writes, hmade.stored⟩ fun h => (nomatch h)
  unfold UploadServer.packet
  split
  · exact hinv.closing hk
  rw [ha]
  simp only
  split
  · rename_i hlength
    split
    · exact hinv.closing hk
    rename_i bytes encrypted hencrypt
    obtain ⟨stream, hcrypt, rfl⟩ := ActiveFileshare.encrypt_eq_ok hencrypt
    refine hinv.upload hk ha rfl rfl ⟨rfl, _, rfl, ⟨hcounted.hashed, hcounted.size, hcounted.macKey⟩,
      ⟨hmade.writes, fun hkind => ?_⟩, rfl⟩
    have hstored := hmade.stored hkind
    rw [List.append_nil] at hstored
    refine hstored.concat hcrypt ?_
    rw [← hcounted.size hkind]
    exact haligned hkind hlength.2 a ha
  · exact hreceiving

/-- What a socket writes disturbs no other path. -/
theorem undisturbed_append {files : Files UploadPath U8} {file : ℕ} (hproper : files.Proper)
    (hwrites : socket.Writes files file) (bytes : List U8) :
    Undisturbed (· ≠ socket.tempPath) files (files.append file bytes) := by
  refine Undisturbed.append (fun q hq hne hfile => ?_) bytes
  unfold Socket.Writes at hwrites
  split at hwrites
  · exact hne (hproper.inj q _ file hfile hwrites)
  · exact hwrites.2 q hq hfile

/-- The task of a socket writes to its file. -/
theorem Shares.append (hinv : s.Shares env) (hk : s.sockets[k]? = some socket) {phase : UploadPhase}
    {file : ℕ} (hheld : (s.active.lookup socket.uid).isSome = true) (hwrites : socket.Writes s.files file)
    (bytes : List U8) (hentry : Socket.entry { socket with phase } = none)
    (hbuilding : Socket.Building env (s.files.append file bytes) (s.active.lookup socket.uid)
      { socket with phase }) :
    Shares env { s.goto k socket phase with files := s.files.append file bytes } := by
  have hholds : s.holds socket = true := Bool.or_eq_true_iff.2 (.inr hheld)
  have happart := fun entry hentry => hinv.apart entry hentry socket (List.mem_of_getElem? hk) hholds
  refine hinv.frame hk (· ≠ socket.tempPath) rfl rfl rfl (fun _ _ => rfl) (fun a ha => hinv.path_eq hk ha)
    (hinv.proper.append file bytes) (undisturbed_append hinv.proper hwrites bytes) ?_ ?_ hbuilding
    (fun _ => happart) ?_
  · intro other _ hne _ htemp
    exact hne (Socket.tempPath_inj htemp)
  · intro entry hentry htemp
    exact happart entry hentry htemp.symm
  · intro entry hmem
    refine (shared_of_set (s := s) hmem rfl rfl).imp_right fun h => ?_
    rw [hentry] at h
    cases h

/-- What is written is what was encrypted. -/
theorem Shares.write (hinv : s.Shares env) (hk : s.sockets[k]? = some socket) {uid : U64}
    {data bytes : List U8} {file : ℕ} (hphase : socket.phase = .prepared uid data bytes file)
    {failed : Option ℕ} (hdisk : failed.isSome = true → socket.kind ≠ .file) :
    (s.write k socket uid data bytes file failed).Shares env := by
  have hbuilding := hinv.building k socket hk
  rw [Socket.Building, hphase] at hbuilding
  obtain ⟨rfl, a, ha, hcounted, hmade, rfl⟩ := hbuilding
  have hheld : (s.active.lookup socket.uid).isSome = true := by
    rw [ha]
    rfl
  unfold UploadServer.write
  split
  · refine hinv.append hk hheld hmade.writes bytes rfl ⟨rfl, a, ha, hcounted, ⟨hmade.writes, fun hkind => ?_⟩, rfl⟩
    have hstored := hmade.stored hkind
    rw [Files.content_append_self, List.append_nil]
    exact hstored
  · refine hinv.append hk hheld hmade.writes _ rfl ⟨a, ha, hcounted, hmade.writes, fun hkind => ?_⟩
    exact absurd hkind (hdisk rfl)

/-- The size is that of what was written. -/
theorem Shares.update (hinv : s.Shares env) (hk : s.sockets[k]? = some socket) {uid : U64}
    {data bytes : List U8} {file : ℕ} (hphase : socket.phase = .written uid data bytes file) :
    (s.update k socket uid data bytes file).Shares env := by
  have hbuilding := hinv.building k socket hk
  rw [Socket.Building, hphase] at hbuilding
  obtain ⟨rfl, a, ha, hcounted, hmade, rfl⟩ := hbuilding
  unfold UploadServer.update
  rw [ha]
  simp only
  split
  · exact hinv.upload hk ha rfl rfl trivial
  have htaken : (a.take data bytes).Counted socket.kind := by
    have hflatten : (a.take data bytes).chunks.flatten = a.chunks.flatten ++ data := by
      simp [Fileshare.take]
    refine ⟨fun hkind => ?_, fun hkind => ?_, hcounted.macKey⟩
    · rw [hflatten, ← hcounted.hashed hkind]
      rfl
    · rw [hflatten, List.length_append, ← hcounted.size hkind]
      rfl
  split
  · exact hinv.upload hk ha rfl rfl ⟨rfl, _, rfl, htaken, hmade.writes, hmade.stored⟩
  · exact hinv.upload hk ha rfl rfl ⟨_, rfl, htaken, hmade.writes, hmade.stored⟩

/-- What is collected was written whole. -/
theorem Shares.collect (hinv : s.Shares env) (hk : s.sockets[k]? = some socket) {uid : U64} {file : ℕ}
    (hphase : socket.phase = .complete uid file) : (s.collect env k socket uid file).Shares env := by
  have hbuilding := hinv.building k socket hk
  rw [Socket.Building, hphase] at hbuilding
  obtain ⟨rfl, a, ha, hcounted, hmade⟩ := hbuilding
  unfold UploadServer.collect
  rw [ha]
  refine hinv.upload hk ha rfl rfl ⟨rfl, ⟨rfl, fun hkind => ?_, hcounted.size, hcounted.macKey⟩,
    a.stream, hmade.writes, hmade.stored⟩
  exact congrArg env.P.sha256 (hcounted.hashed hkind)

/-- The tag is that of the whole file. -/
theorem Shares.tag (hinv : s.Shares env) (hk : s.sockets[k]? = some socket) {file : ℕ} {final : Finished}
    (hphase : socket.phase = .collected file final) (ok : Bool) :
    (s.tag env k socket file final ok).Shares env := by
  have hbuilding := hinv.building k socket hk
  rw [Socket.Building, hphase] at hbuilding
  obtain ⟨hheld, hcounted, stream, hmade⟩ := hbuilding
  have htagged := hmade.tag hcounted
  have hclosing : Shares env
      { s.goto k socket .closing with files := s.files.append file (final.tag env) } :=
    hinv.append hk hheld hmade.writes _ rfl trivial
  have hverified : ∀ voice, Shares env
      { s.goto k socket (.verified final voice) with files := s.files.append file (final.tag env) } :=
    fun voice => hinv.append hk hheld hmade.writes _ rfl
      ⟨hheld, hcounted, file, stream, htagged.writes, htagged.stored⟩
  unfold UploadServer.tag
  split
  · exact hinv.closing hk
  extract_lets tagged
  split
  · exact hclosing
  split
  · split
    · exact hclosing
    · exact hverified _
  · exact hverified _

/-- A probe reads the file only. -/
theorem Shares.probe (hinv : s.Shares env) (hk : s.sockets[k]? = some socket) {final : Finished}
    {voice : Option VoiceNote} (hphase : socket.phase = .verified final voice) :
    (s.probe k socket final voice).Shares env := by
  have hbuilding := hinv.building k socket hk
  rw [Socket.Building, hphase] at hbuilding
  obtain ⟨hheld, hcounted, file, stream, hmade⟩ := hbuilding
  refine hinv.goto hk rfl ⟨hheld, hcounted, fun hinsert hkind hpath => ?_, file, stream, hmade.writes,
    hmade.stored⟩ fun h => (nomatch h)
  -- There is no file of the new name, and there is one at the temp path.
  have hwrites := hmade.writes
  unfold Socket.Writes at hwrites
  rw [if_pos hkind] at hwrites
  have hnone : s.files.entry (socket.newPath final) = none := Option.isNone_iff_eq_none.1 hinsert
  have hpath' : socket.newPath final = socket.tempPath := hpath
  rw [hpath', hwrites] at hnone
  cases hnone

/-- **A file gets its name.**  It takes no other file's place, and if it is to be shared it
can be read. -/
theorem Shares.rename (hinv : s.Shares env) (hk : s.sockets[k]? = some socket) {final : Finished}
    {voice : Option VoiceNote} {insert : Bool} (hphase : socket.phase = .probed final voice insert)
    (hshared : ∀ entry ∈ s.shared, entry.path ≠ socket.newPath final)
    (hfree : ∀ other ∈ s.sockets, other.uid ≠ socket.uid → s.holds other = true →
      other.tempPath ≠ socket.newPath final) (ok : Bool) :
    (s.rename k socket final voice insert ok).Shares env := by
  have hbuilding := hinv.building k socket hk
  rw [Socket.Building, hphase] at hbuilding
  obtain ⟨hheld, hcounted, hnew, file, stream, hmade⟩ := hbuilding
  have hholds : s.holds socket = true := Bool.or_eq_true_iff.2 (.inr hheld)
  have happart := fun entry hentry => hinv.apart entry hentry socket (List.mem_of_getElem? hk) hholds
  unfold UploadServer.rename
  split
  · exact hinv.closing hk
  rename_i files hfiles
  have hrename : s.files.rename socket.tempPath (socket.newPath final) = some files := by
    cases ok with
    | false => cases hfiles
    | true =>
      rw [hcounted.uid_eq] at hfiles
      exact hfiles
  refine hinv.frame hk (fun p => p ≠ socket.tempPath ∧ p ≠ socket.newPath final) rfl rfl rfl (fun _ _ => rfl)
    (fun a ha => hinv.path_eq hk ha) (hinv.proper.rename hrename)
    (Undisturbed.rename hrename (socket.isUpload_currentPath _ _) fun _ _ h => h) ?_ ?_ hcounted.uid_eq
    (fun _ => happart) ?_
  · intro other hother hne hheld'
    exact ⟨fun h => hne (Socket.tempPath_inj h), hfree other hother hne hheld'⟩
  · intro entry hentry
    exact ⟨(happart entry hentry).symm, hshared entry hentry⟩
  · intro entry hentry
    refine (shared_of_set (s := s) hentry rfl rfl).imp_right fun h => ?_
    -- The entry is that of the socket: a file that is not persistent, under a new name.
    unfold Socket.entry at h
    cases insert with
    | false => cases h
    | true =>
      simp only at h
      split at h
      · rename_i hkind
        have hkind' : socket.kind = .file := hkind
        obtain rfl := Option.some.inj h
        have hwrites := hmade.writes
        unfold Socket.Writes at hwrites
        rw [if_pos hkind'] at hwrites
        have hstored := hmade.stored hkind'
        rw [List.append_nil] at hstored
        obtain ⟨origin, horigin, hread⟩ := hstored.read
        refine ⟨⟨s.files.content file, origin, final.chunks.flatten, ?_, horigin, hread,
          (hcounted.size hkind').symm, (hcounted.hash hkind').symm⟩, ?_, (hnew rfl hkind').symm, hfree⟩
        · exact (Files.read_rename_self hrename).trans (Files.read_eq_some.2 ⟨file, hwrites, rfl⟩)
        · exact (socket.isUpload_currentPath socket.uid final).symm.trans (Socket.isUpload_tempPath hkind')
      · cases h

/-- The task is done with its file: nothing changes at the paths of the users. -/
theorem Shares.done (hinv : s.Shares env) (hk : s.sockets[k]? = some socket) {phase : UploadPhase}
    (hsockets : s'.sockets = s.sockets.set k { socket with phase }) (hactive : s'.active = s.active)
    (hproper : s'.files.Proper) (hfiles : Undisturbed (fun _ => True) s.files s'.files)
    (hbuilding : Socket.Building env s'.files (s.active.lookup socket.uid) { socket with phase })
    (hcreated : phase.isCreated = false) (hshared : ∀ entry ∈ s'.shared, entry ∈ s.shared) : s'.Shares env := by
  refine hinv.frame hk (fun _ => True) hsockets rfl rfl (fun _ _ => by rw [hactive]) ?_ hproper hfiles
    (fun _ _ _ _ => trivial) (fun _ _ => trivial) ?_ ?_ fun entry hentry => .inl (hshared entry hentry)
  · intro a ha
    rw [hactive] at ha
    exact hinv.path_eq hk ha
  · rwa [hactive]
  · intro hheld entry hentry
    have hheld' : (s.active.lookup socket.uid).isSome = true := by
      rw [holds, hcreated, hactive, Bool.false_or] at hheld
      exact hheld
    exact hinv.apart entry hentry socket (List.mem_of_getElem? hk) (Bool.or_eq_true_iff.2 (.inr hheld'))

/-- The entry of a socket goes into the table. -/
theorem shared_of_publish {final : Finished} {voice : Option VoiceNote} {files : List AvailableFile}
    (hk : s.sockets[k]? = some socket) (hkind : socket.kind = .file)
    (hphase : socket.phase = .renamed final voice true) (hfiles : s.available.lookup socket.username = some files)
    (hsockets : s'.sockets = s.sockets.set k { socket with phase := .published final.uid })
    (havailable : s'.available = s.available.insert socket.username
      (files ++ [⟨final.finalHash, socket.newPath final, fileName final.filename, final.finalSize,
        socket.sealing.key, socket.sealing.nonce⟩])) (hentry : entry ∈ s'.shared) : entry ∈ s.shared := by
  rcases mem_shared.1 hentry with ⟨username, list, hlookup, hmem⟩ | ⟨other, hother, hentry⟩
  · rw [havailable] at hlookup
    rcases eq_or_ne username socket.username with rfl | hne
    · rw [AList.lookup_insert] at hlookup
      obtain rfl := Option.some.inj hlookup
      rcases List.mem_append.1 hmem with hmem | hmem
      · exact mem_shared.2 (.inl ⟨_, files, hfiles, hmem⟩)
      · obtain rfl := List.mem_singleton.1 hmem
        refine mem_shared.2 (.inr ⟨socket, List.mem_of_getElem? hk, ?_⟩)
        simp only [Socket.entry, hphase, if_pos hkind]
    · rw [AList.lookup_insert_ne hne] at hlookup
      exact mem_shared.2 (.inl ⟨username, list, hlookup, hmem⟩)
  · rw [hsockets] at hother
    rcases List.mem_or_eq_of_mem_set hother with hmem | rfl
    · exact mem_shared.2 (.inr ⟨other, hmem, hentry⟩)
    · cases hentry

/-- **A file that is published is readable.** -/
theorem Shares.publish (hinv : s.Shares env) (hk : s.sockets[k]? = some socket) {final : Finished}
    {voice : Option VoiceNote} {insert : Bool} (hphase : socket.phase = .renamed final voice insert) (kept : Bool) :
    (s.publish k socket final voice insert kept).Shares env := by
  have huid := hinv.building k socket hk
  rw [Socket.Building, hphase] at huid
  have hquiet : ∀ used, Shares env { s.goto k socket (.published final.uid) with used } := by
    intro used
    refine hinv.done hk rfl rfl hinv.proper (Undisturbed.refl _ _) huid rfl fun entry hentry => ?_
    exact (shared_of_set (s := s) hentry rfl rfl).resolve_right fun h => by cases h
  unfold UploadServer.publish
  extract_lets done
  split
  · exact hquiet _
  split
  · rename_i hpersistent
    split
    · exact hquiet s.used
    cases hremove : !kept && insert with
    | false => exact hquiet _
    | true =>
      refine hinv.done hk rfl rfl (hinv.proper.remove _) (Undisturbed.remove fun q hq _ hpath => ?_) huid rfl
        fun entry hentry => ?_
      · rw [hpath, Socket.newPath, if_pos hpersistent] at hq
        cases hq
      · exact (shared_of_set (s := s) hentry rfl rfl).resolve_right fun h => by cases h
  rename_i hpersistent
  have hkind : socket.kind = .file := by simpa [UploadKind.persistent] using hpersistent
  split
  · rename_i hinsert
    split
    · exact hinv.closing hk
    · rename_i files hfiles
      rw [hinsert] at hphase
      exact hinv.done hk rfl rfl hinv.proper (Undisturbed.refl _ _) huid rfl
        fun entry hentry => shared_of_publish hk hkind hphase hfiles rfl rfl hentry
  · exact hquiet s.used

/-- An upload that is retired shares what it has published. -/
theorem Shares.retire (hinv : s.Shares env) (hk : s.sockets[k]? = some socket) {uid : U64}
    (hphase : socket.phase = .published uid) :
    Shares env { s.goto k socket .closing with active := s.active.erase uid } := by
  have huid := hinv.building k socket hk
  rw [Socket.Building, hphase] at huid
  obtain rfl := huid
  refine hinv.quiet hk rfl rfl rfl (fun _ hne => AList.lookup_erase_ne hne) ?_ rfl rfl rfl trivial ?_
  · intro a ha
    rw [AList.lookup_erase] at ha
    cases ha
  · intro h
    rw [holds, AList.lookup_erase] at h
    cases h

/-- The guard of a socket deletes what is left at its temp path. -/
theorem Shares.drop (hinv : s.Shares env) (hk : s.sockets[k]? = some socket) :
    ((s.dropGuard socket.uid).goto k socket .closed).Shares env := by
  unfold dropGuard
  split
  · exact hinv.goto hk rfl trivial fun h => (nomatch h)
  rename_i a ha
  have hholds : s.holds socket = true := by
    rw [holds, ha]
    exact Bool.or_true _
  have happart := fun entry hentry => hinv.apart entry hentry socket (List.mem_of_getElem? hk) hholds
  rw [hinv.path_eq hk ha]
  refine hinv.frame hk (· ≠ socket.tempPath) rfl rfl rfl (fun _ hne => AList.lookup_erase_ne hne) ?_
    (hinv.proper.remove _) (Undisturbed.remove fun _ _ h => h) ?_ ?_ trivial (fun _ => happart) ?_
  · intro b hb
    rw [UploadServer.goto, AList.lookup_erase] at hb
    cases hb
  · intro other _ hne _ htemp
    exact hne (Socket.tempPath_inj htemp)
  · intro entry hentry htemp
    exact happart entry hentry htemp.symm
  · intro entry hentry
    exact (shared_of_set (s := s) hentry rfl rfl).imp_right fun h => by cases h

/-- Every action of a socket keeps the invariant. -/
theorem Shares.act (hinv : s.Shares env) (hk : s.sockets[k]? = some socket) {action : UploadAction}
    (hcond : s.KeepsFiles action) (h : Acts env s k socket action s') : s'.Shares env := by
  cases h with
  | metadata hphase => exact hinv.metadata hk hphase _ _ _ _
  | create hphase => exact hinv.create hk hphase _
  | insert hphase => exact hinv.insert hk hphase
  | packet hphase =>
    obtain ⟨rfl, haligned⟩ := hcond socket hk
    exact hinv.packet hk hphase haligned
  | write hphase =>
    refine hinv.write hk hphase fun hfailed => ?_
    obtain ⟨n, rfl⟩ := Option.isSome_iff_exists.1 hfailed
    exact hcond socket hk
  | update hphase => exact hinv.update hk hphase
  | collect hphase => exact hinv.collect hk hphase
  | tag hphase => exact hinv.tag hk hphase _
  | probe hphase => exact hinv.probe hk hphase
  | rename hphase =>
    obtain ⟨hshared, hfree⟩ := hcond socket hk _ (by rw [Socket.target, hphase]; rfl)
    exact hinv.rename hk hphase hshared hfree _
  | publish hphase => exact hinv.publish hk hphase _
  | retire hphase => exact hinv.retire hk hphase
  | drop => exact hinv.drop hk

/-! ### The other actions -/

/-- A socket is accepted; nothing has its id yet. -/
theorem Shares.accept (hinv : s.Shares env) {id : ℕ} {username : String} {uid : U64} {kind : UploadKind}
    (hfresh : ∀ a ∈ s.sockets, a.uid ≠ uid) :
    Shares env { s with sockets := s.sockets ++ [⟨id, username, uid, kind, ⟨[], [], none⟩, .waiting⟩] } := by
  have hnone : s.active.lookup uid = none := by
    cases hlookup : s.active.lookup uid with
    | none => rfl
    | some a =>
      obtain ⟨other, hother, huid, _⟩ := hinv.owned uid a hlookup
      exact absurd huid (hfresh other hother)
  have hshared : ∀ entry ∈ shared
      { s with sockets := s.sockets ++ [⟨id, username, uid, kind, ⟨[], [], none⟩, .waiting⟩] },
      entry ∈ s.shared := by
    intro entry hentry
    rcases mem_shared.1 hentry with htable | ⟨other, hother, hentry⟩
    · exact mem_shared.2 (.inl htable)
    · rcases List.mem_append.1 hother with hmem | hmem
      · exact mem_shared.2 (.inr ⟨other, hmem, hentry⟩)
      · obtain rfl := List.mem_singleton.1 hmem
        cases hentry
  refine ⟨hinv.distinct.append rfl hfresh, hinv.proper, ?_, ?_, ?_, ?_⟩
  · intro uid' a ha
    obtain ⟨other, hother, h⟩ := hinv.owned uid' a ha
    exact ⟨other, List.mem_append_left _ hother, h⟩
  · intro j b hb
    rw [List.getElem?_append] at hb
    split at hb
    · exact hinv.building j b hb
    · obtain rfl := List.mem_singleton.1 (List.mem_of_getElem? hb)
      exact hnone
  · intro entry hentry
    exact hinv.readable entry (hshared entry hentry)
  · intro entry hentry b hb hheld
    rcases List.mem_append.1 hb with hmem | hmem
    · exact hinv.apart entry (hshared entry hentry) b hmem hheld
    · obtain rfl := List.mem_singleton.1 hmem
      have hheld' : (s.active.lookup uid).isSome = true := hheld
      rw [hnone] at hheld'
      cases hheld'

/-- A login starts with an empty list of files. -/
theorem Shares.login (hinv : s.Shares env) (username : String) :
    Shares env { s with available := s.available.insert username [] } := by
  have hshared : ∀ entry ∈ shared { s with available := s.available.insert username [] },
      entry ∈ s.shared := by
    intro entry hentry
    rcases mem_shared.1 hentry with ⟨other, files, hlookup, hmem⟩ | hsocket
    · have hlookup' : (s.available.insert username []).lookup other = some files := hlookup
      rcases eq_or_ne other username with rfl | hne
      · rw [AList.lookup_insert] at hlookup'
        obtain rfl := Option.some.inj hlookup'
        cases hmem
      · rw [AList.lookup_insert_ne hne] at hlookup'
        exact mem_shared.2 (.inl ⟨other, files, hlookup', hmem⟩)
    · exact mem_shared.2 (.inr hsocket)
  exact ⟨hinv.distinct, hinv.proper, hinv.owned, hinv.building,
    fun entry hentry => hinv.readable entry (hshared entry hentry),
    fun entry hentry => hinv.apart entry (hshared entry hentry)⟩

/-- A picture is deleted. -/
theorem Shares.unlink (hinv : s.Shares env) {path : UploadPath} (hpath : path.isUpload = false) :
    Shares env { s with files := s.files.remove path } := by
  have hfiles : Undisturbed (fun _ => True) s.files (s.files.remove path) := by
    refine Undisturbed.remove fun q hq _ h => ?_
    rw [h, hpath] at hq
    cases hq
  refine ⟨hinv.distinct, hinv.proper.remove path, hinv.owned, ?_, ?_, hinv.apart⟩
  · intro j b hb
    exact (hinv.building j b hb).frame hfiles fun _ => trivial
  · intro entry hentry
    obtain ⟨hreadable, hupload⟩ := hinv.readable entry hentry
    exact ⟨hreadable.frame hfiles hupload trivial, hupload⟩

/-- **Every action keeps the invariant.** -/
theorem Shares.step (hinv : s.Shares env) {action : UploadAction} (hcond : s.KeepsFiles action)
    (h : s.step env action = some s') : s'.Shares env := by
  unfold UploadServer.step at h
  split at h
  · obtain rfl := Option.some.inj h
    exact hinv.login _
  · obtain rfl := Option.some.inj h
    exact hinv.accept hcond
  · rename_i path
    cases path with
    | upload username name => cases h
    | image name =>
      obtain rfl := Option.some.inj h
      exact hinv.unlink rfl
    | imageTemp uid =>
      obtain rfl := Option.some.inj h
      exact hinv.unlink rfl
  · rename_i uid
    obtain rfl := Option.some.inj h
    -- No upload has the id of a download.
    unfold dropGuard
    split
    · exact hinv
    · rename_i a ha
      obtain ⟨other, hother, huid, _⟩ := hinv.owned uid a ha
      exact absurd huid (hcond other hother)
  · obtain ⟨k, hsocket, h⟩ := Option.bind_eq_some_iff.1 h
    obtain ⟨socket, hk, h⟩ := Option.bind_eq_some_iff.1 h
    exact hinv.act hk hcond (acts_of_act hsocket h)

/-- A server that starts shares nothing. -/
theorem start_shares (env : UploadEnv) : start.Shares env where
  distinct _ _ _ _ h := nomatch h
  proper := Files.proper_empty
  owned _ _ h := nomatch h
  building _ _ h := nomatch h
  readable _ h := nomatch h
  apart _ h := nomatch h

/-- **Every shared file reads back as it was recorded**, in every run in which each packet
names the upload of its socket, every chunk of a file starts at a multiple of 512 bytes in
its piece of `UPLOAD_CHUNK_SIZE` bytes, ends in that piece and is written, no file is
renamed over a shared one or one that is being built, and no id is drawn twice. -/
theorem shared_files_readable (env : UploadEnv) (actions : List UploadAction) {s : UploadServer}
    (hmeets : Meets (step env) KeepsFiles start actions) (hrun : exec (step env) start actions = some s) :
    s.SharedReadable env := by
  have hinv : s.Shares env := exec_induct (fun _ _ _ hinv => hinv.step) (start_shares env) hmeets hrun
  intro username files hfiles entry hentry
  exact (hinv.readable entry (mem_shared.2 (.inl ⟨username, files, hfiles, hentry⟩))).1

/-- Two files of different names; a third upload, under the name of the first, is given up. -/
def sharedTwice : List UploadAction :=
  .login "anna" :: uploadOnce 0 5 "notes" [7] ++ uploadOnce 1 6 "letters" [8, 9] ++
    (uploadOnce 2 7 "notes" [1]).take 9 ++ [.drop 2, .downloaded 8]

/-- The theorem on that run. -/
theorem shared_files_readable_twice : ∃ s : UploadServer,
    exec (step plainEnv) start sharedTwice = some s ∧ Meets (step plainEnv) KeepsFiles start sharedTwice ∧
      s.SharedReadable plainEnv ∧
      s.listing "anna" = [(.upload "anna" "notes", 1, some 1), (.upload "anna" "letters", 2, some 2)] := by
  have hvalues : (exec (step plainEnv) start sharedTwice).map (·.listing "anna") =
      some [(.upload "anna" "notes", 1, some 1), (.upload "anna" "letters", 2, some 2)] := by decide +kernel
  obtain ⟨s, hs, hlisting⟩ := Option.map_eq_some_iff.1 hvalues
  have hmeets : Meets (step plainEnv) KeepsFiles start sharedTwice := by decide +kernel
  exact ⟨s, hs, hmeets, shared_files_readable plainEnv sharedTwice hmeets hs, hlisting⟩

end UploadServer

end Why2
