/-
# Uploads

`download` (`chat/src/network/file/server.rs`): a client sends the metadata of a
file on a socket of its own, then its chunks, and the server builds the file
under a name of its own and gives it its name when it is complete.  What an
upload is tested for is in `chat/src/misc.rs` and
`chat/src/network/voice/message.rs`.

Every socket is one task.  The tasks share `ACTIVE_FILESHARES`,
`AVAILABLE_FILES` and the disk; an action is what a task does between two
`await`s or under one lock, so the actions of several sockets interleave.  A
task may end at any of its actions, and the drop guard then deletes what it left.
A socket has the id of its upload, but a packet carries an id too, and it is the
packet's id that says which upload a chunk goes to, which file is renamed and
which upload ends (`packet`, `currentPath`, `retire`).

The runs are of uploads and downloads: sessions log in and do not end.  Another
part of the server may delete a file in the picture directory at any time
(`unlink`).  In that directory a file has the name of its upload, a decimal
number of at most 20 digits, or that of its content, 64 hexadecimal digits.
-/

import Why2.Chat.DiskFile
import Why2.Lib.Files
import Mathlib.Data.List.AList

namespace Why2

open Lib

/-! ### What a file is tested for -/

/-- The marker of a PNG. -/
def pngMagic : List U8 := [0x89, 0x50, 0x4e, 0x47, 0x0d, 0x0a, 0x1a, 0x0a]

/-- `MAGIC` of `is_image`. -/
def imageMagic : List (List U8) :=
  [pngMagic, [0xff, 0xd8, 0xff], ascii "GIF87a", ascii "GIF89a", ascii "BM", [0x00, 0x00, 0x01, 0x00],
    ascii "qoif", ascii "#?", ascii "farbfeld", ascii "DDS "]

/-- `u8::is_ascii_whitespace`. -/
def isAsciiWhitespace (x : U8) : Bool := [0x20, 0x09, 0x0a, 0x0c, 0x0d].contains x

/-- `header[at..at + 4]`. -/
def fourBytes (header : List U8) (at' : ℕ) : List U8 := (header.drop at').take 4

/-- `is_image`. -/
def isImage (header : List U8) : Bool :=
  imageMagic.any (·.isPrefixOf header) ||
  -- WebP sits behind the RIFF length.
  (12 ≤ header.length && (ascii "RIFF").isPrefixOf header && fourBytes header 8 = ascii "WEBP") ||
  (3 ≤ header.length && header.getD 0 0 = 0x50#8 &&
    (0x31#8 ≤ header.getD 1 0 && header.getD 1 0 ≤ 0x37#8) && isAsciiWhitespace (header.getD 2 0))

/-- `image_dimensions`. -/
def imageDimensions (header : List U8) : Option (ℕ × ℕ) :=
  let le (at' : ℕ) : ℕ := (header.getD at' 0).toNat + 256 * (header.getD (at' + 1) 0).toNat
  if 24 ≤ header.length ∧ pngMagic.isPrefixOf header ∧ fourBytes header 12 = ascii "IHDR" then
    some (ofBeBytes (fourBytes header 16), ofBeBytes (fourBytes header 20))
  else if 10 ≤ header.length ∧ ((ascii "GIF87a").isPrefixOf header ∨ (ascii "GIF89a").isPrefixOf header) then
    some (le 6, le 8)
  else none

/-- `consts::AVATAR_DIMENSION`. -/
def avatarDimension : ℕ := 512

/-- `is_avatar`. -/
def isAvatar (header : List U8) : Bool :=
  match imageDimensions header with
  | some (width, height) => width = height && 0 < width && width ≤ avatarDimension
  | none => false

/-- `MAGIC` of a clip. -/
def clipMagic : List U8 := ascii "WHY2VOX" ++ [0x01]

/-- `is_clip`. -/
def isClip (header : List U8) : Bool := clipMagic.isPrefixOf header

/-- `Clip`. -/
structure Clip where
  channels : U8
  frames : List (List U8)
deriving DecidableEq

/-- `MESSAGE_MAX_FRAMES`. -/
def messageMaxFrames : ℕ := 15000

/-- `MESSAGE_MAX_PACKET`. -/
def messageMaxPacket : ℕ := 1275

/-- `Clip::decode`, with `deserialize` the decoding of a clip behind its marker. -/
def Clip.decode (deserialize : List U8 → Option Clip) (bytes : List U8) : Option Clip := do
  let rest ← if clipMagic.isPrefixOf bytes then some (bytes.drop clipMagic.length) else none
  let clip ← deserialize rest
  if (clip.channels = 1 ∨ clip.channels = 2) ∧ clip.frames ≠ [] ∧ clip.frames.length ≤ messageMaxFrames ∧
      ∀ frame ∈ clip.frames, frame ≠ [] ∧ frame.length ≤ messageMaxPacket then
    some clip
  else none

/-- `Clip::duration`. -/
def Clip.duration (clip : Clip) : BitVec 32 := BitVec.ofNat 32 clip.frames.length * 20

/-- `UploadKind`. -/
inductive UploadKind
  | file
  | image
  | avatar
  | icon
  | voice
deriving DecidableEq

namespace UploadKind

/-- `UploadKind::persistent`. -/
def persistent (kind : UploadKind) : Bool := kind ≠ .file

/-- `MAX_AVATAR_SIZE`, `MAX_VOICE_MESSAGE_SIZE` and `MAX_IMAGE_SIZE`. -/
def ceiling : UploadKind → ℕ
  | .avatar | .icon => 2000000
  | .voice => 6000000
  | _ => 8000000

/-- The test of the first packet. -/
def accepts (kind : UploadKind) (data : List U8) : Bool :=
  !kind.persistent ||
    ((if kind = .voice then isClip data else isImage data) &&
      (!(kind = .avatar || kind = .icon) || isAvatar data))

end UploadKind

/-! ### The disk -/

/-- Where a file is: in the directory of a user, or in the picture directory under the
hash of its content or the number of its upload. -/
inductive UploadPath
  | upload (username name : String)
  | image (name : Hash)
  | imageTemp (uid : U64)
deriving DecidableEq

/-- `Path::file_name`, or `unnamed_file` where there is none. -/
def fileName (filename : String) : String :=
  let parts := (filename.toList.splitOn '/').filter fun part => part ≠ [] ∧ part ≠ ['.']
  match parts.getLast? with
  | none => "unnamed_file"
  | some part => if part = ['.', '.'] then "unnamed_file" else String.ofList part

/-- What `download` uses of the rest of the server: the primitives, the build, the key of
the stored pictures and the decoding of clips. -/
structure UploadEnv where
  P : Primitives
  build : Build
  imageKey : List U8
  deserialize : List U8 → Option Clip

/-- `disk_key`, `disk_nonce` and the key of `disk_mac`. -/
structure Sealing where
  key : List I64
  nonce : List I64
  macKey : Option (Vector U8 32)

/-- The keys of an upload: those of its hash if it is persistent, drawn ones if not. -/
def UploadEnv.sealing (env : UploadEnv) (kind : UploadKind) (hash : Hash) (keySeed nonceSeed : Vector U8 32) :
    Except Fault Sealing :=
  if kind.persistent then
    let keys := imageKeys env.P env.imageKey hash
    .ok ⟨keys.key, keys.nonce, some keys.macKey⟩
  else do
    let nonce : Grid 8 8 ← generateNonce env.P nonceSeed
    return ⟨generateKey env.P 8 8 keySeed, nonce.toFlat, none⟩

/-! ### The tasks and what they share -/

/-- `ActiveFileshare`, with the chunks it has taken. -/
structure Fileshare extends ActiveFileshare where
  file : ℕ
  filename : String
  clientId : ℕ
  path : UploadPath
  image : Option (List U8)
  chunks : List (List U8)

/-- The upload after a chunk. -/
def Fileshare.take (active : Fileshare) (data bytes : List U8) : Fileshare :=
  { active with
    toActiveFileshare := active.toActiveFileshare.update data bytes
    image := active.image.map (· ++ data)
    chunks := active.chunks ++ [data] }

/-- The upload after a chunk that is too much: only its size has changed. -/
def Fileshare.exceed (active : Fileshare) (data : List U8) : Fileshare :=
  { active with currentSize := active.currentSize + data.length }

/-- `FilePacketCode::Metadata`. -/
structure FileMetadata where
  size : ℕ
  filename : String
  hash : Hash

/-- What a task collects of a complete upload, with the id of the packet, the announced
size and the chunks. -/
structure Finished where
  uid : U64
  finalHash : Hash
  expectedHash : Hash
  filename : String
  finalSize : ℕ
  image : Option (List U8)
  macKey : Option (Vector U8 32)
  maced : List U8
  announced : ℕ
  chunks : List (List U8)

/-- What is collected. -/
def Fileshare.final (env : UploadEnv) (active : Fileshare) (uid : U64) : Finished where
  uid
  finalHash := env.P.sha256 active.hashed
  expectedHash := active.hash
  filename := active.filename
  finalSize := active.currentSize
  image := active.image
  macKey := active.macKey
  maced := active.maced
  announced := active.size
  chunks := active.chunks

/-- What goes on the end of the file. -/
def Finished.tag (env : UploadEnv) (final : Finished) : List U8 :=
  match final.macKey with
  | none => []
  | some macKey => (diskTag env.P macKey final.maced final.finalSize).toList

/-- Where a task is. -/
inductive UploadPhase
  | waiting
  | announced (metadata : FileMetadata)
  | created (metadata : FileMetadata) (stream : RexStream 8 8) (file : ℕ)
  | receiving (checked : Bool)
  | prepared (uid : U64) (data bytes : List U8) (file : ℕ)
  | written (uid : U64) (data bytes : List U8) (file : ℕ)
  | complete (uid : U64) (file : ℕ)
  | collected (file : ℕ) (final : Finished)
  | verified (final : Finished) (voice : Option VoiceNote)
  | probed (final : Finished) (voice : Option VoiceNote) (insert : Bool)
  | renamed (final : Finished) (voice : Option VoiceNote) (insert : Bool)
  | published (uid : U64)
  | closing
  | closed

/-- The first packet with data is still to come. -/
def UploadPhase.unchecked : UploadPhase → Bool
  | .receiving checked => !checked
  | _ => false

/-- A socket: the session it belongs to, the id and the kind of its upload, and the keys,
which are empty before the metadata. -/
structure Socket where
  id : ℕ
  username : String
  uid : U64
  kind : UploadKind
  sealing : Sealing
  phase : UploadPhase

namespace Socket

/-- `target_dir.join(uid.to_string())`. -/
def currentPath (socket : Socket) (uid : U64) : UploadPath :=
  if socket.kind.persistent then .imageTemp uid else .upload socket.username uid.toNat.repr

/-- `upload_path`, where the socket's upload is built. -/
def tempPath (socket : Socket) : UploadPath := socket.currentPath socket.uid

/-- `new_path`. -/
def newPath (socket : Socket) (final : Finished) : UploadPath :=
  if socket.kind.persistent then .image final.finalHash else .upload socket.username (fileName final.filename)

end Socket

/-- `AvailableFile`. -/
structure AvailableFile where
  hash : Hash
  path : UploadPath
  filename : String
  size : ℕ
  key : List I64
  nonce : List I64

/-- A persistent file was put to use: the kind it is used as, the size announced for it,
the hash it is named after, its chunks, and whether the history, a profile or the server
keeps it. -/
structure UploadUse where
  kind : UploadKind
  announced : ℕ
  name : Hash
  chunks : List (List U8)
  voice : Option VoiceNote
  kept : Bool
deriving DecidableEq

/-- The sockets, `ACTIVE_FILESHARES`, `AVAILABLE_FILES`, the disk, and every use of a
persistent file. -/
structure UploadServer where
  sockets : List Socket
  active : AList fun _ : U64 => Fileshare
  available : AList fun _ : String => List AvailableFile
  files : Files UploadPath U8
  used : List UploadUse

/-- `max_client_parallel_uploads` and `max_upload_size`. -/
structure UploadConfig where
  maxParallel : ℕ
  maxSize : ℕ

/-- `consts::MEGABYTE`. -/
def megabyte : ℕ := 1000000

/-- What one task does between two `await`s, or a deletion elsewhere.  An action names its
socket by its place in the list. -/
inductive UploadAction
  | login (username : String)
  | accept (id : ℕ) (username : String) (uid : U64) (kind : UploadKind)
  | metadata (k : ℕ) (config : UploadConfig) (metadata : FileMetadata) (keySeed nonceSeed : Vector U8 32)
  | create (k : ℕ) (ok : Bool)
  | insert (k : ℕ)
  | packet (k : ℕ) (uid : U64) (data : List U8)
  /-- The disk takes the chunk, or only its first `n` bytes. -/
  | write (k : ℕ) (failed : Option ℕ)
  | update (k : ℕ)
  | collect (k : ℕ)
  | tag (k : ℕ) (ok : Bool)
  | probe (k : ℕ)
  | rename (k : ℕ) (ok : Bool)
  | publish (k : ℕ) (kept : Bool)
  | retire (k : ℕ)
  | drop (k : ℕ)
  | unlink (path : UploadPath)
  /-- A download of a shared file ends. -/
  | downloaded (uid : U64)

/-- The place of the socket whose task acts. -/
def UploadAction.socket : UploadAction → Option ℕ
  | .metadata k .. | .create k _ | .insert k | .packet k .. | .write k _ | .update k | .collect k
  | .tag k _ | .probe k | .rename k _ | .publish k _ | .retire k | .drop k => some k
  | _ => none

namespace UploadServer

/-- The server as it starts. -/
def start : UploadServer := ⟨[], ∅, ∅, .empty, []⟩

variable (env : UploadEnv) (s : UploadServer) (k : ℕ) (socket : Socket)

/-- The socket after an action of its task. -/
def goto (phase : UploadPhase) : UploadServer :=
  { s with sockets := s.sockets.set k { socket with phase } }

/-- `ACTIVE_FILESHARES.iter().filter(|u| u.client_id == id).count()`. -/
def parallel (id : ℕ) : ℕ := s.active.entries.countP fun entry => entry.2.clientId = id

/-- The metadata arrives: the limits, and the keys. -/
def metadata (config : UploadConfig) (metadata : FileMetadata) (keySeed nonceSeed : Vector U8 32) :
    UploadServer :=
  if config.maxParallel ≤ s.parallel socket.id then s.goto k socket .closing
  else if socket.kind.persistent ∧ socket.kind.ceiling < metadata.size then s.goto k socket .closing
  else
    match env.sealing socket.kind metadata.hash keySeed nonceSeed with
    | .error _ => s.goto k socket .closing
    | .ok sealing =>
      if metadata.size / megabyte ≤ config.maxSize then
        s.goto k { socket with sealing } (.announced metadata)
      else s.goto k socket .closing

/-- The file is made, at a path where there is none. -/
def create (metadata : FileMetadata) (ok : Bool) : UploadServer :=
  match diskStream env.P socket.sealing.key socket.sealing.nonce with
  | .error _ => s.goto k socket .closing
  | .ok stream =>
    match if ok then s.files.createNew socket.tempPath else none with
    | none => s.goto k socket .closing
    | some (file, files) => { s.goto k socket (.created metadata stream file) with files }

/-- The upload as it starts. -/
def fileshare (metadata : FileMetadata) (stream : RexStream 8 8) (file : ℕ) : Fileshare :=
  { ActiveFileshare.start stream socket.sealing.macKey metadata.size metadata.hash with
    file
    filename := metadata.filename
    clientId := socket.id
    path := socket.tempPath
    image := if socket.kind.persistent then some [] else none
    chunks := [] }

/-- `ACTIVE_FILESHARES.insert`; a file that is not persistent is not tested. -/
def insert (metadata : FileMetadata) (stream : RexStream 8 8) (file : ℕ) : UploadServer :=
  { s.goto k socket (.receiving !socket.kind.persistent) with
    active := s.active.insert socket.uid (fileshare socket metadata stream file) }

/-- A chunk arrives.  The first one is tested; then the upload with the packet's id takes
it, if it is the client's and the chunk is not too long. -/
def packet (checked : Bool) (uid : U64) (data : List U8) : UploadServer :=
  if !checked && !socket.kind.accepts data then s.goto k socket .closing
  else
    match s.active.lookup uid with
    | none => s.goto k socket (.receiving true)
    | some active =>
      if active.clientId = socket.id ∧ data.length ≤ uploadChunkSize then
        match active.encrypt env.build data with
        | .error _ => s.goto k socket .closing
        | .ok (bytes, encrypted) =>
          { s.goto k socket (.prepared uid data bytes active.file) with
            active := s.active.insert uid { active with toActiveFileshare := encrypted } }
      else s.goto k socket (.receiving true)

/-- The chunk is written; an error goes on to the next packet. -/
def write (uid : U64) (data bytes : List U8) (file : ℕ) (failed : Option ℕ) : UploadServer :=
  match failed with
  | none => { s.goto k socket (.written uid data bytes file) with files := s.files.append file bytes }
  | some n => { s.goto k socket (.receiving true) with files := s.files.append file (bytes.take n) }

/-- The chunk is counted, if the upload is not over its size with it. -/
def update (uid : U64) (data bytes : List U8) (file : ℕ) : UploadServer :=
  match s.active.lookup uid with
  | none => s.goto k socket .closing
  | some active =>
    if active.size < active.currentSize + data.length then
      { s.goto k socket .closing with active := s.active.insert uid (active.exceed data) }
    else
      { s.goto k socket
          (if active.currentSize + data.length = active.size then .complete uid file else .receiving true) with
        active := s.active.insert uid (active.take data bytes) }

/-- The final state of the upload is collected; the plaintext and the MAC are taken out. -/
def collect (uid : U64) (file : ℕ) : UploadServer :=
  match s.active.lookup uid with
  | none => s.goto k socket .closing
  | some active =>
    { s.goto k socket (.collected file (active.final env uid)) with
      active := s.active.insert uid { active with image := none, macKey := none } }

/-- The tag is written, the hash is compared and a clip is decoded. -/
def tag (file : ℕ) (final : Finished) (ok : Bool) : UploadServer :=
  if final.macKey.isSome ∧ ok = false then s.goto k socket .closing
  else
    let s := { s with files := s.files.append file (final.tag env) }
    if final.expectedHash ≠ final.finalHash then s.goto k socket .closing
    else if socket.kind = .voice then
      match final.image.bind (Clip.decode env.deserialize) with
      | none => s.goto k socket .closing
      | some clip => s.goto k socket (.verified final (some ⟨final.finalHash, clip.duration⟩))
    else s.goto k socket (.verified final none)

/-- Is there a file of this name already? -/
def probe (final : Finished) (voice : Option VoiceNote) : UploadServer :=
  s.goto k socket (.probed final voice (s.files.entry (socket.newPath final)).isNone)

/-- The file gets its name. -/
def rename (final : Finished) (voice : Option VoiceNote) (insert ok : Bool) : UploadServer :=
  match if ok then s.files.rename (socket.currentPath final.uid) (socket.newPath final) else none with
  | none => s.goto k socket .closing
  | some files => { s.goto k socket (.renamed final voice insert) with files }

/-- The file is put to use. -/
def publish (final : Finished) (voice : Option VoiceNote) (insert kept : Bool) : UploadServer :=
  let done := s.goto k socket (.published final.uid)
  if socket.kind = .avatar ∨ socket.kind = .icon then
    { done with used := ⟨socket.kind, final.announced, final.finalHash, final.chunks, none, true⟩ :: s.used }
  else if socket.kind.persistent then
    -- A picture or a clip goes out with its plaintext; one that is not kept is deleted.
    if final.image.isNone then done
    else
      { done with
        used := ⟨socket.kind, final.announced, final.finalHash, final.chunks, voice, kept⟩ :: s.used
        files := if !kept && insert then s.files.remove (socket.newPath final) else s.files }
  else if insert then
    match s.available.lookup socket.username with
    | none => s.goto k socket .closing
    | some files =>
      { done with
        available := s.available.insert socket.username
          (files ++ [⟨final.finalHash, socket.newPath final, fileName final.filename, final.finalSize,
            socket.sealing.key, socket.sealing.nonce⟩]) }
  else done

/-- `FileTransferGuard::drop`. -/
def dropGuard (uid : U64) : UploadServer :=
  match s.active.lookup uid with
  | none => s
  | some active => { s with active := s.active.erase uid, files := s.files.remove active.path }

/-- What the task of a socket does. -/
def act : UploadAction → Option UploadServer
  | .metadata _ config data keySeed nonceSeed =>
    match socket.phase with
    | .waiting => some (s.metadata env k socket config data keySeed nonceSeed)
    | _ => none
  | .create _ ok =>
    match socket.phase with
    | .announced data => some (s.create env k socket data ok)
    | _ => none
  | .insert _ =>
    match socket.phase with
    | .created data stream file => some (s.insert k socket data stream file)
    | _ => none
  | .packet _ uid data =>
    match socket.phase with
    | .receiving checked => some (s.packet env k socket checked uid data)
    | _ => none
  | .write _ failed =>
    match socket.phase with
    | .prepared uid data bytes file => some (s.write k socket uid data bytes file failed)
    | _ => none
  | .update _ =>
    match socket.phase with
    | .written uid data bytes file => some (s.update k socket uid data bytes file)
    | _ => none
  | .collect _ =>
    match socket.phase with
    | .complete uid file => some (s.collect env k socket uid file)
    | _ => none
  | .tag _ ok =>
    match socket.phase with
    | .collected file final => some (s.tag env k socket file final ok)
    | _ => none
  | .probe _ =>
    match socket.phase with
    | .verified final voice => some (s.probe k socket final voice)
    | _ => none
  | .rename _ ok =>
    match socket.phase with
    | .probed final voice insert => some (s.rename k socket final voice insert ok)
    | _ => none
  | .publish _ kept =>
    match socket.phase with
    | .renamed final voice insert => some (s.publish k socket final voice insert kept)
    | _ => none
  | .retire _ =>
    match socket.phase with
    | .published uid => some { s.goto k socket .closing with active := s.active.erase uid }
    | _ => none
  | .drop _ =>
    match socket.phase with
    | .closed => none
    | _ => some ((s.dropGuard socket.uid).goto k socket .closed)
  | _ => none

/-- One action. -/
def step (s : UploadServer) (action : UploadAction) : Option UploadServer :=
  match action with
  | .login username => some { s with available := s.available.insert username [] }
  | .accept id username uid kind =>
    some { s with sockets := s.sockets ++ [⟨id, username, uid, kind, ⟨[], [], none⟩, .waiting⟩] }
  | .unlink path =>
    match path with
    | .upload .. => none
    | _ => some { s with files := s.files.remove path }
  | .downloaded uid => some (s.dropGuard uid)
  | action => do
    let k ← action.socket
    let socket ← s.sockets[k]?
    s.act env k socket action

/-! ### What a task does, by its phase -/

/-- What the task of a socket can do. -/
inductive Acts (env : UploadEnv) (s : UploadServer) (k : ℕ) (socket : Socket) :
    UploadAction → UploadServer → Prop
  | metadata {config data keySeed nonceSeed} (hphase : socket.phase = .waiting) :
    Acts env s k socket (.metadata k config data keySeed nonceSeed)
      (s.metadata env k socket config data keySeed nonceSeed)
  | create {data ok} (hphase : socket.phase = .announced data) :
    Acts env s k socket (.create k ok) (s.create env k socket data ok)
  | insert {data stream file} (hphase : socket.phase = .created data stream file) :
    Acts env s k socket (.insert k) (s.insert k socket data stream file)
  | packet {checked uid data} (hphase : socket.phase = .receiving checked) :
    Acts env s k socket (.packet k uid data) (s.packet env k socket checked uid data)
  | write {uid data bytes file failed} (hphase : socket.phase = .prepared uid data bytes file) :
    Acts env s k socket (.write k failed) (s.write k socket uid data bytes file failed)
  | update {uid data bytes file} (hphase : socket.phase = .written uid data bytes file) :
    Acts env s k socket (.update k) (s.update k socket uid data bytes file)
  | collect {uid file} (hphase : socket.phase = .complete uid file) :
    Acts env s k socket (.collect k) (s.collect env k socket uid file)
  | tag {file final ok} (hphase : socket.phase = .collected file final) :
    Acts env s k socket (.tag k ok) (s.tag env k socket file final ok)
  | probe {final voice} (hphase : socket.phase = .verified final voice) :
    Acts env s k socket (.probe k) (s.probe k socket final voice)
  | rename {final voice insert ok} (hphase : socket.phase = .probed final voice insert) :
    Acts env s k socket (.rename k ok) (s.rename k socket final voice insert ok)
  | publish {final voice insert kept} (hphase : socket.phase = .renamed final voice insert) :
    Acts env s k socket (.publish k kept) (s.publish k socket final voice insert kept)
  | retire {uid} (hphase : socket.phase = .published uid) :
    Acts env s k socket (.retire k) { s.goto k socket .closing with active := s.active.erase uid }
  | drop : Acts env s k socket (.drop k) ((s.dropGuard socket.uid).goto k socket .closed)

theorem acts_of_act {env : UploadEnv} {s s' : UploadServer} {k : ℕ} {socket : Socket} {action : UploadAction}
    (hsocket : action.socket = some k) (h : s.act env k socket action = some s') :
    Acts env s k socket action s' := by
  unfold act at h
  split at h <;> (try split at h) <;> cases h <;> cases hsocket
  · exact .metadata ‹_›
  · exact .create ‹_›
  · exact .insert ‹_›
  · exact .packet ‹_›
  · exact .write ‹_›
  · exact .update ‹_›
  · exact .collect ‹_›
  · exact .tag ‹_›
  · exact .probe ‹_›
  · exact .rename ‹_›
  · exact .publish ‹_›
  · exact .retire ‹_›
  · exact .drop

end UploadServer

end Why2
