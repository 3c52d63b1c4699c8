/-
# The client's cache of pictures

Pictures and voice clips that the client has seen, in files named after their hashes,
in a directory of each server's own (`chat/src/cache.rs`).

A file is the picture under a stream of its own, with a tag.  One that is read back
is exactly one that was sealed for that server and that hash from what is read
(`openPicture_iff`), and any other file is deleted.  The directory keeps to a bound by the
times of use.  Over any run of loads and stores, of which some are cut short, each
server's directory is a sequence of pictures with the least recently used first, and
what another server makes the client load or store does not show in it
(`caches_recent`).

A load or a store is taken as a whole, and the times of use differ.  `read_dir` may list
a directory in any order.
-/

import Why2.Chat.AccountStore
import Why2.Chat.DiskFile
import Why2.Lib.Lru

namespace Why2

open Lib RexPacketStream

/-- `MAX_IMAGE_CACHE`. -/
def maxImageCache : ℕ := 512 * 1000000

/-- `crypto::cache_keys`, with the client's own key (`kex::cache_key`). -/
def cacheKeys (P : Primitives) (cacheKey fingerprint : List U8) (hash : Hash) : DiskKeys :=
  diskKeys P (fingerprint ++ hash.toList) cacheKey

section
variable (P : Primitives) (b : Build) (cacheKey fingerprint : List U8) (hash : Hash)

/-- `seal`: the picture under its stream, with the tag. -/
def sealPicture (data : List U8) : Option (List U8) := do
  let keys := cacheKeys P cacheKey fingerprint hash
  let stream ← (diskStream P keys.key keys.nonce).toOption
  let (bytes, _) ← (crypt b stream data).toOption
  return bytes ++ (diskTag P keys.macKey bytes bytes.length).toList

/-- What `load` makes of the bytes of a file. -/
def openPicture (sealed : List U8) : Option (List U8) := do
  let keys := cacheKeys P cacheKey fingerprint hash
  let ciphertext ← diskOpen P keys.macKey sealed
  let stream ← (diskStream P keys.key keys.nonce).toOption
  let (image, _) ← (crypt b stream ciphertext).toOption
  return image

end

/-! ### One file -/

/-- A file opens exactly if its tag is right. -/
theorem diskOpen_eq_some_iff {P : Primitives} {macKey : Vector U8 32} {sealed ciphertext : List U8} :
    diskOpen P macKey sealed = some ciphertext ↔
      sealed = ciphertext ++ (diskTag P macKey ciphertext ciphertext.length).toList := by
  refine ⟨fun h => ?_, fun h => h ▸ diskOpen_seal P macKey ciphertext⟩
  unfold diskOpen at h
  dsimp only at h
  split_ifs at h with hshort htag
  obtain rfl := Option.some.inj h
  rw [htag, List.take_append_drop]

/-- The text under the keystream of as many bytes. -/
theorem zipWith_keystreamBytes (b b' : Build) (stream : RexStream 8 8) (text : List U8) :
    List.zipWith (· ^^^ ·) (List.zipWith (· ^^^ ·) text (keystreamBytes b stream text.length))
      (keystreamBytes b' stream text.length) = text := by
  have hlen := length_keystreamBytes b stream text.length
  refine List.ext_getElem (by simp [keystreamBytes_build b' b, hlen]) fun i _ _ => ?_
  simp only [keystreamBytes_build b' b, List.getElem_zipWith]
  rw [BitVec.xor_assoc, BitVec.xor_self, BitVec.xor_zero]

/-- The stream takes a text to another, and that one back. -/
theorem crypt_eq_ok_symm (b b' : Build) {stream : RexStream 8 8} (hbuffer : stream.buffer = []) {text text' : List U8}
    (h : (crypt b stream text).toOption.map Prod.fst = some text') :
    (crypt b' stream text').toOption.map Prod.fst = some text := by
  rw [crypt_eq b hbuffer] at h
  obtain rfl := Option.some.inj h
  have hlen := length_keystreamBytes b stream text.length
  rw [crypt_eq b' hbuffer, List.length_zipWith, Nat.min_eq_left hlen, zipWith_keystreamBytes]
  rfl

/-- The key of a picture has 128 bytes. -/
theorem length_cacheKeys (P : Primitives) (cacheKey fingerprint : List U8) (hash : Hash) :
    (cacheKeys P cacheKey fingerprint hash).key.length = 128 := by
  rw [cacheKeys, diskKeys, List.length_map, length_chunks, Vector.length_toList]

section
variable (P : Primitives) (b b' : Build) (cacheKey fingerprint : List U8) (hash : Hash)

/-- Both sides take the same stream. -/
theorem exists_cacheStream : ∃ stream : RexStream 8 8, stream.buffer = [] ∧
    (∀ data, sealPicture P b cacheKey fingerprint hash data =
      ((crypt b stream data).toOption.map Prod.fst).map fun bytes =>
        bytes ++ (diskTag P (cacheKeys P cacheKey fingerprint hash).macKey bytes bytes.length).toList) ∧
    ∀ sealed, openPicture P b' cacheKey fingerprint hash sealed =
      (diskOpen P (cacheKeys P cacheKey fingerprint hash).macKey sealed).bind fun ciphertext =>
        (crypt b' stream ciphertext).toOption.map Prod.fst := by
  obtain ⟨stream, hstream, hat⟩ := diskStream_ok P (length_cacheKeys P cacheKey fingerprint hash)
    (cacheKeys P cacheKey fingerprint hash).nonce
  refine ⟨stream, hat.buffer, fun data => ?_, fun sealed => ?_⟩
  · simp only [sealPicture, hstream, Except.toOption, Option.bind_eq_bind, Option.bind_some]
    cases crypt b stream data <;> rfl
  · simp only [openPicture, hstream, Except.toOption, Option.bind_eq_bind, Option.bind_some]
    refine Option.bind_congr fun ciphertext _ => ?_
    cases crypt b' stream ciphertext <;> rfl

/-- What is sealed opens, in any build. -/
theorem openPicture_sealPicture {sealed data : List U8}
    (h : sealPicture P b cacheKey fingerprint hash data = some sealed) :
    openPicture P b' cacheKey fingerprint hash sealed = some data := by
  obtain ⟨stream, hbuffer, hseal, hopenPicture⟩ := exists_cacheStream P b b' cacheKey fingerprint hash
  rw [hseal, Option.map_eq_some_iff] at h
  obtain ⟨ciphertext, hcrypt, htag⟩ := h
  rw [hopenPicture, Option.bind_eq_some_iff]
  exact ⟨ciphertext, diskOpen_eq_some_iff.2 htag.symm, crypt_eq_ok_symm b b' hbuffer hcrypt⟩

/-- **A file is read back exactly if it is what sealing that picture gives**, for this server
and this hash. -/
theorem openPicture_iff (sealed data : List U8) :
    openPicture P b' cacheKey fingerprint hash sealed = some data ↔
      sealPicture P b cacheKey fingerprint hash data = some sealed := by
  refine ⟨fun h => ?_, openPicture_sealPicture P b b' cacheKey fingerprint hash⟩
  obtain ⟨stream, hbuffer, hseal, hopenPicture⟩ := exists_cacheStream P b b' cacheKey fingerprint hash
  rw [hopenPicture, Option.bind_eq_some_iff] at h
  obtain ⟨ciphertext, hopen, hcrypt⟩ := h
  rw [hseal, Option.map_eq_some_iff]
  exact ⟨ciphertext, crypt_eq_ok_symm b' b hbuffer hcrypt, (diskOpen_eq_some_iff.1 hopen).symm⟩

/-- What is sealed takes the room of the picture and the tag. -/
theorem exists_sealPicture (data : List U8) :
    ∃ sealed, sealPicture P b cacheKey fingerprint hash data = some sealed ∧
      sealed.length = data.length + diskTagSize := by
  obtain ⟨stream, hbuffer, hseal, -⟩ := exists_cacheStream P b b cacheKey fingerprint hash
  rw [hseal, crypt_eq b hbuffer]
  refine ⟨_, rfl, ?_⟩
  rw [List.length_append, Vector.length_toList, List.length_zipWith,
    Nat.min_eq_left (length_keystreamBytes b stream data.length), diskTagSize]

end

/-! ### The directories -/

/-- A file of the cache; its name is made of the hash. -/
structure CacheFile where
  hash : Hash
  bytes : List U8
  modified : ℕ

/-- The name of the file of a hash. -/
def cacheName (hash : Hash) : String := hex hash.toList

/-- How a write ends: it is done, it fails after some bytes, or no file is made. -/
inductive WriteOutcome
  | done
  | cut (length : ℕ)
  | refused

namespace CacheFile

/-- The names of the files that go, of those that are listed, with what they all take. -/
def removals : ℕ → List CacheFile → List String
  | _, [] => []
  | left, file :: files =>
    if left ≤ maxImageCache then [] else cacheName file.hash :: removals (left - file.bytes.length) files

/-- `evict`, with the order in which `read_dir` lists a directory. -/
def evict (listing : List CacheFile → List CacheFile) (directory : List CacheFile) : List CacheFile :=
  let files := listing directory
  if total (·.bytes.length) files ≤ maxImageCache then directory
  else
    let gone := removals (total (·.bytes.length) files) (files.insertionSort fun a b => a.modified ≤ b.modified)
    directory.filter fun file => cacheName file.hash ∉ gone

/-- `load`: a file that does not verify goes, and one that does is touched. -/
def load (P : Primitives) (b : Build) (cacheKey fingerprint : List U8) (hash : Hash) (now : ℕ)
    (directory : List CacheFile) : Option (List U8) × List CacheFile :=
  match directory.find? fun file => cacheName file.hash = cacheName hash with
  | none => (none, directory)
  | some file =>
    match openPicture P b cacheKey fingerprint hash file.bytes with
    | none => (none, directory.filter fun file => cacheName file.hash ≠ cacheName hash)
    | some image =>
      (some image,
        directory.map fun file => if cacheName file.hash = cacheName hash then { file with modified := now } else file)

/-- `store`: nothing is overwritten. -/
def store (P : Primitives) (b : Build) (listing : List CacheFile → List CacheFile) (cacheKey fingerprint : List U8)
    (hash : Hash) (data : List U8) (written : WriteOutcome) (now : ℕ) (directory : List CacheFile) : List CacheFile :=
  if directory.any fun file => cacheName file.hash = cacheName hash then directory
  else
    match sealPicture P b cacheKey fingerprint hash data with
    | none => directory
    | some bytes =>
      match written with
      | .done => evict listing (directory ++ [⟨hash, bytes, now⟩])
      | .cut length => directory ++ [⟨hash, bytes.take length, now⟩]
      | .refused => directory

end CacheFile

/-- What the client does with the cache of the server it is connected to, and when. -/
inductive CacheUse
  | load (hash : Hash)
  | store (hash : Hash) (data : List U8) (written : WriteOutcome)

/-- One use, with the fingerprint of the server; it is empty before a handshake. -/
structure CacheAction where
  fingerprint : List U8
  now : ℕ
  use : CacheUse

/-- The directory of each fingerprint, what was loaded for each, and when the cache was last
used. -/
structure ImageCaches where
  directory : List U8 → List CacheFile
  loaded : List U8 → List (Option (List U8))
  clock : ℕ

namespace ImageCaches

/-- No pictures. -/
def empty : ImageCaches := ⟨fun _ => [], fun _ => [], 0⟩

/-- One use: `scope`, then `load` or `store`. -/
def step (P : Primitives) (b : Build) (listing : List CacheFile → List CacheFile) (cacheKey : List U8)
    (s : ImageCaches) (action : CacheAction) : ImageCaches :=
  let f := action.fingerprint
  let s := { s with clock := action.now }
  match action.use with
  | .load hash =>
    if f = [] then { s with loaded := Function.update s.loaded f (s.loaded f ++ [none]) }
    else
      let (image, files) := CacheFile.load P b cacheKey f hash action.now (s.directory f)
      { s with
        directory := Function.update s.directory f files
        loaded := Function.update s.loaded f (s.loaded f ++ [image]) }
  | .store hash data written =>
    if f = [] then s
    else
      { s with
        directory := Function.update s.directory f
          (CacheFile.store P b listing cacheKey f hash data written action.now (s.directory f)) }

end ImageCaches

/-! ### What the cache is for -/

/-- A picture in the cache: the room it takes, and what there is to load. -/
structure Picture where
  hash : Hash
  size : ℕ
  content : Option (List U8)

/-- The pictures of one server, the least recently used one first, and what was loaded. -/
structure RecentPictures where
  pictures : List Picture
  loaded : List (Option (List U8))

namespace RecentPictures

/-- A picture is loaded; it is the one used last then.  What cannot be loaded goes. -/
def load (s : RecentPictures) (hash : Hash) : RecentPictures :=
  match s.pictures.find? (·.hash = hash) with
  | none => { s with loaded := s.loaded ++ [none] }
  | some picture =>
    let others := s.pictures.filter (·.hash ≠ hash)
    ⟨if picture.content.isSome then others ++ [picture] else others, s.loaded ++ [picture.content]⟩

/-- A picture is stored, and the least recently used ones go until all fit.  `salvage` is what
can be loaded from the first bytes of its file. -/
def store (salvage : Hash → List U8 → ℕ → Option (List U8)) (s : RecentPictures) (hash : Hash) (data : List U8)
    (written : WriteOutcome) : RecentPictures :=
  if s.pictures.any (·.hash = hash) then s
  else
    let size := data.length + diskTagSize
    match written with
    | .done => { s with pictures := trimmed Picture.size maxImageCache (s.pictures ++ [⟨hash, size, some data⟩]) }
    | .cut length => { s with pictures := s.pictures ++ [⟨hash, min length size, salvage hash data length⟩] }
    | .refused => s

/-- One use. -/
def step (salvage : Hash → List U8 → ℕ → Option (List U8)) (s : RecentPictures) : CacheUse → RecentPictures
  | .load hash => s.load hash
  | .store hash data written => s.store salvage hash data written

end RecentPictures

/-! ### A directory is a sequence of pictures -/

/-- Names are of one hash. -/
theorem hex_injective {bytes bytes' : List U8} (h : hex bytes = hex bytes') : bytes = bytes' := by
  have hdigit : ∀ m < 16, ∀ n < 16, Nat.digitChar m = Nat.digitChar n → m = n := by decide
  have hlist := String.ofList_injective h
  clear h
  induction bytes generalizing bytes' with
  | nil =>
    cases bytes' with
    | nil => rfl
    | cons y ys => cases hlist
  | cons x xs ih =>
    cases bytes' with
    | nil => cases hlist
    | cons y ys =>
      simp only [List.flatMap_cons, List.cons_append, List.nil_append, List.cons.injEq] at hlist
      obtain ⟨hhigh, hlow, hrest⟩ := hlist
      have hx := x.isLt
      have hy := y.isLt
      have hdiv := hdigit _ (by omega) _ (by omega) hhigh
      have hmod := hdigit _ (by omega) _ (by omega) hlow
      have hxy : x = y := BitVec.eq_of_toNat_eq (by omega)
      rw [hxy, ih hrest]

/-- A name is one hash's. -/
@[simp] theorem cacheName_inj {hash hash' : Hash} : cacheName hash = cacheName hash' ↔ hash = hash' := by
  refine ⟨fun h => ?_, fun h => h ▸ rfl⟩
  exact Vector.toList_inj.1 (hex_injective h)

namespace CacheFile

/-- What a file is to the client. -/
def picture (P : Primitives) (b : Build) (cacheKey fingerprint : List U8) (file : CacheFile) : Picture :=
  ⟨file.hash, file.bytes.length, openPicture P b cacheKey fingerprint file.hash file.bytes⟩

/-- The files of a directory in the order of their times, which are not after the clock. -/
structure InOrder (directory files : List CacheFile) (clock : ℕ) : Prop where
  perm : List.Perm files directory
  sorted : files.Pairwise fun a c => a.modified < c.modified
  past : ∀ file ∈ files, file.modified ≤ clock
  hashes : (files.map (·.hash)).Nodup

variable {directory files : List CacheFile} {clock now : ℕ} {hash : Hash}

/-- A hash has one file. -/
theorem InOrder.eq_of_hash (h : InOrder directory files clock) {file file' : CacheFile} (hfile : file ∈ files)
    (hfile' : file' ∈ files) (heq : file.hash = file'.hash) : file = file' :=
  List.inj_on_of_nodup_map h.hashes hfile hfile' heq

/-- A file is found by its name in any order. -/
theorem InOrder.find?_eq (h : InOrder directory files clock) (hash : Hash) :
    (directory.find? fun file => cacheName file.hash = cacheName hash) = files.find? (·.hash = hash) := by
  simp only [cacheName_inj]
  cases hfind : files.find? (·.hash = hash) with
  | none =>
    rw [List.find?_eq_none] at hfind ⊢
    exact fun file hfile => hfind file (h.perm.mem_iff.2 hfile)
  | some file =>
    have hfile := List.mem_of_find?_eq_some hfind
    cases hother : directory.find? (·.hash = hash) with
    | none => exact absurd (List.find?_some hfind) (List.find?_eq_none.1 hother file (h.perm.mem_iff.1 hfile))
    | some other =>
      have hmem := h.perm.mem_iff.2 (List.mem_of_find?_eq_some hother)
      have hhash : file.hash = hash := by simpa using List.find?_some hfind
      have hhash' : other.hash = hash := by simpa using List.find?_some hother
      rw [h.eq_of_hash hmem hfile (hhash'.trans hhash.symm)]

/-- Files that go leave the others in order. -/
theorem InOrder.filter (h : InOrder directory files clock) (p : CacheFile → Bool) (hclock : clock ≤ now) :
    InOrder (directory.filter p) (files.filter p) now where
  perm := h.perm.filter p
  sorted := h.sorted.filter p
  past file hfile := (h.past file (List.mem_of_mem_filter hfile)).trans hclock
  hashes := h.hashes.sublist (List.filter_sublist.map _)

/-- A file that is made is the last one. -/
theorem InOrder.concat (h : InOrder directory files clock) (hnow : clock < now)
    (hnew : ∀ file ∈ files, file.hash ≠ hash) (bytes : List U8) :
    InOrder (directory ++ [⟨hash, bytes, now⟩]) (files ++ [⟨hash, bytes, now⟩]) now where
  perm := h.perm.append_right _
  sorted := by
    refine List.pairwise_append.2 ⟨h.sorted, List.pairwise_singleton _ _, fun file hfile new hmem => ?_⟩
    rw [List.mem_singleton.1 hmem]
    exact (h.past file hfile).trans_lt hnow
  past file hfile := by
    rcases List.mem_append.1 hfile with hfile | hfile
    · exact (h.past file hfile).trans hnow.le
    · rw [List.mem_singleton.1 hfile]
  hashes := by
    rw [List.map_append]
    refine List.nodup_append.2 ⟨h.hashes, List.nodup_singleton _, fun x hx y hy => ?_⟩
    obtain ⟨file, hfile, rfl⟩ := List.mem_map.1 hx
    rw [List.map_singleton, List.mem_singleton] at hy
    exact hy ▸ hnew file hfile

/-- A file that is touched is the last one. -/
theorem InOrder.touch (h : InOrder directory files clock) (hnow : clock < now) {file : CacheFile}
    (hfile : file ∈ files) :
    InOrder (directory.map fun other =>
        if cacheName other.hash = cacheName file.hash then { other with modified := now } else other)
      (files.filter (·.hash ≠ file.hash) ++ [{ file with modified := now }]) now where
  perm := by
    simp only [cacheName_inj]
    refine List.Perm.trans ?_ (h.perm.map _)
    have hone : files.filter (·.hash = file.hash) = [file] := by
      refine List.perm_singleton.1 ((List.perm_ext_iff_of_nodup ?_ (List.nodup_singleton file)).2 fun other => ?_)
      · exact (h.hashes.of_map _).filter _
      · rw [List.mem_filter, List.mem_singleton, decide_eq_true_iff]
        refine ⟨fun hother => h.eq_of_hash hother.1 hfile hother.2, ?_⟩
        rintro rfl
        exact ⟨hfile, rfl⟩
    have hsplit := List.filter_append_perm (fun other : CacheFile => decide (other.hash = file.hash)) files
    rw [hone] at hsplit
    refine List.Perm.trans ?_ (hsplit.map _)
    rw [List.map_append, List.map_singleton, if_pos rfl]
    refine List.perm_append_comm.trans (List.Perm.append_left _ ?_)
    have hothers : (files.filter fun other => !decide (other.hash = file.hash)).map (fun other =>
        if other.hash = file.hash then { other with modified := now } else other) =
          files.filter (·.hash ≠ file.hash) := by
      refine (List.map_congr_left fun other hother => ?_).trans ((List.map_id _).trans ?_)
      · exact if_neg (by simpa using List.of_mem_filter hother)
      · exact List.filter_congr fun other _ => by simp
    rw [hothers]
  sorted := by
    refine List.pairwise_append.2 ⟨h.sorted.filter _, List.pairwise_singleton _ _, fun other hother new hmem => ?_⟩
    rw [List.mem_singleton.1 hmem]
    exact (h.past other (List.mem_of_mem_filter hother)).trans_lt hnow
  past other hother := by
    rcases List.mem_append.1 hother with hother | hother
    · exact (h.past other (List.mem_of_mem_filter hother)).trans hnow.le
    · rw [List.mem_singleton.1 hother]
  hashes := by
    rw [List.map_append]
    refine List.nodup_append.2
      ⟨h.hashes.sublist (List.filter_sublist.map _), List.nodup_singleton _, fun x hx y hy => ?_⟩
    obtain ⟨other, hother, rfl⟩ := List.mem_map.1 hx
    rw [List.map_singleton, List.mem_singleton] at hy
    rw [hy]
    simpa using List.of_mem_filter hother

/-- The files that go are the first ones, and the rest fits. -/
theorem removals_spec (files : List CacheFile) :
    ∃ gone, files = gone ++ trimmed (·.bytes.length) maxImageCache files ∧
      removals (total (·.bytes.length) files) files = gone.map fun file => cacheName file.hash := by
  induction files with
  | nil => exact ⟨[], rfl, rfl⟩
  | cons file files ih =>
    rw [removals, trimmed]
    split
    · exact ⟨[], rfl, rfl⟩
    · obtain ⟨gone, hfiles, hgone⟩ := ih
      refine ⟨file :: gone, ?_, ?_⟩
      · rw [List.cons_append, ← hfiles]
      · rw [total_cons, Nat.add_sub_cancel_left, hgone, List.map_cons]

/-- **The files used last stay**: as many of them as fit. -/
theorem InOrder.evict (h : InOrder directory files clock) {listing : List CacheFile → List CacheFile}
    (hlisting : ∀ directory, List.Perm (listing directory) directory) :
    InOrder (evict listing directory) (trimmed (·.bytes.length) maxImageCache files) clock := by
  have hperm : List.Perm files (listing directory) := h.perm.trans (hlisting directory).symm
  unfold CacheFile.evict
  dsimp only
  rw [← total_perm hperm]
  split
  · rename_i hfits
    rw [trimmed_of_le hfits]
    exact h
  · rw [sort_eq_of_perm h.sorted hperm]
    obtain ⟨gone, hfiles, hgone⟩ := removals_spec files
    have hkept := h.filter (fun file => cacheName file.hash ∉ gone.map fun file => cacheName file.hash)
      (Nat.le_refl clock)
    rw [hgone]
    suffices hfilter : files.filter (fun file => cacheName file.hash ∉ gone.map fun file => cacheName file.hash) =
        trimmed (·.bytes.length) maxImageCache files by rwa [hfilter] at hkept
    have hnodup := h.hashes
    generalize trimmed (·.bytes.length) maxImageCache files = kept at hfiles
    rw [hfiles, List.map_append] at hnodup
    have hdisjoint := (List.nodup_append.1 hnodup).2.2
    rw [hfiles, List.filter_append]
    have hout : gone.filter (fun file => cacheName file.hash ∉ gone.map fun file => cacheName file.hash) = [] := by
      refine List.filter_eq_nil_iff.2 fun file hfile => ?_
      simpa using ⟨file, hfile, rfl⟩
    have hin : kept.filter (fun file => cacheName file.hash ∉ gone.map fun file => cacheName file.hash) = kept := by
      refine List.filter_eq_self.2 fun file hfile => ?_
      simp only [List.mem_map, cacheName_inj, decide_eq_true_eq]
      rintro ⟨other, hother, heq⟩
      exact hdisjoint _ (List.mem_map_of_mem hother) _ (List.mem_map_of_mem hfile) heq
    rw [hout, hin, List.nil_append]

variable (P : Primitives) (b : Build) (cacheKey fingerprint : List U8) (loaded : List (Option (List U8)))

/-- A picture is found as its file is. -/
theorem find?_picture (files : List CacheFile) (hash : Hash) :
    (files.map (picture P b cacheKey fingerprint)).find? (·.hash = hash) =
      (files.find? (·.hash = hash)).map (picture P b cacheKey fingerprint) := List.find?_map ..

/-- Pictures are trimmed as their files are. -/
theorem trimmed_picture (files : List CacheFile) :
    trimmed Picture.size maxImageCache (files.map (picture P b cacheKey fingerprint)) =
      (trimmed (·.bytes.length) maxImageCache files).map (picture P b cacheKey fingerprint) :=
  trimmed_map (fun _ => rfl) maxImageCache files

/-- Pictures go as their files do. -/
theorem filter_picture (files : List CacheFile) (hash : Hash) :
    (files.map (picture P b cacheKey fingerprint)).filter (·.hash ≠ hash) =
      (files.filter (·.hash ≠ hash)).map (picture P b cacheKey fingerprint) := List.filter_map ..

/-- **A load** finds the picture and makes it the one used last, or removes what does not
verify. -/
theorem InOrder.load (h : InOrder directory files clock) (hnow : clock < now) (hash : Hash) :
    ∃ files', InOrder (CacheFile.load P b cacheKey fingerprint hash now directory).2 files' now ∧
      RecentPictures.load ⟨files.map (picture P b cacheKey fingerprint), loaded⟩ hash =
        ⟨files'.map (picture P b cacheKey fingerprint),
          loaded ++ [(CacheFile.load P b cacheKey fingerprint hash now directory).1]⟩ := by
  unfold CacheFile.load RecentPictures.load
  rw [h.find?_eq, find?_picture]
  cases hfind : files.find? (·.hash = hash) with
  | none => exact ⟨files, ⟨h.perm, h.sorted, fun file hfile => (h.past file hfile).trans hnow.le, h.hashes⟩, rfl⟩
  | some file =>
    obtain rfl : file.hash = hash := by simpa using List.find?_some hfind
    have hfile := List.mem_of_find?_eq_some hfind
    dsimp only [Option.map_some]
    rw [filter_picture]
    cases hopen : openPicture P b cacheKey fingerprint file.hash file.bytes with
    | none =>
      have hkept := h.filter (fun other => cacheName other.hash ≠ cacheName file.hash) hnow.le
      simp only [ne_eq, cacheName_inj] at hkept ⊢
      refine ⟨_, hkept, ?_⟩
      simp only [picture, hopen, Option.isSome_none, Bool.false_eq_true, if_false]
    | some image =>
      refine ⟨_, h.touch hnow hfile, ?_⟩
      rw [List.map_append]
      simp only [picture, hopen, Option.isSome_some, if_true, List.map_cons, List.map_nil]

/-- What can be loaded from a file that was cut short. -/
def salvage (P : Primitives) (b : Build) (cacheKey fingerprint : List U8) (hash : Hash) (data : List U8) (length : ℕ) :
    Option (List U8) := do
  let bytes ← sealPicture P b cacheKey fingerprint hash data
  openPicture P b cacheKey fingerprint hash (bytes.take length)

/-- **A store** adds a picture that is not there yet, and the least recently used ones go. -/
theorem InOrder.store (h : InOrder directory files clock) (hnow : clock < now)
    {listing : List CacheFile → List CacheFile} (hlisting : ∀ directory, List.Perm (listing directory) directory)
    (hash : Hash) (data : List U8) (written : WriteOutcome) :
    ∃ files', InOrder (CacheFile.store P b listing cacheKey fingerprint hash data written now directory) files' now ∧
      RecentPictures.store (salvage P b cacheKey fingerprint) ⟨files.map (picture P b cacheKey fingerprint), loaded⟩
        hash data written = ⟨files'.map (picture P b cacheKey fingerprint), loaded⟩ := by
  have hkept : InOrder directory files now :=
    ⟨h.perm, h.sorted, fun file hfile => (h.past file hfile).trans hnow.le, h.hashes⟩
  have hany : (directory.any fun file => cacheName file.hash = cacheName hash) =
      (files.map (picture P b cacheKey fingerprint)).any (·.hash = hash) := by
    simp only [cacheName_inj, List.any_map]
    exact (h.perm.any_eq).symm
  unfold CacheFile.store RecentPictures.store
  rw [hany]
  dsimp only
  split
  · exact ⟨files, hkept, rfl⟩
  · rename_i hnone
    obtain ⟨bytes, hseal, hlen⟩ := exists_sealPicture P b cacheKey fingerprint hash data
    have hnew : ∀ file ∈ files, file.hash ≠ hash := by
      simp only [List.any_map, List.any_eq_true, not_exists, not_and] at hnone
      exact fun file hfile heq => hnone file hfile (decide_eq_true heq)
    rw [hseal]
    cases written with
    | refused => exact ⟨files, hkept, rfl⟩
    | cut length =>
      refine ⟨_, h.concat hnow hnew (bytes.take length), ?_⟩
      rw [List.map_append, List.map_singleton, picture, List.length_take, hlen]
      simp only [salvage, hseal, Option.bind_eq_bind, Option.bind_some]
    | done =>
      refine ⟨_, (h.concat hnow hnew bytes).evict hlisting, ?_⟩
      have hopen := openPicture_sealPicture P b b cacheKey fingerprint hash hseal
      rw [← trimmed_picture, List.map_append, List.map_singleton, picture, hlen, hopen]

end CacheFile

namespace ImageCaches

variable (P : Primitives) (b : Build) (listing : List CacheFile → List CacheFile) (cacheKey : List U8)

/-- The directory of a server is this sequence of pictures. -/
def Shows (s : ImageCaches) (fingerprint : List U8) (r : RecentPictures) : Prop :=
  ∃ files, CacheFile.InOrder (s.directory fingerprint) files s.clock ∧
    files.map (CacheFile.picture P b cacheKey fingerprint) = r.pictures ∧ s.loaded fingerprint = r.loaded

variable {P b listing cacheKey} {s s' : ImageCaches} {fingerprint : List U8} {r : RecentPictures} {action : CacheAction}

/-- What is done for another server does not show. -/
theorem Shows.other (h : s.Shows P b cacheKey fingerprint r) (hlater : s.clock < action.now)
    (hother : action.fingerprint ≠ fingerprint) :
    (s.step P b listing cacheKey action).Shows P b cacheKey fingerprint r := by
  obtain ⟨files, horder, hpictures, hloaded⟩ := h
  have hsame : (s.step P b listing cacheKey action).directory fingerprint = s.directory fingerprint ∧
      (s.step P b listing cacheKey action).loaded fingerprint = s.loaded fingerprint ∧
      (s.step P b listing cacheKey action).clock = action.now := by
    unfold ImageCaches.step
    dsimp only
    split
    · split
      · exact ⟨rfl, Function.update_of_ne hother.symm _ _, rfl⟩
      · exact ⟨Function.update_of_ne hother.symm _ _, Function.update_of_ne hother.symm _ _, rfl⟩
    · split
      · exact ⟨rfl, rfl, rfl⟩
      · exact ⟨Function.update_of_ne hother.symm _ _, rfl, rfl⟩
  obtain ⟨hdirectory, hlog, hclock⟩ := hsame
  refine ⟨files, ?_, hpictures, hlog.trans hloaded⟩
  rw [hdirectory, hclock]
  exact ⟨horder.perm, horder.sorted, fun file hfile => (horder.past file hfile).trans hlater.le, horder.hashes⟩

/-- **One use of the cache is one use of the sequence.** -/
theorem Shows.step (hlisting : ∀ directory, List.Perm (listing directory) directory)
    (h : s.Shows P b cacheKey action.fingerprint r) (hlater : s.clock < action.now) (hne : action.fingerprint ≠ []) :
    (s.step P b listing cacheKey action).Shows P b cacheKey action.fingerprint
      (r.step (CacheFile.salvage P b cacheKey action.fingerprint) action.use) := by
  obtain ⟨files, horder, hpictures, hloaded⟩ := h
  obtain ⟨pictures, loaded⟩ := r
  obtain rfl : _ = pictures := hpictures
  obtain rfl : s.loaded action.fingerprint = loaded := hloaded
  unfold ImageCaches.step
  cases action.use with
  | load hash =>
    obtain ⟨files', horder', hload⟩ := horder.load P b cacheKey action.fingerprint
      (s.loaded action.fingerprint) hlater hash
    dsimp only
    rw [if_neg hne, RecentPictures.step, hload]
    refine ⟨files', ?_, rfl, Function.update_self ..⟩
    dsimp only
    rw [Function.update_self]
    exact horder'
  | store hash data written =>
    obtain ⟨files', horder', hstore⟩ := horder.store P b cacheKey action.fingerprint
      (s.loaded action.fingerprint) hlater hlisting hash data written
    dsimp only
    rw [if_neg hne, RecentPictures.step, hstore]
    refine ⟨files', ?_, rfl, rfl⟩
    dsimp only
    rw [Function.update_self]
    exact horder'

/-- The clock is that of the action. -/
theorem step_clock (P : Primitives) (b : Build) (listing : List CacheFile → List CacheFile) (cacheKey : List U8)
    (s : ImageCaches) (action : CacheAction) : (s.step P b listing cacheKey action).clock = action.now := by
  unfold ImageCaches.step
  dsimp only
  split
  · split <;> rfl
  · split <;> rfl

/-- **Every run shows the recent pictures**, as long as the times of use go up. -/
theorem Shows.foldl (hlisting : ∀ directory, List.Perm (listing directory) directory) (hne : fingerprint ≠ [])
    (h : s.Shows P b cacheKey fingerprint r) {actions : List CacheAction}
    (hclock : List.IsChain (· < ·) (s.clock :: actions.map (·.now))) :
    (actions.foldl (ImageCaches.step P b listing cacheKey) s).Shows P b cacheKey fingerprint
      (((actions.filter (·.fingerprint = fingerprint)).map (·.use)).foldl
        (RecentPictures.step (CacheFile.salvage P b cacheKey fingerprint)) r) := by
  induction actions generalizing s r with
  | nil => exact h
  | cons action actions ih =>
    rw [List.map_cons, List.isChain_cons_cons] at hclock
    obtain ⟨hlater, hclock⟩ := hclock
    rw [← step_clock P b listing cacheKey s action] at hclock
    by_cases hfingerprint : action.fingerprint = fingerprint
    · subst hfingerprint
      have hfilter : (action :: actions).filter (·.fingerprint = action.fingerprint) =
          action :: actions.filter (·.fingerprint = action.fingerprint) := List.filter_cons_of_pos (decide_eq_true rfl)
      rw [hfilter]
      exact ih (h.step hlisting hlater hne) hclock
    · rw [List.filter_cons_of_neg (by simpa using hfingerprint)]
      exact ih (h.other hlater hfingerprint) hclock

/-- **The cache of a server is its pictures with the least recently used first**, whatever is
loaded and stored for other servers in between: what is in its directory, in the order of the
times, and what each load gave are those of its own uses. -/
theorem caches_recent (P : Primitives) (b : Build) (listing : List CacheFile → List CacheFile)
    (hlisting : ∀ directory, List.Perm (listing directory) directory) (cacheKey fingerprint : List U8)
    (hne : fingerprint ≠ []) (actions : List CacheAction)
    (hclock : List.IsChain (· < ·) (0 :: actions.map (·.now))) :
    (actions.foldl (ImageCaches.step P b listing cacheKey) empty).Shows P b cacheKey fingerprint
      (((actions.filter (·.fingerprint = fingerprint)).map (·.use)).foldl
        (RecentPictures.step (CacheFile.salvage P b cacheKey fingerprint)) ⟨[], []⟩) :=
  Shows.foldl hlisting hne
    ⟨[], ⟨List.Perm.refl [], .nil, fun _ h => absurd h List.not_mem_nil, List.nodup_nil⟩, rfl, rfl⟩ hclock

/-- Two servers' pictures of one hash. -/
theorem caches_recent_two :
    (List.foldl (ImageCaches.step default ⟨false, false⟩ List.reverse []) empty
      [⟨[1], 1, .store (.replicate 32 0) [7] .done⟩, ⟨[2], 2, .load (.replicate 32 0)⟩,
        ⟨[1], 3, .load (.replicate 32 0)⟩]).loaded [1] = [some [7]] := by
  obtain ⟨_, _, _, hloaded⟩ := caches_recent default ⟨false, false⟩ List.reverse List.reverse_perm [] [1] (by decide)
    [⟨[1], 1, .store (.replicate 32 0) [7] .done⟩, ⟨[2], 2, .load (.replicate 32 0)⟩,
      ⟨[1], 3, .load (.replicate 32 0)⟩] (by decide)
  exact hloaded

end ImageCaches

end Why2
