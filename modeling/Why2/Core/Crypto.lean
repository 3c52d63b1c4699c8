/-
# Round keys and counter mode

`core/src/crypto.rs`, with `Grid::increment` of `core/src/grid.rs`.  SHA-256,
ChaCha20, HMAC and HKDF come from other crates: they are the fields of
`Primitives`, arbitrary functions with the sizes their types give them.
System entropy is an argument (the 32-byte seed `SysRng` fills).

The block cipher (`encryptBlock`) is whitening, keyed rounds and whitening; a
keystream block is the cipher at `nonce + counter`, XORed into the data
(`keystreamBlock`).  Every layer is injective, so the cipher permutes the
grids, and the counter reaches the first cell unreduced, so no two counters
give the same keystream block (`keystream_blocks_distinct`).
-/

import Why2.Core.Subcell
import Why2.Core.MixColumns

namespace Why2

/-- The functions the code takes from the `sha2`, `rand_chacha`, `hmac` and
`hkdf` crates.  `fill` fills a slice of `n` cells and advances the generator;
`hkdf` is extract with an optional salt and expand to `n` bytes. -/
structure Primitives where
  Rng : Type
  sha256 : List U8 → Vector U8 32
  fromSeed : Vector U8 32 → Rng
  fill : Rng → (n : ℕ) → Vector I64 n × Rng
  hmac : List U8 → List U8 → Vector U8 32
  hkdf : Option (List U8) → List U8 → List U8 → (n : ℕ) → Vector U8 n

/-- Primitives that return zeros. -/
instance : Inhabited Primitives :=
  ⟨{ Rng := Unit
     sha256 := fun _ => .replicate 32 0
     fromSeed := fun _ => ()
     fill := fun _ n => (.replicate n 0, ())
     hmac := fun _ _ => .replicate 32 0
     hkdf := fun _ _ _ n => .replicate n 0 }⟩

/-- `consts::ROUND_KEYS`. -/
def roundKeyCount : ℕ := 17

variable {W H : ℕ}

/-! ### The counter -/

/-- The carry loop of `increment` with the `constant-time` feature: every cell is
visited. -/
def incrementConstantTime : I64 → List I64 → List I64
  | _, [] => []
  | carry, cell :: cells =>
    (cell + carry) :: incrementConstantTime (if cell.uaddOverflow carry then 1 else 0) cells

/-- The carry loop without it: the first cell that does not overflow ends it. -/
def incrementEarlyReturn : I64 → List I64 → List I64
  | _, [] => []
  | carry, cell :: cells =>
    (cell + carry) :: if cell.uaddOverflow carry then incrementEarlyReturn 1 cells else cells

/-- `Grid::increment`: the grid as one little-endian number, `amount` added. -/
def Grid.increment (b : Build) (amount : I64) (g : Grid W H) : Grid W H :=
  .ofFlat (if b.constantTime then incrementConstantTime amount g.toFlat
    else incrementEarlyReturn amount g.toFlat)

/-! ### Keys -/

/-- `sha256_seed_grid`. -/
def sha256SeedGrid (P : Primitives) (key : Grid W H) : Vector U8 32 :=
  P.sha256 (key.toFlat.flatMap toBeBytes)

/-- `generate_key_deterministic`. -/
def generateKeyDeterministic (P : Primitives) (W H : ℕ) (rng : P.Rng) : List I64 × P.Rng :=
  let (key, rng) := P.fill rng (2 * W * H)
  (key.toList, rng)

/-- `generate_key`, from the seed the system generator filled. -/
def generateKey (P : Primitives) (W H : ℕ) (seed : Vector U8 32) : List I64 :=
  (generateKeyDeterministic P W H (P.fromSeed seed)).1

/-- The loop of `generate_round_keys`: `n` more keys from the generator. -/
def roundKeysLoop (P : Primitives) : ℕ → P.Rng → Except Fault (List (Grid W H))
  | 0, _ => pure []
  | n + 1, rng => do
    let (key, rng) := generateKeyDeterministic P W H rng
    let grid ← Grid.fromKey key
    let keys ← roundKeysLoop P n rng
    return grid :: keys

/-- `generate_round_keys`. -/
def generateRoundKeys (P : Primitives) (masterKey : Grid W H) : Except Fault (List (Grid W H)) :=
  roundKeysLoop P roundKeyCount (P.fromSeed (sha256SeedGrid P masterKey))

/-- `generate_nonce`, from the seed the system generator filled. -/
def generateNonce (P : Primitives) (seed : Vector U8 32) : Except Fault (Grid W H) :=
  Grid.fromKey (generateKey P W H seed)

/-- The keys of the rounds, `round_keys[1..round_keys.len() - 1]`. -/
def innerKeys (roundKeys : List (Grid W H)) : List (Grid W H) := roundKeys.tail.dropLast

/-- The message of the first assertion on a schedule. -/
def scheduleTooShort : Fault := .panic "round key schedule must hold at least the two whitening keys"

/-- `derive_round_shifts`. -/
def deriveRoundShifts (roundKeys : List (Grid W H)) : Except Fault (List (Vector ℕ H)) :=
  if 2 ≤ roundKeys.length then .ok ((innerKeys roundKeys).map Grid.precalculateShifts)
  else .error scheduleTooShort

/-! ### The block cipher and counter mode -/

/-- One round of `keystream_block`. -/
def cipherRound (b : Build) (roundShifts : List (Vector ℕ H)) (block : Grid W H)
    (round : Grid W H × ℕ) : Grid W H :=
  let block := block ^^^ round.1
  let block := block.subcell b round.2
  let block := block.shiftRows b (roundShifts.getD round.2 (Vector.ofFn fun _ => 0))
  block.mixColumns

/-- The block transformation of `keystream_block`: whitening, the keyed rounds,
whitening.  The assertions of the caller keep the indices in range. -/
def encryptBlock (b : Build) (roundKeys : List (Grid W H)) (roundShifts : List (Vector ℕ H))
    (block : Grid W H) : Grid W H :=
  let block := block ^^^ roundKeys.headD (.ofFlat [])
  let block := (innerKeys roundKeys).zipIdx.foldl (cipherRound b roundShifts) block
  block ^^^ roundKeys.getLastD (.ofFlat [])

/-- The keystream block at `counter`. -/
def keystream (b : Build) (nonce : Grid W H) (roundKeys : List (Grid W H))
    (roundShifts : List (Vector ℕ H)) (counter : I64) : Grid W H :=
  encryptBlock b roundKeys roundShifts (nonce.increment b counter)

/-- `keystream_block`: the keystream block at `counter`, XORed into `grid`. -/
def keystreamBlock (b : Build) (grid nonce : Grid W H) (roundKeys : List (Grid W H))
    (roundShifts : List (Vector ℕ H)) (counter : I64) : Grid W H :=
  grid ^^^ keystream b nonce roundKeys roundShifts counter

/-- `apply_ctr_with_shifts`.  Batches below `PARALLEL_THRESHOLD` run on the
calling thread, larger ones on the pool; either way block `i` is touched by the
one call for it. -/
def applyCtrWithShifts (b : Build) (grids : List (Grid W H)) (nonce : Grid W H)
    (roundKeys : List (Grid W H)) (roundShifts : List (Vector ℕ H)) (counterOffset : Option I64) :
    Except Fault (List (Grid W H)) := do
  if roundKeys.length < 2 then throw scheduleTooShort
  if roundShifts.length < roundKeys.length - 2 then
    throw (.panic "one row shift is required per keyed round")
  let offset := counterOffset.getD 0
  return grids.mapIdx fun i grid =>
    keystreamBlock b grid nonce roundKeys roundShifts (offset + BitVec.ofNat 64 i)

/-- `apply_ctr`. -/
def applyCtr (b : Build) (grids : List (Grid W H)) (nonce : Grid W H)
    (roundKeys : List (Grid W H)) (counterOffset : Option I64) : Except Fault (List (Grid W H)) := do
  let roundShifts ← deriveRoundShifts roundKeys
  applyCtrWithShifts b grids nonce roundKeys roundShifts counterOffset

/-! ### Key generation succeeds -/

/-- A key that is generated is one. -/
theorem fromKey_generated (hd : Grid.Supported W H) {P : Primitives} (rng : P.Rng) :
    ∃ grid : Grid W H, Grid.fromKey (generateKeyDeterministic P W H rng).1 = .ok grid := by
  refine ⟨_, Grid.fromKey_eq hd ?_⟩
  simp only [generateKeyDeterministic, Vector.length_toList]
  rw [Nat.mul_assoc, Nat.mul_comm]

/-- The round keys are generated without a panic. -/
theorem roundKeysLoop_ok (hd : Grid.Supported W H) (P : Primitives) (n : ℕ) (rng : P.Rng) :
    ∃ keys : List (Grid W H), roundKeysLoop P n rng = .ok keys ∧ keys.length = n := by
  induction n generalizing rng with
  | zero => exact ⟨[], rfl, rfl⟩
  | succ n ih =>
    obtain ⟨grid, hgrid⟩ := fromKey_generated hd rng
    obtain ⟨keys, hkeys, hlen⟩ := ih (generateKeyDeterministic P W H rng).2
    refine ⟨grid :: keys, ?_, by rw [List.length_cons, hlen]⟩
    simp only [roundKeysLoop, hgrid, hkeys, bind, Except.bind, pure, Except.pure]

/-- On supported grids every master key has its schedule. -/
theorem generateRoundKeys_ok (hd : Grid.Supported W H) (P : Primitives) (masterKey : Grid W H) :
    ∃ keys, generateRoundKeys P masterKey = .ok keys ∧ keys.length = roundKeyCount :=
  roundKeysLoop_ok hd P _ _

/-! ### The cipher permutes the grids -/

/-- The shifts are those of the inner keys. -/
theorem deriveRoundShifts_eq {roundKeys : List (Grid W H)} (hk : 2 ≤ roundKeys.length) :
    deriveRoundShifts roundKeys = .ok ((innerKeys roundKeys).map Grid.precalculateShifts) :=
  if_pos hk

/-- The assertions of `apply_ctr_with_shifts` hold of every schedule with its
derived shifts. -/
theorem applyCtrWithShifts_eq (b : Build) (grids : List (Grid W H)) (nonce : Grid W H)
    {roundKeys : List (Grid W H)} {roundShifts : List (Vector ℕ H)}
    (hs : deriveRoundShifts roundKeys = .ok roundShifts) (counterOffset : Option I64) :
    applyCtrWithShifts b grids nonce roundKeys roundShifts counterOffset =
      .ok (grids.mapIdx fun i grid => keystreamBlock b grid nonce roundKeys roundShifts
        (counterOffset.getD 0 + BitVec.ofNat 64 i)) := by
  unfold deriveRoundShifts at hs
  split_ifs at hs with hk
  obtain rfl := Except.ok.inj hs
  have h1 : ¬roundKeys.length < 2 := by omega
  have h2 : ¬((innerKeys roundKeys).map Grid.precalculateShifts).length < roundKeys.length - 2 := by
    rw [List.length_map, innerKeys, List.length_dropLast, List.length_tail]
    omega
  simp only [applyCtrWithShifts, h1, h2, if_false]
  rfl

/-- **The keystream is that of the block function.** -/
theorem applyCtr_eq (b : Build) (grids : List (Grid W H)) (nonce : Grid W H)
    {roundKeys : List (Grid W H)} {roundShifts : List (Vector ℕ H)}
    (hs : deriveRoundShifts roundKeys = .ok roundShifts) (counterOffset : Option I64) :
    applyCtr b grids nonce roundKeys counterOffset =
      .ok (grids.mapIdx fun i grid => keystreamBlock b grid nonce roundKeys roundShifts
        (counterOffset.getD 0 + BitVec.ofNat 64 i)) := by
  rw [applyCtr, hs]
  exact applyCtrWithShifts_eq b grids nonce hs counterOffset

/-- Shifts derived from round keys are below the width. -/
theorem derived_shifts_lt (hW : 0 < W) {roundKeys : List (Grid W H)}
    {roundShifts : List (Vector ℕ H)} (hs : deriveRoundShifts roundKeys = .ok roundShifts) (i : ℕ)
    (j : Fin H) : (roundShifts.getD i (Vector.ofFn fun _ => 0)).get j < W := by
  unfold deriveRoundShifts at hs
  split_ifs at hs
  obtain rfl := Except.ok.inj hs
  rcases Nat.lt_or_ge i ((innerKeys roundKeys).map Grid.precalculateShifts).length with h | h
  · rw [List.getD_eq_getElem _ _ h, List.getElem_map]
    exact Grid.precalculateShifts_lt hW _ j
  · rw [List.getD_eq_default _ _ h, get_ofFn]
    exact hW

/-- A round loses nothing. -/
theorem cipherRound_injective (hd : Grid.Supported W H) (b : Build)
    {roundShifts : List (Vector ℕ H)}
    (hs : ∀ i j, (roundShifts.getD i (Vector.ofFn fun _ => 0)).get j < W)
    (round : Grid W H × ℕ) :
    Function.Injective fun block : Grid W H => cipherRound b roundShifts block round :=
  (Grid.mixColumns_injective hd).comp <| (Grid.shiftRows_injective b (hs round.2)).comp <|
    (Grid.subcell_injective b round.2).comp (Grid.xor_left_injective round.1)

/-- Any number of rounds is injective. -/
theorem foldl_cipherRound_injective (hd : Grid.Supported W H) (b : Build)
    {roundShifts : List (Vector ℕ H)}
    (hs : ∀ i j, (roundShifts.getD i (Vector.ofFn fun _ => 0)).get j < W)
    (rounds : List (Grid W H × ℕ)) :
    Function.Injective (rounds.foldl (cipherRound b roundShifts)) := by
  induction rounds with
  | nil => exact Function.injective_id
  | cons round rounds ih => exact ih.comp (cipherRound_injective hd b hs round)

/-- **The block function loses nothing.** -/
theorem encryptBlock_injective (hd : Grid.Supported W H) (b : Build)
    {roundKeys : List (Grid W H)} {roundShifts : List (Vector ℕ H)}
    (hs : deriveRoundShifts roundKeys = .ok roundShifts) :
    Function.Injective (encryptBlock b roundKeys roundShifts) := by
  have hW : 0 < W := by have := hd.1; omega
  exact (Grid.xor_left_injective _).comp <|
    (foldl_cipherRound_injective hd b (derived_shifts_lt hW hs) _).comp (Grid.xor_left_injective _)

/-! ### No two counters share a keystream block -/

/-- Without a carry nothing changes, so both carry loops agree. -/
theorem incrementConstantTime_zero (cells : List I64) : incrementConstantTime 0 cells = cells := by
  induction cells with
  | nil => rfl
  | cons cell cells ih =>
    have hno : cell.uaddOverflow 0 = false := by
      simp only [BitVec.uaddOverflow, BitVec.ofNat_eq_ofNat, BitVec.toNat_ofNat, Nat.zero_mod,
        Nat.add_zero, decide_eq_false_iff_not, not_le]
      exact cell.isLt
    rw [incrementConstantTime, hno]
    simpa using ih

/-- An early return adds the same. -/
theorem incrementEarlyReturn_eq (carry : I64) (cells : List I64) :
    incrementEarlyReturn carry cells = incrementConstantTime carry cells := by
  induction cells generalizing carry with
  | nil => rfl
  | cons cell cells ih =>
    rw [incrementEarlyReturn, incrementConstantTime, ih]
    split_ifs
    · rfl
    · rw [incrementConstantTime_zero]

/-- Both builds count alike. -/
theorem Grid.increment_eq (b : Build) (amount : I64) (g : Grid W H) :
    g.increment b amount = .ofFlat (incrementConstantTime amount g.toFlat) := by
  rw [increment, incrementEarlyReturn_eq, ite_self]

/-- The first cell takes the whole amount, whatever is carried on. -/
theorem Grid.cell_increment_first (b : Build) (amount : I64) (g : Grid W H) (hW : 0 < W)
    (hH : 0 < H) : (g.increment b amount).cell ⟨0, hH⟩ ⟨0, hW⟩ = g.cell ⟨0, hH⟩ ⟨0, hW⟩ + amount := by
  have hcell : g.toFlat.getD 0 0 = g.cell ⟨0, hH⟩ ⟨0, hW⟩ := by
    have := g.getD_toFlat ⟨0, hH⟩ ⟨0, hW⟩
    simpa using this
  rw [increment_eq, ofFlat, cell_build, ← hcell]
  have hne : g.toFlat ≠ [] := List.length_pos_iff.1 (by
    rw [length_toFlat]
    exact Nat.mul_pos hW hH)
  obtain ⟨x, l, hxl⟩ := List.exists_cons_of_ne_nil hne
  simp [hxl, incrementConstantTime]

/-- Different counters give different blocks. -/
theorem Grid.increment_ne (b : Build) (hd : Supported W H) (g : Grid W H) {c c' : I64}
    (h : c ≠ c') : g.increment b c ≠ g.increment b c' := by
  have hW : 0 < W := by have := hd.1; omega
  have hH : 0 < H := by have := hd.2; omega
  intro heq
  have := congrArg (fun g : Grid W H => g.cell ⟨0, hH⟩ ⟨0, hW⟩) heq
  rw [cell_increment_first, cell_increment_first, BitVec.add_right_inj] at this
  exact h this

/-! ### Every build makes the same keystream -/

/-- A round is the same in every build. -/
theorem cipherRound_build (b b' : Build) {roundShifts : List (Vector ℕ H)}
    (hs : ∀ i j, (roundShifts.getD i (Vector.ofFn fun _ => 0)).get j < W) (block : Grid W H)
    (round : Grid W H × ℕ) :
    cipherRound b roundShifts block round = cipherRound b' roundShifts block round := by
  have hsub : (block ^^^ round.1).subcell b round.2 = (block ^^^ round.1).subcell b' round.2 :=
    Grid.ext fun j i => by rw [Grid.cell_subcell, Grid.cell_subcell]
  rw [cipherRound, cipherRound, hsub, Grid.shiftRows_eq b (hs round.2), Grid.shiftRows_eq b' (hs round.2)]

/-- **The keystream is the same on every build.**  Neither the `constant-time`
feature nor the instruction set shows in it. -/
theorem keystream_build (b b' : Build) (hW : 0 < W) (nonce : Grid W H) {roundKeys : List (Grid W H)}
    {roundShifts : List (Vector ℕ H)} (hs : deriveRoundShifts roundKeys = .ok roundShifts)
    (counter : I64) :
    keystream b nonce roundKeys roundShifts counter = keystream b' nonce roundKeys roundShifts counter := by
  have hround : cipherRound b roundShifts = cipherRound (W := W) b' roundShifts := by
    funext block round
    exact cipherRound_build b b' (derived_shifts_lt hW hs) block round
  rw [keystream, keystream, encryptBlock, encryptBlock, hround, Grid.increment_eq, Grid.increment_eq]

/-- **Keystream blocks never repeat.**  For every schedule of at least two round
keys with its derived shifts the block transformation permutes the grids, what
`keystream_block` XORs into the data is that transformation of `nonce +
counter`, and two counters under one nonce give two different blocks. -/
theorem keystream_blocks_distinct (hd : Grid.Supported W H) (b : Build)
    (roundKeys : List (Grid W H)) (hk : 2 ≤ roundKeys.length) :
    ∃ roundShifts, deriveRoundShifts roundKeys = .ok roundShifts ∧
      Function.Bijective (encryptBlock b roundKeys roundShifts) ∧
      (∀ (grid nonce : Grid W H) (c : I64),
        keystreamBlock b grid nonce roundKeys roundShifts c =
          grid ^^^ encryptBlock b roundKeys roundShifts (nonce.increment b c)) ∧
      ∀ (nonce : Grid W H) (c c' : I64), c ≠ c' →
        encryptBlock b roundKeys roundShifts (nonce.increment b c) ≠
          encryptBlock b roundKeys roundShifts (nonce.increment b c') := by
  have hs := deriveRoundShifts_eq hk
  have hinj := encryptBlock_injective hd b hs
  refine ⟨_, hs, Finite.injective_iff_bijective.1 hinj, fun _ _ _ => rfl, fun nonce c c' hc h => ?_⟩
  exact nonce.increment_ne b hd hc (hinj h)

/-- Three round keys at the smallest grid: two that whiten, and one of a keyed round. -/
def threeKeys : List (Grid 2 4) :=
  [.ofFlat [1, 2, 3, 4, 5, 6, 7, 8], .ofFlat [9, 10, 11, 12, 13, 14, 15, 16],
    .ofFlat [-1, -2, -3, -4, -5, -6, -7, -8]]

/-- The theorem at these keys, with counters 0 and 1. -/
theorem keystream_blocks_distinct_three_keys : (innerKeys threeKeys).length = 1 ∧
    encryptBlock ⟨true, true⟩ threeKeys ((innerKeys threeKeys).map Grid.precalculateShifts)
        (Grid.increment ⟨true, true⟩ 0 (.ofFlat [17])) ≠
      encryptBlock ⟨true, true⟩ threeKeys ((innerKeys threeKeys).map Grid.precalculateShifts)
        (Grid.increment ⟨true, true⟩ 1 (.ofFlat [17])) := by
  obtain ⟨shifts, hs, _, _, h⟩ := keystream_blocks_distinct (by decide) ⟨true, true⟩ threeKeys (by decide)
  obtain rfl : (innerKeys threeKeys).map Grid.precalculateShifts = shifts := Except.ok.inj hs
  exact ⟨rfl, h _ _ _ (by decide)⟩

end Why2
