/-
# The REX stream

`core/src/stream.rs`: counter mode over data given in pieces.  A stream keeps
the cells that do not fill a grid yet and the number of the next block.
`update` completes the leftover grid first, then encrypts the whole grids of
the piece in one batch and keeps the rest; `finalize` encrypts what is left
with a truncated block.

One equation says what each call does (`update_eq`, `finalize_eq`): with
`l` the buffered cells followed by the new ones, a call returns counter mode
over the part of `l` it consumes, from the block counter on.  Everything about
runs follows from the two equations by induction on the calls.
-/

import Why2.Core.Crypto
import Why2.Lib.Ctr

namespace Why2

open Lib

variable {W H : ℕ}

/-- `RexStream<W, H>`.  The fields are private and `new` derives the shifts from
the keys, which `shifts_derived` records. -/
structure RexStream (W H : ℕ) where
  roundKeys : List (Grid W H)
  roundShifts : List (Vector ℕ H)
  nonce : Grid W H
  blockCounter : I64
  buffer : List I64
  shifts_derived : deriveRoundShifts roundKeys = .ok roundShifts

namespace RexStream

/-- `RexStream::new`. -/
def new (P : Primitives) (keyGrid nonce : Grid W H) : Except Fault (RexStream W H) :=
  match generateRoundKeys P keyGrid with
  | .error e => .error e
  | .ok roundKeys =>
    match h : deriveRoundShifts roundKeys with
    | .error e => .error e
    | .ok roundShifts => .ok
      { roundKeys, roundShifts, nonce, blockCounter := 0, buffer := [], shifts_derived := h }

/-- `apply_ctr_with_shifts` at the stream's keys, nonce and block counter. -/
def applyCtr (b : Build) (s : RexStream W H) (grids : List (Grid W H)) :
    Except Fault (List (Grid W H)) :=
  applyCtrWithShifts b grids s.nonce s.roundKeys s.roundShifts (some s.blockCounter)

/-- The first part of `update`: the leftover grid is filled up from the data and,
once full, encrypted.  Returns the output, the rest of the data and the stream. -/
def processLeftover (b : Build) (s : RexStream W H) (data : List I64) :
    Except Fault (List I64 × List I64 × RexStream W H) := do
  if s.buffer.isEmpty then return ([], data, s)
  let gridArea := W * H
  let needed := gridArea - s.buffer.length
  let take := min needed data.length
  let s := { s with buffer := s.buffer ++ data.take take }
  let data := data.drop take
  if s.buffer.length = gridArea then
    let grid ← Grid.fromFlat s.buffer
    let grids ← s.applyCtr b [grid]
    return (grids.flatMap Grid.toFlat, data,
      { s with blockCounter := s.blockCounter + 1, buffer := [] })
  return ([], data, s)

/-- The second part of `update`: the whole grids of the data, in one batch.  The
block counter wraps as in a release build. -/
def processFull (b : Build) (s : RexStream W H) (data : List I64) :
    Except Fault (List I64 × List I64 × RexStream W H) := do
  let gridArea := W * H
  let fullGridsCount := data.length / gridArea
  if fullGridsCount > 0 then
    let chunkSize := fullGridsCount * gridArea
    let grids ← (chunks gridArea (data.take chunkSize)).mapM Grid.fromFlat
    let grids ← s.applyCtr b grids
    return (grids.flatMap Grid.toFlat, data.drop chunkSize,
      { s with blockCounter := s.blockCounter + BitVec.ofNat 64 fullGridsCount })
  return ([], data, s)

/-- `RexStream::update`. -/
def update (b : Build) (s : RexStream W H) (data : List I64) :
    Except Fault (List I64 × RexStream W H) := do
  let (output₁, data, s) ← s.processLeftover b data
  let (output₂, data, s) ← s.processFull b data
  return (output₁ ++ output₂, { s with buffer := s.buffer ++ data })

/-- `RexStream::finalize`. -/
def finalize (b : Build) (s : RexStream W H) : Except Fault (List I64 × RexStream W H) := do
  if s.buffer.isEmpty then return ([], s)
  let grid ← Grid.fromFlat s.buffer
  let grids ← s.applyCtr b [grid]
  let output := (grids.flatMap Grid.toFlat).take s.buffer.length
  return (output, { s with blockCounter := s.blockCounter + 1, buffer := [] })

/-! ### What one call does -/

/-- Cell `p` of the keystream block at `counter`. -/
def keystreamCell (b : Build) (s : RexStream W H) (counter : I64) (p : ℕ) : I64 :=
  (keystream b s.nonce s.roundKeys s.roundShifts counter).toFlat.getD p 0

/-- Counter mode under the stream's keys and nonce, from block `counter` on. -/
def ctr (b : Build) (s : RexStream W H) (counter : I64) (cells : List I64) : List I64 :=
  ctrXor (W * H) (s.keystreamCell b) counter cells

/-- The text may be cut where a block ends. -/
theorem ctr_append (b : Build) (s : RexStream W H) (harea : 0 < W * H) (counter : I64)
    {l₁ l₂ : List I64} (h : W * H ∣ l₁.length) :
    s.ctr b counter (l₁ ++ l₂) =
      s.ctr b counter l₁ ++ s.ctr b (counter + BitVec.ofNat 64 (l₁.length / (W * H))) l₂ :=
  ctrXor_append harea counter l₁ l₂ h

/-- A block of the code is a block of counter mode. -/
theorem toFlat_keystreamBlock (b : Build) (s : RexStream W H) (grid : Grid W H) (counter : I64) :
    (keystreamBlock b grid s.nonce s.roundKeys s.roundShifts counter).toFlat =
      s.ctr b counter grid.toFlat := by
  rw [keystreamBlock, Grid.toFlat_xor]
  refine List.ext_getElem (by simp [ctr]) fun p hp _ => ?_
  have hp' : p < W * H := by simpa using hp
  have hks : p < (keystream b s.nonce s.roundKeys s.roundShifts counter).toFlat.length := by
    simpa using hp'
  simp only [ctr, ctrXor, keystreamCell, List.getElem_zipWith, List.getElem_mapIdx,
    Nat.div_eq_of_lt hp', Nat.mod_eq_of_lt hp', BitVec.add_zero, List.getD_eq_getElem _ _ hks]

/-- A batch of grids is counter mode over their cells. -/
theorem applyCtr_flat (b : Build) (hd : Grid.Supported W H) (s : RexStream W H)
    (grids : List (Grid W H)) :
    ∃ out, s.applyCtr b grids = .ok out ∧
      out.flatMap Grid.toFlat = s.ctr b s.blockCounter (grids.flatMap Grid.toFlat) := by
  refine ⟨_, applyCtrWithShifts_eq b grids s.nonce s.shifts_derived _, ?_⟩
  have hblocks : ((grids.mapIdx fun i grid => keystreamBlock b grid s.nonce s.roundKeys s.roundShifts
        (s.blockCounter + BitVec.ofNat 64 i)).map Grid.toFlat) =
      (grids.map Grid.toFlat).mapIdx fun i cells => s.ctr b (s.blockCounter + BitVec.ofNat 64 i) cells := by
    refine List.ext_getElem (by simp) fun i _ _ => ?_
    simp only [List.getElem_map, List.getElem_mapIdx, toFlat_keystreamBlock]
  rw [List.flatMap_def, List.flatMap_def]
  simp only [Option.getD_some]
  rw [hblocks]
  exact flatten_mapIdx_ctrXor hd.area_pos _ (by simp)

/-- Shaping whole grids loses nothing. -/
theorem mapM_fromFlat_whole (hd : Grid.Supported W H) {cells : List I64} (h : W * H ∣ cells.length) :
    ∃ grids : List (Grid W H), (chunks (W * H) cells).mapM Grid.fromFlat = .ok grids ∧
      grids.flatMap Grid.toFlat = cells := by
  obtain ⟨k, hk, hdvd, hcells⟩ := Grid.flatMap_toFlat_chunks hd cells
  have hzero : k = 0 := Nat.eq_zero_of_dvd_of_lt ((Nat.dvd_add_right h).1 hdvd) hk
  refine ⟨_, Grid.mapM_fromFlat hd _, ?_⟩
  rw [hcells, hzero, List.replicate_zero, List.append_nil]

/-- The leftover is filled up; what is returned is a whole grid or nothing. -/
theorem processLeftover_eq (b : Build) (hd : Grid.Supported W H) (s : RexStream W H)
    (hbuf : s.buffer.length < W * H) (data : List I64) :
    (s.buffer ≠ [] ∧ W * H ≤ (s.buffer ++ data).length ∧ s.processLeftover b data = .ok
        (s.ctr b s.blockCounter ((s.buffer ++ data).take (W * H)), (s.buffer ++ data).drop (W * H),
          { s with blockCounter := s.blockCounter + 1, buffer := [] })) ∨
      (s.buffer ≠ [] ∧ (s.buffer ++ data).length < W * H ∧ s.processLeftover b data = .ok
        ([], [], { s with buffer := s.buffer ++ data })) ∨
      (s.buffer = [] ∧ s.processLeftover b data = .ok ([], data, s)) := by
  by_cases hne : s.buffer = []
  · exact .inr (.inr ⟨hne, by simp [processLeftover, hne]; rfl⟩)
  have hempty : s.buffer.isEmpty = false := by simp [hne]
  rcases Nat.lt_or_ge (s.buffer ++ data).length (W * H) with hlt | hge
  · have hlen := hlt
    rw [List.length_append] at hlen
    refine .inr (.inl ⟨hne, hlt, ?_⟩)
    have htake : min (W * H - s.buffer.length) data.length = data.length := by omega
    simp only [processLeftover, hempty, htake, List.take_length, List.drop_length]
    rw [if_neg (by simp), if_neg (by omega)]
    rfl
  · have hlen := hge
    rw [List.length_append] at hlen
    refine .inl ⟨hne, hge, ?_⟩
    have htake : min (W * H - s.buffer.length) data.length = W * H - s.buffer.length := by omega
    have hfull : s.buffer ++ data.take (W * H - s.buffer.length) = (s.buffer ++ data).take (W * H) := by
      rw [List.take_append, List.take_of_length_le hbuf.le]
    have hdrop : data.drop (W * H - s.buffer.length) = (s.buffer ++ data).drop (W * H) := by
      rw [List.drop_append, List.drop_of_length_le hbuf.le, List.nil_append]
    have hcells : ((s.buffer ++ data).take (W * H)).length = W * H := by
      rw [List.length_take]; omega
    obtain ⟨out, hout, hflat⟩ := applyCtr_flat b hd
      { s with buffer := (s.buffer ++ data).take (W * H) } [Grid.ofFlat ((s.buffer ++ data).take (W * H))]
    rw [List.flatMap_singleton, Grid.toFlat_ofFlat hcells.le, hcells, Nat.sub_self,
      List.replicate_zero, List.append_nil] at hflat
    simp only [processLeftover, hempty, htake, hfull, hdrop, hcells, Grid.fromFlat_eq hd]
    rw [if_neg (by simp), if_pos trivial]
    simp only [bind, Except.bind, hout, pure, Except.pure, hflat]
    rfl

/-- The whole grids of the data go through in one batch. -/
theorem processFull_eq (b : Build) (hd : Grid.Supported W H) (s : RexStream W H)
    (data : List I64) :
    s.processFull b data = .ok
      (s.ctr b s.blockCounter (data.take (data.length / (W * H) * (W * H))),
        data.drop (data.length / (W * H) * (W * H)),
        { s with blockCounter := s.blockCounter + BitVec.ofNat 64 (data.length / (W * H)) }) := by
  simp only [processFull]
  split_ifs with hpos
  · have hle : data.length / (W * H) * (W * H) ≤ data.length := Nat.div_mul_le_self _ _
    have hdvd : W * H ∣ (data.take (data.length / (W * H) * (W * H))).length := by
      rw [List.length_take, Nat.min_eq_left hle]
      exact Nat.dvd_mul_left _ _
    obtain ⟨grids, hgrids, hcells⟩ := mapM_fromFlat_whole hd hdvd
    obtain ⟨out, hout, hflat⟩ := applyCtr_flat b hd s grids
    simp only [hgrids, bind, Except.bind, hout, pure, Except.pure, hflat, hcells]
  · rw [Nat.eq_zero_of_not_pos hpos]
    simp [ctr, pure, Except.pure]

/-- **What `update` does.**  With `l` the buffered cells followed by the new
ones, the whole grids of `l` are returned under counter mode, the counter
advances by their number and the rest of `l` is buffered. -/
theorem update_eq (b : Build) (hd : Grid.Supported W H) (s : RexStream W H)
    (hbuf : s.buffer.length < W * H) (data : List I64) :
    s.update b data = .ok
      (s.ctr b s.blockCounter
          ((s.buffer ++ data).take ((s.buffer ++ data).length / (W * H) * (W * H))),
        { s with
          blockCounter := s.blockCounter + BitVec.ofNat 64 ((s.buffer ++ data).length / (W * H))
          buffer := (s.buffer ++ data).drop ((s.buffer ++ data).length / (W * H) * (W * H)) }) := by
  have harea := hd.area_pos
  rw [update]
  rcases s.processLeftover_eq b hd hbuf data with ⟨_, hge, h⟩ | ⟨_, hlt, h⟩ | ⟨hnil, h⟩
  · -- The leftover grid is completed: it is the first of the whole grids of `l`.
    generalize s.buffer ++ data = l at hge h ⊢
    have hcount : l.length / (W * H) = (l.drop (W * H)).length / (W * H) + 1 := by
      rw [List.length_drop, ← Nat.add_div_right _ harea, Nat.sub_add_cancel hge]
    have hlen : (l.take (W * H)).length = W * H := by rw [List.length_take]; omega
    simp only [h, bind, Except.bind, processFull_eq b hd, pure, Except.pure, List.nil_append]
    rw [hcount]
    generalize (l.drop (W * H)).length / (W * H) = k
    have hctr : s.ctr b s.blockCounter (l.take ((k + 1) * (W * H))) =
        s.ctr b s.blockCounter (l.take (W * H)) ++
          s.ctr b (s.blockCounter + 1) ((l.drop (W * H)).take (k * (W * H))) := by
      rw [show (k + 1) * (W * H) = W * H + k * (W * H) by rw [Nat.add_mul]; omega, List.take_add]
      rw [s.ctr_append b harea _ (by rw [hlen]), hlen, Nat.div_self harea]
      rfl
    rw [hctr, List.drop_drop, BitVec.ofNat_add, BitVec.add_assoc, BitVec.add_comm 1,
      show (k + 1) * (W * H) = W * H + k * (W * H) by rw [Nat.add_mul]; omega]
    rfl
  · simp only [h, bind, Except.bind, processFull_eq b hd, pure, Except.pure, List.length_nil,
      Nat.zero_div, Nat.div_eq_of_lt hlt, Nat.zero_mul, List.take_zero, List.drop_zero]
    simp [ctr]
  · simp only [h, bind, Except.bind, processFull_eq b hd, pure, Except.pure, hnil, List.nil_append]

/-- **What `finalize` does.**  The buffered cells are returned under one more
block, cut to their number; nothing happens to an empty buffer. -/
theorem finalize_eq (b : Build) (hd : Grid.Supported W H) (s : RexStream W H)
    (hbuf : s.buffer.length < W * H) :
    s.finalize b = .ok (s.ctr b s.blockCounter s.buffer,
      { s with
        blockCounter := s.blockCounter + if s.buffer = [] then 0 else 1
        buffer := [] }) := by
  rw [finalize]
  split_ifs with hempty hnil hnil
  · simp [ctr, hnil, pure, Except.pure]
    rw [← hnil]
  · exact absurd (List.isEmpty_iff.1 hempty) hnil
  · simp [hnil] at hempty
  · obtain ⟨out, hout, hflat⟩ := applyCtr_flat b hd s [Grid.ofFlat s.buffer]
    rw [List.flatMap_singleton, Grid.toFlat_ofFlat hbuf.le] at hflat
    have hcut : (s.ctr b s.blockCounter
        (s.buffer ++ List.replicate (W * H - s.buffer.length) 0)).take s.buffer.length =
        s.ctr b s.blockCounter s.buffer := by
      rw [ctr, ctrXor_take, List.take_left]
      rfl
    simp only [Grid.fromFlat_eq hd, bind, Except.bind, hout, pure, Except.pure, hflat, hcut]

end RexStream

end Why2
