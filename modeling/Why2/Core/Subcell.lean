/-
# Subcell, the nonlinear layer

`subcell_cell`, `subcell_avx2`, `subcell_portable` and the macro `subcell!` of
`core/src/grid.rs`.  A cell is split into two 32-bit halves that a TEA-like
network mixes into each other.  All three implementations keep the halves in
64-bit lanes: the halves are masked back to 32 bits after every addition, the
left shifts and the running sum are not.  They differ in one operation, the
right shift, which is logical on `u64` and on AVX2 lanes and arithmetic on the
signed lanes of `i64x4`; `subcellLane` takes it as a parameter.

`subcellLane_eq` says that either way the lanes compute the documented 32-bit
network, and the network is a bijection of the cell (`network_injective`):
each half-round adds to one half a function of the other.
-/

import Why2.Core.Grid
import Mathlib.Logic.Function.Iterate

namespace Why2

/-- `consts::SUBCELL_ROUNDS`. -/
def subcellRounds : ℕ := 5

/-- `consts::DELTA_32`. -/
def delta32 : BitVec 32 := 0x9E3779B9#32

/-! ### The lanes of the source -/

/-- The mask of the low half of a lane. -/
def mask : I64 := 0xFFFFFFFF#64

/-- The two halves and the running sum, one 64-bit lane each. -/
structure Lanes where
  v0 : I64
  v1 : I64
  sum : I64

/-- What one half adds to the other. -/
def laneMix (shr : I64 → ℕ → I64) (v sum : I64) : I64 := ((v <<< 4 ^^^ shr v 5) + v) ^^^ sum

/-- One round of the loop of `subcell!` and of `subcell_cell`. -/
def laneRound (shr : I64 → ℕ → I64) (s : Lanes) : Lanes :=
  let sum := s.sum + delta32.setWidth 64
  let v0 := (s.v0 + laneMix shr s.v1 sum) &&& mask
  let v1 := (s.v1 + laneMix shr v0 sum) &&& mask
  ⟨v0, v1, sum⟩

/-- The transform of one cell, with the right shift of the lane type. -/
def subcellLane (shr : I64 → ℕ → I64) (cell : I64) (round : ℕ) : I64 :=
  let tweak := BitVec.ofNat 64 round
  let v0 := cell &&& mask
  let v1 := shr cell 32 &&& mask
  let s := (laneRound shr)^[subcellRounds] ⟨(v0 ^^^ tweak) &&& mask, v1, 0⟩
  let v1 := (s.v1 ^^^ tweak) &&& mask
  v1 <<< 32 ||| s.v0

/-- `subcell_cell`. -/
def subcellCell (cell : I64) (round : ℕ) : I64 := subcellLane (fun x s => x >>> s) cell round

namespace Grid

variable {W H : ℕ}

/-- A pass over the flat cells, four at a time, with the cells past the last
whole vector left to `tail` (`chunks_exact_mut(4)` and `into_remainder`). -/
def byFour (lane tail : I64 → I64) (g : Grid W H) : Grid W H :=
  build fun j i =>
    if j * W + i < W * H / 4 * 4 then lane (g.cell j i) else tail (g.cell j i)

/-- `subcell_avx2`: `_mm256_srli_epi64` shifts logically. -/
def subcellAvx2 (round : ℕ) (g : Grid W H) : Grid W H :=
  g.byFour (subcellLane (fun x s => x >>> s) · round) (subcellCell · round)

/-- `subcell_portable`: `i64x4` shifts arithmetically. -/
def subcellPortable (round : ℕ) (g : Grid W H) : Grid W H :=
  g.byFour (subcellLane (fun x s => x.sshiftRight s) · round) (subcellCell · round)

/-- `Grid::subcell`. -/
def subcell (b : Build) (round : ℕ) (g : Grid W H) : Grid W H :=
  if b.avx2 then g.subcellAvx2 round else g.subcellPortable round

end Grid

/-! ### The 32-bit network -/

/-- The two halves and the running sum, as `u32`. -/
@[ext]
structure Halves where
  v0 : BitVec 32
  v1 : BitVec 32
  sum : BitVec 32

/-- What one half adds to the other, modulo `2 ^ 32`. -/
def networkMix (v sum : BitVec 32) : BitVec 32 := ((v <<< 4 ^^^ v >>> 5) + v) ^^^ sum

/-- One round of the documented network. -/
def networkRound (s : Halves) : Halves :=
  let sum := s.sum + delta32
  let v0 := s.v0 + networkMix s.v1 sum
  let v1 := s.v1 + networkMix v0 sum
  ⟨v0, v1, sum⟩

/-- The documented network on the halves `v0` (low) and `v1` (high). -/
def network (v0 v1 : BitVec 32) (round : ℕ) : BitVec 32 × BitVec 32 :=
  let tweak := BitVec.ofNat 32 round
  let s := networkRound^[subcellRounds] ⟨v0 ^^^ tweak, v1, 0⟩
  (s.v0, s.v1 ^^^ tweak)

/-- The low half of a cell. -/
def lowHalf (cell : I64) : BitVec 32 := cell.setWidth 32

/-- The high half of a cell. -/
def highHalf (cell : I64) : BitVec 32 := cell.extractLsb' 32 32

/-- The cell of two halves. -/
def joinHalves (v : BitVec 32 × BitVec 32) : I64 := v.2.setWidth 64 <<< 32 ||| v.1.setWidth 64

/-- A cell is its halves. -/
theorem joinHalves_halves (cell : I64) : joinHalves (lowHalf cell, highHalf cell) = cell := by
  ext k hk
  simp only [joinHalves, lowHalf, highHalf, BitVec.getElem_or, BitVec.getElem_shiftLeft,
    BitVec.getElem_setWidth, BitVec.getLsbD_setWidth, BitVec.getLsbD_extractLsb']
  by_cases h : k < 32
  · simp [h, BitVec.getLsbD_eq_getElem hk]
  · simp [h, BitVec.getLsbD_eq_getElem hk, show k - 32 < 32 by omega, show 32 + (k - 32) = k by omega]

/-- The low half. -/
theorem lowHalf_join (v : BitVec 32 × BitVec 32) : lowHalf (joinHalves v) = v.1 := by
  ext k hk
  simp [lowHalf, joinHalves]

/-- The high half. -/
theorem highHalf_join (v : BitVec 32 × BitVec 32) : highHalf (joinHalves v) = v.2 := by
  ext k hk
  simp [highHalf, joinHalves, BitVec.getLsbD_eq_getElem hk, show 32 + k < 64 by omega]

/-- Cells with the same halves are the same. -/
theorem joinHalves_injective : Function.Injective joinHalves := fun v v' h =>
  Prod.ext (by rw [← lowHalf_join v, h, lowHalf_join])
    (by rw [← highHalf_join v, h, highHalf_join])

/-- Each half-round adds to one half a function of the other, so a round can
be undone from its result. -/
theorem networkRound_injective : Function.Injective networkRound := by
  intro s s' h
  simp only [networkRound, Halves.mk.injEq] at h
  obtain ⟨h0, h1, hs⟩ := h
  have hsum : s.sum = s'.sum := (BitVec.add_left_inj _).1 hs
  rw [h0, hsum] at h1
  have hv1 : s.v1 = s'.v1 := (BitVec.add_left_inj _).1 h1
  rw [hv1, hsum] at h0
  exact Halves.ext ((BitVec.add_left_inj _).1 h0) hv1 hsum

/-- **The network is a bijection of the cell.** -/
theorem network_injective (round : ℕ) {u v : BitVec 32 × BitVec 32}
    (h : network u.1 u.2 round = network v.1 v.2 round) : u = v := by
  -- The sum after the rounds depends on their number alone, so the final halves
  -- determine the whole final state.
  have hsum : ∀ (n : ℕ) (a a' b b' c : BitVec 32),
      (networkRound^[n] ⟨a, b, c⟩).sum = (networkRound^[n] ⟨a', b', c⟩).sum := by
    intro n
    induction n with
    | zero => intros; rfl
    | succ n ih => intro a a' b b' c; exact ih _ _ _ _ _
  simp only [network, Prod.mk.injEq, BitVec.xor_left_inj] at h
  have := networkRound_injective.iterate subcellRounds
    (Halves.ext h.1 h.2 (hsum subcellRounds _ _ _ _ _))
  simp only [Halves.mk.injEq, BitVec.xor_left_inj, and_true] at this
  exact Prod.ext this.1 this.2

/-! ### The lanes compute the network -/

/-- The right shifts of the lane types agree where they are used: on the high
half of a cell, and on a masked half. -/
structure ShiftsHalves (shr : I64 → ℕ → I64) : Prop where
  high : ∀ cell, (shr cell 32).setWidth 32 = highHalf cell
  half : ∀ v : BitVec 32, shr (v.setWidth 64) 5 = (v >>> 5).setWidth 64

/-- A logical shift of a lane shifts its low half. -/
theorem ushiftRight_shiftsHalves : ShiftsHalves fun x s => x >>> s where
  high cell := by
    ext k hk
    simp [highHalf]
  half v := by
    rw [BitVec.setWidth_ushiftRight (by omega)]

/-- So does an arithmetic one, in what is used of it. -/
theorem sshiftRight_shiftsHalves : ShiftsHalves fun x s => x.sshiftRight s where
  high cell := by
    ext k hk
    simp [highHalf, BitVec.getLsbD_sshiftRight, show 32 + k < 64 by omega,
      show ¬64 ≤ k by omega]
  half v := by
    have hmsb : (v.setWidth 64).msb = false := by
      simp [BitVec.msb_setWidth]
    rw [BitVec.sshiftRight_eq_of_msb_false hmsb, BitVec.setWidth_ushiftRight (by omega)]

/-- The mask leaves the low half. -/
theorem and_mask (x : I64) : x &&& mask = (x.setWidth 32).setWidth 64 := by
  apply BitVec.eq_of_toNat_eq
  have hx : x.toNat % 2 ^ 32 < 2 ^ 64 := by omega
  rw [BitVec.toNat_and, BitVec.toNat_setWidth, BitVec.toNat_setWidth, Nat.mod_eq_of_lt hx]
  exact Nat.and_two_pow_sub_one_eq_mod x.toNat 32

/-- The lanes hold the state of the network: the halves exactly, the running
sum in its low 32 bits. -/
structure Lanes.Holds (l : Lanes) (s : Halves) : Prop where
  v0 : l.v0 = s.v0.setWidth 64
  v1 : l.v1 = s.v1.setWidth 64
  sum : l.sum.setWidth 32 = s.sum

/-- A lane is mixed as its low half is. -/
theorem setWidth_laneMix {shr : I64 → ℕ → I64} (hs : ShiftsHalves shr) (v : BitVec 32)
    (sum : I64) :
    (laneMix shr (v.setWidth 64) sum).setWidth 32 = networkMix v (sum.setWidth 32) := by
  have hv : ∀ u : BitVec 32, (u.setWidth 64).setWidth 32 = u := fun u => by
    rw [BitVec.setWidth_setWidth_of_le _ (by omega), BitVec.setWidth_eq]
  rw [laneMix, networkMix, hs.half, BitVec.setWidth_xor, BitVec.setWidth_add _ _ (by omega),
    BitVec.setWidth_xor, BitVec.setWidth_shiftLeft_of_le (by omega), hv, hv]

/-- One masked addition of a lane is one addition of the network. -/
theorem add_laneMix_and_mask {shr : I64 → ℕ → I64} (hs : ShiftsHalves shr) (u v : BitVec 32)
    (sum : I64) :
    (u.setWidth 64 + laneMix shr (v.setWidth 64) sum) &&& mask =
      (u + networkMix v (sum.setWidth 32)).setWidth 64 := by
  rw [and_mask, BitVec.setWidth_add _ _ (by omega), setWidth_laneMix hs,
    BitVec.setWidth_setWidth_of_le _ (by omega), BitVec.setWidth_eq]

/-- A round of the lanes is one of the halves. -/
theorem Lanes.Holds.round {shr : I64 → ℕ → I64} (hs : ShiftsHalves shr) {l : Lanes} {s : Halves}
    (h : l.Holds s) : (laneRound shr l).Holds (networkRound s) := by
  have hsum : (l.sum + delta32.setWidth 64).setWidth 32 = s.sum + delta32 := by
    rw [BitVec.setWidth_add _ _ (by omega), h.sum, BitVec.setWidth_setWidth_of_le _ (by omega),
      BitVec.setWidth_eq]
  have h0 : (l.v0 + laneMix shr l.v1 (l.sum + delta32.setWidth 64)) &&& mask =
      (networkRound s).v0.setWidth 64 := by
    rw [h.v0, h.v1, add_laneMix_and_mask hs, hsum]
    rfl
  refine ⟨h0, ?_, hsum⟩
  simp only [laneRound]
  rw [h0, h.v1, add_laneMix_and_mask hs, hsum]
  rfl

/-- So are many. -/
theorem Lanes.Holds.rounds {shr : I64 → ℕ → I64} (hs : ShiftsHalves shr) (n : ℕ) {l : Lanes}
    {s : Halves} (h : l.Holds s) : ((laneRound shr)^[n] l).Holds (networkRound^[n] s) := by
  induction n generalizing l s with
  | zero => exact h
  | succ n ih => exact ih (h.round hs)

/-- **Every lane type computes the documented network.** -/
theorem subcellLane_eq {shr : I64 → ℕ → I64} (hs : ShiftsHalves shr) (cell : I64) (round : ℕ) :
    subcellLane shr cell round = joinHalves (network (lowHalf cell) (highHalf cell) round) := by
  have htweak : (BitVec.ofNat 64 round).setWidth 32 = BitVec.ofNat 32 round := by
    simp
  have hinit : Lanes.Holds
      ⟨((cell &&& mask) ^^^ BitVec.ofNat 64 round) &&& mask, shr cell 32 &&& mask, 0⟩
      ⟨lowHalf cell ^^^ BitVec.ofNat 32 round, highHalf cell, 0⟩ := by
    refine ⟨?_, by rw [and_mask (shr cell 32), hs.high], rfl⟩
    rw [and_mask (_ ^^^ _), BitVec.setWidth_xor, htweak, and_mask,
      BitVec.setWidth_setWidth_of_le _ (by omega), BitVec.setWidth_eq]
    rfl
  have hrun := hinit.rounds hs subcellRounds
  simp only [subcellLane, joinHalves, network]
  rw [hrun.v0, hrun.v1, and_mask (_ ^^^ _), BitVec.setWidth_xor, htweak,
    BitVec.setWidth_setWidth_of_le _ (by omega), BitVec.setWidth_eq]

/-- A cell goes through the network half by half. -/
theorem subcellCell_eq (cell : I64) (round : ℕ) :
    subcellCell cell round = joinHalves (network (lowHalf cell) (highHalf cell) round) :=
  subcellLane_eq ushiftRight_shiftsHalves cell round

/-- The network loses nothing. -/
theorem subcellCell_injective (round : ℕ) : Function.Injective (subcellCell · round) := by
  intro c c' h
  simp only [subcellCell_eq] at h
  have := network_injective round (u := (lowHalf c, highHalf c)) (v := (lowHalf c', highHalf c'))
    (joinHalves_injective h)
  rw [← joinHalves_halves c, this, joinHalves_halves]

namespace Grid

variable {W H : ℕ}

/-- The documented network on each cell. -/
def subcellNetwork (round : ℕ) (g : Grid W H) : Grid W H :=
  build fun j i => joinHalves (network (lowHalf (g.cell j i)) (highHalf (g.cell j i)) round)

/-- The lanes and the tail compute the network, whichever way the lanes shift. -/
theorem byFour_eq {shr : I64 → ℕ → I64} (hs : ShiftsHalves shr) (round : ℕ) (g : Grid W H) :
    g.byFour (subcellLane shr · round) (subcellCell · round) = g.subcellNetwork round := by
  ext j i : 1
  rw [byFour, subcellNetwork, cell_build, cell_build]
  split_ifs
  · exact subcellLane_eq hs _ round
  · exact subcellCell_eq _ round

/-- **Every implementation of `subcell` is `subcell_cell` on each cell.** -/
theorem cell_subcell (b : Build) (round : ℕ) (g : Grid W H) (j : Fin H) (i : Fin W) :
    (g.subcell b round).cell j i = subcellCell (g.cell j i) round := by
  unfold subcell
  split_ifs
  · rw [subcellAvx2, byFour_eq ushiftRight_shiftsHalves, subcellNetwork, cell_build, subcellCell_eq]
  · rw [subcellPortable, byFour_eq sshiftRight_shiftsHalves, subcellNetwork, cell_build, subcellCell_eq]

/-- **The implementations of `subcell` agree**, for every grid and round: the AVX2 lanes,
the portable lanes and the scalar code on each cell are the documented 32-bit network,
although none of them masks its shifts and its running sum. -/
theorem subcell_implementations_agree (round : ℕ) (g : Grid W H) :
    g.subcellAvx2 round = g.subcellNetwork round ∧
    g.subcellPortable round = g.subcellNetwork round ∧
    build (fun j i => subcellCell (g.cell j i) round) = g.subcellNetwork round := by
  refine ⟨byFour_eq ushiftRight_shiftsHalves round g, byFour_eq sshiftRight_shiftsHalves round g, ?_⟩
  ext j i : 1
  rw [subcellNetwork, cell_build, cell_build, subcellCell_eq]

/-- Nor does the layer. -/
theorem subcell_injective (b : Build) (round : ℕ) :
    Function.Injective (subcell b round : Grid W H → Grid W H) := by
  intro g g' h
  ext j i : 1
  apply subcellCell_injective round
  change subcellCell (g.cell j i) round = subcellCell (g'.cell j i) round
  rw [← cell_subcell b, ← cell_subcell b, h]

end Grid

end Why2
