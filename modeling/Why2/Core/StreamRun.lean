/-
# Runs of the REX stream

Any sequence of `update` and `finalize` calls on one stream (`run`).  Cells
come out in the order they went in, so the whole output of a run is the input
so far, less what is buffered, under the keystream.

`run_chunk_invariant` is the case of updates followed by one `finalize`: the
output does not depend on how the data was cut.  `run_no_keystream_reuse` follows the block
counter through an arbitrary run, `finalize` in the middle included: every
cell gets a keystream cell of its own.
-/

import Why2.Core.Stream

namespace Why2

open Lib

variable {W H : ℕ}

/-- One call on a stream. -/
inductive StreamCall
  | update (data : List I64)
  | finalize
deriving DecidableEq, Repr

/-- The cells a call feeds in. -/
def StreamCall.fed : StreamCall → List I64
  | .update data => data
  | .finalize => []

namespace RexStream

/-- The call on the stream. -/
def call (b : Build) (s : RexStream W H) : StreamCall → Except Fault (List I64 × RexStream W H)
  | .update data => s.update b data
  | .finalize => s.finalize b

/-- The calls one after the other, with what each returned; the first failure
ends the run. -/
def run (b : Build) : RexStream W H → List StreamCall → Except Fault (List (List I64) × RexStream W H)
  | s, [] => pure ([], s)
  | s, c :: cs => do
    let (out, s) ← s.call b c
    let (outs, s) ← s.run b cs
    return (out :: outs, s)

theorem run_cons_eq {b : Build} {s s' s'' : RexStream W H} {c : StreamCall} {cs : List StreamCall}
    {out : List I64} {outs : List (List I64)} (hc : s.call b c = .ok (out, s'))
    (hcs : s'.run b cs = .ok (outs, s'')) : s.run b (c :: cs) = .ok (out :: outs, s'') := by
  simp only [run, hc, hcs, bind, Except.bind, pure, Except.pure]

/-- A new stream has the schedule of its key, an empty buffer and counts from
zero. -/
theorem new_ok (hd : Grid.Supported W H) (P : Primitives) (keyGrid nonce : Grid W H) :
    ∃ s, new P keyGrid nonce = .ok s ∧ generateRoundKeys P keyGrid = .ok s.roundKeys ∧
      s.nonce = nonce ∧ s.blockCounter = 0 ∧ s.buffer = [] := by
  obtain ⟨keys, hkeys, hlen⟩ := generateRoundKeys_ok hd P keyGrid
  have hshifts := deriveRoundShifts_eq (show 2 ≤ keys.length by rw [hlen]; decide)
  refine ⟨⟨keys, _, nonce, 0, [], hshifts⟩, ?_, hkeys, rfl, rfl, rfl⟩
  simp only [new, hkeys]
  split
  · rename_i h
    rw [hshifts] at h
    cases h
  · rename_i h
    rw [hshifts] at h
    obtain rfl := Except.ok.inj h
    rfl

/-! ### Chunk invariance -/

/-- The keystream depends on the keys and the nonce alone. -/
theorem ctr_congr (b b' : Build) (hd : Grid.Supported W H) {s t : RexStream W H}
    (hk : s.roundKeys = t.roundKeys) (hn : s.nonce = t.nonce) : s.ctr b = t.ctr b' := by
  have hs := s.shifts_derived
  rw [hk, t.shifts_derived] at hs
  have hshifts := Except.ok.inj hs
  have hcell : s.keystreamCell b = t.keystreamCell b' := by
    funext counter p
    rw [keystreamCell, keystreamCell, hk, hn, ← hshifts,
      keystream_build b b' (by have := hd.1; omega) _ t.shifts_derived]
  funext counter l
  rw [ctr, ctr, hcell]

/-- Updates followed by one `finalize` are counter mode over what was buffered
and fed. -/
theorem run_updates_finalize (b : Build) (hd : Grid.Supported W H) (s : RexStream W H)
    (hbuf : s.buffer.length < W * H) (pieces : List (List I64)) :
    ∃ outs s', s.run b (pieces.map .update ++ [.finalize]) = .ok (outs, s') ∧
      outs.flatten = s.ctr b s.blockCounter (s.buffer ++ pieces.flatten) := by
  induction pieces generalizing s with
  | nil =>
    refine ⟨_, _, run_cons_eq (s.finalize_eq b hd hbuf) rfl, ?_⟩
    simp
  | cons data pieces ih =>
    have harea := hd.area_pos
    have hupdate := s.update_eq b hd hbuf data
    generalize hl : s.buffer ++ data = l at hupdate
    have hle : l.length / (W * H) * (W * H) ≤ l.length := Nat.div_mul_le_self _ _
    obtain ⟨outs, s', hrun, hout⟩ := ih
      { s with
        blockCounter := s.blockCounter + BitVec.ofNat 64 (l.length / (W * H))
        buffer := l.drop (l.length / (W * H) * (W * H)) } (by
          rw [List.length_drop, ← Nat.mod_eq_sub_div_mul]
          exact Nat.mod_lt _ harea)
    refine ⟨_, s', run_cons_eq hupdate hrun, ?_⟩
    have hlen : (l.take (l.length / (W * H) * (W * H))).length = l.length / (W * H) * (W * H) := by
      rw [List.length_take, Nat.min_eq_left hle]
    rw [List.flatten_cons, hout, List.flatten_cons, ← List.append_assoc, hl]
    conv_rhs => rw [← List.take_append_drop (l.length / (W * H) * (W * H)) l]
    rw [List.append_assoc, s.ctr_append b harea _ (by rw [hlen]; exact Nat.dvd_mul_left _ _), hlen,
      Nat.mul_div_cancel _ harea]
    rfl

/-- The stream after an `update` with `n` cells and a `finalize`. -/
def advance (s : RexStream W H) (n : ℕ) : RexStream W H :=
  { s with
    blockCounter := s.blockCounter + BitVec.ofNat 64 (n / (W * H)) + if n % (W * H) = 0 then 0 else 1
    buffer := [] }

/-- An `update` and a `finalize` on an empty buffer: counter mode over the cells,
and a state that depends on their number alone. -/
theorem update_finalize_eq (b : Build) (hd : Grid.Supported W H) (s : RexStream W H)
    (hbuf : s.buffer = []) (cells : List I64) :
    ∃ out₁ s' out₂, s.update b cells = .ok (out₁, s') ∧
      s'.finalize b = .ok (out₂, s.advance cells.length) ∧
      out₁ ++ out₂ = s.ctr b s.blockCounter cells := by
  have harea := hd.area_pos
  have hupdate := s.update_eq b hd (by rw [hbuf]; exact harea) cells
  rw [hbuf, List.nil_append] at hupdate
  have hrest : (cells.drop (cells.length / (W * H) * (W * H))).length = cells.length % (W * H) := by
    rw [List.length_drop, ← Nat.mod_eq_sub_div_mul]
  have hfinalize := finalize_eq b hd
    { s with
      blockCounter := s.blockCounter + BitVec.ofNat 64 (cells.length / (W * H))
      buffer := cells.drop (cells.length / (W * H) * (W * H)) }
    (by rw [hrest]; exact Nat.mod_lt _ harea)
  refine ⟨_, _, s.ctr b (s.blockCounter + BitVec.ofNat 64 (cells.length / (W * H)))
    (cells.drop (cells.length / (W * H) * (W * H))), hupdate, hfinalize.trans ?_, ?_⟩
  · have hnil : cells.drop (cells.length / (W * H) * (W * H)) = [] ↔ cells.length % (W * H) = 0 := by
      rw [← List.length_eq_zero_iff, hrest]
    simp only [advance, hnil]
    rfl
  · have hlen : (cells.take (cells.length / (W * H) * (W * H))).length =
        cells.length / (W * H) * (W * H) := by
      rw [List.length_take, Nat.min_eq_left (Nat.div_mul_le_self _ _)]
    conv_rhs => rw [← List.take_append_drop (cells.length / (W * H) * (W * H)) cells]
    rw [s.ctr_append b harea _ (by rw [hlen]; exact Nat.dvd_mul_left _ _), hlen,
      Nat.mul_div_cancel _ harea]

/-- The one-shot `apply_ctr` over grids of zeros is the stream's keystream. -/
theorem applyCtr_zeros (b : Build) (hd : Grid.Supported W H) (s : RexStream W H) (n : ℕ) :
    ∃ blocks, Why2.applyCtr b (List.replicate n (Grid.ofFlat [])) s.nonce s.roundKeys none = .ok blocks ∧
      blocks.flatMap Grid.toFlat = s.ctr b 0 (List.replicate (n * (W * H)) 0) := by
  obtain ⟨blocks, hblocks, hflat⟩ := applyCtr_flat b hd { s with blockCounter := 0 }
    (List.replicate n (Grid.ofFlat []))
  refine ⟨blocks, ?_, ?_⟩
  · simp only [Why2.applyCtr, s.shifts_derived, bind, Except.bind]
    exact hblocks
  · rw [hflat, List.flatMap_replicate, Grid.toFlat_ofFlat (by simp)]
    simp only [List.length_nil, Nat.sub_zero, List.nil_append, List.flatten_replicate_replicate]
    rfl

/-- **Chunk invariance.**  However the cells are cut into `update` calls, the
updates and one `finalize` succeed and return the cells under the keystream of
the one-shot `apply_ctr` for the same nonce and `generate_round_keys(key)`; a
second stream of the same key and nonce, on any build, takes the output back
whatever its own cuts are. -/
theorem run_chunk_invariant (hd : Grid.Supported W H) (P : Primitives) (b : Build)
    (keyGrid nonce : Grid W H) (pieces : List (List I64)) :
    ∃ s roundKeys outs s', new P keyGrid nonce = .ok s ∧
      generateRoundKeys P keyGrid = .ok roundKeys ∧
      s.run b (pieces.map .update ++ [.finalize]) = .ok (outs, s') ∧
      (∀ n, pieces.flatten.length ≤ n * (W * H) →
        ∃ blocks, Why2.applyCtr b (List.replicate n (Grid.ofFlat [])) nonce roundKeys none = .ok blocks ∧
          outs.flatten = List.zipWith (· ^^^ ·) pieces.flatten
            ((blocks.flatMap Grid.toFlat).take pieces.flatten.length)) ∧
      ∀ (b' : Build) (pieces' : List (List I64)), pieces'.flatten = outs.flatten →
        ∃ t outs' t', new P keyGrid nonce = .ok t ∧
          t.run b' (pieces'.map .update ++ [.finalize]) = .ok (outs', t') ∧
          outs'.flatten = pieces.flatten := by
  obtain ⟨s, hs, hkeys, hnonce, hcounter, hbuffer⟩ := new_ok hd P keyGrid nonce
  have hbuf : s.buffer.length < W * H := by rw [hbuffer]; exact hd.area_pos
  obtain ⟨outs, s', hrun, hout⟩ := s.run_updates_finalize b hd hbuf pieces
  rw [hcounter, hbuffer, List.nil_append] at hout
  refine ⟨s, s.roundKeys, outs, s', hs, hkeys, hrun, fun n hn => ?_, fun b' pieces' hpieces' => ?_⟩
  · obtain ⟨blocks, hblocks, hflat⟩ := s.applyCtr_zeros b hd n
    rw [hnonce] at hblocks
    refine ⟨blocks, hblocks, ?_⟩
    rw [hout, hflat]
    exact ctrXor_eq_zipWith _ _ hn
  · obtain ⟨outs', t', hrun', hout'⟩ := s.run_updates_finalize b' hd hbuf pieces'
    rw [hcounter, hbuffer, List.nil_append, hpieces', hout, ctr_congr b' b hd rfl rfl] at hout'
    refine ⟨s, outs', t', hs, hrun', hout'.trans ?_⟩
    exact ctrXor_ctrXor _ _

/-- The theorem on the smallest grid, with an empty piece and a piece that ends
past a grid boundary, taken back in one piece on another build. -/
theorem run_chunk_invariant_two_by_four :
    Grid.Supported 2 4 ∧ ∃ s outs s' t outs' t',
      new (W := 2) (H := 4) default (.ofFlat [7]) (.ofFlat [5]) = .ok s ∧
      s.run ⟨true, false⟩ [.update [1, 2, 3], .update [], .update [4, 5, 6, 7, 8, 9], .finalize] =
        .ok (outs, s') ∧
      new (W := 2) (H := 4) default (.ofFlat [7]) (.ofFlat [5]) = .ok t ∧
      t.run ⟨false, true⟩ [.update outs.flatten, .finalize] = .ok (outs', t') ∧
      outs'.flatten = [1, 2, 3, 4, 5, 6, 7, 8, 9] := by
  obtain ⟨s, _, outs, s', hs, _, hrun, _, hinv⟩ := run_chunk_invariant (W := 2) (H := 4) (by decide)
    default ⟨true, false⟩ (.ofFlat [7]) (.ofFlat [5]) [[1, 2, 3], [], [4, 5, 6, 7, 8, 9]]
  obtain ⟨t, outs', t', ht, hrun', hback⟩ := hinv ⟨false, true⟩ [outs.flatten] (by simp)
  exact ⟨by decide, s, outs, s', t, outs', t', hs, hrun, ht, hrun', hback⟩

/-! ### No keystream cell is used twice -/

/-- **One call, of either kind.**  It returns the first `n` of the buffered and
fed cells, less than a grid stays behind, and the counter moves past every block
the `n` cells took. -/
theorem call_eq (b : Build) (hd : Grid.Supported W H) (s : RexStream W H)
    (hbuf : s.buffer.length < W * H) (c : StreamCall) :
    ∃ n ≤ (s.buffer ++ c.fed).length, ((s.buffer ++ c.fed).drop n).length < W * H ∧
      s.call b c = .ok (s.ctr b s.blockCounter ((s.buffer ++ c.fed).take n),
        { s with
          blockCounter := s.blockCounter + BitVec.ofNat 64 (blockCount (W * H) n)
          buffer := (s.buffer ++ c.fed).drop n }) := by
  have harea := hd.area_pos
  cases c with
  | update data =>
    refine ⟨(s.buffer ++ data).length / (W * H) * (W * H), Nat.div_mul_le_self _ _, ?_, ?_⟩
    · rw [List.length_drop, StreamCall.fed, ← Nat.mod_eq_sub_div_mul]
      exact Nat.mod_lt _ harea
    · have hcount : ∀ k, blockCount (W * H) (k * (W * H)) = k := fun k => by
        rw [blockCount, Nat.add_sub_assoc harea, Nat.add_comm, Nat.add_mul_div_right _ _ harea,
          Nat.div_eq_of_lt (by omega), Nat.zero_add]
      rw [hcount]
      exact s.update_eq b hd hbuf data
  | finalize =>
    have hfed : s.buffer ++ StreamCall.finalize.fed = s.buffer := List.append_nil _
    refine ⟨s.buffer.length, by rw [hfed], by simpa [hfed] using harea, ?_⟩
    have hcount : BitVec.ofNat 64 (blockCount (W * H) s.buffer.length) =
        if s.buffer = [] then 0 else 1 := by
      split_ifs with hnil
      · rw [hnil, blockCount, List.length_nil, Nat.div_eq_of_lt (by omega)]
        rfl
      · have hpos := List.length_pos_iff.2 hnil
        rw [blockCount, show s.buffer.length + W * H - 1 = s.buffer.length - 1 + W * H by omega,
          Nat.add_div_right _ harea, Nat.div_eq_of_lt (by omega)]
        rfl
    rw [hfed, hcount, List.take_length, List.drop_length]
    exact s.finalize_eq b hd hbuf

/-- The blocks a run took, counted from what its calls returned: every call
starts on a fresh block. -/
def blocksUsed (W H : ℕ) (outs : List (List I64)) : ℕ :=
  ((outs.map List.length).map (blockCount (W * H))).sum

/-- The keystream cells, as block counter and position in the grid, that each
call's returned cells were XORed with, for a stream that counts from zero. -/
def keystreamUses (W H : ℕ) (outs : List (List I64)) : List (List (ℕ × ℕ)) :=
  ctrUses (W * H) 0 (outs.map List.length)

/-- What a run does from any state: each cell that comes out has been XORed with
the keystream cell listed for it, and the cells that did not come out are in the
buffer. -/
theorem run_uses (b : Build) (hd : Grid.Supported W H) (calls : List StreamCall)
    (s : RexStream W H) (hbuf : s.buffer.length < W * H) (k : ℕ)
    (hk : s.blockCounter = BitVec.ofNat 64 k) :
    ∃ outs s', s.run b calls = .ok (outs, s') ∧
      outs.flatten.length + s'.buffer.length = s.buffer.length + (calls.flatMap StreamCall.fed).length ∧
      outs.flatten = List.zipWith (fun x u => x ^^^ s.keystreamCell b (BitVec.ofNat 64 u.1) u.2)
        (s.buffer ++ calls.flatMap StreamCall.fed)
        (ctrUses (W * H) k (outs.map List.length)).flatten := by
  induction calls generalizing s k with
  | nil => exact ⟨[], s, rfl, by simp, by simp [ctrUses]⟩
  | cons c calls ih =>
    obtain ⟨n, hn, hrest, hcall⟩ := s.call_eq b hd hbuf c
    obtain ⟨outs, s', hrun, hlen, hout⟩ := ih
      { s with
        blockCounter := s.blockCounter + BitVec.ofNat 64 (blockCount (W * H) n)
        buffer := (s.buffer ++ c.fed).drop n } hrest (k + blockCount (W * H) n)
      (by rw [hk, BitVec.ofNat_add])
    have hn' : ((s.buffer ++ c.fed).take n).length = n := by
      rw [List.length_take, Nat.min_eq_left hn]
    have hctr : (s.ctr b s.blockCounter ((s.buffer ++ c.fed).take n)).length = n := by
      rw [ctr, length_ctrXor, hn']
    refine ⟨_, s', run_cons_eq hcall hrun, ?_, ?_⟩
    · rw [List.flatten_cons, List.length_append, hctr, Nat.add_assoc, hlen, List.flatMap_cons,
        List.length_append, List.length_drop]
      rw [List.length_append] at hn ⊢
      omega
    · -- The first `n` cells are this call's, the rest is the run that follows.
      rw [List.flatten_cons, List.map_cons, hctr, ctrUses, List.flatten_cons, List.flatMap_cons,
        ← List.append_assoc, ← List.take_append_drop n (s.buffer ++ c.fed), List.append_assoc,
        List.zipWith_append (by rw [hn', length_blockUses]), hk, List.take_append_drop, ctr,
        ctrXor_eq_uses, hn', hout]
      rfl

/-- **No keystream reuse inside a stream.**  For any calls in any order every
cell is returned once or still buffered, and each returned cell was XORed with
the keystream cell `keystreamUses` lists for it.  While fewer than `2^64` blocks
have been used these are a counter below `2^64` and a position in the grid each,
no two returned cells share one, and the counters of one call are all below those
of any later call. -/
theorem run_no_keystream_reuse (hd : Grid.Supported W H) (P : Primitives) (b : Build)
    (keyGrid nonce : Grid W H) (calls : List StreamCall) :
    ∃ s outs s', new P keyGrid nonce = .ok s ∧ s.run b calls = .ok (outs, s') ∧
      outs.flatten.length + s'.buffer.length = (calls.flatMap StreamCall.fed).length ∧
      (keystreamUses W H outs).map List.length = outs.map List.length ∧
      outs.flatten = List.zipWith (fun x u => x ^^^ s.keystreamCell b (BitVec.ofNat 64 u.1) u.2)
        (calls.flatMap StreamCall.fed) (keystreamUses W H outs).flatten ∧
      (blocksUsed W H outs < 2 ^ 64 →
        (keystreamUses W H outs).flatten.Nodup ∧
          (keystreamUses W H outs).Pairwise (fun us vs => ∀ u ∈ us, ∀ v ∈ vs, u.1 < v.1) ∧
          ∀ u ∈ (keystreamUses W H outs).flatten, u.1 < 2 ^ 64 ∧ u.2 < W * H) := by
  have harea := hd.area_pos
  obtain ⟨s, hs, _, _, hcounter, hbuffer⟩ := new_ok hd P keyGrid nonce
  obtain ⟨outs, s', hrun, hlen, hout⟩ := s.run_uses b hd calls (by rw [hbuffer]; exact harea) 0 hcounter
  rw [hbuffer, List.nil_append] at hout
  rw [hbuffer, List.length_nil, Nat.zero_add] at hlen
  refine ⟨s, outs, s', hs, hrun, hlen, map_length_ctrUses _ _, hout, fun hblocks =>
    ⟨ctrUses_nodup harea _ _, ctrUses_pairwise harea _ _, fun u hu => ?_⟩⟩
  obtain ⟨us, hus, hu⟩ := List.mem_flatten.1 hu
  obtain ⟨_, hlt, hpos⟩ := mem_ctrUses harea hus hu
  rw [blocksUsed] at hblocks
  exact ⟨by omega, hpos⟩

/-- The theorem with a `finalize` in the middle of the stream: ten cells, one
whole grid, then the two left over, and one more cell after them. -/
theorem run_no_keystream_reuse_after_finalize :
    Grid.Supported 2 4 ∧ ∃ s outs s',
      new (W := 2) (H := 4) default (.ofFlat [7]) (.ofFlat [5]) = .ok s ∧
      s.run ⟨true, false⟩ [.update (List.replicate 10 1), .finalize, .update [2], .finalize] =
        .ok (outs, s') ∧ outs.flatten.length + s'.buffer.length = 11 := by
  obtain ⟨s, outs, s', hs, hrun, hlen, _⟩ := run_no_keystream_reuse (W := 2) (H := 4) (by decide)
    default ⟨true, false⟩ (.ofFlat [7]) (.ofFlat [5])
    [.update (List.replicate 10 1), .finalize, .update [2], .finalize]
  exact ⟨by decide, s, outs, s', hs, hrun, hlen⟩

end RexStream

end Why2
