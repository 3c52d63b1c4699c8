/-
# The units of an access unit

An encoder hands over one access unit at a time: a byte string of units, each
after a start code (`nal_units`, `annex_b`,
`chat/src/network/screen/client/encoder/mod.rs`).  What `nal_units` reads from a
stream of framed units are the units themselves, exactly if no unit has a start
code in it and the last one does not end in a zero (`nalUnits_stream_iff`).

Some encoders leave the parameter sets out of the pictures after the first one.
`ParameterSets::complete` remembers them, and puts them in front of an IDR that
came without; over any sequence of access units it hands on the units that came
in, after the last sets where there is an IDR without an SPS
(`nalUnits_completeAll`).  What it takes for a picture that stands on its own is
what the relay and the viewers take for one (`isKeyframe_iff`, for `is_keyframe`
of `chat/src/network/screen/mod.rs`).
-/

import Why2.Lib.Bytes
import Why2.Lib.Delimited
import Why2.Chat.Screen

namespace Why2

open Lib

/-- The three bytes in front of a unit. -/
def startCode : List U8 := [0, 0, 1]

/-- `strip_suffix(&[0])`: the zero of a start code of four bytes. -/
def stripZero (unit : List U8) : List U8 := if unit.getLast? = some 0 then unit.dropLast else unit

/-- A start code is in the data. -/
theorem firstAt_startCode_le {data : List U8} {k : ℕ} (h : firstAt startCode data = some k) :
    k + 3 ≤ data.length :=
  firstAt_add_length_le h

/-- `nal_units`: what follows each start code. -/
def nalUnits (data : List U8) : List (List U8) :=
  match h : firstAt startCode data with
  | none => []
  | some k =>
    let rest := data.drop (k + 3)
    let stop := (firstAt startCode rest).getD rest.length
    stripZero (rest.take stop) :: nalUnits (rest.drop stop)
termination_by data.length
decreasing_by
  have := firstAt_startCode_le h
  simp only [List.length_drop]
  omega

/-- `annex_b`: a unit with its start code. -/
def annexB (unit : List U8) : List U8 := [0, 0, 0, 1] ++ unit

/-- The type of a unit, in the lower bits of its header. -/
def unitType (unit : List U8) : Option U8 := unit.head?.map (· &&& 0x1f)

/-- The last SPS and PPS seen, with their start codes. -/
structure ParameterSets where
  sps : List U8
  pps : List U8
deriving DecidableEq

namespace ParameterSets

/-- `ParameterSets::default`. -/
def default : ParameterSets := ⟨[], []⟩

/-- A unit is looked at. -/
def note (sets : ParameterSets) (unit : List U8) : ParameterSets :=
  if unitType unit = some 7 then { sets with sps := annexB unit }
  else if unitType unit = some 8 then { sets with pps := annexB unit }
  else sets

/-- `complete`: the access unit to hand on, and the sets from then on. -/
def complete (sets : ParameterSets) (frame : List U8) : List U8 × ParameterSets :=
  let units := nalUnits frame
  let idr := units.any (unitType · = some 5)
  let sps := units.any (unitType · = some 7)
  let sets := units.foldl note sets
  if !idr || sps || sets.sps.isEmpty then (frame, sets) else (sets.sps ++ sets.pps ++ frame, sets)

/-- The access units that are handed on, one for each that comes in. -/
def completeAll (sets : ParameterSets) : List (List U8) → List (List U8)
  | [] => []
  | frame :: frames => (sets.complete frame).1 :: completeAll (sets.complete frame).2 frames

end ParameterSets

/-- The units of a sample in which each has its length in front, in `width` bytes. -/
def avccUnits (width : ℕ) (data : List U8) : List (List U8) :=
  if 0 < width ∧ width < data.length then
    let size := ofBeBytes (data.take width)
    if width + size ≤ data.length then
      (data.drop width).take size :: avccUnits width (data.drop (width + size))
    else []
  else []
termination_by data.length
decreasing_by
  simp only [List.length_drop]
  omega

/-- `annex_b` of `video_toolbox.rs`: a sample as an access unit, an IDR after its parameter
sets.  A width that is not known is four. -/
def transcode (width : ℕ) (sets data : List U8) : List U8 :=
  let units := avccUnits (if width = 0 then 4 else width) data
  let frame := units.flatMap annexB
  if units.any (unitType · = some 5) then sets ++ frame else frame

/-! ### Reading framed units -/

/-- No start code is in the unit. -/
def Free (unit : List U8) : Prop := ¬startCode <:+: unit

instance (unit : List U8) : Decidable (Free unit) := inferInstanceAs (Decidable (¬startCode <:+: unit))

variable {unit data : List U8} {units : List (List U8)}

/-- Without a start code there is no unit. -/
theorem nalUnits_of_none (h : firstAt startCode data = none) : nalUnits data = [] := by
  rw [nalUnits]
  split
  · rfl
  · rename_i hk
    rw [h] at hk
    cases hk

/-- The first unit, and those of the rest. -/
theorem nalUnits_of_some {k : ℕ} (h : firstAt startCode data = some k) :
    nalUnits data =
      stripZero ((data.drop (k + 3)).take ((firstAt startCode (data.drop (k + 3))).getD (data.drop (k + 3)).length)) ::
        nalUnits ((data.drop (k + 3)).drop
          ((firstAt startCode (data.drop (k + 3))).getD (data.drop (k + 3)).length)) := by
  rw [nalUnits]
  split
  · rename_i hnone
    rw [h] at hnone
    cases hnone
  · rename_i j hj
    obtain rfl := Option.some.inj (h.symm.trans hj)
    rfl

/-- A part of a free unit is free. -/
theorem Free.cons_tail {a : U8} (h : Free (a :: unit)) : Free unit :=
  fun hin => h (List.infix_cons hin)

/-- A start code of four bytes ends the unit before it. -/
theorem firstAt_append_annexB (hfree : Free unit) (rest : List U8) :
    firstAt startCode (unit ++ annexB rest) = some (unit.length + 1) := by
  induction unit with
  | nil => rfl
  | cons a unit ih =>
    have hnot : ¬startCode <+: a :: (unit ++ annexB rest) := by
      intro hprefix
      match unit, hfree, hprefix with
      | [], _, hprefix => simp [startCode, annexB] at hprefix
      | [b], _, hprefix => simp [startCode, annexB] at hprefix
      | b :: c :: unit, hfree, hprefix =>
        refine hfree (List.IsPrefix.isInfix ?_)
        simpa [startCode] using hprefix
    rw [List.cons_append, firstAt_cons_of_not hnot, ih hfree.cons_tail]
    rfl

/-- A start code of three bytes reads like one of four. -/
theorem nalUnits_annexB (rest : List U8) : nalUnits (annexB rest) = nalUnits (startCode ++ rest) := by
  have hfour : firstAt startCode (annexB rest) = some 1 := rfl
  have hthree : firstAt startCode (startCode ++ rest) = some 0 := rfl
  rw [nalUnits_of_some hfour, nalUnits_of_some hthree]
  rfl

/-- The zero of a long start code is not of the unit before. -/
theorem stripZero_append_zero (unit : List U8) : stripZero (unit ++ [0]) = unit := by
  unfold stripZero
  rw [if_pos List.getLast?_concat, List.dropLast_concat]

/-- **A framed unit in front of a framed stream** is read as it is. -/
theorem nalUnits_annexB_append (hfree : Free unit) (rest : List U8) :
    nalUnits (annexB unit ++ annexB rest) = unit :: nalUnits (annexB rest) := by
  have hstart : firstAt startCode (annexB unit ++ annexB rest) = some 1 := rfl
  have hdrop : (annexB unit ++ annexB rest).drop (1 + 3) = unit ++ annexB rest := rfl
  rw [nalUnits_of_some hstart, hdrop, firstAt_append_annexB hfree, Option.getD_some]
  have hsplit : unit ++ annexB rest = (unit ++ [0]) ++ (startCode ++ rest) :=
    (List.append_assoc unit [0] (startCode ++ rest)).symm
  have hlen : unit.length + 1 = (unit ++ [0]).length := by rw [List.length_append, List.length_singleton]
  rw [hsplit, hlen, List.take_left, List.drop_left, stripZero_append_zero, nalUnits_annexB]

/-- The last unit of a stream loses a zero at its end. -/
theorem nalUnits_annexB_last (hfree : Free unit) : nalUnits (annexB unit) = [stripZero unit] := by
  have hstart : firstAt startCode (annexB unit) = some 1 := rfl
  have hdrop : (annexB unit).drop (1 + 3) = unit := rfl
  rw [nalUnits_of_some hstart, hdrop, firstAt_eq_none_iff.2 hfree, Option.getD_none, List.take_length,
    List.drop_length, nalUnits_of_none rfl]

/-- What is read from a stream of framed units. -/
theorem nalUnits_stream (hfree : ∀ unit ∈ units, Free unit) (hlast : Free unit) :
    nalUnits (units.flatMap annexB ++ annexB unit) = units ++ [stripZero unit] := by
  induction units with
  | nil => exact nalUnits_annexB_last hlast
  | cons first units ih =>
    have hrest : ∃ rest, units.flatMap annexB ++ annexB unit = annexB rest := by
      cases units with
      | nil => exact ⟨unit, rfl⟩
      | cons second units => exact ⟨second ++ (units.flatMap annexB ++ annexB unit), by simp [annexB]⟩
    obtain ⟨rest, hrest⟩ := hrest
    have hih := ih fun u hu => hfree u (List.mem_cons_of_mem _ hu)
    rw [List.flatMap_cons, List.append_assoc, hrest, nalUnits_annexB_append (hfree first List.mem_cons_self), ← hrest,
      hih, List.cons_append]

/-- A free unit stays free. -/
theorem free_stripZero (h : Free unit) : Free (stripZero unit) := by
  unfold stripZero
  split_ifs
  · exact fun hin => h (hin.trans (List.dropLast_prefix unit).isInfix)
  · exact h

/-- **What is read has no start code in it.** -/
theorem free_of_mem_nalUnits : ∀ unit ∈ nalUnits data, Free unit := by
  induction data using nalUnits.induct with
  | case1 data hnone =>
    rw [nalUnits_of_none hnone]
    exact fun _ h => absurd h List.not_mem_nil
  | case2 data k hk rest stop ih =>
    rw [nalUnits_of_some hk]
    intro unit hmem
    rcases List.mem_cons.1 hmem with rfl | hmem
    · exact free_stripZero (not_infix_take_firstAt (List.cons_ne_nil _ _))
    · exact ih unit hmem

/-- A unit stays as it is exactly if it does not end in a zero. -/
theorem stripZero_eq_self_iff : stripZero unit = unit ↔ unit.getLast? ≠ some 0 := by
  unfold stripZero
  split_ifs with h
  · refine iff_of_false (fun heq => ?_) (not_not_intro h)
    have hne : unit ≠ [] := by
      rintro rfl
      cases h
    have hlen := congrArg List.length heq
    rw [List.length_dropLast] at hlen
    have hpos := List.length_pos_iff.2 hne
    omega
  · exact iff_of_true rfl h

/-- A stream of units without a start code in them, and without a zero at its end, is read back. -/
theorem nalUnits_flatMap_annexB (hfree : ∀ unit ∈ units, Free unit)
    (hend : ∀ unit ∈ units.getLast?, unit.getLast? ≠ some 0) : nalUnits (units.flatMap annexB) = units := by
  rcases List.eq_nil_or_concat' units with rfl | ⟨before, last, rfl⟩
  · exact nalUnits_of_none rfl
  · rw [List.flatMap_append, List.flatMap_singleton,
      nalUnits_stream (fun u hu => hfree u (List.mem_append_left _ hu))
        (hfree last (List.mem_append_right _ (List.mem_singleton_self last))),
      stripZero_eq_self_iff.2 (hend last List.getLast?_concat)]

/-- **The round trip of a stream of units** holds exactly for those without a start code in a
unit and without a zero at the end of the last one. -/
theorem nalUnits_stream_iff (units : List (List U8)) :
    nalUnits (units.flatMap annexB) = units ↔
      (∀ unit ∈ units, Free unit) ∧ ∀ unit ∈ units.getLast?, unit.getLast? ≠ some 0 := by
  refine ⟨fun h => ?_, fun h => nalUnits_flatMap_annexB h.1 h.2⟩
  have hfree : ∀ unit ∈ units, Free unit := fun unit hunit => free_of_mem_nalUnits unit (h.symm ▸ hunit)
  refine ⟨hfree, ?_⟩
  rcases List.eq_nil_or_concat' units with rfl | ⟨before, last, rfl⟩
  · exact fun _ h => absurd h (Option.not_mem_none _)
  · rw [List.flatMap_append, List.flatMap_singleton,
      nalUnits_stream (fun u hu => hfree u (List.mem_append_left _ hu))
        (hfree last (List.mem_append_right _ (List.mem_singleton_self last)))] at h
    rw [List.getLast?_concat]
    rintro _ ⟨⟩
    exact stripZero_eq_self_iff.1 (List.singleton_inj.1 (List.append_cancel_left h))

/-! ### What a keyframe is -/

/-- What is before the first start code is skipped. -/
theorem nalUnits_cons_of_not {a : U8} (h : ¬startCode <+: a :: data) : nalUnits (a :: data) = nalUnits data := by
  have hfirst := firstAt_cons_of_not h
  cases hk : firstAt startCode data with
  | none =>
    rw [hk] at hfirst
    rw [nalUnits_of_none hfirst, nalUnits_of_none hk]
  | some k =>
    rw [hk] at hfirst
    rw [nalUnits_of_some hfirst, nalUnits_of_some hk]
    rfl

/-- What is before the first start code is in no unit. -/
theorem nalUnits_drop_stop (data : List U8) :
    nalUnits (data.drop ((firstAt startCode data).getD data.length)) = nalUnits data := by
  induction data with
  | nil => rfl
  | cons a data ih =>
    by_cases h : startCode <+: a :: data
    · rw [firstAt_eq_zero h]
      rfl
    · have hstop : (firstAt startCode (a :: data)).getD (a :: data).length =
          (firstAt startCode data).getD data.length + 1 := by
        rw [firstAt_cons_of_not h]
        cases firstAt startCode data <;> rfl
      rw [hstop, List.drop_succ_cons, ih, nalUnits_cons_of_not h]

/-- The unit after a start code, and those after it. -/
theorem nalUnits_startCode (rest : List U8) :
    nalUnits (startCode ++ rest) =
      stripZero (rest.take ((firstAt startCode rest).getD rest.length)) :: nalUnits rest := by
  have hstart : firstAt startCode (startCode ++ rest) = some 0 := rfl
  have hdrop : (startCode ++ rest).drop (0 + 3) = rest := rfl
  rw [nalUnits_of_some hstart, hdrop, nalUnits_drop_stop]

/-- A zero that is stripped is no header of a slice or a parameter set. -/
theorem unitType_stripZero {kind : U8} (hkind : kind ≠ 0) :
    unitType (stripZero unit) = some kind ↔ unitType unit = some kind := by
  match unit with
  | [] => rfl
  | [a] =>
    by_cases ha : a = 0
    · subst ha
      exact iff_of_false (Option.some_ne_none kind).symm fun h => hkind (Option.some.inj h).symm
    · have hstrip : stripZero [a] = [a] := if_neg fun h => ha (Option.some.inj h)
      rw [hstrip]
  | a :: b :: rest =>
    unfold stripZero
    split_ifs
    · rfl
    · rfl

/-- The type of the unit after a start code is in the byte after it. -/
theorem unitType_first {kind : U8} (hkind : kind ≠ 0) (a : U8) (rest : List U8) :
    unitType (stripZero ((a :: rest).take ((firstAt startCode (a :: rest)).getD (a :: rest).length))) = some kind ↔
      a &&& 0x1f = kind := by
  rw [unitType_stripZero hkind]
  by_cases h : startCode <+: a :: rest
  · rw [firstAt_eq_zero h]
    obtain rfl : 0 = a := List.head_eq_of_cons_eq (List.prefix_iff_eq_append.1 h)
    exact iff_of_false (Option.some_ne_none kind).symm fun h => hkind h.symm
  · have hstop : (firstAt startCode (a :: rest)).getD (a :: rest).length =
        (firstAt startCode rest).getD rest.length + 1 := by
      rw [firstAt_cons_of_not h]
      cases firstAt startCode rest <;> rfl
    rw [hstop, List.take_succ_cons]
    exact Option.some_inj

/-- Nothing follows a start code in three bytes. -/
theorem eq_nil_of_mem_nalUnits (hlen : data.length ≤ 3) : ∀ unit ∈ nalUnits data, unit = [] := by
  cases hk : firstAt startCode data with
  | none =>
    rw [nalUnits_of_none hk]
    exact fun _ h => absurd h List.not_mem_nil
  | some k =>
    have hdrop : data.drop (k + 3) = [] := List.drop_eq_nil_of_le (by omega)
    rw [nalUnits_of_some hk, hdrop, List.take_nil, List.drop_nil, nalUnits_of_none rfl]
    exact fun unit hmem => List.mem_singleton.1 hmem

/-- **A keyframe is an access unit with an IDR slice or an SPS**: the relay's scan of the bytes
sees the units that the encoder's reader sees. -/
theorem isKeyframe_iff (data : List U8) :
    isKeyframe data = true ↔ ∃ unit ∈ nalUnits data, unitType unit = some 5 ∨ unitType unit = some 7 := by
  induction data using isKeyframe.induct with
  | case1 a b c d rest hcode hkind =>
    obtain ⟨rfl, rfl, rfl⟩ := hcode
    have hunits := nalUnits_startCode (d :: rest)
    rw [isKeyframe, if_pos ⟨rfl, rfl, rfl⟩, if_pos hkind]
    refine iff_of_true rfl ⟨_, hunits ▸ List.mem_cons_self, ?_⟩
    rw [unitType_first (by decide), unitType_first (by decide)]
    exact hkind
  | case2 a b c d rest hcode hkind ih =>
    obtain ⟨rfl, rfl, rfl⟩ := hcode
    have hunits : nalUnits (0 :: 0 :: 1 :: d :: rest) = _ := nalUnits_startCode (d :: rest)
    rw [isKeyframe, if_pos ⟨rfl, rfl, rfl⟩, if_neg hkind, ih, hunits, List.exists_mem_cons_iff,
      unitType_first (by decide), unitType_first (by decide)]
    exact (or_iff_right hkind).symm
  | case3 a b c d rest hcode ih =>
    have hnot : ¬startCode <+: a :: b :: c :: d :: rest := by
      intro h
      simp only [startCode, List.cons_prefix_cons] at h
      exact hcode ⟨h.1.symm, h.2.1.symm, h.2.2.1.symm⟩
    rw [isKeyframe, if_neg hcode, ih, nalUnits_cons_of_not hnot]
  | case4 data hshort =>
    have hfalse : isKeyframe data = false := by
      unfold isKeyframe
      split
      · exact absurd rfl (hshort _ _ _ _ _)
      · rfl
    rw [hfalse]
    have hlen : data.length ≤ 3 := by
      match data, hshort with
      | [], _ | [_], _ | [_, _], _ | [_, _, _], _ => simp
      | a :: b :: c :: d :: rest, hshort => exact absurd rfl (hshort a b c d rest)
    refine iff_of_false Bool.false_ne_true ?_
    rintro ⟨unit, hmem, hkind⟩
    obtain rfl := eq_nil_of_mem_nalUnits hlen unit hmem
    rcases hkind with h | h <;> cases h

/-! ### Parameter sets in front -/

/-- The last unit of a type. -/
def lastOf (kind : U8) (units : List (List U8)) : Option (List U8) :=
  (units.filter (unitType · = some kind)).getLast?

/-- The last unit of a kind, with one more. -/
theorem lastOf_concat (kind : U8) (units : List (List U8)) (unit : List U8) :
    lastOf kind (units ++ [unit]) = if unitType unit = some kind then some unit else lastOf kind units := by
  unfold lastOf
  rw [List.filter_append]
  split_ifs with h
  · have hfilter : [unit].filter (unitType · = some kind) = [unit] := by simp [h]
    rw [hfilter, List.getLast?_concat]
  · have hfilter : [unit].filter (unitType · = some kind) = [] := by simp [h]
    rw [hfilter, List.append_nil]

/-- The last unit of a kind is of the kind. -/
theorem mem_of_lastOf {kind : U8} (h : lastOf kind units = some unit) : unit ∈ units ∧ unitType unit = some kind := by
  have hmem := List.mem_filter.1 (List.mem_of_getLast? h)
  exact ⟨hmem.1, of_decide_eq_true hmem.2⟩

namespace ParameterSets

variable {sets : ParameterSets} {frame : List U8} {frames seen : List (List U8)}

/-- The sets are the last ones of the units seen so far. -/
structure Tracks (sets : ParameterSets) (seen : List (List U8)) : Prop where
  free : ∀ unit ∈ seen, Free unit
  sps : sets.sps = ((lastOf 7 seen).map annexB).getD []
  pps : sets.pps = ((lastOf 8 seen).map annexB).getD []

/-- One more unit that is noted. -/
theorem Tracks.note (h : sets.Tracks seen) (hfree : Free unit) : (sets.note unit).Tracks (seen ++ [unit]) := by
  refine ⟨fun u hu => ?_, ?_, ?_⟩
  · rcases List.mem_append.1 hu with hu | hu
    · exact h.free u hu
    · exact List.mem_singleton.1 hu ▸ hfree
  · rw [lastOf_concat]
    unfold ParameterSets.note
    split_ifs
    · rfl
    · exact h.sps
    · exact h.sps
  · rw [lastOf_concat]
    unfold ParameterSets.note
    split_ifs with h7 h8 h8
    · rw [h7] at h8
      cases h8
    · exact h.pps
    · rfl
    · exact h.pps

/-- The units of an access unit are noted one after the other. -/
theorem Tracks.foldl (h : sets.Tracks seen) (units : List (List U8)) (hfree : ∀ unit ∈ units, Free unit) :
    (units.foldl ParameterSets.note sets).Tracks (seen ++ units) := by
  induction units generalizing sets seen with
  | nil => rwa [List.append_nil]
  | cons unit units ih =>
    rw [List.foldl_cons, List.append_cons]
    exact ih (h.note (hfree unit List.mem_cons_self)) fun u hu => hfree u (List.mem_cons_of_mem _ hu)

/-- What is in front of an access unit that stands on its own but has no SPS. -/
def front (seen units : List (List U8)) : List (List U8) :=
  if (∃ unit ∈ units, unitType unit = some 5) ∧ ∀ unit ∈ units, unitType unit ≠ some 7 then
    match lastOf 7 seen with
    | some sps => sps :: (lastOf 8 seen).toList
    | none => []
  else []

/-- What `complete` looks at: an IDR without an SPS, and sets to put in front of it. -/
theorem keep_iff (sets : ParameterSets) (units : List (List U8)) :
    (!units.any (unitType · = some 5) || units.any (unitType · = some 7) || sets.sps.isEmpty) = false ↔
      ((∃ unit ∈ units, unitType unit = some 5) ∧ ∀ unit ∈ units, unitType unit ≠ some 7) ∧ sets.sps ≠ [] := by
  rw [Bool.or_eq_false_iff, Bool.or_eq_false_iff, Bool.not_eq_false', List.any_eq_true, List.any_eq_false,
    List.isEmpty_eq_false_iff]
  simp only [decide_eq_true_iff, ne_eq]

/-- A parameter set is known exactly if one was seen. -/
theorem sps_ne_nil_iff (h : sets.Tracks seen) : sets.sps ≠ [] ↔ ∃ sps, lastOf 7 seen = some sps := by
  rw [h.sps]
  cases lastOf 7 seen with
  | none => exact iff_of_false (fun h => h rfl) fun ⟨_, h⟩ => by cases h
  | some sps => exact iff_of_true (List.cons_ne_nil _ _) ⟨sps, rfl⟩

/-- The sets are units of their own in front of what starts with a unit. -/
theorem nalUnits_sets (h : sets.Tracks seen) {sps : List U8} (hsps : lastOf 7 seen = some sps) (rest : List U8) :
    nalUnits (sets.sps ++ sets.pps ++ annexB rest) =
      sps :: ((lastOf 8 seen).toList ++ nalUnits (annexB rest)) := by
  have hfree := h.free sps (mem_of_lastOf hsps).1
  rw [h.sps, h.pps, hsps, Option.map_some, Option.getD_some, List.append_assoc]
  cases hpps : lastOf 8 seen with
  | none => exact nalUnits_annexB_append hfree rest
  | some pps =>
    have hjoin : annexB pps ++ annexB rest = annexB (pps ++ annexB rest) := List.append_assoc ..
    rw [Option.map_some, Option.getD_some, hjoin, nalUnits_annexB_append hfree, ← hjoin,
      nalUnits_annexB_append (h.free pps (mem_of_lastOf hpps).1)]
    rfl

/-- **One access unit is completed.** -/
theorem Tracks.complete (h : sets.Tracks seen) (hstart : ∃ rest, frame = annexB rest) :
    (sets.complete frame).2.Tracks (seen ++ nalUnits frame) ∧
      nalUnits (sets.complete frame).1 = front (seen ++ nalUnits frame) (nalUnits frame) ++ nalUnits frame := by
  have htracks := h.foldl (nalUnits frame) free_of_mem_nalUnits
  have hkeep := keep_iff ((nalUnits frame).foldl ParameterSets.note sets) (nalUnits frame)
  rw [sps_ne_nil_iff htracks] at hkeep
  unfold ParameterSets.complete front
  dsimp only
  split_ifs with hcond hbare hbare
  · refine ⟨htracks, ?_⟩
    cases hsps : lastOf 7 (seen ++ nalUnits frame) with
    | none => rfl
    | some sps =>
      rw [hkeep.2 ⟨hbare, sps, hsps⟩] at hcond
      cases hcond
  · exact ⟨htracks, rfl⟩
  · obtain ⟨-, sps, hsps⟩ := hkeep.1 (Bool.eq_false_iff.2 hcond)
    refine ⟨htracks, ?_⟩
    obtain ⟨rest, rfl⟩ := hstart
    rw [nalUnits_sets htracks hsps, hsps]
    rfl
  · exact absurd (hkeep.1 (Bool.eq_false_iff.2 hcond)).1 hbare

/-- By induction on the access units before it, each is completed from what was seen. -/
theorem Tracks.completeAll (h : sets.Tracks seen) (hstart : ∀ frame ∈ frames, ∃ rest, frame = annexB rest) {i : ℕ}
    (hi : frames[i]? = some frame) :
    ∃ completed, (sets.completeAll frames)[i]? = some completed ∧
      nalUnits completed =
        front (seen ++ (frames.take (i + 1)).flatMap nalUnits) (nalUnits frame) ++ nalUnits frame := by
  induction frames generalizing sets seen i with
  | nil => cases hi
  | cons first frames ih =>
    obtain ⟨htracks, hunits⟩ := h.complete (hstart first List.mem_cons_self)
    cases i with
    | zero =>
      obtain rfl := Option.some.inj hi
      refine ⟨_, rfl, ?_⟩
      rw [hunits, List.take_succ_cons, List.take_zero, List.flatMap_singleton]
    | succ i =>
      obtain ⟨completed, hcompleted, heq⟩ := ih htracks (fun f hf => hstart f (List.mem_cons_of_mem _ hf)) hi
      refine ⟨completed, hcompleted, ?_⟩
      rw [heq, List.take_succ_cons, List.flatMap_cons, List.append_assoc]

/-- At the start nothing was seen. -/
theorem tracks_default : default.Tracks [] :=
  ⟨fun _ h => absurd h List.not_mem_nil, rfl, rfl⟩

end ParameterSets

/-- **What is handed on, over any sequence of access units**: the units that came in, after the
last SPS and PPS seen where there is an IDR and no SPS. -/
theorem nalUnits_completeAll (frames : List (List U8)) (hstart : ∀ frame ∈ frames, ∃ rest, frame = annexB rest)
    (i : ℕ) (frame : List U8) (hi : frames[i]? = some frame) :
    ∃ completed, (ParameterSets.default.completeAll frames)[i]? = some completed ∧
      nalUnits completed =
        ParameterSets.front ((frames.take (i + 1)).flatMap nalUnits) (nalUnits frame) ++ nalUnits frame :=
  ParameterSets.tracks_default.completeAll hstart hi

/-- An encoder that sends its sets once, and an IDR later without them. -/
theorem nalUnits_completeAll_bare :
    ∃ completed,
      (ParameterSets.default.completeAll [annexB [0x67, 1] ++ annexB [0x68, 2] ++ annexB [0x65, 3], annexB [0x41, 4],
          annexB [0x65, 5]])[2]? = some completed ∧
        nalUnits completed =
          ParameterSets.front
              (([annexB [0x67, 1] ++ annexB [0x68, 2] ++ annexB [0x65, 3], annexB [0x41, 4], annexB [0x65, 5]].take
                (2 + 1)).flatMap nalUnits)
              (nalUnits (annexB [0x65, 5])) ++ nalUnits (annexB [0x65, 5]) := by
  refine nalUnits_completeAll _ (fun frame hframe => ?_) 2 _ rfl
  simp only [List.mem_cons, List.not_mem_nil, or_false] at hframe
  rcases hframe with rfl | rfl | rfl
  · exact ⟨[0x67, 1] ++ annexB [0x68, 2] ++ annexB [0x65, 3], rfl⟩
  · exact ⟨[0x41, 4], rfl⟩
  · exact ⟨[0x65, 5], rfl⟩

/-! ### From lengths to start codes -/

/-- A unit with its length in front. -/
def avcc (width : ℕ) (unit : List U8) : List U8 := beBytes width unit.length ++ unit

/-- The first unit of a length-prefixed stream. -/
theorem avccUnits_append {width : ℕ} (hwidth : 0 < width) (hne : unit ≠ []) (hlen : unit.length < 256 ^ width)
    (rest : List U8) : avccUnits width (avcc width unit ++ rest) = unit :: avccUnits width rest := by
  have hpos := List.length_pos_iff.2 hne
  have hbytes : (beBytes width unit.length).length = width := length_beBytes ..
  have hdata : avcc width unit ++ rest = beBytes width unit.length ++ (unit ++ rest) := List.append_assoc ..
  have htake : (avcc width unit ++ rest).take width = beBytes width unit.length := by
    rw [hdata, List.take_left' hbytes]
  have hdrop : (avcc width unit ++ rest).drop width = unit ++ rest := by rw [hdata, List.drop_left' hbytes]
  have hsize : ofBeBytes (beBytes width unit.length) = unit.length := by
    rw [ofBeBytes_beBytes, Nat.mod_eq_of_lt hlen]
  have htotal : (avcc width unit ++ rest).length = width + unit.length + rest.length := by
    rw [hdata, List.length_append, List.length_append, hbytes, Nat.add_assoc]
  rw [avccUnits, if_pos ⟨hwidth, by omega⟩, htake, hsize, if_pos (by omega), ← List.drop_drop, hdrop, List.take_left,
    List.drop_left]

/-- **Length-prefixed units are read back.** -/
theorem avccUnits_flatMap {width : ℕ} (hwidth : 0 < width)
    (hunits : ∀ unit ∈ units, unit ≠ [] ∧ unit.length < 256 ^ width) :
    avccUnits width (units.flatMap (avcc width)) = units := by
  induction units with
  | nil =>
    rw [List.flatMap_nil, avccUnits, if_neg]
    exact fun h => absurd h.2 (Nat.not_lt_zero _)
  | cons unit units ih =>
    obtain ⟨hne, hlen⟩ := hunits unit List.mem_cons_self
    rw [List.flatMap_cons, avccUnits_append hwidth hne hlen, ih fun u hu => hunits u (List.mem_cons_of_mem _ hu)]

/-- **A sample keeps its units on the way to an access unit**, and an IDR gets the sets in
front of them. -/
theorem nalUnits_transcode (width : ℕ) (sets units : List (List U8))
    (hlen : ∀ unit ∈ units, unit ≠ [] ∧ unit.length < 256 ^ (if width = 0 then 4 else width))
    (hfree : ∀ unit ∈ sets ++ units, Free unit) (hend : ∀ unit ∈ units.getLast?, unit.getLast? ≠ some 0) :
    nalUnits (transcode width (sets.flatMap annexB) (units.flatMap (avcc (if width = 0 then 4 else width)))) =
      (if ∃ unit ∈ units, unitType unit = some 5 then sets else []) ++ units := by
  have hwidth : 0 < if width = 0 then 4 else width := by
    split_ifs with h
    · exact Nat.succ_pos 3
    · exact Nat.pos_of_ne_zero h
  have hunits : nalUnits (units.flatMap annexB) = units :=
    nalUnits_flatMap_annexB (fun u hu => hfree u (List.mem_append_right _ hu)) hend
  unfold transcode
  dsimp only
  rw [avccUnits_flatMap hwidth hlen]
  by_cases hidr : ∃ unit ∈ units, unitType unit = some 5
  · have hany : units.any (unitType · = some 5) = true := by
      rw [List.any_eq_true]
      simpa using hidr
    have hlast : (sets ++ units).getLast? = units.getLast? := by
      obtain ⟨unit, hmem, -⟩ := hidr
      rw [List.getLast?_append, List.getLast?_eq_some_getLast (List.ne_nil_of_mem hmem)]
      rfl
    rw [if_pos hidr, hany, if_pos rfl, ← List.flatMap_append]
    exact nalUnits_flatMap_annexB hfree (hlast ▸ hend)
  · have hany : units.any (unitType · = some 5) = false := by
      rw [List.any_eq_false]
      simpa using hidr
    rw [if_neg hidr, hany, if_neg Bool.false_ne_true, hunits, List.nil_append]

/-- A sample with an IDR whose lengths take two bytes. -/
theorem nalUnits_transcode_idr :
    nalUnits (transcode 2 ([[0x67, 1], [0x68, 2]].flatMap annexB)
        ([[0x06, 9], [0x65, 5]].flatMap (avcc (if 2 = 0 then 4 else 2)))) =
      (if ∃ unit ∈ ([[0x06, 9], [0x65, 5]] : List (List U8)), unitType unit = some 5 then [[0x67, 1], [0x68, 2]]
        else []) ++ [[0x06, 9], [0x65, 5]] :=
  nalUnits_transcode 2 [[0x67, 1], [0x68, 2]] [[0x06, 9], [0x65, 5]] (by decide) (by decide) (by decide)

end Why2
