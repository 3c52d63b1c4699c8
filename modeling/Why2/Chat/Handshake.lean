/-
# The handshake budget

A socket that has not identified itself holds a slot:
`HandshakeSlot::{reserve, drop}` (`chat/src/network/server/handshake.rs`).  The
accept loop (`chat/src/bin/server.rs`) reserves one at a time, and each slot is
dropped by the task it was given to.  `HANDSHAKES` counts the slots and
`HANDSHAKES_PER_IP` the slots of each address.

A reserve is three accesses to the two (the check of the budget, the locked
entry of the address, the addition), and so is a drop (the subtraction, the
locked entry, the removal of an entry that is still zero).  Between the second
and the third access of a reserve the table is one ahead of the slots
(`table_ahead_of_slots`); in every other respect the two are what the slots say
in every run (`handshakes_accounted`).

The slots are numbered in the order they are taken, and a dropped one keeps its
number.
-/

import Mathlib.Algebra.GroupWithZero.Nat
import Mathlib.Data.List.AList
import Why2.Lib.Runs

namespace Why2

open Lib

variable {Ip : Type} [DecidableEq Ip]

/-- `MAX_HANDSHAKES_PER_IP`. -/
def maxHandshakesPerIp : ℕ := 8

/-- `max_handshakes`, of the two values of the configuration. -/
def maxHandshakes (maxClients maxUnauthClients : ℕ) : ℕ :=
  (maxClients + maxUnauthClients) * maxHandshakesPerIp % 2 ^ 64

/-- The limit fits in the counter. -/
theorem maxHandshakes_lt (maxClients maxUnauthClients : ℕ) :
    maxHandshakes maxClients maxUnauthClients < 2 ^ 64 := Nat.mod_lt _ (by decide)

/-- How far the drop of a slot is: not begun; its subtraction made; the entry of its address
counted down to zero; over. -/
inductive SlotStage
  | held
  | released
  | emptied
  | gone
deriving DecidableEq

/-- A `HandshakeSlot`. -/
structure HandshakeSlot (Ip : Type) where
  ip : Ip
  stage : SlotStage
deriving DecidableEq

/-- Where the accept loop is in `reserve`: outside, past the check of the budget, past the
entry of the address. -/
inductive Reserving (Ip : Type)
  | idle
  | loaded (ip : Ip) (budget : ℕ)
  | counted (ip : Ip) (budget : ℕ)
deriving DecidableEq

/-- `HANDSHAKES`, `HANDSHAKES_PER_IP`, the slots and the reserve under way. -/
structure Handshakes (Ip : Type) where
  handshakes : ℕ
  handshakesPerIp : AList fun _ : Ip => ℕ
  slots : List (HandshakeSlot Ip)
  reserving : Reserving Ip

/-- One access: the three of a reserve, and the three of the drop of slot `k`. -/
inductive HandshakeAction (Ip : Type)
  | load (ip : Ip) (maxClients maxUnauthClients : ℕ)
  | count
  | add
  | release (k : ℕ)
  | discount (k : ℕ)
  | remove (k : ℕ)

namespace Handshakes

/-- No slot was taken yet. -/
def start : Handshakes Ip where
  handshakes := 0
  handshakesPerIp := ∅
  slots := []
  reserving := .idle

/-- Slot `k` for `ip` is at a new stage of its drop. -/
def setStage (s : Handshakes Ip) (k : ℕ) (ip : Ip) (stage : SlotStage) : List (HandshakeSlot Ip) :=
  s.slots.set k ⟨ip, stage⟩

/-- `HandshakeSlot::reserve`, the check of the budget. -/
def load (s : Handshakes Ip) (ip : Ip) (budget : ℕ) : Handshakes Ip :=
  if budget ≤ s.handshakes then s else { s with reserving := .loaded ip budget }

/-- `HandshakeSlot::reserve`, the entry of the address. -/
def count (s : Handshakes Ip) (ip : Ip) (budget : ℕ) : Handshakes Ip :=
  let slots := (s.handshakesPerIp.lookup ip).getD 0
  if maxHandshakesPerIp ≤ slots then
    { s with handshakesPerIp := s.handshakesPerIp.insert ip slots, reserving := .idle }
  else
    { s with handshakesPerIp := s.handshakesPerIp.insert ip (slots + 1), reserving := .counted ip budget }

/-- `HandshakeSlot::reserve`, the addition. -/
def add (s : Handshakes Ip) (ip : Ip) : Handshakes Ip :=
  { s with
    handshakes := (s.handshakes + 1) % 2 ^ 64
    slots := s.slots ++ [⟨ip, .held⟩]
    reserving := .idle }

/-- `HandshakeSlot::drop`, the subtraction. -/
def release (s : Handshakes Ip) (k : ℕ) (ip : Ip) : Handshakes Ip :=
  { s with
    handshakes := (s.handshakes + (2 ^ 64 - 1)) % 2 ^ 64
    slots := s.setStage k ip .released }

/-- `HandshakeSlot::drop`, the entry of the address. -/
def discount (s : Handshakes Ip) (k : ℕ) (ip : Ip) : Handshakes Ip :=
  match s.handshakesPerIp.lookup ip with
  | some slots =>
    { s with
      handshakesPerIp := s.handshakesPerIp.insert ip (slots - 1)
      slots := s.setStage k ip (if slots - 1 = 0 then .emptied else .gone) }
  | none => { s with slots := s.setStage k ip .gone }

/-- `HandshakeSlot::drop`, the removal of the entry. -/
def remove (s : Handshakes Ip) (k : ℕ) (ip : Ip) : Handshakes Ip :=
  { s with
    handshakesPerIp :=
      if s.handshakesPerIp.lookup ip = some 0 then s.handshakesPerIp.erase ip else s.handshakesPerIp
    slots := s.setStage k ip .gone }

/-- One action. -/
def step (s : Handshakes Ip) : HandshakeAction Ip → Option (Handshakes Ip)
  | .load ip maxClients maxUnauthClients =>
    match s.reserving with
    | .idle => some (s.load ip (maxHandshakes maxClients maxUnauthClients))
    | _ => none
  | .count =>
    match s.reserving with
    | .loaded ip budget => some (s.count ip budget)
    | _ => none
  | .add =>
    match s.reserving with
    | .counted ip _ => some (s.add ip)
    | _ => none
  | .release k =>
    match s.slots[k]? with
    | some ⟨ip, .held⟩ => some (s.release k ip)
    | _ => none
  | .discount k =>
    match s.slots[k]? with
    | some ⟨ip, .released⟩ => some (s.discount k ip)
    | _ => none
  | .remove k =>
    match s.slots[k]? with
    | some ⟨ip, .emptied⟩ => some (s.remove k ip)
    | _ => none

/-- What a step can be. -/
theorem step_cases {s s' : Handshakes Ip} {action : HandshakeAction Ip} (h : step s action = some s') :
    (∃ ip maxClients maxUnauthClients, s.reserving = .idle ∧
      s' = s.load ip (maxHandshakes maxClients maxUnauthClients)) ∨
    (∃ ip budget, s.reserving = .loaded ip budget ∧ s' = s.count ip budget) ∨
    (∃ ip budget, s.reserving = .counted ip budget ∧ s' = s.add ip) ∨
    (∃ k ip, s.slots[k]? = some ⟨ip, .held⟩ ∧ s' = s.release k ip) ∨
    (∃ k ip, s.slots[k]? = some ⟨ip, .released⟩ ∧ s' = s.discount k ip) ∨
    (∃ k ip, s.slots[k]? = some ⟨ip, .emptied⟩ ∧ s' = s.remove k ip) := by
  cases action with
  | load ip maxClients maxUnauthClients =>
    refine .inl ⟨ip, maxClients, maxUnauthClients, ?_⟩
    cases hr : s.reserving with
    | idle => exact ⟨rfl, by simpa only [step, hr, Option.some.injEq, eq_comm] using h⟩
    | loaded | counted => simp [step, hr] at h
  | count =>
    cases hr : s.reserving with
    | loaded ip budget =>
      exact .inr (.inl ⟨ip, budget, rfl, by simpa only [step, hr, Option.some.injEq, eq_comm] using h⟩)
    | idle | counted => simp [step, hr] at h
  | add =>
    cases hr : s.reserving with
    | counted ip budget =>
      exact .inr (.inr (.inl ⟨ip, budget, rfl, by simpa only [step, hr, Option.some.injEq, eq_comm] using h⟩))
    | idle | loaded => simp [step, hr] at h
  | release k =>
    simp only [step] at h
    split at h
    · next ip hk => exact .inr (.inr (.inr (.inl ⟨k, ip, hk, (Option.some.inj h).symm⟩)))
    · simp at h
  | discount k =>
    simp only [step] at h
    split at h
    · next ip hk => exact .inr (.inr (.inr (.inr (.inl ⟨k, ip, hk, (Option.some.inj h).symm⟩))))
    · simp at h
  | remove k =>
    simp only [step] at h
    split at h
    · next ip hk => exact .inr (.inr (.inr (.inr (.inr ⟨k, ip, hk, (Option.some.inj h).symm⟩))))
    · simp at h

/-! ### What the slots say -/

/-- The slots that were not dropped. -/
def live (s : Handshakes Ip) : ℕ := s.slots.countP fun slot => slot.stage = .held

/-- The slots of `ip` that were not dropped. -/
def liveAt (s : Handshakes Ip) (ip : Ip) : ℕ := s.slots.countP fun slot => slot.ip = ip ∧ slot.stage = .held

/-- The slots of `ip` that the table counts: those whose drop did not reach the entry. -/
def countedAt (s : Handshakes Ip) (ip : Ip) : ℕ :=
  s.slots.countP fun slot => slot.ip = ip ∧ (slot.stage = .held ∨ slot.stage = .released)

/-- A reserve for `ip` is between its two increments. -/
def reservedAt (s : Handshakes Ip) (ip : Ip) : ℕ :=
  match s.reserving with
  | .counted ip' _ => if ip' = ip then 1 else 0
  | _ => 0

/-- The count of an address. -/
def slotsAt (s : Handshakes Ip) (ip : Ip) : ℕ := (s.handshakesPerIp.lookup ip).getD 0

/-- No drop is in progress. -/
def NoDrop (s : Handshakes Ip) : Prop := ∀ slot ∈ s.slots, slot.stage = .held ∨ slot.stage = .gone

omit [DecidableEq Ip] in
/-- One slot at another stage. -/
theorem countP_setStage {s : Handshakes Ip} {k : ℕ} {ip : Ip} {stage : SlotStage}
    (h : s.slots[k]? = some ⟨ip, stage⟩) (stage' : SlotStage) (p : HandshakeSlot Ip → Bool) :
    (s.setStage k ip stage').countP p + (if p ⟨ip, stage⟩ then 1 else 0) =
      s.slots.countP p + (if p ⟨ip, stage'⟩ then 1 else 0) := by
  obtain ⟨hk, hslot⟩ := List.getElem?_eq_some_iff.1 h
  have hmem : (if p ⟨ip, stage⟩ then 1 else 0) ≤ s.slots.countP p := by
    split
    · exact List.countP_pos_iff.2 ⟨_, List.mem_of_getElem? h, ‹_›⟩
    · exact Nat.zero_le _
  rw [setStage, List.countP_set hk, hslot]
  omega

omit [DecidableEq Ip] in
/-- The other slots are as they were. -/
theorem mem_setStage {s : Handshakes Ip} {k : ℕ} {ip : Ip} {stage : SlotStage}
    (h : s.slots[k]? = some ⟨ip, stage⟩) (stage' : SlotStage) {slot : HandshakeSlot Ip} (hmem : slot ∈ s.slots)
    (hne : slot ≠ ⟨ip, stage⟩) : slot ∈ s.setStage k ip stage' := by
  obtain ⟨j, hj⟩ := List.mem_iff_getElem?.1 hmem
  have hjk : k ≠ j := by
    rintro rfl
    exact hne (Option.some.inj (hj.symm.trans h))
  refine List.mem_of_getElem? (i := j) ?_
  rw [setStage, List.getElem?_set_ne hjk, hj]

/-- The counts after an entry was written. -/
theorem getD_lookup_insert (table : AList fun _ : Ip => ℕ) (ip : Ip) (n : ℕ) (a : Ip) :
    ((table.insert ip n).lookup a).getD 0 = if a = ip then n else (table.lookup a).getD 0 := by
  split
  · next ha => rw [ha, AList.lookup_insert, Option.getD_some]
  · next ha => rw [AList.lookup_insert_ne ha]

/-- A zero after an entry was written is that entry or was there before. -/
theorem lookup_insert_eq_zero {table : AList fun _ : Ip => ℕ} {ip : Ip} {n : ℕ} {a : Ip}
    (h : (table.insert ip n).lookup a = some 0) : a = ip ∧ n = 0 ∨ a ≠ ip ∧ table.lookup a = some 0 := by
  by_cases ha : a = ip
  · rw [ha, AList.lookup_insert] at h
    exact .inl ⟨ha, Option.some.inj h⟩
  · rw [AList.lookup_insert_ne ha] at h
    exact .inr ⟨ha, h⟩

/-- The invariant of every run.  A zero in the table belongs to a drop that has yet to look
at the entry again, and a reserve under way saw fewer slots than its budget. -/
structure Inv (s : Handshakes Ip) : Prop where
  handshakes : s.handshakes = s.live
  small : s.handshakes < 2 ^ 64
  table : ∀ ip, s.slotsAt ip = s.countedAt ip + s.reservedAt ip
  limit : ∀ ip, s.slotsAt ip ≤ maxHandshakesPerIp
  zero : ∀ ip, s.handshakesPerIp.lookup ip = some 0 → ⟨ip, .emptied⟩ ∈ s.slots
  budget : ∀ ip budget, s.reserving = .loaded ip budget ∨ s.reserving = .counted ip budget →
    s.handshakes < budget ∧ budget < 2 ^ 64

/-- No handshake is under way. -/
theorem inv_start : Inv (start : Handshakes Ip) where
  handshakes := rfl
  small := Nat.two_pow_pos 64
  table _ := rfl
  limit _ := Nat.zero_le _
  zero _ h := by cases h
  budget _ _ h := by rcases h with h | h <;> cases h

/-- A budget that is read takes no slot. -/
theorem Inv.load {s : Handshakes Ip} (h : Inv s) (hidle : s.reserving = .idle) {ip : Ip} {budget : ℕ}
    (hbudget : budget < 2 ^ 64) : Inv (s.load ip budget) := by
  unfold Handshakes.load
  split
  · exact h
  · next hlt =>
    refine ⟨h.handshakes, h.small, fun a => ?_, h.limit, h.zero, ?_⟩
    · have := h.table a
      simp only [reservedAt, hidle] at this ⊢
      exact this
    · rintro a b (hr | hr)
      · cases hr
        exact ⟨Nat.lt_of_not_le hlt, hbudget⟩
      · cases hr

/-- A slot in the table comes before its count. -/
theorem Inv.count {s : Handshakes Ip} (h : Inv s) {ip : Ip} {budget : ℕ}
    (hloaded : s.reserving = .loaded ip budget) : Inv (s.count ip budget) := by
  have hb := h.budget ip budget (.inl hloaded)
  have htable (a : Ip) : s.slotsAt a = s.countedAt a := by
    rw [h.table a, reservedAt, hloaded, Nat.add_zero]
  by_cases hfull : maxHandshakesPerIp ≤ (s.handshakesPerIp.lookup ip).getD 0
  · have hat (a : Ip) : (s.count ip budget).slotsAt a = s.slotsAt a := by
      rw [Handshakes.count, if_pos hfull, slotsAt, getD_lookup_insert]
      split
      · next ha => rw [ha, slotsAt]
      · rfl
    rw [Handshakes.count, if_pos hfull] at hat ⊢
    refine ⟨h.handshakes, h.small, fun a => ?_, fun a => ?_, fun a hzero => ?_, ?_⟩
    · rw [hat, htable]
      rfl
    · rw [hat]
      exact h.limit a
    · rcases lookup_insert_eq_zero hzero with ⟨-, h0⟩ | ⟨-, h0⟩
      · rw [h0] at hfull
        exact absurd hfull (by decide)
      · exact h.zero a h0
    · rintro a b (hr | hr) <;> cases hr
  · have hat (a : Ip) : (s.count ip budget).slotsAt a = s.slotsAt a + if ip = a then 1 else 0 := by
      rw [Handshakes.count, if_neg hfull, slotsAt, getD_lookup_insert]
      by_cases ha : a = ip
      · rw [if_pos ha, if_pos ha.symm, ha, slotsAt]
      · rw [if_neg ha, if_neg (Ne.symm ha), slotsAt, Nat.add_zero]
    rw [Handshakes.count, if_neg hfull] at hat ⊢
    refine ⟨h.handshakes, h.small, fun a => ?_, fun a => ?_, fun a hzero => ?_, ?_⟩
    · rw [hat, htable]
      rfl
    · rw [hat]
      split
      · next ha =>
        rw [← ha]
        exact Nat.lt_of_not_le hfull
      · exact h.limit a
    · rcases lookup_insert_eq_zero hzero with ⟨-, h0⟩ | ⟨-, h0⟩
      · cases h0
      · exact h.zero a h0
    · rintro a b (hr | hr) <;> cases hr
      exact hb

/-- The count follows the table. -/
theorem Inv.add {s : Handshakes Ip} (h : Inv s) {ip : Ip} {budget : ℕ}
    (hcounted : s.reserving = .counted ip budget) : Inv (s.add ip) := by
  obtain ⟨hlt, hbudget⟩ := h.budget ip budget (.inr hcounted)
  have hsmall : s.handshakes + 1 < 2 ^ 64 := by omega
  refine ⟨?_, ?_, fun a => ?_, h.limit, fun a hzero => List.mem_append_left _ (h.zero a hzero), ?_⟩
  · simp only [Handshakes.add, live, List.countP_append]
    rw [Nat.mod_eq_of_lt hsmall, h.handshakes]
    rfl
  · exact Nat.mod_lt _ (by decide)
  · have := h.table a
    simp only [reservedAt, hcounted] at this
    simp only [slotsAt, countedAt, reservedAt, Handshakes.add, List.countP_append] at this ⊢
    rw [this]
    by_cases ha : ip = a <;> simp [ha]
  · rintro a b (hr | hr) <;> cases hr

/-- A slot that is released is counted until it is removed. -/
theorem Inv.release {s : Handshakes Ip} (h : Inv s) {k : ℕ} {ip : Ip}
    (hk : s.slots[k]? = some ⟨ip, .held⟩) : Inv (s.release k ip) := by
  have hlive := countP_setStage hk .released fun slot => slot.stage = .held
  have hheld := h.handshakes
  have hsmall := h.small
  simp only [decide_true, if_true, reduceCtorEq, decide_false, Bool.false_eq_true, if_false] at hlive
  rw [live] at hheld
  have heq : s.release k ip = { s with handshakes := s.handshakes - 1, slots := s.setStage k ip .released } := by
    rw [Handshakes.release, show (s.handshakes + (2 ^ 64 - 1)) % 2 ^ 64 = s.handshakes - 1 by omega]
  rw [heq]
  refine ⟨?_, ?_, fun a => ?_, h.limit, fun a hzero => ?_, fun a b hr => ?_⟩
  · simp only [live]
    omega
  · exact Nat.lt_of_le_of_lt (Nat.sub_le _ _) hsmall
  · have := countP_setStage hk .released fun slot => slot.ip = a ∧ (slot.stage = .held ∨ slot.stage = .released)
    simp only [true_or, or_true, and_true] at this
    exact (h.table a).trans (congrArg (· + s.reservedAt a) (Nat.add_right_cancel this).symm)
  · exact mem_setStage hk _ (h.zero a hzero) (by simp)
  · obtain ⟨hlt, hbudget⟩ := h.budget a b hr
    exact ⟨Nat.lt_of_le_of_lt (Nat.sub_le _ _) hlt, hbudget⟩

/-- A slot that is removed is counted until it is discounted. -/
theorem Inv.remove {s : Handshakes Ip} (h : Inv s) {k : ℕ} {ip : Ip}
    (hk : s.slots[k]? = some ⟨ip, .emptied⟩) : Inv (s.remove k ip) := by
  have hlive := countP_setStage hk .gone fun slot => slot.stage = .held
  simp only [reduceCtorEq, decide_false, Bool.false_eq_true, if_false, Nat.add_zero] at hlive
  have hcounted (a : Ip) := countP_setStage hk .gone fun slot =>
    slot.ip = a ∧ (slot.stage = .held ∨ slot.stage = .released)
  simp only [reduceCtorEq, or_false, and_false, decide_false, Bool.false_eq_true, if_false, Nat.add_zero]
    at hcounted
  have hat (a : Ip) : (s.remove k ip).slotsAt a = s.slotsAt a := by
    simp only [slotsAt, Handshakes.remove]
    split
    · next hzero =>
      by_cases ha : a = ip
      · rw [ha, AList.lookup_erase, hzero]
        rfl
      · rw [AList.lookup_erase_ne ha]
    · rfl
  refine ⟨h.handshakes.trans hlive.symm, h.small, fun a => ?_, fun a => ?_, fun a hzero => ?_, h.budget⟩
  · rw [hat, h.table a]
    exact congrArg (· + s.reservedAt a) (hcounted a).symm
  · rw [hat]
    exact h.limit a
  · -- the entry of `ip` is not zero any more, so the drop over here is not the one that is owed
    have hne : a ≠ ip ∧ s.handshakesPerIp.lookup a = some 0 := by
      simp only [Handshakes.remove] at hzero
      split at hzero
      · by_cases ha : a = ip
        · rw [ha, AList.lookup_erase] at hzero
          cases hzero
        · rw [AList.lookup_erase_ne ha] at hzero
          exact ⟨ha, hzero⟩
      · next hip =>
        refine ⟨?_, hzero⟩
        rintro rfl
        exact hip hzero
    exact mem_setStage hk _ (h.zero a hne.2) (by simp [hne.1])

/-- A slot whose drop did not reach the table is counted there. -/
theorem Inv.lookup_counted {s : Handshakes Ip} (h : Inv s) {slot : HandshakeSlot Ip} (hmem : slot ∈ s.slots)
    (hstage : slot.stage = .held ∨ slot.stage = .released) :
    ∃ n, s.handshakesPerIp.lookup slot.ip = some (n + 1) := by
  have hpos : 0 < s.countedAt slot.ip := List.countP_pos_iff.2 ⟨slot, hmem, by simpa using hstage⟩
  have htable := h.table slot.ip
  rw [slotsAt] at htable
  cases hlookup : s.handshakesPerIp.lookup slot.ip with
  | none =>
    rw [hlookup, Option.getD_none] at htable
    omega
  | some n =>
    rw [hlookup, Option.getD_some] at htable
    exact ⟨n - 1, congrArg some (by omega)⟩

/-- The count follows the slot. -/
theorem Inv.discount {s : Handshakes Ip} (h : Inv s) {k : ℕ} {ip : Ip}
    (hk : s.slots[k]? = some ⟨ip, .released⟩) : Inv (s.discount k ip) := by
  obtain ⟨n, hlookup⟩ := h.lookup_counted (List.mem_of_getElem? hk) (.inr rfl)
  replace hlookup : s.handshakesPerIp.lookup ip = some (n + 1) := hlookup
  set stage : SlotStage := if n = 0 then .emptied else .gone with hstage
  have hnot : ¬(stage = .held ∨ stage = .released) := by
    rw [hstage]
    split <;> simp
  have heq : s.discount k ip =
      { s with handshakesPerIp := s.handshakesPerIp.insert ip n, slots := s.setStage k ip stage } := by
    rw [Handshakes.discount, hlookup]
    rfl
  have hlive := countP_setStage hk stage fun slot => slot.stage = .held
  simp only [reduceCtorEq, decide_false, Bool.false_eq_true, if_false, Nat.add_zero, (not_or.1 hnot).1] at hlive
  have hat (a : Ip) : (s.discount k ip).slotsAt a + (if ip = a then 1 else 0) = s.slotsAt a := by
    rw [heq, slotsAt, getD_lookup_insert, slotsAt]
    by_cases ha : a = ip
    · rw [if_pos ha, if_pos ha.symm, ha, hlookup, Option.getD_some]
    · rw [if_neg ha, if_neg (Ne.symm ha), Nat.add_zero]
  have hcounted (a : Ip) : (s.discount k ip).countedAt a + (if ip = a then 1 else 0) = s.countedAt a := by
    have := countP_setStage hk stage fun slot => slot.ip = a ∧ (slot.stage = .held ∨ slot.stage = .released)
    simp only [hnot, reduceCtorEq, false_or, and_true, and_false, decide_eq_true_eq, decide_false,
      Bool.false_eq_true, if_false, Nat.add_zero] at this
    rw [heq]
    exact this
  have hreserved (a : Ip) : (s.discount k ip).reservedAt a = s.reservedAt a := by
    rw [heq]
    rfl
  refine ⟨?_, ?_, fun a => ?_, fun a => ?_, fun a hzero => ?_, fun a b hr => ?_⟩
  · rw [heq]
    exact h.handshakes.trans hlive.symm
  · rw [heq]
    exact h.small
  · have := h.table a
    rw [← hat a, ← hcounted a] at this
    rw [hreserved]
    omega
  · have := h.limit a
    rw [← hat a] at this
    omega
  · rw [heq] at hzero ⊢
    rcases lookup_insert_eq_zero hzero with ⟨rfl, hn⟩ | ⟨hne, h0⟩
    · have hlt := (List.getElem?_eq_some_iff.1 hk).1
      rw [hstage, if_pos hn]
      exact List.mem_set hlt _
    · exact mem_setStage hk _ (h.zero a h0) (by simp [hne])
  · rw [heq] at hr ⊢
    exact h.budget a b hr

/-- One access keeps the invariant. -/
theorem Inv.step {s s' : Handshakes Ip} {action : HandshakeAction Ip} (h : Inv s)
    (hstep : s.step action = some s') : Inv s' := by
  obtain ⟨ip, maxClients, maxUnauthClients, hr, rfl⟩ | ⟨ip, budget, hr, rfl⟩ | ⟨ip, budget, hr, rfl⟩ |
    ⟨k, ip, hk, rfl⟩ | ⟨k, ip, hk, rfl⟩ | ⟨k, ip, hk, rfl⟩ := step_cases hstep
  · exact h.load hr (maxHandshakes_lt _ _)
  · exact h.count hr
  · exact h.add hr
  · exact h.release hk
  · exact h.discount hk
  · exact h.remove hk

/-! ### The account -/

/-- The account of a state: nothing can underflow, no address is over its limit, a reserve
that is about to take its slot finds the counter below its budget, and while no drop is in
progress the counter and the table are what the slots say. -/
structure Accounted (s : Handshakes Ip) : Prop where
  release : ∀ slot ∈ s.slots, slot.stage = .held → 0 < s.handshakes
  discount : ∀ slot ∈ s.slots, slot.stage = .released → ∃ n, s.handshakesPerIp.lookup slot.ip = some (n + 1)
  perIp : ∀ ip n, s.handshakesPerIp.lookup ip = some n → n ≤ maxHandshakesPerIp
  budget : ∀ ip budget, s.reserving = .counted ip budget → s.handshakes < budget
  counter : s.NoDrop → s.handshakes = s.live
  table : s.NoDrop → ∀ ip, s.slotsAt ip = s.liveAt ip + s.reservedAt ip
  noZero : s.NoDrop → ∀ ip, s.handshakesPerIp.lookup ip ≠ some 0

/-- Without a drop under way, what is counted is live. -/
theorem countedAt_eq_liveAt {s : Handshakes Ip} (h : s.NoDrop) (ip : Ip) : s.countedAt ip = s.liveAt ip := by
  refine List.countP_congr fun slot hslot => ?_
  rcases h slot hslot with hs | hs <;> simp [hs]

/-- **The counts are those of the slots**, up to those under way. -/
theorem Inv.accounted {s : Handshakes Ip} (h : Inv s) : Accounted s where
  release slot hslot hheld := by
    rw [h.handshakes]
    exact List.countP_pos_iff.2 ⟨slot, hslot, by simpa using hheld⟩
  discount slot hslot hreleased := h.lookup_counted hslot (.inr hreleased)
  perIp ip n hn := by
    have := h.limit ip
    rwa [slotsAt, hn, Option.getD_some] at this
  budget ip budget hr := (h.budget ip budget (.inr hr)).1
  counter _ := h.handshakes
  table hquiet ip := by rw [h.table ip, countedAt_eq_liveAt hquiet]
  noZero hquiet ip hzero := by
    rcases hquiet _ (h.zero ip hzero) with hs | hs <;> cases hs

/-- **The two counters account for the slots in every interleaving** of the reserves of the
accept loop with the drops: a reserve between its two increments is in the table already. -/
theorem handshakes_accounted {s : Handshakes Ip} {actions : List (HandshakeAction Ip)}
    (h : exec step start actions = some s) : Accounted s :=
  (exec_induct (fun _ _ _ hinv _ hstep => Inv.step hinv hstep) inv_start (meets_true _ _ _) h).accounted

/-- A drop that meets a reserve of its address: the entry falls to zero, is counted up again,
and the removal leaves it. -/
def raceActions : List (HandshakeAction ℕ) :=
  [.load 7 1 0, .count, .add, .release 0, .discount 0, .load 7 1 0, .count, .remove 0, .add]

/-- After this run one slot is held, and it is counted once. -/
theorem handshakes_accounted_race :
    ((exec step start raceActions).map fun s => (s.handshakes, s.slotsAt 7, s.live)) = some (1, 1, 1) ∧
      ∀ s, exec step start raceActions = some s → Accounted s :=
  ⟨by decide +kernel, fun _ h => handshakes_accounted h⟩

/-- **The table runs ahead of the slots**: after the second access of a reserve the address has
one slot in the table and none is held, though no drop is in progress. -/
theorem table_ahead_of_slots :
    ¬∀ (actions : List (HandshakeAction ℕ)) (s : Handshakes ℕ), exec step start actions = some s → s.NoDrop →
      s.handshakes = s.live ∧ (∀ ip, s.slotsAt ip = s.liveAt ip) ∧ ∀ ip, s.handshakesPerIp.lookup ip ≠ some 0 := by
  intro h
  obtain ⟨s, hs⟩ : ∃ s, exec step start [.load 7 1 0, .count] = some s := ⟨_, rfl⟩
  have hfacts : (exec step start [.load 7 1 0, .count]).map
      (fun s : Handshakes ℕ => (s.slots, s.slotsAt 7, s.liveAt 7)) = some ([], 1, 0) := by decide +kernel
  rw [hs, Option.map_some, Option.some.injEq, Prod.mk.injEq, Prod.mk.injEq] at hfacts
  obtain ⟨hslots, hat, hlive⟩ := hfacts
  have hquiet : s.NoDrop := by
    rw [NoDrop, hslots]
    exact fun _ hmem => nomatch hmem
  have := (h _ s hs hquiet).2.1 7
  rw [hat, hlive] at this
  exact absurd this (by decide)

end Handshakes

end Why2
