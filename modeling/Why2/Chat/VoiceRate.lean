/-
# The rate of voice packets

`Connection::take_credit` and the packet rate of `listen_client_voice`
(`chat/src/network/voice/server.rs`): each voice session has a token bucket that
its packets pay from, the dropped ones too.  Credit, rate and burst are exact
here, and time is in seconds.  A packet is handled at the instant it arrives,
so the two readings of the clock in `take_credit` are one.

A session's bucket is one of `Lib.TokenBucket` (`takeCredit_eq_pay`), full when
the session is bound; what it accepts in a window and of a sender that keeps to
the rate follows from that (`voice_rate_limited`).
-/

import Why2.Lib.TokenBucket
import Why2.Chat.Voice

namespace Why2

open Lib

/-- What `take_credit` reads and writes of a `Connection`. -/
structure VoiceCredit where
  credit : ℚ
  refill : ℚ

namespace VoiceCredit

/-- The credit of a session that has just been bound. -/
def bind (now : ℚ) : VoiceCredit := ⟨voicePacketBurst, now⟩

/-- `take_credit`.  `elapsed` is never negative. -/
def takeCredit (conn : VoiceCredit) (now : ℚ) : Bool × VoiceCredit :=
  let credit := min (conn.credit + max (now - conn.refill) 0 * voicePacketRate) voicePacketBurst - 1
  (0 ≤ credit, ⟨credit, now⟩)

/-- The packets of a session that come to the rate check, with the time of each and whether
it was accepted. -/
def answers : VoiceCredit → List ℚ → List (ℚ × Bool)
  | _, [] => []
  | conn, now :: arrivals => (now, (conn.takeCredit now).1) :: answers (conn.takeCredit now).2 arrivals

/-- The packets accepted in the window of length `length` from `a` on. -/
def acceptedIn (a length : ℚ) (packets : List (ℚ × Bool)) : ℕ :=
  packets.countP fun packet => packet.2 && decide (a ≤ packet.1 ∧ packet.1 ≤ a + length)

/-- The bucket of a session. -/
def bucket (conn : VoiceCredit) : Bucket ℚ := ⟨conn.credit, conn.refill⟩

theorem takeCredit_eq_pay {conn : VoiceCredit} {now : ℚ} (h : conn.refill ≤ now) :
    (conn.takeCredit now).2.bucket = conn.bucket.pay voicePacketRate voicePacketBurst now ∧
      (conn.takeCredit now).1 = decide (0 ≤ (conn.bucket.pay voicePacketRate voicePacketBurst now).credit) := by
  simp only [takeCredit, bucket, Bucket.pay, max_eq_left (sub_nonneg.2 h)]
  exact ⟨trivial, decide_eq_decide.2 Iff.rfl⟩

/-- The session answers as its bucket does. -/
theorem answers_eq {conn : VoiceCredit} {arrivals : List ℚ}
    (h : (conn.refill :: arrivals).Pairwise (· ≤ ·)) :
    conn.answers arrivals = conn.bucket.answers voicePacketRate voicePacketBurst arrivals := by
  induction arrivals generalizing conn with
  | nil => rfl
  | cons now arrivals ih =>
    obtain ⟨hfirst, hrest⟩ := List.pairwise_cons.1 h
    obtain ⟨hbucket, hanswer⟩ := takeCredit_eq_pay (hfirst now List.mem_cons_self)
    have hnext : (conn.takeCredit now).2.answers arrivals = _ := ih hrest
    rw [answers, Bucket.answers, hanswer, hnext, hbucket]

theorem acceptedIn_eq (a length : ℚ) (packets : List (ℚ × Bool)) :
    acceptedIn a length packets = Bucket.accepted a (a + length) packets :=
  List.countP_congr fun packet _ => by simp

/-- **The voice rate limit.**  Whatever the arrivals, a window of length `length` sees at most
`MAX_PACKET_BURST + MAX_PACKET_RATE * length` packets of a session accepted, and a sender that
never exceeds the rate has none refused. -/
theorem voice_rate_limited (bound : ℚ) (arrivals : List ℚ) (hsorted : (bound :: arrivals).Pairwise (· ≤ ·)) :
    (∀ a length : ℚ, 0 ≤ length →
      (acceptedIn a length ((bind bound).answers arrivals) : ℚ) ≤ voicePacketBurst + voicePacketRate * length) ∧
    (arrivals.IsChain (fun now next => 1 / voicePacketRate ≤ next - now) →
      ∀ packet ∈ (bind bound).answers arrivals, packet.2 = true) := by
  have hrate : (0 : ℚ) < voicePacketRate := by norm_num [voicePacketRate]
  have hburst : (1 : ℚ) ≤ voicePacketBurst := by norm_num [voicePacketBurst, voicePacketRate]
  have heq : (bind bound).answers arrivals = _ := answers_eq hsorted
  rw [heq]
  constructor
  · intro a length hlength
    have hwindow : (Bucket.accepted a (a + length)
        ((bind bound).bucket.answers voicePacketRate voicePacketBurst arrivals) : ℚ) ≤ _ :=
      Bucket.accepted_le_window hrate.le (zero_le_one.trans hburst) (le_add_of_nonneg_right hlength) hsorted
    rw [add_sub_cancel_left, mul_comm] at hwindow
    rwa [acceptedIn_eq]
  · intro hspaced
    cases arrivals with
    | nil => exact fun packet hpacket => nomatch hpacket
    | cons now arrivals =>
      refine Bucket.answers_of_spaced hrate hburst ?_ hspaced
      have helapsed : 0 ≤ (now - bound) * voicePacketRate :=
        mul_nonneg (sub_nonneg.2 ((List.pairwise_cons.1 hsorted).1 now List.mem_cons_self)) hrate.le
      exact hburst.trans (le_add_of_nonneg_right helapsed)

/-- A burst of forty at once, of which the bucket pays for thirty-seven, and three packets at
the rate. -/
theorem voice_rate_limited_burst :
    acceptedIn 0 0 ((bind 0).answers (List.replicate 40 0)) = 37 ∧
      (acceptedIn 0 0 ((bind 0).answers (List.replicate 40 0)) : ℚ) ≤ voicePacketBurst + voicePacketRate * 0 ∧
      ∀ packet ∈ (bind 0).answers [0, 1 / 75, 2 / 75], packet.2 = true :=
  ⟨by decide +kernel, (voice_rate_limited 0 (List.replicate 40 0) (by decide +kernel)).1 0 0 le_rfl,
    (voice_rate_limited 0 [0, 1 / 75, 2 / 75] (by decide +kernel)).2 (by decide +kernel)⟩

end VoiceCredit

end Why2
