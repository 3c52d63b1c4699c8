/-
# The texts of messages

What the server does with a text before it is stored or passed on: `receive`
(`chat/src/network/mod.rs`) takes the control characters out, and the handlers
`trim` it.  Both leave a part of the characters, and `trim` does not make a text
longer.
-/

import Mathlib.Data.List.DropRight

namespace Why2

/-- `char::is_whitespace`: the characters with the property `White_Space`. -/
def isWhitespace (c : Char) : Bool :=
  ('\t' ≤ c && c ≤ '\r') || c = ' ' || c = '\u0085' || c = '\u00a0' || c = '\u1680' ||
    ('\u2000' ≤ c && c ≤ '\u200a') || c = '\u2028' || c = '\u2029' || c = '\u202f' || c = '\u205f' ||
    c = '\u3000'

/-- `char::is_control`: the general category `Cc`. -/
def isControl (c : Char) : Bool := c ≤ '\u001f' || ('\u007f' ≤ c && c ≤ '\u009f')

/-- `str::trim`. -/
def trim (s : String) : String :=
  String.ofList ((s.toList.dropWhile isWhitespace).rdropWhile isWhitespace)

/-- What the stripping of control characters makes of one character. -/
def stripChar (c : Char) : Option Char :=
  if c = '\n' then some '\n' else if c = '\t' then some ' ' else if isControl c then none else some c

/-- The stripping of control characters in `receive`. -/
def strip (s : String) : String :=
  if s.toList.any fun c => isControl c && c ≠ '\n' then String.ofList (s.toList.filterMap stripChar) else s

/-- No control character but the newline. -/
def Clean (s : String) : Prop := ∀ c ∈ s.toList, isControl c = true → c = '\n'

instance (s : String) : Decidable (Clean s) :=
  inferInstanceAs (Decidable (∀ c ∈ s.toList, isControl c = true → c = '\n'))

theorem stripChar_clean {c d : Char} (h : stripChar c = some d) (hcontrol : isControl d = true) : d = '\n' := by
  unfold stripChar at h
  split_ifs at h with hnewline htab hc
  · exact (Option.some.inj h).symm
  · rw [← Option.some.inj h] at hcontrol
    exact absurd hcontrol (by decide)
  · rw [← Option.some.inj h] at hcontrol
    exact absurd hcontrol hc

/-- **A stripped text is clean.** -/
theorem clean_strip (s : String) : Clean (strip s) := by
  unfold strip
  split_ifs with hany
  · intro d hd hcontrol
    rw [String.toList_ofList] at hd
    obtain ⟨c, _, hc⟩ := List.mem_filterMap.1 hd
    exact stripChar_clean hc hcontrol
  · intro c hc hcontrol
    by_contra hne
    exact hany (List.any_eq_true.2 ⟨c, hc, by rw [hcontrol, decide_eq_true hne]; rfl⟩)

/-- The text is what is trimmed, with something before and after. -/
theorem trim_append (s : String) : ∃ first last, s = first ++ trim s ++ last := by
  obtain ⟨first, hfirst⟩ := List.dropWhile_suffix isWhitespace (l := s.toList)
  obtain ⟨last, hlast⟩ := List.rdropWhile_prefix isWhitespace (s.toList.dropWhile isWhitespace)
  refine ⟨String.ofList first, String.ofList last, ?_⟩
  rw [trim, ← String.ofList_append, ← String.ofList_append, List.append_assoc, hlast, hfirst,
    String.ofList_toList]

theorem utf8ByteSize_trim_le (s : String) : (trim s).utf8ByteSize ≤ s.utf8ByteSize := by
  obtain ⟨first, last, hs⟩ := trim_append s
  conv_rhs => rw [hs]
  rw [String.utf8ByteSize_append, String.utf8ByteSize_append]
  omega

theorem Clean.trim {s : String} (h : Clean s) : Clean (trim s) := by
  intro c hc
  obtain ⟨first, last, hs⟩ := trim_append s
  refine h c ?_
  rw [hs, String.toList_append, String.toList_append]
  exact List.mem_append_left _ (List.mem_append_right _ hc)

end Why2
