/-
# Streams of delimited messages

A reader takes a message off the front of a list, and says what is behind it.  On a stream it is
given what has arrived so far, which may end in the middle of a message, and it may be given more
than one message.

* `Stable` — what is behind a message does not change how it is read;
* `Delimited` — where the bytes of a message end, whatever is behind them;
* `Stable.eq_of_prefix` — what is read of a part of a stream is what is read of the stream;
* `Stable.not_cut` — a message that is cut off is not read;
* `Stable.next` — on a stream of delimited messages with a cut one at its end, the next message is
  read, and all of it.
-/
import Mathlib.Data.List.Basic
import Mathlib.Tactic.Common

namespace Framing

variable {β μ : Type*}

/-- What is behind a message does not change how it is read, and there is no message in an empty
list. -/
structure Stable (read : List β → Option (μ × List β)) : Prop where
  append : ∀ {s rest : List β} {m : μ}, read s = some (m, rest) →
    ∀ t, read (s ++ t) = some (m, rest ++ t)
  nil : read [] = none

/-- If a message is read off these bytes, it ends where they end. -/
def Delimited (read : List β → Option (μ × List β)) (bytes : List β) : Prop :=
  ∀ (t rest : List β) (m : μ), read (bytes ++ t) = some (m, rest) → rest = t

/-- The bytes are cut off from the front of a message. -/
def Cut (read : List β → Option (μ × List β)) (tail : List β) : Prop :=
  tail = [] ∨ ∃ bytes, Delimited read bytes ∧ tail <+: bytes ∧ tail ≠ bytes

variable {read : List β → Option (μ × List β)}

/-- **Parts of a stream.**  A message that is read of a part of a stream is the one that is read of
the stream, and it was there as a whole. -/
theorem Stable.eq_of_prefix (h : Stable read) {bytes t s rest : List β} {m : μ}
    (hbytes : Delimited read bytes) (hs : s <+: bytes ++ t) (hread : read s = some (m, rest)) :
    read (bytes ++ t) = some (m, t) ∧ s = bytes ++ rest := by
  obtain ⟨later, hlater⟩ := hs
  have hwhole : read (bytes ++ t) = some (m, rest ++ later) := by
    rw [← hlater]
    exact h.append hread later
  have hrest : rest ++ later = t := hbytes t _ m hwhole
  refine ⟨by rw [hwhole, hrest], ?_⟩
  apply (List.append_left_inj later).mp
  rw [hlater, List.append_assoc, hrest]

/-- A message that is cut off is not read. -/
theorem Stable.not_cut (h : Stable read) {tail s : List β} (htail : Cut read tail)
    (hs : s <+: tail) : read s = none := by
  rw [Option.eq_none_iff_forall_ne_some]
  rintro ⟨m, rest⟩ hread
  obtain rfl | ⟨bytes, hbytes, hcut, hne⟩ := htail
  · rw [List.prefix_nil.mp hs, h.nil] at hread
    cases hread
  · obtain ⟨later, hlater⟩ := hs.trans hcut
    have hwhole : read (bytes ++ []) = some (m, rest ++ later) := by
      rw [List.append_nil, ← hlater]
      exact h.append hread later
    -- Nothing of the message is missing, so nothing was cut off.
    obtain ⟨-, rfl⟩ := List.append_eq_nil_iff.mp (hbytes [] _ m hwhole)
    apply hne
    rw [List.append_nil] at hlater
    exact hcut.eq_of_length_le (by rw [← hlater]; exact hs.length_le)

/-- **The next message.**  What is read of the rest of a stream is its next message, and all of
it. -/
theorem Stable.next (h : Stable read) {messages : List (List β)} {tail s rest : List β} {m : μ}
    (hmessages : ∀ bytes ∈ messages, Delimited read bytes) (htail : Cut read tail)
    (hs : s <+: messages.flatten ++ tail) (hread : read s = some (m, rest)) :
    ∃ bytes later, messages = bytes :: later ∧
      read (bytes ++ (later.flatten ++ tail)) = some (m, later.flatten ++ tail) ∧
      s = bytes ++ rest := by
  cases messages with
  | nil =>
    have hnone : read s = none := h.not_cut htail hs
    rw [hnone] at hread
    cases hread
  | cons bytes later =>
    have hfront : s <+: bytes ++ (later.flatten ++ tail) := by
      rwa [List.flatten_cons, List.append_assoc] at hs
    obtain ⟨hwhole, hsplit⟩ := h.eq_of_prefix (hmessages bytes List.mem_cons_self) hfront hread
    exact ⟨bytes, later, rfl, hwhole, hsplit⟩

end Framing
