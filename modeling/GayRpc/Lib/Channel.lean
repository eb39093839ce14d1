import GayRpc.Lib.Automaton
import Mathlib.Data.List.Infix

/-!
# Channels

A queue that takes what is sent as long as it is open, and gives it back in that order. When it is
closed, it may lose what was sent last: a suffix of what it holds, of any length.

    sent x        x is put behind the others, or is lost if the channel is closed
    received x    x was the first, and is taken off
    closed        the channel takes nothing any more, and the end of the queue may be gone
    failed        is never shown

It is meant as the specification of a transport. What it promises is read off a list of events:
`receipts` are those that were received, `accepted` those that were sent before the channel was closed, and
the first are a prefix of the second in every run (`inOrder_of_reaches`). A transport that simulates
a channel, with its own breakdowns as the event `failed`, keeps all of that and never breaks down.
-/

inductive ChannelEvent (M : Type) where
  | sent (m : M)
  | closed
  | received (m : M)
  /-- the receiving end broke down -/
  | failed
  deriving DecidableEq

namespace ChannelEvent

variable {M : Type}

def receipts : List (ChannelEvent M) → List M
  | [] => []
  | .received m :: es => m :: receipts es
  | .sent _ :: es => receipts es
  | .closed :: es => receipts es
  | .failed :: es => receipts es

/-- What was sent until the channel was closed. -/
def accepted : List (ChannelEvent M) → List M
  | [] => []
  | .sent m :: es => m :: accepted es
  | .closed :: _ => []
  | .received _ :: es => accepted es
  | .failed :: es => accepted es

theorem receipts_append (es es' : List (ChannelEvent M)) :
    receipts (es ++ es') = receipts es ++ receipts es' := by
  induction es with
  | nil => rfl
  | cons e es ih => cases e <;> simp [receipts, ih]

theorem accepted_append {es : List (ChannelEvent M)} (h : .closed ∉ es) (es' : List (ChannelEvent M)) :
    accepted (es ++ es') = accepted es ++ accepted es' := by
  induction es with
  | nil => rfl
  | cons e es ih =>
      have hes := ih fun hmem => h (List.mem_cons_of_mem e hmem)
      cases e with
      | closed => exact absurd List.mem_cons_self h
      | _ => simp [accepted, hes]

/-- Once it was closed, nothing is accepted any more. -/
theorem accepted_append_closed {es : List (ChannelEvent M)} (h : .closed ∈ es)
    (es' : List (ChannelEvent M)) : accepted (es ++ es') = accepted es := by
  induction es with
  | nil => cases h
  | cons e es ih =>
      cases e with
      | closed => rfl
      | _ =>
          have hmem : .closed ∈ es := by simpa using h
          simp [accepted, ih hmem]

theorem accepted_append_other {e : ChannelEvent M} (h : ∀ m, e ≠ .sent m) (es : List (ChannelEvent M)) :
    accepted (es ++ [e]) = accepted es := by
  by_cases hclosed : .closed ∈ es
  · exact accepted_append_closed hclosed _
  · have hnil : accepted [e] = [] := by
      cases e with
      | sent m => exact absurd rfl (h m)
      | _ => rfl
    rw [accepted_append hclosed, hnil, List.append_nil]

end ChannelEvent

/-- A channel, and what was sent and has not been received. -/
structure Channel (M : Type) where
  isOpen : Bool := true
  queue : List M := []

namespace Channel

open ChannelEvent

variable {M : Type}

inductive Step : Channel M → List (ChannelEvent M) → Channel M → Prop
  | send {q : List M} (m : M) : Step ⟨true, q⟩ [.sent m] ⟨true, q ++ [m]⟩
  | lose {q : List M} (m : M) : Step ⟨false, q⟩ [.sent m] ⟨false, q⟩
  | close {o : Bool} {q : List M} (n : ℕ) : Step ⟨o, q⟩ [.closed] ⟨false, q.take n⟩
  | receive {o : Bool} {q : List M} (m : M) : Step ⟨o, m :: q⟩ [.received m] ⟨o, q⟩

variable (M) in
def automaton : Automaton (Channel M) (ChannelEvent M) where
  init c := c = {}
  step := Step

/-- How what was received fits what was sent. -/
structure InOrder (es : List (ChannelEvent M)) (c : Channel M) : Prop where
  received : receipts es ++ c.queue <+: accepted es
  all : c.isOpen = true → receipts es ++ c.queue = accepted es
  isOpen_iff : c.isOpen = true ↔ .closed ∉ es
  failed : .failed ∉ es

theorem InOrder.step {es es' : List (ChannelEvent M)} {c c' : Channel M} (h : InOrder es c)
    (hstep : Step c es' c') : InOrder (es ++ es') c' := by
  cases hstep with
  | send m =>
      -- while the channel is open everything accepted is received or still under way
      have hopen : .closed ∉ es := h.isOpen_iff.mp rfl
      have hall := h.all rfl
      refine ⟨?_, fun _ => ?_, by simp [hopen], by simp [h.failed]⟩
      all_goals
        rw [receipts_append, accepted_append hopen, ← hall]
        simp [receipts, accepted]
  | lose m =>
      -- what is sent after the closing is neither accepted nor received
      have hclosed : .closed ∈ es := by simpa using h.isOpen_iff
      refine ⟨?_, nofun, by simp [hclosed], by simp [h.failed]⟩
      rw [receipts_append, accepted_append_closed hclosed]
      simpa [receipts] using h.received
  | @close o q n =>
      refine ⟨?_, nofun, by simp, by simp [h.failed]⟩
      -- closing cuts the queue short: what still arrives is a prefix of it
      have htake : receipts es ++ q.take n <+: receipts es ++ q :=
        (List.prefix_append_right_inj _).mpr (List.take_prefix n q)
      rw [accepted_append_other (by simp), receipts_append]
      simpa [receipts] using htake.trans h.received
  | receive m =>
      refine ⟨?_, fun hopen => ?_, by simpa using h.isOpen_iff, by simp [h.failed]⟩
      · rw [accepted_append_other (by simp), receipts_append]
        simpa [receipts] using h.received
      · rw [accepted_append_other (by simp), receipts_append]
        simpa [receipts] using h.all hopen

/-- **First in, first out.** What is received is the beginning of what was sent before the channel was
closed; while it is open, nothing else is missing than what it holds. -/
theorem inOrder_of_reaches {es : List (ChannelEvent M)} {c : Channel M}
    (h : (automaton M).Reaches es c) : InOrder es c := by
  refine h.invariant ?_ fun _ _ _ _ hinv hstep => hinv.step hstep
  rintro _ rfl
  exact ⟨List.prefix_rfl, fun _ => rfl, by simp, by simp⟩

end Channel
