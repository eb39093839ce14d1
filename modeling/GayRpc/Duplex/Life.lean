import GayRpc.Duplex.EndToEnd
import GayRpc.Lib.Journey

/-!
# The life of a call

A call that has a handle is at one stage at any time, from the drawing of its id until the handle is
called. At most stages one thread has it in hand; in between its messages are on the wire, or a reply
object waits to be called. `OnItsWay` says what each stage means: where the stub of the call and its
messages are, what has been shown, and whether the flag of its reply object is set.

    drawn → waiting → asked → sent → arrived → opened
                                                  ↓
    done ← taken ← received ← returned ← answered ← answering

In the upper row the call is on its way to the method, in the lower one it is on its way back. Nobody has
it in hand at `sent` and `returned`, when the bytes of the message are on the wire, and at `opened`, when
the reply object is there and has not been called.

The stages are the places of a `Journey`. What happens to other calls, or to nothing at all, leaves a call at
its stage; the lemmas for that come first. The sections that move it are in `Duplex/Passage`.
-/

namespace GayRpc

theorem Side.decide_eq_iff {x y side : Side} :
    decide (y = side) = decide (x = side) ↔ y = x := by
  cases x <;> cases y <;> cases side <;> decide

/-- How far a call has got. -/
inductive CallStage where
  | new
  /-- it has no handle, and nothing will come back -/
  | oneWay
  /-- its id has been drawn -/
  | drawn
  /-- its stub is in the map -/
  | waiting
  /-- its request has been shown -/
  | asked
  /-- its request is on the wire -/
  | sent
  /-- its request has come in at the other side -/
  | arrived
  /-- there is a reply object for it -/
  | opened
  /-- the flag of the reply object is set -/
  | answering
  /-- its response has been shown -/
  | answered
  /-- its response is on the wire -/
  | returned
  /-- its response has come in -/
  | received
  /-- its stub is out of the map -/
  | taken
  /-- its handle has been called -/
  | done
  deriving DecidableEq

namespace CallStage

def rank : CallStage → ℕ
  | new => 0
  | oneWay => 0
  | drawn => 1
  | waiting => 2
  | asked => 3
  | sent => 4
  | arrived => 5
  | opened => 6
  | answering => 7
  | answered => 8
  | returned => 9
  | received => 10
  | taken => 11
  | done => 12

def inHands : CallStage → Bool
  | new | oneWay | sent | opened | returned | done => false
  | drawn | waiting | asked | arrived | answering | answered | received | taken => true

def waits (s : CallStage) : Bool := 2 ≤ s.rank && s.rank ≤ 10

/-! The two messages of a call take the same way, the request with `own`, the response without. -/

def ready (own : Bool) : CallStage := if own then waiting else answering

def shown (own : Bool) : CallStage := if own then asked else answered

def wire (own : Bool) : CallStage := if own then sent else returned

def come (own : Bool) : CallStage := if own then arrived else received

end CallStage

/-- From the first stage to the second, nothing happens but that something is shown. -/
structure OnlyShown (s s' : CallStage) : Prop where
  rank : 0 < s.rank ∧ 0 < s'.rank
  waits : s'.waits → s.waits
  wire : ∀ own, s' = CallStage.wire own ↔ s = CallStage.wire own
  opened : 6 ≤ s'.rank ↔ 6 ≤ s.rank
  answering : 7 ≤ s'.rank ↔ 7 ≤ s.rank

theorem onlyShown_shown (own : Bool) : OnlyShown (.ready own) (.shown own) := by
  cases own <;> constructor <;> decide

theorem onlyShown_done : OnlyShown .taken .done := by
  constructor <;> decide

/-- From the first stage to the second, nothing happens but to the bytes of the message. -/
structure OnlyCarried (s s' : CallStage) : Prop where
  rank : 0 < s.rank ∧ 0 < s'.rank
  waits : s'.waits → s.waits
  shown : ∀ own, (CallStage.shown own).rank ≤ s.rank ↔ (CallStage.shown own).rank ≤ s'.rank
  done : s = .done ↔ s' = .done
  opened : 6 ≤ s'.rank → 6 ≤ s.rank
  answering : 7 ≤ s.rank ↔ 7 ≤ s'.rank

theorem onlyCarried_wire (own : Bool) : OnlyCarried (.shown own) (.wire own) := by
  cases own <;> constructor <;> decide

theorem onlyCarried_come (own : Bool) : OnlyCarried (.wire own) (.come own) := by
  cases own <;> constructor <;> decide

/-- The stage of a call, and from `opened` on the number of its reply object. -/
structure Place where
  stage : CallStage
  object : ℕ

/-- The meta is that of a message which `x` sends on account of the call `q` of `side`: its request, if it
asks for a response, or a response to it. -/
def Concerns (side : Side) (q : UInt64) (x : Side) (rpcMeta : RpcMeta) : Bool :=
  if x = side then
    rpcMeta.type = .request && rpcMeta.requestInfo.sequenceId = q && rpcMeta.requestInfo.expectResponse
  else rpcMeta.type = .response && rpcMeta.responseInfo.sequenceId = q

/-- The event shows a message of `x` that concerns the call. -/
def DuplexEvent.announces {Msg : Type} (side : Side) (q : UInt64) (x : Side) : DuplexEvent Msg → Bool
  | .client y (.request rpcMeta _) => y = x && Concerns side q x rpcMeta
  | .service y (.response _ rpcMeta _) => y = x && Concerns side q x rpcMeta
  | _ => false

section life

variable {queue : PriorityQueue WaitResponseTimer WaitResponseTimer.le} {D H T Msg Ctx V : Type}

/-- What was received and not yet parsed, and what is on its way, in the direction away from `x`. -/
def Duplex.wire (x : Side) (d : Duplex queue D H T Msg V) : List UInt8 :=
  (d.peer x.other).held ++ (d.peer x).session.outgoing

theorem Duplex.wire_update {d : Duplex queue D H T Msg V} {x : Side} {p : Peer queue D H T Msg V}
    (hheld : p.held = (d.peer x).held) (hsession : p.session.outgoing = (d.peer x).session.outgoing)
    (y : Side) : (d.update x p).wire y = d.wire y := by
  have hheld' : ((d.update x p).peer y.other).held = (d.peer y.other).held :=
    update_proj (f := Peer.held) y.other hheld
  have hsession' : ((d.update x p).peer y).session.outgoing = (d.peer y).session.outgoing :=
    update_proj (f := fun p => p.session.outgoing) y hsession
  rw [wire, hheld', hsession']
  rfl

/-- Of one moment and a later one: reply objects only get more, and a call keeps the one it has got, which
was made after those that there were before. -/
structure Advances (side : Side) (d : Duplex queue D H T Msg V) (π : Place)
    (d' : Duplex queue D H T Msg V) (π' : Place) : Prop where
  replies : (d.peer side.other).server.replies ≤ (d'.peer side.other).server.replies
  kept : 6 ≤ π.stage.rank → 6 ≤ π'.stage.rank ∧ π'.object = π.object
  fresh : π.stage.rank < 6 → 6 ≤ π'.stage.rank → (d.peer side.other).server.replies ≤ π'.object

namespace Advances

variable {side : Side} {d d' d'' : Duplex queue D H T Msg V} {π π' π'' : Place}

theorem of_replies
    (h : (d.peer side.other).server.replies ≤ (d'.peer side.other).server.replies) :
    Advances side d π d' π :=
  ⟨h, fun hπ => ⟨hπ, rfl⟩, fun hlt hle => absurd hle (Nat.not_le_of_lt hlt)⟩

theorem refl : Advances side d π d π := of_replies (Nat.le_refl _)

theorem restage {s : CallStage}
    (h : (d.peer side.other).server.replies ≤ (d'.peer side.other).server.replies)
    (hrank : 6 ≤ π.stage.rank ↔ 6 ≤ s.rank) : Advances side d π d' ⟨s, π.object⟩ :=
  ⟨h, fun hπ => ⟨hrank.mp hπ, rfl⟩, fun hlt hle => absurd (hrank.mpr hle) (Nat.not_le_of_lt hlt)⟩

theorem trans (h : Advances side d π d' π') (h' : Advances side d' π' d'' π'') :
    Advances side d π d'' π'' where
  replies := h.replies.trans h'.replies
  kept hπ := by
    obtain ⟨hπ', hobject⟩ := h.kept hπ
    obtain ⟨hπ'', hobject'⟩ := h'.kept hπ'
    exact ⟨hπ'', hobject'.trans hobject⟩
  fresh hπ hπ'' := by
    by_cases hπ' : 6 ≤ π'.stage.rank
    · rw [(h'.kept hπ').2]
      exact h.fresh hπ hπ'
    · exact h.replies.trans (h'.fresh (Nat.lt_of_not_le hπ') hπ'')

end Advances

namespace DuplexCode

variable (code : DuplexCode D Msg Ctx V)

/-- The message on the wire concerns the call. -/
def concerns (side : Side) (q : UInt64) (x : Side) (bytes : Message) : Bool :=
  (code.protobuf.parseMeta bytes.rpcMeta bytes.rpcMeta.length).any (Concerns side q x)

/-- What it means that a call is at its stage. -/
structure OnItsWay (side : Side) (q : UInt64) (π : Place) (h : List (DuplexEvent Msg))
    (d : Duplex queue D H T Msg V) : Prop where
  new : π.stage = .new → (d.peer side).calls.length ≤ q.toNat
  oneWay : π.stage = .oneWay → ∃ r, (d.peer side).calls[q.toNat]? = some r ∧ r.handle = none
  call : 0 < π.stage.rank → ∃ r, (d.peer side).calls[q.toNat]? = some r ∧ r.handle.isSome
  stub : π.stage.waits → ∃ stub, (d.peer side).client.mStubHandleMap.lookup q = some stub ∧
    stub.handle.isSome
  announced : ∀ x, h.countP (DuplexEvent.announces side q x) =
    if (CallStage.shown (x = side)).rank ≤ π.stage.rank then 1 else 0
  handled : h.countP (fun e => e.runs = some (side, q)) = if π.stage = .done then 1 else 0
  /-- the messages on the wire, in either direction -/
  wire : ∀ x, ∃ ms : List Message, d.wire x = ms.flatMap (Message.bytes code.order) ∧
    (∀ m ∈ ms, code.Carries h x m) ∧
    ms.countP (code.concerns side q x) = if π.stage = CallStage.wire (x = side) then 1 else 0
  object : 6 ≤ π.stage.rank → π.object < (d.peer side.other).server.replies ∧
    (d.peer side.other).server.mReplyFlag π.object = decide (7 ≤ π.stage.rank)
  unmade : ∀ n, (d.peer side.other).server.replies ≤ n →
    (d.peer side.other).server.mReplyFlag n = false

/-- The way of a call, from side to side and back. -/
def way (side : Side) (q : UInt64) :
    Journey (code.onRecord : Ledger (Duplex queue D H T Msg V) (DuplexEvent Msg)) Place where
  fits := code.OnItsWay side q
  inHands π := π.stage.inHands
  le := Advances side
  le_refl _ _ := .refl
  le_trans := .trans

variable {code} {side x : Side} {q : UInt64} {π : Place} {h : List (DuplexEvent Msg)}
  {d d' : Duplex queue D H T Msg V}

namespace OnItsWay

/-- The call stays where it is, and its stub as well. -/
theorem stays (hd : code.OnItsWay side q π h d)
    (hcalls : (d'.peer side).calls = (d.peer side).calls)
    (hstub : (d'.peer side).client.mStubHandleMap.lookup q =
      (d.peer side).client.mStubHandleMap.lookup q)
    (hwire : ∀ x, ∃ ms : List Message, d'.wire x = ms.flatMap (Message.bytes code.order) ∧
      (∀ m ∈ ms, code.Carries h x m) ∧
      ms.countP (code.concerns side q x) = if π.stage = CallStage.wire (x = side) then 1 else 0)
    (hobject : 6 ≤ π.stage.rank → π.object < (d'.peer side.other).server.replies ∧
      (d'.peer side.other).server.mReplyFlag π.object = decide (7 ≤ π.stage.rank))
    (hunmade : ∀ n, (d'.peer side.other).server.replies ≤ n →
      (d'.peer side.other).server.mReplyFlag n = false) : code.OnItsWay side q π h d' where
  new := by
    rw [hcalls]
    exact hd.new
  oneWay := by
    rw [hcalls]
    exact hd.oneWay
  call := by
    rw [hcalls]
    exact hd.call
  stub := by
    rw [hstub]
    exact hd.stub
  announced := hd.announced
  handled := hd.handled
  wire := hwire
  object := hobject
  unmade := hunmade

/-- Nothing happens to what the call depends on. -/
theorem congr (hd : code.OnItsWay side q π h d) {p : Peer queue D H T Msg V}
    (hcalls : x = side → p.calls = (d.peer x).calls)
    (hstub : x = side → p.client.mStubHandleMap.lookup q = (d.peer x).client.mStubHandleMap.lookup q)
    (hheld : p.held = (d.peer x).held) (hsession : p.session.outgoing = (d.peer x).session.outgoing)
    (hreplies : x = side.other → p.server.replies = (d.peer x).server.replies)
    (hflag : x = side.other → p.server.mReplyFlag = (d.peer x).server.mReplyFlag) :
    Advances side d π (d.update x p) π ∧ code.OnItsWay side q π h (d.update x p) := by
  have hreplies' : ((d.update x p).peer side.other).server.replies =
      (d.peer side.other).server.replies := by
    by_cases hx : x = side.other
    · subst hx
      rw [Duplex.update_peer, hreplies rfl]
    · rw [Duplex.update_peer_of_ne _ _ _ _ (Ne.symm hx)]
  have hflag' : ((d.update x p).peer side.other).server.mReplyFlag =
      (d.peer side.other).server.mReplyFlag := by
    by_cases hx : x = side.other
    · subst hx
      rw [Duplex.update_peer, hflag rfl]
    · rw [Duplex.update_peer_of_ne _ _ _ _ (Ne.symm hx)]
  refine ⟨.of_replies hreplies'.ge, hd.stays ?_ ?_ (fun y => ?_) ?_ ?_⟩
  · by_cases hx : x = side
    · subst hx
      rw [Duplex.update_peer, hcalls rfl]
    · rw [Duplex.update_peer_of_ne _ _ _ _ (Ne.symm hx)]
  · by_cases hx : x = side
    · subst hx
      rw [Duplex.update_peer, hstub rfl]
    · rw [Duplex.update_peer_of_ne _ _ _ _ (Ne.symm hx)]
  · rw [Duplex.wire_update hheld hsession]
    exact hd.wire y
  · rw [hreplies', hflag']
    exact hd.object
  · rw [hreplies', hflag']
    exact hd.unmade

end OnItsWay

/-- The user may do to his part of a session what he likes. -/
theorem way_harmless_user (f : V → Option V) :
    (code.way side q).Harmless fun d : Duplex queue D H T Msg V =>
      (f (d.peer x).session.user).map fun v =>
        d.update x ((d.peer x).setSession ((d.peer x).session.setUser v)) := by
  intro t d _ hfits hd _
  obtain ⟨v, -, rfl⟩ := Option.map_eq_some_iff.mp hd
  exact OnItsWay.congr hfits (fun _ => rfl) (fun _ => rfl) rfl rfl (fun _ => rfl) fun _ => rfl

/-! ## Events -/

section events

variable {e : DuplexEvent Msg}

/-- An event shows a message of one side only, and calls no handle then. -/
theorem announces_cases (he : e.announces side q x = true) :
    (∀ y, y ≠ x → e.announces side q y = false) ∧ e.runs ≠ some (side, q) := by
  cases e with
  | client y e =>
      cases e with
      | request rpcMeta m =>
          simp only [DuplexEvent.announces, Bool.and_eq_true, decide_eq_true_eq] at he
          obtain ⟨rfl, -⟩ := he
          refine ⟨fun z hz => ?_, by simp [DuplexEvent.runs, ClientEvent.runs]⟩
          simp [DuplexEvent.announces, Ne.symm hz]
      | handle received owner m error => cases he
      | timeout received owner => cases he
  | service y e =>
      cases e with
      | called object call first => cases he
      | response origin rpcMeta m =>
          simp only [DuplexEvent.announces, Bool.and_eq_true, decide_eq_true_eq] at he
          obtain ⟨rfl, -⟩ := he
          refine ⟨fun z hz => ?_, by simp [DuplexEvent.runs]⟩
          simp [DuplexEvent.announces, Ne.symm hz]

namespace OnItsWay

/-- The call has been made, and goes on to another stage. -/
theorem moved {h' : List (DuplexEvent Msg)} {s : CallStage} {object : ℕ}
    (hd : code.OnItsWay side q π h d) (hrank : 0 < π.stage.rank ∧ 0 < s.rank)
    (hcalls : (d'.peer side).calls = (d.peer side).calls)
    (hstub : s.waits → ∃ stub, (d'.peer side).client.mStubHandleMap.lookup q = some stub ∧
      stub.handle.isSome)
    (hannounced : ∀ y, h'.countP (DuplexEvent.announces side q y) =
      if (CallStage.shown (y = side)).rank ≤ s.rank then 1 else 0)
    (hhandled : h'.countP (fun e => e.runs = some (side, q)) = if s = .done then 1 else 0)
    (hwire : ∀ y, ∃ ms : List Message, d'.wire y = ms.flatMap (Message.bytes code.order) ∧
      (∀ m ∈ ms, code.Carries h' y m) ∧
      ms.countP (code.concerns side q y) = if s = CallStage.wire (y = side) then 1 else 0)
    (hobject : 6 ≤ s.rank → object < (d'.peer side.other).server.replies ∧
      (d'.peer side.other).server.mReplyFlag object = decide (7 ≤ s.rank))
    (hunmade : ∀ n, (d'.peer side.other).server.replies ≤ n →
      (d'.peer side.other).server.mReplyFlag n = false) : code.OnItsWay side q ⟨s, object⟩ h' d' where
  new hs := by
    obtain rfl : s = .new := hs
    exact absurd hrank.2 (Nat.lt_irrefl 0)
  oneWay hs := by
    obtain rfl : s = .oneWay := hs
    exact absurd hrank.2 (Nat.lt_irrefl 0)
  call _ := by
    rw [hcalls]
    exact hd.call hrank.1
  stub := hstub
  announced := hannounced
  handled := hhandled
  wire := hwire
  object := hobject
  unmade := hunmade

/-- The stages differ in what has been shown. -/
theorem restage {h' : List (DuplexEvent Msg)} (hd : code.OnItsWay side q π h d) {s : CallStage}
    (hs : OnlyShown π.stage s) (hh : h ⊆ h')
    (hannounced : ∀ y, h'.countP (DuplexEvent.announces side q y) =
      if (CallStage.shown (y = side)).rank ≤ s.rank then 1 else 0)
    (hhandled : h'.countP (fun e => e.runs = some (side, q)) = if s = .done then 1 else 0) :
    code.OnItsWay side q ⟨s, π.object⟩ h' d := by
  refine hd.moved hs.rank rfl (fun hwaits => hd.stub (hs.waits hwaits)) hannounced hhandled
    (fun y => ?_) (fun hopened => ?_) hd.unmade
  · obtain ⟨ms, hms, hcarries, hcount⟩ := hd.wire y
    refine ⟨ms, hms, fun m hm => (hcarries m hm).mono hh, ?_⟩
    simp only [hcount, hs.wire]
  · obtain ⟨hlt, hflag⟩ := hd.object (hs.opened.mp hopened)
    refine ⟨hlt, ?_⟩
    simp only [hflag, hs.answering]

/-- A message of the call is shown. -/
theorem announce (hd : code.OnItsWay side q π h d) (hπ : π.stage = CallStage.ready (x = side))
    (he : e.announces side q x = true) :
    code.OnItsWay side q ⟨CallStage.shown (x = side), π.object⟩ (h ++ [e]) d := by
  obtain ⟨hother, hruns⟩ := announces_cases he
  -- the stages are finitely many, and this holds of each pair
  have hown : ∀ own own', (CallStage.shown own').rank ≤ (CallStage.shown own).rank ↔
      (CallStage.shown own').rank ≤ (CallStage.ready own).rank ∨ own' = own := by decide
  have hdone : ∀ own, (CallStage.shown own = .done ↔ False) ∧
      (CallStage.ready own = .done ↔ False) := by decide
  apply hd.restage
  · rw [hπ]
    exact onlyShown_shown _
  · exact List.subset_append_left h [e]
  · intro y
    rw [List.countP_append, hd.announced, hπ, List.countP_singleton]
    by_cases hy : y = x
    · subst hy
      rw [he]
      generalize decide (y = side) = own
      revert own
      decide
    · rw [hother y hy]
      -- the announcement is counted on its own side only
      have hne : decide (y = side) ≠ decide (x = side) := by
        revert hy
        cases x <;> cases y <;> cases side <;> decide
      simp [hown, hne]
  · rw [List.countP_append, hd.handled, hπ, List.countP_singleton]
    simp [hruns, hdone]

/-- Its handle is called. -/
theorem handle (hd : code.OnItsWay side q π h d) (hπ : π.stage = .taken)
    (he : ∀ y, e.announces side q y = false) (hruns : e.runs = some (side, q)) :
    code.OnItsWay side q ⟨.done, π.object⟩ (h ++ [e]) d := by
  have hlast : ∀ own, (CallStage.shown own).rank ≤ CallStage.done.rank ∧
      (CallStage.shown own).rank ≤ CallStage.taken.rank := by decide
  apply hd.restage
  · rw [hπ]
    exact onlyShown_done
  · exact List.subset_append_left h [e]
  · intro y
    rw [List.countP_append, hd.announced, hπ, List.countP_singleton, he]
    simp [hlast]
  · rw [List.countP_append, hd.handled, hπ, List.countP_singleton]
    simp [hruns]

end OnItsWay

/-- What is neither a message of the call nor the call of its handle says nothing about it. -/
theorem way_idle (he : ∀ y, e.announces side q y = false) (hruns : e.runs ≠ some (side, q)) :
    (code.way side q : Journey (code.onRecord : Ledger (Duplex queue D H T Msg V) _) _).Idle e := by
  intro t _ hfits _
  have hd : code.OnItsWay side q t.place t.events t.state := hfits
  show code.OnItsWay side q t.place (t.events ++ [e]) t.state
  refine { hd with announced := fun y => ?_, handled := ?_, wire := fun y => ?_ }
  · rw [List.countP_append, hd.announced, List.countP_singleton, he]
    rfl
  · rw [List.countP_append, hd.handled, List.countP_singleton]
    simp [hruns]
  · obtain ⟨ms, hms, hcarries, hcount⟩ := hd.wire y
    exact ⟨ms, hms, fun m hm => (hcarries m hm).mono (List.subset_append_left _ [e]), hcount⟩

end events

end DuplexCode

end life

end GayRpc
