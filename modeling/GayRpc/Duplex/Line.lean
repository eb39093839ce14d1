import GayRpc.Duplex.Code
import GayRpc.Lib.Channel

/-!
# The line between two peers

A connection as `binary` makes it: each end writes frames as long as it has a session, and parses what
the transport brings it, in pieces of any size. While a message is handled, the end that handles it may
write as well.

To whoever writes and handles the messages this is a channel in each direction (`Line.simulation`). Here
`RpcMeta` is written and read by its generated code.

    the line                                          a channel
    ───────────────────────────────────────────────────────────────────────
    bytes written and not delivered,                  the queue
      bytes received and not parsed
    binary::send, with a session or without           sent
    a data callback, for each message it finds        received
    the loss of the session, with bytes on their way  closed

The relation between the two (`Matches`) is that the bytes which one end holds back, followed by those that
are on their way to it, are the frames of the messages in the queue, and perhaps the beginning of one more
that was cut off when the session was lost. A data callback takes as many messages off the queue as it
finds, and whoever handles one may add some to the other queue before the next one is handled
(`Handling.runHandler`).
-/

namespace GayRpc

open Automaton ChannelEvent

section Line

variable {F τ : Type} (R : MetaRuntime F)

/-- A message both parts of which fit the headers, with a meta that Protobuf takes on. -/
structure Sendable where
  rpcMeta : RpcMeta
  data : List UInt8
  meta_limit : (Pb.RpcMeta.serializeAsString R rpcMeta).length < R.sizeLimit
  meta_lt : (Pb.RpcMeta.serializeAsString R rpcMeta).length < 2 ^ 31
  body_lt : 12 + (Pb.RpcMeta.serializeAsString R rpcMeta).length + data.length < 2 ^ 64

variable {R}

namespace Sendable

/-- What the other end is to get. -/
def content (m : Sendable R) : RpcMeta × List UInt8 := (m.rpcMeta, m.data)

def message (m : Sendable R) : Message :=
  { rpcMeta := Pb.RpcMeta.serializeAsString R m.rpcMeta
    data := m.data
    meta_lt := m.meta_lt
    body_lt := m.body_lt }

end Sendable

/-- One end of a connection: whether there is a session, the bytes that were written and have not been
delivered, those that were received and not yet parsed, and everything else that the handlers change. -/
structure LineEnd (τ : Type) where
  session : Bool := true
  outgoing : List UInt8 := []
  held : List UInt8 := []
  state : τ

abbrev Line (τ : Type) : Type := Side → LineEnd τ

/-- What an end shows. A direction is named after the end that sends. -/
abbrev LineEvent : Type := Side × ChannelEvent (RpcMeta × List UInt8)

variable (R) in
/-- What `handleRpcMsg` does with a message: what it sends on the way, whether it throws, and what else
it changes. -/
abbrev Responder (τ : Type) : Type :=
  RpcMeta → StringView → τ → List (Sendable R) × Except Exn Unit × τ

variable (order : ByteOrder) (respond : Side → Responder R τ)

def LineEnd.send (m : Sendable R) (e : LineEnd τ) : LineEnd τ :=
  if e.session then
    { e with
      outgoing := e.outgoing ++ (serializeProtobufPacket ⟨order, []⟩
        (Pb.RpcMeta.serializeAsString R m.rpcMeta) m.data).buffer }
  else e

theorem LineEnd.held_send (m : Sendable R) (e : LineEnd τ) : (e.send order m).held = e.held := by
  unfold LineEnd.send
  split <;> rfl

namespace Line

/-- `handleRpcMsg` at one end, with the events written down. -/
def handleRpcMsg (side : Side) (m : RpcMeta) (data : StringView) (s : List LineEvent × LineEnd τ) :
    Except Exn Unit × List LineEvent × LineEnd τ :=
  let (answers, result, state) := respond side m data s.2.state
  (result,
    s.1 ++ (side.other, .received (m, data.bytes)) :: answers.map fun a => (side, .sent a.content),
    { answers.foldl (fun e a => e.send order a) s.2 with state := state })

/-- A data callback: `n` bytes have come. -/
def deliver (side : Side) (n : ℕ) (l : Line τ) : List LineEvent × Line τ :=
  let (result, held, events, e) :=
    receive order (opHandle order (Pb.RpcMeta.parseFromArray R) (handleRpcMsg order respond side))
      (l side).held ((l side.other).outgoing.take n) ([], l side)
  (events ++ (if result matches .ok () then [] else [(side.other, .failed)]),
    Function.update (Function.update l side { e with held := held }) side.other
      { l side.other with outgoing := (l side.other).outgoing.drop n })

/-- What may happen on a connection. When it is lost for one end, the bytes that are on their way from
there may get lost from any point on. -/
inductive Step : Line τ → List LineEvent → Line τ → Prop
  | send {l : Line τ} (side : Side) (m : Sendable R) :
      Step l [(side, .sent m.content)] (Function.update l side ((l side).send order m))
  | lose {l : Line τ} (side : Side) (n : ℕ) : Step l [(side, .closed)]
      (Function.update l side
        { l side with session := false, outgoing := (l side).outgoing.take n })
  | deliver {l : Line τ} (side : Side) (n : ℕ)
      (hlen : ((l side).held ++ (l side.other).outgoing.take n).length < 2 ^ 64) :
      Step l (deliver order respond side n l).1 (deliver order respond side n l).2
  | drift {l : Line τ} (side : Side) (s : τ) :
      Step l [] (Function.update l side { l side with state := s })

/-- A connection as an automaton: it starts with nothing on the way. -/
def automaton : Automaton (Line τ) LineEvent where
  init l := ∀ side, ∃ s, l side = { state := s }
  step := Step order respond

end Line

/-! ## One direction -/

section direction

variable {order}

/-- The bytes of one direction, as one end has written them and the other has not parsed them: the
frames of the messages that the channel holds. Of a message that got lost in part, what is left starts
no frame. -/
structure Matches (order : ByteOrder) (e : LineEnd τ) (held : List UInt8) (ms : List (Sendable R))
    (c : Channel (RpcMeta × List UInt8)) : Prop where
  channel : c = { isOpen := e.session, queue := ms.map Sendable.content }
  incomplete : (opCode order).Incomplete held
  splits : ∃ tail, (opCode order).Splits (held ++ e.outgoing)
    (ms.map fun m => m.message.packet order) tail ∧ (e.session = true → tail = [])

variable {e : LineEnd τ} {held : List UInt8} {ms : List (Sendable R)}
  {c : Channel (RpcMeta × List UInt8)}

theorem splits_message (m : Sendable R) :
    (opCode order).Splits (m.message.bytes order) [m.message.packet order] [] := by
  simpa using splits_messages order [m.message]

/-- Only the session and the bytes that were written matter. -/
theorem Matches.of_eq (h : Matches order e held ms c) {e' : LineEnd τ}
    (hsession : e'.session = e.session) (hout : e'.outgoing = e.outgoing) :
    Matches order e' held ms c := by
  obtain ⟨hchannel, hheld, hsplits⟩ := h
  rw [← hsession, ← hout] at hsplits
  exact ⟨hsession ▸ hchannel, hheld, hsplits⟩

/-- Sending adds a message, or loses it. -/
theorem Matches.send (h : Matches order e held ms c) (m : Sendable R) :
    ∃ (ms' : List (Sendable R)) (c' : _), Channel.Step c [.sent m.content] c' ∧
      Matches order (e.send order m) held ms' c' := by
  obtain ⟨rfl, hheld, tail, hsplits, htail⟩ := h
  cases hsession : e.session with
  | false =>
      -- with the session gone the message is dropped, on the line and in the channel
      have hsend : e.send order m = e := by simp [LineEnd.send, hsession]
      refine ⟨ms, _, .lose _, ?_⟩
      rw [hsend]
      exact ⟨by rw [hsession], hheld, tail, hsplits, htail⟩
  | true =>
      have hsend : e.send order m = { e with outgoing := e.outgoing ++ m.message.bytes order } := by
        simp only [LineEnd.send, hsession, if_true]
        rfl
      obtain rfl := htail hsession
      refine ⟨ms ++ [m], _, .send _, ?_⟩
      rw [hsend]
      refine ⟨by simp [hsession], hheld, [], ?_, fun _ => rfl⟩
      -- a whole message is added to the queue, so a split of the bytes stays one
      have happend := hsplits.append (t := m.message.bytes order) (splits_message m)
      rw [List.append_assoc] at happend
      simpa using happend

theorem Matches.sendAll (h : Matches order e held ms c) (answers : List (Sendable R)) :
    ∃ (ms' : List (Sendable R)) (c' : _),
      (Channel.automaton _).Moves c (answers.map fun a => .sent a.content) c' ∧
      Matches order (answers.foldl (fun e a => e.send order a) e) held ms' c' := by
  induction answers generalizing e ms c with
  | nil => exact ⟨ms, c, .refl, h⟩
  | cons a answers ih =>
      obtain ⟨ms₁, c₁, hstep, h₁⟩ := h.send a
      obtain ⟨ms₂, c₂, hmoves, h₂⟩ := ih h₁
      exact ⟨ms₂, c₂, Moves.trans (.single hstep) hmoves, h₂⟩

/-- Some of the messages are complete in the first so many bytes. -/
theorem Matches.take (h : Matches order e held ms c) (n : ℕ) :
    ∃ (done left : List (Sendable R)) (held' tail : List UInt8), ms = done ++ left ∧
      (opCode order).Splits (held ++ e.outgoing.take n)
        (done.map fun m => m.message.packet order) held' ∧
      (opCode order).Splits (held' ++ e.outgoing.drop n)
        (left.map fun m => m.message.packet order) tail ∧
      (e.session = true → tail = []) := by
  obtain ⟨-, -, tail, hsplits, htail⟩ := h
  rw [← List.take_append_drop n e.outgoing, ← List.append_assoc] at hsplits
  obtain ⟨gs, gs', held', hms, hfirst, hsecond⟩ := hsplits.of_append
  obtain ⟨done, left, rfl, rfl, rfl⟩ := List.map_eq_append_iff.mp hms
  exact ⟨done, left, held', tail, rfl, hfirst, hsecond, htail⟩

/-- What is lost with the session is what was sent last. -/
theorem Matches.lose (h : Matches order e held ms c) (n : ℕ) :
    ∃ (ms' : List (Sendable R)) (c' : _), Channel.Step c [.closed] c' ∧
      Matches order { e with session := false, outgoing := e.outgoing.take n } held ms' c' := by
  obtain ⟨done, left, held', tail, rfl, hfirst, -, -⟩ := h.take n
  obtain ⟨rfl, hheld, -⟩ := h
  refine ⟨done, _, .close done.length, ?_, hheld, held', hfirst, nofun⟩
  simp

/-- Where nothing is on the way any more, nothing is held back either. -/
theorem Matches.queue_eq_nil (h : Matches order e held ms c) (hout : e.outgoing = []) :
    c.queue = [] := by
  obtain ⟨rfl, hheld, tail, hsplits, -⟩ := h
  rw [hout, List.append_nil] at hsplits
  have hnil := (hsplits.unique (.nil hheld)).1
  simpa using hnil

end direction

/-! ## Both directions -/

section delivery

variable {order} {respond}

/-- Both channels of a connection, while an end `e` at `side` handles the messages that were received. -/
structure Handling (order : ByteOrder) (side : Side) (o : Bool) (q : List (Sendable R))
    (held : List UInt8) (e : LineEnd τ) (f : Side → Channel (RpcMeta × List UInt8)) : Prop where
  incoming : f side.other = { isOpen := o, queue := q.map Sendable.content }
  outgoing : ∃ ms : List (Sendable R), Matches order e held ms (f side)

variable {side : Side} {o : Bool} {m : Sendable R} {q done : List (Sendable R)} {held : List UInt8}
  {e : LineEnd τ} {f : Side → Channel (RpcMeta × List UInt8)}

/-- Handling a message takes it out of its channel, and what is sent on the way goes into the other. -/
theorem Handling.handleRpcMsg (h : Handling order side o (m :: q) held e f)
    (respond : Side → Responder R τ) {data : StringView} (hdata : data.bytes = m.data)
    (events : List LineEvent) :
    ∃ es e' f',
      (Line.handleRpcMsg order respond side m.rpcMeta data (events, e)).2 = (events ++ es, e') ∧
      ((Channel.automaton _).family Side).Moves f es f' ∧ Handling order side o q held e' f' := by
  obtain ⟨hincoming, ms, hmatches⟩ := h
  let answers := (respond side m.rpcMeta data e.state).1
  let g := Function.update f side.other { isOpen := o, queue := q.map Sendable.content }
  -- the channel hands over the first message of its queue
  have hfirst : (Channel.automaton _).Moves (f side.other) [.received m.content]
      { isOpen := o, queue := q.map Sendable.content } := by
    rw [hincoming]
    exact .single (Channel.Step.receive _)
  -- the answers go the other way, where nothing has moved so far
  have hg : g side = f side := Function.update_of_ne (by simp) _ _
  rw [← hg] at hmatches
  obtain ⟨ms', c', hmoves, hmatches'⟩ := hmatches.sendAll answers
  refine ⟨_, { answers.foldl (fun e a => e.send order a) e with
    state := (respond side m.rpcMeta data e.state).2.2 }, Function.update g side c', ?_,
    hfirst.family.trans hmoves.family, ?_, ms', ?_⟩
  · simp only [Line.handleRpcMsg, hdata, Sendable.content, List.map_map]
    rfl
  · rw [Function.update_of_ne (by simp)]
    exact Function.update_self ..
  · rw [Function.update_self]
    exact hmatches'.of_eq rfl rfl

/-- Induction on the messages that are complete. -/
theorem Handling.runHandler (h : Handling order side o (done ++ q) held e f)
    (respond : Side → Responder R τ) (events : List LineEvent) :
    ∃ es e' f', GayRpc.runHandler (opHandle order (Pb.RpcMeta.parseFromArray R)
        (Line.handleRpcMsg order respond side)) (done.map fun m => m.message.packet order) (events, e) =
        (events ++ es, e') ∧
      ((Channel.automaton _).family Side).Moves f es f' ∧ Handling order side o q held e' f' := by
  induction done generalizing e f events with
  | nil => exact ⟨[], e, f, by simp [GayRpc.runHandler], .refl, h⟩
  | cons m done ih =>
      have hparse : Pb.RpcMeta.parseFromArray R m.message.rpcMeta m.message.rpcMeta.length =
          some m.rpcMeta :=
        Pb.RpcMeta.parseFromArray_serializeAsString m.rpcMeta m.meta_limit
      obtain ⟨es, e', f', hhandle, hmoves, h'⟩ :=
        h.handleRpcMsg respond (m.message.dataView_bytes order) events
      obtain ⟨es', e'', f'', hrun, hmoves', h''⟩ := ih h' (events ++ es)
      refine ⟨es ++ es', e'', f'', ?_, hmoves.trans hmoves', h''⟩
      rw [← List.append_assoc, ← hrun, ← hhandle]
      simp only [GayRpc.runHandler, List.map_cons, List.foldl_cons, opHandle_message, hparse]

namespace Line

variable (R) in
/-- Each direction of the connection is one of the channels. -/
def Rel (order : ByteOrder) (l : Line τ) (f : Side → Channel (RpcMeta × List UInt8)) : Prop :=
  ∀ side, ∃ ms : List (Sendable R), Matches order (l side) (l side.other).held ms (f side)

variable {l : Line τ}

/-- A step of one end, which leaves the bytes that it holds alone, is seen in its own direction only. -/
theorem Rel.update {e : LineEnd τ} {c : Channel (RpcMeta × List UInt8)} (h : Rel R order l f)
    (hheld : e.held = (l side).held)
    (hmatches : ∃ ms : List (Sendable R), Matches order e (l side.other).held ms c) :
    Rel R order (Function.update l side e) (Function.update f side c) := by
  intro d
  rcases Side.eq_or_eq_other d side with rfl | rfl
  · rw [Function.update_self, Function.update_self, Function.update_of_ne (by simp)]
    exact hmatches
  · have hother := h side.other
    rw [Side.other_other, Function.update_self, Function.update_of_ne (by simp),
      Function.update_of_ne (by simp), hheld]
    rwa [Side.other_other] at hother

theorem Rel.deliver (h : Rel R order l f) (side : Side) (n : ℕ)
    (hlen : ((l side).held ++ (l side.other).outgoing.take n).length < 2 ^ 64) :
    ∃ f', ((Channel.automaton _).family Side).Moves f (deliver order respond side n l).1 f' ∧
      Rel R order (deliver order respond side n l).2 f' := by
  obtain ⟨ms, hincoming⟩ := h side.other
  rw [Side.other_other] at hincoming
  obtain ⟨done, left, held', tail, rfl, hfirst, hsecond, htail⟩ := hincoming.take n
  -- what is complete is handled, and what is not is held back
  have hhandling : Handling order side (l side.other).session (done ++ left) (l side.other).held
      (l side) f := ⟨hincoming.channel, h side⟩
  obtain ⟨es, e', f', hrun, hmoves, hincoming', ms', houtgoing'⟩ :=
    hhandling.runHandler respond []
  have hreturns : ReturnsOn (opHandle order (Pb.RpcMeta.parseFromArray R)
      (handleRpcMsg order respond side)) (done.map fun m => m.message.packet order) := by
    have hmessages := returnsOn_messages order (Pb.RpcMeta.parseFromArray R)
      (handleRpcMsg order respond side) (done.map Sendable.message)
    rwa [List.map_map] at hmessages
  have hreceive := receive_splits ([], l side) hlen hfirst hreturns
  rw [hrun, List.nil_append] at hreceive
  refine ⟨f', ?_, ?_⟩
  · simpa only [Line.deliver, hreceive, if_true, List.append_nil] using hmoves
  · intro d
    simp only [Line.deliver, hreceive]
    rcases Side.eq_or_eq_other d side with rfl | rfl
    · rw [Function.update_of_ne (by simp), Function.update_self, Function.update_self]
      exact ⟨ms', houtgoing'.of_eq rfl rfl⟩
    · rw [Function.update_self, Side.other_other, Function.update_of_ne (by simp), Function.update_self]
      exact ⟨left, hincoming', hfirst.incomplete, tail, hsecond, htail⟩

/-- What the steps of a connection are to its two channels. -/
theorem Rel.step {es : List LineEvent} {l' : Line τ} (h : Rel R order l f)
    (hstep : Step order respond l es l') :
    ∃ f', ((Channel.automaton _).family Side).Moves f es f' ∧ Rel R order l' f' := by
  cases hstep with
  | send side m =>
      obtain ⟨ms, hmatches⟩ := h side
      obtain ⟨ms', c', hmove, hmatches'⟩ := hmatches.send m
      refine ⟨_, .single ⟨side, _, c', hmove, rfl, rfl⟩, ?_⟩
      exact h.update (LineEnd.held_send order m _) ⟨ms', hmatches'⟩
  | lose side n =>
      obtain ⟨ms, hmatches⟩ := h side
      obtain ⟨ms', c', hmove, hmatches'⟩ := hmatches.lose n
      exact ⟨_, .single ⟨side, _, c', hmove, rfl, rfl⟩, h.update rfl ⟨ms', hmatches'⟩⟩
  | deliver side n hlen => exact h.deliver side n hlen
  | drift side s =>
      obtain ⟨ms, hmatches⟩ := h side
      have hsame := h.update (e := { l side with state := s }) (c := f side) rfl
        ⟨ms, hmatches.of_eq rfl rfl⟩
      rw [Function.update_eq_self] at hsame
      exact ⟨f, .refl, hsame⟩

theorem Rel.init (h : (automaton order respond).init l) : Rel R order l fun _ => {} := by
  intro side
  obtain ⟨s, hs⟩ := h side
  obtain ⟨s', hs'⟩ := h side.other
  rw [hs, hs']
  exact ⟨[], rfl, FrameCode.incomplete_nil, [], .nil FrameCode.incomplete_nil, fun _ => rfl⟩

variable (order respond) in
/-- **A connection simulates two channels.** -/
def simulation :
    (automaton order respond).Simulation ((Channel.automaton (RpcMeta × List UInt8)).family Side) where
  rel := Rel R order
  init _ h := ⟨fun _ => {}, fun _ => rfl, Rel.init h⟩
  step _ _ _ _ h hstep := h.step hstep

end Line

end delivery

/-! ## A message and its answer -/

def pong : Sendable Pb.base128 :=
  { rpcMeta := { type := .response }
    data := [1, 2]
    meta_limit := by decide +kernel
    meta_lt := by decide +kernel
    body_lt := by decide +kernel }

/-- The right end answers every message, and throws after that. -/
def ponging (side : Side) : Responder Pb.base128 ℕ := fun _ _ n =>
  (if side = .right then [pong] else [], .error .unknown, n + 1)

def pongSent : Line ℕ := Function.update (fun _ => { state := 0 }) .left
  (LineEnd.send .big pong { state := 0 })

def pongHandled : Line ℕ :=
  (Line.deliver .big ponging .right 30 (Line.deliver .big ponging .right 10 pongSent).2).2

def pongAnswered : Line ℕ := (Line.deliver .big ponging .left 28 pongHandled).2

/-- Nothing comes of the first ten bytes. -/
theorem reaches_pongAnswered : (Line.automaton .big ponging).Reaches
    [(.left, .sent pong.content), (.left, .received pong.content), (.right, .sent pong.content),
      (.right, .received pong.content)] pongAnswered := by
  have hpart : (Line.deliver .big ponging .right 10 pongSent).1 = [] := by decide +kernel
  have hrest : (Line.deliver .big ponging .right 30 (Line.deliver .big ponging .right 10 pongSent).2).1 =
      [(.left, .received pong.content), (.right, .sent pong.content)] := by decide +kernel
  have hanswer : (Line.deliver .big ponging .left 28 pongHandled).1 =
      [(.right, .received pong.content)] := by decide +kernel
  have hsent : (Line.automaton .big ponging).Moves (fun _ => { state := 0 })
      [(.left, .sent pong.content)] pongSent := .single (Line.Step.send .left pong)
  have hpart' := hsent.tail (Line.Step.deliver .right 10 (by decide +kernel))
  have hrest' := hpart'.tail (Line.Step.deliver .right 30 (by decide +kernel))
  have hanswer' := hrest'.tail (Line.Step.deliver .left 28 (by decide +kernel))
  rw [hpart, hrest] at hanswer'
  exact ⟨_, fun side => ⟨0, rfl⟩, hanswer ▸ hanswer'⟩

/-! ## The results -/

variable {order} {respond}

/-- **A connection implements two channels.** Whatever happens on it, and whatever is written while
messages are handled, the two ends see what they could see of two channels; a channel is open as long as
there is a session, and where nothing is on its way any more, it holds nothing. -/
theorem line_implements_channels {es : List LineEvent} {l : Line τ}
    (h : (Line.automaton order respond).Reaches es l) :
    ∃ f : Side → Channel (RpcMeta × List UInt8), ((Channel.automaton _).family Side).Reaches es f ∧
      ∀ side, (f side).isOpen = (l side).session ∧
        ((l side).outgoing = [] → (f side).queue = []) := by
  obtain ⟨f, hreaches, hrel⟩ := (Line.simulation order respond).reaches h
  refine ⟨f, hreaches, fun side => ?_⟩
  obtain ⟨ms, hmatches⟩ := hrel side
  exact ⟨congrArg Channel.isOpen hmatches.channel, hmatches.queue_eq_nil⟩

theorem pong_implements_channels :
    ∃ f : Side → Channel (RpcMeta × List UInt8), ((Channel.automaton _).family Side).Reaches
        [(.left, .sent pong.content), (.left, .received pong.content), (.right, .sent pong.content),
          (.right, .received pong.content)] f ∧
      ∀ side, (f side).isOpen = (pongAnswered side).session ∧
        ((pongAnswered side).outgoing = [] → (f side).queue = []) :=
  line_implements_channels reaches_pongAnswered

/-- **What one end sends, the other gets.** In each direction the messages that were handled are the
first of those that were sent while there was a session, unchanged and in that order; the parser never
gives up; and while the session is there, what has not been handled is still on its way. -/
theorem line_in_order {es : List LineEvent} {l : Line τ}
    (h : (Line.automaton order respond).Reaches es l) (side : Side) :
    receipts (eventsOf side es) <+: accepted (eventsOf side es) ∧
      .failed ∉ eventsOf side es ∧
      ((l side).session = true → (l side).outgoing = [] →
        receipts (eventsOf side es) = accepted (eventsOf side es)) := by
  obtain ⟨f, hreaches, hrel⟩ := (Line.simulation order respond).reaches h
  obtain ⟨ms, hmatches⟩ := hrel side
  have hinOrder := Channel.inOrder_of_reaches (hreaches.eventsOf side)
  refine ⟨(List.prefix_append ..).trans hinOrder.received, hinOrder.failed, fun hsession hout => ?_⟩
  have hopen : (f side).isOpen = true := (congrArg Channel.isOpen hmatches.channel).trans hsession
  have hall := hinOrder.all hopen
  rwa [hmatches.queue_eq_nil hout, List.append_nil] at hall

theorem pong_in_order :
    let es : List LineEvent := [(.left, .sent pong.content), (.left, .received pong.content),
      (.right, .sent pong.content), (.right, .received pong.content)]
    receipts (eventsOf .left es) <+: accepted (eventsOf .left es) ∧
      .failed ∉ eventsOf .left es ∧
      ((pongAnswered .left).session = true → (pongAnswered .left).outgoing = [] →
        receipts (eventsOf .left es) = accepted (eventsOf .left es)) :=
  line_in_order reaches_pongAnswered .left

end Line

end GayRpc
