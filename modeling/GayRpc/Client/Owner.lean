import GayRpc.Client.Pending
import GayRpc.Lib.Guarantee

/-!
# Whose callbacks a response runs

A response with the id `q` runs callbacks that were registered for the call `q` and no others, and a
call by itself runs none. Both keep the client `Consistent`, whatever happens beside them.

`CallSections` and the lemmas after it go through the operations for a property of the client that is
changed by sections only: it is enough to look at each of the sections of a call. Most invariants of a client
in other modules are proved in this way.
-/

namespace GayRpc

/-- If the event is the run of a callback, it is one of the call `q`, and a response or a timer of
that call brought it about. -/
def ClientEvent.BelongsTo {Msg : Type} (q : UInt64) : ClientEvent Msg → Prop
  | .request _ _ => True
  | .handle received owner _ _ => received = q ∧ owner = q
  | .timeout received owner => received = q ∧ owner = q

def RpcMeta.error (rpcMeta : RpcMeta) : Option RpcError :=
  if rpcMeta.responseInfo.failed then
    some (.ofCode rpcMeta.responseInfo.errorCode rpcMeta.responseInfo.reason)
  else none

/-- It survives being copied. -/
theorem RpcMeta.map_copy_error (rpcMeta : RpcMeta) : rpcMeta.error.map RpcError.copy = rpcMeta.error := by
  unfold RpcMeta.error
  split
  · rfl
  · rfl

section guarantees

variable {queue : PriorityQueue WaitResponseTimer WaitResponseTimer.le} {D H T Msg Ctx U : Type}
  {I : Host queue D H T U → Prop} {C : Host queue D H T U → Host queue D H T U → Prop}
  {G : ClientEvent Msg → Prop} {q : UInt64} {code : ClientCode D H T Msg Ctx U}

/-- The sections of a call take states in `I` to others by `C`, and its request lies in `G`. -/
structure CallSections (I : Host queue D H T U → Prop)
    (C : Host queue D H T U → Host queue D H T U → Prop) (G : ClientEvent Msg → Prop) : Prop where
  request : ∀ rpcMeta message, G (.request rpcMeta message)
  setUser : ∀ {h} u, I h → C h (h.setUser u)
  /-- the reading of the clock -/
  read : ∀ {h}, I h → C h h
  allocate : ∀ {h}, I h → C h (h.mapClient .allocate)
  insertTimed : ∀ {h x} {stub : ResponseStub D H} {t : TimeoutCallback T} {timer : WaitResponseTimer},
    stub.owner = x → t.owner = x → I h → C h (h.mapClient (.insertTimed x stub t timer))
  insertUntimed : ∀ {h x} {stub : ResponseStub D H}, stub.owner = x → stub.timed = false → I h →
    C h (h.mapClient (.insertUntimed x stub))

open Prog

theorem guarantees_onClient {Q A R : Type} {f : BaseClient queue D H T → BaseClient queue D H T}
    {k : Host queue D H T U → Prog (Host queue D H T U) (ClientEvent Msg) Q A R}
    (hf : ∀ h, I h → C h (h.mapClient f)) (hk : ∀ h, I h → (k h).Guarantees I C G) :
    (act (Host.onClient f) k).Guarantees I C G := by
  intro h hs h' hh'
  obtain rfl : h.mapClient f = h' := Option.some.inj hh'
  exact ⟨hf h hs, hk h hs⟩

namespace CallSections

variable (hC : CallSections I C G)

include hC

theorem lift {A Q R : Type} (p : Prog U Empty Q A R) :
    (p.lift Host.user Host.setUser : Prog (Host queue D H T U) _ Q A R).Guarantees I C G := by
  apply Guarantees.lift
  intro h u hs
  exact hC.setUser u hs

theorem sendRequest (rpcMeta : RpcMeta) (m : Msg) :
    (GayRpc.sendRequest code rpcMeta m : ClientProg queue D H T Msg U).Guarantees I C G :=
  ⟨hC.request _ _, (hC.lift _).bind fun _ => trivial⟩

theorem call (r : CallRequest D H T Msg) :
    (GayRpc.call code r : ClientProg queue D H T Msg U).Guarantees I C G := by
  refine guarantees_onClient (fun h hs => hC.allocate hs) fun h _ => ?_
  cases r.timed with
  | some timed =>
      intro h₁ hs₁ h₂ hh₂
      obtain rfl := Option.some.inj hh₂
      refine ⟨hC.read hs₁, ?_⟩
      exact guarantees_onClient (fun h hs => hC.insertTimed (by rfl) (by rfl) hs) fun _ _ =>
        hC.sendRequest _ _
  | none =>
      dsimp only
      split
      · exact guarantees_onClient (fun h hs => hC.insertUntimed (by rfl) (by rfl) hs) fun _ _ =>
          hC.sendRequest _ _
      · exact hC.sendRequest _ _

theorem runUser (p : Prog U Empty (CallRequest D H T Msg) (Except Exn Unit) (Except Exn Unit)) :
    (GayRpc.runUser code p : ClientProg queue D H T Msg U).Guarantees I C G :=
  (hC.lift p).plug (fun _ r => hC.call r) ()

theorem runTimeout {t : TimeoutCallback T} (hG : G (.timeout q t.owner)) :
    (GayRpc.runTimeout code q t : ClientProg queue D H T Msg U).Guarantees I C G := by
  unfold GayRpc.runTimeout
  cases t.callback with
  | none => trivial
  | some callback => exact ⟨hG, hC.runUser _⟩

theorem runHandle {stub : ResponseStub D H} {message : Msg} {error : Option RpcError}
    (hG : G (.handle q stub.owner message error)) :
    (GayRpc.runHandle code q stub message error : ClientProg queue D H T Msg U).Guarantees I C G := by
  unfold GayRpc.runHandle
  cases stub.handle with
  | none => trivial
  | some handle => exact ⟨hG, hC.runUser _⟩

theorem runStub {stub : ResponseStub D H} {rpcMeta : RpcMeta}
    (hG : ∀ message, G (.handle q stub.owner message rpcMeta.error)) (data : StringView)
    (context : Ctx) :
    (GayRpc.runStub code q stub rpcMeta data context : ClientProg queue D H T Msg U).Guarantees
      I C G := by
  unfold GayRpc.runStub parseResponseWrapper
  refine Guarantees.bind ?_ fun _ => trivial
  cases parseMessage code.codec "response" stub.type rpcMeta.encoding data with
  | error e => trivial
  | ok message =>
      have herror := rpcMeta.map_copy_error
      unfold RpcMeta.error at herror
      dsimp only
      rw [herror]
      refine (hC.lift _).plug (fun _ args => ?_) ()
      refine (hC.runHandle (hG _)).bind fun r => ?_
      cases r with
      | ok _ => trivial
      | error _ => trivial

/-- What a response leads to, when the callbacks it finds may be shown. -/
theorem processRpcResponse {rpcMeta : RpcMeta}
    (hforget : ∀ {h}, I h → C h (h.mapClient (.forget rpcMeta.responseInfo.sequenceId)))
    (htimeout : ∀ {h t}, I h →
      h.client.mTimeoutHandleMap.lookup rpcMeta.responseInfo.sequenceId = some t →
        G (.timeout rpcMeta.responseInfo.sequenceId t.owner))
    (hhandle : ∀ {h stub}, I h →
      h.client.mStubHandleMap.lookup rpcMeta.responseInfo.sequenceId = some stub → ∀ message,
        G (.handle rpcMeta.responseInfo.sequenceId stub.owner message rpcMeta.error))
    (data : StringView) (context : Ctx) :
    (GayRpc.processRpcResponse code rpcMeta data context :
      ClientProg queue D H T Msg U).Guarantees I C G := by
  by_cases htype : rpcMeta.type = .response
  · rw [processRpcResponse_eq code rpcMeta data context htype]
    refine guarantees_onClient (fun h hs => hforget hs) fun h hs => ?_
    obtain ⟨-, t, ht, -, hp⟩ | ⟨-, stub, hstub, hp⟩ | ⟨r, hp, -⟩ :=
      afterSection_cases code rpcMeta data context h
    · rw [hp]
      exact hC.runTimeout (htimeout hs ht)
    · rw [hp]
      exact hC.runStub (hhandle hs hstub) data context
    · rw [hp]
      trivial
  · rw [GayRpc.processRpcResponse, if_pos htype]
    trivial

/-- The last loop of a sweep, whose callbacks may be shown. -/
theorem runCallbacks {callbacks : List (UInt64 × TimeoutCallback T)}
    (hG : ∀ p ∈ callbacks, G (.timeout p.1 p.2.owner)) :
    (GayRpc.runCallbacks code callbacks : ClientProg queue D H T Msg U).Guarantees I C G := by
  induction callbacks with
  | nil => trivial
  | cons p callbacks ih =>
      obtain ⟨hp, hrest⟩ := List.forall_mem_cons.mp hG
      apply (hC.runTimeout hp).bind
      intro r
      cases r with
      | ok _ => exact ih hrest
      | error _ => trivial

theorem checkTimeout
    (hexpire : ∀ {h} now, I h → C h (h.mapClient fun c => (c.expire now).1))
    (htimeout : ∀ {h} now, I h → ∀ p ∈ (h.client.expire now).2, G (.timeout p.1 p.2.owner)) :
    (GayRpc.checkTimeout code : ClientProg queue D H T Msg U).Guarantees I C G := by
  intro h hs h' hh'
  obtain rfl := Option.some.inj hh'
  refine ⟨hC.read hs, ?_⟩
  exact guarantees_onClient (fun h₁ hs₁ => hexpire h.clock hs₁) fun h₁ hs₁ =>
    hC.runCallbacks (htimeout h.clock hs₁)

/-- All that may run at any time, when every callback that is found may be shown. -/
theorem operation (hforget : ∀ {h} x, I h → C h (h.mapClient (.forget x)))
    (hexpire : ∀ {h} now, I h → C h (h.mapClient fun c => (c.expire now).1))
    (htimeout : ∀ {h x t}, I h → h.client.mTimeoutHandleMap.lookup x = some t → G (.timeout x t.owner))
    (hhandle : ∀ {h x stub}, I h → h.client.mStubHandleMap.lookup x = some stub → ∀ message error,
      G (.handle x stub.owner message error))
    {p : ClientProg queue D H T Msg U} (hp : Operation code p) : p.Guarantees I C G := by
  cases hp with
  | call r => exact hC.call r
  | processRpcResponse rpcMeta data context =>
      apply hC.processRpcResponse
      · exact hforget _
      · exact htimeout
      · intro h stub hs hstub message
        exact hhandle hs hstub message _
  | checkTimeout =>
      apply hC.checkTimeout hexpire
      intro h now hs p hp
      exact htimeout hs ((h.client.expire_rounds now).lookup p hp)

end CallSections

/-! ## Consistent clients -/

def Host.Consistent (h : Host queue D H T U) : Prop := h.client.Consistent

theorem callSections_consistent (hG : ∀ rpcMeta message, G (.request rpcMeta message)) :
    CallSections (Host.Consistent : Host queue D H T U → Prop) (fun _ h' => h'.Consistent) G where
  request := hG
  setUser _ hs := hs
  read hs := hs
  allocate hs := hs.allocate
  insertTimed hstub ht hs := hs.insertTimed hstub ht _
  insertUntimed hstub ht hs := hs.insertUntimed hstub ht

/-- A response to the call `q` runs callbacks of that call only. -/
theorem keeps_processRpcResponse {rpcMeta : RpcMeta}
    (hq : rpcMeta.responseInfo.sequenceId = q) (data : StringView) (context : Ctx) :
    (processRpcResponse code rpcMeta data context : ClientProg queue D H T Msg U).Keeps
      Host.Consistent (ClientEvent.BelongsTo q) := by
  subst hq
  apply (callSections_consistent fun _ _ => trivial).processRpcResponse
  · intro h hs
    exact BaseClient.Consistent.forget hs _
  · intro h t hs ht
    exact ⟨rfl, hs.timeout_owner ht⟩
  · intro h stub hs hstub message
    exact ⟨rfl, hs.stub_owner hstub⟩

end guarantees

end GayRpc
