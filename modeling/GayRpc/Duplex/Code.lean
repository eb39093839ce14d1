import GayRpc.Core.Client
import GayRpc.Core.MetaWire
import GayRpc.Core.Service
import GayRpc.Core.TypeHandler
import GayRpc.Protocol.Stream

/-!
# The code of two peers

Each peer has a client and a service of one and the same service id. The interceptors of the user pass
messages through, and the outbound chains end in the sender of the session. Protobuf is a parameter
again, now with the classes of the messages and with the serialisation of `RpcMeta`.

A method is any program that calls its reply object, or does not: it may start threads, which reply later,
and ask as often as it likes. An interceptor of the user is any program that calls its continuation once
with what it was called with, and works on the user's part of the state besides.

What is asked of Protobuf (`RoundTrips`) is that an object of a class comes back from its bytes, as long as
those are below the size limit of the runtime. Of `RpcMeta` that is not an assumption: its generated code
has the property (`Protobuf.RoundTrips.of_generated`).
-/

namespace GayRpc

inductive Side where
  | left
  | right
  deriving DecidableEq

namespace Side

def other : Side → Side
  | left => right
  | right => left

@[simp] theorem other_other (side : Side) : side.other.other = side := by
  cases side <;> rfl

@[simp] theorem other_ne (side : Side) : side.other ≠ side := by
  cases side <;> decide

@[simp] theorem ne_other (side : Side) : side ≠ side.other := (other_ne side).symm

theorem eq_or_eq_other (a b : Side) : a = b ∨ a = b.other := by
  cases a <;> cases b <;> decide

end Side

/-- What the generated classes offer, the one of `RpcMeta` included. -/
structure Protobuf (D Msg : Type) extends MessageCodec D Msg where
  /-- the message is an object of the class -/
  OfClass : D → Msg → Prop
  /-- an object of the class on which nothing was set -/
  default : D → Msg
  parseMeta : List UInt8 → Int → Option RpcMeta
  serializeMeta : RpcMeta → List UInt8
  /-- messages are shorter than this; their size is an `int` -/
  sizeLimit : ℕ
  sizeLimit_le : sizeLimit ≤ 2 ^ 31
  /-- `RpcMeta{}` -/
  emptyMeta : Msg

/-- What Protobuf promises of messages below its limit. An object on which nothing was set is serialised
to no bytes at all. -/
structure Protobuf.RoundTrips {D Msg : Type} (P : Protobuf D Msg) : Prop where
  message : ∀ {type m}, P.OfClass type m → (P.serializeAsString m).length < P.sizeLimit →
    P.parseFromArray type (P.serializeAsString m) (P.serializeAsString m).length = some m
  rpcMeta : ∀ {m}, (P.serializeMeta m).length < P.sizeLimit →
    P.parseMeta (P.serializeMeta m) (P.serializeMeta m).length = some m
  serialize_emptyMeta : P.serializeAsString P.emptyMeta = []
  parse_nil : ∀ type, P.parseFromArray type [] 0 = some (P.default type)

/-- What is promised of `RpcMeta`, its generated code keeps. -/
theorem Protobuf.RoundTrips.of_generated {D Msg F : Type} {P : Protobuf D Msg} (R : MetaRuntime F)
    (hlimit : P.sizeLimit ≤ R.sizeLimit) (hparse : P.parseMeta = Pb.RpcMeta.parseFromArray R)
    (hserialize : P.serializeMeta = Pb.RpcMeta.serializeAsString R)
    (hmessage : ∀ {type m}, P.OfClass type m → (P.serializeAsString m).length < P.sizeLimit →
      P.parseFromArray type (P.serializeAsString m) (P.serializeAsString m).length = some m)
    (hempty : P.serializeAsString P.emptyMeta = [])
    (hnil : ∀ type, P.parseFromArray type [] 0 = some (P.default type)) : P.RoundTrips where
  message := hmessage
  rpcMeta := by
    intro m hm
    rw [hserialize] at hm ⊢
    rw [hparse]
    exact Pb.RpcMeta.parseFromArray_serializeAsString m (Nat.lt_of_lt_of_le hm hlimit)
  serialize_emptyMeta := hempty
  parse_nil := hnil

/-- A connection as one of its ends has it, and what the user keeps there: the bytes that were written
and have not been delivered yet. `sent` is all that was ever written, message by message; the program
does not look at it. -/
structure Session (V : Type) where
  user : V
  outgoing : List UInt8 := []
  sent : List (List UInt8 × List UInt8) := []

namespace Session

variable {D Msg Ctx V : Type}

def setUser (s : Session V) (v : V) : Session V := { s with user := v }

/-- `binary::send`, with the two parts serialised. -/
def send (order : ByteOrder) (rpcMeta data : List UInt8) (s : Session V) : Session V :=
  { s with
    outgoing := s.outgoing ++ (serializeProtobufPacket ⟨order, []⟩ rpcMeta data).buffer
    sent := s.sent ++ [(rpcMeta, data)] }

/-- `withSessionBinarySender`, down to the bytes. -/
def withSessionBinarySender (P : Protobuf D Msg) (order : ByteOrder) :
    UnaryServerInterceptor (Session V) Empty Msg Ctx := fun args =>
  .act (fun s => some
    (s.send order (P.serializeMeta args.rpcMeta) (P.serializeAsString args.message))) fun _ =>
      .ask args .ret

end Session

/-- An interceptor of the user, which passes messages through. -/
abbrev UserInterceptor (V Msg Ctx : Type) : Type :=
  { x : UnaryServerInterceptor V Empty Msg Ctx // PassesThrough (fun _ => True) x }

/-- `TemplateReply` lets a method reply with objects of its response class. -/
def ReplyCall.OfClass {D Msg Ctx : Type} (P : Protobuf D Msg) (type : D) : ReplyCall Msg Ctx → Prop
  | .reply response _ => P.OfClass type response
  | .error _ _ _ => True

/-- A method of a service with its two classes. What it calls on its reply object, it may call whenever
it likes: it can start threads which wait until the user has made up his mind. -/
structure RpcMethod {D Msg : Type} (P : Protobuf D Msg) (Ctx V : Type) where
  requestType : D
  responseType : D
  run : Msg → Ctx → Prog V Empty { call : ReplyCall Msg Ctx // call.OfClass P responseType }
    (Except Exn Unit) (Except Exn Unit)

/-- What the user has at one end of the connection. The two lists of methods are those that the maps of
the generated `Install` are made of. -/
structure PeerCode {D Msg : Type} (P : Protobuf D Msg) (Ctx V : Type) where
  clientInbound : List (UserInterceptor V Msg Ctx)
  clientOutbound : List (UserInterceptor V Msg Ctx)
  serviceInbound : List (UserInterceptor V Msg Ctx)
  serviceOutbound : List (UserInterceptor V Msg Ctx)
  serviceHandlerMapById : List (Sigma fun _ : UInt64 => RpcMethod P Ctx V)
  serviceHandlerMapByStr : List (Sigma fun _ : String => RpcMethod P Ctx V)

structure DuplexCode (D Msg Ctx V : Type) where
  protobuf : Protobuf D Msg
  order : ByteOrder
  serviceID : UInt32
  emptyContext : Ctx
  peer : Side → PeerCode protobuf Ctx V

section code

variable {D H T Msg Ctx V : Type}

def Promises.sessionUser (p : Promises (Session V)) : V := p.user.user

def Promises.setSessionUser (p : Promises (Session V)) (v : V) : Promises (Session V) :=
  { p with user := p.user.setUser v }

def RpcMethod.serviceMethod {P : Protobuf D Msg} (method : RpcMethod P Ctx V) :
    ServiceMethod D Msg Ctx (Session V) where
  type := method.requestType
  run message context :=
    ((method.run message context).lift Promises.sessionUser Promises.setSessionUser).plug
      (fun _ call => .ask call.val .ret) id ()

/-- The interceptors of the user, on the session. -/
def onSession (xs : List (UserInterceptor V Msg Ctx)) :
    List (UnaryServerInterceptor (Session V) Empty Msg Ctx) :=
  xs.map fun x args => (x.val args).lift Session.user Session.setUser

def onPromises (xs : List (UserInterceptor V Msg Ctx)) :
    List (UnaryServerInterceptor (Promises (Session V)) Empty Msg Ctx) :=
  xs.map fun x args => (x.val args).lift Promises.sessionUser Promises.setSessionUser

namespace DuplexCode

variable (code : DuplexCode D Msg Ctx V) (side : Side)

def outbound (xs : List (UserInterceptor V Msg Ctx)) :
    UnaryServerInterceptor (Session V) Empty Msg Ctx :=
  makeInterceptor (onSession xs ++ [Session.withSessionBinarySender code.protobuf code.order])

/-- The client of a peer. A response handle does nothing here by itself: what it does next, such as
another call, is one of the operations that may be started at any time. -/
def client : ClientCode D H T Msg Ctx (Session V) where
  codec := code.protobuf.toMessageCodec
  inbound := makeInterceptor (onSession (code.peer side).clientInbound)
  outbound := code.outbound (code.peer side).clientOutbound
  emptyContext := code.emptyContext
  handle _ _ _ := .ret (.ok ())
  timeout _ := .ret (.ok ())

def service : ServiceCode D Msg Ctx (Session V) where
  codec := code.protobuf.toMessageCodec
  inboundInterceptor := makeInterceptor (onPromises (code.peer side).serviceInbound)
  outboundInterceptor := code.outbound (code.peer side).serviceOutbound
  serviceHandlerMapById :=
    ((code.peer side).serviceHandlerMapById.map (Sigma.map id fun _ => RpcMethod.serviceMethod)).toFinmap
  serviceHandlerMapByStr :=
    ((code.peer side).serviceHandlerMapByStr.map (Sigma.map id fun _ => RpcMethod.serviceMethod)).toFinmap
  emptyContext := code.emptyContext
  noMessage := code.protobuf.emptyMeta

end DuplexCode

end code

end GayRpc
