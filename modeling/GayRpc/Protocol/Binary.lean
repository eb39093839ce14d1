import GayRpc.Core.Meta
import GayRpc.Core.StringView
import GayRpc.Protocol.Reader

/-!
# The binary protocol

`BinaryProtocol.h`, function by function. A frame of the outer layer is `[data_len | op | data]`;
the data of a frame with op code 1 is a frame of the inner layer, `[meta_size | data_size | meta |
data]`.

    binaryPacketHandle
      parseOpPacket              cuts the bytes into frames of the outer layer
        opHandle                 passes over frames with another op code
          parseProtobufPacket    cuts a frame of the inner layer into its two parts
            pbPacketHandle       parses the meta, and hands both parts to handleRpcMsg

A handler is a function that may change a state `σ` and may throw; what it changed before it threw
stays changed. `handleRpcMsg` and the parser of `RpcMeta` are parameters: the first belongs to the
dispatch table, the second to the generated code. What the functions print is left out.

The loop of `parseOpPacket` ends when there is no complete frame left. A frame takes twelve bytes at least,
so as many rounds as there are bytes are enough.
-/

namespace GayRpc

def opCodeProtobuf : UInt32 := 1

/-- `OpPacket`. `data` points at the `data_len` bytes behind the header; that so many are there is
what `parseOpPacket` checks before it builds one. -/
structure OpPacket where
  dataLen : UInt64
  op : UInt32
  data : List UInt8
  length_data : data.length = dataLen.toNat
  deriving DecidableEq

structure ProtobufPacket where
  metaSize : UInt32
  dataSize : UInt64
  metaView : StringView
  dataView : StringView
  deriving DecidableEq

def serializeProtobufPacket (bpw : BasePacketWriter) (rpcMeta data : List UInt8) :
    BasePacketWriter :=
  let bodyLen : UInt64 := 4 + 8 + UInt64.ofNat rpcMeta.length + UInt64.ofNat data.length
  ((((bpw.writeUINT64 bodyLen).writeUINT32 opCodeProtobuf).writeUINT32
    (UInt32.ofNat rpcMeta.length)).writeUINT64 (UInt64.ofNat data.length)).writeBinary rpcMeta
    |>.writeBinary data

variable {σ : Type}

/-- The loop of `parseOpPacket`. `fuel` bounds the number of frames; one frame takes at least the
twelve bytes of its header. -/
def parseOpPacketLoop (handler : OpPacket → σ → Except Exn Bool × σ) :
    Nat → BasePacketReader → σ → Except Exn Unit × BasePacketReader × σ
  | 0, reader, s => (.ok (), reader, s)
  | fuel + 1, reader, s =>
      if reader.enough 12 then
        match reader.readUINT64 with
        | .error e => (.error e, reader, s)
        | .ok (dataLen, reader₁) =>
          match reader₁.readUINT32 with
          | .error e => (.error e, reader₁, s)
          | .ok (op, reader₂) =>
            -- the header is read, but the position is not saved: an unfinished body comes again
            if h : reader₂.enough dataLen then
              let opPacket : OpPacket :=
                { dataLen := dataLen
                  op := op
                  data := reader₂.currentBuffer.take dataLen.toNat
                  length_data := by
                    rw [List.length_take, BasePacketReader.length_currentBuffer]
                    exact Nat.min_eq_left (BasePacketReader.enough_iff.mp h) }
              match handler opPacket s with
              | (.error e, s') => (.error e, reader₂, s')
              | (.ok _, s') =>
                match reader₂.addPos dataLen with
                | .error e => (.error e, reader₂, s')
                | .ok reader₃ => parseOpPacketLoop handler fuel reader₃.savePos s'
            else (.ok (), reader₂, s)
      else (.ok (), reader, s)

def parseOpPacket (handler : OpPacket → σ → Except Exn Bool × σ) (reader : BasePacketReader)
    (s : σ) : Except Exn Unit × BasePacketReader × σ :=
  parseOpPacketLoop handler (reader.getLeft + 1) reader s

/-- `parseProtobufPacket`. The two sizes are added in 64 bits. -/
def parseProtobufPacket (order : ByteOrder) (opPacket : OpPacket)
    (handler : ProtobufPacket → σ → Except Exn Unit × σ) (s : σ) : Except Exn Bool × σ :=
  let bpr := BasePacketReader.ofBuffer order opPacket.data
  if bpr.enough 12 then
    match bpr.readUINT32 with
    | .error e => (.error e, s)
    | .ok (metaSize, bpr₁) =>
      match bpr₁.readUINT64 with
      | .error e => (.error e, s)
      | .ok (dataSize, bpr₂) =>
        -- a sum of 64 bits, which may wrap
        if bpr₂.enough (metaSize.toUInt64 + dataSize) then
          match bpr₂.addPos metaSize.toUInt64 with
          | .error e => (.error e, s)
          | .ok bpr₃ =>
            match bpr₃.addPos dataSize with
            | .error e => (.error e, s)
            | .ok _ =>
              let packet : ProtobufPacket :=
                { metaSize := metaSize
                  dataSize := dataSize
                  metaView := ⟨opPacket.data, bpr₂.pos, metaSize.toUInt64⟩
                  dataView := ⟨opPacket.data, bpr₃.pos, dataSize⟩ }
              match handler packet s with
              | (.error e, s') => (.error e, s')
              | (.ok (), s') => (.ok true, s')
        else (.ok false, s)
  else (.ok false, s)

section binaryPacketHandle

variable (order : ByteOrder) (parseFromArray : List UInt8 → Int → Option RpcMeta)
  (handleRpcMsg : RpcMeta → StringView → σ → Except Exn Unit × σ)

/-- `pbPacketHandle`: both `catch` clauses print and return. -/
def pbPacketHandle (msg : ProtobufPacket) (s : σ) : Except Exn Unit × σ :=
  match parseFromArray msg.metaView.bytes (toInt msg.metaView.size) with
  | none => (.ok (), s)
  | some m =>
    match handleRpcMsg m msg.dataView s with
    | (.ok (), s') => (.ok (), s')
    | (.error _, s') => (.ok (), s')

/-- `opHandle`: only frames with the op code of protobuf are looked into. -/
def opHandle (opPacket : OpPacket) (s : σ) : Except Exn Bool × σ :=
  if opPacket.op ≠ opCodeProtobuf then (.ok false, s)
  else parseProtobufPacket order opPacket (pbPacketHandle parseFromArray handleRpcMsg) s

/-- `binaryPacketHandle`, which the transport calls with all bytes it holds for the connection. -/
def binaryPacketHandle (reader : BasePacketReader) (s : σ) :
    Except Exn Unit × BasePacketReader × σ :=
  parseOpPacket (opHandle order parseFromArray handleRpcMsg) reader s

end binaryPacketHandle

end GayRpc
