import GayRpc.Protocol.Frame
import GayRpc.Protocol.Inner

/-!
# Writer and parser together

`serializeProtobufPacket` writes one frame of the outer layer (`bytes_eq_encode`), and
`binaryPacketHandle` hands the two parts of that frame on unchanged (`opHandle_message`). Whatever
becomes of a message (its meta does not parse, or `handleRpcMsg` throws), `opHandle` returns, so the
outer loop goes on with the next frame.

A stream is made of items, which are messages as `binary::send` writes them, or frames with any other op
code. `binaryPacketHandle_stream` says what is made of a stream of items with the beginning of one more item
behind it: `handleRpcMsg` is called for each message whose meta parses, in order and with the bytes that
were written, and the position is saved behind the last complete item. For a stream that comes in chunks
the same follows with the frame code of `Protocol/Frame`.
-/

namespace GayRpc

/-- The two serialised parts of a message, short enough for the protocol. -/
structure Message where
  rpcMeta : List UInt8
  data : List UInt8
  meta_lt : rpcMeta.length < 2 ^ 31
  body_lt : 12 + rpcMeta.length + data.length < 2 ^ 64

namespace Message

variable (order : ByteOrder) (m : Message)

/-- What `binary::send` puts on the wire. -/
def bytes : List UInt8 := (serializeProtobufPacket ⟨order, []⟩ m.rpcMeta m.data).buffer

theorem toNat_bodyLen :
    (4 + 8 + UInt64.ofNat m.rpcMeta.length + UInt64.ofNat m.data.length : UInt64).toNat =
      12 + m.rpcMeta.length + m.data.length := by
  have hbody := m.body_lt
  simp only [UInt64.toNat_add, UInt64.toNat_ofNat', UInt64.reduceAdd, UInt64.reduceToNat]
  omega

/-- The frame of the outer layer that holds the message. -/
def packet : OpPacket :=
  { dataLen := 4 + 8 + UInt64.ofNat m.rpcMeta.length + UInt64.ofNat m.data.length
    op := opCodeProtobuf
    data := order.encode 4 (UInt32.ofNat m.rpcMeta.length).toNat ++
      (order.encode 8 (UInt64.ofNat m.data.length).toNat ++ (m.rpcMeta ++ m.data))
    length_data := by
      rw [toNat_bodyLen]
      simp only [List.length_append, ByteOrder.length_encode]
      omega }

/-- The writer appends exactly the frame. -/
theorem bytes_eq_encode : m.bytes order = (m.packet order).encode order := by
  simp [bytes, serializeProtobufPacket, BasePacketWriter.writeUINT32, BasePacketWriter.writeUINT64,
    BasePacketWriter.writeBinary, OpPacket.encode, packet]

/-! ## The inner header of the frame -/

theorem metaSize_packet : (m.packet order).metaSize order = UInt32.ofNat m.rpcMeta.length := by
  have h4 : (m.packet order).data.take 4 = order.encode 4 (UInt32.ofNat m.rpcMeta.length).toNat :=
    List.take_left' (order.length_encode 4 _)
  rw [OpPacket.metaSize, h4, ofNat_decode_encode_32]

theorem dataSize_packet : (m.packet order).dataSize order = UInt64.ofNat m.data.length := by
  have h4 : (m.packet order).data.drop 4 =
      order.encode 8 (UInt64.ofNat m.data.length).toNat ++ (m.rpcMeta ++ m.data) :=
    List.drop_left' (order.length_encode 4 _)
  have h8 : ((m.packet order).data.drop 4).take 8 =
      order.encode 8 (UInt64.ofNat m.data.length).toNat := by
    rw [h4]
    exact List.take_left' (order.length_encode 8 _)
  rw [OpPacket.dataSize, h8, ofNat_decode_encode_64]

theorem toNat_metaSize_packet : ((m.packet order).metaSize order).toNat = m.rpcMeta.length := by
  have hmeta := m.meta_lt
  rw [metaSize_packet]
  exact UInt32.toNat_ofNat_of_lt' (Nat.lt_trans hmeta (by decide))

theorem toNat_dataSize_packet : ((m.packet order).dataSize order).toNat = m.data.length := by
  have hlt : m.data.length < UInt64.size := by
    have hbody := m.body_lt
    simp only [UInt64.size]
    omega
  rw [dataSize_packet]
  exact UInt64.toNat_ofNat_of_lt' hlt

theorem drop_data_packet : (m.packet order).data.drop 12 = m.rpcMeta ++ m.data := by
  have hhead : (order.encode 4 (UInt32.ofNat m.rpcMeta.length).toNat ++
      order.encode 8 (UInt64.ofNat m.data.length).toNat).length = 12 := by simp
  show (order.encode 4 _ ++ (order.encode 8 _ ++ (m.rpcMeta ++ m.data))).drop 12 = _
  rw [← List.append_assoc]
  exact List.drop_left' hhead

theorem wellFormed_packet : (m.packet order).WellFormed order := by
  have hlen : (m.packet order).dataLen.toNat = 12 + m.rpcMeta.length + m.data.length :=
    m.toNat_bodyLen
  rw [OpPacket.WellFormed, toNat_metaSize_packet, toNat_dataSize_packet, hlen]
  omega

/-- The views of the packet handed on are the two parts. -/
theorem metaView_bytes : ((m.packet order).protobufPacket order).metaView.bytes = m.rpcMeta := by
  have hsize : ((m.packet order).metaSize order).toUInt64.toNat = m.rpcMeta.length := by
    rw [UInt32.toNat_toUInt64, toNat_metaSize_packet]
  simp only [StringView.bytes, OpPacket.protobufPacket, drop_data_packet, hsize]
  exact List.take_left' rfl

theorem dataView_bytes : ((m.packet order).protobufPacket order).dataView.bytes = m.data := by
  have hdrop : (m.packet order).data.drop (12 + m.rpcMeta.length) = m.data := by
    rw [← List.drop_drop, drop_data_packet]
    exact List.drop_left' rfl
  simp only [StringView.bytes, OpPacket.protobufPacket, toNat_metaSize_packet,
    toNat_dataSize_packet, hdrop]
  exact List.take_of_length_le (Nat.le_refl _)

theorem toNat_dataView_size :
    ((m.packet order).protobufPacket order).dataView.size.toNat = m.data.length :=
  toNat_dataSize_packet order m

theorem toInt_metaView_size :
    toInt ((m.packet order).protobufPacket order).metaView.size = m.rpcMeta.length := by
  have hsize : ((m.packet order).protobufPacket order).metaView.size.toNat = m.rpcMeta.length := by
    rw [← toNat_metaSize_packet order m]
    exact UInt32.toNat_toUInt64 _
  rw [toInt_eq (hsize ▸ m.meta_lt), hsize]

end Message

/-! ## One frame -/

section opHandle

variable {σ : Type} (order : ByteOrder) (parseFromArray : List UInt8 → Int → Option RpcMeta)
  (handleRpcMsg : RpcMeta → StringView → σ → Except Exn Unit × σ)

theorem pbPacketHandle_returns (packet : ProtobufPacket) (s : σ) :
    (pbPacketHandle parseFromArray handleRpcMsg packet s).1 = .ok () := by
  unfold pbPacketHandle
  split
  · rfl
  · split <;> rfl

/-- A frame with another op code is passed over. -/
theorem opHandle_other {p : OpPacket} (h : p.op ≠ opCodeProtobuf) (s : σ) :
    opHandle order parseFromArray handleRpcMsg p s = (.ok false, s) :=
  if_pos h

/-- What a message does to the state: nothing if its meta does not parse, and otherwise what
`handleRpcMsg` does to it, whether that returns or throws. -/
theorem opHandle_message (m : Message) (s : σ) :
    opHandle order parseFromArray handleRpcMsg (m.packet order) s =
      (.ok true, match parseFromArray m.rpcMeta m.rpcMeta.length with
        | none => s
        | some rpcMeta =>
            (handleRpcMsg rpcMeta ((m.packet order).protobufPacket order).dataView s).2) := by
  have hop : ¬ (m.packet order).op ≠ opCodeProtobuf := fun h => h rfl
  rw [opHandle, if_neg hop, parseProtobufPacket_of_wellFormed (m.wellFormed_packet order)]
  simp only [pbPacketHandle, m.metaView_bytes, m.toInt_metaView_size]
  cases parseFromArray m.rpcMeta m.rpcMeta.length with
  | none => rfl
  | some rpcMeta =>
      simp only
      generalize handleRpcMsg rpcMeta _ s = result
      obtain ⟨_ | _, s'⟩ := result <;> rfl

end opHandle

/-! ## Whole streams -/

inductive StreamItem where
  | message (m : Message)
  | other (p : OpPacket) (h : p.op ≠ opCodeProtobuf)

namespace StreamItem

variable (order : ByteOrder)

def bytes : StreamItem → List UInt8
  | .message m => m.bytes order
  | .other p _ => p.encode order

def packet : StreamItem → OpPacket
  | .message m => m.packet order
  | .other p _ => p

/-- What `handleRpcMsg` is given on account of the frame. -/
def handedOn (parseFromArray : List UInt8 → Int → Option RpcMeta) :
    StreamItem → Option (RpcMeta × List UInt8)
  | .message m => (parseFromArray m.rpcMeta m.rpcMeta.length).map fun rpcMeta => (rpcMeta, m.data)
  | .other _ _ => none

theorem bytes_eq_encode (item : StreamItem) : item.bytes order = (item.packet order).encode order := by
  cases item with
  | message m => exact m.bytes_eq_encode order
  | other p h => rfl

end StreamItem

variable {σ : Type}

/-- `handleRpcMsg`, with the pairs it is given written down in front of its state. -/
def loggedMsg (handleRpcMsg : RpcMeta → StringView → σ → Except Exn Unit × σ) (m : RpcMeta)
    (data : StringView) (s : List (RpcMeta × List UInt8) × σ) :
    Except Exn Unit × List (RpcMeta × List UInt8) × σ :=
  ((handleRpcMsg m data s.2).1, s.1 ++ [(m, data.bytes)], (handleRpcMsg m data s.2).2)

/-- `opHandle` returns on every frame of a stream, and the log grows by what it hands on. -/
theorem opHandle_item (order : ByteOrder) (parseFromArray : List UInt8 → Int → Option RpcMeta)
    (handleRpcMsg : RpcMeta → StringView → σ → Except Exn Unit × σ) (item : StreamItem)
    (log : List (RpcMeta × List UInt8)) (s : σ) :
    ∃ (b : Bool) (s' : σ),
      opHandle order parseFromArray (loggedMsg handleRpcMsg) (item.packet order) (log, s) =
        (.ok b, log ++ (item.handedOn parseFromArray).toList, s') := by
  cases item with
  | other p h =>
      have hother := opHandle_other order parseFromArray (loggedMsg handleRpcMsg) h (log, s)
      refine ⟨false, s, ?_⟩
      show opHandle order parseFromArray (loggedMsg handleRpcMsg) p (log, s) = _
      rw [hother]
      simp [StreamItem.handedOn]
  | message m =>
      rw [show (StreamItem.message m).packet order = m.packet order from rfl, opHandle_message]
      cases hparse : parseFromArray m.rpcMeta m.rpcMeta.length with
      | none => exact ⟨true, s, by simp [StreamItem.handedOn, hparse]⟩
      | some rpcMeta =>
          refine ⟨true, (handleRpcMsg rpcMeta
            ((m.packet order).protobufPacket order).dataView s).2, ?_⟩
          simp only [loggedMsg, m.dataView_bytes, StreamItem.handedOn, hparse, Option.map_some,
            Option.toList_some]

/-- Induction on the stream: every frame adds what it hands on to the log. -/
theorem runHandler_items (order : ByteOrder) (parseFromArray : List UInt8 → Int → Option RpcMeta)
    (handleRpcMsg : RpcMeta → StringView → σ → Except Exn Unit × σ) (items : List StreamItem)
    (log : List (RpcMeta × List UInt8)) (s : σ) :
    ∃ s' : σ, runHandler (opHandle order parseFromArray (loggedMsg handleRpcMsg))
        (items.map (StreamItem.packet order)) (log, s) =
      (log ++ items.filterMap (StreamItem.handedOn parseFromArray), s') := by
  induction items generalizing log s with
  | nil => exact ⟨s, by simp [runHandler]⟩
  | cons item items ih =>
      obtain ⟨b, s₁, hitem⟩ := opHandle_item order parseFromArray handleRpcMsg item log s
      obtain ⟨s₂, hrest⟩ := ih (log ++ (item.handedOn parseFromArray).toList) s₁
      refine ⟨s₂, ?_⟩
      have hstep : runHandler (opHandle order parseFromArray (loggedMsg handleRpcMsg))
            ((item :: items).map (StreamItem.packet order)) (log, s) =
          runHandler (opHandle order parseFromArray (loggedMsg handleRpcMsg))
            (items.map (StreamItem.packet order))
            (log ++ (item.handedOn parseFromArray).toList, s₁) := by
        simp only [runHandler, List.map_cons, List.foldl_cons, hitem]
      rw [hstep, hrest, List.append_assoc]
      cases hhand : item.handedOn parseFromArray <;> simp [hhand]

/-- **Decoding undoes encoding.** On a stream of complete frames followed by a proper prefix `tail`
of some frame, one call hands on exactly the messages whose meta parses, each once, in order and with
its data unchanged, whatever `handleRpcMsg` does with them; it does not throw, and it saves the
position where `tail` starts. -/
theorem binaryPacketHandle_stream (order : ByteOrder)
    (parseFromArray : List UInt8 → Int → Option RpcMeta)
    (handleRpcMsg : RpcMeta → StringView → σ → Except Exn Unit × σ) (items : List StreamItem)
    (next : OpPacket) (tail missing : List UInt8) (htail : next.encode order = tail ++ missing)
    (hmissing : missing ≠ [])
    (hlen : (items.flatMap (StreamItem.bytes order) ++ tail).length < 2 ^ 64) (s : σ) :
    ∃ (reader : BasePacketReader) (s' : σ),
      binaryPacketHandle order parseFromArray (loggedMsg handleRpcMsg)
          (.ofBuffer order (items.flatMap (StreamItem.bytes order) ++ tail)) ([], s) =
        (.ok (), reader, items.filterMap (StreamItem.handedOn parseFromArray), s') ∧
      reader.savedPos = (items.flatMap (StreamItem.bytes order)).length := by
  have hbytes : items.flatMap (StreamItem.bytes order) =
      (opCode order).encodeAll (items.map (StreamItem.packet order)) := by
    rw [FrameCode.encodeAll, List.flatMap_map]
    exact congrArg (items.flatMap ·) (funext fun item => item.bytes_eq_encode order)
  -- the items are frames of the code, and the tail is too short for another one
  have hsplit : (opCode order).Splits (items.flatMap (StreamItem.bytes order) ++ tail)
      (items.map (StreamItem.packet order)) tail :=
    ⟨by rw [hbytes], FrameCode.incomplete_of_prefix htail hmissing⟩
  -- the handler returns on each item, whatever came of the message
  have hreturns : ReturnsOn (opHandle order parseFromArray (loggedMsg handleRpcMsg))
      (items.map (StreamItem.packet order)) := by
    intro p hp st
    obtain ⟨item, -, rfl⟩ := List.mem_map.mp hp
    obtain ⟨b, s', hitem⟩ := opHandle_item order parseFromArray handleRpcMsg item st.1 st.2
    exact ⟨b, congrArg Prod.fst hitem⟩
  obtain ⟨reader, hrun, -, hpos⟩ := parseOpPacket_splits ([], s) hlen hsplit hreturns
  obtain ⟨s', hlog⟩ := runHandler_items order parseFromArray handleRpcMsg items [] s
  refine ⟨reader, s', ?_, ?_⟩
  · rw [binaryPacketHandle, hrun, hlog]
    rfl
  · rw [List.length_append] at hpos
    omega

/-- A message whose meta parses and one whose meta does not, around a frame of op code 2, in front of
the first three bytes of another message; `handleRpcMsg` throws. -/
theorem binaryPacketHandle_stream_example :
    ∃ (reader : BasePacketReader) (s' : Unit),
      binaryPacketHandle .big (fun bs _ => if bs = [7] then some {} else none)
          (loggedMsg fun _ _ s => (.error .unknown, s))
          (.ofBuffer .big
            ([.message ⟨[7], [1, 2], by decide, by decide⟩, .other ⟨1, 2, [9], rfl⟩ (by decide),
              .message ⟨[8], [], by decide, by decide⟩].flatMap (StreamItem.bytes .big) ++ [0, 0, 0]))
          ([], ()) =
        (.ok (), reader, [({}, [1, 2])], s') ∧ reader.savedPos = 65 :=
  binaryPacketHandle_stream .big (fun bs _ => if bs = [7] then some {} else none)
    (fun _ _ s => (.error .unknown, s))
    [.message ⟨[7], [1, 2], by decide, by decide⟩, .other ⟨1, 2, [9], rfl⟩ (by decide),
      .message ⟨[8], [], by decide, by decide⟩]
    ⟨0, 1, [], rfl⟩ [0, 0, 0] [0, 0, 0, 0, 0, 0, 0, 0, 1] (by decide) (by decide) (by decide) ()

/-! ## Chunks of a stream -/

theorem splits_messages (order : ByteOrder) (ms : List Message) :
    (opCode order).Splits (ms.flatMap (Message.bytes order)) (ms.map (Message.packet order)) [] := by
  refine ⟨?_, FrameCode.incomplete_nil⟩
  rw [List.append_nil, FrameCode.encodeAll, List.flatMap_map]
  exact congrArg (ms.flatMap ·) (funext fun m => m.bytes_eq_encode order)

theorem returnsOn_messages (order : ByteOrder) (parseFromArray : List UInt8 → Int → Option RpcMeta)
    (handleRpcMsg : RpcMeta → StringView → σ → Except Exn Unit × σ) (ms : List Message) :
    ReturnsOn (opHandle order parseFromArray handleRpcMsg) (ms.map (Message.packet order)) := by
  intro p hp s
  obtain ⟨m, -, rfl⟩ := List.mem_map.mp hp
  exact ⟨true, congrArg Prod.fst (opHandle_message order parseFromArray handleRpcMsg m s)⟩

/-- Of a stream of messages a chunk completes some, in order, and what is held back is the start of the
rest. -/
theorem receive_messages {order : ByteOrder} {parseFromArray : List UInt8 → Int → Option RpcMeta}
    {handleRpcMsg : RpcMeta → StringView → σ → Except Exn Unit × σ} {ms : List Message}
    {held chunk rest : List UInt8} (hlen : (held ++ chunk).length < 2 ^ 64)
    (hbytes : held ++ (chunk ++ rest) = ms.flatMap (Message.bytes order)) (s : σ) :
    ∃ (done left : List Message) (held' : List UInt8), ms = done ++ left ∧
      held' ++ rest = left.flatMap (Message.bytes order) ∧
      receive order (opHandle order parseFromArray handleRpcMsg) held chunk s = (.ok (), held',
        runHandler (opHandle order parseFromArray handleRpcMsg) (done.map (Message.packet order)) s) := by
  obtain ⟨fs, held', hcut⟩ := (opCode order).exists_splits (held ++ chunk)
  obtain ⟨gs, tail, hrest⟩ := (opCode order).exists_splits (held' ++ rest)
  have hall : (opCode order).Splits (ms.flatMap (Message.bytes order)) (fs ++ gs) tail := by
    rw [← hbytes, ← List.append_assoc]
    exact hcut.append hrest
  -- there is only one way to cut the stream, and that is into its messages
  obtain ⟨hfs, rfl⟩ := hall.unique (splits_messages order ms)
  obtain ⟨done, left, rfl, rfl, rfl⟩ := List.map_eq_append_iff.mp hfs.symm
  refine ⟨done, left, held', rfl, ?_, ?_⟩
  · rw [hrest.eq, (splits_messages order left).eq]
  · exact receive_splits s hlen hcut (returnsOn_messages order parseFromArray handleRpcMsg done)

end GayRpc
