import GayRpc.Lib.Framing
import GayRpc.Protocol.Binary

/-!
# The outer layer

The frames of the outer layer are a self-delimiting code, `opCode`, and `parseOpPacket` cuts the
unread bytes along it: it calls the handler on every complete frame in turn and saves the position
behind the last of them (`parseOpPacket_splits`). The transport presents the bytes behind the saved
position again, in front of what arrives next (`receive`), so that the frames handed on do not
depend on how the stream was cut into chunks (`receiveAll_eq_receive`).
-/

namespace GayRpc

/-! ## The frame code -/

namespace OpPacket

/-- A frame on the wire. -/
def encode (order : ByteOrder) (p : OpPacket) : List UInt8 :=
  order.encode 8 p.dataLen.toNat ++ order.encode 4 p.op.toNat ++ p.data

@[simp] theorem length_encode (order : ByteOrder) (p : OpPacket) :
    (p.encode order).length = 12 + p.dataLen.toNat := by
  simp only [encode, List.length_append, ByteOrder.length_encode, p.length_data]

@[ext] theorem ext {p q : OpPacket} (hop : p.op = q.op) (hdata : p.data = q.data) : p = q := by
  obtain ⟨len, op, data, h⟩ := p
  obtain ⟨len', op', data', h'⟩ := q
  obtain rfl : op = op' := hop
  obtain rfl : data = data' := hdata
  obtain rfl : len = len' := UInt64.toNat_inj.mp (h.symm.trans h')
  rfl

/-- The `data_len` field at the front of `s`. -/
def headLen (order : ByteOrder) (s : List UInt8) : UInt64 := UInt64.ofNat (order.decode (s.take 8))

/-- The `op` field at the front of `s`. -/
def headOp (order : ByteOrder) (s : List UInt8) : UInt32 :=
  UInt32.ofNat (order.decode ((s.drop 8).take 4))

/-- The complete frame at the front of `s`, if there is one, and what follows it. -/
def decode (order : ByteOrder) (s : List UInt8) : Option (OpPacket × List UInt8) :=
  if h : 12 ≤ s.length ∧ (headLen order s).toNat ≤ s.length - 12 then
    some ({ dataLen := headLen order s
            op := headOp order s
            data := (s.drop 12).take (headLen order s).toNat
            length_data := by
              rw [List.length_take, List.length_drop]
              exact Nat.min_eq_left h.2 },
      s.drop (12 + (headLen order s).toNat))
  else none

/-- The header is at the front of the encoding. -/
theorem headLen_encode (order : ByteOrder) (p : OpPacket) (rest : List UInt8) :
    headLen order (p.encode order ++ rest) = p.dataLen := by
  have h8 : (p.encode order ++ rest).take 8 = order.encode 8 p.dataLen.toNat := by
    simp only [encode, List.append_assoc]
    exact List.take_left' (order.length_encode 8 _)
  rw [headLen, h8, ofNat_decode_encode_64]

theorem headOp_encode (order : ByteOrder) (p : OpPacket) (rest : List UInt8) :
    headOp order (p.encode order ++ rest) = p.op := by
  have h8 : (p.encode order ++ rest).drop 8 = order.encode 4 p.op.toNat ++ (p.data ++ rest) := by
    simp only [encode, List.append_assoc]
    exact List.drop_left' (order.length_encode 8 _)
  have h4 : ((p.encode order ++ rest).drop 8).take 4 = order.encode 4 p.op.toNat := by
    rw [h8]
    exact List.take_left' (order.length_encode 4 _)
  rw [headOp, h4, ofNat_decode_encode_32]

theorem drop_encode (order : ByteOrder) (p : OpPacket) (rest : List UInt8) :
    (p.encode order ++ rest).drop 12 = p.data ++ rest := by
  have hhead : (order.encode 8 p.dataLen.toNat ++ order.encode 4 p.op.toNat).length = 12 := by simp
  rw [encode, List.append_assoc]
  exact List.drop_left' hhead

theorem decode_encode (order : ByteOrder) (p : OpPacket) (rest : List UInt8) :
    decode order (p.encode order ++ rest) = some (p, rest) := by
  have hlen := headLen_encode order p rest
  have hfit : 12 ≤ (p.encode order ++ rest).length ∧
      (headLen order (p.encode order ++ rest)).toNat ≤ (p.encode order ++ rest).length - 12 := by
    rw [hlen, List.length_append, length_encode]
    omega
  rw [decode, dif_pos hfit]
  have hdata : ((p.encode order ++ rest).drop 12).take p.dataLen.toNat = p.data := by
    rw [drop_encode]
    exact List.take_left' p.length_data
  have hrest : (p.encode order ++ rest).drop (12 + p.dataLen.toNat) = rest :=
    List.drop_left' (length_encode order p)
  simp only [Option.some.injEq, Prod.mk.injEq]
  constructor
  · exact OpPacket.ext (headOp_encode order p rest) (by simpa only [hlen] using hdata)
  · rw [hlen, hrest]

theorem eq_of_decode {order : ByteOrder} {s : List UInt8} {p : OpPacket} {rest : List UInt8}
    (h : decode order s = some (p, rest)) : s = p.encode order ++ rest := by
  unfold decode at h
  split at h
  · next hfit =>
    obtain ⟨rfl, rfl⟩ := Prod.mk.inj (Option.some.inj h)
    have h8 : (s.take 8).length = 8 := by
      rw [List.length_take]
      omega
    have h4 : ((s.drop 8).take 4).length = 4 := by
      rw [List.length_take, List.length_drop]
      omega
    simp only [encode, headLen, headOp, encode_ofNat_decode_64 order h8,
      encode_ofNat_decode_32 order h4]
    -- what was read, put together again
    calc s = s.take 8 ++ s.drop 8 := (List.take_append_drop 8 s).symm
      _ = s.take 8 ++ ((s.drop 8).take 4 ++ (s.drop 8).drop 4) := by
          rw [List.take_append_drop 4 (s.drop 8)]
      _ = s.take 8 ++ ((s.drop 8).take 4 ++ s.drop 12) := by rw [List.drop_drop]
      _ = _ := by
          rw [← List.take_append_drop
            (UInt64.ofNat (order.decode (s.take 8))).toNat (s.drop 12)]
          simp [List.append_assoc, List.drop_drop]
  · cases h

end OpPacket

/-- The frames of the outer layer as a self-delimiting code. -/
def opCode (order : ByteOrder) : FrameCode OpPacket UInt8 where
  encode := OpPacket.encode order
  decode := OpPacket.decode order
  decode_encode := OpPacket.decode_encode order
  eq_of_decode := OpPacket.eq_of_decode
  encode_ne_nil p := by
    intro h
    have hlen := OpPacket.length_encode order p
    rw [h, List.length_nil] at hlen
    omega

/-- An unfinished string is shorter than a header, or than the header and its own `data_len`. -/
theorem incomplete_iff {order : ByteOrder} {s : List UInt8} :
    (opCode order).Incomplete s ↔
      s.length < 12 ∨ s.length < 12 + (OpPacket.headLen order s).toNat := by
  show OpPacket.decode order s = none ↔ _
  unfold OpPacket.decode
  split
  · next hfit => simp only [reduceCtorEq, false_iff]; omega
  · next hfit => simp only [true_iff]; omega

/-! ## One turn of the loop

A turn of the loop reads a header and then finds out whether the frame is complete. If it is not, the
position has moved, but nothing was saved, and the position is forgotten with the reader. -/

variable {σ : Type} {handler : OpPacket → σ → Except Exn Bool × σ}

/-- Reading the header leaves the reader twelve bytes on, with nothing saved. -/
theorem readOpHeader {reader : BasePacketReader} (h : 12 ≤ reader.getLeft) :
    ∃ r₁ r₂ : BasePacketReader,
      reader.readUINT64 = .ok (OpPacket.headLen reader.order reader.currentBuffer, r₁) ∧
      r₁.readUINT32 = .ok (OpPacket.headOp reader.order reader.currentBuffer, r₂) ∧
      r₂.order = reader.order ∧ r₂.buffer = reader.buffer ∧ r₂.savedPos = reader.savedPos ∧
      r₂.pos = reader.pos + 12 := by
  have h8 : 8 ≤ reader.getLeft := by omega
  have h4 : 4 ≤ (reader.advance 8 (BasePacketReader.pos_add_le h8)).getLeft := by
    rw [BasePacketReader.getLeft_advance]
    omega
  refine ⟨_, (reader.advance 8 _).advance 4 (BasePacketReader.pos_add_le h4),
    BasePacketReader.readUINT64_eq h8, ?_, rfl, rfl, rfl, rfl⟩
  rw [BasePacketReader.readUINT32_eq h4, BasePacketReader.currentBuffer_advance]
  rfl

/-- No complete frame at the position: the loop ends, and what was saved stays saved. -/
theorem parseOpPacketLoop_incomplete {reader : BasePacketReader} (fuel : Nat) (s : σ)
    (h : OpPacket.decode reader.order reader.currentBuffer = none) :
    ∃ reader', parseOpPacketLoop handler (fuel + 1) reader s = (.ok (), reader', s) ∧
      reader'.savedPos = reader.savedPos ∧ reader'.buffer = reader.buffer := by
  by_cases h12 : 12 ≤ reader.getLeft
  · obtain ⟨r₁, r₂, hread₁, hread₂, -, hbuf, hsaved, hpos⟩ := readOpHeader h12
    have hshort : ¬ r₂.enough (OpPacket.headLen reader.order reader.currentBuffer) = true := by
      intro henough
      rw [BasePacketReader.enough_iff, BasePacketReader.getLeft, hbuf, hpos] at henough
      have hinc := incomplete_iff.mp h
      rw [BasePacketReader.length_currentBuffer] at hinc
      simp only [BasePacketReader.getLeft] at hinc h12
      omega
    refine ⟨r₂, ?_, hsaved, hbuf⟩
    rw [parseOpPacketLoop, if_pos (by simpa using h12)]
    simp only [hread₁, hread₂, dif_neg hshort]
  · refine ⟨reader, ?_, rfl, rfl⟩
    rw [parseOpPacketLoop, if_neg (by simpa using h12)]

/-- A complete frame at the position: if the handler returns, the loop goes on behind the frame, and
everything up to there is saved. -/
theorem parseOpPacketLoop_frame {reader : BasePacketReader} {p : OpPacket} {rest : List UInt8}
    {b : Bool} {s s' : σ} (fuel : Nat) (hlen : reader.buffer.length < 2 ^ 64)
    (h : OpPacket.decode reader.order reader.currentBuffer = some (p, rest))
    (hhandler : handler p s = (.ok b, s')) :
    ∃ reader', parseOpPacketLoop handler (fuel + 1) reader s =
        parseOpPacketLoop handler fuel reader' s' ∧
      reader'.currentBuffer = rest ∧ reader'.savedPos = reader'.pos ∧
      reader'.order = reader.order ∧ reader'.buffer = reader.buffer := by
  unfold OpPacket.decode at h
  split at h
  · next hfit =>
    obtain ⟨hp, hrest⟩ := Prod.mk.inj (Option.some.inj h)
    rw [BasePacketReader.length_currentBuffer] at hfit
    obtain ⟨r₁, r₂, hread₁, hread₂, horder, hbuf, -, hpos⟩ := readOpHeader hfit.1
    have hleft : r₂.getLeft = reader.getLeft - 12 := by
      simp only [BasePacketReader.getLeft, hbuf, hpos]
      omega
    have hcur : r₂.currentBuffer = reader.currentBuffer.drop 12 := by
      simp only [BasePacketReader.currentBuffer, hbuf, hpos, List.drop_drop]
    -- the header is read, and behind it there are as many bytes as it says
    have henough : r₂.enough (OpPacket.headLen reader.order reader.currentBuffer) = true := by
      rw [BasePacketReader.enough_iff, hleft]
      exact hfit.2
    have hroom := BasePacketReader.enough_iff.mp henough
    have hadd := BasePacketReader.addPos_eq hroom (by rw [hbuf]; exact hlen)
    refine ⟨(r₂.advance _ (BasePacketReader.pos_add_le hroom)).savePos, ?_, ?_, rfl, horder, hbuf⟩
    · rw [parseOpPacketLoop, if_pos (by simpa using hfit.1)]
      simp only [hread₁, hread₂, dif_pos henough, hcur, hp, hhandler, hadd]
    · rw [BasePacketReader.savePos_currentBuffer, BasePacketReader.currentBuffer_advance, hcur,
        List.drop_drop, ← hrest]
  · cases h

/-! ## The whole loop -/

def runHandler (handler : OpPacket → σ → Except Exn Bool × σ) (fs : List OpPacket) (s : σ) : σ :=
  fs.foldl (fun s p => (handler p s).2) s

/-- The handler returns, with `true` or `false`, on every frame of the list. -/
def ReturnsOn (handler : OpPacket → σ → Except Exn Bool × σ) (fs : List OpPacket) : Prop :=
  ∀ p ∈ fs, ∀ s : σ, ∃ b, (handler p s).1 = .ok b

/-- Induction on the frames: each turn hands on one of them. What is left bounds the number of turns
that are needed, since a frame takes at least its header. -/
theorem parseOpPacketLoop_splits {order : ByteOrder} {fs : List OpPacket} {rest : List UInt8}
    (fuel : Nat) (reader : BasePacketReader) (s : σ) (horder : reader.order = order)
    (hlen : reader.buffer.length < 2 ^ 64) (hsaved : reader.savedPos = reader.pos)
    (hfuel : reader.getLeft < fuel)
    (hsplit : (opCode order).Splits reader.currentBuffer fs rest)
    (hreturns : ReturnsOn handler fs) :
    ∃ reader', parseOpPacketLoop handler fuel reader s = (.ok (), reader', runHandler handler fs s) ∧
      reader'.unsaved = rest ∧ reader'.savedPos + rest.length = reader.buffer.length := by
  subst horder
  induction fs generalizing fuel reader s with
  | nil =>
      obtain ⟨fuel, rfl⟩ : ∃ n, fuel = n + 1 := ⟨fuel - 1, by omega⟩
      have hrest : reader.currentBuffer = rest := hsplit.eq
      have hnone : OpPacket.decode reader.order reader.currentBuffer = none :=
        hrest ▸ hsplit.incomplete
      obtain ⟨reader', hloop, hsaved', hbuf⟩ := parseOpPacketLoop_incomplete fuel s hnone
      refine ⟨reader', hloop, ?_, ?_⟩
      · rw [BasePacketReader.unsaved, hsaved', hbuf, hsaved]
        exact hrest
      · rw [hsaved', hsaved, ← hrest, BasePacketReader.length_currentBuffer]
        exact Nat.add_sub_cancel' reader.pos_le
  | cons p fs ih =>
      obtain ⟨fuel, rfl⟩ : ∃ n, fuel = n + 1 := ⟨fuel - 1, by omega⟩
      -- the next frame is whole, and one round of the loop takes it
      have hsome : OpPacket.decode reader.order reader.currentBuffer =
          some (p, (opCode reader.order).encodeAll fs ++ rest) := by
        rw [hsplit.eq, FrameCode.encodeAll_cons, List.append_assoc]
        exact OpPacket.decode_encode _ _ _
      obtain ⟨b, hb⟩ := hreturns p (by simp) s
      obtain ⟨reader', hloop, hcur, hsaved', horder', hbuf⟩ :=
        parseOpPacketLoop_frame fuel hlen hsome (Prod.ext hb rfl : handler p s = (.ok b, _))
      -- so the fuel is enough for the rest
      have hshorter : reader'.getLeft < reader.getLeft := by
        have hp : ((opCode reader.order).encode p).length = 12 + p.dataLen.toNat :=
          OpPacket.length_encode reader.order p
        rw [← BasePacketReader.length_currentBuffer, ← BasePacketReader.length_currentBuffer, hcur,
          hsplit.eq, FrameCode.encodeAll_cons]
        simp only [List.length_append, hp]
        omega
      have hsplit' : (opCode reader'.order).Splits reader'.currentBuffer fs rest := by
        rw [hcur, horder']
        exact ⟨rfl, hsplit.incomplete⟩
      obtain ⟨reader'', hrun, hrest, hpos⟩ := ih fuel reader' (handler p s).2 (by rw [hbuf]; exact hlen)
        hsaved' (by omega) (fun q hq => hreturns q (List.mem_cons_of_mem p hq)) hsplit'
      exact ⟨reader'', hloop.trans hrun, hrest, by rw [hpos, hbuf]⟩

/-- **`parseOpPacket` cuts along the frame code.** -/
theorem parseOpPacket_splits {order : ByteOrder} {s : List UInt8} {fs : List OpPacket}
    {rest : List UInt8} (st : σ) (hlen : s.length < 2 ^ 64) (hsplit : (opCode order).Splits s fs rest)
    (hreturns : ReturnsOn handler fs) :
    ∃ reader', parseOpPacket handler (.ofBuffer order s) st =
        (.ok (), reader', runHandler handler fs st) ∧
      reader'.unsaved = rest ∧ reader'.savedPos + rest.length = s.length :=
  parseOpPacketLoop_splits _ _ st rfl hlen rfl (Nat.lt_succ_self _) hsplit hreturns

/-! ## Chunks -/

/-- Bytes held in memory, whose number is a `size_t`. -/
structure Buffer where
  bytes : List UInt8
  length_lt : bytes.length < 2 ^ 64

/-- One data callback of the transport: it presents the bytes that were not saved last time and
those that have come since, and keeps what is not saved this time. -/
def receive (order : ByteOrder) (handler : OpPacket → σ → Except Exn Bool × σ)
    (held chunk : List UInt8) (s : σ) : Except Exn Unit × List UInt8 × σ :=
  match parseOpPacket handler (.ofBuffer order (held ++ chunk)) s with
  | (result, reader, s') => (result, reader.unsaved, s')

/-- The callbacks for a list of chunks, until one of them throws. -/
def receiveAll (order : ByteOrder) (handler : OpPacket → σ → Except Exn Bool × σ) :
    List UInt8 → List (List UInt8) → σ → Except Exn Unit × List UInt8 × σ
  | held, [], s => (.ok (), held, s)
  | held, chunk :: chunks, s =>
      match receive order handler held chunk s with
      | (.ok (), held', s') => receiveAll order handler held' chunks s'
      | (.error e, held', s') => (.error e, held', s')

/-- The handler, with the frames it is given written down in front of its state. -/
def logged (handler : OpPacket → σ → Except Exn Bool × σ) (p : OpPacket)
    (s : List OpPacket × σ) : Except Exn Bool × List OpPacket × σ :=
  ((handler p s.2).1, s.1 ++ [p], (handler p s.2).2)

theorem runHandler_logged (fs log : List OpPacket) (s : σ) :
    runHandler (logged handler) fs (log, s) = (log ++ fs, runHandler handler fs s) := by
  induction fs generalizing log s with
  | nil => simp [runHandler]
  | cons p fs ih =>
      have hstep : runHandler (logged handler) (p :: fs) (log, s) =
          runHandler (logged handler) fs (log ++ [p], (handler p s).2) := rfl
      rw [hstep, ih, List.append_assoc]
      rfl

theorem receive_splits {order : ByteOrder} {held chunk : List UInt8} {fs : List OpPacket}
    {rest : List UInt8} (s : σ) (hlen : (held ++ chunk).length < 2 ^ 64)
    (hsplit : (opCode order).Splits (held ++ chunk) fs rest) (hreturns : ReturnsOn handler fs) :
    receive order handler held chunk s = (.ok (), rest, runHandler handler fs s) := by
  obtain ⟨reader', hrun, hrest, -⟩ := parseOpPacket_splits s hlen hsplit hreturns
  simp only [receive, hrun, hrest]

/-- Induction on the chunks: each callback cuts what was held and what has come, and holds an
unfinished rest, so the next one starts at the front of a frame. -/
theorem receiveAll_feeds {order : ByteOrder} (hreturns : ∀ fs, ReturnsOn handler fs)
    (held : List UInt8) (chunks : List (List UInt8)) (s : σ)
    (hlen : (held ++ chunks.flatten).length < 2 ^ 64) :
    ∃ (fs : List OpPacket) (rest : List UInt8), (opCode order).Feeds held chunks fs rest ∧
      receiveAll order handler held chunks s = (.ok (), rest, runHandler handler fs s) := by
  induction chunks generalizing held s with
  | nil => exact ⟨[], held, .nil, rfl⟩
  | cons chunk chunks ih =>
      obtain ⟨fs, rest, hsplit⟩ := (opCode order).exists_splits (held ++ chunk)
      have hrest : rest.length ≤ (held ++ chunk).length := by
        rw [hsplit.eq]
        simp
      simp only [List.flatten_cons, List.length_append] at hlen hrest
      have hreceive := receive_splits s (by rw [List.length_append]; omega) hsplit (hreturns fs)
      obtain ⟨gs, rest', hfeeds, hall⟩ :=
        ih rest (runHandler handler fs s) (by rw [List.length_append]; omega)
      refine ⟨fs ++ gs, rest', .cons hsplit hfeeds, ?_⟩
      simp only [receiveAll, hreceive, hall]
      simp [runHandler, List.foldl_append]

/-- **Framing does not depend on the chunks.** Whatever the stream `s` is and however it is cut, the
frames handed on in all callbacks together, the bytes still held at the end and the state of the
handler are those of one callback on all of `s`; the frames and the held bytes make up `s`, and what
is held is shorter than a header or than the frame its own header announces. -/
theorem receiveAll_eq_receive (order : ByteOrder) (handler : OpPacket → σ → Except Exn Bool × σ)
    (hreturns : ∀ p s, ∃ b, (handler p s).1 = .ok b) (s : Buffer) (chunks : List (List UInt8))
    (hchunks : chunks.flatten = s.bytes) (st : σ) :
    ∃ (frames : List OpPacket) (suffix : List UInt8) (st' : σ),
      receiveAll order (logged handler) [] chunks ([], st) = (.ok (), suffix, frames, st') ∧
      receive order (logged handler) [] s.bytes ([], st) = (.ok (), suffix, frames, st') ∧
      frames.flatMap (OpPacket.encode order) ++ suffix = s.bytes ∧
      (suffix.length < 12 ∨ suffix.length < 12 + (OpPacket.headLen order suffix).toNat) := by
  have hlogged : ∀ fs, ReturnsOn (logged handler) fs := fun _ p _ log => hreturns p log.2
  obtain ⟨frames, suffix, hfeeds, hall⟩ := receiveAll_feeds hlogged [] chunks ([], st)
    (by rw [List.nil_append, hchunks]; exact s.length_lt)
  have hsplit : (opCode order).Splits s.bytes frames suffix := by
    rw [← hchunks]
    exact hfeeds.splits FrameCode.incomplete_nil
  have hone : receive order (logged handler) [] s.bytes ([], st) =
      (.ok (), suffix, runHandler (logged handler) frames ([], st)) :=
    receive_splits ([], st) s.length_lt hsplit (hlogged frames)
  rw [runHandler_logged] at hall hone
  exact ⟨frames, suffix, runHandler handler frames st, hall, hone, hsplit.eq.symm,
    incomplete_iff.mp hsplit.incomplete⟩

/-- Two frames and the start of a third, cut in the middle of a length and in the middle of a body. -/
theorem receiveAll_eq_receive_example :
    ∃ (frames : List OpPacket) (suffix : List UInt8) (st' : Nat),
      receiveAll .little (logged fun _ n => (.ok false, n + 1)) []
          [[1, 0], [0, 0, 0, 0, 0, 0, 7, 0, 0, 0], [65, 0, 0, 0, 0, 0, 0, 0, 0, 1, 0, 0, 0, 9]] ([], 0) =
        (.ok (), suffix, frames, st') ∧
      receive .little (logged fun _ n => (.ok false, n + 1)) []
          [1, 0, 0, 0, 0, 0, 0, 0, 7, 0, 0, 0, 65, 0, 0, 0, 0, 0, 0, 0, 0, 1, 0, 0, 0, 9] ([], 0) =
        (.ok (), suffix, frames, st') ∧
      frames.flatMap (OpPacket.encode .little) ++ suffix =
        [1, 0, 0, 0, 0, 0, 0, 0, 7, 0, 0, 0, 65, 0, 0, 0, 0, 0, 0, 0, 0, 1, 0, 0, 0, 9] ∧
      (suffix.length < 12 ∨ suffix.length < 12 + (OpPacket.headLen .little suffix).toNat) :=
  receiveAll_eq_receive .little (fun _ n => (.ok false, n + 1)) (fun _ _ => ⟨false, rfl⟩)
    ⟨[1, 0, 0, 0, 0, 0, 0, 0, 7, 0, 0, 0, 65, 0, 0, 0, 0, 0, 0, 0, 0, 1, 0, 0, 0, 9], by decide⟩
    [[1, 0], [0, 0, 0, 0, 0, 0, 7, 0, 0, 0], [65, 0, 0, 0, 0, 0, 0, 0, 0, 1, 0, 0, 0, 9]] rfl 0

end GayRpc
