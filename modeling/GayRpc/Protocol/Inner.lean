import GayRpc.Protocol.Binary

/-!
# The inner layer

What `parseProtobufPacket` does with every possible frame. The inner header names two sizes; a frame
is well formed when both parts fit behind the header. The code adds the two sizes in 64 bits before
it compares, so the comparison is about the sum modulo `2 ^ 64`: `parseProtobufPacket_eq` says what
follows from each outcome.

    WellFormed    meta_size + data_size fits behind the header, over the integers
    SizesWrap     it is 2 ^ 64 at least, and fits behind the header modulo 2 ^ 64

A frame that is well formed is handed on, with the two views where the header puts them, and one that is
not is refused; that is the grammar (`ObeysInnerGrammar`). It is obeyed by all frames whose sizes do not
wrap around, and by no other (`obeysInnerGrammar_iff`): those are handed on with a view that reaches behind
the end of the payload, or make the reader throw.
-/

namespace GayRpc

namespace OpPacket

variable (order : ByteOrder) (p : OpPacket)

def metaSize : UInt32 := UInt32.ofNat (order.decode (p.data.take 4))

def dataSize : UInt64 := UInt64.ofNat (order.decode ((p.data.drop 4).take 8))

/-- The payload holds an inner header and both parts the header names, over the unbounded integers. -/
def WellFormed : Prop :=
  12 ≤ p.dataLen.toNat ∧
    12 + (p.metaSize order).toNat + (p.dataSize order).toNat ≤ p.dataLen.toNat

/-- The packet handed to the handler: the views stand where the header puts them. -/
def protobufPacket : ProtobufPacket :=
  { metaSize := p.metaSize order
    dataSize := p.dataSize order
    metaView := ⟨p.data, 12, (p.metaSize order).toUInt64⟩
    dataView := ⟨p.data, 12 + (p.metaSize order).toNat, p.dataSize order⟩ }

/-- The sum of the two sizes wraps around to something that fits behind the header. -/
def SizesWrap : Prop :=
  12 ≤ p.dataLen.toNat ∧
    2 ^ 64 ≤ (p.metaSize order).toNat + (p.dataSize order).toNat ∧
    ((p.metaSize order).toNat + (p.dataSize order).toNat) % 2 ^ 64 ≤ p.dataLen.toNat - 12

end OpPacket

variable {σ : Type} {order : ByteOrder} {p : OpPacket}

/-- What `parseProtobufPacket` returns once the handler has been called. -/
def handlerResult : Except Exn Unit × σ → Except Exn Bool × σ
  | (.ok (), s) => (.ok true, s)
  | (.error e, s) => (.error e, s)

/-- A frame without room for the inner header is refused. -/
theorem parseProtobufPacket_short (h : p.dataLen.toNat < 12)
    (handler : ProtobufPacket → σ → Except Exn Unit × σ) (s : σ) :
    parseProtobufPacket order p handler s = (.ok false, s) := by
  have hleft : (BasePacketReader.ofBuffer order p.data).getLeft = p.dataLen.toNat := by
    simp [BasePacketReader.getLeft, BasePacketReader.ofBuffer, p.length_data]
  have hne : ¬ (BasePacketReader.ofBuffer order p.data).enough 12 = true := by
    rw [BasePacketReader.enough_iff, hleft]
    exact Nat.not_le.mpr h
  simp only [parseProtobufPacket, if_neg hne]

/-- The inner header is read from the first twelve bytes. -/
theorem readHeader (order : ByteOrder) (p : OpPacket) (h : 12 ≤ p.dataLen.toNat) :
    ∃ r₁ r₂ : BasePacketReader,
      (BasePacketReader.ofBuffer order p.data).readUINT32 = .ok (p.metaSize order, r₁) ∧
      r₁.readUINT64 = .ok (p.dataSize order, r₂) ∧ r₂.pos = 12 ∧ r₂.buffer = p.data := by
  have hleft : (BasePacketReader.ofBuffer order p.data).getLeft = p.dataLen.toNat := by
    simp [BasePacketReader.getLeft, BasePacketReader.ofBuffer, p.length_data]
  have h4 : 4 ≤ (BasePacketReader.ofBuffer order p.data).getLeft := by omega
  have h8 : 8 ≤ ((BasePacketReader.ofBuffer order p.data).advance 4
      (BasePacketReader.pos_add_le h4)).getLeft := by
    rw [BasePacketReader.getLeft_advance, hleft]
    omega
  refine ⟨_, (BasePacketReader.advance _ 4 _).advance 8 (BasePacketReader.pos_add_le h8),
    BasePacketReader.readUINT32_eq h4, ?_, rfl, rfl⟩
  rw [BasePacketReader.readUINT64_eq h8, BasePacketReader.currentBuffer_advance]
  rfl

/-- **What the code computes.** The first comparison is about the wrapped sum; the two position
updates that follow are checked one by one, the second again modulo `2 ^ 64`. -/
theorem parseProtobufPacket_eq (h : 12 ≤ p.dataLen.toNat)
    (handler : ProtobufPacket → σ → Except Exn Unit × σ) (s : σ) :
    parseProtobufPacket order p handler s =
      if ((p.metaSize order).toNat + (p.dataSize order).toNat) % 2 ^ 64 ≤ p.dataLen.toNat - 12 then
        if 12 + (p.metaSize order).toNat ≤ p.dataLen.toNat then
          if (12 + (p.metaSize order).toNat + (p.dataSize order).toNat) % 2 ^ 64 ≤ p.dataLen.toNat
          then handlerResult (handler (p.protobufPacket order) s)
          else (.error .outOfRange, s)
        else (.error .outOfRange, s)
      else (.ok false, s) := by
  have hm : (p.metaSize order).toNat < 2 ^ 32 := (p.metaSize order).toNat_lt
  have h12 : (BasePacketReader.ofBuffer order p.data).enough 12 = true := by
    rw [BasePacketReader.enough_iff]
    simpa [BasePacketReader.getLeft, BasePacketReader.ofBuffer, p.length_data] using h
  obtain ⟨r₁, r₂, hread₁, hread₂, hpos, hbuf⟩ := readHeader order p h
  have hlen : r₂.buffer.length = p.dataLen.toNat := by rw [hbuf, p.length_data]
  have hsum : ((p.metaSize order).toUInt64 + p.dataSize order).toNat =
      ((p.metaSize order).toNat + (p.dataSize order).toNat) % 2 ^ 64 := by
    rw [UInt64.toNat_add, UInt32.toNat_toUInt64]
  have henough : r₂.enough ((p.metaSize order).toUInt64 + p.dataSize order) = true ↔
      ((p.metaSize order).toNat + (p.dataSize order).toNat) % 2 ^ 64 ≤ p.dataLen.toNat - 12 := by
    rw [BasePacketReader.enough_iff, hsum, BasePacketReader.getLeft, hlen, hpos]
  -- behind the header and the first part, the position is far below `2 ^ 64`
  have hmod : (r₂.pos + (p.metaSize order).toUInt64.toNat) % 2 ^ 64 =
      12 + (p.metaSize order).toNat := by
    rw [hpos, UInt32.toNat_toUInt64]
    apply Nat.mod_eq_of_lt
    omega
  rw [parseProtobufPacket, if_pos h12, hread₁]
  simp only [hread₂, henough]
  -- the check made by the code: the sum of the sizes may have wrapped by then
  by_cases hwrap : ((p.metaSize order).toNat + (p.dataSize order).toNat) % 2 ^ 64 ≤
      p.dataLen.toNat - 12
  · rw [if_pos hwrap, if_pos hwrap]
    -- each `addPos` checks where it gets to and knows nothing of the sum
    by_cases hmeta : 12 + (p.metaSize order).toNat ≤ p.dataLen.toNat
    · obtain ⟨r₃, hadd₃, hpos₃, hbuf₃⟩ := BasePacketReader.addPos_of_le hmod (hlen ▸ hmeta)
      have hlen₃ : r₃.buffer.length = p.dataLen.toNat := by rw [hbuf₃, hlen]
      simp only [hadd₃, hpos, hpos₃, if_pos hmeta]
      by_cases hdata : (12 + (p.metaSize order).toNat + (p.dataSize order).toNat) % 2 ^ 64 ≤
          p.dataLen.toNat
      · obtain ⟨r₄, hadd₄, -, -⟩ :=
          BasePacketReader.addPos_of_le (r := r₃) (by rw [hpos₃]) (hlen₃ ▸ hdata)
        rw [if_pos hdata, hadd₄]
        simp only [OpPacket.protobufPacket]
        generalize handler _ s = result
        obtain ⟨_ | _, s'⟩ := result <;> rfl
      · rw [if_neg hdata,
          BasePacketReader.addPos_of_not_le (r := r₃) (by rw [hpos₃]) (hlen₃ ▸ hdata)]
    · rw [if_neg hmeta, BasePacketReader.addPos_of_not_le hmod (hlen ▸ hmeta)]
  · rw [if_neg hwrap, if_neg hwrap]

/-- A well-formed frame is handed on: its sizes are far from wrapping around. -/
theorem parseProtobufPacket_of_wellFormed (h : p.WellFormed order)
    (handler : ProtobufPacket → σ → Except Exn Unit × σ) (s : σ) :
    parseProtobufPacket order p handler s =
      handlerResult (handler (p.protobufPacket order) s) := by
  have hL : p.dataLen.toNat < 2 ^ 64 := p.dataLen.toNat_lt
  obtain ⟨h12, hle⟩ := h
  have hsum : ((p.metaSize order).toNat + (p.dataSize order).toNat) % 2 ^ 64 =
      (p.metaSize order).toNat + (p.dataSize order).toNat := Nat.mod_eq_of_lt (by omega)
  have hend : (12 + (p.metaSize order).toNat + (p.dataSize order).toNat) % 2 ^ 64 =
      12 + (p.metaSize order).toNat + (p.dataSize order).toNat := Nat.mod_eq_of_lt (by omega)
  rw [parseProtobufPacket_eq h12, hsum, if_pos (by omega), if_pos (by omega), hend, if_pos hle]

/-! ## Which frames are treated as the grammar says -/

/-- The grammar of the inner layer, for one frame: a well-formed frame is handed on with both views
exactly where the header puts them, any other frame is refused and nothing is called or thrown. -/
structure ObeysInnerGrammar (order : ByteOrder) (p : OpPacket) : Prop where
  meta_inside : p.WellFormed order → (p.protobufPacket order).metaView.Inside
  data_inside : p.WellFormed order → (p.protobufPacket order).dataView.Inside
  meta_bytes : (p.protobufPacket order).metaView.bytes =
    (p.data.drop 12).take (p.metaSize order).toNat
  data_bytes : (p.protobufPacket order).dataView.bytes =
    (p.data.drop (12 + (p.metaSize order).toNat)).take (p.dataSize order).toNat
  accepted : p.WellFormed order → ∀ {σ : Type} (handler : ProtobufPacket → σ → Except Exn Unit × σ)
    (s : σ), parseProtobufPacket order p handler s =
      handlerResult (handler (p.protobufPacket order) s)
  refused : ¬ p.WellFormed order →
    ∀ {σ : Type} (handler : ProtobufPacket → σ → Except Exn Unit × σ) (s : σ),
      parseProtobufPacket order p handler s = (.ok false, s)

/-- Without a wrap-around the comparison in 64 bits is the comparison over the integers. -/
theorem wellFormed_iff_of_not_sizesWrap (h12 : 12 ≤ p.dataLen.toNat) (h : ¬ p.SizesWrap order) :
    p.WellFormed order ↔
      ((p.metaSize order).toNat + (p.dataSize order).toNat) % 2 ^ 64 ≤ p.dataLen.toNat - 12 := by
  have hL : p.dataLen.toNat < 2 ^ 64 := p.dataLen.toNat_lt
  unfold OpPacket.WellFormed
  unfold OpPacket.SizesWrap at h
  by_cases hlt : (p.metaSize order).toNat + (p.dataSize order).toNat < 2 ^ 64
  · rw [Nat.mod_eq_of_lt hlt]
    omega
  · constructor
    · rintro ⟨-, hfit⟩
      omega
    · intro hfit
      exact absurd ⟨h12, Nat.le_of_not_lt hlt, hfit⟩ h

/-- A frame whose sizes wrap around is accepted or makes the reader throw; it is never refused. -/
theorem parseProtobufPacket_of_sizesWrap (h : p.SizesWrap order) :
    parseProtobufPacket order p (fun _ s => (.error .unknown, s)) () ≠ (.ok false, ()) := by
  obtain ⟨h12, -, hfit⟩ := h
  rw [parseProtobufPacket_eq h12, if_pos hfit]
  intro hfalse
  split at hfalse
  · split at hfalse
    · simp [handlerResult] at hfalse
    · simp at hfalse
  · simp at hfalse

theorem not_wellFormed_of_sizesWrap (h : p.SizesWrap order) : ¬ p.WellFormed order := by
  intro hwf
  have hL : p.dataLen.toNat < 2 ^ 64 := p.dataLen.toNat_lt
  have hsum := h.2.1
  have hfit := hwf.2
  omega

theorem not_obeysInnerGrammar (h : p.SizesWrap order) : ¬ ObeysInnerGrammar order p := by
  intro hobeys
  exact parseProtobufPacket_of_sizesWrap h (hobeys.refused (not_wellFormed_of_sizesWrap h) _ _)

/-- **The inner layer.** A frame is treated as the grammar says exactly when its two sizes do not
wrap around to a sum that fits. -/
theorem obeysInnerGrammar_iff (order : ByteOrder) (p : OpPacket) :
    ObeysInnerGrammar order p ↔ ¬ p.SizesWrap order := by
  refine ⟨fun hobeys hwrap => not_obeysInnerGrammar hwrap hobeys, fun hwrap => ?_⟩
  have hL : p.dataLen.toNat < 2 ^ 64 := p.dataLen.toNat_lt
  have hlen : p.data.length = p.dataLen.toNat := p.length_data
  have h32 : (p.metaSize order).toUInt64.toNat = (p.metaSize order).toNat :=
    UInt32.toNat_toUInt64 _
  refine ⟨?_, ?_, ?_, rfl, ?_, ?_⟩
  · rintro ⟨-, hfit⟩
    simp only [StringView.Inside, OpPacket.protobufPacket, h32, hlen]
    omega
  · rintro ⟨-, hfit⟩
    simp only [StringView.Inside, OpPacket.protobufPacket, hlen]
    omega
  · simp only [StringView.bytes, OpPacket.protobufPacket, h32]
  · intro hwf σ handler s
    exact parseProtobufPacket_of_wellFormed hwf handler s
  · intro hwf σ handler s
    by_cases h12 : 12 ≤ p.dataLen.toNat
    · -- without wrapping the checks of the code are those of the grammar
      have hfit := mt (wellFormed_iff_of_not_sizesWrap h12 hwrap).mpr hwf
      rw [parseProtobufPacket_eq h12, if_neg hfit]
    · exact parseProtobufPacket_short (Nat.lt_of_not_le h12) handler s

/-- Thirteen bytes of payload: `meta_size` is 1, `data_size` is `2 ^ 64 - 1`. -/
def wrappingPacket : OpPacket :=
  { dataLen := 13
    op := 1
    data := [1, 0, 0, 0, 255, 255, 255, 255, 255, 255, 255, 255, 65]
    length_data := rfl }

/-- The handler is called for it, with a view of `2 ^ 64 - 1` bytes behind the end of the payload. -/
theorem wrappingPacket_disobeys :
    parseProtobufPacket .little wrappingPacket (fun packet _ => (.ok (), some packet)) none =
      (.ok true, some (wrappingPacket.protobufPacket .little)) ∧
    ¬ (wrappingPacket.protobufPacket .little).dataView.Inside ∧
    ¬ ObeysInnerGrammar .little wrappingPacket :=
  ⟨by decide, by decide, not_obeysInnerGrammar ⟨by decide, by decide, by decide⟩⟩

end GayRpc
