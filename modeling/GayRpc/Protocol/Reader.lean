import GayRpc.Lib.Bytes
import GayRpc.Core.Error

/-!
# brynet's packet reader and writer

`BasePacketReader` walks over a buffer it does not own; `BasePacketWriter` appends to one. Only what
the protocol code relies on is here: `enough` compares with the number of unread bytes and never
wraps, a fixed-width read moves the position behind the field, `addPos` adds in 64 bits and throws
when the sum lies behind the end, and `savePos` records how far the caller may forget the buffer.

Numbers travel in one byte order or the other, which is a parameter of the reader and of the writer. That
the position never lies behind the end is a field of the structure, so a reader that has gone too far cannot
be built.
-/

namespace GayRpc

/-- `BasePacketReader`. The position never lies behind the end. -/
structure BasePacketReader where
  order : ByteOrder
  buffer : List UInt8
  pos : Nat
  savedPos : Nat
  pos_le : pos ≤ buffer.length

namespace BasePacketReader

def ofBuffer (order : ByteOrder) (buffer : List UInt8) : BasePacketReader :=
  { order := order, buffer := buffer, pos := 0, savedPos := 0, pos_le := Nat.zero_le _ }

/-- `currentBuffer()`: what lies at and behind the position. -/
def currentBuffer (r : BasePacketReader) : List UInt8 := r.buffer.drop r.pos

/-- The bytes behind the saved position, which the transport presents again. -/
def unsaved (r : BasePacketReader) : List UInt8 := r.buffer.drop r.savedPos

def getLeft (r : BasePacketReader) : Nat := r.buffer.length - r.pos

def enough (r : BasePacketReader) (len : UInt64) : Bool := len.toNat ≤ r.getLeft

def savePos (r : BasePacketReader) : BasePacketReader := { r with savedPos := r.pos }

/-- The reader `w` bytes further on. -/
def advance (r : BasePacketReader) (w : Nat) (h : r.pos + w ≤ r.buffer.length) : BasePacketReader :=
  { r with pos := r.pos + w, pos_le := h }

/-- `read<T>()` for an unsigned `T` of `w` bytes. -/
def read (r : BasePacketReader) (w : Nat) : Except Exn (Nat × BasePacketReader) :=
  if h : r.pos + w ≤ r.buffer.length then
    .ok (r.order.decode (r.currentBuffer.take w), r.advance w h)
  else
    .error .outOfRange

def readUINT32 (r : BasePacketReader) : Except Exn (UInt32 × BasePacketReader) :=
  match r.read 4 with
  | .ok (n, r') => .ok (UInt32.ofNat n, r')
  | .error e => .error e

def readUINT64 (r : BasePacketReader) : Except Exn (UInt64 × BasePacketReader) :=
  match r.read 8 with
  | .ok (n, r') => .ok (UInt64.ofNat n, r')
  | .error e => .error e

/-- `addPos(diff)`: the new position is computed in 64 bits and compared with the length. -/
def addPos (r : BasePacketReader) (diff : UInt64) : Except Exn BasePacketReader :=
  if h : (r.pos + diff.toNat) % 2 ^ 64 ≤ r.buffer.length then
    .ok { r with pos := (r.pos + diff.toNat) % 2 ^ 64, pos_le := h }
  else
    .error .outOfRange

/-! ## What the operations do

Each of them, said of the position alone, so that nothing else has to be unfolded. -/

@[simp] theorem savePos_currentBuffer (r : BasePacketReader) :
    r.savePos.currentBuffer = r.currentBuffer := rfl

@[simp] theorem length_currentBuffer (r : BasePacketReader) :
    r.currentBuffer.length = r.getLeft := by
  simp [currentBuffer, getLeft]

@[simp] theorem enough_iff {r : BasePacketReader} {len : UInt64} :
    r.enough len = true ↔ len.toNat ≤ r.getLeft := by
  simp [enough]

theorem currentBuffer_advance {r : BasePacketReader} {w : Nat} (h : r.pos + w ≤ r.buffer.length) :
    (r.advance w h).currentBuffer = r.currentBuffer.drop w := by
  simp [currentBuffer, advance]

theorem getLeft_advance {r : BasePacketReader} {w : Nat} (h : r.pos + w ≤ r.buffer.length) :
    (r.advance w h).getLeft = r.getLeft - w := by
  simp [getLeft, advance, Nat.sub_sub]

/-- There is room for what is left. -/
theorem pos_add_le {r : BasePacketReader} {w : Nat} (h : w ≤ r.getLeft) :
    r.pos + w ≤ r.buffer.length := by
  have := r.pos_le
  simp only [getLeft] at h
  omega

theorem readUINT32_eq {r : BasePacketReader} (h : 4 ≤ r.getLeft) :
    r.readUINT32 = .ok (UInt32.ofNat (r.order.decode (r.currentBuffer.take 4)),
      r.advance 4 (pos_add_le h)) := by
  simp [readUINT32, read, pos_add_le h]

theorem readUINT64_eq {r : BasePacketReader} (h : 8 ≤ r.getLeft) :
    r.readUINT64 = .ok (UInt64.ofNat (r.order.decode (r.currentBuffer.take 8)),
      r.advance 8 (pos_add_le h)) := by
  simp [readUINT64, read, pos_add_le h]

theorem addPos_of_le {r : BasePacketReader} {diff : UInt64} {n : Nat}
    (hn : (r.pos + diff.toNat) % 2 ^ 64 = n) (h : n ≤ r.buffer.length) :
    ∃ r', r.addPos diff = .ok r' ∧ r'.pos = n ∧ r'.buffer = r.buffer := by
  subst hn
  exact ⟨_, dif_pos h, rfl, rfl⟩

theorem addPos_of_not_le {r : BasePacketReader} {diff : UInt64} {n : Nat}
    (hn : (r.pos + diff.toNat) % 2 ^ 64 = n) (h : ¬ n ≤ r.buffer.length) :
    r.addPos diff = .error .outOfRange := by
  subst hn
  exact dif_neg h

/-- In a buffer whose length fits in 64 bits the addition does not wrap. -/
theorem addPos_eq {r : BasePacketReader} {diff : UInt64} (h : diff.toNat ≤ r.getLeft)
    (hlen : r.buffer.length < 2 ^ 64) :
    r.addPos diff = .ok (r.advance diff.toNat (pos_add_le h)) := by
  have hle := pos_add_le h
  have hmod : (r.pos + diff.toNat) % 2 ^ 64 = r.pos + diff.toNat := Nat.mod_eq_of_lt (by omega)
  simp only [addPos, hmod, dif_pos hle, advance]

end BasePacketReader

/-- `BasePacketWriter`, with a buffer that grows. -/
structure BasePacketWriter where
  order : ByteOrder
  buffer : List UInt8

namespace BasePacketWriter

def writeUINT32 (w : BasePacketWriter) (value : UInt32) : BasePacketWriter :=
  { w with buffer := w.buffer ++ w.order.encode 4 value.toNat }

def writeUINT64 (w : BasePacketWriter) (value : UInt64) : BasePacketWriter :=
  { w with buffer := w.buffer ++ w.order.encode 8 value.toNat }

def writeBinary (w : BasePacketWriter) (data : List UInt8) : BasePacketWriter :=
  { w with buffer := w.buffer ++ data }

end BasePacketWriter

/-! ## Fixed-width fields -/

theorem ofNat_decode_encode_32 (order : ByteOrder) (n : UInt32) :
    UInt32.ofNat (order.decode (order.encode 4 n.toNat)) = n := by
  have hmod : n.toNat % 256 ^ 4 = n.toNat := Nat.mod_eq_of_lt n.toNat_lt
  rw [ByteOrder.decode_encode, hmod, UInt32.ofNat_toNat]

theorem ofNat_decode_encode_64 (order : ByteOrder) (n : UInt64) :
    UInt64.ofNat (order.decode (order.encode 8 n.toNat)) = n := by
  have hmod : n.toNat % 256 ^ 8 = n.toNat := Nat.mod_eq_of_lt n.toNat_lt
  rw [ByteOrder.decode_encode, hmod, UInt64.ofNat_toNat]

theorem encode_ofNat_decode_32 (order : ByteOrder) {bs : List UInt8} (h : bs.length = 4) :
    order.encode 4 (UInt32.ofNat (order.decode bs)).toNat = bs := by
  have hlt := order.decode_lt bs
  rw [h] at hlt
  rw [UInt32.toNat_ofNat_of_lt' hlt, order.encode_decode h]

theorem encode_ofNat_decode_64 (order : ByteOrder) {bs : List UInt8} (h : bs.length = 8) :
    order.encode 8 (UInt64.ofNat (order.decode bs)).toNat = bs := by
  have hlt := order.decode_lt bs
  rw [h] at hlt
  rw [UInt64.toNat_ofNat_of_lt' hlt, order.encode_decode h]

end GayRpc
