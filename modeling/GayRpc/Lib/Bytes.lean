import Mathlib.Algebra.Ring.Nat
import Mathlib.Tactic.Common

/-!
# Fixed-width unsigned integers as bytes

A `w`-byte field holds a natural number below `256 ^ w`, least significant byte first or most
significant byte first. `ByteOrder.encode` writes such a field and `ByteOrder.decode` reads it back;
the two are inverse to each other on `w`-byte strings, whichever of the two orders is in force
(`decode_encode`, `encode_decode`).

The order that is most significant first is the other one reversed, so everything is proved for one of
them, by induction on the width, and carried over.
-/

namespace ByteOrder

/-- The `w` low bytes of `n`, least significant first. -/
def toLittle : Nat → Nat → List UInt8
  | 0, _ => []
  | w + 1, n => UInt8.ofNat n :: toLittle w (n / 256)

/-- The number whose bytes, least significant first, are `bs`. -/
def ofLittle : List UInt8 → Nat
  | [] => 0
  | b :: bs => b.toNat + 256 * ofLittle bs

@[simp] theorem length_toLittle (w n : Nat) : (toLittle w n).length = w := by
  induction w generalizing n with
  | zero => rfl
  | succ w ih => simp [toLittle, ih]

theorem ofLittle_toLittle (w n : Nat) : ofLittle (toLittle w n) = n % 256 ^ w := by
  induction w generalizing n with
  | zero => simp [toLittle, ofLittle, Nat.mod_one]
  | succ w ih =>
      have hmod : n % 256 ^ (w + 1) = n % 256 + 256 * (n / 256 % 256 ^ w) := by
        rw [Nat.pow_succ', Nat.mod_mul]
      rw [toLittle, ofLittle, ih, UInt8.toNat_ofNat', hmod]

theorem ofLittle_lt (bs : List UInt8) : ofLittle bs < 256 ^ bs.length := by
  induction bs with
  | nil => simp [ofLittle]
  | cons b bs ih =>
      have hb : b.toNat < 256 := b.toNat_lt
      rw [ofLittle, List.length_cons, Nat.pow_succ']
      omega

theorem toLittle_ofLittle (bs : List UInt8) : toLittle bs.length (ofLittle bs) = bs := by
  induction bs with
  | nil => rfl
  | cons b bs ih =>
      have hb : b.toNat < 256 := b.toNat_lt
      have hdiv : (b.toNat + 256 * ofLittle bs) / 256 = ofLittle bs := by omega
      have hlow : UInt8.ofNat (b.toNat + 256 * ofLittle bs) = b := by
        apply UInt8.toNat_inj.mp
        rw [UInt8.toNat_ofNat']
        omega
      rw [ofLittle, List.length_cons, toLittle, hdiv, hlow, ih]

end ByteOrder

/-- The order in which the bytes of one field travel. -/
inductive ByteOrder where
  | little
  | big
  deriving DecidableEq, Repr

namespace ByteOrder

variable (order : ByteOrder)

def encode (w n : Nat) : List UInt8 :=
  match order with
  | .little => toLittle w n
  | .big => (toLittle w n).reverse

def decode (bs : List UInt8) : Nat :=
  match order with
  | .little => ofLittle bs
  | .big => ofLittle bs.reverse

@[simp] theorem length_encode (w n : Nat) : (order.encode w n).length = w := by
  cases order <;> simp [encode]

theorem decode_encode (w n : Nat) : order.decode (order.encode w n) = n % 256 ^ w := by
  cases order <;> simp [encode, decode, ofLittle_toLittle]

theorem decode_lt (bs : List UInt8) : order.decode bs < 256 ^ bs.length := by
  cases order with
  | little => exact ofLittle_lt bs
  | big => simpa [decode] using ofLittle_lt bs.reverse

theorem encode_decode {w : Nat} {bs : List UInt8} (h : bs.length = w) :
    order.encode w (order.decode bs) = bs := by
  subst h
  cases order with
  | little => exact toLittle_ofLittle bs
  | big =>
      have hrev := toLittle_ofLittle bs.reverse
      rw [List.length_reverse] at hrev
      simp [encode, decode, hrev]

end ByteOrder
