import Mathlib.Algebra.Ring.Nat
import Mathlib.Tactic.Common

/-!
# String views

`std::string_view` as the protocol and the parse wrappers use it, and the conversion of its size
that `ParseFromArray` is called with. A view is a place in a buffer and a size, and nothing but the code
that makes it ties the two to the bytes there are: `Inside` says that they fit.

The size is a `size_t` and is narrowed to an `int`, which may come out negative (`toInt`).
-/

namespace GayRpc

/-- `std::string_view` over a buffer: where it starts, and a size that nothing ties to the buffer. -/
structure StringView where
  base : List UInt8
  offset : Nat
  size : UInt64
  deriving DecidableEq

namespace StringView

/-- The bytes of the buffer that the view covers. -/
def bytes (v : StringView) : List UInt8 := (v.base.drop v.offset).take v.size.toNat

/-- The view does not reach behind the end of its buffer. -/
def Inside (v : StringView) : Prop := v.offset + v.size.toNat ≤ v.base.length

instance (v : StringView) : Decidable v.Inside := inferInstanceAs (Decidable (_ ≤ _))

end StringView

/-- `static_cast<int>` of a `size_t`. -/
def toInt (n : UInt64) : Int := Int.bmod n.toNat (2 ^ 32)

/-- A size below `2 ^ 31` survives the narrowing. -/
theorem toInt_eq {n : UInt64} (h : n.toNat < 2 ^ 31) : toInt n = n.toNat := by
  have hle : -((2 ^ 32 : Nat) : Int) ≤ (n.toNat : Int) * 2 := by omega
  have hlt : (n.toNat : Int) * 2 < ((2 ^ 32 : Nat) : Int) := by omega
  exact Int.bmod_eq_of_le_mul_two hle hlt

end GayRpc
