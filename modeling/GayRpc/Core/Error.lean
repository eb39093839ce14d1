import Mathlib.Tactic.Common

/-!
# Failures

`Exn` is what a C++ function of the library, or of the code it calls, can throw; a computation that
may throw returns `Except Exn`. The exceptions are told apart as far as the `catch` clauses of the library
do: an exception that is a `std::exception` has a text, any other one is `Exn.unknown`.

`RpcError` is the error a caller is told of. Its copy constructor is written by hand and forgets one of the
three fields, which is what `copy_ofCode` and `mTimeout_copy` are about: an error that is not a timeout
survives, one that is does not.
-/

namespace GayRpc

/-- The exceptions the library tells apart, by the `catch` clauses it has. -/
inductive Exn where
  /-- `std::runtime_error` -/
  | runtimeError (what : String)
  /-- `std::out_of_range`, thrown by the packet reader -/
  | outOfRange
  /-- `std::bad_function_call`, thrown by calling an empty `std::function` -/
  | badFunctionCall
  /-- any other `std::exception` -/
  | standard (what : String)
  /-- anything else -/
  | unknown
  deriving DecidableEq

/-- The text that is made of an exception that was caught: `what()`, when it is a `std::exception`. -/
def Exn.caughtText : Exn → String
  | .runtimeError what => what
  | .outOfRange => "std::out_of_range"
  | .badFunctionCall => "bad_function_call"
  | .standard what => what
  | .unknown => "unknown exception"

structure RpcError where
  mErrorCode : Int32 := 0
  mReason : String := ""
  mTimeout : Bool := false
  deriving DecidableEq

namespace RpcError

/-- `RpcError(errorCode, reason)`. -/
def ofCode (errorCode : Int32) (reason : String) : RpcError :=
  { mErrorCode := errorCode, mReason := reason }

def setTimeout (e : RpcError) : RpcError := { e with mTimeout := true }

/-- The copy constructor, which names the code and the reason only. Declaring it suppresses the move
constructor, so a move of an `RpcError` runs it too. -/
def copy (other : RpcError) : RpcError :=
  { mErrorCode := other.mErrorCode, mReason := other.mReason }

/-- An error that is not a timeout survives being copied. -/
@[simp] theorem copy_ofCode (errorCode : Int32) (reason : String) :
    (ofCode errorCode reason).copy = ofCode errorCode reason := rfl

/-- Whatever is copied, the copy says that it is not a timeout. -/
@[simp] theorem mTimeout_copy (e : RpcError) : e.copy.mTimeout = false := rfl

@[simp] theorem copy_copy (e : RpcError) : e.copy.copy = e.copy := rfl

end RpcError

end GayRpc
