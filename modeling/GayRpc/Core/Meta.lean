import Mathlib.Tactic.Common

/-!
# `RpcMeta`

The message of `gayrpc_meta.proto` that goes in front of every request and every response. A
sub-message is either set or absent, and reading an absent one gives its default, as the generated
accessors do. `meta_data` is left out: nothing in the library reads it.

The names of the fields are those of the accessors. The two enumerations are open, as in proto3: a number
that none of the names stands for is a value of its own.
-/

namespace GayRpc

/-- `RpcMeta::Type`. A proto3 enumeration is open: what arrives may be neither of the two. -/
inductive MetaType where
  | request
  | response
  | unrecognized (value : Int32) (h : value ≠ 0 ∧ value ≠ 1)
  deriving DecidableEq

def MetaType.toText : MetaType → String
  | .request => "0"
  | .response => "1"
  | .unrecognized value _ => toString value

/-- `RpcMeta::DataEncodingType`, open in the same way. -/
inductive DataEncodingType where
  | binary
  | json
  | unrecognized (value : Int32) (h : value ≠ 0 ∧ value ≠ 1)
  deriving DecidableEq

def DataEncodingType.unknown : DataEncodingType := .unrecognized 2 (by decide)

namespace RpcMeta

structure Request where
  intMethod : UInt64 := 0
  strMethod : String := ""
  expectResponse : Bool := false
  sequenceId : UInt64 := 0
  timeout : UInt64 := 0
  deriving DecidableEq

structure Response where
  sequenceId : UInt64 := 0
  failed : Bool := false
  errorCode : Int32 := 0
  reason : String := ""
  timeout : Bool := false
  deriving DecidableEq

end RpcMeta

/-- `RpcMeta`; the defaults are those of a message nothing was set on. -/
structure RpcMeta where
  type : MetaType := .request
  serviceId : UInt32 := 0
  encoding : DataEncodingType := .binary
  request : Option RpcMeta.Request := none
  response : Option RpcMeta.Response := none
  deriving DecidableEq

namespace RpcMeta

/-- `request_info()`: the sub-message, or its default when it is absent. -/
def requestInfo (m : RpcMeta) : Request := m.request.getD {}

def responseInfo (m : RpcMeta) : Response := m.response.getD {}

def hasRequestInfo (m : RpcMeta) : Bool := m.request.isSome

@[simp] theorem requestInfo_some (m : RpcMeta) (r : Request) (h : m.request = some r) :
    m.requestInfo = r := by
  simp [requestInfo, h]

end RpcMeta

def makeRequestRpcMeta (sequenceID : UInt64) (serviceID : UInt32) (msgID : UInt64)
    (type : DataEncodingType) (expectResponse : Bool) : RpcMeta :=
  { type := .request
    encoding := type
    serviceId := serviceID
    request := some { intMethod := msgID, sequenceId := sequenceID, expectResponse := expectResponse } }

end GayRpc
