import GayRpc.Core.Interceptor
import GayRpc.Core.StringView

/-!
# HTTP

`HttpProtocol.h`. A request comes as a path, which names the method, and a body; a response is the JSON of
a message. The JSON printer of protobuf and the formatter of brynet are parameters. The characters of a
`String` stand for the bytes of a `std::string`.

The method is what follows the first character of the path, whatever that is. `substr` throws if there is
no first character, which is what `requestMeta` may throw. The meta that is made of it has no service id
and no type set, and asks for a response.
-/

namespace GayRpc

structure HttpResponse where
  status : ℕ
  contentType : String
  body : String

structure HttpFormat (Msg : Type) where
  /-- what `MessageToJsonString` leaves in the string; nobody looks at its status -/
  messageToJsonString : Msg → String
  getResult : HttpResponse → String

def substr (s : String) (pos count : ℕ) : Except Exn String :=
  if s.length < pos then .error .outOfRange
  else .ok (String.ofList ((s.toList.drop pos).take count))

namespace Http

/-- `http::send`: what is handed to the session. The meta is a parameter that nothing uses. -/
def send {Msg : Type} (format : HttpFormat Msg) (_rpcMeta : RpcMeta) (message : Msg) : String :=
  format.getResult
    { status := 200
      contentType := "application/json"
      body := format.messageToJsonString message }

/-- The meta that `handleHttpPacket` makes. The type and the service id are left as they are. -/
def requestMeta (path : String) : Except Exn RpcMeta := do
  let strMethod ← substr path 1 (path.length - 1)
  .ok { encoding := .json, request := some { strMethod := strMethod, expectResponse := true } }

def bodyView (body : List UInt8) : StringView :=
  { base := body, offset := 0, size := .ofNat body.length }

def handleHttpPacket {S E Ctx : Type}
    (handleRpcMsg : RpcMeta → StringView → Ctx → Prog S E Empty Empty (Except Exn Unit))
    (path : String) (body : List UInt8) (context : Ctx) : Prog S E Empty Empty (Except Exn Unit) :=
  match requestMeta path with
  | .error e => .ret (.error e)
  | .ok rpcMeta => handleRpcMsg rpcMeta (bodyView body) context

/-- What follows the first character names the method. -/
theorem requestMeta_of_ne {path : String} (h : path ≠ "") :
    requestMeta path = .ok
      { encoding := .json
        request := some { strMethod := String.ofList path.toList.tail, expectResponse := true } } := by
  have hlen : ¬ path.length < 1 := by
    intro hlt
    apply h
    exact String.length_eq_zero_iff.mp (Nat.lt_one_iff.mp hlt)
  have htake : path.toList.tail.take (path.length - 1) = path.toList.tail := by
    apply List.take_of_length_le
    exact Nat.le_of_eq (by rw [List.length_tail, String.length_toList])
  simp [requestMeta, substr, hlen, bind, Except.bind, htake]

/-- A slash and the name of a method. -/
theorem requestMeta_slash (name : String) :
    requestMeta ("/" ++ name) = .ok
      { encoding := .json, request := some { strMethod := name, expectResponse := true } } := by
  rw [requestMeta_of_ne]
  · simp
  · simp

/-- A body that fits into a `size_t` is viewed as a whole. -/
theorem bytes_bodyView {body : List UInt8} (h : body.length < 2 ^ 64) :
    (bodyView body).bytes = body := by
  have hsize : (UInt64.ofNat body.length).toNat = body.length := UInt64.toNat_ofNat_of_lt h
  simp [bodyView, StringView.bytes, hsize]

end Http

end GayRpc
