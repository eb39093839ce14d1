import GayRpc.Core.Interceptor
import GayRpc.Core.StringView

/-!
# Parsing requests and responses

`GayRpcHelper.h`. Protobuf and the JSON of protobuf are a parameter, `MessageCodec`. `D` stands for
the generated classes, `Msg` for the messages of all of them.

The two wrappers, for requests and for responses, have the same `switch` in them (`parseMessage`), and
differ in one word of their error texts and in what they do with the message: `parseRequestWrapper` calls
the inbound chain with it, `parseResponseWrapper` does so, too, and has a handle at the end of the chain
that is told of the error in the meta as well.

An encoding that is neither binary nor JSON, and a body that does not parse, are exceptions. Both wrappers
let them through to whoever has called them.
-/

namespace GayRpc

/-- What the generated message classes and the JSON utilities offer. -/
structure MessageCodec (D Msg : Type) where
  parseFromArray : D → List UInt8 → Int → Option Msg
  /-- the message, or the text of the status -/
  jsonStringToMessage : D → List UInt8 → Except String Msg
  serializeAsString : Msg → List UInt8
  /-- `typeid(...).name()` -/
  typeName : D → String

/-- `std::to_string` of an enumeration that none of the named values fits. -/
def DataEncodingType.toText : DataEncodingType → String
  | .binary => "0"
  | .json => "1"
  | .unrecognized value _ => toString value

section parse

variable {D Msg : Type} (codec : MessageCodec D Msg)

/-- The `switch` of the two parse wrappers; `what` is the one word their error texts differ in. -/
def parseMessage (what : String) (type : D) (encoding : DataEncodingType) (data : StringView) :
    Except Exn Msg :=
  match encoding with
  | .binary =>
    -- the size is a `size_t` and is passed as an `int`
    match codec.parseFromArray type data.bytes (toInt data.size) with
    | some message => .ok message
    | none =>
      .error (.runtimeError ("parse binary " ++ what ++ " failed, type of:" ++ codec.typeName type))
  | .json =>
    match codec.jsonStringToMessage type data.bytes with
    | .ok message => .ok message
    | .error status =>
      .error (.runtimeError
        ("parse json " ++ what ++ " failed:" ++ status ++ ", type of:" ++ codec.typeName type))
  | .unrecognized _ _ =>
    .error (.runtimeError
      (what ++ " by unsupported encoding:" ++ encoding.toText ++ ", type of:" ++ codec.typeName type))

variable {σ E Ctx : Type}

def parseResponseWrapper (type : D) (handle : Msg → Option RpcError → Prog σ E Empty Empty (Except Exn Unit))
    (rpcMeta : RpcMeta) (data : StringView)
    (inboundInterceptor : UnaryServerInterceptor σ E Msg Ctx) (context : Ctx) :
    Prog σ E Empty Empty Reply :=
  match parseMessage codec "response" type rpcMeta.encoding data with
  | .error e => .ret { result := .error e, rpcMeta := rpcMeta }
  | .ok response =>
    -- of a failed response the body is parsed all the same
    let error : Option RpcError :=
      if rpcMeta.responseInfo.failed then
        some (.ofCode rpcMeta.responseInfo.errorCode rpcMeta.responseInfo.reason)
      else none
    inboundInterceptor.call
      -- each call of the continuation gets a copy of the error
      (fun args => (handle args.message (error.map RpcError.copy)).bind fun
        | .ok () => .ret { result := .ok (.ready (.value none)), rpcMeta := args.rpcMeta }
        | .error e => .ret { result := .error e, rpcMeta := args.rpcMeta })
      { rpcMeta := rpcMeta, message := response, context := context }

/-- `parseRequestWrapper`. The handler is a `mutable` lambda, and gets to know whether it is called for
the first time. -/
def parseRequestWrapper (type : D) (rpcMeta : RpcMeta) (data : StringView)
    (inboundInterceptor : UnaryServerInterceptor σ E Msg Ctx)
    (handler : Bool → UnaryHandler σ E Msg Ctx) (context : Ctx) : Prog σ E Empty Empty Reply :=
  match parseMessage codec "request" type rpcMeta.encoding data with
  | .error e => .ret { result := .error e, rpcMeta := rpcMeta }
  | .ok request =>
    (inboundInterceptor { rpcMeta := rpcMeta, message := request, context := context }).plug handler
      (fun _ => false) true

end parse

end GayRpc
