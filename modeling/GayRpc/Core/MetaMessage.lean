import GayRpc.Core.Meta
import GayRpc.Lib.Wire
import Mathlib.Data.Finmap

/-!
# The generated classes of `RpcMeta`

`gayrpc_meta.pb.cc`: how the three messages are parsed, serialised, measured and merged. Here they have all
their fields, `meta_data` and the fields that are not known included. For each of them there are

    internalParse    _InternalParse, as the loop of the runtime over a schema, which is its switch
    serialize        InternalSerializeWithCachedSizesToArray
    byteSizeLong     ByteSizeLong
    mergeFrom        MergeFrom

What the generated code takes from the runtime of protobuf is a parameter, `MetaRuntime`: how numbers and
tags look, and how an entry of a map is written and read, which a template of the runtime does. The order in
which the entries of a map are written is up to the runtime as well.

`view` and `ofView` lead from these classes to the `RpcMeta` that the rest of the library is modelled with,
and back.

A `std::string` that is not UTF-8 is not modelled: the parser refuses it, and so would the peer.
-/

namespace GayRpc

/-- The runtime of protobuf, as far as `RpcMeta` needs it. A map is gone through in an order that is up
to its hash table, and its entries are messages of a template. -/
structure MetaRuntime (F : Type) extends WireCode F where
  iterate : Finmap (fun _ : String => String) → AList (fun _ : String => String)
  toFinmap_iterate : ∀ entries, (iterate entries).toFinmap = entries
  serializeEntry : String → String → List UInt8
  parseEntry : List UInt8 → Option (String × String)
  entrySize : String → String → ℕ
  parseEntry_serialize : ∀ key value, (serializeEntry key value).length < sizeLimit →
    parseEntry (serializeEntry key value) = some (key, value)
  length_serializeEntry : ∀ key value, (serializeEntry key value).length = entrySize key value
  /-- `IsSerializationDeterministic` -/
  deterministic : Bool

def utf8 (s : String) : List UInt8 := s.toByteArray.data.toList

/-- `InlineGreedyStringParserUTF8`: a string that is not UTF-8 is refused. -/
def parseUtf8 (bytes : List UInt8) : Option String := String.fromUTF8? ⟨bytes.toArray⟩

theorem parseUtf8_utf8 (s : String) : parseUtf8 (utf8 s) = some s := by
  have hvalid : (ByteArray.mk s.toByteArray.data).IsValidUTF8 := s.isValidUTF8
  rw [parseUtf8, utf8, Array.toArray_toList, String.fromUTF8?]
  exact dif_pos hvalid

/-- A negative number is written with all its 64 bits. -/
def signExtend (x : Int32) : UInt64 := x.toInt64.toUInt64

/-- `uint64` to `int32`. -/
def truncate (v : UInt64) : Int32 := v.toUInt32.toInt32

theorem truncate_signExtend (x : Int32) : truncate (signExtend x) = x := by
  unfold truncate signExtend
  rw [← Int32.toBitVec_inj]
  ext i hi
  have hi' : i < 64 := Nat.lt_trans hi (by decide)
  simp [BitVec.getElem_signExtend, hi, hi']

/-- What is added to the value of a `bool`. -/
def ofBool (b : Bool) : UInt64 := if b then 1 else 0

def MetaType.value : MetaType → Int32
  | .request => 0
  | .response => 1
  | .unrecognized value _ => value

/-- `static_cast<RpcMeta_Type>`. -/
def MetaType.ofValue (value : Int32) : MetaType :=
  if h₀ : value = 0 then .request
  else if h₁ : value = 1 then .response
  else .unrecognized value ⟨h₀, h₁⟩

@[simp] theorem MetaType.ofValue_value (type : MetaType) : ofValue type.value = type := by
  cases type with
  | unrecognized value h => exact (dif_neg h.1).trans (dif_neg h.2)
  | _ => rfl

def DataEncodingType.value : DataEncodingType → Int32
  | .binary => 0
  | .json => 1
  | .unrecognized value _ => value

/-- `static_cast<RpcMeta_DataEncodingType>`. -/
def DataEncodingType.ofValue (value : Int32) : DataEncodingType :=
  if h₀ : value = 0 then .binary
  else if h₁ : value = 1 then .json
  else .unrecognized value ⟨h₀, h₁⟩

@[simp] theorem DataEncodingType.ofValue_value (encoding : DataEncodingType) :
    ofValue encoding.value = encoding := by
  cases encoding with
  | unrecognized value h => exact (dif_neg h.1).trans (dif_neg h.2)
  | _ => rfl

namespace Pb

variable {F : Type}

/-! ## `RpcMeta_Request` -/

abbrev Request (F : Type) : Type := WireMessage F RpcMeta.Request

namespace Request

/-- The `switch` of `_InternalParse`. -/
def schema : Schema RpcMeta.Request := fun tag =>
  match (tag >>> 3).toNat with
  | 1 =>
    if tag.toUInt8 = 8 then some (.varint fun v m => { m with intMethod := v }) else none
  | 2 =>
    if tag.toUInt8 = 18 then
      some (.delimited fun bytes m => (parseUtf8 bytes).map fun s => { m with strMethod := s })
    else none
  | 3 =>
    if tag.toUInt8 = 24 then some (.varint fun v m => { m with expectResponse := v ≠ 0 }) else none
  | 4 =>
    if tag.toUInt8 = 32 then some (.varint fun v m => { m with sequenceId := v }) else none
  | 5 =>
    if tag.toUInt8 = 40 then some (.varint fun v m => { m with timeout := v }) else none
  | _ => none

variable (W : WireCode F)

def internalParse (m : Request F) (bytes : List UInt8) : Option (Request F) := W.parse schema m bytes

/-- `InternalSerializeWithCachedSizesToArray`. -/
def serialize (m : Request F) : List UInt8 :=
  let r := m.known
  (if r.intMethod = 0 then [] else W.writeNumber 8 r.intMethod) ++
    ((if r.strMethod = "" then [] else W.writeSized 18 (utf8 r.strMethod).length (utf8 r.strMethod)) ++
      ((if r.expectResponse = false then [] else W.writeNumber 24 (ofBool r.expectResponse)) ++
        ((if r.sequenceId = 0 then [] else W.writeNumber 32 r.sequenceId) ++
          ((if r.timeout = 0 then [] else W.writeNumber 40 r.timeout) ++
            m.unknownFields.flatMap W.writeField))))

def byteSizeLong (m : Request F) : ℕ :=
  let r := m.known
  (if r.strMethod = "" then 0 else 1 + W.delimitedSize (utf8 r.strMethod).length) +
    (if r.intMethod = 0 then 0 else 1 + W.varintSize r.intMethod) +
    (if r.sequenceId = 0 then 0 else 1 + W.varintSize r.sequenceId) +
    (if r.timeout = 0 then 0 else 1 + W.varintSize r.timeout) +
    (if r.expectResponse = false then 0 else 1 + 1) + (m.unknownFields.map W.fieldSize).sum

def mergeFrom (m source : Request F) : Request F where
  unknownFields := m.unknownFields ++ source.unknownFields
  known :=
    { strMethod := if source.known.strMethod = "" then m.known.strMethod else source.known.strMethod
      intMethod := if source.known.intMethod = 0 then m.known.intMethod else source.known.intMethod
      sequenceId := if source.known.sequenceId = 0 then m.known.sequenceId else source.known.sequenceId
      timeout := if source.known.timeout = 0 then m.known.timeout else source.known.timeout
      expectResponse :=
        if source.known.expectResponse = false then m.known.expectResponse
        else source.known.expectResponse }

end Request

/-! ## `RpcMeta_Response` -/

abbrev Response (F : Type) : Type := WireMessage F RpcMeta.Response

namespace Response

/-- The `switch` of `_InternalParse`. -/
def schema : Schema RpcMeta.Response := fun tag =>
  match (tag >>> 3).toNat with
  | 1 =>
    if tag.toUInt8 = 8 then some (.varint fun v m => { m with sequenceId := v }) else none
  | 2 =>
    if tag.toUInt8 = 16 then some (.varint fun v m => { m with failed := v ≠ 0 }) else none
  | 3 =>
    if tag.toUInt8 = 24 then some (.varint fun v m => { m with errorCode := truncate v }) else none
  | 4 =>
    if tag.toUInt8 = 34 then
      some (.delimited fun bytes m => (parseUtf8 bytes).map fun s => { m with reason := s })
    else none
  | 5 =>
    if tag.toUInt8 = 40 then some (.varint fun v m => { m with timeout := v ≠ 0 }) else none
  | _ => none

variable (W : WireCode F)

def internalParse (m : Response F) (bytes : List UInt8) : Option (Response F) := W.parse schema m bytes

/-- `InternalSerializeWithCachedSizesToArray`. -/
def serialize (m : Response F) : List UInt8 :=
  let r := m.known
  (if r.sequenceId = 0 then [] else W.writeNumber 8 r.sequenceId) ++
    ((if r.failed = false then [] else W.writeNumber 16 (ofBool r.failed)) ++
      ((if r.errorCode = 0 then [] else W.writeNumber 24 (signExtend r.errorCode)) ++
        ((if r.reason = "" then [] else W.writeSized 34 (utf8 r.reason).length (utf8 r.reason)) ++
          ((if r.timeout = false then [] else W.writeNumber 40 (ofBool r.timeout)) ++
            m.unknownFields.flatMap W.writeField))))

def byteSizeLong (m : Response F) : ℕ :=
  let r := m.known
  (if r.reason = "" then 0 else 1 + W.delimitedSize (utf8 r.reason).length) +
    (if r.sequenceId = 0 then 0 else 1 + W.varintSize r.sequenceId) +
    (if r.errorCode = 0 then 0 else 1 + W.varintSize (signExtend r.errorCode)) +
    (if r.failed = false then 0 else 1 + 1) + (if r.timeout = false then 0 else 1 + 1) +
    (m.unknownFields.map W.fieldSize).sum

def mergeFrom (m source : Response F) : Response F where
  unknownFields := m.unknownFields ++ source.unknownFields
  known :=
    { reason := if source.known.reason = "" then m.known.reason else source.known.reason
      sequenceId := if source.known.sequenceId = 0 then m.known.sequenceId else source.known.sequenceId
      errorCode := if source.known.errorCode = 0 then m.known.errorCode else source.known.errorCode
      failed := if source.known.failed = false then m.known.failed else source.known.failed
      timeout := if source.known.timeout = false then m.known.timeout else source.known.timeout }

end Response

/-! ## `RpcMeta` -/

/-- What a meta is about. -/
structure MetaFields (F : Type) where
  type : MetaType := .request
  serviceId : UInt32 := 0
  encoding : DataEncodingType := .binary
  requestInfo : Option (Request F) := none
  responseInfo : Option (Response F) := none
  metaData : Finmap (fun _ : String => String) := ∅

abbrev RpcMeta (F : Type) : Type := WireMessage F (MetaFields F)

namespace RpcMeta

variable (P : MetaRuntime F)

/-- The `switch` of `_InternalParse`. A sub-message is read into the one that is there. The loop that goes
on with the next entry of the map as long as its tag follows is the loop over the fields. -/
def schema : Schema (MetaFields F) := fun tag =>
  match (tag >>> 3).toNat with
  | 1 =>
    if tag.toUInt8 = 8 then some (.varint fun v m => { m with type := .ofValue (truncate v) }) else none
  | 2 =>
    if tag.toUInt8 = 16 then some (.varint fun v m => { m with serviceId := v.toUInt32 }) else none
  | 3 =>
    if tag.toUInt8 = 24 then
      some (.varint fun v m => { m with encoding := .ofValue (truncate v) })
    else none
  | 4 =>
    if tag.toUInt8 = 34 then
      some (.delimited fun bytes m =>
        -- merged into what an earlier field of the same number has left
        (Request.internalParse P.toWireCode (m.requestInfo.getD { known := {} }) bytes).map fun r =>
          { m with requestInfo := some r })
    else none
  | 5 =>
    if tag.toUInt8 = 42 then
      some (.delimited fun bytes m =>
        (Response.internalParse P.toWireCode (m.responseInfo.getD { known := {} }) bytes).map fun r =>
          { m with responseInfo := some r })
    else none
  | 6 =>
    if tag.toUInt8 = 50 then
      some (.delimited fun bytes m =>
        (P.parseEntry bytes).map fun (key, value) => { m with metaData := m.metaData.insert key value })
    else none
  | _ => none

def internalParse (m : RpcMeta F) (bytes : List UInt8) : Option (RpcMeta F) := P.parse (schema P) m bytes

/-- The entries of the map, in the order in which they are written. -/
def entries (m : MetaFields F) : List (Sigma fun _ : String => String) :=
  let items := (P.iterate m.metaData).entries
  if P.deterministic ∧ 1 < items.length then items.mergeSort fun a b => a.1 ≤ b.1 else items

/-- `InternalSerializeWithCachedSizesToArray`. -/
def serialize (m : RpcMeta F) : List UInt8 :=
  let r := m.known
  (if r.type.value = 0 then [] else P.writeNumber 8 (signExtend r.type.value)) ++
    ((if r.serviceId = 0 then [] else P.writeNumber 16 r.serviceId.toUInt64) ++
      ((if r.encoding.value = 0 then [] else P.writeNumber 24 (signExtend r.encoding.value)) ++
        ((r.requestInfo.elim [] fun info =>
            P.writeSized 34 (Request.byteSizeLong P.toWireCode info) (Request.serialize P.toWireCode info)) ++
          ((r.responseInfo.elim [] fun info =>
              P.writeSized 42 (Response.byteSizeLong P.toWireCode info)
                (Response.serialize P.toWireCode info)) ++
            -- the entries of the map come in the order of the runtime
            (((entries P r).flatMap fun e =>
                P.writeSized 50 (P.entrySize e.1 e.2) (P.serializeEntry e.1 e.2)) ++
              m.unknownFields.flatMap P.writeField)))))

def byteSizeLong (m : RpcMeta F) : ℕ :=
  let r := m.known
  -- in the order of the source: the map, the messages, the numbers
  let items := (P.iterate r.metaData).entries
  1 * items.length + (items.map fun e => P.delimitedSize (P.entrySize e.1 e.2)).sum +
    (r.requestInfo.elim 0 fun info => 1 + P.delimitedSize (Request.byteSizeLong P.toWireCode info)) +
    (r.responseInfo.elim 0 fun info => 1 + P.delimitedSize (Response.byteSizeLong P.toWireCode info)) +
    (if r.type.value = 0 then 0 else 1 + P.varintSize (signExtend r.type.value)) +
    (if r.serviceId = 0 then 0 else 1 + P.varintSize r.serviceId.toUInt64) +
    (if r.encoding.value = 0 then 0 else 1 + P.varintSize (signExtend r.encoding.value)) +
    (m.unknownFields.map P.fieldSize).sum

def mergeFrom (m source : RpcMeta F) : RpcMeta F where
  unknownFields := m.unknownFields ++ source.unknownFields
  known :=
    -- of two entries with one key that of `source` stays
    { metaData := source.known.metaData ∪ m.known.metaData
      requestInfo := source.known.requestInfo.elim m.known.requestInfo fun info =>
        some ((m.known.requestInfo.getD { known := {} }).mergeFrom info)
      responseInfo := source.known.responseInfo.elim m.known.responseInfo fun info =>
        some ((m.known.responseInfo.getD { known := {} }).mergeFrom info)
      type := if source.known.type.value = 0 then m.known.type else source.known.type
      serviceId := if source.known.serviceId = 0 then m.known.serviceId else source.known.serviceId
      encoding := if source.known.encoding.value = 0 then m.known.encoding else source.known.encoding }

def empty : RpcMeta F := { known := {} }

/-- What the library reads of a message. -/
def view (m : RpcMeta F) : GayRpc.RpcMeta where
  type := m.known.type
  serviceId := m.known.serviceId
  encoding := m.known.encoding
  request := m.known.requestInfo.map WireMessage.known
  response := m.known.responseInfo.map WireMessage.known

/-- A message that the library has built. -/
def ofView (m : GayRpc.RpcMeta) : RpcMeta F where
  known :=
    { type := m.type
      serviceId := m.serviceId
      encoding := m.encoding
      requestInfo := m.request.map fun r => { known := r }
      responseInfo := m.response.map fun r => { known := r } }

@[simp] theorem view_ofView (m : GayRpc.RpcMeta) : (ofView m : RpcMeta F).view = m := by
  simp [view, ofView, Function.comp_def]

def serializeAsString (m : GayRpc.RpcMeta) : List UInt8 := serialize P (ofView m)

/-- `ParseFromArray`, where the size is not negative. -/
def parseFromArray (bytes : List UInt8) (size : Int) : Option GayRpc.RpcMeta :=
  if size < 0 then none else (internalParse P empty (bytes.take size.toNat)).map view

end RpcMeta

end Pb

end GayRpc
