import GayRpc.Core.MetaRuntime
import GayRpc.Lib.Finmap

/-!
# Reading what was written

Reading a serialised meta into an object merges it into the object (`internalParse_serialize`), so that an
empty object becomes what was written. The sizes that stand in front of the sub-messages are computed
before these are written, and they are right (`length_serialize_eq_byteSizeLong`). Fields that are not
known, from a later version of the `.proto`, neither get lost nor in the way.

The proofs follow the writer. Each `serialize` is a list of fields one behind the other, and so is the
derivation of what a reader makes of them (`fields_serialize`): a field that says nothing is left out by the
writer and leaves the object as it is, any other field puts its value in place. A sub-message is read into
the one that is there already, and its size bounds what is read, so that its own `fields_serialize` applies.
The entries of `meta_data` come in some order, and since the keys are different the order does not matter
(`foldl_entries`).

What is kept of a field that is not known is the field as it came. A message that was parsed never keeps a
known one as unknown (`internalParse_wellFormed`); this is the hypothesis under which what was parsed can be
written and read again (`internalParse_relay`).
-/

namespace GayRpc

open WireCode

theorem ofBool_ne (b : Bool) : (ofBool b ≠ 0) = (b = true) := by
  cases b <;> simp [ofBool]

namespace Pb

variable {F : Type}

/-! ## Sizes -/

section sizes

variable {W : WireCode F}

theorem length_ite_nil {α : Type} (p : Prop) [Decidable p] (l : List α) :
    (if p then [] else l).length = if p then 0 else l.length := by
  split <;> rfl

theorem varintSize_ofBool (b : Bool) : W.varintSize (ofBool b) = 1 := by
  apply W.varintSize_small
  cases b <;> decide

theorem Request.length_serialize (m : Request F) : (serialize W m).length = byteSizeLong W m := by
  simp only [serialize, byteSizeLong, List.length_append, length_ite_nil, length_writeNumber,
    length_writeSized, length_writeFields, varintSize_ofBool]
  omega

theorem Response.length_serialize (m : Response F) : (serialize W m).length = byteSizeLong W m := by
  simp only [serialize, byteSizeLong, List.length_append, length_ite_nil, length_writeNumber,
    length_writeSized, length_writeFields, varintSize_ofBool]
  omega

end sizes

/-! ## `RpcMeta_Request` -/

namespace Request

variable {W : WireCode F} {m m' : Request F}

/-- One field after the other is put in place. -/
theorem fields_serialize (m : Request F) (hm' : W.WellFormed schema m')
    (hlimit : (serialize W m').length < W.sizeLimit) :
    W.Fields schema m (serialize W m') (m.mergeFrom m') := by
  obtain ⟨r, fs⟩ := m'
  have hsize : r.strMethod ≠ "" → (utf8 r.strMethod).length < W.sizeLimit := by
    intro h
    simp only [serialize, List.length_append, if_neg h, length_writeSized, delimitedSize] at hlimit
    omega
  have intMethod (m : Request F) : W.Fields schema m
      (if r.intMethod = 0 then [] else W.writeNumber 8 r.intMethod)
      { m with known.intMethod := if r.intMethod = 0 then m.known.intMethod else r.intMethod } :=
    .numberUnless rfl (by decide) (by decide) (fun h => by simp [h]) (fun h => by simp [h])
  have strMethod (m : Request F) : W.Fields schema m
      (if r.strMethod = "" then [] else W.writeSized 18 (utf8 r.strMethod).length (utf8 r.strMethod))
      { m with known.strMethod := if r.strMethod = "" then m.known.strMethod else r.strMethod } :=
    .sizedUnless rfl (by decide) (by decide) hsize (fun h => by simp [h])
      (fun h => by simp [h, parseUtf8_utf8])
  have expectResponse (m : Request F) : W.Fields schema m
      (if r.expectResponse = false then [] else W.writeNumber 24 (ofBool r.expectResponse))
      { m with known.expectResponse :=
          if r.expectResponse = false then m.known.expectResponse else r.expectResponse } :=
    .numberUnless rfl (by decide) (by decide) (fun h => by simp [h]) (fun h => by simp [h, ofBool_ne])
  have sequenceId (m : Request F) : W.Fields schema m
      (if r.sequenceId = 0 then [] else W.writeNumber 32 r.sequenceId)
      { m with known.sequenceId := if r.sequenceId = 0 then m.known.sequenceId else r.sequenceId } :=
    .numberUnless rfl (by decide) (by decide) (fun h => by simp [h]) (fun h => by simp [h])
  have timeout (m : Request F) : W.Fields schema m
      (if r.timeout = 0 then [] else W.writeNumber 40 r.timeout)
      { m with known.timeout := if r.timeout = 0 then m.known.timeout else r.timeout } :=
    .numberUnless rfl (by decide) (by decide) (fun h => by simp [h]) (fun h => by simp [h])
  apply (intMethod m).append
  apply (strMethod _).append
  apply (expectResponse _).append
  apply (sequenceId _).append
  apply (timeout _).append
  exact .unknowns hm'

theorem mergeFrom_empty (m : Request F) : mergeFrom { known := {} } m = m := by
  obtain ⟨⟨intMethod, strMethod, expectResponse, sequenceId, timeout⟩, fs⟩ := m
  simp +contextual [mergeFrom]

end Request

/-! ## `RpcMeta_Response` -/

namespace Response

variable {W : WireCode F} {m' : Response F}

theorem fields_serialize (m : Response F) (hm' : W.WellFormed schema m')
    (hlimit : (serialize W m').length < W.sizeLimit) :
    W.Fields schema m (serialize W m') (m.mergeFrom m') := by
  obtain ⟨r, fs⟩ := m'
  have hsize : r.reason ≠ "" → (utf8 r.reason).length < W.sizeLimit := by
    intro h
    simp only [serialize, List.length_append, if_neg h, length_writeSized, delimitedSize] at hlimit
    omega
  have sequenceId (m : Response F) : W.Fields schema m
      (if r.sequenceId = 0 then [] else W.writeNumber 8 r.sequenceId)
      { m with known.sequenceId := if r.sequenceId = 0 then m.known.sequenceId else r.sequenceId } :=
    .numberUnless rfl (by decide) (by decide) (fun h => by simp [h]) (fun h => by simp [h])
  have failed (m : Response F) : W.Fields schema m
      (if r.failed = false then [] else W.writeNumber 16 (ofBool r.failed))
      { m with known.failed := if r.failed = false then m.known.failed else r.failed } :=
    .numberUnless rfl (by decide) (by decide) (fun h => by simp [h]) (fun h => by simp [h, ofBool_ne])
  have errorCode (m : Response F) : W.Fields schema m
      (if r.errorCode = 0 then [] else W.writeNumber 24 (signExtend r.errorCode))
      { m with known.errorCode := if r.errorCode = 0 then m.known.errorCode else r.errorCode } :=
    .numberUnless rfl (by decide) (by decide) (fun h => by simp [h])
      (fun h => by simp [h, truncate_signExtend])
  have reason (m : Response F) : W.Fields schema m
      (if r.reason = "" then [] else W.writeSized 34 (utf8 r.reason).length (utf8 r.reason))
      { m with known.reason := if r.reason = "" then m.known.reason else r.reason } :=
    .sizedUnless rfl (by decide) (by decide) hsize (fun h => by simp [h])
      (fun h => by simp [h, parseUtf8_utf8])
  have timeout (m : Response F) : W.Fields schema m
      (if r.timeout = false then [] else W.writeNumber 40 (ofBool r.timeout))
      { m with known.timeout := if r.timeout = false then m.known.timeout else r.timeout } :=
    .numberUnless rfl (by decide) (by decide) (fun h => by simp [h]) (fun h => by simp [h, ofBool_ne])
  apply (sequenceId m).append
  apply (failed _).append
  apply (errorCode _).append
  apply (reason _).append
  apply (timeout _).append
  exact .unknowns hm'

theorem mergeFrom_empty (m : Response F) : mergeFrom { known := {} } m = m := by
  obtain ⟨⟨sequenceId, failed, errorCode, reason, timeout⟩, fs⟩ := m
  simp +contextual [mergeFrom]

end Response

/-! ## `RpcMeta` -/

namespace RpcMeta

variable {P : MetaRuntime F} {m m' : RpcMeta F}

theorem entries_perm (m : MetaFields F) : (entries P m).Perm (P.iterate m.metaData).entries := by
  unfold entries
  dsimp only
  split_ifs
  · exact List.mergeSort_perm _ _
  · exact .refl _

/-- The entries that are written are those of the map, however they are ordered. -/
theorem foldl_entries (m : MetaFields F) (s : Finmap fun _ : String => String) :
    (entries P m).foldl (fun s e => s.insert e.1 e.2) s = m.metaData ∪ s := by
  have hperm := entries_perm (P := P) m
  have hnodup : (entries P m).NodupKeys :=
    (List.perm_nodupKeys hperm).mpr (P.iterate m.metaData).nodupKeys
  have hitems : (AList.mk (entries P m) hnodup).toFinmap = m.metaData := by
    rw [← P.toFinmap_iterate m.metaData]
    exact AList.toFinmap_eq.mpr hperm
  rw [← hitems]
  exact Finmap.foldl_insert_entries (AList.mk (entries P m) hnodup) s

theorem length_entries (items : List (Sigma fun _ : String => String)) :
    (items.flatMap fun e => P.writeSized 50 (P.entrySize e.1 e.2) (P.serializeEntry e.1 e.2)).length =
      1 * items.length + (items.map fun e => P.delimitedSize (P.entrySize e.1 e.2)).sum := by
  induction items with
  | nil => rfl
  | cons e items ih =>
      have hone := length_writeSized (W := P.toWireCode) 50 (P.serializeEntry e.1 e.2)
      rw [P.length_serializeEntry] at hone
      simp only [List.flatMap_cons, List.length_append, hone, ih, List.map_cons, List.sum_cons,
        List.length_cons]
      omega

theorem length_elim {α β : Type} (o : Option α) (f : α → List β) :
    (o.elim [] f).length = o.elim 0 fun a => (f a).length := by
  cases o <;> rfl

/-- The size that is computed beforehand is that of what is written. -/
theorem length_serialize_eq_byteSizeLong (m : RpcMeta F) : (serialize P m).length = byteSizeLong P m := by
  have hentries : ((entries P m.known).flatMap fun e =>
      P.writeSized 50 (P.entrySize e.1 e.2) (P.serializeEntry e.1 e.2)).length =
      1 * (P.iterate m.known.metaData).entries.length +
        ((P.iterate m.known.metaData).entries.map fun e => P.delimitedSize (P.entrySize e.1 e.2)).sum := by
    rw [← length_entries]
    exact ((entries_perm m.known).flatMap_right _).length_eq
  simp only [serialize, byteSizeLong, List.length_append, length_ite_nil, length_elim, length_writeNumber,
    length_writeFields, ← Request.length_serialize, ← Response.length_serialize, length_writeSized, hentries]
  omega

variable (P) in
/-- Neither the message nor a part of it keeps a field as unknown that is known. -/
structure WellFormed (m : RpcMeta F) : Prop where
  fields : P.WellFormed (schema P) m
  request : ∀ info ∈ m.known.requestInfo, P.WellFormed Request.schema info
  response : ∀ info ∈ m.known.responseInfo, P.WellFormed Response.schema info

theorem fields_entries (items : List (Sigma fun _ : String => String)) (m : RpcMeta F)
    (hlimit : ∀ e ∈ items, (P.serializeEntry e.1 e.2).length < P.sizeLimit) :
    P.Fields (schema P) m
      (items.flatMap fun e => P.writeSized 50 (P.entrySize e.1 e.2) (P.serializeEntry e.1 e.2))
      { m with known.metaData := items.foldl (fun s e => s.insert e.1 e.2) m.known.metaData } := by
  induction items generalizing m with
  | nil => exact .nil
  | cons e items ih =>
      obtain ⟨he, hrest⟩ := List.forall_mem_cons.mp hlimit
      have hone : P.Fields (schema P) m (P.writeSized 50 (P.entrySize e.1 e.2) (P.serializeEntry e.1 e.2))
          { m with known.metaData := m.known.metaData.insert e.1 e.2 } := by
        rw [← P.length_serializeEntry]
        exact .sized rfl (by decide) (by decide) he (by simp [P.parseEntry_serialize e.1 e.2 he])
      exact hone.append (ih _ hrest)

/-- What is written between other things is no longer than everything. -/
theorem length_parts_lt {n : ℕ} (hlimit : (serialize P m').length < n) :
    (∀ info ∈ m'.known.requestInfo, (Request.serialize P.toWireCode info).length < n) ∧
      (∀ info ∈ m'.known.responseInfo, (Response.serialize P.toWireCode info).length < n) ∧
      ∀ e ∈ entries P m'.known, (P.serializeEntry e.1 e.2).length < n := by
  simp only [serialize, List.length_append, length_elim, ← Request.length_serialize,
    ← Response.length_serialize, length_writeSized, delimitedSize] at hlimit
  refine ⟨fun info h => ?_, fun info h => ?_, fun e he => ?_⟩
  · rw [Option.mem_def.mp h] at hlimit
    simp only [Option.elim_some] at hlimit
    omega
  · rw [Option.mem_def.mp h] at hlimit
    simp only [Option.elim_some] at hlimit
    omega
  · -- an entry of the map is no longer than its sized form, nor that than all of them
    have hone : (P.serializeEntry e.1 e.2).length ≤
        (P.writeSized 50 (P.entrySize e.1 e.2) (P.serializeEntry e.1 e.2)).length := by
      simp [writeSized]
      omega
    have hall : (P.writeSized 50 (P.entrySize e.1 e.2) (P.serializeEntry e.1 e.2)).length ≤
        ((entries P m'.known).flatMap fun e =>
          P.writeSized 50 (P.entrySize e.1 e.2) (P.serializeEntry e.1 e.2)).length := by
      rw [List.flatMap_def]
      apply List.Sublist.length_le
      apply List.sublist_flatten_of_mem
      exact List.mem_map.mpr ⟨e, he, rfl⟩
    omega

theorem fields_serialize (m : RpcMeta F) (hm' : WellFormed P m')
    (hlimit : (serialize P m').length < P.sizeLimit) :
    P.Fields (schema P) m (serialize P m') (m.mergeFrom m') := by
  obtain ⟨hrequest, hresponse, hentries⟩ := length_parts_lt hlimit
  obtain ⟨r, fs⟩ := m'
  -- one fact for each field in the order of its tag; a field with its default is not written
  have type (m : RpcMeta F) : P.Fields (schema P) m
      (if r.type.value = 0 then [] else P.writeNumber 8 (signExtend r.type.value))
      { m with known.type := if r.type.value = 0 then m.known.type else r.type } :=
    .numberUnless rfl (by decide) (by decide) (fun h => by simp [h])
      (fun h => by simp [h, truncate_signExtend])
  have serviceId (m : RpcMeta F) : P.Fields (schema P) m
      (if r.serviceId = 0 then [] else P.writeNumber 16 r.serviceId.toUInt64)
      { m with known.serviceId := if r.serviceId = 0 then m.known.serviceId else r.serviceId } :=
    .numberUnless rfl (by decide) (by decide) (fun h => by simp [h]) (fun h => by simp [h])
  have encoding (m : RpcMeta F) : P.Fields (schema P) m
      (if r.encoding.value = 0 then [] else P.writeNumber 24 (signExtend r.encoding.value))
      { m with known.encoding := if r.encoding.value = 0 then m.known.encoding else r.encoding } :=
    .numberUnless rfl (by decide) (by decide) (fun h => by simp [h])
      (fun h => by simp [h, truncate_signExtend])
  have request (m : RpcMeta F) : P.Fields (schema P) m
      (r.requestInfo.elim [] fun info =>
        P.writeSized 34 (Request.byteSizeLong P.toWireCode info) (Request.serialize P.toWireCode info))
      { m with
        known.requestInfo :=
          r.requestInfo.elim m.known.requestInfo fun info =>
            some ((m.known.requestInfo.getD { known := {} }).mergeFrom info) } := by
    cases hinfo : r.requestInfo with
    | none => exact .nil
    | some info =>
        -- the nested message is written in full, and parsing it merges it into the one that is there
        have hparse : Request.internalParse P.toWireCode (m.known.requestInfo.getD { known := {} })
            (Request.serialize P.toWireCode info) =
              some ((m.known.requestInfo.getD { known := {} }).mergeFrom info) :=
          parse_eq_some_iff.mpr
            (Request.fields_serialize _ (hm'.request info hinfo) (hrequest info hinfo))
        rw [Option.elim_some, ← Request.length_serialize]
        exact .sized rfl (by decide) (by decide) (hrequest info hinfo) (by simp [hparse])
  have response (m : RpcMeta F) : P.Fields (schema P) m
      (r.responseInfo.elim [] fun info =>
        P.writeSized 42 (Response.byteSizeLong P.toWireCode info) (Response.serialize P.toWireCode info))
      { m with
        known.responseInfo :=
          r.responseInfo.elim m.known.responseInfo fun info =>
            some ((m.known.responseInfo.getD { known := {} }).mergeFrom info) } := by
    cases hinfo : r.responseInfo with
    | none => exact .nil
    | some info =>
        have hparse : Response.internalParse P.toWireCode (m.known.responseInfo.getD { known := {} })
            (Response.serialize P.toWireCode info) =
              some ((m.known.responseInfo.getD { known := {} }).mergeFrom info) :=
          parse_eq_some_iff.mpr
            (Response.fields_serialize _ (hm'.response info hinfo) (hresponse info hinfo))
        rw [Option.elim_some, ← Response.length_serialize]
        exact .sized rfl (by decide) (by decide) (hresponse info hinfo) (by simp [hparse])
  have metaData (m : RpcMeta F) := fields_entries (entries P r) m hentries
  rw [mergeFrom, ← foldl_entries (P := P)]
  apply (type m).append
  apply (serviceId _).append
  apply (encoding _).append
  apply (request _).append
  apply (response _).append
  apply (metaData _).append
  exact .unknowns hm'.fields

/-- A field that this version does not know. -/
def laterField : Base128.RawField where
  tag := 56
  payload := [5]
  numbered := by decide
  skips _ := rfl

/-- A response with an entry in its map, from a later version. -/
def later : RpcMeta Base128.RawField where
  known :=
    { type := .response
      serviceId := 300
      responseInfo := some { known := { sequenceId := 1, failed := true, errorCode := -1, reason := "no" } }
      metaData := (∅ : Finmap _).insert "trace" "7" }
  unknownFields := [laterField]

theorem wellFormed_later : WellFormed base128 later := by
  constructor
  · intro f hf
    obtain rfl := List.mem_singleton.mp hf
    rfl
  · simp [later]
  · simp [later, WireCode.WellFormed]

/-- A serialised message that is read into an object is merged into it. -/
theorem internalParse_serialize (m : RpcMeta F) (hm' : WellFormed P m')
    (hlimit : (serialize P m').length < P.sizeLimit) :
    internalParse P m (serialize P m') = some (m.mergeFrom m') :=
  parse_eq_some_iff.mpr (fields_serialize m hm' hlimit)

theorem internalParse_serialize_later :
    internalParse base128 later (serialize base128 later) = some (later.mergeFrom later) :=
  internalParse_serialize later wellFormed_later (by decide +kernel)

theorem mergeFrom_empty (m : RpcMeta F) : empty.mergeFrom m = m := by
  obtain ⟨⟨type, serviceId, encoding, requestInfo, responseInfo, metaData⟩, fs⟩ := m
  -- the type with the value 0 is that of an empty object
  have htype : (if type.value = 0 then .request else type) = type := by
    split_ifs with h
    · rw [← MetaType.ofValue_value type, h]
      rfl
    · rfl
  have hencoding : (if encoding.value = 0 then .binary else encoding) = encoding := by
    split_ifs with h
    · rw [← DataEncodingType.ofValue_value encoding, h]
      rfl
    · rfl
  have hrequest : (requestInfo.elim none fun info => some info) = requestInfo := by
    cases requestInfo <;> rfl
  have hresponse : (responseInfo.elim none fun info => some info) = responseInfo := by
    cases responseInfo <;> rfl
  simp +contextual [mergeFrom, empty, htype, hencoding, hrequest, hresponse, Request.mergeFrom_empty,
    Response.mergeFrom_empty]

/-- What is read of a field keeps the parts well-formed. -/
theorem schema_preserves {tag : UInt32} {kind : FieldKind (MetaFields F)} (h : schema P tag = some kind) :
    FieldKind.Preserves (fun k => (∀ info ∈ k.requestInfo, P.WellFormed Request.schema info) ∧
      ∀ info ∈ k.responseInfo, P.WellFormed Response.schema info) kind := by
  -- a nested message starts from the one that is there, or from an empty one
  have fresh {M : Type} {σ : Schema M} (o : Option (WireMessage F M)) (k : M)
      (ho : ∀ info ∈ o, P.WellFormed σ info) : P.WellFormed σ (o.getD { known := k }) := by
    cases o with
    | none => simp [WireCode.WellFormed]
    | some info => exact ho info rfl
  unfold schema at h
  split at h
  · split_ifs at h
    cases h
    exact fun _ _ hk => hk
  · split_ifs at h
    cases h
    exact fun _ _ hk => hk
  · split_ifs at h
    cases h
    exact fun _ _ hk => hk
  · split_ifs at h
    cases h
    intro bytes k k' hset hk
    obtain ⟨info, hinfo, rfl⟩ := Option.map_eq_some_iff.mp hset
    refine ⟨fun info' h' => ?_, hk.2⟩
    cases h'
    -- the request is parsed in place, and the response is left as it was
    exact parse_wellFormed (fresh _ _ hk.1) hinfo
  · split_ifs at h
    cases h
    intro bytes k k' hset hk
    obtain ⟨info, hinfo, rfl⟩ := Option.map_eq_some_iff.mp hset
    refine ⟨hk.1, fun info' h' => ?_⟩
    cases h'
    exact parse_wellFormed (fresh _ _ hk.2) hinfo
  · split_ifs at h
    cases h
    intro bytes k k' hset hk
    obtain ⟨e, -, rfl⟩ := Option.map_eq_some_iff.mp hset
    exact hk
  · cases h

/-- What is read is well-formed. -/
theorem internalParse_wellFormed (hm : WellFormed P m) {s : List UInt8}
    (h : internalParse P m s = some m') : WellFormed P m' := by
  obtain ⟨hrequest, hresponse⟩ := parse_preserves schema_preserves ⟨hm.request, hm.response⟩ h
  exact ⟨parse_wellFormed hm.fields h, hrequest, hresponse⟩

theorem wellFormed_empty : WellFormed P empty := by
  constructor <;> simp [empty, WireCode.WellFormed]

theorem wellFormed_ofView (m : GayRpc.RpcMeta) : WellFormed P (ofView m) := by
  constructor <;> simp [ofView, WireCode.WellFormed]

/-- A message that was read can be passed on: whoever reads it reads the same, with the entries of the map
and what this version does not know, at every level. -/
theorem internalParse_relay {s : List UInt8} (h : internalParse P empty s = some m)
    (hlimit : (serialize P m).length < P.sizeLimit) : internalParse P empty (serialize P m) = some m := by
  have hfields := fields_serialize empty (internalParse_wellFormed wellFormed_empty h) hlimit
  rw [mergeFrom_empty] at hfields
  exact parse_eq_some_iff.mpr hfields

theorem internalParse_relay_later :
    internalParse base128 empty (serialize base128 later) = some later :=
  internalParse_relay (s := serialize base128 later)
    (by
      have hfields := fields_serialize empty wellFormed_later (by decide +kernel)
      rw [mergeFrom_empty] at hfields
      exact parse_eq_some_iff.mpr hfields)
    (by decide +kernel)

/-- What the library builds arrives as it was built. -/
theorem parseFromArray_serializeAsString (m : GayRpc.RpcMeta)
    (hlimit : (serializeAsString P m).length < P.sizeLimit) :
    parseFromArray P (serializeAsString P m) (serializeAsString P m).length = some m := by
  have hfields := fields_serialize empty (wellFormed_ofView m) hlimit
  rw [mergeFrom_empty] at hfields
  have hparse : internalParse P empty (serializeAsString P m) = some (ofView m) :=
    parse_eq_some_iff.mpr hfields
  rw [parseFromArray, if_neg (by omega), Int.toNat_natCast, List.take_length, hparse, Option.map_some,
    view_ofView]

/-- A field that this version does not know, put between two fields, makes no difference to the library. -/
theorem parseFromArray_unknown {s : List UInt8} (hs : internalParse P empty s = some m) {f : F}
    (hf : schema P (P.fieldTag f) = none) (t : List UInt8) :
    parseFromArray P (s ++ (P.writeField f ++ t)) (s ++ (P.writeField f ++ t)).length =
      parseFromArray P (s ++ t) (s ++ t).length := by
  have hview (o : Option (RpcMeta F)) :
      o.map view = (o.map WireMessage.known).map fun k => view { known := k } := by
    cases o <;> rfl
  simp only [parseFromArray, Int.toNat_natCast, List.take_length,
    if_neg (Int.not_lt.mpr (Int.natCast_nonneg _))]
  rw [hview, hview (internalParse P empty (s ++ t))]
  exact congrArg _ (parse_insert hs hf t)

theorem parseFromArray_unknown_later :
    parseFromArray base128 ([8, 1] ++ (base128.writeField laterField ++ serialize base128 later))
        ([8, 1] ++ (base128.writeField laterField ++ serialize base128 later)).length =
      parseFromArray base128 ([8, 1] ++ serialize base128 later)
        ([8, 1] ++ serialize base128 later).length :=
  have hs : internalParse base128 empty [8, 1] = some { known := { type := .response } } := rfl
  have hf : schema base128 (base128.fieldTag laterField) = none := rfl
  parseFromArray_unknown hs hf (serialize base128 later)

end RpcMeta

end Pb

end GayRpc
