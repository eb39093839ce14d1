import GayRpc.Core.StringView
import GayRpc.Core.TypeHandler
import GayRpc.Lib.Prog

/-!
# The table as one map

`RpcTypeHandleManager` keeps a map for each type, which it makes when it needs it and drops when it is
empty. What it is there for is one map, from a type and a service id to a handler (`FlatTable`), and
whatever is done to the table, nobody can tell it from that (`table_refines_flat_map`).

`Represents` is the relation between the two: the table finds what the map holds, and no type has an
empty map (`Pruned`). Each operation leads from related states to related states and returns the same
(`Represents.perform`), so any history of operations does (`Represents.run`).

That no type has an empty map is what makes the two texts of `handleRpcMsg` come out right: "not found type"
is thrown if and only if no service is registered for the type at all.
-/

namespace GayRpc

variable {Hd : Type}

/-- What is done to the table. -/
inductive TableOperation (Hd : Type) where
  | registerTypeHandle (type : MetaType) (handle : Hd) (serviceID : UInt32)
  | removeTypeHandle (type : MetaType) (serviceID : UInt32)
  | removeAll

namespace RpcTypeHandleManager

def perform (m : RpcTypeHandleManager Hd) :
    TableOperation Hd → Option Bool × RpcTypeHandleManager Hd
  | .registerTypeHandle type handle serviceID =>
    (some (m.registerTypeHandle type handle serviceID).1, (m.registerTypeHandle type handle serviceID).2)
  | .removeTypeHandle type serviceID => (none, m.removeTypeHandle type serviceID)
  | .removeAll => (none, m.removeAll)

def run : List (TableOperation Hd) → RpcTypeHandleManager Hd →
    List (Option Bool) × RpcTypeHandleManager Hd
  | [], m => ([], m)
  | op :: ops, m => ((m.perform op).1 :: (run ops (m.perform op).2).1, (run ops (m.perform op).2).2)

/-- `handleRpcMsg`, with the call of the handler; `call` says what a handler does. -/
def callHandler {S E Ctx : Type} (m : RpcTypeHandleManager Hd)
    (call : Hd → RpcMeta → StringView → Ctx → Prog S E Empty Empty (Except Exn Unit))
    (rpcMeta : RpcMeta) (data : StringView) (context : Ctx) : Prog S E Empty Empty (Except Exn Unit) :=
  match m.handleRpcMsg rpcMeta with
  | .error e => .ret (.error e)
  | .ok handle => call handle rpcMeta data context

/-- No type has an empty map. -/
def Pruned (m : RpcTypeHandleManager Hd) : Prop :=
  ∀ type serviceMap, m.mTypeHandlers.lookup type = some serviceMap → serviceMap ≠ ∅

end RpcTypeHandleManager

/-- One map from types and service ids to handlers. -/
abbrev FlatTable (Hd : Type) : Type := Finmap fun _ : MetaType × UInt32 => Hd

namespace FlatTable

/-- A key that is free can be taken; nothing else is ever touched. -/
def perform (t : FlatTable Hd) : TableOperation Hd → Option Bool × FlatTable Hd
  | .registerTypeHandle type handle serviceID =>
    if (type, serviceID) ∈ t then (some false, t)
    else (some true, t.insert (type, serviceID) handle)
  | .removeTypeHandle type serviceID => (none, t.erase (type, serviceID))
  | .removeAll => (none, ∅)

def run : List (TableOperation Hd) → FlatTable Hd → List (Option Bool) × FlatTable Hd
  | [], t => ([], t)
  | op :: ops, t => ((perform t op).1 :: (run ops (perform t op).2).1, (run ops (perform t op).2).2)

end FlatTable

open RpcTypeHandleManager

/-- The table stands for the map. -/
structure Represents (m : RpcTypeHandleManager Hd) (t : FlatTable Hd) : Prop where
  find : ∀ type id, m.find type id = t.lookup (type, id)
  pruned : m.Pruned

theorem mem_serviceMap_iff {m : RpcTypeHandleManager Hd} {type : MetaType} {id : UInt32} :
    id ∈ m.serviceMap type ↔ (m.find type id).isSome :=
  Finmap.lookup_isSome.symm

/-- A type that has a map, which is not empty, has a service. -/
theorem RpcTypeHandleManager.Pruned.exists_find {m : RpcTypeHandleManager Hd} (hm : m.Pruned)
    {type : MetaType} {serviceMap : ServiceHandlerMap Hd}
    (h : m.mTypeHandlers.lookup type = some serviceMap) : ∃ id, (m.find type id).isSome := by
  by_contra hnone
  rw [not_exists] at hnone
  apply hm type serviceMap h
  apply Finmap.ext_lookup
  intro id
  have hid := hnone id
  simp only [RpcTypeHandleManager.find, RpcTypeHandleManager.serviceMap, h, Option.getD_some,
    Bool.not_eq_true, Option.isSome_eq_false_iff, Option.isNone_iff_eq_none] at hid
  rw [hid, Finmap.lookup_empty]

/-- A registration that fails leaves the table as it was. -/
theorem registerTypeHandle_of_mem {m : RpcTypeHandleManager Hd} {type : MetaType} {id : UInt32}
    (h : (m.find type id).isSome) (handle : Hd) : m.registerTypeHandle type handle id = (false, m) := by
  have hmem : id ∈ m.serviceMap type := mem_serviceMap_iff.mpr h
  unfold registerTypeHandle
  rw [if_pos hmem]
  -- the type has a map, so `operator[]` makes none
  have hsame : m.mTypeHandlers.insert type (m.serviceMap type) = m.mTypeHandlers := by
    apply Finmap.ext_lookup
    intro type'
    rw [Finmap.lookup_insert_eq_ite]
    split
    · next ht =>
        subst ht
        cases hm : m.mTypeHandlers.lookup type' with
        | none =>
            rw [RpcTypeHandleManager.serviceMap, hm] at hmem
            exact absurd hmem Finmap.notMem_empty
        | some serviceMap => simp [RpcTypeHandleManager.serviceMap, hm]
    · rfl
  rw [hsame]

theorem registerTypeHandle_of_notMem {m : RpcTypeHandleManager Hd} {type : MetaType} {id : UInt32}
    (h : m.find type id = none) (handle : Hd) : (m.registerTypeHandle type handle id).1 = true := by
  have hmem : id ∉ m.serviceMap type := Finmap.lookup_eq_none.mp h
  unfold registerTypeHandle
  rw [if_neg hmem]

namespace RpcTypeHandleManager.Pruned

variable {m : RpcTypeHandleManager Hd}

theorem registerTypeHandle (hm : m.Pruned) (type : MetaType) (handle : Hd) (id : UInt32) :
    (m.registerTypeHandle type handle id).2.Pruned := by
  cases hfind : m.find type id with
  | some h =>
      rw [registerTypeHandle_of_mem (by simp [hfind])]
      exact hm
  | none =>
      have hmem : id ∉ m.serviceMap type := Finmap.lookup_eq_none.mp hfind
      unfold RpcTypeHandleManager.registerTypeHandle
      rw [if_neg hmem]
      intro type' serviceMap hlookup
      rcases Finmap.of_lookup_insert hlookup with ⟨-, rfl⟩ | ⟨-, hold⟩
      · intro hempty
        have hid : id ∈ (m.serviceMap type).insert id handle := Finmap.mem_insert.mpr (.inl rfl)
        rw [hempty] at hid
        exact Finmap.notMem_empty hid
      · exact hm type' serviceMap hold

theorem removeTypeHandle (hm : m.Pruned) (type : MetaType) (id : UInt32) :
    (m.removeTypeHandle type id).Pruned := by
  unfold RpcTypeHandleManager.removeTypeHandle
  cases hlookup : m.mTypeHandlers.lookup type with
  | none => exact hm
  | some serviceMap =>
      dsimp only
      split
      · intro type' inner hinner
        exact hm type' inner (Finmap.of_lookup_erase hinner).2
      · next hkeys =>
          intro type' inner hinner
          rcases Finmap.of_lookup_insert hinner with ⟨-, rfl⟩ | ⟨-, hold⟩
          · intro hempty
            rw [hempty] at hkeys
            exact hkeys Finmap.keys_empty
          · exact hm type' inner hold

theorem removeAll : m.removeAll.Pruned := by
  intro type serviceMap h
  cases h

end RpcTypeHandleManager.Pruned

namespace Represents

variable {m : RpcTypeHandleManager Hd} {t : FlatTable Hd}

theorem empty : Represents ({} : RpcTypeHandleManager Hd) ∅ :=
  ⟨fun _ _ => rfl, fun _ _ h => by cases h⟩

/-- One operation returns the same on both, and leaves a table that stands for the map it leaves. -/
theorem perform (h : Represents m t) (op : TableOperation Hd) :
    (m.perform op).1 = (FlatTable.perform t op).1 ∧
      Represents (m.perform op).2 (FlatTable.perform t op).2 := by
  cases op with
  | registerTypeHandle type handle id =>
      by_cases hmem : (type, id) ∈ t
      · have hfind : (m.find type id).isSome := by
          rw [h.find]
          exact Finmap.lookup_isSome.mpr hmem
        -- the id is taken: nothing changes on either side
        have hsame : m.perform (.registerTypeHandle type handle id) = (some false, m) := by
          simp only [RpcTypeHandleManager.perform, registerTypeHandle_of_mem hfind]
        rw [hsame, FlatTable.perform, if_pos hmem]
        exact ⟨rfl, h⟩
      · have hfind : m.find type id = none := by
          rw [h.find]
          exact Finmap.lookup_eq_none.mpr hmem
        rw [FlatTable.perform, if_neg hmem]
        refine ⟨congrArg some (registerTypeHandle_of_notMem hfind handle), ⟨?_, ?_⟩⟩
        · intro type' id'
          have hinsert := find_registerTypeHandle m type type' id id' handle
          rw [hfind, Option.getD_none] at hinsert
          rw [Finmap.lookup_insert_eq_ite]
          refine hinsert.trans ?_
          simp only [Prod.mk.injEq, h.find]
        · exact h.pruned.registerTypeHandle type handle id
  | removeTypeHandle type id =>
      refine ⟨rfl, fun type' id' => ?_, h.pruned.removeTypeHandle type id⟩
      -- the inner map that gets empty is erased, which no lookup can tell
      refine (find_removeTypeHandle m type type' id id').trans ?_
      show _ = (t.erase (type, id)).lookup (type', id')
      rw [Finmap.lookup_erase_eq_ite]
      simp only [Prod.mk.injEq, h.find]
  | removeAll => exact ⟨rfl, fun _ _ => rfl, .removeAll (m := m)⟩

/-- The same after any number of operations. -/
theorem run (h : Represents m t) (ops : List (TableOperation Hd)) :
    (RpcTypeHandleManager.run ops m).1 = (FlatTable.run ops t).1 ∧
      Represents (RpcTypeHandleManager.run ops m).2 (FlatTable.run ops t).2 := by
  induction ops generalizing m t with
  | nil => exact ⟨rfl, h⟩
  | cons op ops ih =>
      obtain ⟨hresult, hop⟩ := h.perform op
      obtain ⟨hresults, hops⟩ := ih hop
      exact ⟨congrArg₂ List.cons hresult hresults, hops⟩

section call

variable {S E Ctx : Type} (call : Hd → RpcMeta → StringView → Ctx → Prog S E Empty Empty (Except Exn Unit))
  {rpcMeta : RpcMeta} (data : StringView) (context : Ctx)

theorem callHandler_of_mapped (h : Represents m t) {handle : Hd}
    (hmapped : t.lookup (rpcMeta.type, rpcMeta.serviceId) = some handle) :
    m.callHandler call rpcMeta data context = call handle rpcMeta data context := by
  have hfound := (handleRpcMsg_eq_ok_iff m handle rpcMeta).mpr ((h.find _ _).trans hmapped)
  rw [RpcTypeHandleManager.callHandler, hfound]

theorem callHandler_of_type_missing (h : Represents m t) (hmissing : ∀ id, (rpcMeta.type, id) ∉ t) :
    m.callHandler call rpcMeta data context =
      .ret (.error (.runtimeError ("not found type handle of type:" ++ rpcMeta.type.toText))) := by
  have hnone : m.mTypeHandlers.lookup rpcMeta.type = none := by
    rw [Option.eq_none_iff_forall_ne_some]
    intro serviceMap hsome
    -- a map without a service would not be there
    obtain ⟨id, hid⟩ := h.pruned.exists_find hsome
    rw [h.find] at hid
    exact hmissing id (Finmap.lookup_isSome.mp hid)
  simp only [RpcTypeHandleManager.callHandler, handleRpcMsg, hnone]

theorem callHandler_of_service_missing (h : Represents m t) {id : UInt32} (hid : (rpcMeta.type, id) ∈ t)
    (hmissing : (rpcMeta.type, rpcMeta.serviceId) ∉ t) :
    m.callHandler call rpcMeta data context =
      .ret (.error (.runtimeError
        ("not found service handle of id:" ++ toString rpcMeta.serviceId))) := by
  have hfind := h.find rpcMeta.type rpcMeta.serviceId
  rw [Finmap.lookup_eq_none.mpr hmissing] at hfind
  cases htype : m.mTypeHandlers.lookup rpcMeta.type with
  | none =>
      have hsome := Finmap.lookup_isSome.mpr hid
      rw [← h.find, RpcTypeHandleManager.find, RpcTypeHandleManager.serviceMap, htype] at hsome
      cases hsome
  | some serviceMap =>
      have hservice : serviceMap.lookup rpcMeta.serviceId = none := by
        simpa [RpcTypeHandleManager.find, RpcTypeHandleManager.serviceMap, htype] using hfind
      simp only [RpcTypeHandleManager.callHandler, handleRpcMsg, htype, hservice]

end call

end Represents

/-- Nobody can tell the table from the map: not by looking for a handler, not by a registration that fails,
and not by what becomes of a message. -/
structure Refines (m : RpcTypeHandleManager Hd) (t : FlatTable Hd) : Prop where
  find : ∀ type id, m.find type id = t.lookup (type, id)
  pruned : m.Pruned
  kept : ∀ type id handle, (type, id) ∈ t → m.registerTypeHandle type handle id = (false, m)
  mapped : ∀ {S E Ctx : Type}
    (call : Hd → RpcMeta → StringView → Ctx → Prog S E Empty Empty (Except Exn Unit))
    (rpcMeta : RpcMeta) data context handle, t.lookup (rpcMeta.type, rpcMeta.serviceId) = some handle →
      m.callHandler call rpcMeta data context = call handle rpcMeta data context
  typeMissing : ∀ {S E Ctx : Type}
    (call : Hd → RpcMeta → StringView → Ctx → Prog S E Empty Empty (Except Exn Unit))
    (rpcMeta : RpcMeta) data context, (∀ id, (rpcMeta.type, id) ∉ t) →
      m.callHandler call rpcMeta data context =
        .ret (.error (.runtimeError ("not found type handle of type:" ++ rpcMeta.type.toText)))
  serviceMissing : ∀ {S E Ctx : Type}
    (call : Hd → RpcMeta → StringView → Ctx → Prog S E Empty Empty (Except Exn Unit))
    (rpcMeta : RpcMeta) data context, (∃ id, (rpcMeta.type, id) ∈ t) →
      (rpcMeta.type, rpcMeta.serviceId) ∉ t →
      m.callHandler call rpcMeta data context =
        .ret (.error (.runtimeError
          ("not found service handle of id:" ++ toString rpcMeta.serviceId)))

/-- Whatever is done to the table returns what it would return on the one map, and leaves a table that
nobody can tell from it. -/
theorem table_refines_flat_map (ops : List (TableOperation Hd)) :
    (RpcTypeHandleManager.run ops {}).1 = (FlatTable.run ops ∅).1 ∧
      Refines (RpcTypeHandleManager.run ops {}).2 (FlatTable.run ops ∅).2 := by
  obtain ⟨hresults, hrep⟩ := Represents.empty.run ops
  refine ⟨hresults, ⟨hrep.find, hrep.pruned, fun type id handle hmem => ?_, ?_, ?_, ?_⟩⟩
  · apply registerTypeHandle_of_mem
    rw [hrep.find]
    exact Finmap.lookup_isSome.mpr hmem
  · intro S E Ctx call rpcMeta data context handle hmapped
    exact hrep.callHandler_of_mapped call data context hmapped
  · intro S E Ctx call rpcMeta data context hmissing
    exact hrep.callHandler_of_type_missing call data context hmissing
  · rintro S E Ctx call rpcMeta data context ⟨id, hid⟩ hmissing
    exact hrep.callHandler_of_service_missing call data context hid hmissing

end GayRpc
