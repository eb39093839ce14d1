import GayRpc.Core.Error
import GayRpc.Core.Meta
import GayRpc.Lib.Finmap

/-!
# `RpcTypeHandleManager`

`GayRpcTypeHandler.h`: the table that leads from the type and the service id of a message to the
handler that was registered for them. A handler is known by a name of type `Hd`, and `handleRpcMsg`
says which one is to be called, or throws that there is none for the type or for the service id.

A registration under a key that is taken fails, and the first one stays (`find_registerTypeHandle`). A
removal does not ask who has registered (`find_removeTypeHandle`). The callers of both do not all look at
what is returned; where that matters is seen in the models of the client and of the service.
-/

namespace GayRpc

abbrev ServiceHandlerMap (Hd : Type) : Type := Finmap fun _ : UInt32 => Hd

structure RpcTypeHandleManager (Hd : Type) where
  mTypeHandlers : Finmap fun _ : MetaType => ServiceHandlerMap Hd := ∅

namespace RpcTypeHandleManager

variable {Hd : Type}

/-- `mTypeHandlers[type]`, where a type that has no map yet stands for an empty one. -/
def serviceMap (type : MetaType) (m : RpcTypeHandleManager Hd) : ServiceHandlerMap Hd :=
  (m.mTypeHandlers.lookup type).getD ∅

/-- `registerTypeHandle`: whether the handler was entered, and the table. -/
def registerTypeHandle (type : MetaType) (handle : Hd) (serviceID : UInt32)
    (m : RpcTypeHandleManager Hd) : Bool × RpcTypeHandleManager Hd :=
  if serviceID ∈ m.serviceMap type then
    -- `operator[]` has entered the map, if it was not there
    (false, { mTypeHandlers := m.mTypeHandlers.insert type (m.serviceMap type) })
  else
    (true,
      { mTypeHandlers := m.mTypeHandlers.insert type ((m.serviceMap type).insert serviceID handle) })

def removeTypeHandle (type : MetaType) (serviceID : UInt32) (m : RpcTypeHandleManager Hd) :
    RpcTypeHandleManager Hd :=
  match m.mTypeHandlers.lookup type with
  | none => m
  | some serviceMap =>
    if (serviceMap.erase serviceID).keys = ∅ then { mTypeHandlers := m.mTypeHandlers.erase type }
    else { mTypeHandlers := m.mTypeHandlers.insert type (serviceMap.erase serviceID) }

def removeAll (_m : RpcTypeHandleManager Hd) : RpcTypeHandleManager Hd := { mTypeHandlers := ∅ }

/-- `handleRpcMsg`, up to the call of the handler. -/
def handleRpcMsg (rpcMeta : RpcMeta) (m : RpcTypeHandleManager Hd) : Except Exn Hd :=
  match m.mTypeHandlers.lookup rpcMeta.type with
  | none => .error (.runtimeError ("not found type handle of type:" ++ rpcMeta.type.toText))
  | some serviceMap =>
    match serviceMap.lookup rpcMeta.serviceId with
    | none =>
      .error (.runtimeError ("not found service handle of id:" ++ toString rpcMeta.serviceId))
    | some handle => .ok handle

/-- The handler that is registered for a type and a service id. -/
def find (type : MetaType) (serviceID : UInt32) (m : RpcTypeHandleManager Hd) : Option Hd :=
  (m.serviceMap type).lookup serviceID

variable (m : RpcTypeHandleManager Hd) (type type' : MetaType) (id id' : UInt32) (handle : Hd)

@[simp] theorem find_empty : ({} : RpcTypeHandleManager Hd).find type id = none := rfl

theorem serviceMap_mk_insert (serviceMap : ServiceHandlerMap Hd) :
    (RpcTypeHandleManager.mk (m.mTypeHandlers.insert type serviceMap)).serviceMap type' =
      if type' = type then serviceMap else m.serviceMap type' := by
  unfold RpcTypeHandleManager.serviceMap
  split
  · next ht => rw [ht, Finmap.lookup_insert, Option.getD_some]
  · next ht => rw [Finmap.lookup_insert_of_ne _ ht]

/-- The first registration wins. -/
theorem find_registerTypeHandle :
    (m.registerTypeHandle type handle id).2.find type' id' =
      if type' = type ∧ id' = id then some ((m.find type id).getD handle)
      else m.find type' id' := by
  unfold registerTypeHandle find
  -- an id that is there keeps its handle, as with `emplace`
  by_cases hmem : id ∈ m.serviceMap type
  · obtain ⟨h, hh⟩ := Finmap.mem_iff.mp hmem
    rw [if_pos hmem, serviceMap_mk_insert, hh]
    by_cases ht : type' = type
    · subst ht
      by_cases hid : id' = id
      · subst hid
        simp [hh]
      · simp [hid]
    · simp [ht]
  · rw [if_neg hmem, serviceMap_mk_insert, Finmap.lookup_eq_none.mpr hmem]
    by_cases ht : type' = type
    · subst ht
      by_cases hid : id' = id
      · subst hid
        simp
      · simp [hid, Finmap.lookup_insert_of_ne]
    · simp [ht]

/-- Removing does not ask who registered. -/
theorem serviceMap_removeTypeHandle :
    ((m.removeTypeHandle type id).serviceMap type').lookup id' =
      ((if type' = type then (m.serviceMap type).erase id else m.serviceMap type').lookup id') := by
  unfold removeTypeHandle
  cases hm : m.mTypeHandlers.lookup type with
  | none =>
      show (m.serviceMap type').lookup id' = _
      by_cases ht : type' = type
      · subst ht
        have hempty : m.serviceMap type' = ∅ := by simp [serviceMap, hm]
        rw [if_pos rfl, hempty, Finmap.erase_of_lookup_eq_none (Finmap.lookup_empty id)]
      · rw [if_neg ht]
  | some inner =>
      have hinner : m.serviceMap type = inner := by simp [serviceMap, hm]
      rw [hinner]
      dsimp only
      split
      · next hempty =>
          split
          · next ht =>
              subst ht
              -- the inner map had no other id, so it is pruned and nothing else is lost
              have hnone : id' ∉ inner.erase id := by
                intro hmem
                have hkey := Finmap.mem_keys.mpr hmem
                rw [hempty] at hkey
                exact absurd hkey (Finset.notMem_empty id')
              rw [Finmap.lookup_eq_none.mpr hnone]
              simp [serviceMap]
          · next ht => simp [serviceMap, Finmap.lookup_erase_ne ht]
      · rw [serviceMap_mk_insert]

theorem find_removeTypeHandle :
    (m.removeTypeHandle type id).find type' id' =
      if type' = type ∧ id' = id then none else m.find type' id' := by
  unfold find
  rw [serviceMap_removeTypeHandle]
  by_cases ht : type' = type
  · subst ht
    by_cases hid : id' = id
    · subst hid
      simp
    · simp [hid, Finmap.lookup_erase_ne]
  · simp [ht]

theorem handleRpcMsg_eq_ok_iff (rpcMeta : RpcMeta) :
    m.handleRpcMsg rpcMeta = .ok handle ↔ m.find rpcMeta.type rpcMeta.serviceId = some handle := by
  unfold handleRpcMsg find serviceMap
  cases m.mTypeHandlers.lookup rpcMeta.type with
  | none => simp
  | some serviceMap =>
      rw [Option.getD_some]
      dsimp only
      cases serviceMap.lookup rpcMeta.serviceId with
      | none => simp
      | some h => simp

end RpcTypeHandleManager

end GayRpc
