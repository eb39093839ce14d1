import GayRpc.Client.Owner
import GayRpc.Connection.Basic

/-!
# Where a connection sends responses

When no two clients have one service id, the dispatch table leads from the id of every client that is
installed to that client, at any time of any run (`Routed`); and a response to a request runs
callbacks of that request only.

The table changes in `create` and in `uninstall`. The first registers under an id that nobody else ever
has, so it is not turned down, and the second removes what the client itself has registered. All other
programs leave the table alone, and each client `Consistent`; which handler they call is up to the table,
and a response whose id leads home is handled at home (`keeps_respond`).
-/

namespace GayRpc

variable {queue : PriorityQueue WaitResponseTimer WaitResponseTimer.le} {ι D H T Msg Ctx U : Type}

/-- A response to a request of a client gets to that client, and runs callbacks of that request. -/
def ConnectionEvent.GoesHome : ConnectionEvent ι Msg → Prop
  | .handled (.response i _) j => j = i
  | .client (.response i q) j e => j = i ∧ e.BelongsTo q
  | _ => True

variable [DecidableEq ι] {ids : ι → UInt32} {code : ConnectionCode ι D H T Msg Ctx U}

namespace Connection

/-- The dispatch table fits the clients there are. -/
structure Routed (ids : ι → UInt32) (s : Connection queue ι D H T U) : Prop where
  find_iff : ∀ {id i}, s.manager.find .response id = some i ↔ s.Installed i ∧ ids i = id
  mem_clients : ∀ {i}, i ∈ s.uninstalled → i ∈ s.clients
  consistent : ∀ {i c}, s.clients.lookup i = some c → c.Consistent

namespace Routed

variable {s : Connection queue ι D H T U} {i : ι}

theorem fresh (clock : Int64) (user : U) :
    (Connection.fresh clock user : Connection queue ι D H T U).Routed ids where
  find_iff := by simp [Connection.fresh, Installed, Finmap.notMem_empty]
  mem_clients h := absurd h (Set.notMem_empty _)
  consistent h := by simp [Connection.fresh] at h

theorem consistent_host (h : s.Routed ids) {host : Host queue D H T (EventLoop ι U)}
    (hhost : s.host? i = some host) : host.Consistent := by
  obtain ⟨c, hc, rfl⟩ := Option.map_eq_some_iff.mp hhost
  exact h.consistent hc

/-- A client of the connection takes a step. -/
theorem setHost (h : s.Routed ids) {host host' : Host queue D H T (EventLoop ι U)}
    (hhost : s.host? i = some host) (hhost' : host'.Consistent) : (s.setHost i host').Routed ids := by
  obtain ⟨c, hc, -⟩ := Option.map_eq_some_iff.mp hhost
  -- only a client that exists is set, so the table needs no entry for it
  have hi : i ∈ s.clients := Finmap.mem_of_lookup_eq_some hc
  have hmem : ∀ {j}, j ∈ (s.setHost i host').clients ↔ j ∈ s.clients := by
    intro j
    show j ∈ s.clients.insert i host'.client ↔ j ∈ s.clients
    rw [Finmap.mem_insert]
    constructor
    · rintro (rfl | hj)
      · exact hi
      · exact hj
    · exact .inr
  refine ⟨?_, fun hj => hmem.mpr (h.mem_clients hj), fun hlook => ?_⟩
  · intro id j
    show s.manager.find .response id = some j ↔ (j ∈ (s.setHost i host').clients ∧ _) ∧ _
    rw [hmem]
    exact h.find_iff
  · obtain ⟨-, rfl⟩ | ⟨-, hlook⟩ := Finmap.of_lookup_insert hlook
    · exact hhost'
    · exact h.consistent hlook

/-- The first client with an id is the only one, so its registration is not turned down. -/
theorem create (hids : Function.Injective ids) (h : s.Routed ids) (hi : i ∉ s.clients) :
    { s with
      clients := s.clients.insert i {}
      manager := (s.manager.registerTypeHandle .response i (ids i)).2 }.Routed ids := by
  -- the id of a new client is free in the table
  have hnone : s.manager.find .response (ids i) = none := by
    rw [Option.eq_none_iff_forall_not_mem]
    intro j hj
    obtain ⟨hinst, hid⟩ := h.find_iff.mp hj
    exact hi (hids hid ▸ hinst.1)
  have hun : i ∉ s.uninstalled := fun hmem => hi (h.mem_clients hmem)
  refine ⟨?_, fun hj => Finmap.mem_insert.mpr (.inr (h.mem_clients hj)), fun hlook => ?_⟩
  · intro id j
    rw [RpcTypeHandleManager.find_registerTypeHandle, hnone, Option.getD_none]
    show _ ↔ (j ∈ s.clients.insert i {} ∧ j ∉ s.uninstalled) ∧ ids j = id
    rw [Finmap.mem_insert]
    -- the table gets one entry; every other id is looked up as before
    by_cases hid : id = ids i
    · subst hid
      rw [if_pos ⟨rfl, rfl⟩, Option.some_inj]
      constructor
      · rintro rfl
        exact ⟨⟨.inl rfl, hun⟩, rfl⟩
      · rintro ⟨-, hj⟩
        exact (hids hj).symm
    · rw [if_neg fun hc => hid hc.2, h.find_iff]
      constructor
      · rintro ⟨hinst, hj⟩
        exact ⟨⟨.inr hinst.1, hinst.2⟩, hj⟩
      · rintro ⟨⟨rfl | hmem, hj⟩, rfl⟩
        · exact absurd rfl hid
        · exact ⟨⟨hmem, hj⟩, rfl⟩
  · obtain ⟨-, rfl⟩ | ⟨-, hlook⟩ := Finmap.of_lookup_insert hlook
    · exact .fresh
    · exact h.consistent hlook

/-- What `uninstall` removes is the handler of the client it is called on. -/
theorem uninstall (hids : Function.Injective ids) (h : s.Routed ids) (hi : i ∈ s.clients) :
    { s with
      manager := s.manager.removeTypeHandle .response (ids i)
      uninstalled := insert i s.uninstalled }.Routed ids := by
  refine ⟨?_, ?_, h.consistent⟩
  · intro id j
    rw [RpcTypeHandleManager.find_removeTypeHandle]
    show _ ↔ (j ∈ s.clients ∧ j ∉ insert i s.uninstalled) ∧ ids j = id
    rw [Set.mem_insert_iff, not_or]
    -- the ids are distinct, so the entry removed is the one of this client
    by_cases hid : id = ids i
    · rw [if_pos ⟨rfl, hid⟩]
      constructor
      · intro hnone
        cases hnone
      · rintro ⟨⟨-, hji, -⟩, hj⟩
        exact absurd (hids (hj.trans hid)) hji
    · rw [if_neg fun hc => hid hc.2, h.find_iff]
      constructor
      · rintro ⟨hinst, rfl⟩
        exact ⟨⟨hinst.1, fun hji => hid (hji ▸ rfl), hinst.2⟩, rfl⟩
      · rintro ⟨⟨hmem, -, hj⟩, hjid⟩
        exact ⟨⟨hmem, hj⟩, hjid⟩
  · rintro j (rfl | hj)
    · exact hi
    · exact h.mem_clients hj

/-- What an operation leaves alone does not matter. -/
theorem congr {s' : Connection queue ι D H T U} (h : s.Routed ids) (hm : s'.manager = s.manager)
    (hc : s'.clients = s.clients) (hu : s'.uninstalled = s.uninstalled) : s'.Routed ids := by
  refine ⟨?_, fun hj => ?_, fun hlook => ?_⟩
  · intro id i
    rw [Installed, hm, hc, hu]
    exact h.find_iff
  · rw [hu] at hj
    rw [hc]
    exact h.mem_clients hj
  · rw [hc] at hlook
    exact h.consistent hlook

end Routed

end Connection

open Prog Connection

/-- A program of a client keeps the table, and the clients consistent. -/
theorem keeps_client {cause : Cause ι} {i : ι} {G : ConnectionEvent ι Msg → Prop}
    {G' : ClientEvent Msg → Prop} {p : ClientProg queue D H T Msg (EventLoop ι U)}
    (hp : p.Keeps Host.Consistent G') (hG : ∀ e, G' e → G (.client cause i e)) :
    (onClient cause i p).Keeps (Routed ids) G := by
  refine Guarantees.within hp (fun s t hs ht => ?_) (fun s t t' hs ht ht' => ?_) hG
  · exact hs.consistent_host ht
  · exact hs.setHost ht ht'

/-- The handling of a response or a timer, by whichever client the table leads to. -/
theorem keeps_handleRpcMsg {cause : Cause ι} {rpcMeta : RpcMeta} {data : StringView}
    {context : Ctx}
    (hhome : ∀ s : Connection queue ι D H T U, s.Routed ids → ∀ j,
      s.manager.handleRpcMsg rpcMeta = .ok j →
        (ConnectionEvent.handled cause j : ConnectionEvent ι Msg).GoesHome ∧
        ∀ e : ClientEvent Msg, e.BelongsTo rpcMeta.responseInfo.sequenceId →
          (ConnectionEvent.client cause j e).GoesHome) :
    (Connection.handleRpcMsg code cause rpcMeta data context :
      ConnectionProg queue ι D H T Msg U).Keeps (Routed ids) ConnectionEvent.GoesHome := by
  intro s hs s' hs'
  obtain rfl := Option.some.inj hs'
  refine ⟨hs, ?_⟩
  show (callHandler code cause rpcMeta data context _).Keeps _ _
  cases hj : s.manager.handleRpcMsg rpcMeta with
  | error e => trivial
  | ok j =>
      obtain ⟨hhandled, hclient⟩ := hhome s hs j hj
      exact ⟨hhandled, keeps_client (keeps_processRpcResponse rfl _ _) hclient⟩

/-- With the ids apart, the response to a request of client `i` is handled by client `i`. -/
theorem keeps_respond (hids : Function.Injective ids) {i : ι} {rpcMeta : RpcMeta}
    (htype : rpcMeta.type = .response) (hid : rpcMeta.serviceId = ids i) (data : StringView)
    (context : Ctx) :
    (respond code i rpcMeta data context : ConnectionProg queue ι D H T Msg U).Keeps
      (Routed ids) ConnectionEvent.GoesHome := by
  have h : (Connection.handleRpcMsg code (.response i rpcMeta.responseInfo.sequenceId) rpcMeta data
      context : ConnectionProg queue ι D H T Msg U).Keeps (Routed ids)
        ConnectionEvent.GoesHome := by
    apply keeps_handleRpcMsg
    intro s hs j hj
    rw [RpcTypeHandleManager.handleRpcMsg_eq_ok_iff, htype, hid] at hj
    obtain rfl := hids (hs.find_iff.mp hj).2
    exact ⟨rfl, fun e he => ⟨rfl, he⟩⟩
  intro s hs s' hs'
  obtain ⟨-, hs'⟩ := Option.ite_none_right_eq_some.mp hs'
  exact h s hs s' hs'

theorem keeps_expire (timer : EventLoopTimer ι) :
    (expire code timer : ConnectionProg queue ι D H T Msg U).Keeps (Routed ids)
      ConnectionEvent.GoesHome := by
  intro s hs s' hs'
  obtain ⟨-, hs'⟩ := Option.ite_none_right_eq_some.mp hs'
  obtain rfl := Option.some.inj hs'
  refine ⟨hs.congr rfl rfl rfl, Guarantees.bind ?_ fun _ => trivial⟩
  apply keeps_handleRpcMsg
  intro s hs j hj
  exact ⟨trivial, fun _ _ => trivial⟩

theorem connectionWorld_preserves (hids : Function.Injective ids) :
    (connectionWorld ids code : World (Connection queue ι D H T U) _ _ _).Preserves (Routed ids)
      ConnectionEvent.GoesHome where
  env s s' he hs := by
    obtain ⟨hmanager, hclients, huninstalled, -, -⟩ := he
    exact hs.congr hmanager hclients huninstalled
  spawn p hp := by
    cases hp with
    | create i =>
        intro s hs s' hs'
        obtain ⟨hi, hs'⟩ := Option.ite_none_left_eq_some.mp hs'
        obtain rfl := Option.some.inj hs'
        exact ⟨hs.create hids hi, trivial⟩
    | uninstall i =>
        intro s hs s' hs'
        obtain ⟨hi, hs'⟩ := Option.ite_none_right_eq_some.mp hs'
        obtain rfl := Option.some.inj hs'
        exact ⟨hs.uninstall hids hi, trivial⟩
    | request i r =>
        have hcall : (call (code.client i) { r with serviceID := ids i } :
            ClientProg queue D H T Msg (EventLoop ι U)).Keeps Host.Consistent fun _ => True :=
          (callSections_consistent fun _ _ => trivial).call _
        exact keeps_client hcall fun _ _ => trivial
    | respond i rpcMeta data context htype hid => exact keeps_respond hids htype hid data context
    | expire timer => exact keeps_expire timer

/-- At any time of any run the table fits the clients, and every response has gone home. -/
theorem Connection.run_routed (hids : Function.Injective ids) {clock : Int64} {user : U}
    {es : List (ConnectionEvent ι Msg)} {s : Connection queue ι D H T U}
    {ts : List (ConnectionProg queue ι D H T Msg U)}
    (h : Pool.Run (connectionWorld ids code) ⟨.fresh clock user, []⟩ es ⟨s, ts⟩) :
    s.Routed ids ∧ ∀ e ∈ es, e.GoesHome := by
  obtain ⟨hb, hes⟩ := h.guaranteed (connectionWorld_preserves hids) ⟨.fresh clock user, by simp⟩
  exact ⟨hb.state, hes⟩

end GayRpc
