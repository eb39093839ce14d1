import GayRpc.Core.FlatMap
import GayRpc.Http.Responses
import GayRpc.Utils.Wrapper

/-!
# Where an HTTP request goes

The table of a connection is looked up by type and service id, and only the service that is found there
looks for the method. An HTTP request names its method in full, but no service: the id stays 0.

So of the services that were installed on the connection only the one under the id 0 can be reached, and
whether a method can be reached by its name has nothing to do with the name being known to some service
(`reaches_iff`). What `OnHTTPConnectionEnter` leaves in the table is computed first: every service that
was installed is found under its id, and nothing else is found (`find_connectionEnter`).
-/

namespace GayRpc

/-- A service as the generator makes it, with its `GetServiceTypeName` and the id of its requests. -/
structure GeneratedService (D Msg Ctx U : Type) where
  serviceTypeName : String
  serviceId : UInt32
  code : ServiceCode D Msg Ctx U

variable {D Msg Ctx U σ : Type}

/-- `Install`. The handler of a service in the table is its `requestStub`. -/
def GeneratedService.install (service : GeneratedService D Msg Ctx U)
    (m : RpcTypeHandleManager (GeneratedService D Msg Ctx U)) :
    Except Exn (RpcTypeHandleManager (GeneratedService D Msg Ctx U)) :=
  match m.registerTypeHandle .request service service.serviceId with
  | (true, m) => .ok m
  | (false, _) =>
    .error (.runtimeError ("register service:" ++ service.serviceTypeName ++ " type handler failed"))

/-- The callback that `OnHTTPConnectionEnter` sets. -/
def httpCallback (m : RpcTypeHandleManager (GeneratedService D Msg Ctx U)) (path : String)
    (body : List UInt8) (context : Ctx) : ServerProg U Msg (Except Exn Unit) :=
  Http.handleHttpPacket (m.callHandler fun service => service.code.requestStub) path body context

/-- The request is passed to the service, the service finds the method, and the stub of the method gets
the body as JSON. -/
structure Reaches (m : RpcTypeHandleManager (GeneratedService D Msg Ctx U)) (path : String)
    (service : GeneratedService D Msg Ctx U) (method : ServiceMethod D Msg Ctx U) (rpcMeta : RpcMeta) :
    Prop where
  sent : Http.requestMeta path = .ok rpcMeta
  found : m.handleRpcMsg rpcMeta = .ok service
  handler : service.code.findHandler rpcMeta = .ok method
  json : rpcMeta.encoding = .json
  stub : ∀ body context, httpCallback m path body context =
    (service.code.methodStub method rpcMeta (Http.bodyView body) context).bind service.code.afterHandler

open RpcTypeHandleManager

/-- A service that could be installed, under an id that was free, is found there, and the others as
before. -/
theorem GeneratedService.find_install {service : GeneratedService D Msg Ctx U}
    {m m' : RpcTypeHandleManager (GeneratedService D Msg Ctx U)} (h : service.install m = .ok m')
    (id : UInt32) : m.find .request service.serviceId = none ∧
      m'.find .request id = if id = service.serviceId then some service else m.find .request id := by
  unfold GeneratedService.install at h
  cases hfind : m.find .request service.serviceId with
  | some other =>
      rw [registerTypeHandle_of_mem (by simp [hfind])] at h
      cases h
  | none =>
      have hregistered := registerTypeHandle_of_notMem hfind service
      have hinsert := find_registerTypeHandle m .request .request service.serviceId id service
      rw [hfind, Option.getD_none] at hinsert
      split at h
      · next m₁ heq =>
          -- the id was free, so the entry is the only change
          obtain rfl := Except.ok.inj h
          rw [heq] at hinsert
          exact ⟨rfl, by simpa using hinsert⟩
      · next m₁ heq =>
          rw [heq] at hregistered
          cases hregistered

/-- Every service that was installed is found under its id, and nothing else is found. -/
theorem find_connectionEnter {senders userIn userOut : List (UnaryServerInterceptor σ SessionEvent Msg Ctx)}
    {creators : List (ServiceCreator σ SessionEvent Msg Ctx (GeneratedService D Msg Ctx U))}
    {services : List (ServiceContext σ SessionEvent Msg Ctx × GeneratedService D Msg Ctx U)}
    {m m' : RpcTypeHandleManager (GeneratedService D Msg Ctx U)}
    (h : connectionEnter GeneratedService.install senders userIn creators userOut m = .ok (services, m'))
    (id : UInt32) (service : GeneratedService D Msg Ctx U) :
    m'.find .request id = some service ↔
      m.find .request id = some service ∨ (service ∈ services.map Prod.snd ∧ service.serviceId = id) := by
  induction creators generalizing userOut m services with
  | nil =>
      obtain ⟨rfl, rfl⟩ := Prod.mk.inj (Except.ok.inj h)
      simp
  | cons creator creators ih =>
      simp only [connectionEnter, bind, Except.bind] at h
      split at h
      · cases h
      · next first _ =>
        split at h
        · cases h
        · next m₁ hinstall =>
          split at h
          · cases h
          · next rest hrest =>
            obtain ⟨services', m''⟩ := rest
            obtain ⟨rfl, rfl⟩ := Prod.mk.inj (Except.ok.inj h)
            -- a service that could be installed had an id that no earlier one has
            obtain ⟨hfree, hfind⟩ := GeneratedService.find_install hinstall id
            rw [ih hrest, hfind, List.map_cons, List.mem_cons]
            by_cases hid : id = first.serviceId
            · subst hid
              rw [if_pos rfl, hfree]
              grind
            · rw [if_neg hid]
              grind

/-- Services whose ids differ can all be installed. -/
theorem connectionEnter_installs
    (senders userIn userOut : List (UnaryServerInterceptor σ SessionEvent Msg Ctx))
    (svcs : List (GeneratedService D Msg Ctx U)) (hids : (svcs.map (·.serviceId)).Nodup)
    {m : RpcTypeHandleManager (GeneratedService D Msg Ctx U)}
    (hfree : ∀ svc ∈ svcs, m.find .request svc.serviceId = none) :
    ∃ services m', connectionEnter GeneratedService.install senders userIn (svcs.map fun svc _ => .ok svc)
      userOut m = .ok (services, m') ∧ services.map Prod.snd = svcs := by
  induction svcs generalizing userOut m with
  | nil => exact ⟨[], m, rfl, rfl⟩
  | cons svc svcs ih =>
      obtain ⟨hsvc, hids⟩ := List.nodup_cons.mp hids
      obtain ⟨hhead, htail⟩ := List.forall_mem_cons.mp hfree
      have hinstall : svc.install m = .ok (m.registerTypeHandle .request svc svc.serviceId).2 := by
        have hregistered := registerTypeHandle_of_notMem hhead svc
        unfold GeneratedService.install
        split
        · next m₁ heq => rw [heq]
        · next m₁ heq =>
            rw [heq] at hregistered
            cases hregistered
      -- the ids that follow are other ones, so they are still free
      obtain ⟨services, m', hrest, hservices⟩ := ih (userOut ++ senders) hids fun svc' hsvc' => by
        have hne : svc'.serviceId ≠ svc.serviceId := by
          intro heq
          exact hsvc (List.mem_map.mpr ⟨svc', hsvc', heq⟩)
        rw [(GeneratedService.find_install hinstall _).2, if_neg hne]
        exact htail svc' hsvc'
      refine ⟨({ mInInterceptor := if userIn.isEmpty then makeInterceptor [] else makeInterceptor userIn
                 mOutInterceptor := makeInterceptor (userOut ++ senders) }, svc) :: services, m', ?_,
        congrArg (svc :: ·) hservices⟩
      simp only [connectionEnter, bind, Except.bind, List.map_cons, hinstall, hrest]

/-- Over HTTP a method that an installed service has in its table by name can be reached just when the id
of the service is 0; and, should the name be empty, the service must have the method under the number 0
as well. -/
theorem reaches_iff {creators : List (ServiceCreator σ SessionEvent Msg Ctx (GeneratedService D Msg Ctx U))}
    {userIn userOut : List (UnaryServerInterceptor σ SessionEvent Msg Ctx)}
    {services : List (ServiceContext σ SessionEvent Msg Ctx × GeneratedService D Msg Ctx U)}
    {m : RpcTypeHandleManager (GeneratedService D Msg Ctx U)}
    (h : onHTTPConnectionEnter GeneratedService.install creators userIn userOut {} = .ok (services, m))
    {service : GeneratedService D Msg Ctx U} (hservice : service ∈ services.map Prod.snd) {name : String}
    {method : ServiceMethod D Msg Ctx U}
    (hname : service.code.serviceHandlerMapByStr.lookup name = some method) :
    (∃ rpcMeta, Reaches m ("/" ++ name) service method rpcMeta) ↔
      service.serviceId = 0 ∧ (name = "" → service.code.serviceHandlerMapById.lookup 0 = some method) := by
  have hfind := find_connectionEnter h
  simp only [find_empty, reduceCtorEq, false_or] at hfind
  constructor
  · rintro ⟨rpcMeta, hreaches⟩
    obtain rfl := Except.ok.inj ((Http.requestMeta_slash name).symm.trans hreaches.sent)
    have hfound := (handleRpcMsg_eq_ok_iff m service _).mp hreaches.found
    -- the meta has no service id, and without a name the method id 0 is looked up
    refine ⟨((hfind 0 service).mp hfound).2, fun hempty => ?_⟩
    have hhandler := hreaches.handler
    subst hempty
    simp only [ServiceCode.findHandler, RpcMeta.requestInfo, Option.getD_some, ne_eq,
      not_true_eq_false, if_false] at hhandler
    split at hhandler
    · next found heq => rw [heq, Except.ok.inj hhandler]
    · cases hhandler
  · rintro ⟨hid, hempty⟩
    have hfound := (handleRpcMsg_eq_ok_iff m service (httpRequest name)).mpr
      ((hfind 0 service).mpr ⟨hservice, hid⟩)
    have hhandler : service.code.findHandler (httpRequest name) = .ok method := by
      by_cases hne : name = ""
      · subst hne
        simp [ServiceCode.findHandler, RpcMeta.requestInfo, httpRequest, hempty rfl]
      · simp [ServiceCode.findHandler, RpcMeta.requestInfo, httpRequest, hne, hname]
    refine ⟨httpRequest name, Http.requestMeta_slash name, hfound, hhandler, rfl, fun body context => ?_⟩
    -- what is left to show is that the packet goes this way
    unfold httpCallback Http.handleHttpPacket
    rw [Http.requestMeta_slash]
    show m.callHandler _ (httpRequest name) _ _ = _
    rw [RpcTypeHandleManager.callHandler, hfound]
    show service.code.requestStub _ _ _ = _
    rw [requestStub_eq service.code rfl, hhandler]

def greeterUnder (serviceId : UInt32) : GeneratedService Unit Bool Unit Unit :=
  { serviceTypeName := "Greeter", serviceId := serviceId, code := greeter }

/-- Under the id 0 it can be reached. -/
theorem reaches_iff_example : ∃ services m,
    onHTTPConnectionEnter GeneratedService.install
        [(fun _ => .ok (greeterUnder 0) : ServiceCreator Unit SessionEvent Bool Unit _)] [] [] {} =
      .ok (services, m) ∧
    ∃ method rpcMeta, greeter.serviceHandlerMapByStr.lookup "Greeter.Greet" = some method ∧
      Reaches m ("/" ++ "Greeter.Greet") (greeterUnder 0) method rpcMeta := by
  obtain ⟨services, m, h, hservices⟩ := connectionEnter_installs
    (httpSenders : List (UnaryServerInterceptor Unit _ _ _)) [] [] [greeterUnder 0] (by simp) (m := {})
    fun _ _ => rfl
  have hlookup : (greeterUnder 0).code.serviceHandlerMapByStr.lookup "Greeter.Greet" = some _ :=
    Finmap.lookup_singleton_eq
  obtain ⟨rpcMeta, hreaches⟩ := (reaches_iff h (by simp [hservices]) hlookup).mpr
    ⟨rfl, by simp⟩
  exact ⟨services, m, h, _, rpcMeta, hlookup, hreaches⟩

/-- Under the id 7 it cannot, though it is the only service there is. -/
theorem greeter_out_of_reach : ∃ services m,
    onHTTPConnectionEnter GeneratedService.install
        [(fun _ => .ok (greeterUnder 7) : ServiceCreator Unit SessionEvent Bool Unit _)] [] [] {} =
      .ok (services, m) ∧ greeterUnder 7 ∈ services.map Prod.snd ∧
    "Greeter.Greet" ∈ greeter.serviceHandlerMapByStr ∧
      ¬ ∃ method rpcMeta, Reaches m ("/" ++ "Greeter.Greet") (greeterUnder 7) method rpcMeta := by
  obtain ⟨services, m, h, hservices⟩ := connectionEnter_installs
    (httpSenders : List (UnaryServerInterceptor Unit _ _ _)) [] [] [greeterUnder 7] (by simp) (m := {})
    fun _ _ => rfl
  refine ⟨services, m, h, by simp [hservices], by simp [greeter, Finmap.mem_singleton], ?_⟩
  rintro ⟨method, rpcMeta, hreaches⟩
  obtain rfl := Except.ok.inj ((Http.requestMeta_slash _).symm.trans hreaches.sent)
  have hfound := (handleRpcMsg_eq_ok_iff m (greeterUnder 7) _).mp hreaches.found
  rcases (find_connectionEnter h 0 (greeterUnder 7)).mp hfound with hnone | ⟨-, hid⟩
  · cases hnone
  · cases hid

end GayRpc
