import GayRpc.Http.Dispatch
import GayRpc.Lib.Automaton

/-!
# The life of the services of a connection

`OnBinaryConnectionEnter` and `OnHTTPConnectionEnter` again, with what they leave behind when a creator
or `install` throws. At its end the former sets the callback for the end of the connection, which takes
one service after the other out of the table and then calls its `onClose`.

    the services that got through install  =  those whose onClose was called ++ those in the table

This holds of every connection at all times (`Served`). But the two transports and the two kinds of
exceptions decide how far the first part gets:

* over HTTP no callback is set, so no service is ever closed;
* when a creator throws, or a service whose id is taken is turned down, the callback is not set either, and
  the services before it stay in the table for good;
* when `uninstall` or `onClose` of a service throws, the services after it are not closed;
* otherwise all of them are closed in the order in which they were installed.

Between, requests are dispatched to services that are in the table, hence to none that was closed. A run is
one of an automaton, with the entering of the connection as its start (`enter_entered`).
-/

namespace GayRpc

open Automaton RpcTypeHandleManager

variable {D Msg Ctx U σ τ : Type}

inductive TransportType where
  | binary
  | http
  deriving DecidableEq

/-- What a service is appended to the outbound interceptors for. -/
def TransportType.senders : TransportType → List (UnaryServerInterceptor σ SessionEvent Msg Ctx)
  | .binary => binarySenders
  | .http => httpSenders

/-- A connection, as far as its services have to do with it. `disconnectCallback` are the services in the
callback that was set. `installed` are those that got through `install`, and the program does not look at
it. -/
structure ServedConnection (D Msg Ctx U τ : Type) where
  manager : RpcTypeHandleManager (GeneratedService D Msg Ctx U) := {}
  disconnectCallback : Option (List (GeneratedService D Msg Ctx U)) := none
  installed : List (GeneratedService D Msg Ctx U) := []
  user : τ

/-- What becomes of a request, and of a service. -/
inductive LifeEvent (Svc : Type) where
  | dispatched (service : Svc)
  | refused (e : Exn)
  /-- `onClose` is called -/
  | closed (service : Svc)
  | threw (e : Exn)

namespace LifeEvent

variable {Svc : Type}

/-- The services whose `onClose` was called. -/
def closings : List (LifeEvent Svc) → List Svc
  | [] => []
  | .closed service :: es => service :: closings es
  | .dispatched _ :: es => closings es
  | .refused _ :: es => closings es
  | .threw _ :: es => closings es

theorem closings_append (es es' : List (LifeEvent Svc)) :
    closings (es ++ es') = closings es ++ closings es' := by
  induction es with
  | nil => rfl
  | cons e es ih => cases e <;> simp [closings, ih]

/-- A request is dispatched to one of the services only, and not after its `onClose`. -/
def DispatchedInLife (installed : List Svc) (es : List (LifeEvent Svc)) : Prop :=
  ∀ l service r, es = l ++ .dispatched service :: r → service ∈ installed ∧ service ∉ closings l

theorem DispatchedInLife.append {installed : List Svc} {es es' : List (LifeEvent Svc)}
    (h : DispatchedInLife installed es)
    (h' : ∀ l service r, es' = l ++ .dispatched service :: r →
      service ∈ installed ∧ service ∉ closings (es ++ l)) :
    DispatchedInLife installed (es ++ es') := by
  intro l service r heq
  rcases List.append_eq_append_iff.mp heq with ⟨l', rfl, hl'⟩ | ⟨r', rfl, hr'⟩
  · exact h' l' service r hl'
  · cases r' with
    | nil => simpa using h' [] service r hr'.symm
    | cons e r' =>
        obtain ⟨rfl, -⟩ := List.cons.inj hr'
        exact h l service r' rfl

end LifeEvent

open LifeEvent

namespace ServedConnection

variable (transport : TransportType)
  (userInBoundInterceptor : List (UnaryServerInterceptor σ SessionEvent Msg Ctx))

/-- The loop over the creators, and what is done after it. -/
def enter : List (ServiceCreator σ SessionEvent Msg Ctx (GeneratedService D Msg Ctx U)) →
    List (UnaryServerInterceptor σ SessionEvent Msg Ctx) → List (GeneratedService D Msg Ctx U) →
      ServedConnection D Msg Ctx U τ → Except Exn Unit × ServedConnection D Msg Ctx U τ
  | [], _, closedCallbacks, c =>
      match transport with
      | .binary => (.ok (), { c with disconnectCallback := some closedCallbacks })
      | .http => (.ok (), c)
  | serverCreator :: serverCreators, userOutBoundInterceptor, closedCallbacks, c =>
      let inboundInterceptor :=
        if userInBoundInterceptor.isEmpty then makeInterceptor [] else
          makeInterceptor userInBoundInterceptor
      let userOutBoundInterceptor := userOutBoundInterceptor ++ transport.senders
      match serverCreator
        { mInInterceptor := inboundInterceptor
          mOutInterceptor := makeInterceptor userOutBoundInterceptor } with
      | .error e => (.error e, c)
      | .ok service =>
        -- the callback is entered before `install`, but nobody has it when that throws
        match service.install c.manager with
        | .error e => (.error e, c)
        | .ok manager =>
          enter serverCreators userOutBoundInterceptor (closedCallbacks ++ [service])
            { c with manager := manager, installed := c.installed ++ [service] }

variable (onClose : GeneratedService D Msg Ctx U → τ → Except Exn Unit × τ)

/-- The callbacks of the services: `uninstall` and `onClose`. When one throws, the others are not
called. -/
def runClosedCallbacks : List (GeneratedService D Msg Ctx U) → ServedConnection D Msg Ctx U τ →
    List (LifeEvent (GeneratedService D Msg Ctx U)) × ServedConnection D Msg Ctx U τ
  | [], c => ([], c)
  | service :: services, c =>
      let manager := c.manager.removeTypeHandle .request service.serviceId
      match onClose service c.user with
      | (.error e, user) =>
        -- an exception leaves the rest of the services installed
        ([.closed service, .threw e], { c with manager := manager, user := user })
      | (.ok (), user) =>
        let (es, c') := runClosedCallbacks services { c with manager := manager, user := user }
        (.closed service :: es, c')

/-- The end of the connection. The transport calls the callback once, if one was set. -/
def disconnect (c : ServedConnection D Msg Ctx U τ) :
    List (LifeEvent (GeneratedService D Msg Ctx U)) × ServedConnection D Msg Ctx U τ :=
  match c.disconnectCallback with
  | none => ([], c)
  | some services => runClosedCallbacks onClose services { c with disconnectCallback := none }

def dispatch (rpcMeta : RpcMeta) (c : ServedConnection D Msg Ctx U τ) :
    LifeEvent (GeneratedService D Msg Ctx U) :=
  match c.manager.handleRpcMsg rpcMeta with
  | .ok service => .dispatched service
  | .error e => .refused e

/-- What may happen on a connection. The user changes what is his, and whoever has a client on the
connection changes the table of the responses. -/
inductive Step : ServedConnection D Msg Ctx U τ → List (LifeEvent (GeneratedService D Msg Ctx U)) →
    ServedConnection D Msg Ctx U τ → Prop
  | request {c : ServedConnection D Msg Ctx U τ} (rpcMeta : RpcMeta) (htype : rpcMeta.type = .request) :
      Step c [c.dispatch rpcMeta] c
  | disconnect {c : ServedConnection D Msg Ctx U τ} :
      Step c (c.disconnect onClose).1 (c.disconnect onClose).2
  | other {c : ServedConnection D Msg Ctx U τ} (user : τ)
      (manager : RpcTypeHandleManager (GeneratedService D Msg Ctx U))
      (hmanager : ∀ id, manager.find .request id = c.manager.find .request id) :
      Step c [] { c with manager := manager, user := user }

end ServedConnection

/-! ## What is in the table -/

/-- The services are in the table, each under its id, and there are no others. -/
structure Serves (m : RpcTypeHandleManager (GeneratedService D Msg Ctx U))
    (services : List (GeneratedService D Msg Ctx U)) : Prop where
  find_iff : ∀ id service, m.find .request id = some service ↔
    service ∈ services ∧ service.serviceId = id
  nodup : (services.map (·.serviceId)).Nodup

section Serves

variable {m m' : RpcTypeHandleManager (GeneratedService D Msg Ctx U)}
  {service : GeneratedService D Msg Ctx U} {services : List (GeneratedService D Msg Ctx U)}

theorem serves_nil : Serves ({} : RpcTypeHandleManager (GeneratedService D Msg Ctx U)) [] where
  find_iff id service := by simp
  nodup := List.nodup_nil

/-- No id is free that a service has. -/
theorem Serves.find_eq_none_iff (h : Serves m services) {id : UInt32} :
    m.find .request id = none ↔ id ∉ services.map (·.serviceId) := by
  rw [Option.eq_none_iff_forall_ne_some]
  simp only [ne_eq, h.find_iff, List.mem_map, not_exists]

theorem Serves.install (h : Serves m services) (hinstall : service.install m = .ok m') :
    Serves m' (services ++ [service]) := by
  obtain ⟨hfree, -⟩ := GeneratedService.find_install hinstall service.serviceId
  have hnotMem := h.find_eq_none_iff.mp hfree
  constructor
  · intro id other
    rw [(GeneratedService.find_install hinstall id).2, List.mem_append, List.mem_singleton]
    -- the id is free, so the new entry hides none and no service is there twice
    by_cases hid : id = service.serviceId
    · subst hid
      rw [if_pos rfl]
      constructor
      · rintro ⟨⟩
        exact ⟨.inr rfl, rfl⟩
      · rintro ⟨hmem | rfl, hother⟩
        · exact absurd (List.mem_map.mpr ⟨other, hmem, hother⟩) hnotMem
        · rfl
    · rw [if_neg hid, h.find_iff]
      grind
  · rw [List.map_append, List.nodup_append]
    refine ⟨h.nodup, by simp, ?_⟩
    rintro id hmem other hother rfl
    obtain rfl : id = service.serviceId := by simpa using hother
    exact hnotMem hmem

/-- `uninstall` takes out the service that it is called on. -/
theorem Serves.uninstall (h : Serves m (service :: services)) :
    Serves (m.removeTypeHandle .request service.serviceId) services := by
  obtain ⟨hnotMem, hnodup⟩ := List.nodup_cons.mp h.nodup
  refine ⟨fun id other => ?_, hnodup⟩
  rw [find_removeTypeHandle]
  by_cases hid : id = service.serviceId
  · subst hid
    rw [if_pos ⟨rfl, rfl⟩]
    refine iff_of_false nofun ?_
    rintro ⟨hmem, hother⟩
    exact hnotMem (List.mem_map.mpr ⟨other, hmem, hother⟩)
  · rw [if_neg (fun heq => hid heq.2), h.find_iff, List.mem_cons]
    constructor
    · rintro ⟨rfl | hmem, hother⟩
      · exact absurd hother.symm hid
      · exact ⟨hmem, hother⟩
    · rintro ⟨hmem, hother⟩
      exact ⟨.inr hmem, hother⟩

end Serves

namespace ServedConnection

variable {transport : TransportType}
  {userInBoundInterceptor : List (UnaryServerInterceptor σ SessionEvent Msg Ctx)}
  {onClose : GeneratedService D Msg Ctx U → τ → Except Exn Unit × τ}
  {c : ServedConnection D Msg Ctx U τ} {services : List (GeneratedService D Msg Ctx U)}

/-- What is left behind, whether or not something throws. -/
structure Entered (transport : TransportType) (r : Except Exn Unit × ServedConnection D Msg Ctx U τ) :
    Prop where
  serves : Serves r.2.manager r.2.installed
  set : r.1 = .ok () → transport = .binary → r.2.disconnectCallback = some r.2.installed
  unset : r.1 ≠ .ok () ∨ transport = .http → r.2.disconnectCallback = none

/-- Induction on the creators. -/
theorem enter_entered
    (creators : List (ServiceCreator σ SessionEvent Msg Ctx (GeneratedService D Msg Ctx U)))
    (userOut : List (UnaryServerInterceptor σ SessionEvent Msg Ctx))
    (hserves : Serves c.manager c.installed) (hnone : c.disconnectCallback = none) :
    Entered transport (enter transport userInBoundInterceptor creators userOut c.installed c) := by
  induction creators generalizing userOut c with
  | nil =>
      cases transport with
      | binary => exact ⟨hserves, fun _ _ => rfl, by simp [enter]⟩
      | http => exact ⟨hserves, fun _ => nofun, fun _ => hnone⟩
  | cons creator creators ih =>
      rw [enter]
      split
      · exact ⟨hserves, nofun, fun _ => hnone⟩
      · split
        · exact ⟨hserves, nofun, fun _ => hnone⟩
        · next service _ _ manager hinstall =>
          exact ih (c := { c with manager := manager, installed := c.installed ++ [service] }) _
            (hserves.install hinstall) hnone

/-- The services and the table that `connectionEnter` speaks of are those that are there, unless
something throws. -/
theorem enter_eq
    (creators : List (ServiceCreator σ SessionEvent Msg Ctx (GeneratedService D Msg Ctx U)))
    (userOut : List (UnaryServerInterceptor σ SessionEvent Msg Ctx))
    (callbacks : List (GeneratedService D Msg Ctx U)) {result : Except Exn Unit}
    {c' : ServedConnection D Msg Ctx U τ}
    (h : enter transport userInBoundInterceptor creators userOut callbacks c = (result, c')) :
    ∃ services : List (ServiceContext σ SessionEvent Msg Ctx × GeneratedService D Msg Ctx U),
      connectionEnter GeneratedService.install transport.senders userInBoundInterceptor creators userOut
        c.manager = result.map (fun _ => (services, c'.manager)) ∧
      (result = .ok () → c'.installed = c.installed ++ services.map Prod.snd) := by
  induction creators generalizing userOut callbacks c with
  | nil =>
      cases transport with
      | binary =>
          obtain ⟨rfl, rfl⟩ := Prod.mk.inj h
          exact ⟨[], rfl, fun _ => by simp⟩
      | http =>
          obtain ⟨rfl, rfl⟩ := Prod.mk.inj h
          exact ⟨[], rfl, fun _ => by simp⟩
  | cons creator creators ih =>
      rw [enter] at h
      simp only [connectionEnter, bind, Except.bind]
      split at h
      · next e hcreator =>
        obtain ⟨rfl, rfl⟩ := Prod.mk.inj h
        -- the creator threw: neither goes on from here
        exact ⟨[], by rw [hcreator]; rfl, fun hok => by cases hok⟩
      · next service hcreator =>
        rw [hcreator]
        split at h
        · next e hinstall =>
          obtain ⟨rfl, rfl⟩ := Prod.mk.inj h
          exact ⟨[], by simp [hinstall, Except.map], fun hok => by cases hok⟩
        · next manager hinstall =>
          obtain ⟨services, hservices, hinstalled⟩ := ih _ _ h
          simp only [hinstall, hservices]
          cases result with
          | error e => exact ⟨[], rfl, fun hok => by cases hok⟩
          | ok _ =>
              refine ⟨(_, service) :: services, rfl, fun _ => ?_⟩
              rw [hinstalled rfl]
              simp

variable (onClose) in
/-- What the callbacks have done when they are through, or when one of them has thrown. -/
theorem runClosedCallbacks_spec (hserves : Serves c.manager services) :
    ∃ rest, closings (runClosedCallbacks onClose services c).1 ++ rest = services ∧
      Serves (runClosedCallbacks onClose services c).2.manager rest ∧
      ((∀ e, .threw e ∉ (runClosedCallbacks onClose services c).1) → rest = []) ∧
      (∀ service, .dispatched service ∉ (runClosedCallbacks onClose services c).1) ∧
      (runClosedCallbacks onClose services c).2.disconnectCallback = c.disconnectCallback := by
  induction services generalizing c with
  | nil => exact ⟨[], rfl, hserves, fun _ => rfl, nofun, rfl⟩
  | cons service services ih =>
      rw [runClosedCallbacks]
      split
      · next e user _ =>
        refine ⟨services, rfl, hserves.uninstall, fun hthrew => ?_, by simp, rfl⟩
        exact absurd (by simp) (hthrew e)
      · next user _ =>
        obtain ⟨rest, hrest, hserves', hthrew, hdispatched, hcallback⟩ :=
          @ih { c with
            manager := c.manager.removeTypeHandle .request service.serviceId
            user := user } hserves.uninstall
        refine ⟨rest, congrArg (service :: ·) hrest, hserves', fun h => ?_, ?_, hcallback⟩
        · exact hthrew fun e hmem => h e (List.mem_cons_of_mem _ hmem)
        · simpa using hdispatched

/-! ## Runs -/

variable (transport userInBoundInterceptor onClose) in
/-- A connection that was entered in the state `user`, and what happens to it. -/
def automaton (creators : List (ServiceCreator σ SessionEvent Msg Ctx (GeneratedService D Msg Ctx U)))
    (userOut : List (UnaryServerInterceptor σ SessionEvent Msg Ctx)) (user : τ) :
    Automaton (ServedConnection D Msg Ctx U τ) (LifeEvent (GeneratedService D Msg Ctx U)) where
  init c := c = (enter transport userInBoundInterceptor creators userOut [] { user := user }).2
  step := Step onClose

/-- A connection that has left `start` and shown the events. -/
structure Served (start : ServedConnection D Msg Ctx U τ)
    (es : List (LifeEvent (GeneratedService D Msg Ctx U))) (c : ServedConnection D Msg Ctx U τ) :
    Prop where
  installed : ∃ rest, closings es ++ rest = start.installed ∧ Serves c.manager rest ∧
    (start.disconnectCallback ≠ none → c.disconnectCallback = none → (∀ e, .threw e ∉ es) → rest = [])
  nodup : start.installed.Nodup
  pending : ∀ services, c.disconnectCallback = some services →
    services = start.installed ∧ closings es = []
  unset : start.disconnectCallback = none → c.disconnectCallback = none ∧ closings es = []
  dispatched : DispatchedInLife start.installed es

variable {start : ServedConnection D Msg Ctx U τ}
  {es es' : List (LifeEvent (GeneratedService D Msg Ctx U))} {c' : ServedConnection D Msg Ctx U τ}

/-- Whatever is in the table at the time has not been closed. -/
theorem Served.dispatch (h : Served start es c) (rpcMeta : RpcMeta) (htype : rpcMeta.type = .request) :
    Served start (es ++ [c.dispatch rpcMeta]) c := by
  obtain ⟨⟨rest, hrest, hserves, hended⟩, hnodup, hpending, hunset, hdispatched⟩ := h
  have hclosings : closings (es ++ [c.dispatch rpcMeta]) = closings es := by
    rw [closings_append, ServedConnection.dispatch]
    split <;> simp [closings]
  refine ⟨⟨rest, ?_, hserves, ?_⟩, hnodup, ?_, ?_, hdispatched.append ?_⟩
  · rw [hclosings, hrest]
  · intro hset hnone hthrew
    exact hended hset hnone fun e hmem => hthrew e (List.mem_append_left _ hmem)
  · rwa [hclosings]
  · rwa [hclosings]
  · intro l service r heq
    obtain ⟨rfl, hdispatch⟩ : l = [] ∧ c.dispatch rpcMeta = .dispatched service := by
      cases l <;> simp_all
    -- what the table has under the id was installed and has not been closed
    have hfind : c.manager.find .request rpcMeta.serviceId = some service := by
      rw [← htype, ← handleRpcMsg_eq_ok_iff]
      rw [ServedConnection.dispatch] at hdispatch
      split at hdispatch
      · next heq =>
        rw [heq, LifeEvent.dispatched.inj hdispatch]
      · cases hdispatch
    have hmem := ((hserves.find_iff _ _).mp hfind).1
    rw [List.append_nil, ← hrest]
    refine ⟨List.mem_append_right _ hmem, fun hclosed => ?_⟩
    have hdisjoint := List.disjoint_of_nodup_append (hrest ▸ hnodup)
    exact hdisjoint hclosed hmem

/-- Once the callback has been called, it is gone. -/
theorem Served.disconnect (h : Served start es c) :
    Served start (es ++ (c.disconnect onClose).1) (c.disconnect onClose).2 := by
  unfold ServedConnection.disconnect
  split
  · rwa [List.append_nil]
  · next services hset =>
    obtain ⟨⟨rest, hrest, hserves, -⟩, hnodup, hpending, hunset, hdispatched⟩ := h
    -- the callback is still set, so nothing has been closed so far
    obtain ⟨rfl, hnone⟩ := hpending services hset
    rw [hnone, List.nil_append] at hrest
    obtain ⟨rest', hrest', hserves', hended', hnot, hcallback⟩ :=
      runClosedCallbacks_spec onClose (c := { c with disconnectCallback := none }) (hrest ▸ hserves)
    refine ⟨⟨rest', ?_, hserves', ?_⟩, hnodup, ?_, ?_, hdispatched.append ?_⟩
    · rw [closings_append, hnone, List.nil_append, hrest']
    · intro _ _ hthrew
      exact hended' fun e hmem => hthrew e (List.mem_append_right _ hmem)
    · intro services hsome
      rw [hcallback] at hsome
      cases hsome
    · intro hstart
      rw [(hunset hstart).1] at hset
      cases hset
    · intro l service r heq
      refine absurd ?_ (hnot service)
      rw [heq]
      simp

theorem Served.step (h : Served start es c) (hstep : Step onClose c es' c') :
    Served start (es ++ es') c' := by
  cases hstep with
  | request rpcMeta htype => exact h.dispatch rpcMeta htype
  | disconnect => exact h.disconnect
  | other user manager hmanager =>
      obtain ⟨⟨rest, hrest, hserves, hended⟩, hnodup, hpending, hunset, hdispatched⟩ := h
      rw [List.append_nil]
      refine ⟨⟨rest, hrest, ⟨fun id service => ?_, hserves.nodup⟩, hended⟩, hnodup, hpending, hunset,
        hdispatched⟩
      rw [hmanager, hserves.find_iff]

/-- Nothing has happened yet. -/
theorem Entered.served {result : Except Exn Unit} (h : Entered transport (result, c)) :
    Served c [] c where
  installed := ⟨c.installed, rfl, h.serves, fun hset hnone => absurd hnone hset⟩
  nodup := h.serves.nodup.of_map _
  pending services hset := by
    refine ⟨?_, rfl⟩
    by_cases hbinary : result = .ok () ∧ transport = .binary
    · rw [h.set hbinary.1 hbinary.2] at hset
      exact (Option.some.inj hset).symm
    · rw [h.unset (by cases transport <;> simp_all)] at hset
      cases hset
  unset hnone := ⟨hnone, rfl⟩
  dispatched l service r heq := by cases l <;> cases heq

/-- **The life of a service.** In every run of a connection the services are closed in the order in which
they were installed, each once at most. The table holds those that are left, so a request is never
dispatched to a service after its `onClose`. But over HTTP no service is ever closed, and over the binary
protocol none when entering the connection threw; otherwise all are, once the connection has ended,
unless one of them throws. -/
theorem served_life
    {creators : List (ServiceCreator σ SessionEvent Msg Ctx (GeneratedService D Msg Ctx U))}
    {userOut : List (UnaryServerInterceptor σ SessionEvent Msg Ctx)} {user : τ}
    {result : Except Exn Unit}
    (hstart : enter transport userInBoundInterceptor creators userOut [] { user := user } =
      (result, start))
    (h : (automaton transport userInBoundInterceptor onClose creators userOut user).Reaches es c) :
    closings es <+: start.installed ∧
      (∀ id service, c.manager.find .request id = some service ↔
        service ∈ start.installed.drop (closings es).length ∧ service.serviceId = id) ∧
      DispatchedInLife start.installed es ∧
      (result ≠ .ok () ∨ transport = .http → closings es = []) ∧
      (result = .ok () → transport = .binary → c.disconnectCallback = none →
        (∀ e, .threw e ∉ es) → closings es = start.installed) := by
  -- entering sets up the invariant, and every event of the connection keeps it
  have hentered : Entered transport (result, start) := by
    rw [← hstart]
    exact enter_entered (c := { user := user }) creators userOut serves_nil rfl
  have hserved : Served start es c := by
    refine h.invariant ?_ fun es c es' c' hserved hstep => hserved.step hstep
    rintro c rfl
    rw [hstart]
    exact hentered.served
  obtain ⟨rest, hrest, hserves, hended⟩ := hserved.installed
  refine ⟨⟨rest, hrest⟩, fun id service => ?_, hserved.dispatched, fun hthrew => ?_, ?_⟩
  · rw [← hrest, List.drop_left, hserves.find_iff]
  · exact (hserved.unset (hentered.unset hthrew)).2
  · intro hok hbinary hnone hthrew
    have hset : start.disconnectCallback ≠ none := by
      rw [hentered.set hok hbinary]
      simp
    rw [← hrest, hended hset hnone hthrew, List.append_nil]

/-- Two services are entered. The second one gets a request, and then the connection ends, but `onClose`
of the first one throws. -/
theorem served_life_example :
    let creators : List
        (ServiceCreator Unit SessionEvent Bool Unit (GeneratedService Unit Bool Unit Unit)) :=
      [fun _ => .ok (greeterUnder 1), fun _ => .ok (greeterUnder 2)]
    let start : ServedConnection Unit Bool Unit Unit Unit :=
      (enter .binary [] creators [] [] { user := () }).2
    let es := [LifeEvent.dispatched (greeterUnder 2), .closed (greeterUnder 1), .threw .unknown]
    ∃ c : ServedConnection Unit Bool Unit Unit Unit,
      closings es <+: start.installed ∧
      (∀ id service, c.manager.find .request id = some service ↔
        service ∈ start.installed.drop (closings es).length ∧ service.serviceId = id) ∧
      DispatchedInLife start.installed es ∧
      (Except.ok () ≠ (Except.ok () : Except Exn Unit) ∨ TransportType.binary = .http →
        closings es = []) ∧
      ((Except.ok () : Except Exn Unit) = .ok () → TransportType.binary = .binary →
        c.disconnectCallback = none → (∀ e, .threw e ∉ es) → closings es = start.installed) := by
  intro creators start es
  have hrequest : (automaton .binary [] (fun _ u => (.error .unknown, u)) creators [] ()).Moves start
      [.dispatched (greeterUnder 2)] start :=
    .single (Step.request { type := .request, serviceId := 2 } rfl)
  have hdisconnect : Step (fun _ u => (.error .unknown, u)) start
      [.closed (greeterUnder 1), .threw .unknown] (start.disconnect fun _ u => (.error .unknown, u)).2 :=
    .disconnect
  exact ⟨_, served_life rfl ⟨start, rfl, hrequest.tail hdisconnect⟩⟩

end ServedConnection

end GayRpc
