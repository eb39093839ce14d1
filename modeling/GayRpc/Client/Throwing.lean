import GayRpc.Client.Agreement
import GayRpc.Client.Representation
import Mathlib.Algebra.Order.BigOperators.Group.List
import Mathlib.Algebra.Order.Group.Nat

/-!
# Calls that throw

A call enters the maps before its request goes through the outbound chain, and when the chain throws,
nothing takes it out again. So a call that throws leaves nothing behind just when it has entered nothing,
which is when it has no timeout and a null handle (`throwing_call_iff`).

To leave nothing means two things (`LeavesNothing`): the maps are those that the call has found, while
nobody else uses the client, and from then on, whoever uses it in whatever way, no callback ever runs under
the id that the call has drawn.

The second one is about all later runs. A call that waits for nothing draws its id and sends its request,
and an invariant says that an id which has gone out like that is in no map for good (`lacks_of_oneway`). For
a call that waits, its maps have the id when it comes back, however it does so (`call_enters`), and there
may still be a timeout (`thrown_call_times_out`).
-/

namespace GayRpc

variable {queue : PriorityQueue WaitResponseTimer WaitResponseTimer.le} {D H T Msg Ctx U : Type}

open Prog Pool

/-- While nobody else uses the client, the call throws `e`. `p` is the thread that makes the call, and `ps` are
the threads that it has become by then. -/
inductive CallThrows (code : ClientCode D H T Msg Ctx U) (r : CallRequest D H T Msg)
    (h : Host queue D H T U) (es : List (ClientEvent Msg)) (e : Exn) (h' : Host queue D H T U) :
    ClientProg queue D H T Msg U → List (ClientProg queue D H T Msg U) → Prop where
  | alone {l' : List (ClientProg queue D H T Msg U)}
      (hrun : Run (World.drifting Host.Elapses) ⟨h, [call code r]⟩ es ⟨h', l' ++ [.ret (.error e)]⟩) :
      CallThrows code r h es e h' (call code r) (l' ++ [.ret (.error e)])
  /-- the thread goes on with what waits for the call -/
  | followed {l' : List (ClientProg queue D H T Msg U)} (k : Except Exn Unit → ClientProg queue D H T Msg U)
      (hreturns : ReturnsBeside Host.Elapses [] (call code r) h es (.error e) l' h') :
      CallThrows code r h es e h' ((call code r).bind k) (l'.map mute ++ [k (.error e)])

/-- The maps are those of `h` again, and nothing that happens from now on runs a callback under the id that
a call has drawn from `h`. -/
structure LeavesNothing (code : ClientCode D H T Msg Ctx U) (h : Host queue D H T U)
    (a : Pool (Host queue D H T U) (ClientEvent Msg) Empty (Except Exn Unit)) : Prop where
  stubs : a.state.client.mStubHandleMap = h.client.mStubHandleMap
  timeouts : a.state.client.mTimeoutHandleMap = h.client.mTimeoutHandleMap
  never : ∀ {es b}, Run (clientWorld code) a es b → ∀ event ∈ es, event.runs ≠ some h.client.nextID

/-! ## Ids that are in no map -/

def Host.Lacks (q : UInt64) (h : Host queue D H T U) : Prop := h.client.Consistent ∧ ¬ h.client.Waits q

section lacks

variable {code : ClientCode D H T Msg Ctx U} {q : UInt64} {clock : Int64} {user : U}
  {fs es : List (ClientEvent Msg)} {h : Host queue D H T U}
  {a b : Pool (Host queue D H T U) (ClientEvent Msg) Empty (Except Exn Unit)}

/-- Whatever runs finds no callback of the call `q`, as long as the maps lack it. -/
theorem operation_lacks {p : ClientProg queue D H T Msg U} (hp : Operation code p) :
    p.Guarantees (Host.Lacks q) (fun _ _ => True) fun e => e.runs ≠ some q := by
  have hsections : CallSections (Host.Lacks q : Host queue D H T U → Prop) (fun _ _ => True)
      fun e : ClientEvent Msg => e.runs ≠ some q := by
    constructor
    case request => simp [ClientEvent.runs]
    all_goals
      intros
      trivial
  apply hsections.operation _ _ _ _ hp
  · intros
    trivial
  · intros
    trivial
  · rintro h x t ⟨hs, hnot⟩ ht heq
    -- the callback would have been in the map under its own id
    obtain rfl : t.owner = q := Option.some.inj heq
    apply hnot
    rw [hs.timeout_owner ht]
    exact .inr (Finmap.mem_of_lookup_eq_some ht)
  · rintro h x stub ⟨hs, hnot⟩ hstub message error heq
    -- and so would the handle
    obtain rfl : stub.owner = q := Option.some.inj heq
    apply hnot
    rw [hs.stub_owner hstub]
    exact .inl (Finmap.mem_of_lookup_eq_some hstub)

/-- The ids only go up. -/
theorem run_drawn (hrun : Run (clientWorld code) ⟨Host.fresh clock user, []⟩ fs a)
    (h : Run (clientWorld code) a es b) : a.state.Drawn b.state := by
  have hspawn : ∀ p : ClientProg queue D H T Msg U, Operation code p →
      p.Guarantees (fun _ => True) Host.Drawn fun _ => True := by
    intro p hp
    apply (callSections_drawn fun _ _ => trivial).operation _ _ _ _ hp
    · intro h x _
      exact Nat.le_refl _
    · intro h now _
      exact (h.client.expire_rounds now).mSequenceID.ge
    · intros
      trivial
    · intros
      trivial
  induction h with
  | refl => exact Nat.le_refl _
  | @tail b c es fs h hs ih =>
      have hb := ((hrun.trans h).promised hspawn (fun _ _ _ _ _ _ => trivial) (by simp)).2
      obtain ⟨hstate, -⟩ := hs.promised hspawn trivial hb
      -- a step leaves the counter alone or raises it
      rcases hstate with hsame | hdrawn | henv
      · rw [hsame]
        exact ih
      · exact ih.trans hdrawn
      · exact ih.trans (congrArg BaseClient.mSequenceID henv.1).ge

/-! ## Calls for which no response is expected -/

/-- The request of the call `q`, if it expects no response. -/
def ClientEvent.onewayCost (q : UInt64) : ClientEvent Msg → ℕ
  | .request rpcMeta _ =>
    if rpcMeta.requestInfo.expectResponse = false ∧ rpcMeta.requestInfo.sequenceId = q then 1 else 0
  | _ => 0

/-- The right to the id `q` pays for entering the maps, or for a request without a response. -/
def onewayBudget (q : UInt64) : Budget (Host queue D H T U) (ClientEvent Msg) :=
  (unitBudget q : Budget (Host queue D H T U) (ClientEvent Msg)).charging (ClientEvent.onewayCost q)

theorem accounts_onewayBudget (q : UInt64) :
    Accounts (onewayBudget q : Budget (Host queue D H T U) (ClientEvent Msg))
      (fun x => if x = q then 1 else 0) fun _ => 0 := by
  have hunit : Accounts (unitBudget q : Budget (Host queue D H T U) (ClientEvent Msg))
      (fun x => if x = q then 1 else 0) fun x => if x = q then 1 else 0 := accounts_unitBudget q
  constructor
  case consistent => exact hunit.consistent
  case inv_setUser => exact hunit.inv_setUser
  case potential_setUser => exact hunit.potential_setUser
  case request =>
    intro rpcMeta message
    simp only [onewayBudget, Budget.charging, ClientEvent.onewayCost]
    -- the request itself uses up the unit
    grind
  case handle =>
    intros
    exact Nat.le_refl 0
  case timeout =>
    intros
    exact Nat.le_refl 0
  case allocate => exact hunit.allocate
  case insertTimed => exact hunit.insertTimed
  case insertUntimed => exact hunit.insertUntimed
  -- what is taken out of the maps is worth nothing here
  case forget =>
    intro h x hs
    obtain ⟨hinv, hpot⟩ := hunit.forget x hs
    refine ⟨hinv, ?_⟩
    rw [ite_self, Nat.zero_add]
    exact Nat.le_trans (Nat.le_add_left _ _) hpot
  case expire =>
    intro h now hs
    obtain ⟨hinv, hpot⟩ := hunit.expire now hs
    refine ⟨hinv, ?_⟩
    rw [List.sum_eq_zero (by simp), Nat.zero_add]
    exact Nat.le_trans (Nat.le_add_left _ _) hpot

theorem clientWorld_oneway (code : ClientCode D H T Msg Ctx U) (q : UInt64) :
    (clientWorld code : World (Host queue D H T U) _ _ _).Free (onewayBudget q) 0 := by
  apply (accounts_onewayBudget q).clientWorld code
  · intro x hx
    exact absurd rfl hx
  · intro h hb
    exact hb
  · intro h h' hclient hs
    show h'.client.Consistent
    rw [hclient]
    exact hs
  · intro h h' hclient
    show h'.client.unit q = h.client.unit q
    rw [hclient]

/-- An id that nobody has drawn is in no map. -/
theorem lacks_of_undrawn (hrun : Run (clientWorld code) ⟨Host.fresh clock user, []⟩ es b)
    (hq : b.state.client.mSequenceID ≤ q.toNat) : b.state.Lacks q := by
  obtain ⟨os, ⟨calls, hk⟩, -⟩ :=
    (hrun.held (clientExchange_keeps code) (held_fresh clock user)).exists_holds
  have hc := hk.reached.represents
  have hidle : calls q = .idle := by
    by_contra hne
    exact absurd ((hc.drawn_iff q).mp hne) (Nat.not_lt.mpr hq)
  obtain ⟨hstub, htimeout, -⟩ := hc.absent (x := q) (by simp [hidle, Stage.Entered])
  exact ⟨hrun.inv (clientWorld_oneway code q) (worth_fresh q clock user), not_or.mpr ⟨hstub, htimeout⟩⟩

/-- Neither is the id of a request that has gone out and expects no response. -/
theorem lacks_of_oneway (hrun : Run (clientWorld code) ⟨Host.fresh clock user, []⟩ es b)
    {e : ClientEvent Msg} (he : e ∈ es) (hcost : e.onewayCost q = 1) : b.state.Lacks q := by
  obtain ⟨m, hm, hs, n, hn, -⟩ := hrun.worth (clientWorld_oneway code q) (worth_fresh q clock user)
  refine ⟨hs, fun hwaits => ?_⟩
  have hpaid : 1 ≤ (es.map (ClientEvent.onewayCost q)).sum := by
    rw [← hcost]
    exact List.single_le_sum (fun _ _ => Nat.zero_le _) _ (List.mem_map_of_mem he)
  have hunit : b.state.client.unit q ≤ n + b.state.client.unit q := Nat.le_add_left _ _
  have hleft : 1 ≤ b.state.client.unit q := by
    rw [BaseClient.unit, if_pos hwaits]
    exact Nat.le_add_left _ _
  change (es.map (ClientEvent.onewayCost q)).sum + m ≤ 1 at hm
  change n + b.state.client.unit q ≤ m at hn
  omega

/-- After such a request, no callback of the call runs, unless somebody was about to run one. -/
theorem oneway_silent (hrun : Run (clientWorld code) ⟨Host.fresh clock user, []⟩ fs a)
    (hsent : ∃ e ∈ fs, ClientEvent.onewayCost q e = 1)
    (ha : ∀ p ∈ a.threads, p.Guarantees (Host.Lacks q) (fun _ _ => True) fun e => e.runs ≠ some q)
    (h : Run (clientWorld code) a es b) : ∀ e ∈ es, e.runs ≠ some q := by
  obtain ⟨e, he, hcost⟩ := hsent
  refine (h.promised (fun p hp => operation_lacks hp) ?_ ha).1
  rintro gs c gs' - hto -
  exact lacks_of_oneway (hrun.trans hto) (List.mem_append_left gs he) hcost

/-- Nobody who runs when the id `q` has not been drawn is about to run a callback of the call. -/
theorem threads_of_undrawn (hrun : Run (clientWorld code) ⟨Host.fresh clock user, []⟩ es b)
    (hq : b.state.client.mSequenceID ≤ q.toNat) :
    ∀ p ∈ b.threads, p.Guarantees (Host.Lacks q) (fun _ _ => True) fun e => e.runs ≠ some q := by
  refine (hrun.promised (fun p hp => operation_lacks hp) ?_ (by simp)).2
  rintro fs c gs rfl hto hfrom
  apply lacks_of_undrawn hto
  exact Nat.le_trans (run_drawn hto hfrom) hq

end lacks

/-! ## What a call leaves -/

/-- What a call still has to do when its request is out. -/
def throughChain (code : ClientCode D H T Msg Ctx U) (rpcMeta : RpcMeta) (m : Msg) :
    ClientProg queue D H T Msg U :=
  ((code.outbound.call emptyHandler
    { rpcMeta := rpcMeta, message := m, context := code.emptyContext }).lift
      Host.user Host.setUser).bind fun reply => .ret reply.thrown

section throwing

variable {code : ClientCode D H T Msg Ctx U} {r : CallRequest D H T Msg} {rpcMeta : RpcMeta} {m : Msg}
  {h h₁ h₂ h' : Host queue D H T U} {es es₀ : List (ClientEvent Msg)} {x : Except Exn Unit} {e : Exn}
  {p : ClientProg queue D H T Msg U} {l l' ps ts : List (ClientProg queue D H T Msg U)} {clock : Int64}
  {user : U}

/-- The chain does not get at the client. -/
theorem throughChain_keeps (c : BaseClient queue D H T) :
    (throughChain code rpcMeta m : ClientProg queue D H T Msg U).Keeps (fun h => h.client = c)
      fun _ => True := by
  apply Guarantees.bind
  · apply Guarantees.lift
    intro h u hc
    exact hc
  · intro reply
    trivial

theorem onClient_returns {f : BaseClient queue D H T → BaseClient queue D H T}
    {k : Host queue D H T U → ClientProg queue D H T Msg U}
    (hrun : ReturnsBeside Host.Elapses [] (.act (Host.onClient f) k) h es x l' h') :
    ∃ h₁, h.Elapses h₁ ∧ ReturnsBeside Host.Elapses [] (k h₁) (h₁.mapClient f) es x l' h' := by
  obtain ⟨es₁, l₁, h₁, h₂, es₂, rfl, hbeside, hf, hrest⟩ := returns_act_iff.mp hrun
  obtain ⟨rfl, rfl, helapses⟩ := beside_nil hbeside
  obtain rfl : h₁.mapClient f = h₂ := Option.some.inj hf
  exact ⟨h₁, helapses, hrest⟩

theorem sendRequest_returns
    (hrun : ReturnsBeside Host.Elapses [] (sendRequest code rpcMeta m) h es x l' h') :
    h'.client = h.client := by
  apply ReturnsBeside.keeps (I := fun h' => h'.client = h.client) (G := fun _ => True) hrun
  · exact ⟨trivial, throughChain_keeps h.client⟩
  · rfl
  · intro s s' henv hs
    exact henv.1.trans hs

/-- A call that waits for something has entered its id when it comes back, however it does so. -/
theorem call_enters (hr : ¬ (r.timed = none ∧ r.handle = none))
    (hrun : ReturnsBeside Host.Elapses [] (call code r) h es x l' h') :
    h.client.nextID ∈ h'.client.mStubHandleMap := by
  obtain ⟨h₁, ⟨hclient, -⟩, hrest⟩ := onClient_returns hrun
  rw [← hclient]
  dsimp only at hrest
  cases htimed : r.timed with
  | some timed =>
      rw [htimed] at hrest
      obtain ⟨es₁, l₂, h₂, h₃, es₂, rfl, hbeside, hf, hrest⟩ := returns_act_iff.mp hrest
      obtain ⟨rfl, rfl, -⟩ := beside_nil hbeside
      obtain ⟨h₄, -, hrest⟩ := onClient_returns hrest
      rw [sendRequest_returns hrest]
      exact Finmap.mem_insert.mpr (.inl rfl)
  | none =>
      -- without a timeout only a call with a handle is entered
      have hhandle : r.handle.isSome = true :=
        Option.isSome_iff_ne_none.mpr fun hnone => hr ⟨htimed, hnone⟩
      rw [htimed] at hrest
      dsimp only at hrest
      rw [if_pos hhandle] at hrest
      obtain ⟨h₂, -, hrest⟩ := onClient_returns hrest
      rw [sendRequest_returns hrest]
      exact Finmap.mem_insert.mpr (.inl rfl)

/-! ## Calls that wait for nothing -/

def CallRequest.onewayMeta (r : CallRequest D H T Msg) (h : Host queue D H T U) : RpcMeta :=
  makeRequestRpcMeta h.client.nextID r.serviceID r.msgID .binary false

variable (htimed : r.timed = none) (hhandle : r.handle = none)

include htimed hhandle

theorem call_oneway : (call code r : ClientProg queue D H T Msg U) =
    .act (Host.onClient .allocate) fun h => sendRequest code (r.onewayMeta h) r.request := by
  unfold call
  simp only [htimed, hhandle]
  rfl

/-- It draws its id and sends its request; then nobody is about to run a callback of it. `F` is what
waits for the call, if anything does. -/
theorem oneway_sent {F : ClientProg queue D H T Msg U → ClientProg queue D H T Msg U}
    (hact : ∀ f c, F (.act f c) = .act f fun h => F (c h)) (hemit : ∀ e c, F (.emit e c) = .emit e (F c))
    (hrun : Run (clientWorld code) ⟨Host.fresh clock user, []⟩ es₀ ⟨h, l ++ F (call code r) :: ts⟩)
    (h₁_elapses : h.Elapses h₁) (h₂_elapses : (h₁.mapClient .allocate).Elapses h₂) (hrange : h₂.InRange) :
    ∃ es, Run (clientWorld code) ⟨Host.fresh clock user, []⟩ es
        ⟨h₂, l ++ F (throughChain code (r.onewayMeta h₁) r.request) :: ts⟩ ∧
      (∃ e ∈ es, ClientEvent.onewayCost h.client.nextID e = 1) ∧
      ∀ p ∈ l ++ F (throughChain code (r.onewayMeta h₁) r.request) :: ts,
        p.Guarantees (Host.Lacks h.client.nextID) (fun _ _ => True) fun e => e.runs ≠ some h.client.nextID := by
  rw [call_oneway htimed hhandle, hact] at hrun
  unfold sendRequest at hrun
  simp only [hemit] at hrun
  have hdrawn : h₁.client.allocate.mSequenceID < 2 ^ 64 := by
    have hclient : h₂.client = h₁.client.allocate := h₂_elapses.1
    rw [← hclient]
    exact hrange
  have hlt : h₁.client.mSequenceID < 2 ^ 64 := Nat.lt_of_succ_lt hdrawn
  have hid : h.client.nextID = h₁.client.nextID := by rw [h₁_elapses.1]
  -- up to the request, the id is new
  have hread := hrun.tail (.env _ h₁_elapses hlt)
  have hnew : h₁.client.mSequenceID ≤ h.client.nextID.toNat := by
    rw [hid, h₁.client.toNat_nextID hlt]
  obtain ⟨hl, hall⟩ := List.forall_mem_append.mp (threads_of_undrawn hread hnew)
  obtain ⟨hp, hts⟩ := List.forall_mem_cons.mp hall
  obtain ⟨-, hp⟩ := hp h₁ (lacks_of_undrawn hread hnew) (h₁.mapClient .allocate) rfl
  have hdraw := (hread.tail (.act l ts rfl hdrawn)).tail (.env _ h₂_elapses hrange)
  refine ⟨_, hdraw.tail (.emit l ts _ hrange), ⟨_, List.mem_append_right _ (.head _), ?_⟩, ?_⟩
  · exact if_pos ⟨rfl, hid.symm⟩
  · exact List.forall_mem_append.mpr ⟨hl, List.forall_mem_cons.mpr ⟨hp.2, hts⟩⟩

omit htimed hhandle

/-- A thread alone that does not come back at once lets time pass and takes a step. -/
theorem elapses_move (hrun : Run (World.drifting Host.Elapses) ⟨h, [p]⟩ es ⟨h', l' ++ [.ret x]⟩)
    (hp : p ≠ .ret x) :
    ∃ h₁ fs h₂ ps es₂, h.Elapses h₁ ∧ p.next h₁ = some (fs, h₂, ps) ∧ es = fs ++ es₂ ∧
      Run (World.drifting Host.Elapses) ⟨h₂, ps⟩ es₂ ⟨h', l' ++ [.ret x]⟩ := by
  obtain ⟨l₁, h₁, heq, -⟩ | ⟨es₁, l₁, h₁, fs, h₂, ps, es₂, rfl, hbeside, hnext, hrest⟩ :=
    Run.first_move (l := []) hrun
  · obtain ⟨-, hts⟩ := Pool.mk.inj heq
    obtain ⟨-, hlast⟩ := List.append_inj' hts rfl
    exact absurd (List.cons.inj hlast).1.symm hp
  · obtain ⟨rfl, rfl, helapses⟩ := beside_nil hbeside
    exact ⟨h₁, fs, h₂, ps, es₂, helapses, hnext, rfl, hrest⟩

namespace CallThrows

variable (hthrows : CallThrows code r h es e h' p ps)

include hthrows

theorem returns : ∃ l', ReturnsBeside Host.Elapses [] (call code r) h es (.error e) l' h' := by
  cases hthrows with
  | alone hrun => exact ⟨_, hrun.returns⟩
  | followed k hreturns => exact ⟨_, hreturns⟩

include htimed hhandle

theorem client_eq : h'.client = h.client.allocate := by
  obtain ⟨l', hreturns⟩ := hthrows.returns
  rw [call_oneway htimed hhandle] at hreturns
  obtain ⟨h₁, ⟨hclient, -⟩, hsend⟩ := onClient_returns hreturns
  rw [sendRequest_returns hsend, ← hclient]
  rfl

/-- After a call that waits for nothing, no callback runs under its id. -/
theorem silent (hrun : Run (clientWorld code) ⟨Host.fresh clock user, []⟩ es₀ ⟨h, l ++ p :: ts⟩)
    (hrange : h'.InRange) {es' : List (ClientEvent Msg)}
    {b : Pool (Host queue D H T U) (ClientEvent Msg) Empty (Except Exn Unit)}
    (hcont : Run (clientWorld code) ⟨h', l ++ (ps ++ ts)⟩ es' b) :
    ∀ event ∈ es', event.runs ≠ some h.client.nextID := by
  have hclient := hthrows.client_eq htimed hhandle
  have hsame : ∀ {h₁ h₂ : Host queue D H T U}, h.Elapses h₁ → (h₁.mapClient .allocate).Elapses h₂ →
      h₂.InRange := by
    intro h₁ h₂ helapses helapses₂
    have hclient₂ : h₂.client = h₁.client.allocate := helapses₂.1
    show h₂.client.mSequenceID < 2 ^ 64
    rw [hclient₂, helapses.1, ← hclient]
    exact hrange
  -- what follows the request leaves the client alone
  have hbound : ∀ {h₂ : Host queue D H T U}, h₂.InRange → ∀ s : Host queue D H T U,
      s.client = h₂.client → (clientWorld code).bound s := by
    intro h₂ hrange₂ s hs
    show s.client.mSequenceID < 2 ^ 64
    rw [hs]
    exact hrange₂
  intro event hevent
  cases hthrows with
  | alone halone =>
      rw [call_oneway htimed hhandle] at halone
      obtain ⟨h₁, _, _, _, es₁, helapses, hnext, rfl, hsend⟩ := elapses_move halone (by simp)
      cases hnext
      obtain ⟨h₂, _, _, _, es₂, helapses₂, hnext, rfl, hrest⟩ := elapses_move hsend (by simp [sendRequest])
      cases hnext
      obtain ⟨es, hout, hsent, hthreads⟩ := oneway_sent htimed hhandle (F := id) (fun _ _ => rfl)
        (fun _ _ => rfl) hrun helapses helapses₂ (hsame helapses helapses₂)
      -- the chain of this call runs among the other threads, and it never touches the client
      have hamong : Run (clientWorld code) ⟨h₂, l ++ ([_] ++ ts)⟩ es₂ ⟨h', l ++ (_ ++ ts)⟩ :=
        Run.among (I := fun s => s.client = h₂.client) (G := fun _ => True) hrest
          ⟨rfl, List.forall_mem_singleton.mpr (throughChain_keeps _)⟩ (fun s s' henv hs => henv.1.trans hs)
          (fun _ _ henv => henv) (hbound (hsame helapses helapses₂)) l ts
      exact oneway_silent hout hsent hthreads (hamong.trans hcont) event (List.mem_append_right _ hevent)
  | followed k hreturns =>
      rw [call_oneway htimed hhandle] at hreturns
      obtain ⟨h₁, helapses, hsend⟩ := onClient_returns hreturns
      obtain ⟨es₁, l₂, h₂, es₂, rfl, hbeside, hrest⟩ := returns_emit_iff.mp hsend
      obtain ⟨rfl, rfl, helapses₂⟩ := beside_nil hbeside
      obtain ⟨es, hout, hsent, hthreads⟩ := oneway_sent htimed hhandle (F := fun p => p.bind k)
        (fun _ _ => rfl) (fun _ _ => rfl) hrun helapses helapses₂ (hsame helapses helapses₂)
      have hamong : Run (clientWorld code) ⟨h₂, l ++ _ :: ts⟩ es₂ ⟨h', l ++ (_ ++ _ :: ts)⟩ :=
        ReturnsBeside.frame hrest (throughChain_keeps h₂.client) rfl
          (fun s s' henv hs => henv.1.trans hs) (fun _ _ henv => henv)
          (hbound (hsame helapses helapses₂)) k l ts
      rw [List.append_assoc] at hcont
      exact oneway_silent hout hsent hthreads (hamong.trans hcont) event (List.mem_append_right _ hevent)

end CallThrows

/-- At any time of any run of a client that starts fresh, and whatever its outbound chain is: a call that
throws leaves nothing behind just when it has no timeout and a null handle. -/
theorem throwing_call_iff
    (hrun : Run (clientWorld code) ⟨Host.fresh clock user, []⟩ es₀ ⟨h, l ++ p :: ts⟩)
    (hthrows : CallThrows code r h es e h' p ps) (hrange : h'.InRange) :
    LeavesNothing code h ⟨h', l ++ (ps ++ ts)⟩ ↔ r.timed = none ∧ r.handle = none := by
  constructor
  · intro hleaves
    by_contra hr
    obtain ⟨l', hreturns⟩ := hthrows.returns
    have henters := call_enters hr hreturns
    have hstubs : h'.client.mStubHandleMap = h.client.mStubHandleMap := hleaves.stubs
    rw [hstubs] at henters
    -- but nobody has had the id before
    have hlt : h.client.mSequenceID < 2 ^ 64 := hrun.bound (Nat.two_pow_pos 64)
    have hlacks := lacks_of_undrawn (q := h.client.nextID) hrun (h.client.toNat_nextID hlt).ge
    exact hlacks.2 (.inl henters)
  · rintro ⟨htimed, hhandle⟩
    have hclient := hthrows.client_eq htimed hhandle
    constructor
    case stubs =>
      show h'.client.mStubHandleMap = _
      rw [hclient]
      rfl
    case timeouts =>
      show h'.client.mTimeoutHandleMap = _
      rw [hclient]
      rfl
    case never =>
      intro es' b hcont
      exact hthrows.silent htimed hhandle hrun hrange hcont

end throwing

def throwingCode : ClientCode Unit Unit Unit Unit Unit Unit :=
  { plainCode with
    outbound := makeInterceptor [fun args =>
      .ret { result := .error (.runtimeError "not sent"), rpcMeta := args.rpcMeta }] }

def onewayCall : CallRequest Unit Unit Unit Unit := ⟨(), 1, 2, (), none, none⟩

theorem throwing_call_iff_example : ∃ (h h' : PlainHost) (es : List (ClientEvent Unit)),
    Run (clientWorld throwingCode) ⟨Host.fresh 0 (), []⟩ [] ⟨h, [call throwingCode onewayCall]⟩ ∧
      CallThrows throwingCode onewayCall h es (.runtimeError "not sent") h' (call throwingCode onewayCall)
        [.ret (.error (.runtimeError "not sent"))] ∧
        LeavesNothing throwingCode h ⟨h', [.ret (.error (.runtimeError "not sent"))]⟩ := by
  have hrun : Run (clientWorld throwingCode) ⟨(Host.fresh 0 () : PlainHost), []⟩ []
      ⟨Host.fresh 0 (), [call throwingCode onewayCall]⟩ := .single (.spawn [] (.call onewayCall))
  have h1 : Run (World.drifting Host.Elapses) ⟨(Host.fresh 0 () : PlainHost), [call throwingCode onewayCall]⟩ []
      ⟨_, _⟩ := .single (.act [] [] rfl trivial)
  have h2 := h1.tail (.emit [] [] _ trivial)
  have hthrows : CallThrows throwingCode onewayCall _ _ _ _ _ ([] ++ [_]) := .alone h2
  exact ⟨_, _, _, hrun, hthrows,
    (throwing_call_iff (l := []) hrun hthrows (Nat.one_lt_two_pow (by decide))).mpr ⟨rfl, rfl⟩⟩

def thrownHost : PlainHost :=
  ((Host.fresh 0 ()).mapClient .allocate).mapClient (.insertTimed 0
    { owner := 0, timed := true, type := (), handle := some () } { owner := 0, callback := some () }
      (.start 0 (WaitResponseTimer.nanoseconds 10) 0))

/-- A call with a timeout that throws is still waited for, and its callback runs later. -/
theorem thrown_call_times_out : ∃ (h h' : PlainHost) (es fs : List (ClientEvent Unit)) (b : _),
    Run (clientWorld throwingCode) ⟨Host.fresh 0 (), []⟩ [] ⟨h, [call throwingCode callWithTimeout]⟩ ∧
      CallThrows throwingCode callWithTimeout h es (.runtimeError "not sent") h'
        (call throwingCode callWithTimeout) [.ret (.error (.runtimeError "not sent"))] ∧
        0 ∉ h.client.mStubHandleMap ∧ 0 ∉ h.client.mTimeoutHandleMap ∧
          0 ∈ h'.client.mStubHandleMap ∧ 0 ∈ h'.client.mTimeoutHandleMap ∧
            Run (clientWorld throwingCode) ⟨h', [.ret (.error (.runtimeError "not sent"))]⟩ fs b ∧
              h.client.nextID = 0 ∧ .timeout 0 0 ∈ fs := by
  have hrun : Run (clientWorld throwingCode) ⟨(Host.fresh 0 () : PlainHost), []⟩ []
      ⟨Host.fresh 0 (), [call throwingCode callWithTimeout]⟩ := .single (.spawn [] (.call callWithTimeout))
  have h1 : Run (World.drifting Host.Elapses)
      ⟨(Host.fresh 0 () : PlainHost), [call throwingCode callWithTimeout]⟩ [] ⟨_, _⟩ :=
    .single (.act [] [] rfl trivial)
  have h2 := h1.tail (.act [] [] rfl trivial)
  have h3 := h2.tail (.act [] [] rfl trivial)
  have h4 := h3.tail (.emit [] [] _ trivial)
  have hthrows : CallThrows throwingCode callWithTimeout _ _ _ _ _ ([] ++ [_]) := .alone h4
  have hlt : 1 < 2 ^ 64 := Nat.one_lt_two_pow (by decide)
  -- the timer of an event loop comes
  have h5 : Run (clientWorld throwingCode) ⟨thrownHost, [.ret (.error (.runtimeError "not sent"))]⟩ []
      ⟨_, _⟩ := .single (.spawn _ (.processRpcResponse (timeoutMeta 0) ⟨[], 0, 0⟩ ()))
  have h6 := h5.tail (.act [] _ rfl hlt)
  have h7 := h6.tail (.emit [] _ _ hlt)
  refine ⟨_, thrownHost, _, _, _, hrun, hthrows, Finmap.notMem_empty, Finmap.notMem_empty, ?_, ?_, h7, rfl,
    .head _⟩
  · exact Finmap.mem_insert.mpr (.inl rfl)
  · exact Finmap.mem_insert.mpr (.inl rfl)

end GayRpc
