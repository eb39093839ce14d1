import GayRpc.Process.Protection
import Mathlib.Logic.Relation

/-!
# The threads of a process

Any number of threads use the library at the same time. What its locks protect never has two threads at
it, a dispatch works on one and the same table from beginning to end, and who changes a table finds nobody
in its handlers.

The last part is about threads that wait for each other. The locks are `mMutex` and `mStubMapGuard`; what is
said there holds whether or not readers are let in before writers who wait, as long as a shared request of
a thread that holds the lock in shared mode already is treated like any other. Destructors of what is
erased under a lock are taken to be silent.
-/

namespace GayRpc

variable {queue : PriorityQueue WaitResponseTimer WaitResponseTimer.le}
  {μ ι ν D H T Msg Ctx U : Type} [DecidableEq ι] [DecidableEq μ]

abbrev ProcessMachine (queue : PriorityQueue WaitResponseTimer WaitResponseTimer.le)
    (μ ι ν D H T Msg Ctx U : Type) : Type :=
  Machine (Process queue μ ι ν D H T U) (Lock μ ι) (LibraryCall μ ι ν D H T Msg Ctx) (Except Exn Unit)

abbrev ProcessStrand (queue : PriorityQueue WaitResponseTimer WaitResponseTimer.le)
    (μ ι ν D H T Msg Ctx U : Type) : Type :=
  Strand (Process queue μ ι ν D H T U) (Lock μ ι) (LibraryCall μ ι ν D H T Msg Ctx) (Except Exn Unit)

namespace ProcessCode

variable (code : ProcessCode μ ι ν D H T Msg Ctx U)

/-- The clock goes on and the user's own state may change, but tables and clients are the library's. -/
def Elsewhere (s s' : Process queue μ ι ν D H T U) : Prop :=
  s'.managers = s.managers ∧ s'.clients = s.clients

/-- Threads run code of the user; those of the network are threads that hand over messages. -/
def Started (p : LibraryProg queue μ ι ν D H T Msg Ctx U (Except Exn Unit)) : Prop :=
  ∃ q : UserProg μ ι ν D H T Msg Ctx U (Except Exn Unit), p = runUserCode q

/-- Steps of the threads, of those that join them, and of the world around, on machines that satisfy `I`. -/
abbrev RunWhile (I : ProcessMachine queue μ ι ν D H T Msg Ctx U → Prop)
    (M M' : ProcessMachine queue μ ι ν D H T Msg Ctx U) : Prop :=
  Machine.Run code.body Elsewhere Started I M M'

/-- What comes of a process that begins without threads. -/
def Reached (M : ProcessMachine queue μ ι ν D H T Msg Ctx U) : Prop :=
  ∃ s, code.RunWhile (fun _ => True) ⟨s, []⟩ M

variable {code} {M M' : ProcessMachine queue μ ι ν D H T Msg Ctx U} {i j : ℕ}

theorem outside_of_started {p : LibraryProg queue μ ι ν D H T Msg Ctx U (Except Exn Unit)}
    (h : Started p) : code.regime.Outside p := by
  obtain ⟨q, rfl⟩ := h
  exact open_runUserCode q _ [] []

theorem Reached.sound (h : code.Reached M) : Machine.Sound code.regime M := by
  obtain ⟨s, hrun⟩ := h
  exact hrun.sound (fun _ hp => outside_of_started hp) (Machine.sound_nil s)

end ProcessCode

/-! ## Two tables -/

abbrev TwoCall : Type := LibraryCall Bool Unit Bool Unit Unit Unit Unit Unit

/-- Two tables with a service each, whose method calls `c`, and a client of the one. There are no
interceptors. -/
def twoTables (c : Bool → TwoCall) : ProcessCode Bool Unit Bool Unit Unit Unit Unit Unit Unit where
  codec :=
    { parseFromArray := fun _ _ _ => some ()
      jsonStringToMessage := fun _ _ => .ok ()
      serializeAsString := fun _ => []
      typeName := fun _ => "" }
  emptyContext := ()
  noMessage := ()
  clientManager _ := false
  clientServiceID _ := 0
  clientInbound _ args := .ask (.inl args) fun reply => reply.elim .ret fun _ => .halt
  clientOutbound _ args := .ask (.inl args) fun reply => reply.elim .ret fun _ => .halt
  serviceManager v := v
  serviceID _ := 0
  serviceTypeName _ := ""
  serviceInbound _ args := .ask (.inl args) fun reply => reply.elim .ret fun _ => .halt
  serviceOutbound _ args := .ask (.inl args) fun reply => reply.elim .ret fun _ => .halt
  serviceHandlerMapById v := Finmap.singleton 0 { type := (), run := fun _ _ _ => .ask (c v) .ret }
  serviceHandlerMapByStr _ := ∅
  handle _ _ _ := .ret (.ok ())
  timeout _ := .ret (.ok ())

abbrev TwoProcess : Type := Process (.sorted WaitResponseTimer.le) Bool Unit Bool Unit Unit Unit Unit

def TwoProcess.served (n : ℕ) : TwoProcess where
  managers v := (RpcTypeHandleManager.registerTypeHandle .request (.requestStub v) 0 {}).2
  clock := 0
  server := { promises := { user := () }, replies := n }

def TwoProcess.remove (v : Bool) : TwoProcess → Option TwoProcess :=
  Process.onManager v fun m => m.removeTypeHandle .request 0

abbrev TwoProg : Type :=
  LibraryProg (.sorted WaitResponseTimer.le) Bool Unit Bool Unit Unit Unit Unit Unit Unit (Except Exn Unit)

abbrev TwoMachine : Type :=
  ProcessMachine (.sorted WaitResponseTimer.le) Bool Unit Bool Unit Unit Unit Unit Unit Unit

abbrev TwoStrand : Type :=
  ProcessStrand (.sorted WaitResponseTimer.le) Bool Unit Bool Unit Unit Unit Unit Unit Unit

def TwoStrand.calling (c : Bool → TwoCall) (d : TwoCall) : TwoStrand :=
  { held := [], prog := (twoTables c).body d, stack := [(d, .ret)] }

def requestFor (v : Bool) : TwoCall := .handleRpcMsg v {} ⟨[], 0, 0⟩ ()

/-- A thread that has come to the call in the method of a service, and goes on with `k`. -/
def TwoStrand.serving (c : Bool → TwoCall) (v : Bool) (k : Except Exn Unit → TwoProg) : TwoStrand where
  held := [(.mMutex v, .shared)]
  prog := (twoTables c).body (c v)
  stack := [(c v, k), (requestFor v, .ret)]

section two

variable {c : Bool → TwoCall} {n : ℕ} {l : List TwoStrand}

/-- A thread is started to make a call. -/
theorem twoTables_calls (d : TwoCall) : (twoTables c).RunWhile (fun _ => True) ⟨TwoProcess.served n, l⟩
    ⟨TwoProcess.served n, l ++ [.calling c d]⟩ := by
  have h1 : (twoTables c).RunWhile (fun _ => True) ⟨TwoProcess.served n, l⟩ ⟨TwoProcess.served n, l ++ [_]⟩ :=
    (Machine.Run.refl trivial).tail (.start ⟨.ask d .ret, rfl⟩) trivial
  exact h1.tail (.last .call) trivial

/-- A thread comes to the method of a service, unless another one stands in its way. -/
theorem twoTables_serves (v : Bool) (hfree : ∀ t ∈ l, ¬SelfConflict t.held (.mMutex v) .shared) :
    ∃ k, (twoTables c).RunWhile (fun _ => True) ⟨TwoProcess.served n, l⟩
      ⟨TwoProcess.served (n + 1), l ++ [TwoStrand.serving c v k]⟩ := by
  have h1 := twoTables_calls (c := c) (n := n) (l := l) (requestFor v)
  have h2 := h1.tail (.last (.acquire fun t ht => ?_)) trivial
  · have h3 := h2.tail (.last (.act rfl)) trivial
    have h4 := h3.tail (.last (.act rfl)) trivial
    exact ⟨_, h4.tail (.last .call) trivial⟩
  · obtain ht | ht := List.mem_append.mp ht
    · exact hfree t ht
    · obtain rfl := List.mem_singleton.mp ht
      simp [SelfConflict, TwoStrand.calling]

/-- A thread that changes the table of another service holds it and is about to. -/
theorem twoTables_uninstalls (v : Bool) (hfree : ∀ t ∈ l, ¬SelfConflict t.held (.mMutex v) .exclusive) :
    ∃ k, (twoTables c).RunWhile (fun _ => True) ⟨TwoProcess.served n, l⟩
      ⟨TwoProcess.served n, l ++ [⟨[(.mMutex v, .exclusive)],
        .act (TwoProcess.remove v) k,
        [(.uninstallService v, .ret)]⟩]⟩ := by
  have h1 := twoTables_calls (c := c) (n := n) (l := l) (.uninstallService v)
  refine ⟨_, h1.tail (.last (.acquire fun t ht => ?_)) trivial⟩
  obtain ht | ht := List.mem_append.mp ht
  · exact hfree t ht
  · obtain rfl := List.mem_singleton.mp ht
    simp [SelfConflict, TwoStrand.calling]

theorem removeTypeHandle_ne (v : Bool) : ((TwoProcess.served n).managers v).removeTypeHandle .request 0 ≠
    (TwoProcess.served n).managers v := by
  intro h
  have hdispatch := congrArg (fun m => (m.handleRpcMsg {}).isOk) h
  cases hdispatch

theorem writes_remove (v : Bool) : Process.protection.Writes (.mMutex v) (TwoProcess.remove v) := by
  refine ⟨TwoProcess.served 0, _, rfl, ?_⟩
  have hne := removeTypeHandle_ne (n := 0) v
  cases v <;> exact hne

def twoCall : TwoCall :=
  .call () { request := (), serviceID := 0, msgID := 0, response := (), handle := some (), timed := none }

end two

namespace ProcessCode

variable {code : ProcessCode μ ι ν D H T Msg Ctx U} {M M' : ProcessMachine queue μ ι ν D H T Msg Ctx U}
  {i j : ℕ}

/-! ## Data -/

/-- Two threads are never about to get at a table, or at the pending calls of a client, at the same time,
one of them to change something. -/
theorem no_data_race (h : code.Reached M) {t u : ProcessStrand queue μ ι ν D H T Msg Ctx U}
    (ht : M.strands[i]? = some t) (hu : M.strands[j]? = some u) (hij : i ≠ j)
    {f g : Process queue μ ι ν D H T U → Option (Process queue μ ι ν D H T U)}
    {k l : Process queue μ ι ν D H T U → LibraryProg queue μ ι ν D H T Msg Ctx U (Except Exn Unit)}
    (hf : t.prog = .act f k) (hg : u.prog = .act g l) {lock : Lock μ ι}
    (hw : Process.protection.Writes lock f) :
    ¬Process.protection.Writes lock g ∧ ¬Process.protection.Reads lock g l :=
  h.sound.race_free ht hu hij hf hg hw

theorem no_data_race_twoTables : ∃ (M : TwoMachine) (t u : TwoStrand) (f g : TwoProcess → Option TwoProcess)
    (k l : _), (twoTables fun _ => twoCall).Reached M ∧ M.strands[0]? = some t ∧ M.strands[1]? = some u ∧
      t.prog = .act f k ∧ u.prog = .act g l ∧
        ¬Process.protection.Writes (.mMutex true) g ∧ ¬Process.protection.Reads (.mMutex true) g l := by
  obtain ⟨k, h1⟩ := twoTables_uninstalls (c := fun _ => twoCall) (n := 0) (l := []) true (by simp)
  have h2 := h1.trans (twoTables_calls twoCall)
  exact ⟨_, _, _, _, _, _, _, ⟨_, h2⟩, rfl, rfl, rfl, rfl,
    no_data_race (i := 0) (j := 1) ⟨_, h2⟩ rfl rfl (by decide) rfl rfl (writes_remove true)⟩

/-- As long as a thread is in a handler of a table, the table stays as the thread has found it. -/
theorem table_stays {m : μ} (h : code.Reached M)
    (hrun : code.RunWhile (fun N => ∃ t, N.strands[j]? = some t ∧ (.mMutex m, .shared) ∈ t.held) M M') :
    M'.state.managers m = M.state.managers m := by
  have henv {s s' : Process queue μ ι ν D H T U} (hE : Elsewhere s s') :
      code.regime.protection.part (.mMutex m) s' = code.regime.protection.part (.mMutex m) s :=
    congrFun hE.1 m
  exact hrun.part_eq (fun _ hp => outside_of_started hp) henv h.sound

theorem table_stays_twoTables : ∃ M M' : TwoMachine, (twoTables fun _ => twoCall).Reached M ∧
    M'.strands.length = 2 ∧ M'.state.managers true = M.state.managers true := by
  obtain ⟨k, h⟩ := twoTables_serves (c := fun _ => twoCall) (n := 0) (l := []) true (by simp)
  refine ⟨_, ⟨_, _ ++ [.start (runUserCode (.ask (.uninstallService true) .ret))]⟩, ⟨_, h⟩, rfl,
    table_stays (j := 0) ⟨_, h⟩ (.tail (.refl ?_) (.start ⟨_, rfl⟩) ?_)⟩
  · exact ⟨_, rfl, List.mem_singleton_self _⟩
  · exact ⟨_, rfl, List.mem_singleton_self _⟩

/-- Who changes a table finds no thread in one of its handlers. -/
theorem changes_alone {m : μ} (h : code.Reached M) (hs : Machine.Moves code.body M i M')
    (hne : M'.state.managers m ≠ M.state.managers m)
    {u : ProcessStrand queue μ ι ν D H T Msg Ctx U} (hu : M.strands[j]? = some u) (hji : j ≠ i) :
    (∀ mode, (.mMutex m, mode) ∉ u.held) ∧ ∀ d ∈ u.calls.tail, d.dispatches ≠ some m := by
  have hpart : code.regime.protection.part (.mMutex m) M'.state ≠
      code.regime.protection.part (.mMutex m) M.state := hne
  obtain ⟨t, -, -, halone⟩ := h.sound.alone hs hpart
  have hnone (mode : LockMode) : (.mMutex m, mode) ∉ u.held := fun hmem => hji (halone hu hmem)
  refine ⟨hnone, fun d hd hm => hnone .shared ?_⟩
  apply (h.sound.orderly u (List.mem_of_getElem? hu)).suffix.subset
  exact mem_during_iff.mpr ⟨rfl, d, hd, hm⟩

theorem changes_alone_twoTables : ∃ (M M' : TwoMachine) (u : TwoStrand),
    (twoTables fun _ => twoCall).Reached M ∧ M.strands[1]? = some u ∧
      M'.state.managers true ≠ M.state.managers true ∧
        ((∀ mode, (.mMutex true, mode) ∉ u.held) ∧ ∀ d ∈ u.calls.tail, d.dispatches ≠ some true) := by
  obtain ⟨k, h1⟩ := twoTables_uninstalls (c := fun _ => twoCall) (n := 0) (l := []) true (by simp)
  let t : TwoStrand := ⟨[(.mMutex true, .exclusive)], .act (TwoProcess.remove true) k,
    [(.uninstallService true, .ret)]⟩
  let M : TwoMachine := ⟨TwoProcess.served 0, [t, TwoStrand.calling (fun _ => twoCall) twoCall]⟩
  have h : (twoTables fun _ => twoCall).Reached M := ⟨_, h1.trans (twoTables_calls twoCall)⟩
  obtain ⟨M', hmoves, hM'⟩ : ∃ M', Machine.Moves (twoTables fun _ => twoCall).body M 0 M' ∧
      M'.state.managers true = (M.state.managers true).removeTypeHandle .request 0 :=
    ⟨_, ⟨_, _, _, _, rfl, .act rfl, rfl⟩, rfl⟩
  have hne : M'.state.managers true ≠ M.state.managers true := hM' ▸ removeTypeHandle_ne true
  exact ⟨M, M', _, h, rfl, hne, changes_alone (j := 1) h hmoves hne rfl (by decide)⟩

/-! ## Waiting -/

variable (code) in
/-- A table is used from within a dispatch, to change it or to dispatch again. -/
def UsesUnderDispatch (c : LibraryCall μ ι ν D H T Msg Ctx)
    (outer : List (LibraryCall μ ι ν D H T Msg Ctx)) : Prop :=
  ((∃ m, code.changes c = some m) ∨ ∃ m, c.dispatches = some m) ∧ ∃ d ∈ outer, ∃ n, d.dispatches = some n

omit [DecidableEq ι] [DecidableEq μ] in
/-- What changes a table does not dispatch. -/
theorem dispatches_of_changes {c : LibraryCall μ ι ν D H T Msg Ctx} {m : μ}
    (h : code.changes c = some m) : c.dispatches = none := by
  cases c <;> first | rfl | cases h

/-- A thread that asks for a lock does so within a call. -/
theorem Reached.requests (h : code.Reached M) {t : ProcessStrand queue μ ι ν D H T Msg Ctx U}
    (ht : M.strands[i]? = some t) {lock : Lock μ ι} {mode : LockMode}
    {k : LibraryProg queue μ ι ν D H T Msg Ctx U (Except Exn Unit)}
    (hp : t.prog = .emit (.acquire lock mode) k) :
    ∃ c outer, t.calls = c :: outer ∧ code.Requests c outer t.held lock mode :=
  h.sound.requests (List.mem_of_getElem? ht) hp

/-- What a thread that waits holds are tables, in shared mode. -/
theorem Reached.onlyTables (h : code.Reached M) {k : ℕ} (hw : M.WaitsFor j k)
    {u : ProcessStrand queue μ ι ν D H T Msg Ctx U} (hu : M.strands[j]? = some u) :
    OnlyTables u.held := by
  obtain ⟨u', -, lock, mode, p, hu', -, hp, -⟩ | ⟨u', -, lock, p, -, hu', -, hp, -⟩ := hw
  all_goals
    cases hu.symm.trans hu'
    obtain ⟨c, outer, -, hrequests⟩ := h.requests hu hp
    exact hrequests.onlyTables

/-- A thread waits for one that waits as well: it asks for a table, either to change it, and the other one
holds it; or to look into it, and the other one is to change it. -/
theorem Reached.waits_for_waiting (h : code.Reached M) {k : ℕ} (hij : M.WaitsFor i j)
    (hjk : M.WaitsFor j k) : ∃ t u c outer m, M.strands[i]? = some t ∧ M.strands[j]? = some u ∧
      t.calls = c :: outer ∧ t.held = outer.foldr LibraryCall.during [] ∧
      ((code.changes c = some m ∧ (.mMutex m, .shared) ∈ u.held) ∨
        (c.dispatches = some m ∧ ∃ c' outer', u.calls = c' :: outer' ∧ code.changes c' = some m)) := by
  obtain ⟨t, u, lock, mode, p, ht, hu, hp, mode', hmem, hexcl⟩ | ⟨t, u, lock, p, p', ht, hu, hp, hp'⟩ := hij
  · obtain ⟨c, outer, hcalls, hrequests⟩ := h.requests ht hp
    -- `j` waits itself, so what it holds are tables, and it holds them shared
    have htables := h.onlyTables hjk hu
    obtain ⟨m, rfl⟩ := htables.mutex hmem
    obtain rfl := htables.shared hmem
    have hmode : mode = .exclusive := by
      cases mode with
      | shared => exact absurd hexcl id
      | exclusive => rfl
    exact ⟨t, u, c, outer, m, ht, hu, hcalls, hrequests.outermost rfl,
      .inl ⟨hrequests.changes rfl hmode, hmem⟩⟩
  · obtain ⟨c, outer, hcalls, hrequests⟩ := h.requests ht hp
    obtain ⟨c', outer', hcalls', hrequests'⟩ := h.requests hu hp'
    cases lock with
    | mMutex m =>
        exact ⟨t, u, c, outer, m, ht, hu, hcalls, hrequests.outermost rfl,
          .inr ⟨hrequests.dispatches rfl rfl, c', outer', hcalls', hrequests'.changes rfl rfl⟩⟩
    -- a guard is never asked for in shared mode
    | mStubMapGuard l => cases hrequests.guard rfl

/-- Whom a waiting thread holds up that is to change a table is within a dispatch of this table, and uses a
table there itself. -/
theorem Reached.uses_under_dispatch (h : code.Reached M) {k l : ℕ} {m : μ} (hjk : M.WaitsFor j k)
    (hkl : M.WaitsFor k l) {u : ProcessStrand queue μ ι ν D H T Msg Ctx U} (hu : M.strands[j]? = some u)
    (hmem : (.mMutex m, .shared) ∈ u.held) :
    ∃ c outer, u.calls = c :: outer ∧ code.UsesUnderDispatch c outer := by
  obtain ⟨u', v, c, outer, n, hu', -, hcalls, hheld, huses⟩ := h.waits_for_waiting hjk hkl
  cases hu.symm.trans hu'
  rw [hheld, mem_during_iff] at hmem
  obtain ⟨-, d, hd, hm⟩ := hmem
  refine ⟨c, outer, hcalls, ?_, d, hd, m, hm⟩
  obtain ⟨hchanges, -⟩ | ⟨hdispatches, -⟩ := huses
  · exact .inl ⟨n, hchanges⟩
  · exact .inr ⟨n, hdispatches⟩

/-- Of three threads that wait for each other in a row, and for a fourth, one uses a table from within a
dispatch. -/
theorem Reached.row_uses_under_dispatch (h : code.Reached M) {k l n : ℕ} (hij : M.WaitsFor i j)
    (hjk : M.WaitsFor j k) (hkl : M.WaitsFor k l) (hln : M.WaitsFor l n) :
    ∃ a, (a = j ∨ a = k) ∧ ∃ t c outer, M.strands[a]? = some t ∧ t.calls = c :: outer ∧
      code.UsesUnderDispatch c outer := by
  obtain ⟨-, u, -, -, m, -, hu, -, -, ⟨-, hmem⟩ | ⟨-, c, outer, hcalls, hchanges⟩⟩ :=
    h.waits_for_waiting hij hjk
  · obtain ⟨c, outer, hcalls, huses⟩ := h.uses_under_dispatch hjk hkl hu hmem
    exact ⟨j, .inl rfl, u, c, outer, hu, hcalls, huses⟩
  · -- `j` is to change a table, so `k` holds it
    obtain ⟨u', v, c', outer', m', hu', hv, hcalls', -, ⟨-, hmem⟩ | ⟨hdispatches, -⟩⟩ :=
      h.waits_for_waiting hjk hkl
    · obtain ⟨c, outer, hcalls, huses⟩ := h.uses_under_dispatch hkl hln hv hmem
      exact ⟨k, .inr rfl, v, c, outer, hv, hcalls, huses⟩
    · cases hu.symm.trans hu'
      obtain ⟨rfl, -⟩ := List.cons.inj (hcalls.symm.trans hcalls')
      rw [dispatches_of_changes hchanges] at hdispatches
      cases hdispatches

/-- Whoever is on a circle has somebody before him who is on it as well. -/
theorem exists_next {α : Type} {r : α → α → Prop} {a : α} (h : Relation.TransGen r a a) :
    ∃ b, r a b ∧ Relation.TransGen r b a := by
  obtain ⟨b, hab, hba⟩ := Relation.TransGen.head'_iff.mp h
  obtain rfl | hba := Relation.reflTransGen_iff_eq_or_transGen.mp hba
  · exact ⟨a, hab, h⟩
  · exact ⟨b, hab, hba⟩

theorem exists_previous {α : Type} {r : α → α → Prop} {a : α} (h : Relation.TransGen r a a) :
    ∃ b, r b a ∧ Relation.TransGen r a b := by
  obtain ⟨b, hba, hab⟩ := exists_next (Relation.transGen_swap.mpr h)
  exact ⟨b, hba, Relation.transGen_swap.mp hab⟩

/-- On a circle of threads that wait for each other one uses a table from within a dispatch. -/
theorem Reached.circle_uses_under_dispatch (h : code.Reached M)
    (hcycle : Relation.TransGen M.WaitsFor i i) :
    ∃ j t c outer, Relation.TransGen M.WaitsFor i j ∧ Relation.TransGen M.WaitsFor j i ∧
      M.strands[j]? = some t ∧ t.calls = c :: outer ∧ code.UsesUnderDispatch c outer := by
  obtain ⟨j, hij, hji⟩ := exists_next hcycle
  obtain ⟨k, hjk, hkj⟩ := exists_next (hji.tail hij)
  obtain ⟨l, hkl, hlk⟩ := exists_next (hkj.tail hjk)
  obtain ⟨n, hln, -⟩ := exists_next (hlk.tail hkl)
  obtain ⟨a, rfl | rfl, t, c, outer, ht, hcalls, huses⟩ := h.row_uses_under_dispatch hij hjk hkl hln
  · exact ⟨a, t, c, outer, .single hij, hji, ht, hcalls, huses⟩
  · exact ⟨a, t, c, outer, .tail (.single hij) hjk, hkj.trans hji, ht, hcalls, huses⟩

/-- Where nobody dispatches from within a dispatch, everybody on the circle changes a table there. -/
theorem Reached.circle_changes_under_dispatch (h : code.Reached M)
    (hcycle : Relation.TransGen M.WaitsFor i i)
    (hflat : ∀ t ∈ M.strands, ∀ c outer, t.calls = c :: outer → (∃ m, c.dispatches = some m) →
      ∀ d ∈ outer, d.dispatches = none) :
    ∃ t c outer, M.strands[i]? = some t ∧ t.calls = c :: outer ∧ (∃ m, code.changes c = some m) ∧
      ∃ d ∈ outer, ∃ n, d.dispatches = some n := by
  have hchange {u : ProcessStrand queue μ ι ν D H T Msg Ctx U} {c outer} (hu : u ∈ M.strands)
      (hcalls : u.calls = c :: outer) (huses : code.UsesUnderDispatch c outer) :
      ∃ m, code.changes c = some m := by
    obtain ⟨hchanges | hdispatches, d, hd, n, hn⟩ := huses
    · exact hchanges
    · rw [hflat u hu c outer hcalls hdispatches d hd] at hn
      cases hn
  obtain ⟨j, hij, hji⟩ := exists_next hcycle
  obtain ⟨k, hjk, -⟩ := exists_next (hji.tail hij)
  obtain ⟨p, hpi, hip⟩ := exists_previous hcycle
  obtain ⟨o, hop, -⟩ := exists_previous (hip.head hpi)
  obtain ⟨s, t, b, outer, m, hs, ht, hb, -, ⟨-, hmem⟩ | ⟨hdispatches, -⟩⟩ := h.waits_for_waiting hpi hij
  · obtain ⟨c, outer, hcalls, huses⟩ := h.uses_under_dispatch hij hjk ht hmem
    exact ⟨t, c, outer, ht, hcalls, hchange (List.mem_of_getElem? ht) hcalls huses, huses.2⟩
  · -- whoever waits behind a writer holds nothing up
    exfalso
    obtain ⟨-, s', -, -, n, -, hs', -, -, ⟨-, hmem⟩ | ⟨-, b', outer', hb', hchanges⟩⟩ :=
      h.waits_for_waiting hop hpi
    · cases hs.symm.trans hs'
      obtain ⟨b', outer', hb', huses⟩ := h.uses_under_dispatch hpi hij hs hmem
      obtain ⟨m', hchanges⟩ := hchange (List.mem_of_getElem? hs) hb' huses
      obtain ⟨rfl, -⟩ := List.cons.inj (hb.symm.trans hb')
      rw [dispatches_of_changes hchanges] at hdispatches
      cases hdispatches
    · cases hs.symm.trans hs'
      obtain ⟨rfl, -⟩ := List.cons.inj (hb.symm.trans hb')
      rw [dispatches_of_changes hchanges] at hdispatches
      cases hdispatches

/-- Where threads wait for each other in a circle, one of them uses a table from within a dispatch; and
where nobody dispatches from within a dispatch, all of them change a table from within one. -/
theorem deadlock_uses_under_dispatch (h : code.Reached M) (hcycle : Relation.TransGen M.WaitsFor i i) :
    (∃ j t c outer, Relation.TransGen M.WaitsFor i j ∧ Relation.TransGen M.WaitsFor j i ∧
      M.strands[j]? = some t ∧ t.calls = c :: outer ∧ code.UsesUnderDispatch c outer) ∧
      ((∀ t ∈ M.strands, ∀ c outer, t.calls = c :: outer → (∃ m, c.dispatches = some m) →
        ∀ d ∈ outer, d.dispatches = none) →
      ∃ t c outer, M.strands[i]? = some t ∧ t.calls = c :: outer ∧ (∃ m, code.changes c = some m) ∧
        ∃ d ∈ outer, ∃ n, d.dispatches = some n) :=
  ⟨h.circle_uses_under_dispatch hcycle, h.circle_changes_under_dispatch hcycle⟩

/-- Two threads, the one within a dispatch of a table where it dispatches again, the other one about to
change the table. -/
theorem deadlock_uses_under_dispatch_twoTables : ∃ M : TwoMachine,
    (twoTables fun _ => requestFor true).Reached M ∧ Relation.TransGen M.WaitsFor 0 0 ∧
      ∃ j t c outer, Relation.TransGen M.WaitsFor 0 j ∧ Relation.TransGen M.WaitsFor j 0 ∧
        M.strands[j]? = some t ∧ t.calls = c :: outer ∧
          (twoTables fun _ => requestFor true).UsesUnderDispatch c outer := by
  let c : Bool → TwoCall := fun _ => requestFor true
  obtain ⟨k, h1⟩ := twoTables_serves (c := c) (n := 0) (l := []) true (by simp)
  have h2 := h1.trans (twoTables_calls (.uninstallService true))
  let M : TwoMachine :=
    ⟨TwoProcess.served 1, [TwoStrand.serving c true k, TwoStrand.calling c (.uninstallService true)]⟩
  have h : (twoTables c).Reached M := ⟨_, h2⟩
  have h01 : M.WaitsFor 0 1 := .inr ⟨_, _, .mMutex true, _, _, rfl, rfl, rfl, rfl⟩
  have h10 : M.WaitsFor 1 0 :=
    .inl ⟨_, _, .mMutex true, .exclusive, _, rfl, rfl, rfl, .shared, List.mem_singleton_self _, trivial⟩
  have hcycle : Relation.TransGen M.WaitsFor 0 0 := .tail (.single h01) h10
  exact ⟨M, h, hcycle, (deadlock_uses_under_dispatch h hcycle).1⟩

/-- A thread of the process keeps itself away if and only if, by itself, it has changed a table while it was
running a handler of this table. -/
theorem Reached.keptAwayBy_self_iff (h : code.Reached M) {t : ProcessStrand queue μ ι ν D H T Msg Ctx U}
    (ht : M.strands[i]? = some t) : ∃ s p es, (Thread.start s (runUserCode p)).Run code.body es
      (t.thread M.state) ∧
        (M.KeptAwayBy i i ↔ ∃ c outer, c :: outer ∈ es ∧ code.ChangesUnderDispatch c outer) := by
  obtain ⟨s₀, hrun⟩ := h
  obtain ⟨-, s, es, ⟨p, rfl⟩, hthread⟩ := hrun.thread t (List.mem_of_getElem? ht)
  refine ⟨s, p, es, hthread, ?_⟩
  have hconf := hthread.conflicted_iff code.discipline (lockless_runUserCode p [])
  refine Iff.trans ⟨?_, ?_⟩ hconf
  · rintro ⟨t', u, lock, mode, k, ht', hu, hp, hself⟩
    cases ht.symm.trans ht'
    cases ht.symm.trans hu
    exact ⟨lock, mode, k, hp, hself⟩
  · rintro ⟨lock, mode, k, hp, hself⟩
    exact ⟨t, t, lock, mode, k, ht, ht, hp, hself⟩

/-- Where no thread uses a table from within a dispatch, no more than three wait in a row, and whoever waits
is held up by one that waits for nobody; so nobody stands in the way of a lock which that one asks for. -/
theorem waits_for_three (h : code.Reached M)
    (hcalm : ∀ t ∈ M.strands, ∀ c outer, t.calls = c :: outer → ¬code.UsesUnderDispatch c outer) :
    (∀ {i j k l n : ℕ}, M.WaitsFor i j → M.WaitsFor j k → M.WaitsFor k l → ¬M.WaitsFor l n) ∧
      ∀ i, ∃ j, Relation.ReflTransGen M.WaitsFor i j ∧ (∀ k, ¬M.WaitsFor j k) ∧
        ∀ t lock mode p, M.strands[j]? = some t → t.prog = .emit (.acquire lock mode) p →
          M.Free lock mode := by
  have hrow {i j k l n : ℕ} (hij : M.WaitsFor i j) (hjk : M.WaitsFor j k) (hkl : M.WaitsFor k l) :
      ¬M.WaitsFor l n := by
    intro hln
    obtain ⟨a, -, t, c, outer, ht, hcalls, huses⟩ := h.row_uses_under_dispatch hij hjk hkl hln
    exact hcalm t (List.mem_of_getElem? ht) c outer hcalls huses
  refine ⟨hrow, fun i => ?_⟩
  by_contra hnone
  have hnext {j : ℕ} (hij : Relation.ReflTransGen M.WaitsFor i j) : ∃ k, M.WaitsFor j k := by
    by_contra hstill
    have hlast : ∀ k, ¬M.WaitsFor j k := fun k hjk => hstill ⟨k, hjk⟩
    exact hnone ⟨j, hij, hlast, fun t lock mode p ht hp => Machine.free_of_not_waitsFor ht hp hlast⟩
  -- who waits for somebody at every stage waits in too long a row
  obtain ⟨j, hij⟩ := hnext .refl
  have hj := Relation.ReflTransGen.single hij
  obtain ⟨k, hjk⟩ := hnext hj
  obtain ⟨l, hkl⟩ := hnext (hj.tail hjk)
  obtain ⟨n, hln⟩ := hnext ((hj.tail hjk).tail hkl)
  exact hrow hij hjk hkl hln

/-- A thread that waits to look into a table stands behind one that uninstalls the service, which waits for
its method, which waits for a section of the client. -/
theorem waits_for_three_twoTables : ∃ M : TwoMachine, (twoTables fun _ => twoCall).Reached M ∧
    M.WaitsFor 3 1 ∧ M.WaitsFor 1 0 ∧ M.WaitsFor 0 2 ∧ ∀ l, ¬M.WaitsFor 2 l := by
  obtain ⟨k, h1⟩ := twoTables_serves (c := fun _ => twoCall) (n := 0) (l := []) true (by simp)
  -- one thread dispatches, one wants to change the table, one calls inside the dispatch
  have h2 := h1.trans (twoTables_calls (.uninstallService true))
  have h3 := h2.trans (twoTables_calls twoCall)
  have h4 := h3.tail (.last (.act rfl)) trivial
  have h5 := h4.tail (.last (.acquire ?_)) trivial
  · have h6 := h5.tail (.task (i := 0) ⟨_, _, _, _, rfl, .act rfl, rfl⟩) trivial
    have h7 := h6.tail (.start ⟨.ask (requestFor true) .ret, rfl⟩) trivial
    have h8 := h7.tail (.task (i := 3) ⟨_, _, _, _, rfl, .call, rfl⟩) trivial
    obtain ⟨M, h, h31, h10, h02, hcalm⟩ : ∃ M : TwoMachine, (twoTables fun _ => twoCall).Reached M ∧
        M.WaitsFor 3 1 ∧ M.WaitsFor 1 0 ∧ M.WaitsFor 0 2 ∧ ∀ t ∈ M.strands, ∀ c outer,
          t.calls = c :: outer → ¬(twoTables fun _ => twoCall).UsesUnderDispatch c outer := by
      -- the reader is behind the queued writer, the writer behind the dispatch, that one behind a guard
      refine ⟨_, ⟨_, h8⟩, ?_, ?_, ?_, ?_⟩
      · exact .inr ⟨_, _, .mMutex true, _, _, rfl, rfl, rfl, rfl⟩
      · exact .inl ⟨_, _, .mMutex true, .exclusive, _, rfl, rfl, rfl, .shared, List.mem_singleton_self _,
          trivial⟩
      · exact .inl ⟨_, _, .mStubMapGuard (), .exclusive, _, rfl, rfl, rfl, .exclusive,
          List.mem_singleton_self _, trivial⟩
      · rintro t ht c outer hcalls ⟨huses, d, hd, -⟩
        change t ∈ [_, _, _, _] at ht
        simp only [List.mem_cons, List.not_mem_nil, or_false] at ht
        obtain rfl | rfl | rfl | rfl := ht
        · cases hcalls
          obtain ⟨m, hm⟩ | ⟨m, hm⟩ := huses <;> cases hm
        · cases hcalls
          cases hd
        · cases hcalls
          cases hd
        · cases hcalls
          cases hd
    exact ⟨M, h, h31, h10, h02, fun l => (waits_for_three h hcalm).1 h31 h10 h02⟩
  · intro t ht
    change t ∈ [_, _, _] at ht
    simp only [List.mem_cons, List.not_mem_nil, or_false] at ht
    obtain rfl | rfl | rfl := ht <;> simp [SelfConflict, TwoStrand.serving, TwoStrand.calling]

end ProcessCode

end GayRpc
