import GayRpc.Client.Accounts

/-!
# Every call is completed at most once

One sequence id is one unit of currency. It is in the counter until the id is drawn, then in the hands
of the call that drew it, then in the maps, and last in the hands of the thread that took the entry
out of them; running a callback of the call spends it. Nobody can spend it twice (`Run.cost_le`), and
so no interleaving of calls, responses and sweeps runs two callbacks of one call
(`at_most_once_completion`).

The callbacks may make calls in their turn, and an inbound interceptor may hold a response back or hand it
to another thread. What it must not do is call its continuation twice, since that runs a handle twice; a
callback that was registered for another call than the one it is run for costs more than there is, so that
no run ever shows one.
-/

namespace GayRpc

variable {queue : PriorityQueue WaitResponseTimer WaitResponseTimer.le} {D H T Msg Ctx U : Type}

namespace BaseClient

variable (c : BaseClient queue D H T) (q x : UInt64)

def unit : ℕ := (if c.mSequenceID ≤ q.toNat then 1 else 0) + (if c.Waits q then 1 else 0)

theorem unit_allocate (h : c.allocate.mSequenceID < 2 ^ 64) :
    (if c.nextID = q then 1 else 0) + c.allocate.unit q ≤ c.unit q := by
  have hdrawn := c.drawn_allocate q h
  have hwaits : c.allocate.Waits q ↔ c.Waits q := Iff.rfl
  simp only [unit, hwaits]
  omega

theorem unit_insertTimed (stub : ResponseStub D H) (t : TimeoutCallback T)
    (timer : WaitResponseTimer) :
    (c.insertTimed x stub t timer).unit q ≤ (if x = q then 1 else 0) + c.unit q := by
  have hwaits : (c.insertTimed x stub t timer).Waits q ↔ q = x ∨ c.Waits q := by
    simp only [Waits, insertTimed, Finmap.mem_insert]
    grind
  have hcount : (c.insertTimed x stub t timer).mSequenceID = c.mSequenceID := rfl
  simp only [unit, hwaits, hcount]
  grind

theorem unit_insertUntimed (stub : ResponseStub D H) :
    (c.insertUntimed x stub).unit q ≤ (if x = q then 1 else 0) + c.unit q := by
  have hwaits : (c.insertUntimed x stub).Waits q ↔ q = x ∨ c.Waits q := by
    simp only [Waits, insertUntimed, Finmap.mem_insert]
    grind
  have hcount : (c.insertUntimed x stub).mSequenceID = c.mSequenceID := rfl
  simp only [unit, hwaits, hcount]
  grind

/-- Whoever takes an entry out of the maps has its unit. -/
theorem unit_forget :
    (if c.Waits x ∧ x = q then 1 else 0) + (c.forget x).unit q ≤ c.unit q := by
  have hwaits : (c.forget x).Waits q ↔ q ≠ x ∧ c.Waits q := by
    simp only [Waits, forget, Finmap.mem_erase]
    grind
  simp only [unit, hwaits, forget_mSequenceID]
  grind

theorem unit_fresh : ({} : BaseClient queue D H T).unit q = 1 := by
  have hwaits : ¬ ({} : BaseClient queue D H T).Waits q := by
    rintro (h | h)
    · exact Finmap.notMem_empty h
    · exact Finmap.notMem_empty h
  rw [unit, if_neg hwaits, if_pos (Nat.zero_le _)]

theorem unit_popTimer : c.popTimer.unit q = c.unit q := rfl

/-- The callbacks a sweep takes along have the units of their calls. -/
theorem Rounds.unit_le {c c' : BaseClient queue D H T} {now : Int64}
    {callbacks : List (UInt64 × TimeoutCallback T)} (h : Rounds now c c' callbacks) :
    (callbacks.map fun p => if p.1 = q then 1 else 0).sum + c'.unit q ≤ c.unit q := by
  induction h with
  | stop hlater => simp
  | @take c c' head t callbacks htop hdue ht _ ih =>
      have hw : c.Waits head.mSeqID := .inr (Finmap.mem_of_lookup_eq_some ht)
      have hforget := c.unit_forget q head.mSeqID
      rw [unit_popTimer] at ih
      simp only [List.map_cons, List.sum_cons]
      simp only [hw, true_and] at hforget
      omega
  | skip htop hdue hnone _ ih => exact ih

end BaseClient

namespace ClientEvent

def runs : ClientEvent Msg → Option UInt64
  | request _ _ => none
  | handle _ owner _ _ => some owner
  | timeout _ owner => some owner

/-- A response or a timer runs a callback of its own call. -/
def Matched : ClientEvent Msg → Prop
  | request _ _ => True
  | handle received owner _ _ => received = owner
  | timeout received owner => received = owner

instance (e : ClientEvent Msg) : Decidable e.Matched := by
  cases e <;> unfold Matched <;> infer_instance

end ClientEvent

open Prog

/-- The units of `q`: a callback of the call costs one, and a callback that is not the call's own is
made more expensive than anybody can afford. -/
def unitBudget (q : UInt64) : Budget (Host queue D H T U) (ClientEvent Msg) where
  inv h := h.client.Consistent
  bound h := h.client.mSequenceID < 2 ^ 64
  potential h := h.client.unit q
  cost e := (if e.runs = some q then 1 else 0) + (if e.Matched then 0 else 2)

/-- Units are handed on from the counter to the maps, and from the maps to who runs a callback. -/
theorem accounts_unitBudget (q : UInt64) :
    Accounts (unitBudget q : Budget (Host queue D H T U) (ClientEvent Msg))
      (fun x => if x = q then 1 else 0) (fun x => if x = q then 1 else 0) where
  consistent hs := hs
  inv_setUser _ hs := hs
  potential_setUser _ _ := rfl
  request _ _ := by simp [unitBudget, ClientEvent.runs, ClientEvent.Matched]
  handle x _ _ := by simp [unitBudget, ClientEvent.runs, ClientEvent.Matched]
  timeout x := by simp [unitBudget, ClientEvent.runs, ClientEvent.Matched]
  allocate {h} hs hb := ⟨hs.allocate, h.client.unit_allocate q hb⟩
  insertTimed {h x stub t timer} hstub ht _ hs :=
    ⟨hs.insertTimed hstub ht timer, h.client.unit_insertTimed q x stub t timer⟩
  insertUntimed {h x stub} hstub htimed hs :=
    ⟨hs.insertUntimed hstub htimed, h.client.unit_insertUntimed q x stub⟩
  forget {h} x hs := by
    refine ⟨hs.forget x, ?_⟩
    rw [← ite_and]
    exact h.client.unit_forget q x
  expire {h} now hs :=
    have hrounds := h.client.expire_rounds now
    ⟨(hs.rounds hrounds).1, hrounds.unit_le q⟩

section affords

variable {q : UInt64} (code : ClientCode D H T Msg Ctx U)

theorem affords_call (r : CallRequest D H T Msg) :
    Prog.Affords (unitBudget q : Budget (Host queue D H T U) _) 0 0 (call code r) :=
  (accounts_unitBudget q).call code r

theorem affords_processRpcResponse (hin : InvokesAtMostOnce code.inbound) (rpcMeta : RpcMeta)
    (data : StringView) (context : Ctx) :
    Prog.Affords (unitBudget q : Budget (Host queue D H T U) _) 0 0
      (processRpcResponse code rpcMeta data context) :=
  (accounts_unitBudget q).processRpcResponse code (fun _ _ => hin) rpcMeta data context

theorem clientWorld_free (hin : InvokesAtMostOnce code.inbound) :
    (clientWorld code : World (Host queue D H T U) _ _ _).Free (unitBudget q) 0 := by
  refine (accounts_unitBudget q).clientWorld code (fun _ _ => hin) (fun _ hb => hb) ?_ ?_
  · intro h h' hclient hs
    show h'.client.Consistent
    rw [hclient]
    exact hs
  · intro h h' hclient
    show h'.client.unit q = h.client.unit q
    rw [hclient]

end affords

theorem worth_fresh (q : UInt64) (clock : Int64) (user : U) :
    (⟨Host.fresh clock user, []⟩ : Pool (Host queue D H T U) (ClientEvent Msg) Empty
      (Except Exn Unit)).Worth (unitBudget q) 0 1 :=
  ⟨.fresh, 0, (Nat.zero_add _).trans_le (BaseClient.unit_fresh q).le, trivial⟩

/-- At-most-once completion, in every run of a client that starts fresh: no sequence id sees more
than one of its callbacks run, and no response and no timer runs a callback of another call. -/
theorem at_most_once_completion (code : ClientCode D H T Msg Ctx U)
    (hin : InvokesAtMostOnce code.inbound) {clock : Int64} {user : U}
    {es : List (ClientEvent Msg)} {b : Pool (Host queue D H T U) (ClientEvent Msg) Empty (Except Exn Unit)}
    (hrun : Pool.Run (clientWorld code) ⟨Host.fresh clock user, []⟩ es b) :
    (∀ q, (es.filter fun e => e.runs = some q).length ≤ 1) ∧ ∀ e ∈ es, e.Matched := by
  constructor
  · intro q
    -- every completion of `q` costs the one unit that its id was worth
    have hcost : ∀ e : ClientEvent Msg, decide (e.runs = some q) →
        1 ≤ (unitBudget q : Budget (Host queue D H T U) _).cost e := by
      intro e he
      simp [unitBudget, of_decide_eq_true he]
    simpa using hrun.mul_length_filter_le (clientWorld_free code hin) (worth_fresh q clock user) _ 1 hcost
  · intro e he
    by_contra hne
    -- one that is not of its own owner would cost two
    have hcost : ∀ e : ClientEvent Msg, decide (¬ e.Matched) →
        2 ≤ (unitBudget 0 : Budget (Host queue D H T U) _).cost e := by
      intro e he
      simp [unitBudget, of_decide_eq_true he]
    have hle := hrun.mul_length_filter_le (clientWorld_free code hin) (worth_fresh 0 clock user) _ 2 hcost
    have hmem : e ∈ es.filter fun e => decide (¬ e.Matched) :=
      List.mem_filter.mpr ⟨he, decide_eq_true hne⟩
    have hpos := List.length_pos_of_mem hmem
    omega

/-! A client whose one call is answered. -/

def plainCode : ClientCode Unit Unit Unit Unit Unit Unit where
  codec :=
    { parseFromArray := fun _ _ _ => some ()
      jsonStringToMessage := fun _ _ => .ok ()
      serializeAsString := fun _ => []
      typeName := fun _ => "" }
  inbound args := .ask args .ret
  outbound args := .ask args .ret
  emptyContext := ()
  handle _ _ _ := .ret (.ok ())
  timeout _ := .ret (.ok ())

def plainCall : CallRequest Unit Unit Unit Unit := ⟨(), 1, 2, (), some (), none⟩

def plainResponse : RpcMeta := { type := .response, response := some {} }

abbrev PlainHost : Type := Host (.sorted WaitResponseTimer.le) Unit Unit Unit Unit

theorem at_most_once_completion_example :
    ∃ es b, Pool.Run (clientWorld plainCode) ⟨(Host.fresh 0 () : PlainHost), []⟩ es b ∧
      es = [.request (makeRequestRpcMeta 0 1 2 .binary true) (), .handle 0 0 () none] ∧
      (∀ q, (es.filter fun e => e.runs = some q).length ≤ 1) ∧ ∀ e ∈ es, e.Matched := by
  have hb : ∀ h : PlainHost, h.client.mSequenceID = 1 → (clientWorld plainCode).bound h := by
    intro h h1
    show h.client.mSequenceID < 2 ^ 64
    rw [h1]
    decide
  have hin : InvokesAtMostOnce plainCode.inbound := fun _ => ⟨0, Nat.le_refl _, fun _ => trivial⟩
  have h1 : Pool.Run (clientWorld plainCode) ⟨(Host.fresh 0 () : PlainHost), []⟩ []
      ⟨_, [call plainCode plainCall]⟩ := .single (.spawn [] (.call plainCall))
  have h2 := h1.tail (.act [] [] rfl (hb _ rfl))
  have h3 := h2.tail (.act [] [] rfl (hb _ rfl))
  have h4 := h3.tail (.emit [] [] _ (hb _ rfl))
  have h5 := h4.tail (.spawn _ (.processRpcResponse plainResponse ⟨[], 0, 0⟩ ()))
  have h6 := h5.tail (.act [] _ rfl (hb _ rfl))
  have h7 := h6.tail (.emit [] _ _ (hb _ rfl))
  exact ⟨_, _, h7, rfl, at_most_once_completion plainCode hin h7⟩

end GayRpc
