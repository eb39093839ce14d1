import GayRpc.Client.Expiry
import GayRpc.Client.Owner

/-!
# `SyncXxx`

The methods `SyncXxx` of a generated client make a timed call, whose two lambdas share a promise. What the
lambdas are called with is what a run shows, so the future of a call can be read off the events
(`future`). On its way to whoever waits for it, the error of a result is copied a number of times, and
`RpcError` loses its timeout flag in every copy: a future reports what has completed it, just when that was
a response (`reported_iff`).

A run shows each event with its origin here, that is with the response or the sweep that has brought it
about, so that what the future yields can be compared with what has really happened (`Reported`). The first
of the two lambdas that is called sets the promise; a second call of `setValue` would throw, and never comes
(`future_eq`). The rest is arithmetic on copies: the first one forgets the flag, and further ones change
nothing (`SyncResult.move_ofResponse`).
-/

namespace GayRpc

variable {queue : PriorityQueue WaitResponseTimer WaitResponseTimer.le} {D H T Msg Ctx U : Type}

/-! ## Promises -/

/-- What a future of `SyncXxx` yields. -/
structure SyncResult (Msg : Type) where
  response : Msg
  error : Option RpcError
  deriving DecidableEq

namespace SyncResult

/-- The value that the handle sets: `std::make_pair(response, error)`, which copies both. -/
def ofResponse (response : Msg) (error : Option RpcError) : SyncResult Msg :=
  { response := response, error := error.map RpcError.copy }

/-- The value that the timeout callback sets, with a `response` that nobody has filled in. The error is
copied into the optional, and with the optional into the pair. -/
def ofTimeout (response : Msg) : SyncResult Msg :=
  let error : RpcError := RpcError.setTimeout {}
  { response := response, error := (some error.copy).map RpcError.copy }

/-- A result is moved together with its error, of which that makes a copy. -/
def move (result : SyncResult Msg) : SyncResult Msg :=
  { result with error := result.error.map RpcError.copy }

end SyncResult

/-- `folly::Promise`, and the future that was taken from it. -/
structure Promise (Msg : Type) where
  value : Option (SyncResult Msg) := none

namespace Promise

def setValue (result : SyncResult Msg) (p : Promise Msg) : Except Exn (Promise Msg) :=
  match p.value with
  | none => .ok { value := some result.move }
  | some _ => .error (.standard "Promise already satisfied")

/-- What an event does to the promise of the `SyncXxx` that has the id `q`. An exception leaves the promise
as it is. -/
def after (response : Msg) (q : UInt64) (p : Promise Msg) : ClientEvent Msg → Promise Msg
  | .request _ _ => p
  | .handle _ owner message error =>
    if owner = q then ((p.setValue (.ofResponse message error)).toOption).getD p else p
  | .timeout _ owner =>
    if owner = q then ((p.setValue (.ofTimeout response)).toOption).getD p else p

end Promise

/-- What the future of the `SyncXxx` with the id `q` yields when the events have been shown. Between the
promise and its consumer, the result is moved `moves` times. -/
def future (response : Msg) (moves : ℕ) (q : UInt64) (es : List (ClientEvent Msg)) :
    Option (SyncResult Msg) :=
  (es.foldl (Promise.after response q) {}).value.map SyncResult.move^[moves]

/-- The call that `SyncXxx` makes, with the names of its two lambdas. -/
def syncXxx (request : Msg) (serviceID : UInt32) (msgID : UInt64) (response : D) (timeout : Int64)
    (handle : H) (timeoutCallback : T) : CallRequest D H T Msg :=
  { request := request, serviceID := serviceID, msgID := msgID, response := response
    handle := some handle, timed := some (timeout, some timeoutCallback) }

/-! ## What completes a call -/

inductive Origin where
  | call
  | response (rpcMeta : RpcMeta)
  | checkTimeout

/-- A program of the client, which shows where its events come from. -/
def tagged (origin : Origin) (p : ClientProg queue D H T Msg U) :
    Prog (Host queue D H T U) (Origin × ClientEvent Msg) Empty Empty (Except Exn Unit) :=
  p.within some (fun _ h => h) (Prod.mk origin)

/-- The operations of `clientWorld`, each with its origin. -/
inductive SyncOperation (code : ClientCode D H T Msg Ctx U) :
    Prog (Host queue D H T U) (Origin × ClientEvent Msg) Empty Empty (Except Exn Unit) → Prop where
  | call (r : CallRequest D H T Msg) : SyncOperation code (tagged .call (call code r))
  | processRpcResponse (rpcMeta : RpcMeta) (data : StringView) (context : Ctx) :
      SyncOperation code (tagged (.response rpcMeta) (processRpcResponse code rpcMeta data context))
  | checkTimeout : SyncOperation code (tagged .checkTimeout (checkTimeout code))

def syncWorld (code : ClientCode D H T Msg Ctx U) :
    World (Host queue D H T U) (Origin × ClientEvent Msg) Empty (Except Exn Unit) where
  env h h' := h'.client = h.client ∧ h.clock ≤ h'.clock
  spawn := SyncOperation code
  bound h := h.client.mSequenceID < 2 ^ 64

/-- A handle is called for a response to its own call, with the error that this response reports; a timeout
callback is called for its own call. -/
def Origin.Fits : Origin → ClientEvent Msg → Prop
  | _, .request _ _ => True
  | .response rpcMeta, .handle received owner _ error =>
    received = rpcMeta.responseInfo.sequenceId ∧ owner = rpcMeta.responseInfo.sequenceId ∧
      error = rpcMeta.error
  | _, .handle _ _ _ _ => False
  | _, .timeout received owner => owner = received

open Prog

section fits

variable (code : ClientCode D H T Msg Ctx U) {origin : Origin}

/-- The requests of calls do not matter here. -/
theorem callSections_fits : CallSections (Host.Consistent : Host queue D H T U → Prop)
    (fun _ h' => h'.Consistent) (origin.Fits : ClientEvent Msg → Prop) := by
  apply callSections_consistent
  intro rpcMeta message
  cases origin <;> trivial

theorem fits_timeout {q : UInt64} {t : TimeoutCallback T} (ht : t.owner = q) :
    origin.Fits (.timeout q t.owner : ClientEvent Msg) := by
  cases origin <;> exact ht

theorem fits_processRpcResponse (rpcMeta : RpcMeta) (data : StringView) (context : Ctx) :
    (processRpcResponse code rpcMeta data context : ClientProg queue D H T Msg U).Keeps Host.Consistent
      (Origin.response rpcMeta).Fits := by
  apply callSections_fits.processRpcResponse
  · intro h hs
    exact BaseClient.Consistent.forget hs _
  · intro h t hs ht
    exact fits_timeout (hs.timeout_owner ht)
  · intro h stub hs hstub message
    exact ⟨rfl, hs.stub_owner hstub, rfl⟩

theorem fits_checkTimeout : (checkTimeout code : ClientProg queue D H T Msg U).Keeps Host.Consistent
    origin.Fits := by
  apply callSections_fits.checkTimeout
  · intro h now hs
    exact (BaseClient.Consistent.rounds hs (h.client.expire_rounds now)).1
  · intro h now hs p hp
    exact fits_timeout ((BaseClient.Consistent.rounds hs (h.client.expire_rounds now)).2 p hp)

theorem fits_tagged {p : ClientProg queue D H T Msg U} (hp : p.Keeps Host.Consistent origin.Fits) :
    (tagged origin p).Keeps Host.Consistent fun e => e.1.Fits e.2 := by
  apply Guarantees.within hp
  · rintro h t hs ht
    cases ht
    exact hs
  · intro h t t' _ _ ht'
    exact ht'
  · intro e he
    exact he

variable {clock : Int64} {user : U} {es : List (Origin × ClientEvent Msg)}
  {b : Pool (Host queue D H T U) (Origin × ClientEvent Msg) Empty (Except Exn Unit)}

/-- In every run of a client, each event fits its origin. -/
theorem run_fits (hrun : Pool.Run (syncWorld code) ⟨Host.fresh clock user, []⟩ es b) :
    ∀ e ∈ es, e.1.Fits e.2 := by
  have hworld : (syncWorld code : World (Host queue D H T U) _ _ _).Preserves Host.Consistent
      fun e => e.1.Fits e.2 := by
    constructor
    · intro h h' henv hs
      show h'.client.Consistent
      rw [henv.1]
      exact hs
    · intro p hp
      cases hp with
      | call r => exact fits_tagged (callSections_fits.call r)
      | processRpcResponse rpcMeta data context =>
          exact fits_tagged (fits_processRpcResponse code rpcMeta data context)
      | checkTimeout => exact fits_tagged (fits_checkTimeout code)
  exact (hrun.guaranteed hworld ⟨.fresh, by simp⟩).2

end fits

/-! ## What a future yields -/

section future

variable {response : Msg} {q : UInt64} {p : Promise Msg} {e : ClientEvent Msg}
  {es : List (ClientEvent Msg)}

/-- The value that the lambda sets for which the event stands. -/
def SyncResult.ofEvent (response : Msg) : ClientEvent Msg → Option (SyncResult Msg)
  | .request _ _ => none
  | .handle _ _ message error => some (.ofResponse message error)
  | .timeout _ _ => some (.ofTimeout response)

/-- What has been copied once does not change any more. -/
@[simp] theorem SyncResult.move_ofResponse (message : Msg) (error : Option RpcError) :
    (SyncResult.ofResponse message error).move = .ofResponse message error := by
  simp [ofResponse, move, Function.comp_def]

@[simp] theorem SyncResult.move_ofTimeout (message : Msg) :
    (SyncResult.ofTimeout message).move = .ofTimeout message := rfl

theorem SyncResult.move_ofEvent {v : SyncResult Msg} (hv : SyncResult.ofEvent response e = some v) :
    v.move = v := by
  cases e with
  | request rpcMeta message => cases hv
  | handle received owner message error =>
      cases hv
      exact move_ofResponse message error
  | timeout received owner =>
      cases hv
      exact move_ofTimeout response

theorem Promise.after_satisfied {v : SyncResult Msg} (hp : p.value = some v) : p.after response q e = p := by
  cases e with
  | request rpcMeta message => rfl
  | handle received owner message error =>
      simp [after, setValue, hp, Except.toOption]
  | timeout received owner =>
      simp [after, setValue, hp, Except.toOption]

theorem Promise.after_other (he : e.runs ≠ some q) : p.after response q e = p := by
  cases e with
  | request rpcMeta message => rfl
  | handle received owner message error => exact if_neg fun h => he (congrArg some h)
  | timeout received owner => exact if_neg fun h => he (congrArg some h)

/-- The first of the two lambdas satisfies the promise. -/
theorem Promise.after_own (hp : p.value = none) (he : e.runs = some q) :
    (p.after response q e).value = SyncResult.ofEvent response e := by
  cases e with
  | request rpcMeta message => cases he
  | handle received owner message error =>
      cases he
      simp [after, setValue, hp, Except.toOption, SyncResult.ofEvent]
  | timeout received owner =>
      cases he
      simp [after, setValue, hp, Except.toOption, SyncResult.ofEvent]

theorem Promise.foldl_satisfied {v : SyncResult Msg} (hp : p.value = some v) :
    es.foldl (Promise.after response q) p = p := by
  induction es with
  | nil => rfl
  | cons e es ih =>
      rw [List.foldl_cons, after_satisfied hp]
      exact ih

/-- A future yields what the first callback of its call has set, however often it is moved. -/
theorem future_eq (moves : ℕ) : future response moves q es =
    (es.find? fun e => e.runs = some q).bind (SyncResult.ofEvent response) := by
  -- the first event that runs `q` satisfies the promise, and later ones find it satisfied
  have hvalue : ∀ p : Promise Msg, p.value = none → (es.foldl (Promise.after response q) p).value =
      (es.find? fun e => e.runs = some q).bind (SyncResult.ofEvent response) := by
    intro p hp
    induction es generalizing p with
    | nil => exact hp
    | cons e es ih =>
        rw [List.foldl_cons, List.find?_cons]
        by_cases he : e.runs = some q
        · -- the promise is empty until then, so the event of `q` fills it
          have hown : (p.after response q e).value = SyncResult.ofEvent response e :=
            Promise.after_own hp he
          obtain ⟨v, hv⟩ : ∃ v, SyncResult.ofEvent response e = some v := by
            cases e with
            | request rpcMeta message => cases he
            | handle received owner message error => exact ⟨_, rfl⟩
            | timeout received owner => exact ⟨_, rfl⟩
          rw [Promise.foldl_satisfied (hown.trans hv), hown]
          simp [he]
        · rw [Promise.after_other he]
          simp only [he, decide_false]
          exact ih p hp
  rw [future, hvalue {} rfl]
  cases hfind : es.find? fun e => e.runs = some q with
  | none => rfl
  | some e =>
      show (SyncResult.ofEvent response e).map _ = SyncResult.ofEvent response e
      cases hv : SyncResult.ofEvent response e with
      | none => rfl
      | some v => exact congrArg some (Function.iterate_fixed (SyncResult.move_ofEvent hv) moves)

end future

/-- The result reports what has completed the call `q`: a timeout, or a response to it with its error. -/
structure Reported (q : UInt64) (origin : Origin) (e : ClientEvent Msg) (result : SyncResult Msg) : Prop where
  timeout : result.error.any RpcError.mTimeout = e.isTimeout
  response : e.isTimeout = false → ∃ rpcMeta, origin = .response rpcMeta ∧
    rpcMeta.responseInfo.sequenceId = q ∧ result.error.isSome = rpcMeta.responseInfo.failed ∧
      ∀ error ∈ result.error, error.mErrorCode = rpcMeta.responseInfo.errorCode ∧
        error.mReason = rpcMeta.responseInfo.reason

section reported

variable (code : ClientCode D H T Msg Ctx U) {clock : Int64} {user : U}
  {es : List (Origin × ClientEvent Msg)}
  {b : Pool (Host queue D H T U) (Origin × ClientEvent Msg) Empty (Except Exn Unit)}

/-- A result that a response has set reports this response. -/
theorem reported_ofResponse {q : UInt64} {origin : Origin} {received owner : UInt64} {message : Msg}
    {error : Option RpcError} (howner : owner = q)
    (hfits : origin.Fits (.handle received owner message error)) :
    Reported q origin (.handle received owner message error) (.ofResponse message error) := by
  cases origin with
  | call => exact hfits.elim
  | checkTimeout => exact hfits.elim
  | response rpcMeta =>
      obtain ⟨-, hid, rfl⟩ := hfits
      have hid := hid.symm.trans howner
      cases hfailed : rpcMeta.responseInfo.failed with
      | true =>
          have herror : rpcMeta.error =
              some (.ofCode rpcMeta.responseInfo.errorCode rpcMeta.responseInfo.reason) := by
            rw [RpcMeta.error, if_pos hfailed]
          rw [herror]
          refine ⟨rfl, fun _ => ⟨rpcMeta, rfl, hid, hfailed.symm, ?_⟩⟩
          rintro error ⟨⟩
          exact ⟨rfl, rfl⟩
      | false =>
          have herror : rpcMeta.error = none := by
            rw [RpcMeta.error, hfailed]
            rfl
          rw [herror]
          refine ⟨rfl, fun _ => ⟨rpcMeta, rfl, hid, hfailed.symm, ?_⟩⟩
          rintro error ⟨⟩

/-- In every run of a client, whatever a future of `SyncXxx` yields, it comes from the first callback of its
call that has run; and it reports this as it was, just when it was not the timeout callback. -/
theorem reported_iff (hrun : Pool.Run (syncWorld code) ⟨Host.fresh clock user, []⟩ es b) (response : Msg)
    (moves : ℕ) (q : UInt64) (result : SyncResult Msg)
    (hresult : future response moves q (es.map Prod.snd) = some result) :
    ∃ origin e, es.find? (fun e => e.2.runs = some q) = some (origin, e) ∧
      (Reported q origin e result ↔ e.isTimeout = false) := by
  rw [future_eq, List.find?_map] at hresult
  obtain ⟨e, hfind, hvalue⟩ := Option.bind_eq_some_iff.mp hresult
  obtain ⟨⟨origin, e⟩, hfirst, rfl⟩ := Option.map_eq_some_iff.mp hfind
  have hruns : e.runs = some q := by simpa using List.find?_some hfirst
  have hfits := run_fits code hrun _ (List.mem_of_find?_eq_some hfirst)
  refine ⟨origin, e, hfirst, ?_⟩
  cases e with
  | request rpcMeta message => cases hruns
  | handle received owner message error =>
      cases hvalue
      exact iff_of_true (reported_ofResponse (Option.some.inj hruns) hfits) rfl
  | timeout received owner =>
      cases hvalue
      apply iff_of_false
      · -- the flag is gone
        rintro ⟨hflag, -⟩
        simp [SyncResult.ofTimeout, ClientEvent.isTimeout] at hflag
      · rintro ⟨⟩

end reported

/-! A `SyncXxx` with a timeout of ten seconds. -/

def plainSyncCall : CallRequest Unit Unit Unit Unit := syncXxx () 1 2 () 10 () ()

theorem syncWorld_bound {h : PlainHost} (h1 : h.client.mSequenceID = 1) : (syncWorld plainCode).bound h := by
  show h.client.mSequenceID < 2 ^ 64
  rw [h1]
  decide

theorem plainSyncCall_waits : ∃ ts, Pool.Run (syncWorld plainCode) ⟨(Host.fresh 0 () : PlainHost), []⟩ []
    ⟨⟨waitingClient, 0, ()⟩, ts⟩ := by
  have h1 : Pool.Run (syncWorld plainCode) ⟨(Host.fresh 0 () : PlainHost), []⟩ []
      ⟨_, [tagged .call (call plainCode plainSyncCall)]⟩ := .single (.spawn [] (.call plainSyncCall))
  have h2 := h1.tail (.act [] [] rfl (syncWorld_bound rfl))
  have h3 := h2.tail (.act [] [] rfl (syncWorld_bound rfl))
  have h4 := h3.tail (.act [] [] rfl (syncWorld_bound rfl))
  exact ⟨_, h4⟩

def failedResponse : RpcMeta :=
  { type := .response, response := some { failed := true, errorCode := 7, reason := "no" } }

theorem reported_iff_example :
    ∃ es b, Pool.Run (syncWorld plainCode) ⟨(Host.fresh 0 () : PlainHost), []⟩ es b ∧
      future () 3 0 (es.map Prod.snd) = some ⟨(), some { mErrorCode := 7, mReason := "no" }⟩ ∧
      ∃ origin e, es.find? (fun e => e.2.runs = some 0) = some (origin, e) ∧
        Reported 0 origin e ⟨(), some { mErrorCode := 7, mReason := "no" }⟩ := by
  obtain ⟨ts, h1⟩ := plainSyncCall_waits
  have h2 := h1.tail (.spawn _ (.processRpcResponse failedResponse ⟨[], 0, 0⟩ ()))
  have h3 := h2.tail (.act [] _ rfl (syncWorld_bound rfl))
  have h4 := h3.tail (.emit [] _ _ (syncWorld_bound rfl))
  refine ⟨_, _, h4, rfl, ?_⟩
  obtain ⟨origin, e, hfirst, hiff⟩ := reported_iff plainCode h4 () 3 0 _ rfl
  refine ⟨origin, e, hfirst, hiff.mpr ?_⟩
  cases hfirst
  rfl

/-- Nobody answers it, and its future yields an error that says nothing of a timeout. -/
theorem timedOut_unreported :
    ∃ es b, Pool.Run (syncWorld plainCode) ⟨(Host.fresh 0 () : PlainHost), []⟩ es b ∧
      future () 3 0 (es.map Prod.snd) = some ⟨(), some { mErrorCode := 0, mReason := "" }⟩ ∧
      es.find? (fun e => e.2.runs = some 0) = some (.checkTimeout, .timeout 0 0) ∧
      ¬ Reported 0 .checkTimeout (.timeout 0 0)
        (⟨(), some { mErrorCode := 0, mReason := "" }⟩ : SyncResult Unit) := by
  obtain ⟨ts, h1⟩ := plainSyncCall_waits
  have henv : (syncWorld plainCode).env ⟨waitingClient, 0, ()⟩ ⟨waitingClient, 10000000000, ()⟩ :=
    ⟨rfl, by decide⟩
  have h2 := h1.tail (.env _ henv (syncWorld_bound rfl))
  have h3 := h2.tail (.spawn _ .checkTimeout)
  have h4 := h3.tail (.act [] _ rfl (syncWorld_bound rfl))
  have h5 := h4.tail (.act [] _ rfl (syncWorld_bound rfl))
  have h6 := h5.tail (.emit [] _ _ (syncWorld_bound rfl))
  refine ⟨_, _, h6, rfl, rfl, ?_⟩
  rintro ⟨hflag, -⟩
  cases hflag

end GayRpc
