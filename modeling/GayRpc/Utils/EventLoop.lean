import GayRpc.Core.Reply
import GayRpc.Lib.Budget
import GayRpc.Lib.Duty
import GayRpc.Lib.Ledger

/-!
# Handing a message over to the thread of an event loop

`withEventLoop` of `UtilsInterceptor.h`. On the thread of the loop the continuation is called at once.
On another thread a functor is queued that has captured the arguments, a copy of the message and a
promise, and the caller gets the future of the promise. The functor passes on what the continuation comes
back with by `thenValue`, so it passes on values only: an exception, thrown or in the future, leaves the
promise to be destroyed without having been fulfilled.

The loop keeps the functors in the order in which they were given, and takes one after the other. Promises
are kept by number, with the outcome they have, if any; a promise that is destroyed before it was fulfilled
has the outcome that folly documents, `BrokenPromise`. Whether the loop outlives a functor that throws is
up to brynet, and is a parameter.

The message is copied with `New` and `CopyFrom`. That the copy equals the message is asked of it where it
is needed.
-/

namespace GayRpc

/-- How a message is copied: by `New`, which makes an empty message of the same class, and `CopyFrom`. -/
structure MessageCopy (Msg : Type) where
  new : Msg → Msg
  copyFrom : Msg → Msg → Msg
  copyFrom_new : ∀ message, copyFrom (new message) message = message

/-- What the functor of `withEventLoop` has captured. `owner` tells which call made it, and stands for
the continuation `next` of that call. -/
structure LoopFunctor (ι Msg Ctx : Type) where
  owner : ι
  args : Args Msg Ctx
  promise : ℕ

/-- An event loop: all functors it was given, in order, how many of them it has taken, and whether it is
running one; and the promises around it. -/
structure FunctorLoop (ι Msg Ctx U : Type) where
  promises : Promises U
  functors : List (LoopFunctor ι Msg Ctx) := []
  begun : ℕ := 0
  busy : Bool := false

namespace FunctorLoop

variable {ι Msg Ctx U : Type}

def user (s : FunctorLoop ι Msg Ctx U) : U := s.promises.user

def setUser (s : FunctorLoop ι Msg Ctx U) (u : U) : FunctorLoop ι Msg Ctx U :=
  { s with promises := { s.promises with user := u } }

/-- Give the promise an outcome, if it has none. -/
def fulfil (promise : ℕ) (o : Outcome) (s : FunctorLoop ι Msg Ctx U) : FunctorLoop ι Msg Ctx U :=
  { s with
    promises :=
      { s.promises with
        fulfilled := fun p =>
          if p = promise then some ((s.promises.fulfilled p).getD o) else s.promises.fulfilled p } }

/-- `thenValue(promise->setValue)` on a future that has come to its end. With an exception the callback
is not run but destroyed, and the promise with it. -/
def thenValue (brokenPromise : Exn) (promise : ℕ) (o : Outcome) (s : FunctorLoop ι Msg Ctx U) :
    FunctorLoop ι Msg Ctx U :=
  match o with
  | .value err => s.fulfil promise (.value err)
  | .exception _ => s.fulfil promise (.exception brokenPromise)

/-- `runAsyncFunctor`, with a new promise. -/
def runAsyncFunctor (owner : ι) (args : Args Msg Ctx) (s : FunctorLoop ι Msg Ctx U) :
    FunctorLoop ι Msg Ctx U :=
  { s with
    promises := { s.promises with made := s.promises.made + 1 }
    functors := s.functors ++ [{ owner := owner, args := args, promise := s.promises.made }] }

/-- The loop takes the next functor, when it is not running one. -/
def take (s : FunctorLoop ι Msg Ctx U) : Option (FunctorLoop ι Msg Ctx U) :=
  if s.busy ∨ s.functors.length ≤ s.begun then none
  else some { s with begun := s.begun + 1, busy := true }

/-- How a call has come to its end, when it has. -/
def outcome (s : FunctorLoop ι Msg Ctx U) : Except Exn Future → Option Outcome
  | .error e => some (.exception e)
  | .ok (.ready o) => some o
  | .ok (.pending promise) => s.promises.fulfilled promise

end FunctorLoop

section program

variable {ι E Msg Ctx U : Type}

/-- `withEventLoop`, in the call `owner`. What is moved into the functor is gone from the caller. -/
def withEventLoop (copy : MessageCopy Msg) (owner : ι) (isInLoopThread : Bool) :
    UnaryServerInterceptor (FunctorLoop ι Msg Ctx U) E Msg Ctx := fun args =>
  if isInLoopThread then .ask args .ret
  else
    let msg := copy.copyFrom (copy.new args.message) args.message
    .act (fun s => some (s.runAsyncFunctor owner { args with message := msg })) fun s =>
      .ret { result := .ok (.pending s.promises.made), rpcMeta := {} }

/-- What is queued is what there is to forward. -/
theorem withEventLoop_of_other (copy : MessageCopy Msg) (owner : ι) (args : Args Msg Ctx) :
    (withEventLoop copy owner false args : Prog (FunctorLoop ι Msg Ctx U) E _ _ _) =
      .act (fun s => some (s.runAsyncFunctor owner args)) fun s =>
        .ret { result := .ok (.pending s.promises.made), rpcMeta := {} } := by
  unfold withEventLoop
  simp [copy.copyFrom_new]

/-- The functor, once `next` has come back. If it has thrown, that ends the functor before there is a
callback, and with the functor its promise is destroyed. -/
def LoopFunctor.afterNext {Q A : Type} (brokenPromise : Exn) (f : LoopFunctor ι Msg Ctx) (reply : Reply) :
    Prog (FunctorLoop ι Msg Ctx U) E Q A (Except Exn Unit) :=
  match reply.result with
  | .error e =>
    -- the promise is destroyed with the functor
    .act (fun s => some (s.fulfil f.promise (.exception brokenPromise))) fun _ => .ret (.error e)
  | .ok (.ready o) =>
    .act (fun s => some (s.thenValue brokenPromise f.promise o)) fun _ => .ret (.ok ())
  | .ok (.pending promise) =>
    .fork
      -- `thenValue` runs when the promise has been told, on whatever thread does it
      (.act (fun s => (s.promises.fulfilled promise).map fun o =>
        s.thenValue brokenPromise f.promise o) fun _ => .halt)
      (.ret (.ok ()))

def LoopFunctor.run (brokenPromise : Exn) (f : LoopFunctor ι Msg Ctx) :
    Prog (FunctorLoop ι Msg Ctx U) E (Args Msg Ctx) Reply (Except Exn Unit) :=
  .ask f.args (f.afterNext brokenPromise)

/-- One turn of the loop. Whether it goes on after a functor that has thrown is up to the loop. -/
def loopTurn (brokenPromise : Exn) (goesOn : Bool)
    (next : ι → UnaryHandler (FunctorLoop ι Msg Ctx U) E Msg Ctx) :
    Prog (FunctorLoop ι Msg Ctx U) E Empty Empty Unit :=
  .act FunctorLoop.take fun s =>
    match s.functors[s.begun]? with
    | none => .halt
    | some f =>
      ((f.run brokenPromise).plug (fun _ => next f.owner) id ()).bind fun result =>
        -- an exception that leaves a functor ends the loop, unless the loop catches it
        .act (fun s => some { s with busy := !(goesOn || result.isOk) }) fun _ => .ret ()

end program

/-- What is seen of the messages: the call of `next`, what it came back with, and what the call of the
interceptor came back with. -/
inductive LoopEvent (ι Msg Ctx : Type) where
  | forwarded (owner : ι) (args : Args Msg Ctx)
  | came (owner : ι) (result : Except Exn Future)
  | answered (owner : ι) (result : Except Exn Future)

end GayRpc
