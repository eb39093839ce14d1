import GayRpc.Core.Interceptor
import GayRpc.Lib.Asking

/-!
# Chains as nested continuations

`nested xs handler` is what a chain is meant to be: the first interceptor is called, with the rest of the
chain as its continuation. `makeInterceptor` builds its chain of closures that give their continuation
away when they are called. As long as no interceptor calls its continuation twice, nobody can tell
(`makeInterceptor_nests`).

The interceptors are arbitrary programs: they show what they like, start threads, come back before their
continuation has been called or without calling it. All that is asked is `CallsOnce`, and it is asked of
each thread, since an interceptor may hand a copy of its continuation to another thread before it calls
its own.

What the closures keep is a cell with a `true` in it until the first call. An interceptor that calls once
finds it as it was (`wrapper_run`), and the induction is on the chain from there. "Nobody can tell" is
`Alike`: the same program but for how threads end that nobody waits for, hence the same runs, also among
other messages that are on their way through the same chain.
-/

namespace GayRpc

open Prog Pool

variable {σ E Msg Ctx : Type}

/-- `x₁(.., x₂(.., ... xₙ(.., handler)))`. -/
def nested (xs : List (UnaryServerInterceptor σ E Msg Ctx)) (handler : UnaryHandler σ E Msg Ctx) :
    UnaryHandler σ E Msg Ctx :=
  xs.foldr UnaryServerInterceptor.call handler

/-- The interceptor calls the continuation it is given once at most, at once or later; where it hands
out copies to other threads, each of them calls its own once at most. -/
def CallsOnce (x : UnaryServerInterceptor σ E Msg Ctx) : Prop := ∀ args, AsksAtMost 1 (x args)

/-- A world in which messages may come to the handler at any time, whatever their senders do then. -/
def receiving {R : Type} (W : World σ E Empty R) (handler : UnaryHandler σ E Msg Ctx)
    (sender : Reply → Prog σ E Empty Empty R) : World σ E Empty R :=
  { W with spawn := fun p => W.spawn p ∨ ∃ args, p = (handler args).bind sender }

section nests

variable {xs ys : List (UnaryServerInterceptor σ E Msg Ctx)} {handler : UnaryHandler σ E Msg Ctx}

/-- The rest of a chain is called by an interceptor that has not called it before, so it finds `next` as
the interceptor did. -/
theorem wrapper_run {x : UnaryServerInterceptor σ E Msg Ctx} (hx : CallsOnce x)
    (c : Combination σ E Msg Ctx) {full : Bool} (args : Args Msg Ctx) :
    (Combination.wrapper x c).run full args = (x args).plug (fun _ => c.run full) id () :=
  (hx args).plug_once full

theorem foldr_callsOnce (hxs : ∀ x ∈ xs, CallsOnce x) {c : Combination σ E Msg Ctx}
    (hc : CallsOnce (c.run true)) : CallsOnce ((xs.foldr Combination.wrapper c).run true) := by
  intro args
  induction xs generalizing args with
  | nil => exact hc args
  | cons x xs ih =>
      obtain ⟨hx, hxs⟩ := List.forall_mem_cons.mp hxs
      show AsksAtMost 1 ((Combination.wrapper x (xs.foldr Combination.wrapper c)).run true args)
      rw [wrapper_run hx]
      exact (hx args).plug fun _ => ih hxs

/-- A chain of interceptors that call their continuation once at most is one itself. -/
theorem makeInterceptor_callsOnce (hxs : ∀ x ∈ xs, CallsOnce x) : CallsOnce (makeInterceptor xs) :=
  foldr_callsOnce hxs fun _ _ => trivial

/-- Interceptors in front of a combination are a chain with the combination at the end. -/
theorem foldr_run_alike (hxs : ∀ x ∈ xs, CallsOnce x) (c : Combination σ E Msg Ctx)
    (args : Args Msg Ctx) :
    ((xs.foldr Combination.wrapper c).run true args).Alike
      ((makeInterceptor xs args).plug (fun _ => c.run true) id ()) := by
  induction xs generalizing args with
  | nil => exact Alike.bind_ret.symm
  | cons x xs ih =>
      obtain ⟨hx, hxs⟩ := List.forall_mem_cons.mp hxs
      have hleft : ((x :: xs).foldr Combination.wrapper c).run true args =
          (x args).plug (fun _ => (xs.foldr Combination.wrapper c).run true) id () := wrapper_run hx _ args
      have hright : makeInterceptor (x :: xs) args =
          (x args).plug (fun _ => makeInterceptor xs) id () := wrapper_run hx _ args
      rw [hleft, hright, plug_plug]
      exact .of_eq (Alike.answer (fun args => ih hxs args) (x args))

/-- A chain, with the handler at its end, is the nested one. -/
theorem call_alike_nested (hxs : ∀ x ∈ xs, CallsOnce x) (handler : UnaryHandler σ E Msg Ctx)
    (args : Args Msg Ctx) :
    ((makeInterceptor xs).call handler args).Alike (nested xs handler args) := by
  induction xs generalizing args with
  | nil => exact Alike.bind_ret
  | cons x xs ih =>
      obtain ⟨hx, hxs⟩ := List.forall_mem_cons.mp hxs
      have hchain : makeInterceptor (x :: xs) args =
          (x args).plug (fun _ => makeInterceptor xs) id () := wrapper_run hx _ args
      show ((makeInterceptor (x :: xs) args).plug (fun _ => handler) id ()).Alike _
      rw [hchain, plug_plug]
      exact .of_eq (Alike.answer (fun args => ih hxs args) (x args))

/-- A chain of one interceptor is that interceptor, however often it calls its continuation. -/
theorem makeInterceptor_singleton (x : UnaryServerInterceptor σ E Msg Ctx) (args : Args Msg Ctx) :
    makeInterceptor [x] args = x args := by
  have hcell : ∀ p : Prog σ E (Args Msg Ctx) Reply Reply,
      p.plug Combination.direct.run (fun full => full && !false) true = p := by
    intro p
    induction p with
    | ret r => rfl
    | halt => rfl
    | ask q k ih => exact ask_congr fun a => ih a
    | act f k ih => exact act_congr fun s => ih s
    | emit e k ih => exact congrArg (emit e) ih
    | fork p k ihp ihk => exact congrArg₂ fork ihp ihk
  exact hcell (x args)

/-- Chains within a chain are one chain. -/
theorem makeInterceptor_flatten {xss : List (List (UnaryServerInterceptor σ E Msg Ctx))}
    (hxss : ∀ xs ∈ xss, ∀ x ∈ xs, CallsOnce x) (args : Args Msg Ctx) :
    (makeInterceptor xss.flatten args).Alike (makeInterceptor (xss.map makeInterceptor) args) := by
  induction xss generalizing args with
  | nil => exact .refl
  | cons xs xss ih =>
      obtain ⟨hxs, hxss⟩ := List.forall_mem_cons.mp hxss
      have hright : makeInterceptor ((xs :: xss).map makeInterceptor) args =
          (makeInterceptor xs args).plug (fun _ => makeInterceptor (xss.map makeInterceptor)) id () :=
        wrapper_run (makeInterceptor_callsOnce hxs) _ args
      have hleft : makeInterceptor (xs :: xss).flatten args =
          (xs.foldr Combination.wrapper (xss.flatten.foldr Combination.wrapper .direct)).run true args := by
        rw [List.flatten_cons]
        exact congrArg (Combination.run · true args) List.foldr_append
      rw [hleft, hright, ← Alike.answer (fun args => ih hxss args) (makeInterceptor xs args)]
      exact foldr_run_alike hxs _ args

end nests

/-- A chain of interceptors that call their continuation once at most behaves as nested continuations.
To whoever waits for its reply, each message passes through the right fold of the interceptors; behind one
that does not ask for it, nothing is run; messages that overlap do not see each other in the chain; the
empty chain adds nothing; and a chain may be put together of chains. -/
theorem makeInterceptor_nests (xs : List (UnaryServerInterceptor σ E Msg Ctx))
    (hxs : ∀ x ∈ xs, CallsOnce x) (handler : UnaryHandler σ E Msg Ctx) :
    (∀ args, ((makeInterceptor xs).call handler args).Alike (nested xs handler args)) ∧
    (∀ front x rest, xs = front ++ x :: rest →
      nested xs handler = nested front (nested (x :: rest) handler) ∧
      ∀ args, (x args).AsksAtMost 0 → ∀ rest' handler',
        nested (x :: rest) handler args = nested (x :: rest') handler' args) ∧
    (∀ (R : Type) (sender : Reply → Prog σ E Empty Empty R) (W : World σ E Empty R) a es b,
      Run (receiving W ((makeInterceptor xs).call handler) sender) a es b ↔
        Run (receiving W (nested xs handler) sender) a es b) ∧
    (∀ args, ((makeInterceptor []).call handler args).Alike (handler args)) ∧
    (∀ ys, (∀ y ∈ ys, CallsOnce y) → ∀ args, (makeInterceptor (xs ++ ys) args).Alike
      (makeInterceptor [makeInterceptor xs, makeInterceptor ys] args)) := by
  have hnested := call_alike_nested hxs handler
  refine ⟨hnested, ?_, ?_, fun args => Alike.bind_ret, ?_⟩
  · rintro front x rest rfl
    refine ⟨List.foldr_append, fun args hargs rest' handler' => ?_⟩
    exact hargs.plug_eq () ()
  · intro R sender W a es b
    have hworld : receiving W ((makeInterceptor xs).call handler) sender =
        receiving W (nested xs handler) sender := by
      have hsame : ∀ args, ((makeInterceptor xs).call handler args).bind sender =
          (nested xs handler args).bind sender := fun args => (hnested args).bind sender
      simp only [receiving, hsame]
    rw [hworld]
  · intro ys hys args
    have hall : ∀ zs ∈ [xs, ys], ∀ z ∈ zs, CallsOnce z := by simpa using ⟨hxs, hys⟩
    simpa using makeInterceptor_flatten hall args

def resumeLater : UnaryServerInterceptor Unit Unit Unit Unit := fun args =>
  .fork (.ask args fun _ => .halt) (.ret { result := .ok (.ready (.value none)), rpcMeta := {} })

def showItself : UnaryServerInterceptor Unit Unit Unit Unit := fun args => .emit () (.ask args .ret)

theorem makeInterceptor_nests_example :
    (∀ x ∈ [resumeLater, showItself], CallsOnce x) ∧
      ∀ args, ((makeInterceptor [resumeLater, showItself]).call emptyHandler args).Alike
        (nested [resumeLater, showItself] emptyHandler args) := by
  have hxs : ∀ x ∈ [resumeLater, showItself], CallsOnce x := by
    simp only [List.forall_mem_cons]
    exact ⟨fun _ => ⟨fun _ => trivial, trivial⟩, fun _ _ => trivial, by simp⟩
  exact ⟨hxs, (makeInterceptor_nests _ hxs emptyHandler).1⟩

end GayRpc
