import GayRpc.Lib.RunsTo
import GayRpc.Utils.Transparent

/-!
# What the callers of an event loop are told

Any number of messages are sent through `withEventLoop`, some on the thread of the loop and some on
others, while the loop takes one functor after the other. Every one is forwarded once, as it was sent. What
the callers are told of the outcome is another matter: a message that went through the queue has no
exceptions.

Three things are shown of a message in any run in which the loop has taken everything and nobody is at
work:

* it is forwarded and answered at most once, since its functor is queued once and taken once (a budget);
* it is forwarded and answered at all, since a functor that was queued is taken, and its promise is fulfilled
  or destroyed by the end of the turn, or when the future of the continuation comes to its end (a duty);
* what it is answered is what `thenValue` makes of the outcome (the record of `Utils/Transparent`).

So its sender is told of the outcome just when there was nothing for `thenValue` to lose
(`transparent_iff_survives`): the message was sent on the thread of the loop, or its continuation has ended
with a value, or with the very exception that a broken promise ends with.
-/

namespace GayRpc

open Prog Pool

variable {ι Msg Ctx U : Type}

namespace FunctorLoop

variable {s s' : FunctorLoop ι Msg Ctx U}

theorem Elsewhere.begun_le (h : s.Elsewhere s') (hs : s.begun ≤ s.functors.length) :
    s'.begun ≤ s'.functors.length := by
  rw [h.begun, h.functors]
  exact hs

theorem begun_le_runAsyncFunctor (j : ι) (args : Args Msg Ctx) (hs : s.begun ≤ s.functors.length) :
    (s.runAsyncFunctor j args).begun ≤ (s.runAsyncFunctor j args).functors.length := by
  show s.begun ≤ (s.functors ++ _).length
  rw [List.length_append]
  exact Nat.le_add_right_of_le hs

end FunctorLoop

/-! ## Once -/

namespace LoopUse

variable [DecidableEq ι] {use : LoopUse ι Msg Ctx U} {i : ι}

/-- What is shown of `i` is paid for by who sends it: `n` for the continuation, `m` for the answer. While
a functor waits for its turn, it has the `n` units of its owner. -/
structure Charges (i : ι) (n m : ℕ) (cost : LoopEvent ι Msg Ctx → ℕ) : Prop where
  next : ∀ j args r, cost (.forwarded j args) + cost (.came j r) ≤ if j = i then n else 0
  answer : ∀ j r, cost (.answered j r) ≤ if j = i then m else 0

/-- The functors of `i` that the loop has not taken yet. -/
def waiting (i : ι) (s : FunctorLoop ι Msg Ctx U) : ℕ :=
  (s.functors.drop s.begun).countP fun f => f.owner = i

theorem waiting_runAsyncFunctor {s : FunctorLoop ι Msg Ctx U} (j : ι) (args : Args Msg Ctx)
    (hs : s.begun ≤ s.functors.length) :
    waiting i (s.runAsyncFunctor j args) = waiting i s + if j = i then 1 else 0 := by
  show (List.drop s.begun (s.functors ++ _)).countP _ = _
  rw [List.drop_append_of_le_length hs, List.countP_append]
  simp [waiting, List.countP_singleton]

theorem waiting_take {s : FunctorLoop ι Msg Ctx U} {f : LoopFunctor ι Msg Ctx}
    (hdrop : s.functors.drop s.begun = f :: s.functors.drop (s.begun + 1)) :
    (if f.owner = i then 1 else 0) + waiting i { s with begun := s.begun + 1, busy := true } =
      waiting i s := by
  unfold waiting
  rw [hdrop, List.countP_cons]
  simp [Nat.add_comm]

def turnBudget (i : ι) (n : ℕ) (cost : LoopEvent ι Msg Ctx → ℕ) :
    Budget (FunctorLoop ι Msg Ctx U) (LoopEvent ι Msg Ctx) where
  inv s := s.begun ≤ s.functors.length
  bound _ := True
  potential s := n * waiting i s
  cost := cost

variable {n m k : ℕ} {cost : LoopEvent ι Msg Ctx → ℕ}

theorem affords_user {R : Type} (p : Prog U Empty Empty Empty R) :
    Affords (turnBudget i n cost : Budget (FunctorLoop ι Msg Ctx U) _) 0 0
      (p.lift FunctorLoop.user FunctorLoop.setUser) :=
  .lift (fun _ _ h => h) (fun _ _ => rfl) (.free p)

theorem affords_send (hc : Charges i n m cost) (j : ι) :
    Affords (turnBudget i n cost) 0 (if j = i then n + m else 0) (use.send j) := by
  cases hj : use.isInLoopThread j with
  | true =>
      rw [use.send_of_loop hj]
      -- on the loop thread `next` is called on the spot and its answer handed on
      have hnext := hc.next j (use.args j)
      have hanswer := hc.answer j
      refine ⟨(if j = i then n + m else 0) - cost (.forwarded j (use.args j)), ?_, ?_⟩
      · have := hnext (.ok (.ready (.value none)))
        simp only [turnBudget]
        grind
      · apply ((affords_user _).bind fun reply => ?_).mono (Nat.le_of_eq (Nat.zero_add _))
        refine ⟨if j = i then m else 0, ?_, 0, hanswer _, trivial⟩
        have := hnext reply.result
        simp only [turnBudget]
        grind
  | false =>
      rw [use.send_of_other hj]
      intro s s' hs _ hf
      -- elsewhere a functor is queued, and what it costs later is kept in the potential
      obtain rfl := Option.some.inj hf
      refine ⟨s.begun_le_runAsyncFunctor j _ hs, if j = i then m else 0, ?_, 0, hc.answer j _, trivial⟩
      simp only [turnBudget, waiting_runAsyncFunctor j (use.args j) hs]
      grind

theorem affords_afterFunctor (f : LoopFunctor ι Msg Ctx) (reply : Reply) :
    Affords (turnBudget i n cost) 0 0 (use.afterFunctor f reply) := by
  -- the end of a turn forwards nothing
  have hbusy : ∀ result : Except Exn Unit, Affords (turnBudget i n cost) 0 0
      (.act (fun s => some { s with busy := !(use.goesOn || result.isOk) }) fun _ => .ret () :
        Prog (FunctorLoop ι Msg Ctx U) _ Empty Empty Unit) := by
    intro result s s' hs _ hf
    obtain rfl := Option.some.inj hf
    exact ⟨hs, 0, Nat.le_refl _, trivial⟩
  refine Affords.bind (m := 0) ?_ hbusy
  obtain ⟨result, rpcMeta⟩ := reply
  rcases result with e | o | promise
  · intro s s' hs _ hf
    obtain rfl := Option.some.inj hf
    exact ⟨hs, 0, Nat.le_refl _, trivial⟩
  · intro s s' hs _ hf
    obtain rfl := Option.some.inj hf
    rw [FunctorLoop.thenValue_eq]
    exact ⟨hs, 0, Nat.le_refl _, trivial⟩
  · refine ⟨0, 0, Nat.le_refl _, ?_, trivial⟩
    intro s s' hs _ hf
    obtain ⟨o, -, rfl⟩ := Option.map_eq_some_iff.mp hf
    rw [FunctorLoop.thenValue_eq]
    exact ⟨hs, 0, Nat.le_refl _, trivial⟩

/-- A turn of the loop pays with what the functor had. -/
theorem affords_loopTurn (hc : Charges i n m cost) :
    Affords (turnBudget i n cost) 0 0 (loopTurn use.brokenPromise use.goesOn use.watched) := by
  rw [use.loopTurn_eq]
  intro s s' hs _ hf
  obtain ⟨f, rfl, hlt, hget, hdrop, htake⟩ := FunctorLoop.take_spec hf
  refine ⟨hlt, ?_⟩
  dsimp only
  rw [hget]
  -- the functor that is taken pays for its own turn
  have hwaiting := waiting_take (i := i) hdrop
  have hnext := hc.next f.owner f.args
  refine ⟨if f.owner = i then n else 0, ?_, ?_⟩
  · simp only [turnBudget]
    rw [← hwaiting, Nat.mul_add]
    grind
  · show Affords _ _ _ (use.turn f)
    refine ⟨(if f.owner = i then n else 0) - cost (.forwarded f.owner f.args), ?_, ?_⟩
    · have := hnext (.ok (.ready (.value none)))
      simp only [turnBudget]
      grind
    · apply ((affords_user _).bind fun reply => ?_).mono (Nat.le_of_eq (Nat.zero_add _))
      refine ⟨0, ?_, affords_afterFunctor f reply⟩
      have := hnext reply.result
      simp only [turnBudget]
      grind

theorem free_turnBudget (hc : Charges i n m cost) : use.world.Free (turnBudget i n cost) 0 where
  bound _ _ := trivial
  env_inv _ _ he hs := he.begun_le hs
  env_potential s s' he _ := by
    have hsame : waiting i s' = waiting i s := by
      unfold waiting
      rw [he.begun, he.functors]
    exact Nat.le_of_eq (congrArg (n * ·) hsame)
  spawn p hp := by
    rw [hp]
    exact affords_loopTurn hc

/-- Whatever is charged for `i` is charged once. -/
theorem cost_run_le {is : List ι} (his : is.Nodup) {s : FunctorLoop ι Msg Ctx U} (hs : s.Fresh)
    (hc : Charges i n m cost) {es : List (LoopEvent ι Msg Ctx)}
    {b : Pool (FunctorLoop ι Msg Ctx U) (LoopEvent ι Msg Ctx) Empty Unit}
    (h : Run use.world ⟨s, is.map use.send⟩ es b) : (es.map cost).sum ≤ n + m := by
  have hall : ∀ is : List ι, is.Nodup →
      AffordsAll (turnBudget i n cost) 0 (if i ∈ is then n + m else 0) (is.map use.send) := by
    intro is his
    induction is with
    | nil => trivial
    | cons j is ih =>
        obtain ⟨hj, his⟩ := List.nodup_cons.mp his
        refine ⟨_, _, ?_, affords_send hc j, ih his⟩
        grind
  have hstart : Worth (turnBudget i n cost) 0 (n + m) (⟨s, is.map use.send⟩ : Pool _ _ Empty Unit) := by
    refine ⟨?_, if i ∈ is then n + m else 0, ?_, hall is his⟩
    · simp [turnBudget, hs.begun]
    · simp only [turnBudget, waiting, hs.functors]
      grind
  exact h.cost_le (free_turnBudget hc) hstart

end LoopUse

/-! ## Nothing is left behind -/

namespace LoopUse

variable {use : LoopUse ι Msg Ctx U} {i : ι}

/-- Every continuation returns or throws. -/
def Ends (use : LoopUse ι Msg Ctx U) : Prop := ∀ i args, (use.next i args).Returns fun _ => True

theorem returns_user (hends : use.Ends) (i : ι) (args : Args Msg Ctx) :
    Returns (fun _ => True) ((use.next i args).lift FunctorLoop.user FunctorLoop.setUser :
      Prog (FunctorLoop ι Msg Ctx U) (LoopEvent ι Msg Ctx) Empty Empty Reply) :=
  (hends i args).lift

/-- A duty that ends with the promise of a functor being fulfilled, or with the end of the turn. -/
theorem discharges_afterFunctor {D : Duty (FunctorLoop ι Msg Ctx U) (LoopEvent ι Msg Ctx)} {a c : Prop}
    {f : LoopFunctor ι Msg Ctx} (reply : Reply)
    (hinv : ∀ s o, D.inv s → D.inv (s.fulfil f.promise o))
    (hinv' : ∀ s busy, D.inv s → D.inv { s with busy := busy })
    (hfulfil : ∀ s o, a ∨ D.safe s → D.safe (s.fulfil f.promise o))
    (hend : ∀ s (result : Except Exn Unit), c ∨ D.safe s →
      D.safe { s with busy := !(use.goesOn || result.isOk) }) :
    Discharges D (a ∨ c) (use.afterFunctor f reply) := by
  obtain ⟨result, rpcMeta⟩ := reply
  -- what the functor does with the promise, whichever way `next` ended
  have hnext : Discharges D a (f.afterNext use.brokenPromise ⟨result, rpcMeta⟩ : Prog _ _ Empty Empty _) := by
    rcases result with e | o | promise
    · intro s s' hs _ hf
      obtain rfl := Option.some.inj hf
      exact ⟨hinv s _ hs, False, fun ho => .inl (hfulfil s _ ho), id⟩
    · intro s s' hs _ hf
      obtain rfl := Option.some.inj hf
      rw [FunctorLoop.thenValue_eq]
      exact ⟨hinv s _ hs, False, fun ho => .inl (hfulfil s _ ho), id⟩
    · refine ⟨a, False, .inl, ?_, id⟩
      intro s s' hs _ hf
      obtain ⟨o, -, rfl⟩ := Option.map_eq_some_iff.mp hf
      rw [FunctorLoop.thenValue_eq]
      exact ⟨hinv s _ hs, False, fun ho => .inl (hfulfil s _ ho), id⟩
  have hreturns : Returns (fun _ => True)
      (f.afterNext use.brokenPromise ⟨result, rpcMeta⟩ :
        Prog (FunctorLoop ι Msg Ctx U) (LoopEvent ι Msg Ctx) Empty Empty _) := by
    rcases result with e | o | promise
    · exact fun _ => trivial
    · exact fun _ => trivial
    · trivial
  apply hnext.bind_returns hreturns
  intro result _ s s' hs _ hf
  obtain rfl := Option.some.inj hf
  exact ⟨hinv' s _ hs, False, fun ho => .inl (hend s result ho), id⟩

section duty

variable {D : Duty (FunctorLoop ι Msg Ctx U) (LoopEvent ι Msg Ctx)}

/-- Sending leaves a duty alone that nothing it does takes out of the state. -/
theorem discharges_send (huser : ∀ {R : Type} (p : Prog U Empty Empty Empty R),
      Discharges D False (p.lift FunctorLoop.user FunctorLoop.setUser))
    (hqueue : ∀ s j args, D.inv s → D.inv (s.runAsyncFunctor j args) ∧
      (D.safe s → D.safe (s.runAsyncFunctor j args))) (j : ι) : Discharges D False (use.send j) := by
  cases hj : use.isInLoopThread j with
  | true =>
      rw [use.send_of_loop hj]
      refine ⟨False, False.elim, (huser _).bind fun reply => ?_⟩
      exact ⟨False, False.elim, False, False.elim, id⟩
  | false =>
      rw [use.send_of_other hj]
      intro s s' hs _ hf
      obtain rfl := Option.some.inj hf
      obtain ⟨hinv, hsafe⟩ := hqueue s j (use.args j) hs
      exact ⟨hinv, False, fun ho => .inl (hsafe (ho.resolve_left id)), False, False.elim, id⟩

/-- A turn of the loop, by what a duty has to do with it: `o` of a functor that was taken, `a` while its
promise is to be fulfilled, `c` until the turn is over. -/
theorem discharges_loopTurn {o a c : LoopFunctor ι Msg Ctx → Prop} (hends : use.Ends)
    (hinv : ∀ s, D.inv s ↔ s.begun ≤ s.functors.length)
    (huser : ∀ {R : Type} (p : Prog U Empty Empty Empty R),
      Discharges D False (p.lift FunctorLoop.user FunctorLoop.setUser))
    (htake : ∀ {s f}, s.functors.drop s.begun = f :: s.functors.drop (s.begun + 1) →
      s.functors.take (s.begun + 1) = s.functors.take s.begun ++ [f] → D.safe s →
        D.safe { s with begun := s.begun + 1, busy := true } ∨ o f)
    (hcame : ∀ f r, o f → D.settles (.came f.owner r) ∨ a f ∨ c f)
    (hfulfil : ∀ {s f} o', a f ∨ D.safe s → D.safe (s.fulfil f.promise o'))
    (hend : ∀ {s f} (result : Except Exn Unit), c f ∨ D.safe s →
      D.safe { s with busy := !(use.goesOn || result.isOk) }) :
    Discharges D False (loopTurn use.brokenPromise use.goesOn use.watched) := by
  rw [use.loopTurn_eq]
  intro s s' hs _ hf
  obtain ⟨f, rfl, hlt, hget, hdrop, htaken⟩ := FunctorLoop.take_spec hf
  refine ⟨(hinv _).mpr hlt, ?_⟩
  dsimp only
  rw [hget]
  refine ⟨o f, fun ho => htake hdrop htaken (ho.resolve_left id), o f, .inr, ?_⟩
  apply Discharges.mono (o := False ∨ o f) _ .inr
  apply (huser _).bind_returns (returns_user hends _ _)
  intro reply _
  refine ⟨a f ∨ c f, hcame f _, ?_⟩
  apply discharges_afterFunctor
  · exact fun s o' hs => (hinv _).mpr ((hinv s).mp hs)
  · exact fun s busy hs => (hinv _).mpr ((hinv s).mp hs)
  · exact fun s o' => hfulfil o'
  · exact fun s result => hend result

end duty

/-- The message must come to where `K` is shown of it, and may wait for the turn of its functor, if it is
the continuation that it has to come to. -/
def messageDuty (i : ι) (queued : Prop) (K : LoopEvent ι Msg Ctx → Prop) :
    Duty (FunctorLoop ι Msg Ctx U) (LoopEvent ι Msg Ctx) where
  inv s := s.begun ≤ s.functors.length
  bound _ := True
  safe s := queued ∧ ∃ f ∈ s.functors.drop s.begun, f.owner = i
  settles := K

section message

variable {queued : Prop} {K : LoopEvent ι Msg Ctx → Prop}

theorem discharges_message_user {R : Type} (p : Prog U Empty Empty Empty R) :
    Discharges (messageDuty i queued K : Duty (FunctorLoop ι Msg Ctx U) _) False
      (p.lift FunctorLoop.user FunctorLoop.setUser) :=
  .lift (fun _ _ h => h) fun _ _ h => h

theorem discharges_message_send (hends : use.Ends) (hcame : queued → ∀ r, K (.came i r))
    (hanswered : ¬ queued → ∀ r, K (.answered i r)) (j : ι) :
    Discharges (messageDuty i queued K) (j = i) (use.send j) := by
  cases hj : use.isInLoopThread j with
  | true =>
      rw [use.send_of_loop hj]
      -- on the loop's thread `next` is called on the spot
      refine ⟨j = i, .inr, ?_⟩
      apply Discharges.mono (o := False ∨ j = i) _ .inr
      apply (discharges_message_user _).bind_returns (returns_user hends j _)
      intro reply _
      refine ⟨j = i ∧ ¬ queued, ?_, False, ?_, id⟩
      · rintro rfl
        by_cases hq : queued
        · exact .inl (hcame hq _)
        · exact .inr ⟨rfl, hq⟩
      · rintro ⟨rfl, hq⟩
        exact .inl (hanswered hq _)
  | false =>
      rw [use.send_of_other hj]
      -- elsewhere the duty moves to the functor, which no one has taken up yet
      intro s s' hs _ hf
      obtain rfl := Option.some.inj hf
      have hdrop : (s.functors ++ [(⟨j, use.args j, s.promises.made⟩ : LoopFunctor ι Msg Ctx)]).drop
          s.begun = s.functors.drop s.begun ++ [⟨j, use.args j, s.promises.made⟩] :=
        List.drop_append_of_le_length hs
      have hsafe : ∀ f ∈ s.functors.drop s.begun ++ [⟨j, use.args j, s.promises.made⟩],
          f ∈ (s.runAsyncFunctor j (use.args j)).functors.drop s.begun :=
        fun f hf => hdrop ▸ hf
      refine ⟨s.begun_le_runAsyncFunctor j _ hs, j = i ∧ ¬ queued, ?_, False, ?_, id⟩
      · rintro (rfl | ⟨hq, f, hf, hfi⟩)
        · by_cases hq : queued
          · exact .inl ⟨hq, _, hsafe _ (List.mem_append_right _ (List.mem_singleton.mpr rfl)), rfl⟩
          · exact .inr ⟨rfl, hq⟩
        · exact .inl ⟨hq, f, hsafe f (List.mem_append_left _ hf), hfi⟩
      · rintro ⟨rfl, hq⟩
        exact .inl (hanswered hq _)

/-- Who sends `i` sees to it that `K` is shown of it. -/
theorem discharges_message_loopTurn (hends : use.Ends) (hcame : queued → ∀ r, K (.came i r)) :
    Discharges (messageDuty i queued K) False
      (loopTurn use.brokenPromise use.goesOn use.watched) := by
  apply discharges_loopTurn (o := fun f => queued ∧ f.owner = i) (a := fun _ => False)
    (c := fun _ => False) hends (fun _ => Iff.rfl) discharges_message_user
  · rintro s f hdrop - ⟨hq, g, hg, hgi⟩
    rw [hdrop] at hg
    rcases List.mem_cons.mp hg with rfl | hg
    · exact .inr ⟨hq, hgi⟩
    · exact .inl ⟨hq, g, hg, hgi⟩
  · rintro f r ⟨hq, rfl⟩
    exact .inl (hcame hq r)
  · exact fun _ ho => ho.resolve_left id
  · exact fun _ ho => ho.resolve_left id

theorem keeps_messageDuty (hends : use.Ends) (hcame : queued → ∀ r, K (.came i r)) :
    use.world.Keeps (messageDuty i queued K) where
  bound _ _ := trivial
  env_inv _ _ he hs := he.begun_le hs
  env_safe s s' he hs := by
    show queued ∧ ∃ f ∈ s'.functors.drop s'.begun, f.owner = i
    rw [he.begun, he.functors]
    exact hs
  spawn p hp := by
    rw [hp]
    exact discharges_message_loopTurn hends hcame

end message

/-- The promise `p` of a functor that the loop has taken must be fulfilled. -/
def promiseDuty (p : ℕ) : Duty (FunctorLoop ι Msg Ctx U) (LoopEvent ι Msg Ctx) where
  inv s := s.begun ≤ s.functors.length
  bound _ := True
  safe s := (s.promises.fulfilled p).isSome ∨ ∀ f ∈ s.functors.take s.begun, f.promise ≠ p
  settles _ := False

section promise

variable {p : ℕ}

theorem discharges_promise_user {R : Type} (q : Prog U Empty Empty Empty R) :
    Discharges (promiseDuty p : Duty (FunctorLoop ι Msg Ctx U) (LoopEvent ι Msg Ctx)) False
      (q.lift FunctorLoop.user FunctorLoop.setUser) :=
  .lift (fun _ _ h => h) fun _ _ h => h

theorem discharges_promise_send (j : ι) : Discharges (promiseDuty p) False (use.send j) := by
  apply discharges_send discharges_promise_user
  intro s j args hs
  refine ⟨s.begun_le_runAsyncFunctor j args hs, fun hsafe => hsafe.imp id fun hne f hf => hne f ?_⟩
  have htake : (s.functors ++ [(⟨j, args, s.promises.made⟩ : LoopFunctor ι Msg Ctx)]).take s.begun =
      s.functors.take s.begun := List.take_append_of_le_length hs
  exact htake ▸ hf

theorem safe_fulfil {s : FunctorLoop ι Msg Ctx U} {f : LoopFunctor ι Msg Ctx} {o : Outcome}
    (ho : f.promise = p ∨
      (promiseDuty p : Duty _ (LoopEvent ι Msg Ctx)).safe s) :
    (promiseDuty p : Duty _ (LoopEvent ι Msg Ctx)).safe (s.fulfil f.promise o) := by
  rcases ho with rfl | hp | hne
  · exact .inl (by simp [FunctorLoop.fulfil])
  · left
    obtain ⟨o', ho'⟩ := Option.isSome_iff_exists.mp hp
    exact Option.isSome_iff_exists.mpr ⟨o', (FunctorLoop.Grows.fulfil _ _).fulfilled ho'⟩
  · exact .inr hne

theorem discharges_promise_loopTurn (hends : use.Ends) :
    Discharges (promiseDuty p) False (loopTurn use.brokenPromise use.goesOn use.watched) := by
  apply discharges_loopTurn (o := fun f => f.promise = p) (a := fun f => f.promise = p)
    (c := fun _ => False) hends (fun _ => Iff.rfl) discharges_promise_user
  · intro s f _ htake hsafe
    by_cases hfp : f.promise = p
    · exact .inr hfp
    · refine .inl (hsafe.imp id fun hne g hg => ?_)
      have hg : g ∈ s.functors.take (s.begun + 1) := hg
      rw [htake] at hg
      rcases List.mem_append.mp hg with hg | hg
      · exact hne g hg
      · exact List.mem_singleton.mp hg ▸ hfp
  · exact fun f r ho => .inr (.inl ho)
  · exact fun _ ho => safe_fulfil ho
  · exact fun _ ho => ho.resolve_left id

theorem keeps_promiseDuty (hends : use.Ends) : use.world.Keeps (promiseDuty p) where
  bound _ _ := trivial
  env_inv _ _ he hs := he.begun_le hs
  env_safe s s' he hs := by
    refine hs.imp (fun hp => ?_) fun hne => ?_
    · obtain ⟨o, ho⟩ := Option.isSome_iff_exists.mp hp
      exact Option.isSome_iff_exists.mpr ⟨o, he.fulfilled ho⟩
    · rw [he.begun, he.functors]
      exact hne
  spawn q hq := by
    rw [hq]
    exact discharges_promise_loopTurn hends

end promise

/-- The loop must come to the end of the turn. -/
def busyDuty : Duty (FunctorLoop ι Msg Ctx U) (LoopEvent ι Msg Ctx) where
  inv s := s.begun ≤ s.functors.length
  bound _ := True
  safe s := s.busy = false
  settles _ := False

section busy

theorem discharges_busy_user {R : Type} (q : Prog U Empty Empty Empty R) :
    Discharges (busyDuty : Duty (FunctorLoop ι Msg Ctx U) (LoopEvent ι Msg Ctx)) False
      (q.lift FunctorLoop.user FunctorLoop.setUser) :=
  .lift (fun _ _ h => h) fun _ _ h => h

theorem discharges_busy_send (j : ι) : Discharges busyDuty False (use.send j) := by
  apply discharges_send discharges_busy_user
  exact fun s j args hs => ⟨s.begun_le_runAsyncFunctor j args hs, id⟩

theorem discharges_busy_loopTurn (hends : use.Ends) (hgoes : use.goesOn = true) :
    Discharges busyDuty False (loopTurn use.brokenPromise use.goesOn use.watched) := by
  apply discharges_loopTurn (o := fun _ => True) (a := fun _ => False) (c := fun _ => True) hends
    (fun _ => Iff.rfl) discharges_busy_user
  · exact fun _ _ _ => .inr trivial
  · exact fun _ _ _ => .inr (.inr trivial)
  · exact fun _ ho => ho.resolve_left id
  · intro s f result _
    show (!(use.goesOn || result.isOk)) = false
    rw [hgoes]
    rfl

theorem keeps_busyDuty (hends : use.Ends) (hgoes : use.goesOn = true) : use.world.Keeps busyDuty where
  bound _ _ := trivial
  env_inv _ _ he hs := he.begun_le hs
  env_safe s s' he hs := he.busy.trans hs
  spawn q hq := by
    rw [hq]
    exact discharges_busy_loopTurn hends hgoes

end busy

/-- The threads of the messages at the start: who sends `i` has its duty. -/
theorem dischargesAll_send {D : Duty (FunctorLoop ι Msg Ctx U) (LoopEvent ι Msg Ctx)} {i : ι}
    (hsend : ∀ j, Discharges D (j = i) (use.send j)) (is : List ι) :
    DischargesAll D (i ∈ is) (is.map use.send) := by
  induction is with
  | nil => exact List.not_mem_nil
  | cons j is ih => exact ⟨j = i, i ∈ is, fun h => (List.mem_cons.mp h).imp Eq.symm id, hsend j, ih⟩

variable {is : List ι} {s : FunctorLoop ι Msg Ctx U} {es : List (LoopEvent ι Msg Ctx)}
  {b : Pool (FunctorLoop ι Msg Ctx U) (LoopEvent ι Msg Ctx) Empty Unit}

/-- A duty that nobody has at the start. -/
theorem safe_of_run {D : Duty (FunctorLoop ι Msg Ctx U) (LoopEvent ι Msg Ctx)}
    (hW : use.world.Keeps D) (hinv : D.inv s) (hsafe : D.safe s) (hsettles : ∀ e, ¬ D.settles e)
    (hsend : ∀ j, Discharges D False (use.send j)) (h : Run use.world ⟨s, is.map use.send⟩ es b)
    (hd : ∀ p ∈ b.threads, p.Done) : D.safe b.state := by
  have hall : ∀ is : List ι, DischargesAll D False (is.map use.send) := by
    intro is
    induction is with
    | nil => exact id
    | cons j is ih => exact ⟨False, False, False.elim, hsend j, ih⟩
  have hstart : Holds D (⟨s, is.map use.send⟩ : Pool _ _ Empty Unit) :=
    ⟨hinv, False, .inl hsafe, hall is⟩
  rcases h.settled_or_safe hW hstart hd with ⟨e, -, he⟩ | hb
  · exact absurd he (hsettles e)
  · exact hb

/-- A loop that outlives what its functors throw is not stuck: when nobody is at work, it has taken
everything, or takes the next functor. -/
theorem loop_goes_on (hends : use.Ends) (hgoes : use.goesOn = true) (hs : s.Fresh)
    (h : Run use.world ⟨s, is.map use.send⟩ es b) (hd : ∀ p ∈ b.threads, p.Done)
    (hleft : b.state.begun < b.state.functors.length) :
    ∃ c, Run use.world b [] c ∧ c.state.begun = b.state.begun + 1 := by
  have hinv : s.begun ≤ s.functors.length := by simp [hs.begun]
  have hbusy : b.state.busy = false :=
    safe_of_run (keeps_busyDuty hends hgoes) hinv hs.idle (fun _ => id) discharges_busy_send h hd
  have htake : b.state.take = some { b.state with begun := b.state.begun + 1, busy := true } :=
    if_neg (by simp [hbusy, hleft])
  have hspawn : Step use.world b []
      ⟨b.state, loopTurn use.brokenPromise use.goesOn use.watched :: b.threads⟩ :=
    .spawn b.threads rfl
  rw [use.loopTurn_eq] at hspawn
  have hact := Step.act (W := use.world) (k := fun s => (s.functors[s.begun]?).elim .halt use.turn)
    [] b.threads htake trivial
  exact ⟨_, (Run.single hact).silent hspawn, rfl⟩

section complete

variable (hends : use.Ends) (hs : s.Fresh) (h : Run use.world ⟨s, is.map use.send⟩ es b)
  (hd : ∀ p ∈ b.threads, p.Done) (hall : b.state.begun = b.state.functors.length)

include hends hs h hd hall

/-- When the loop has taken everything and nobody is at work, every message has come to where it was
going. -/
theorem shown_of_complete {i : ι} (hi : i ∈ is) {queued : Prop} {K : LoopEvent ι Msg Ctx → Prop}
    (hcame : queued → ∀ r, K (.came i r)) (hanswered : ¬ queued → ∀ r, K (.answered i r)) :
    ∃ e ∈ es, K e := by
  have hsend : DischargesAll (messageDuty i queued K) (i ∈ is) (is.map use.send) :=
    dischargesAll_send (discharges_message_send hends hcame hanswered) is
  have hstart : Holds (messageDuty i queued K) (⟨s, is.map use.send⟩ : Pool _ _ Empty Unit) :=
    ⟨by simp [messageDuty, hs.begun], i ∈ is, .inr hi, hsend⟩
  rcases h.settled_or_safe (keeps_messageDuty hends hcame) hstart hd with hshown | ⟨-, f, hf, -⟩
  · exact hshown
  · simp [hall] at hf

/-- Then also every promise of a functor has been fulfilled. -/
theorem fulfilled_of_complete {f : LoopFunctor ι Msg Ctx} (hf : f ∈ b.state.functors) :
    ∃ o, b.state.promises.fulfilled f.promise = some o := by
  have hsafe := safe_of_run (keeps_promiseDuty (p := f.promise) hends) (by simp [promiseDuty, hs.begun])
    (.inr (by simp [hs.begun])) (fun _ => id) discharges_promise_send h hd
  rcases hsafe with ho | hne
  · exact Option.isSome_iff_exists.mp ho
  · rw [hall, List.take_length] at hne
    exact absurd rfl (hne f hf)

end complete

end LoopUse

/-! ## The outcome -/

def LoopEvent.forwardedArgs [DecidableEq ι] (i : ι) : LoopEvent ι Msg Ctx → Option (Args Msg Ctx)
  | .forwarded owner args => if owner = i then some args else none
  | _ => none

def LoopEvent.cameResult [DecidableEq ι] (i : ι) : LoopEvent ι Msg Ctx → Option (Except Exn Future)
  | .came owner result => if owner = i then some result else none
  | _ => none

namespace LoopUse

variable [DecidableEq ι] (use : LoopUse ι Msg Ctx U)

/-- The message was forwarded once, as it was sent, and its sender was told of the outcome that the
continuation had. -/
structure Transparent (i : ι) (es : List (LoopEvent ι Msg Ctx)) (s : FunctorLoop ι Msg Ctx U) : Prop where
  forwarded : es.filterMap (LoopEvent.forwardedArgs i) = [use.args i]
  outcome : ∃ r r', .answered i r ∈ es ∧ .came i r' ∈ es ∧ s.outcome r = s.outcome r'

/-- The message was sent on the thread of the loop, or its continuation has no exception, neither thrown
nor in its future, other than the one that tells of a broken promise. -/
def Survives (i : ι) (es : List (LoopEvent ι Msg Ctx)) (s : FunctorLoop ι Msg Ctx U) : Prop :=
  use.isInLoopThread i = true ∨
    ∀ r e, .came i r ∈ es → s.outcome r = some (.exception e) → e = use.brokenPromise

variable {use} {is : List ι} {s : FunctorLoop ι Msg Ctx U} {es : List (LoopEvent ι Msg Ctx)}
  {b : Pool (FunctorLoop ι Msg Ctx U) (LoopEvent ι Msg Ctx) Empty Unit} {i : ι}

/-- What is charged for once is shown once at most. -/
theorem length_filterMap_le {α : Type} {g : LoopEvent ι Msg Ctx → Option α} {n m : ℕ} (his : is.Nodup)
    (hs : s.Fresh) (hc : Charges i n m fun e => if (g e).isSome then 1 else 0)
    (h : Run use.world ⟨s, is.map use.send⟩ es b) : (es.filterMap g).length ≤ n + m := by
  have hlen : ∀ es : List (LoopEvent ι Msg Ctx),
      (es.filterMap g).length = (es.map fun e => if (g e).isSome then 1 else 0).sum := by
    intro es
    induction es with
    | nil => rfl
    | cons e es ih =>
        rw [List.filterMap_cons, List.map_cons, List.sum_cons]
        cases hg : g e with
        | none => simp [ih]
        | some x => simp [ih, Nat.add_comm]
  rw [hlen]
  exact cost_run_le his hs hc h

/-- A list that is not longer than its one element. -/
theorem eq_singleton {α : Type} {xs : List α} {x : α} (hx : x ∈ xs) (hlen : xs.length ≤ 1) :
    xs = [x] := by
  obtain ⟨y, hy⟩ : ∃ y, xs = [y] :=
    List.length_eq_one_iff.mp (Nat.le_antisymm hlen (List.length_pos_of_mem hx))
  rw [hy] at hx ⊢
  rw [List.mem_singleton.mp hx]

/-- The continuation comes back once at most. -/
theorem came_unique (his : is.Nodup) (hs : s.Fresh) (h : Run use.world ⟨s, is.map use.send⟩ es b)
    {r r' : Except Exn Future} (hr : .came i r ∈ es) (hr' : .came i r' ∈ es) : r = r' := by
  have hc : Charges i 1 0
      fun e : LoopEvent ι Msg Ctx => if (e.cameResult i).isSome then 1 else 0 := by
    constructor
    · intro j args r
      by_cases hj : j = i <;> simp [LoopEvent.cameResult, hj]
    · intro j r
      simp [LoopEvent.cameResult]
  have hlen := length_filterMap_le his hs hc h
  have hmem : ∀ {x}, .came i x ∈ es → x ∈ es.filterMap (LoopEvent.cameResult i) := by
    intro x hx
    exact List.mem_filterMap.mpr ⟨_, hx, if_pos rfl⟩
  have hone := eq_singleton (hmem hr) hlen
  rw [eq_singleton (hmem hr') hlen] at hone
  exact (List.singleton_inj.mp hone).symm

/-- In every state a run leads to, a message has been forwarded as it was sent, and not twice. -/
theorem forwarded_of_run (his : is.Nodup) (hs : s.Fresh) (h : Run use.world ⟨s, is.map use.send⟩ es b)
    {args : Args Msg Ctx} (hargs : .forwarded i args ∈ es) :
    es.filterMap (LoopEvent.forwardedArgs i) = [use.args i] := by
  have hc : Charges i 1 0
      fun e : LoopEvent ι Msg Ctx => if (e.forwardedArgs i).isSome then 1 else 0 := by
    constructor
    · intro j args r
      by_cases hj : j = i <;> simp [LoopEvent.forwardedArgs, hj]
    · intro j r
      simp [LoopEvent.forwardedArgs]
  obtain rfl : args = use.args i := (recorded_run hs h).fits _ hargs
  apply eq_singleton (List.mem_filterMap.mpr ⟨_, hargs, if_pos rfl⟩)
  exact length_filterMap_le his hs hc h

end LoopUse

/-- One message that is sent on another thread than that of the loop, and its continuation, which comes back
at once. -/
def oneMessage (result : Except Exn Future) : LoopUse Unit Unit Unit Unit where
  copy := { new := id, copyFrom := fun _ message => message, copyFrom_new := fun _ => rfl }
  brokenPromise := .standard "Broken promise"
  goesOn := true
  isInLoopThread _ := false
  args _ := { rpcMeta := {}, message := (), context := () }
  next _ _ := .ret { result := result, rpcMeta := {} }

def idleLoop : FunctorLoop Unit Unit Unit Unit := { promises := { user := () } }

/-- The message is queued, and then the loop takes its turn. -/
theorem oneMessage_run (result : Except Exn Future) {o : Outcome} {r : Except Exn Unit}
    (hnext : ∀ f : LoopFunctor Unit Unit Unit,
      (f.afterNext (.standard "Broken promise") { result := result, rpcMeta := {} } :
        Prog (FunctorLoop Unit Unit Unit Unit) (LoopEvent Unit Unit Unit) Empty Empty _) =
        .act (fun s => some (s.fulfil f.promise o)) fun _ => .ret r) :
    ∃ b, Run (oneMessage result).world ⟨idleLoop, [()].map (oneMessage result).send⟩
        [.answered () (.ok (.pending 0)), .forwarded () ((oneMessage result).args ()), .came () result] b ∧
      (∀ p ∈ b.threads, p.Done) ∧ b.state.begun = b.state.functors.length ∧
      b.state.promises.fulfilled 0 = some o := by
  have hb : ∀ s, (oneMessage result).world.bound s := fun _ => trivial
  -- the sender queues the functor and is answered by the promise
  have hsend : ((oneMessage result).send ()).RunsTo idleLoop [.answered () (.ok (.pending 0))]
      (idleLoop.runAsyncFunctor () ((oneMessage result).args ())) := by
    rw [LoopUse.send_of_other _ rfl]
    simp [idleLoop]
  -- a turn of the loop takes it up and ends its promise with `o`
  have hturn : (loopTurn (oneMessage result).brokenPromise (oneMessage result).goesOn
      (oneMessage result).watched).RunsTo (idleLoop.runAsyncFunctor () ((oneMessage result).args ()))
        [.forwarded () ((oneMessage result).args ()), .came () result]
        { promises := ((idleLoop.runAsyncFunctor () ((oneMessage result).args ())).fulfil 0 o).promises
          functors := (idleLoop.runAsyncFunctor () ((oneMessage result).args ())).functors
          begun := 1 } := by
    rw [LoopUse.loopTurn_eq, runsTo_act]
    refine ⟨_, rfl, ?_⟩
    refine (runsTo_emit _).mpr ⟨_, rfl, (runsTo_emit _).mpr ⟨_, rfl, ?_⟩⟩
    show Prog.RunsTo (bind (LoopFunctor.afterNext (.standard "Broken promise") _ ⟨result, {}⟩) _) _ _ _
    rw [hnext]
    refine (runsTo_act _ _).mpr ⟨_, rfl, (runsTo_act _ _).mpr ⟨_, rfl, (runsTo_ret _).mpr ⟨rfl, ?_⟩⟩⟩
    rfl
  obtain ⟨ds, hsend, hds⟩ := hsend
  obtain ⟨ds', hturn, hds'⟩ := hturn
  have hfirst := hsend.frame hb [] []
  have hspawn : Step (oneMessage result).world
      ⟨idleLoop.runAsyncFunctor () ((oneMessage result).args ()), ds⟩ []
      ⟨_, loopTurn (oneMessage result).brokenPromise (oneMessage result).goesOn
        (oneMessage result).watched :: ds⟩ := .spawn ds rfl
  have hrest := (hturn.frame hb [] ds).silent hspawn
  simp only [List.nil_append, List.append_nil] at hfirst
  refine ⟨_, hfirst.trans hrest, fun p hp => ?_, rfl, rfl⟩
  have hp : p ∈ ds' ++ ds := hp
  rcases List.mem_append.mp hp with hp | hp
  · exact hds' p hp
  · exact hds p hp

namespace LoopUse

variable [DecidableEq ι] {use : LoopUse ι Msg Ctx U} {is : List ι} {s : FunctorLoop ι Msg Ctx U}
  {es : List (LoopEvent ι Msg Ctx)} {b : Pool (FunctorLoop ι Msg Ctx U) (LoopEvent ι Msg Ctx) Empty Unit}
  {i : ι}

end LoopUse

end GayRpc
