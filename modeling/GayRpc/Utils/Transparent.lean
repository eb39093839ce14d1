import GayRpc.Utils.EventLoop

/-!
# Messages on their way through an event loop

Any number of messages are sent through `withEventLoop`, on whatever threads, while the loop takes one
functor after the other. `Recorded` is what can be said of the functors and the promises at any time.

A functor holds what its owner has sent. Once its promise has an outcome, this is what `thenValue` makes of
the outcome of its owner's continuation; before that, nobody has been told anything. The events say of their
messages what there is to say (`Fits`), so that everything is kept by a ledger: functors and outcomes are
never taken back (`FunctorLoop.Grows`), and whoever makes an outcome known does so after the continuation
has shown its own.

First the threads are brought into a form without the code of the library in them: a message that is sent on
the thread of the loop is a call of the continuation, one from another thread queues a functor, and a turn
of the loop forwards what the functor has captured.
-/

namespace GayRpc

open Prog Pool

/-- Messages that are sent through the interceptor, with the continuation each is to reach. The
continuations keep whatever they like in `U`. -/
structure LoopUse (ι Msg Ctx U : Type) where
  copy : MessageCopy Msg
  brokenPromise : Exn
  goesOn : Bool
  isInLoopThread : ι → Bool
  args : ι → Args Msg Ctx
  next : ι → UnaryHandler U Empty Msg Ctx

variable {ι Msg Ctx U : Type}

/-- What happens to the promises of others: they are made, and fulfilled once at most. -/
structure FunctorLoop.Elsewhere (s s' : FunctorLoop ι Msg Ctx U) : Prop where
  functors : s'.functors = s.functors
  begun : s'.begun = s.begun
  busy : s'.busy = s.busy
  made : s.promises.made ≤ s'.promises.made
  fulfilled : ∀ {p o}, s.promises.fulfilled p = some o → s'.promises.fulfilled p = some o
  own : ∀ f ∈ s.functors, s'.promises.fulfilled f.promise = s.promises.fulfilled f.promise
  unmade : ∀ p, s'.promises.made ≤ p → s'.promises.fulfilled p = none

/-- A loop that has not been given anything. -/
structure FunctorLoop.Fresh (s : FunctorLoop ι Msg Ctx U) : Prop where
  functors : s.functors = []
  begun : s.begun = 0
  idle : s.busy = false
  unmade : ∀ p, s.promises.made ≤ p → s.promises.fulfilled p = none

namespace LoopUse

variable (use : LoopUse ι Msg Ctx U)

/-- The continuation of a message, watched. -/
def watched (i : ι) : UnaryHandler (FunctorLoop ι Msg Ctx U) (LoopEvent ι Msg Ctx) Msg Ctx := fun args =>
  .emit (.forwarded i args)
    (((use.next i args).lift FunctorLoop.user FunctorLoop.setUser).bind fun reply =>
      .emit (.came i reply.result) (.ret reply))

def send (i : ι) : Prog (FunctorLoop ι Msg Ctx U) (LoopEvent ι Msg Ctx) Empty Empty Unit :=
  ((withEventLoop use.copy i (use.isInLoopThread i)).call (use.watched i) (use.args i)).bind
    fun reply => .emit (.answered i reply.result) (.ret ())

/-- Around the messages, the loop takes its turns, and promises that the interceptor did not make are
fulfilled at any time. -/
def world : World (FunctorLoop ι Msg Ctx U) (LoopEvent ι Msg Ctx) Empty Unit where
  env s s' := s.Elsewhere s'
  spawn p := p = loopTurn use.brokenPromise use.goesOn use.watched
  bound _ := True

end LoopUse

/-! ## What the threads come down to -/

section threads

variable (use : LoopUse ι Msg Ctx U)

/-- On the thread of the loop the continuation is called, and that is all. -/
theorem LoopUse.send_of_loop {i : ι} (hi : use.isInLoopThread i = true) :
    use.send i = .emit (.forwarded i (use.args i))
      (((use.next i (use.args i)).lift FunctorLoop.user FunctorLoop.setUser).bind fun reply =>
        .emit (.came i reply.result) (.emit (.answered i reply.result) (.ret ()))) := by
  unfold LoopUse.send
  rw [hi]
  show ((use.watched i (use.args i)).bind _).bind _ = _
  rw [bind_assoc]
  show emit _ (bind (bind _ _) _) = _
  rw [bind_assoc]
  rfl

/-- On another thread a functor is queued with what there is to forward. -/
theorem LoopUse.send_of_other {i : ι} (hi : use.isInLoopThread i = false) :
    use.send i = .act (fun s => some (s.runAsyncFunctor i (use.args i))) fun s =>
      .emit (.answered i (.ok (.pending s.promises.made))) (.ret ()) := by
  unfold LoopUse.send UnaryServerInterceptor.call
  rw [hi, withEventLoop_of_other]
  rfl

/-- What is left of a turn when `next` has come back. -/
def LoopUse.afterFunctor (f : LoopFunctor ι Msg Ctx) (reply : Reply) :
    Prog (FunctorLoop ι Msg Ctx U) (LoopEvent ι Msg Ctx) Empty Empty Unit :=
  (f.afterNext use.brokenPromise reply).bind fun result =>
    .act (fun s => some { s with busy := !(use.goesOn || result.isOk) }) fun _ => .ret ()

theorem LoopFunctor.plug_afterNext (f : LoopFunctor ι Msg Ctx) (reply : Reply)
    {h : Unit → Args Msg Ctx → Prog (FunctorLoop ι Msg Ctx U) (LoopEvent ι Msg Ctx) Empty Empty Reply} :
    (f.afterNext use.brokenPromise reply).plug h id () = f.afterNext use.brokenPromise reply := by
  obtain ⟨result, rpcMeta⟩ := reply
  rcases result with e | o | promise
  · rfl
  · rfl
  · rfl

def LoopUse.turn (f : LoopFunctor ι Msg Ctx) :
    Prog (FunctorLoop ι Msg Ctx U) (LoopEvent ι Msg Ctx) Empty Empty Unit :=
  .emit (.forwarded f.owner f.args)
    (((use.next f.owner f.args).lift FunctorLoop.user FunctorLoop.setUser).bind fun reply =>
      .emit (.came f.owner reply.result) (use.afterFunctor f reply))

/-- A turn of the loop forwards what the functor has captured. -/
theorem LoopUse.loopTurn_eq :
    loopTurn use.brokenPromise use.goesOn use.watched =
      .act FunctorLoop.take fun s => (s.functors[s.begun]?).elim .halt use.turn := by
  unfold loopTurn
  refine congrArg (act _) (funext fun s => ?_)
  cases s.functors[s.begun]? with
  | none => rfl
  | some f =>
      show ((use.watched f.owner f.args).bind _).bind _ = emit _ _
      rw [bind_assoc]
      show emit _ (bind (bind _ _) _) = _
      rw [bind_assoc]
      refine congrArg (emit _) (congrArg _ (funext fun reply => ?_))
      show emit _ (((f.afterNext use.brokenPromise reply).plug _ id ()).bind _) = _
      rw [LoopFunctor.plug_afterNext]
      rfl

end threads

/-! ## What stays on record -/

/-- What the loop takes is the first of the functors that it has not taken before. -/
theorem FunctorLoop.take_spec {s s' : FunctorLoop ι Msg Ctx U} (h : s.take = some s') :
    ∃ f, s' = { s with begun := s.begun + 1, busy := true } ∧ s.begun < s.functors.length ∧
      s.functors[s.begun]? = some f ∧ s.functors.drop s.begun = f :: s.functors.drop (s.begun + 1) ∧
      s.functors.take (s.begun + 1) = s.functors.take s.begun ++ [f] := by
  obtain ⟨hfree, hs'⟩ := Option.ite_none_left_eq_some.mp h
  have hlt : s.begun < s.functors.length := by
    rw [not_or, Nat.not_le] at hfree
    exact hfree.2
  refine ⟨s.functors[s.begun], (Option.some.inj hs').symm, hlt, List.getElem?_eq_getElem hlt, ?_, ?_⟩
  · exact List.drop_eq_getElem_cons hlt
  · exact List.take_succ_eq_append_getElem hlt

/-- What `thenValue` passes on of an outcome. -/
def Outcome.relayed (brokenPromise : Exn) : Outcome → Outcome
  | .value err => .value err
  | .exception _ => .exception brokenPromise

theorem FunctorLoop.thenValue_eq (brokenPromise : Exn) (promise : ℕ) (o : Outcome)
    (s : FunctorLoop ι Msg Ctx U) :
    s.thenValue brokenPromise promise o = s.fulfil promise (o.relayed brokenPromise) := by
  cases o with
  | value err => rfl
  | exception e => rfl

/-- Functors and outcomes are never taken back. -/
structure FunctorLoop.Grows (s s' : FunctorLoop ι Msg Ctx U) : Prop where
  functors : s.functors <+: s'.functors
  fulfilled : ∀ {p o}, s.promises.fulfilled p = some o → s'.promises.fulfilled p = some o

namespace FunctorLoop.Grows

variable {s s' s'' : FunctorLoop ι Msg Ctx U}

theorem refl : s.Grows s := ⟨List.prefix_rfl, id⟩

theorem trans (h : s.Grows s') (h' : s'.Grows s'') : s.Grows s'' :=
  ⟨h.functors.trans h'.functors, fun hp => h'.fulfilled (h.fulfilled hp)⟩

theorem mem (h : s.Grows s') {f : LoopFunctor ι Msg Ctx} (hf : f ∈ s.functors) : f ∈ s'.functors :=
  h.functors.subset hf

theorem outcome (h : s.Grows s') {r : Except Exn Future} {o : Outcome} (hr : s.outcome r = some o) :
    s'.outcome r = some o := by
  rcases r with e | (_ | promise)
  · exact hr
  · exact hr
  · exact h.fulfilled hr

theorem fulfil (promise : ℕ) (o : Outcome) : s.Grows (s.fulfil promise o) := by
  refine ⟨List.prefix_rfl, fun {p o'} hp => ?_⟩
  show (if p = promise then some ((s.promises.fulfilled p).getD o) else s.promises.fulfilled p) = some o'
  rw [hp, Option.getD_some, ite_self]

end FunctorLoop.Grows

namespace LoopUse

variable (use : LoopUse ι Msg Ctx U)

/-- The event says of its message what there is to say. -/
def Fits (h : List (LoopEvent ι Msg Ctx)) (s : FunctorLoop ι Msg Ctx U) : LoopEvent ι Msg Ctx → Prop
  | .forwarded i args => args = use.args i
  | .came i _ => ∃ args, .forwarded i args ∈ h
  | .answered i r =>
    (use.isInLoopThread i = true ∧ .came i r ∈ h) ∨
      (use.isInLoopThread i = false ∧ ∃ f ∈ s.functors, f.owner = i ∧ r = .ok (.pending f.promise))

/-- The functor holds what its owner sent, and its promise is told what `thenValue` makes of the outcome
of its owner's continuation. -/
structure Minds (h : List (LoopEvent ι Msg Ctx)) (s : FunctorLoop ι Msg Ctx U)
    (f : LoopFunctor ι Msg Ctx) : Prop where
  args : f.args = use.args f.owner
  made : f.promise < s.promises.made
  told : ∀ o, s.promises.fulfilled f.promise = some o →
    ∃ r o', .came f.owner r ∈ h ∧ s.outcome r = some o' ∧ o = o'.relayed use.brokenPromise

structure Recorded (h : List (LoopEvent ι Msg Ctx)) (s : FunctorLoop ι Msg Ctx U) : Prop where
  unmade : ∀ p, s.promises.made ≤ p → s.promises.fulfilled p = none
  distinct : ∀ f ∈ s.functors, ∀ g ∈ s.functors, f.promise = g.promise → f = g
  functors : ∀ f ∈ s.functors, use.Minds h s f
  fits : ∀ e ∈ h, use.Fits h s e

variable {use} {h h' : List (LoopEvent ι Msg Ctx)} {s s' : FunctorLoop ι Msg Ctx U}

theorem Fits.later {e : LoopEvent ι Msg Ctx} (he : use.Fits h s e) (hh : h <+: h')
    (hs : s.Grows s') : use.Fits h' s' e := by
  cases e with
  | forwarded i args => exact he
  | came i r =>
      obtain ⟨args, hargs⟩ := he
      exact ⟨args, hh.subset hargs⟩
  | answered i r =>
      rcases he with ⟨hi, hr⟩ | ⟨hi, f, hf, hfi, hr⟩
      · exact .inl ⟨hi, hh.subset hr⟩
      · exact .inr ⟨hi, f, hs.mem hf, hfi, hr⟩

theorem Minds.later {f : LoopFunctor ι Msg Ctx} (hf : use.Minds h s f) (hh : h <+: h')
    (hs : s.Grows s') (hmade : s.promises.made ≤ s'.promises.made)
    (hown : s'.promises.fulfilled f.promise = s.promises.fulfilled f.promise) : use.Minds h' s' f where
  args := hf.args
  made := Nat.lt_of_lt_of_le hf.made hmade
  told o ho := by
    rw [hown] at ho
    obtain ⟨r, o', hr, ho', rfl⟩ := hf.told o ho
    exact ⟨r, o', hh.subset hr, hs.outcome ho', rfl⟩

namespace Recorded

theorem append {e : LoopEvent ι Msg Ctx} (hs : use.Recorded h s) (he : use.Fits h s e) :
    use.Recorded (h ++ [e]) s := by
  have hh : h <+: h ++ [e] := List.prefix_append h [e]
  refine ⟨hs.unmade, hs.distinct, fun f hf => ?_, ?_⟩
  · exact (hs.functors f hf).later hh .refl (Nat.le_refl _) rfl
  · refine List.forall_mem_append.mpr ⟨fun e' he' => (hs.fits e' he').later hh .refl, ?_⟩
    simpa using he.later hh .refl

/-- What the functors and the promises do not notice. -/
theorem congr (hs : use.Recorded h s) (hf : s'.functors = s.functors)
    (hmade : s'.promises.made = s.promises.made)
    (hfulfilled : s'.promises.fulfilled = s.promises.fulfilled) :
    s.Grows s' ∧ use.Recorded h s' := by
  have hgrows : s.Grows s' := ⟨hf ▸ List.prefix_rfl, fun hp => by rw [hfulfilled, hp]⟩
  refine ⟨hgrows, ⟨?_, ?_, fun f hf' => ?_, fun e he => (hs.fits e he).later List.prefix_rfl hgrows⟩⟩
  · rw [hmade, hfulfilled]
    exact hs.unmade
  · rw [hf]
    exact hs.distinct
  · rw [hf] at hf'
    apply (hs.functors f hf').later List.prefix_rfl hgrows
    · exact Nat.le_of_eq hmade.symm
    · rw [hfulfilled]

theorem elsewhere (hs : use.Recorded h s) (he : s.Elsewhere s') : s.Grows s' ∧ use.Recorded h s' := by
  have hgrows : s.Grows s' := ⟨he.functors ▸ List.prefix_rfl, he.fulfilled⟩
  refine ⟨hgrows, ⟨he.unmade, ?_, fun f hf => ?_, fun e h' => ?_⟩⟩
  · rw [he.functors]
    exact hs.distinct
  · rw [he.functors] at hf
    exact (hs.functors f hf).later List.prefix_rfl hgrows he.made (he.own f hf)
  · exact (hs.fits e h').later List.prefix_rfl hgrows

theorem runAsyncFunctor {i : ι} (hs : use.Recorded h s) :
    s.Grows (s.runAsyncFunctor i (use.args i)) ∧
      use.Recorded h (s.runAsyncFunctor i (use.args i)) := by
  have hgrows : s.Grows (s.runAsyncFunctor i (use.args i)) := ⟨List.prefix_append _ _, id⟩
  have hmade : s.promises.made ≤ (s.runAsyncFunctor i (use.args i)).promises.made := Nat.le_succ _
  -- the new promise is none of those that were made before
  have hnew : ∀ f ∈ s.functors, f.promise ≠ s.promises.made := by
    intro f hf
    exact Nat.ne_of_lt (hs.functors f hf).made
  refine ⟨hgrows, ⟨fun p hp => hs.unmade p (Nat.le_of_succ_le hp), ?_, ?_, fun e he => ?_⟩⟩
  · intro f hf g hg hfg
    rcases List.mem_append.mp hf with hf | hf <;> rcases List.mem_append.mp hg with hg | hg
    · exact hs.distinct f hf g hg hfg
    · obtain rfl := List.mem_singleton.mp hg
      exact absurd hfg (hnew f hf)
    · obtain rfl := List.mem_singleton.mp hf
      exact absurd hfg.symm (hnew g hg)
    · rw [List.mem_singleton.mp hf, List.mem_singleton.mp hg]
  · intro f hf
    rcases List.mem_append.mp hf with hf | hf
    · exact (hs.functors f hf).later List.prefix_rfl hgrows hmade rfl
    · obtain rfl := List.mem_singleton.mp hf
      refine ⟨rfl, Nat.lt_succ_self _, fun o ho => ?_⟩
      have hnone := hs.unmade s.promises.made (Nat.le_refl _)
      exact absurd (hnone.symm.trans ho) (by simp)
  · exact (hs.fits e he).later List.prefix_rfl hgrows

/-- The promise of a functor is told what is made of the outcome its owner's continuation had. -/
theorem fulfil {f : LoopFunctor ι Msg Ctx} {r : Except Exn Future} {o : Outcome}
    (hs : use.Recorded h s) (hf : f ∈ s.functors) (hr : .came f.owner r ∈ h)
    (ho : s.outcome r = some o) : use.Recorded h (s.fulfil f.promise (o.relayed use.brokenPromise)) := by
  have hgrows : s.Grows (s.fulfil f.promise (o.relayed use.brokenPromise)) := .fulfil _ _
  refine ⟨fun p hp => ?_, hs.distinct, fun g hg => ?_, fun e he => ?_⟩
  · have hne : p ≠ f.promise := by
      have := (hs.functors f hf).made
      have hp : s.promises.made ≤ p := hp
      omega
    exact (if_neg hne).trans (hs.unmade p hp)
  · -- the promises of the functors are distinct, so only this functor is told
    by_cases hgf : g.promise = f.promise
    · obtain rfl := hs.distinct g hg f hf hgf
      have hminds := hs.functors g hf
      refine ⟨hminds.args, hminds.made, fun o' ho' => ?_⟩
      obtain rfl : (s.promises.fulfilled g.promise).getD (o.relayed use.brokenPromise) = o' := by
        simpa [FunctorLoop.fulfil] using ho'
      cases hold : s.promises.fulfilled g.promise with
      | none => exact ⟨r, o, hr, hgrows.outcome ho, rfl⟩
      | some o₀ =>
          obtain ⟨r₀, o₁, hr₀, ho₁, rfl⟩ := hminds.told o₀ hold
          exact ⟨r₀, o₁, hr₀, hgrows.outcome ho₁, rfl⟩
    · exact (hs.functors g hg).later List.prefix_rfl hgrows (Nat.le_refl _) (if_neg hgf)
  · exact (hs.fits e he).later List.prefix_rfl hgrows

end Recorded

variable (use) in
def ledger : Ledger (FunctorLoop ι Msg Ctx U) (LoopEvent ι Msg Ctx) where
  bound _ := True
  inv := use.Recorded
  le := FunctorLoop.Grows
  may := use.Fits
  le_refl _ := .refl
  le_trans := .trans
  inv_append := .append

theorem harmless_user (f : U → Option U) :
    use.ledger.Harmless fun s => (f s.user).map (FunctorLoop.setUser s) := by
  intro h s s' hs hf _
  obtain ⟨u, -, rfl⟩ := Option.map_eq_some_iff.mp hf
  exact hs.congr rfl rfl rfl

variable {R : Type}

theorem honors_user (p : Prog U Empty Empty Empty R) :
    Honors use.ledger (fun _ => True) (fun _ => True) h s
      (p.lift FunctorLoop.user FunctorLoop.setUser) :=
  .lift harmless_user p

/-- Wherever the outcome of `next` becomes known, the promise is told what is made of it. -/
theorem honors_afterNext {f : LoopFunctor ι Msg Ctx} {reply : Reply} (hf : f ∈ s.functors)
    (hr : .came f.owner reply.result ∈ h) :
    Honors use.ledger (fun _ => True) (fun _ => True) h s
      (f.afterNext use.brokenPromise reply : Prog _ _ Empty Empty _) := by
  obtain ⟨result, rpcMeta⟩ := reply
  -- the promise is told what came of `next`, which is on the record
  have htell : ∀ {h' s' o}, use.ledger.Later h s h' s' → use.ledger.inv h' s' →
      s'.outcome result = some o →
        s'.Grows (s'.fulfil f.promise (o.relayed use.brokenPromise)) ∧
          use.Recorded h' (s'.fulfil f.promise (o.relayed use.brokenPromise)) := by
    intro h' s' o hl hinv ho
    exact ⟨.fulfil _ _, Recorded.fulfil hinv (hl.state.mem hf) (hl.mem hr) ho⟩
  rcases result with e | o | promise
  · intro h' s' hl hinv s'' hs _
    obtain rfl := Option.some.inj hs
    obtain ⟨hle, hinv'⟩ := htell (o := .exception e) hl hinv rfl
    exact ⟨hle, hinv', trivial⟩
  · intro h' s' hl hinv s'' hs _
    obtain rfl := Option.some.inj hs
    rw [FunctorLoop.thenValue_eq]
    obtain ⟨hle, hinv'⟩ := htell (o := o) hl hinv rfl
    exact ⟨hle, hinv', trivial⟩
  · refine ⟨?_, trivial⟩
    intro h' s' hl hinv s'' hs _
    obtain ⟨o, ho, rfl⟩ := Option.map_eq_some_iff.mp hs
    rw [FunctorLoop.thenValue_eq]
    obtain ⟨hle, hinv'⟩ := htell hl hinv ho
    exact ⟨hle, hinv', trivial⟩

theorem honors_send (i : ι) :
    Honors use.ledger (fun _ => True) (fun _ => True) h s (use.send i) := by
  cases hi : use.isInLoopThread i with
  | true =>
      rw [use.send_of_loop hi]
      intro h' s' _ _
      refine ⟨rfl, (honors_user _).bind fun reply h₁ s₁ hl₁ _ => ?_⟩
      intro h₂ s₂ hl₂ _
      refine ⟨⟨_, hl₂.mem (hl₁.mem (List.mem_append_right _ (List.mem_singleton.mpr rfl)))⟩, ?_⟩
      intro h'' s'' hl _
      -- what is answered is what came of `next`, unchanged
      exact ⟨.inl ⟨hi, hl.mem (by simp)⟩, trivial⟩
  | false =>
      rw [use.send_of_other hi]
      intro h' s' _ hinv s'' hs _
      obtain rfl := Option.some.inj hs
      obtain ⟨hle, hinv'⟩ := Recorded.runAsyncFunctor (i := i) hinv
      refine ⟨hle, hinv', ?_⟩
      intro h'' s'' hl _
      refine ⟨.inr ⟨hi, _, hl.state.mem (List.mem_append_right _ (List.mem_singleton.mpr rfl)), ?_⟩,
        trivial⟩
      exact ⟨rfl, rfl⟩

theorem honors_loopTurn : Honors use.ledger (fun _ => True) (fun _ => True) h s
    (loopTurn use.brokenPromise use.goesOn use.watched) := by
  rw [use.loopTurn_eq]
  intro h' s' _ hinv s'' hs _
  obtain ⟨f, rfl, -, hget, -, -⟩ := FunctorLoop.take_spec hs
  have hf : f ∈ s'.functors := List.mem_of_getElem? hget
  obtain ⟨hle, hinv'⟩ : s'.Grows { s' with begun := s'.begun + 1, busy := true } ∧
      use.Recorded h' { s' with begun := s'.begun + 1, busy := true } :=
    Recorded.congr hinv rfl rfl rfl
  refine ⟨hle, hinv', ?_⟩
  dsimp only
  rw [hget]
  intro h₁ s₁ hl₁ hinv₁
  -- the functor was made from the arguments of its own message
  have hargs : f.args = use.args f.owner := (hinv₁.functors f (hl₁.state.mem hf)).args
  refine ⟨hargs, (honors_user _).bind fun reply h₂ s₂ hl₂ _ => ?_⟩
  intro h₃ s₃ hl₃ _
  have hforwarded := hl₃.mem (hl₂.mem (List.mem_append_right h₁ (List.mem_singleton.mpr rfl)))
  refine ⟨⟨_, hforwarded⟩, Honors.bind (Φ := fun _ => True) (honors_afterNext ?_ (by simp)) ?_⟩
  · exact hl₃.state.mem (hl₂.state.mem (hl₁.state.mem hf))
  · intro result h₄ s₄ _ _ h₅ s₅ _ hinv₅ s₆ hs₆ _
    obtain rfl := Option.some.inj hs₆
    obtain ⟨hle₆, hinv₆⟩ : s₅.Grows { s₅ with busy := !(use.goesOn || result.isOk) } ∧
        use.Recorded h₅ { s₅ with busy := !(use.goesOn || result.isOk) } :=
      Recorded.congr hinv₅ rfl rfl rfl
    exact ⟨hle₆, hinv₆, trivial⟩

theorem respects_ledger : use.world.Respects use.ledger where
  bound _ _ := trivial
  env _ _ _ he _ hinv := hinv.elsewhere he
  spawn p hp h s := by
    rw [hp]
    exact honors_loopTurn

/-- In every state a run leads to, what was shown of the messages fits the functors and the promises. -/
theorem recorded_run {is : List ι} {es : List (LoopEvent ι Msg Ctx)}
    {b : Pool (FunctorLoop ι Msg Ctx U) (LoopEvent ι Msg Ctx) Empty Unit} (hs : s.Fresh)
    (h : Run use.world ⟨s, is.map use.send⟩ es b) : use.Recorded es b.state := by
  have hstart : Honored use.ledger [] (⟨s, is.map use.send⟩ : Pool _ _ Empty Unit) := by
    refine ⟨⟨hs.unmade, ?_, ?_, by simp⟩, fun p hp => ?_⟩
    · simp [hs.functors]
    · simp [hs.functors]
    · obtain ⟨i, -, rfl⟩ := List.mem_map.mp hp
      exact honors_send i
  exact (h.honored respects_ledger hstart).1.inv

end LoopUse

end GayRpc
