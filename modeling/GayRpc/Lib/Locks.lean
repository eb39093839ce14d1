import GayRpc.Lib.Prog

/-!
# The locks of one thread

A library is a set of operations whose bodies take locks, give them back and run code that may call
further operations. A `Thread` runs such code. It keeps the locks it holds and a stack of the calls it
is in, and it is stuck for good at a request that conflicts with a lock of its own:

    holds shared       asks for shared       goes on
    holds shared       asks for exclusive    stuck
    holds exclusive    asks for either       stuck

Locks are known by name, and there may be any number of them. They need not be recursive, and a thread gives
a lock back only after all that it has taken since.

`Careful` is what a body has to do for that not to happen: it asks for nothing that conflicts with what
it holds, gives back what it takes, and calls operations only while it holds what it is known to hold
then. So a thread holds what its calls say that it holds, and nothing else (`heldIn`), however it has come
there.

A `Discipline` says which calls are carried out carefully and which run into their own locks,
and `Thread.Run.conflicted_iff` that a thread is stuck if and only if it has made one of the latter. What
the other threads do to the state on the way is up to them.
-/

inductive LockMode where
  | shared
  | exclusive
  deriving DecidableEq

/-- Who holds a lock in the one mode keeps away who asks for it in the other. -/
def LockMode.Excludes : LockMode → LockMode → Prop
  | shared, shared => False
  | _, _ => True

inductive LockEvent (L : Type) where
  | acquire (lock : L) (mode : LockMode)
  | release (lock : L) (mode : LockMode)

/-- The locks that a thread holds, the latest one first. -/
abbrev HeldLocks (L : Type) : Type := List (L × LockMode)

/-- A request for a lock that is held in a mode which keeps it away. -/
def SelfConflict {L : Type} (held : HeldLocks L) (lock : L) (mode : LockMode) : Prop :=
  ∃ m : LockMode, (lock, m) ∈ held ∧ m.Excludes mode

namespace Prog

variable {S T L Q A R R' : Type}

/-- `p` under a lock, which is given back when `p` comes back. -/
def withLock (lock : L) (mode : LockMode) (p : Prog S (LockEvent L) Q A R) :
    Prog S (LockEvent L) Q A R :=
  .emit (.acquire lock mode) (p.bind fun r => .emit (.release lock mode) (.ret r))

/-- The program starts while `held` is held and comes back while `held'` is. In between it makes no
request that conflicts with what is held, gives back the lock it has taken last, and asks while `calm`
is held. The threads that it starts hold nothing at first. -/
def Careful (calm : HeldLocks L) : Prog S (LockEvent L) Q A R → HeldLocks L → HeldLocks L → Prop
  | ret _, held, held' => held = held'
  | halt, _, _ => True
  | ask _ k, held, held' => held = calm ∧ ∀ a, (k a).Careful calm held held'
  | act _ k, held, held' => ∀ s, (k s).Careful calm held held'
  | emit (.acquire lock mode) k, held, held' =>
    ¬SelfConflict held lock mode ∧ k.Careful calm ((lock, mode) :: held) held'
  | emit (.release lock mode) k, held, held' =>
    ∃ rest, held = (lock, mode) :: rest ∧ k.Careful calm rest held'
  | fork p k, held, held' => p.Careful [] [] [] ∧ k.Careful calm held held'

/-- The program does nothing with locks: wherever it runs, what is held stays held. -/
def Lockless (p : Prog S (LockEvent L) Q A R) : Prop := ∀ held, p.Careful held held held

/-- The program begins with a request that conflicts with what is held. -/
def Blocks (held : HeldLocks L) (p : Prog S (LockEvent L) Q A R) : Prop :=
  ∃ lock mode k, p = emit (.acquire lock mode) k ∧ SelfConflict held lock mode

namespace Careful

variable {calm held held' held'' : HeldLocks L} {p : Prog S (LockEvent L) Q A R}
  {k : R → Prog S (LockEvent L) Q A R'}

theorem bind (h : p.Careful calm held held') (hk : ∀ r, (k r).Careful calm held' held'') :
    (p.bind k).Careful calm held held'' := by
  induction p generalizing calm held held' held'' R' with
  | ret r =>
      obtain rfl : held = held' := h
      exact hk r
  | halt => trivial
  | ask q c ih => exact ⟨h.1, fun a => ih a (h.2 a) hk⟩
  | act f c ih => exact fun s => ih s (h s) hk
  | emit e c ih =>
      cases e with
      | acquire lock mode => exact ⟨h.1, ih h.2 hk⟩
      | release lock mode =>
          obtain ⟨rest, hrest, hc⟩ := h
          exact ⟨rest, hrest, ih hc hk⟩
  | fork p c ihp ihc =>
      -- a thread that was started ends where it would come back
      exact ⟨ihp h.1 fun _ => trivial, ihc h.2 hk⟩

theorem withLock {lock : L} {mode : LockMode} (hfree : ¬SelfConflict held lock mode)
    (h : p.Careful calm ((lock, mode) :: held) ((lock, mode) :: held)) :
    (p.withLock lock mode).Careful calm held held := by
  refine ⟨hfree, h.bind fun r => ?_⟩
  exact ⟨held, rfl, rfl⟩

/-- A careful program is not stuck at its beginning. -/
theorem not_blocks (h : p.Careful calm held held') : ¬p.Blocks held := by
  rintro ⟨lock, mode, k, rfl, hconf⟩
  exact h.1 hconf

end Careful

namespace Lockless

variable {p : Prog S (LockEvent L) Q A R}

theorem ret (r : R) : (ret r : Prog S (LockEvent L) Q A R).Lockless := fun _ => rfl

theorem halt : (halt : Prog S (LockEvent L) Q A R).Lockless := fun _ => trivial

theorem ask {q : Q} {k : A → Prog S (LockEvent L) Q A R} (h : ∀ a, (k a).Lockless) :
    (ask q k).Lockless := fun held => ⟨rfl, fun a => h a held⟩

theorem act {f : S → Option S} {k : S → Prog S (LockEvent L) Q A R} (h : ∀ s, (k s).Lockless) :
    (act f k).Lockless := fun held s => h s held

theorem fork {k : Prog S (LockEvent L) Q A R} (hp : p.Lockless) (hk : k.Lockless) :
    (fork p k).Lockless := fun held => ⟨hp [], hk held⟩

theorem bind {k : R → Prog S (LockEvent L) Q A R'} (hp : p.Lockless) (hk : ∀ r, (k r).Lockless) :
    (p.bind k).Lockless := fun held => (hp held).bind fun r => hk r held

/-- Code that knows nothing of the locks, run beside them. -/
theorem lift {get : S → T} {set : S → T → S} (p : Prog T Empty Q A R) :
    (p.lift get set : Prog S (LockEvent L) Q A R).Lockless := by
  induction p with
  | ret r => exact ret r
  | halt => exact halt
  | ask q c ih => exact ask ih
  | act f c ih => exact act fun s => ih (get s)
  | emit e c ih => exact e.elim
  | fork p c ihp ihc => exact fork ihp ihc

end Lockless

end Prog

/-- A thread that is in some calls. Each stands on the stack with what its caller goes on with. -/
structure Thread (S L C A : Type) where
  state : S
  held : HeldLocks L
  prog : Prog S (LockEvent L) C A A
  stack : List (C × (A → Prog S (LockEvent L) C A A))

namespace Thread

variable {S L C A : Type}

def start (s : S) (p : Prog S (LockEvent L) C A A) : Thread S L C A :=
  { state := s, held := [], prog := p, stack := [] }

def calls (t : Thread S L C A) : List C := t.stack.map Prod.fst

/-- The bad state: the thread asks for a lock, and a lock of its own keeps it away. -/
def Conflicted (t : Thread S L C A) : Prop := t.prog.Blocks t.held

variable [DecidableEq L]

/-- A step of a thread, which shows each call that it makes, with the calls that it makes it in. Where
the thread starts another one, the step goes on with either. What the other threads do to the state is
up to them. -/
inductive Step (body : C → Prog S (LockEvent L) C A A) :
    Thread S L C A → List (List C) → Thread S L C A → Prop where
  | act {s s' : S} {held f k stack} (h : f s = some s') :
      Step body ⟨s, held, .act f k, stack⟩ [] ⟨s', held, k s, stack⟩
  | acquire {s held lock mode k stack} (h : ¬SelfConflict held lock mode) :
      Step body ⟨s, held, .emit (.acquire lock mode) k, stack⟩ [] ⟨s, (lock, mode) :: held, k, stack⟩
  | release {s held lock mode k stack} :
      Step body ⟨s, held, .emit (.release lock mode) k, stack⟩ [] ⟨s, held.erase (lock, mode), k, stack⟩
  | call {s held c k stack} :
      Step body ⟨s, held, .ask c k, stack⟩ [c :: stack.map Prod.fst] ⟨s, held, body c, (c, k) :: stack⟩
  | return {s held a c k stack} :
      Step body ⟨s, held, .ret a, (c, k) :: stack⟩ [] ⟨s, held, k a, stack⟩
  | fork {s held p k stack} : Step body ⟨s, held, .fork p k, stack⟩ [] ⟨s, held, k, stack⟩
  | forked {s held p k stack} : Step body ⟨s, held, .fork p k, stack⟩ [] (start s p)
  | env {s s' held p stack} : Step body ⟨s, held, p, stack⟩ [] ⟨s', held, p, stack⟩

inductive Run (body : C → Prog S (LockEvent L) C A A) (t : Thread S L C A) :
    List (List C) → Thread S L C A → Prop where
  | refl : Run body t [] t
  | tail {u v : Thread S L C A} {es fs : List (List C)} (h : Run body t es u)
      (hs : Step body u fs v) : Run body t (es ++ fs) v

/-- A thread that its own locks keep away takes no step any more. -/
theorem Conflicted.step {body : C → Prog S (LockEvent L) C A A} {t u : Thread S L C A}
    {es : List (List C)} (h : t.Conflicted) (hs : Step body t es u) : u.Conflicted ∧ es = [] := by
  obtain ⟨lock, mode, k, hp, hconf⟩ := h
  cases hs with
  | acquire hfree =>
      cases hp
      exact absurd hconf hfree
  | env => exact ⟨⟨lock, mode, k, hp, hconf⟩, rfl⟩
  | act _ => cases hp
  | release => cases hp
  | call => cases hp
  | «return» => cases hp
  | fork => cases hp
  | forked => cases hp

end Thread

/-- How the operations of a library go about their locks. `during` tells what an operation holds where
it runs code that is not its own, by what was held when it was called. A call is known by the operation
and the calls it is made in; those that `Offends` tells apart ask at once for what their thread holds,
and all others are careful. -/
structure Discipline {S L C A : Type} (body : C → Prog S (LockEvent L) C A A) where
  during : C → HeldLocks L → HeldLocks L
  Offends : C → List C → Prop
  careful : ∀ {c outer}, ¬Offends c outer →
    (body c).Careful ((c :: outer).foldr during []) (outer.foldr during []) (outer.foldr during [])
  blocks : ∀ {c outer}, Offends c outer → (body c).Blocks (outer.foldr during [])

namespace Discipline

variable {S L C A : Type} {body : C → Prog S (LockEvent L) C A A} (D : Discipline body)

/-- What a thread holds that is in the given calls, where it runs code that is not the library's. -/
def heldIn (calls : List C) : HeldLocks L := calls.foldr D.during []

/-- The code that the innermost of some calls runs is careful. -/
def CarefulIn (calls : List C) (held : HeldLocks L) (p : Prog S (LockEvent L) C A A) : Prop :=
  p.Careful (D.heldIn calls) held (D.heldIn calls.tail)

def CarefulStack : List (C × (A → Prog S (LockEvent L) C A A)) → Prop
  | [] => True
  | (_, k) :: stack =>
    (∀ a, D.CarefulIn (stack.map Prod.fst) (D.heldIn (stack.map Prod.fst)) (k a)) ∧
      CarefulStack stack

/-- The thread is on its way through calls that none of its locks stands in the way of. -/
structure Orderly (t : Thread S L C A) : Prop where
  prog : D.CarefulIn t.calls t.held t.prog
  stack : D.CarefulStack t.stack

/-- One of the calls offends. -/
def Offended (es : List (List C)) : Prop := ∃ c outer, c :: outer ∈ es ∧ D.Offends c outer

variable {D}

theorem not_offended_nil : ¬D.Offended [] := by
  rintro ⟨c, outer, hmem, -⟩
  exact List.not_mem_nil hmem

theorem offended_append {es fs : List (List C)} :
    D.Offended (es ++ fs) ↔ D.Offended es ∨ D.Offended fs := by
  unfold Offended
  simp only [List.mem_append]
  grind

theorem offended_singleton {c : C} {outer : List C} :
    D.Offended [c :: outer] ↔ D.Offends c outer := by
  unfold Offended
  simp only [List.mem_singleton, List.cons.injEq]
  grind

theorem Orderly.not_conflicted {t : Thread S L C A} (h : D.Orderly t) : ¬t.Conflicted :=
  h.prog.not_blocks

theorem Orderly.start {p : Prog S (LockEvent L) C A A} (h : p.Careful [] [] []) (s : S) :
    D.Orderly (Thread.start s p) := ⟨h, trivial⟩

variable [DecidableEq L]

/-- An orderly thread stays so, but for a call that offends. -/
theorem Orderly.step {t u : Thread S L C A} {es : List (List C)} (h : D.Orderly t)
    (hs : t.Step body es u) : (D.Orderly u ∧ ¬D.Offended es) ∨ (u.Conflicted ∧ D.Offended es) := by
  obtain ⟨hp, hstack⟩ := h
  cases hs with
  | act hf => exact .inl ⟨⟨hp _, hstack⟩, not_offended_nil⟩
  | acquire hfree => exact .inl ⟨⟨hp.2, hstack⟩, not_offended_nil⟩
  | @release s held lock mode k stack =>
      -- what is given back is what was taken last
      obtain ⟨rest, rfl, hk⟩ := hp
      refine .inl ⟨⟨?_, hstack⟩, not_offended_nil⟩
      show D.CarefulIn (stack.map Prod.fst) (((lock, mode) :: rest).erase (lock, mode)) k
      rw [List.erase_cons_head]
      exact hk
  | @call s held c k stack =>
      have hheld : held = D.heldIn (stack.map Prod.fst) := hp.1
      have hk : ∀ a, D.CarefulIn (stack.map Prod.fst) held (k a) := hp.2
      subst hheld
      by_cases hoff : D.Offends c (stack.map Prod.fst)
      · exact .inr ⟨D.blocks hoff, offended_singleton.mpr hoff⟩
      · exact .inl ⟨⟨D.careful hoff, hk, hstack⟩, mt offended_singleton.mp hoff⟩
  | @«return» s held a c k stack =>
      have hheld : held = D.heldIn (stack.map Prod.fst) := hp
      subst hheld
      exact .inl ⟨⟨hstack.1 a, hstack.2⟩, not_offended_nil⟩
  | fork => exact .inl ⟨⟨hp.2, hstack⟩, not_offended_nil⟩
  | forked => exact .inl ⟨.start hp.1 _, not_offended_nil⟩
  | env => exact .inl ⟨⟨hp, hstack⟩, not_offended_nil⟩

end Discipline

/-- A thread that begins with careful code is kept away by its own locks if and only if one of the calls
it has made offends. -/
theorem Thread.Run.conflicted_iff {S L C A : Type} [DecidableEq L]
    {body : C → Prog S (LockEvent L) C A A} (D : Discipline body) {s : S}
    {p : Prog S (LockEvent L) C A A} (hp : p.Careful [] [] []) {es : List (List C)}
    {t : Thread S L C A} (h : (Thread.start s p).Run body es t) :
    t.Conflicted ↔ D.Offended es := by
  have hstate : (D.Orderly t ∧ ¬D.Offended es) ∨ (t.Conflicted ∧ D.Offended es) := by
    induction h with
    | refl => exact .inl ⟨.start hp s, Discipline.not_offended_nil⟩
    | @tail u v es fs _ hs ih =>
        rw [Discipline.offended_append]
        obtain ⟨hord, hes⟩ | ⟨hconf, hes⟩ := ih
        · obtain ⟨hord', hfs⟩ | ⟨hconf, hfs⟩ := hord.step hs
          · exact .inl ⟨hord', not_or.mpr ⟨hes, hfs⟩⟩
          · exact .inr ⟨hconf, .inr hfs⟩
        · exact .inr ⟨(hconf.step hs).1, .inl hes⟩
  obtain ⟨hord, hes⟩ | ⟨hconf, hes⟩ := hstate
  · exact iff_of_false hord.not_conflicted hes
  · exact iff_of_true hconf hes
