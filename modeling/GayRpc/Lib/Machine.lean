import GayRpc.Lib.Locks
import Mathlib.Data.List.Infix
import Mathlib.Data.List.Pairwise

/-!
# Many threads and their locks

The threads of a machine share a state, and each of them runs code as a `Thread` does. A lock that is held
in a mode which excludes the one that is asked for keeps every thread away. A machine lets in whoever is not
kept away; a lock that lets readers wait behind a writer who waits himself allows fewer runs, and no others.
Nothing is assumed about it here but that it never lets in two threads whose modes exclude each other. Who
waits for whom depends on the lock, though, and `WaitsFor` counts readers behind writers in.

A `Protection` says what each lock protects, as a part of the state. `Obeys` is what code has to do for
the locks to protect it: it touches what a lock protects only while it holds the lock. That is asked of a
section and of what follows it, since what follows may depend on what the section has read:

* `Writes`: the section may change the part, so the lock has to be held exclusively;
* `Reads`: what the section does elsewhere, or what follows it, depends on the part, so the lock has to be
  held in some mode.

A `Regime` is a library whose operations obey, and then every machine is `Sound` (`Run.sound`): no two
threads hold a lock in modes that exclude each other. From that it follows

* that what a lock protects changes for nobody who holds it (`Sound.alone`, `Run.part_eq`),
* that no two threads get at it at the same time, one of them to change it (`Sound.race_free`),
* and that a thread which waits is in a call that asks for the lock (`Sound.requests`), which is where a
  statement about deadlocks begins.

Each thread of a machine does what it might do by itself (`Run.thread`), so that what is proved of one
thread in `Lib/Locks` holds here.
-/

theorem LockMode.excludes_comm {m m' : LockMode} : m.Excludes m' ↔ m'.Excludes m := by
  cases m <;> cases m' <;> rfl

/-- What each lock protects. -/
structure Protection (S L : Type) where
  Part : L → Type
  part : (lock : L) → S → Part lock
  put : (lock : L) → Part lock → S → S

namespace Protection

variable {S L α : Type} (P : Protection S L)

/-- A section may change what the lock protects. -/
def Writes (lock : L) (f : S → Option S) : Prop := ∃ s s', f s = some s' ∧ P.part lock s' ≠ P.part lock s

/-- What follows a section, or what the section does elsewhere, depends on what the lock protects. -/
def Reads (lock : L) (f : S → Option S) (k : S → α) : Prop :=
  ∃ s x, k (P.put lock x s) ≠ k s ∨ ∀ y, f (P.put lock x s) ≠ (f s).map (P.put lock y)

/-- A section, and what follows it, touches only what the locks that are held protect, and changes only what
is held exclusively. -/
structure Covers (held : HeldLocks L) (f : S → Option S) (k : S → α) : Prop where
  writes : ∀ {lock}, P.Writes lock f → (lock, .exclusive) ∈ held
  reads : ∀ {lock}, P.Reads lock f k → ∃ mode, (lock, mode) ∈ held

/-- A section, and what follows it, has nothing to do with what the lock protects. -/
structure Ignores (lock : L) (f : S → Option S) (k : S → α) : Prop where
  leaves : ∀ {s s'}, f s = some s' → P.part lock s' = P.part lock s
  section_put : ∀ s x, f (P.put lock x s) = (f s).map (P.put lock x)
  next_put : ∀ s x, k (P.put lock x s) = k s

variable {P} {held : HeldLocks L} {lock : L} {mode : LockMode} {f : S → Option S} {k : S → α}

theorem Ignores.not_writes (h : P.Ignores lock f k) : ¬P.Writes lock f := by
  rintro ⟨s, s', hs', hne⟩
  exact hne (h.leaves hs')

theorem Ignores.not_reads (h : P.Ignores lock f k) : ¬P.Reads lock f k := by
  rintro ⟨s, x, hne | hall⟩
  · exact hne (h.next_put s x)
  · exact hall x (h.section_put s x)

theorem Covers.of_ignores (h : ∀ lock, P.Ignores lock f k) : P.Covers held f k :=
  ⟨fun hw => absurd hw (h _).not_writes, fun hr => absurd hr (h _).not_reads⟩

/-- A section that is about what one lock protects, which is held exclusively. -/
theorem Covers.of_exclusive (h : ∀ l, l ≠ lock → P.Ignores l f k) :
    P.Covers ((lock, .exclusive) :: held) f k := by
  constructor
  · intro l hw
    by_cases hl : l = lock
    · subst hl
      exact List.mem_cons_self
    · exact absurd hw (h l hl).not_writes
  · intro l hr
    by_cases hl : l = lock
    · subst hl
      exact ⟨_, List.mem_cons_self⟩
    · exact absurd hr (h l hl).not_reads

/-- Looking at what a lock protects. -/
theorem Covers.of_look (h : ∀ l, l ≠ lock → P.Ignores l some k) :
    P.Covers ((lock, mode) :: held) some k := by
  constructor
  · rintro l ⟨s, s', hs', hne⟩
    exact absurd (congrArg (P.part l) (Option.some.inj hs').symm) hne
  · intro l hr
    by_cases hl : l = lock
    · subst hl
      exact ⟨_, List.mem_cons_self⟩
    · exact absurd hr (h l hl).not_reads

end Protection

namespace Prog

variable {S L Q A R R' : Type}

/-- The program starts while `held` is held and comes back while `held'` is. It gives back the lock that
it has taken last, but nothing of `base`, and asks while `calm` is held; its sections are covered, and what
it asks for `Requests` allows. The threads that it starts hold nothing and ask for nothing. -/
def Obeys (P : Protection S L) :
    (HeldLocks L → L → LockMode → Prop) → HeldLocks L → HeldLocks L → Prog S (LockEvent L) Q A R →
      HeldLocks L → HeldLocks L → Prop
  | _, _, _, ret _, held, held' => held = held'
  | _, _, _, halt, _, _ => True
  | Requests, base, calm, ask _ k, held, held' =>
    held = calm ∧ ∀ a, Obeys P Requests base calm (k a) held held'
  | Requests, base, calm, act f k, held, held' =>
    P.Covers held f k ∧ ∀ s, Obeys P Requests base calm (k s) held held'
  | Requests, base, calm, emit (.acquire lock mode) k, held, held' =>
    Requests held lock mode ∧ Obeys P Requests base calm k ((lock, mode) :: held) held'
  | Requests, base, calm, emit (.release lock mode) k, held, held' =>
    ∃ rest, held = (lock, mode) :: rest ∧ base <:+ rest ∧ Obeys P Requests base calm k rest held'
  | Requests, base, calm, fork p k, held, held' =>
    Obeys P (fun _ _ _ => False) [] [] p [] [] ∧ Obeys P Requests base calm k held held'

/-- The program does nothing with locks, and its sections need none. -/
def Open (P : Protection S L) (p : Prog S (LockEvent L) Q A R) : Prop :=
  ∀ Requests base held, p.Obeys P Requests base held held held

namespace Obeys

variable {P : Protection S L} {Requests : HeldLocks L → L → LockMode → Prop}
  {base calm held held' held'' : HeldLocks L} {p : Prog S (LockEvent L) Q A R}
  {k : R → Prog S (LockEvent L) Q A R'}

theorem bind (h : p.Obeys P Requests base calm held held')
    (hk : ∀ r, (k r).Obeys P Requests base calm held' held'') :
    (p.bind k).Obeys P Requests base calm held held'' := by
  induction p generalizing Requests base calm held held' held'' R' with
  | ret r =>
      obtain rfl : held = held' := h
      exact hk r
  | halt => trivial
  | ask q c ih => exact ⟨h.1, fun a => ih a (h.2 a) hk⟩
  | act f c ih =>
      -- what the section reads decides how it goes on, and so how the whole goes on
      refine ⟨⟨h.1.writes, ?_⟩, fun s => ih s (h.2 s) hk⟩
      rintro lock ⟨s, x, hreads⟩
      apply h.1.reads
      refine ⟨s, x, hreads.imp_left fun hne heq => hne ?_⟩
      exact congrArg (fun p => Prog.bind p k) heq
  | emit e c ih =>
      cases e with
      | acquire lock mode => exact ⟨h.1, ih h.2 hk⟩
      | release lock mode =>
          obtain ⟨rest, hrest, hbase, hc⟩ := h
          exact ⟨rest, hrest, hbase, ih hc hk⟩
  | fork p c ihp ihc => exact ⟨ihp h.1 fun _ => trivial, ihc h.2 hk⟩

theorem withLock {lock : L} {mode : LockMode} (hrequest : Requests held lock mode) (hbase : base <:+ held)
    (h : p.Obeys P Requests base calm ((lock, mode) :: held) ((lock, mode) :: held)) :
    (p.withLock lock mode).Obeys P Requests base calm held held := by
  refine ⟨hrequest, h.bind fun r => ?_⟩
  exact ⟨held, rfl, hbase, rfl⟩

end Obeys

namespace Open

variable {P : Protection S L} {p : Prog S (LockEvent L) Q A R}

theorem ret (r : R) : (ret r : Prog S (LockEvent L) Q A R).Open P := fun _ _ _ => rfl

theorem halt : (halt : Prog S (LockEvent L) Q A R).Open P := fun _ _ _ => trivial

theorem ask {q : Q} {k : A → Prog S (LockEvent L) Q A R} (h : ∀ a, (k a).Open P) :
    (ask q k).Open P := fun Requests base held => ⟨rfl, fun a => h a Requests base held⟩

theorem act {f : S → Option S} {k : S → Prog S (LockEvent L) Q A R} (hf : ∀ lock, P.Ignores lock f k)
    (h : ∀ s, (k s).Open P) : (act f k).Open P :=
  fun Requests base held => ⟨.of_ignores hf, fun s => h s Requests base held⟩

theorem fork {k : Prog S (LockEvent L) Q A R} (hp : p.Open P) (hk : k.Open P) : (fork p k).Open P :=
  fun Requests base held => ⟨hp _ [] [], hk Requests base held⟩

theorem bind {k : R → Prog S (LockEvent L) Q A R'} (hp : p.Open P) (hk : ∀ r, (k r).Open P) :
    (p.bind k).Open P :=
  fun Requests base held => (hp Requests base held).bind fun r => hk r Requests base held

end Open

end Prog

structure Strand (S L C A : Type) where
  held : HeldLocks L
  prog : Prog S (LockEvent L) C A A
  stack : List (C × (A → Prog S (LockEvent L) C A A))

namespace Strand

variable {S L C A : Type}

def start (p : Prog S (LockEvent L) C A A) : Strand S L C A := { held := [], prog := p, stack := [] }

def calls (t : Strand S L C A) : List C := t.stack.map Prod.fst

def thread (t : Strand S L C A) (s : S) : Thread S L C A :=
  { state := s, held := t.held, prog := t.prog, stack := t.stack }

/-- The thread holds no lock in modes that exclude each other. -/
def Consistent (t : Strand S L C A) : Prop :=
  t.held.Pairwise fun a b => a.1 = b.1 → ¬a.2.Excludes b.2

theorem Consistent.not_shared {t : Strand S L C A} {lock : L} (h : t.Consistent)
    (hexcl : (lock, .exclusive) ∈ t.held) : (lock, .shared) ∉ t.held := by
  intro hshared
  have hsymm : Std.Symm fun a b : L × LockMode => a.1 = b.1 → ¬a.2.Excludes b.2 :=
    ⟨fun a b hab heq hex => hab heq.symm (LockMode.excludes_comm.mp hex)⟩
  exact h.forall hexcl hshared (fun heq => by cases heq) rfl trivial

variable [DecidableEq L]

/-- A step, with the state that it leaves and the threads that it starts. `Free` tells which requests
nobody else stands in the way of. -/
inductive Step (body : C → Prog S (LockEvent L) C A A) (Free : L → LockMode → Prop) :
    S → Strand S L C A → S → Strand S L C A → List (Strand S L C A) → Prop where
  | act {s s' : S} {held f k stack} (h : f s = some s') :
      Step body Free s ⟨held, .act f k, stack⟩ s' ⟨held, k s, stack⟩ []
  | acquire {s held lock mode k stack} (h : Free lock mode) :
      Step body Free s ⟨held, .emit (.acquire lock mode) k, stack⟩ s ⟨(lock, mode) :: held, k, stack⟩ []
  | release {s held lock mode k stack} :
      Step body Free s ⟨held, .emit (.release lock mode) k, stack⟩ s
        ⟨held.erase (lock, mode), k, stack⟩ []
  | call {s held c k stack} :
      Step body Free s ⟨held, .ask c k, stack⟩ s ⟨held, body c, (c, k) :: stack⟩ []
  | return {s held a c k stack} :
      Step body Free s ⟨held, .ret a, (c, k) :: stack⟩ s ⟨held, k a, stack⟩ []
  | fork {s held p k stack} :
      Step body Free s ⟨held, .fork p k, stack⟩ s ⟨held, k, stack⟩ [start p]

end Strand

/-- The threads that run, and the state they share. A thread keeps its number. -/
structure Machine (S L C A : Type) where
  state : S
  strands : List (Strand S L C A)

namespace Machine

variable {S L C A : Type}

/-- No thread stands in the way of a request. -/
def Free (M : Machine S L C A) (lock : L) (mode : LockMode) : Prop :=
  ∀ t ∈ M.strands, ¬SelfConflict t.held lock mode

/-- Thread `i` asks for a lock, and `j` holds it in a mode which keeps it away. -/
def KeptAwayBy (M : Machine S L C A) (i j : ℕ) : Prop :=
  ∃ t u lock mode k, M.strands[i]? = some t ∧ M.strands[j]? = some u ∧
    t.prog = .emit (.acquire lock mode) k ∧ SelfConflict u.held lock mode

/-- Thread `i` asks for a lock in shared mode, and `j` asks for it exclusively. -/
def QueuedBehind (M : Machine S L C A) (i j : ℕ) : Prop :=
  ∃ t u lock k l, M.strands[i]? = some t ∧ M.strands[j]? = some u ∧
    t.prog = .emit (.acquire lock .shared) k ∧ u.prog = .emit (.acquire lock .exclusive) l

/-- Thread `i` may have to wait until `j` has gone on: whether readers are let in before a writer who
waits is up to the lock. -/
def WaitsFor (M : Machine S L C A) (i j : ℕ) : Prop := M.KeptAwayBy i j ∨ M.QueuedBehind i j

/-- Who waits for nobody is let in. -/
theorem free_of_not_waitsFor {M : Machine S L C A} {i : ℕ} {t : Strand S L C A} {lock : L}
    {mode : LockMode} {k : Prog S (LockEvent L) C A A} (ht : M.strands[i]? = some t)
    (hp : t.prog = .emit (.acquire lock mode) k) (h : ∀ j, ¬M.WaitsFor i j) : M.Free lock mode := by
  intro u hu hconf
  obtain ⟨j, hj⟩ := List.mem_iff_getElem?.mp hu
  exact h j (.inl ⟨t, u, lock, mode, k, ht, hj, hp, hconf⟩)

variable [DecidableEq L]

def Moves (body : C → Prog S (LockEvent L) C A A) (M : Machine S L C A) (i : ℕ) (M' : Machine S L C A) :
    Prop :=
  ∃ t s' t' started, M.strands[i]? = some t ∧ Strand.Step body M.Free M.state t s' t' started ∧
    M' = ⟨s', M.strands.set i t' ++ started⟩

/-- A step: of a thread, of what else changes the state, or the start of a thread that comes from
outside. -/
inductive Step (body : C → Prog S (LockEvent L) C A A) (env : S → S → Prop)
    (starts : Prog S (LockEvent L) C A A → Prop) : Machine S L C A → Machine S L C A → Prop where
  | task {M M' : Machine S L C A} {i : ℕ} (h : Moves body M i M') : Step body env starts M M'
  | env {s s' strands} (h : env s s') : Step body env starts ⟨s, strands⟩ ⟨s', strands⟩
  | start {s strands p} (h : starts p) : Step body env starts ⟨s, strands⟩ ⟨s, strands ++ [.start p]⟩

/-- Any number of steps. All machines on the way satisfy `I`, the first and the last one included. -/
inductive Run (body : C → Prog S (LockEvent L) C A A) (env : S → S → Prop)
    (starts : Prog S (LockEvent L) C A A → Prop) (I : Machine S L C A → Prop) (M : Machine S L C A) :
    Machine S L C A → Prop where
  | refl (hI : I M) : Run body env starts I M M
  | tail {M' M'' : Machine S L C A} (h : Run body env starts I M M')
      (hs : Step body env starts M' M'') (hI : I M'') : Run body env starts I M M''

end Machine

/-- A library whose operations obey. `during` tells what an operation holds where it runs code that is not
its own, by what was held when it was called, and `Requests` what it asks for, by the calls it is made in. -/
structure Regime {S L C A : Type} (body : C → Prog S (LockEvent L) C A A) where
  protection : Protection S L
  during : C → HeldLocks L → HeldLocks L
  Requests : C → List C → HeldLocks L → L → LockMode → Prop
  suffix_during : ∀ c held, held <:+ during c held
  obeys : ∀ c outer, (body c).Obeys protection (Requests c outer) (outer.foldr during [])
    ((c :: outer).foldr during []) (outer.foldr during []) (outer.foldr during [])

namespace Regime

variable {S L C A : Type} {body : C → Prog S (LockEvent L) C A A} (D : Regime body)

/-- What a thread holds that is in the given calls, where it runs code that is not the library's. -/
def heldIn (calls : List C) : HeldLocks L := calls.foldr D.during []

def requestsIn : List C → HeldLocks L → L → LockMode → Prop
  | [] => fun _ _ _ => False
  | c :: outer => D.Requests c outer

/-- The code that the innermost of some calls runs obeys. -/
def ObeysIn (calls : List C) (held : HeldLocks L) (p : Prog S (LockEvent L) C A A) : Prop :=
  p.Obeys D.protection (D.requestsIn calls) (D.heldIn calls.tail) (D.heldIn calls) held
    (D.heldIn calls.tail)

def ObeysStack : List (C × (A → Prog S (LockEvent L) C A A)) → Prop
  | [] => True
  | (_, k) :: stack =>
    (∀ a, D.ObeysIn (stack.map Prod.fst) (D.heldIn (stack.map Prod.fst)) (k a)) ∧ ObeysStack stack

/-- The thread is on its way through code that obeys, and holds all that its callers hold. -/
structure Orderly (t : Strand S L C A) : Prop where
  prog : D.ObeysIn t.calls t.held t.prog
  suffix : D.heldIn t.calls.tail <:+ t.held
  stack : D.ObeysStack t.stack

/-- Code from outside, which does nothing with locks by itself. -/
def Outside (p : Prog S (LockEvent L) C A A) : Prop :=
  p.Obeys D.protection (fun _ _ _ => False) [] [] [] []

variable {D}

theorem suffix_tail (calls : List C) : D.heldIn calls.tail <:+ D.heldIn calls := by
  cases calls with
  | nil => exact List.suffix_refl _
  | cons c outer => exact D.suffix_during c _

theorem Orderly.start {p : Prog S (LockEvent L) C A A} (h : D.Outside p) :
    D.Orderly (Strand.start p) := ⟨h, List.suffix_refl _, trivial⟩

variable [DecidableEq L] {Free : L → LockMode → Prop} {s s' : S} {t t' : Strand S L C A}
  {started : List (Strand S L C A)}

/-- A thread stays orderly, and so are those that it starts. -/
theorem Orderly.step (h : D.Orderly t) (hs : Strand.Step body Free s t s' t' started) :
    D.Orderly t' ∧ ∀ u ∈ started, D.Orderly u := by
  obtain ⟨hp, hsuffix, hstack⟩ := h
  have hnone : ∀ u ∈ ([] : List (Strand S L C A)), D.Orderly u := fun u hu => absurd hu List.not_mem_nil
  cases hs with
  | act hf => exact ⟨⟨hp.2 s, hsuffix, hstack⟩, hnone⟩
  | acquire hfree => exact ⟨⟨hp.2, hsuffix.trans (List.suffix_cons _ _), hstack⟩, hnone⟩
  | @release held lock mode k stack =>
      -- what is given back is what was taken last
      obtain ⟨rest, rfl, hbase, hk⟩ := hp
      refine ⟨?_, hnone⟩
      have hrest : ((lock, mode) :: rest).erase (lock, mode) = rest := List.erase_cons_head _ _
      rw [hrest]
      exact ⟨hk, hbase, hstack⟩
  | @call held c k stack =>
      have hheld : held = D.heldIn (stack.map Prod.fst) := hp.1
      subst hheld
      exact ⟨⟨D.obeys c (stack.map Prod.fst), List.suffix_refl _, hp.2, hstack⟩, hnone⟩
  | @«return» held a c k stack =>
      have hheld : held = D.heldIn (stack.map Prod.fst) := hp
      subst hheld
      exact ⟨⟨hstack.1 a, suffix_tail _, hstack.2⟩, hnone⟩
  | @fork held p k stack =>
      refine ⟨⟨hp.2, hsuffix, hstack⟩, fun u hu => ?_⟩
      obtain rfl := List.mem_singleton.mp hu
      exact .start hp.1

end Regime

namespace Strand

variable {S L C A : Type} [DecidableEq L] {body : C → Prog S (LockEvent L) C A A}
  {Free : L → LockMode → Prop} {s s' : S} {t t' u : Strand S L C A} {started : List (Strand S L C A)}
  {lock : L} {mode : LockMode}

/-- What is held after a step was held before or nobody stood in its way. -/
theorem Step.mem_held (hs : Step body Free s t s' t' started) (h : (lock, mode) ∈ t'.held) :
    (lock, mode) ∈ t.held ∨ Free lock mode := by
  cases hs with
  | acquire hfree =>
      obtain heq | hmem := List.mem_cons.mp h
      · cases heq
        exact .inr hfree
      · exact .inl hmem
  | release => exact .inl (List.mem_of_mem_erase h)
  | act _ => exact .inl h
  | call => exact .inl h
  | «return» => exact .inl h
  | fork => exact .inl h

theorem Step.consistent (hs : Step body Free s t s' t' started) (ht : t.Consistent)
    (hfree : ∀ {lock mode}, Free lock mode → ¬SelfConflict t.held lock mode) : t'.Consistent := by
  cases hs with
  | @acquire held lock mode k stack h =>
      refine List.pairwise_cons.mpr ⟨?_, ht⟩
      rintro ⟨l, m⟩ hmem rfl hex
      exact hfree h ⟨m, hmem, LockMode.excludes_comm.mp hex⟩
  | release => exact ht.sublist List.erase_sublist
  | act _ => exact ht
  | call => exact ht
  | «return» => exact ht
  | fork => exact ht

theorem Step.held_started (hs : Step body Free s t s' t' started) (hu : u ∈ started) : u.held = [] := by
  cases hs with
  | fork =>
      obtain rfl := List.mem_singleton.mp hu
      rfl
  | act _ => exact absurd hu List.not_mem_nil
  | acquire _ => exact absurd hu List.not_mem_nil
  | release => exact absurd hu List.not_mem_nil
  | call => exact absurd hu List.not_mem_nil
  | «return» => exact absurd hu List.not_mem_nil

/-- A step changes what a lock protects in a section that holds the lock exclusively. -/
theorem Step.part_eq {D : Regime body} (ht : D.Orderly t) (hs : Step body Free s t s' t' started)
    (hne : D.protection.part lock s' ≠ D.protection.part lock s) : (lock, .exclusive) ∈ t.held := by
  cases hs with
  | act hf => exact ht.prog.1.writes ⟨_, _, hf, hne⟩
  | acquire _ => exact absurd rfl hne
  | release => exact absurd rfl hne
  | call => exact absurd rfl hne
  | «return» => exact absurd rfl hne
  | fork => exact absurd rfl hne

/-- The thread by itself has taken the step, too. -/
theorem Step.thread (hs : Step body Free s t s' t' started)
    (hfree : ∀ {lock mode}, Free lock mode → ¬SelfConflict t.held lock mode) :
    ∃ es, Thread.Step body (t.thread s) es (t'.thread s') := by
  cases hs with
  | act hf => exact ⟨_, .act hf⟩
  | acquire h => exact ⟨_, .acquire (hfree h)⟩
  | release => exact ⟨_, .release⟩
  | call => exact ⟨_, .call⟩
  | «return» => exact ⟨_, .return⟩
  | fork => exact ⟨_, .fork⟩

/-- A thread that is started goes on as a part of who has started it. -/
theorem Step.thread_started (hs : Step body Free s t s' t' started) (hu : u ∈ started) :
    Thread.Step body (t.thread s) [] (u.thread s') := by
  cases hs with
  | fork =>
      obtain rfl := List.mem_singleton.mp hu
      exact .forked
  | act _ => exact absurd hu List.not_mem_nil
  | acquire _ => exact absurd hu List.not_mem_nil
  | release => exact absurd hu List.not_mem_nil
  | call => exact absurd hu List.not_mem_nil
  | «return» => exact absurd hu List.not_mem_nil

end Strand

namespace Machine

variable {S L C A : Type} {body : C → Prog S (LockEvent L) C A A}

/-- The threads are orderly, and no two of them hold a lock in modes that exclude each other. -/
structure Sound (D : Regime body) (M : Machine S L C A) : Prop where
  orderly : ∀ t ∈ M.strands, D.Orderly t
  consistent : ∀ t ∈ M.strands, t.Consistent
  exclusive : ∀ {i j : ℕ} {t u : Strand S L C A} {lock : L} {m m' : LockMode},
    M.strands[i]? = some t → M.strands[j]? = some u → i ≠ j →
      (lock, m) ∈ t.held → (lock, m') ∈ u.held → ¬m.Excludes m'

variable {D : Regime body} {M M' : Machine S L C A} {i j : ℕ} {lock : L}

theorem sound_nil (s : S) : Sound D ⟨s, []⟩ := by
  constructor <;> simp

/-- Who is at a place after a step: who has moved, somebody who has not, or somebody new. -/
theorem getElem?_moved {l started : List (Strand S L C A)} {t u : Strand S L C A} (hi : i < l.length)
    (h : (l.set i t ++ started)[j]? = some u) :
    (j = i ∧ u = t) ∨ (j ≠ i ∧ l[j]? = some u) ∨ (l.length ≤ j ∧ u ∈ started) := by
  obtain hj | hj := Nat.lt_or_ge j (l.set i t).length
  · rw [List.getElem?_append_left hj, List.getElem?_set] at h
    split_ifs at h with heq
    · exact .inl ⟨heq.symm, (Option.some.inj h).symm⟩
    · exact .inr (.inl ⟨fun hji => heq hji.symm, h⟩)
  · rw [List.getElem?_append_right hj] at h
    rw [List.length_set] at hj
    exact .inr (.inr ⟨hj, List.mem_of_getElem? h⟩)

section run

variable [DecidableEq L] {env : S → S → Prop} {starts : Prog S (LockEvent L) C A A → Prop}
  {I : Machine S L C A → Prop}

theorem Sound.moves (h : Sound D M) (hs : Moves body M i M') : Sound D M' := by
  obtain ⟨t, s', t', started, ht, hstep, rfl⟩ := hs
  have hi : i < M.strands.length := (List.getElem?_eq_some_iff.mp ht).1
  obtain ⟨hord, hords⟩ := (h.orderly t (List.mem_of_getElem? ht)).step hstep
  -- what `t'` holds excludes nothing that somebody else holds
  have hmoved {j : ℕ} {u : Strand S L C A} {lock : L} {m m' : LockMode} (hj : j ≠ i)
      (hu : M.strands[j]? = some u) (hm : (lock, m) ∈ t'.held) (hm' : (lock, m') ∈ u.held) :
      ¬m'.Excludes m := by
    obtain hold | hfree := hstep.mem_held hm
    · exact h.exclusive hu ht hj hm' hold
    · exact fun hex => hfree u (List.mem_of_getElem? hu) ⟨m', hm', hex⟩
  constructor
  · intro u hu
    obtain hu | hu := List.mem_append.mp hu
    · obtain hu | rfl := List.mem_or_eq_of_mem_set hu
      · exact h.orderly u hu
      · exact hord
    · exact hords u hu
  · intro u hu
    obtain hu | hu := List.mem_append.mp hu
    · obtain hu | rfl := List.mem_or_eq_of_mem_set hu
      · exact h.consistent u hu
      · exact hstep.consistent (h.consistent t (List.mem_of_getElem? ht))
          fun hfree => hfree t (List.mem_of_getElem? ht)
    · rw [Strand.Consistent, hstep.held_started hu]
      exact .nil
  · intro j k u v lock m m' hu hv hjk hm hm'
    have hholds {w : Strand S L C A} {n : LockMode} (hw : w ∈ started) : (lock, n) ∉ w.held := by
      rw [hstep.held_started hw]
      exact List.not_mem_nil
    -- three kinds of strand: the one that moved, one that rested, one just started
    obtain ⟨rfl, rfl⟩ | ⟨hj, hu'⟩ | ⟨-, hu'⟩ := getElem?_moved hi hu
    · obtain ⟨rfl, -⟩ | ⟨hk, hv'⟩ | ⟨-, hv'⟩ := getElem?_moved hi hv
      · exact absurd rfl hjk
      · rw [LockMode.excludes_comm]
        exact hmoved hk hv' hm hm'
      · exact absurd hm' (hholds hv')
    · obtain ⟨rfl, rfl⟩ | ⟨hk, hv'⟩ | ⟨-, hv'⟩ := getElem?_moved hi hv
      · exact hmoved hj hu' hm' hm
      · exact h.exclusive hu' hv' hjk hm hm'
      · exact absurd hm' (hholds hv')
    · exact absurd hm (hholds hu')

theorem Sound.step (hstarts : ∀ p, starts p → D.Outside p) (h : Sound D M)
    (hs : Step body env starts M M') : Sound D M' := by
  cases hs with
  | task hmoves => exact h.moves hmoves
  | env _ => exact ⟨h.orderly, h.consistent, h.exclusive⟩
  | @start s strands p hp =>
      constructor
      · intro t ht
        obtain ht | ht := List.mem_append.mp ht
        · exact h.orderly t ht
        · obtain rfl := List.mem_singleton.mp ht
          exact .start (hstarts p hp)
      · intro t ht
        obtain ht | ht := List.mem_append.mp ht
        · exact h.consistent t ht
        · obtain rfl := List.mem_singleton.mp ht
          exact .nil
      · intro j k u v lock m m' hu hv hjk hm hm'
        -- a strand that has just been started holds no lock at all
        have hnew {l : ℕ} {w : Strand S L C A} {n : LockMode} (hmem : (lock, n) ∈ w.held)
            (hw : (strands ++ [Strand.start p])[l]? = some w) : strands[l]? = some w := by
          rw [List.getElem?_append] at hw
          split_ifs at hw with hlt
          · exact hw
          · obtain rfl := List.mem_singleton.mp (List.mem_of_getElem? hw)
            exact absurd hmem List.not_mem_nil
        exact h.exclusive (hnew hm hu) (hnew hm' hv) hjk hm hm'

theorem Run.trans {M'' : Machine S L C A} (h : Run body env starts I M M')
    (h' : Run body env starts I M' M'') : Run body env starts I M M'' := by
  induction h' with
  | refl _ => exact h
  | tail _ hs hI ih => exact ih.tail hs hI

/-- Every machine that is reached is sound. -/
theorem Run.sound (hstarts : ∀ p, starts p → D.Outside p) (hM : Sound D M)
    (h : Run body env starts I M M') : Sound D M' := by
  induction h with
  | refl _ => exact hM
  | tail _ hs _ ih => exact ih.step hstarts hs

end run

/-- Who changes what a lock protects holds the lock, and nobody else does. -/
theorem Sound.alone [DecidableEq L] (h : Sound D M) (hs : Moves body M i M')
    (hne : D.protection.part lock M'.state ≠ D.protection.part lock M.state) :
    ∃ t, M.strands[i]? = some t ∧ (lock, .exclusive) ∈ t.held ∧
      ∀ {j : ℕ} {u : Strand S L C A} {m : LockMode}, M.strands[j]? = some u → (lock, m) ∈ u.held → j = i := by
  obtain ⟨t, s', t', started, ht, hstep, rfl⟩ := hs
  have hheld : (lock, .exclusive) ∈ t.held := hstep.part_eq (h.orderly t (List.mem_of_getElem? ht)) hne
  refine ⟨t, ht, hheld, fun {j u m} hu hm => ?_⟩
  by_contra hji
  have hexcl := h.exclusive ht hu (Ne.symm hji) hheld hm
  cases m <;> exact hexcl trivial

/-- As long as a thread holds a lock in shared mode, what the lock protects stays as it is. -/
theorem Run.part_eq [DecidableEq L] {env : S → S → Prop} {starts : Prog S (LockEvent L) C A A → Prop}
    (hstarts : ∀ p, starts p → D.Outside p)
    (henv : ∀ {s s'}, env s s' → D.protection.part lock s' = D.protection.part lock s)
    (hM : Sound D M)
    (h : Run body env starts (fun N => ∃ t, N.strands[j]? = some t ∧ (lock, .shared) ∈ t.held) M M') :
    D.protection.part lock M'.state = D.protection.part lock M.state := by
  induction h with
  | refl _ => rfl
  | @tail M' M'' hrun hs _ ih =>
      rw [← ih]
      have hsound : Sound D M' := hrun.sound hstarts hM
      have hj : ∃ t, M'.strands[j]? = some t ∧ (lock, .shared) ∈ t.held := by
        cases hrun with
        | refl hI => exact hI
        | tail _ _ hI => exact hI
      cases hs with
      | env hE => exact henv hE
      | start _ => rfl
      | @task _ _ i hmoves =>
          -- a write to the part needs its lock exclusively, and strand `j` has it shared
          by_contra hne
          obtain ⟨t, ht, hexcl, halone⟩ := hsound.alone hmoves hne
          obtain ⟨u, hu, hshared⟩ := hj
          obtain rfl := halone hu hshared
          cases ht.symm.trans hu
          exact (hsound.consistent t (List.mem_of_getElem? ht)).not_shared hexcl hshared

/-- Two threads are never about to get at the same thing, one of them to change it. -/
theorem Sound.race_free (h : Sound D M) {t u : Strand S L C A} (ht : M.strands[i]? = some t)
    (hu : M.strands[j]? = some u) (hij : i ≠ j) {f g : S → Option S} {k l : S → Prog S (LockEvent L) C A A}
    (hf : t.prog = .act f k) (hg : u.prog = .act g l) (hw : D.protection.Writes lock f) :
    ¬D.protection.Writes lock g ∧ ¬D.protection.Reads lock g l := by
  have hcovers {v : Strand S L C A} {f k} (hv : v ∈ M.strands) (hp : v.prog = .act f k) :
      D.protection.Covers v.held f k := by
    have hobeys := (h.orderly v hv).prog
    rw [hp] at hobeys
    exact hobeys.1
  have hexcl : (lock, .exclusive) ∈ t.held := (hcovers (List.mem_of_getElem? ht) hf).writes hw
  have hnone {m : LockMode} (hm : (lock, m) ∈ u.held) : False :=
    h.exclusive ht hu hij hexcl hm (by cases m <;> trivial)
  have hu' := hcovers (List.mem_of_getElem? hu) hg
  exact ⟨fun hw' => hnone (hu'.writes hw'), fun hr => (hu'.reads hr).elim fun _ => hnone⟩

/-- A thread that waits for a lock is in a call that asks for it. -/
theorem Sound.requests (h : Sound D M) {t : Strand S L C A} (ht : t ∈ M.strands) {mode : LockMode}
    {k : Prog S (LockEvent L) C A A} (hp : t.prog = .emit (.acquire lock mode) k) :
    ∃ c outer, t.calls = c :: outer ∧ D.Requests c outer t.held lock mode := by
  have hobeys := (h.orderly t ht).prog
  rw [hp] at hobeys
  have hrequests : D.requestsIn t.calls t.held lock mode := hobeys.1
  cases hcalls : t.calls with
  | nil =>
      rw [hcalls] at hrequests
      exact hrequests.elim
  | cons c outer =>
      rw [hcalls] at hrequests
      exact ⟨c, outer, rfl, hrequests⟩

/-- Each thread of a machine does what it might do by itself. -/
theorem Run.thread [DecidableEq L] {env : S → S → Prop} {starts : Prog S (LockEvent L) C A A → Prop}
    {I : Machine S L C A → Prop} {s : S} (h : Run body env starts I ⟨s, []⟩ M) :
    ∀ t ∈ M.strands, ∃ p s₀ es, starts p ∧ (Thread.start s₀ p).Run body es (t.thread M.state) := by
  induction h with
  | refl _ => exact fun t ht => absurd ht List.not_mem_nil
  | @tail M M' _ hs _ ih =>
      intro u hu
      cases hs with
      | @env s s' strands _ =>
          obtain ⟨p, s₀, es, hp, hrun⟩ := ih u hu
          exact ⟨p, s₀, _, hp, hrun.tail .env⟩
      | @start s strands p hp =>
          obtain hu | hu := List.mem_append.mp hu
          · exact ih u hu
          · obtain rfl := List.mem_singleton.mp hu
            exact ⟨p, s, _, hp, .refl⟩
      | @task _ _ i hmoves =>
          obtain ⟨t, s', t', started, ht, hstep, rfl⟩ := hmoves
          have ht' := List.mem_of_getElem? ht
          have hfree {lock : L} {mode : LockMode} (hfree : M.Free lock mode) :
              ¬SelfConflict t.held lock mode := hfree t ht'
          -- a strand of the new machine: the one that moved, one that rested, or one it has started
          obtain hu' | hu' := List.mem_append.mp hu
          · obtain hu' | rfl := List.mem_or_eq_of_mem_set hu'
            · obtain ⟨p, s₀, es, hp, hrun⟩ := ih u hu'
              exact ⟨p, s₀, _, hp, hrun.tail .env⟩
            · obtain ⟨p, s₀, es, hp, hrun⟩ := ih t ht'
              obtain ⟨fs, hthread⟩ := hstep.thread hfree
              exact ⟨p, s₀, _, hp, hrun.tail hthread⟩
          · obtain ⟨p, s₀, es, hp, hrun⟩ := ih t ht'
            exact ⟨p, s₀, _, hp, hrun.tail (hstep.thread_started hu')⟩

/-- The youngest thread takes a step. -/
theorem Step.last [DecidableEq L] {env : S → S → Prop} {starts : Prog S (LockEvent L) C A A → Prop} {s s' : S}
    {l : List (Strand S L C A)} {t t' : Strand S L C A}
    (h : Strand.Step body (Machine.Free ⟨s, l ++ [t]⟩) s t s' t' []) :
    Step body env starts ⟨s, l ++ [t]⟩ ⟨s', l ++ [t']⟩ := by
  refine .task (i := l.length) ⟨t, s', t', [], by simp, h, ?_⟩
  simp

end Machine
