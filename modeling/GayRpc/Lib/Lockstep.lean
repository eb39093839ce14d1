import GayRpc.Lib.InTurn

/-!
# The same program in two places

Two states may differ in parts that a program does not look at. If `rel i` relates them, a program in
`Lockstep rel` goes the same way in both: it may do in one what it does in the other, shows the same, and
leaves states that are related again, with the same `i` (`Run.lockstep`). The index `i` is what the two
states are said to differ in; that it stays the same is the frame.

The relation may rest on a bound, such as that a counter has not come so far. A state that satisfies the
bound is to come from states that do (`Backs`), so that a run which ends within the bound was within it all
the time. With threads beside the program, and an `env` for what happens around it, the same is said once
more at the end (`ReturnsBeside.lockstep`).
-/

namespace Prog

variable {S T E Q A R Q' A' R' ι : Type} {rel : ι → S → S → Prop} {bound : S → Prop}

/-- What the program does from one of two related states, it does from the other. -/
def Lockstep (rel : ι → S → S → Prop) (bound : S → Prop) : Prog S E Q A R → Prop
  | ret _ => True
  | halt => True
  | ask _ k => ∀ a, (k a).Lockstep rel bound
  | act f k => ∀ i s t s', rel i s t → f s = some s' → bound s' →
      k t = k s ∧ (k s).Lockstep rel bound ∧ ∃ t', f t = some t' ∧ rel i s' t'
  | emit _ k => k.Lockstep rel bound
  | fork p k => p.Lockstep rel bound ∧ k.Lockstep rel bound

/-- Once out of the bound, the program stays out of it. -/
abbrev Backs (bound : S → Prop) : Prog S E Q A R → Prop :=
  Guarantees (fun _ => True) (fun s s' => bound s' → bound s) fun _ => True

/-- Both at once. -/
structure Paces (rel : ι → S → S → Prop) (bound : S → Prop) (p : Prog S E Q A R) : Prop where
  lockstep : p.Lockstep rel bound
  back : p.Backs bound

namespace Lockstep

variable {p : Prog S E Q A R}

theorem bind {k : R → Prog S E Q A R'} (hp : p.Lockstep rel bound) (hk : ∀ r, (k r).Lockstep rel bound) :
    (p.bind k).Lockstep rel bound := by
  induction p generalizing R' with
  | ret r => exact hk r
  | halt => trivial
  | ask q c ih => exact fun a => ih a (hp a) hk
  | act f c ih =>
      intro i s t s' hst hf hb
      obtain ⟨heq, hc, hrel⟩ := hp i s t s' hst hf hb
      exact ⟨congrArg (fun q : Prog S E Q A R => q.bind k) heq, ih s hc hk, hrel⟩
  | emit e c ih => exact ih hp hk
  | fork p c ihp ihc => exact ⟨ihp hp.1 fun _ => trivial, ihc hp.2 hk⟩

theorem plug {M : Type} {h : M → Q → Prog S E Q' A' A} {step : M → M} (hp : p.Lockstep rel bound)
    (hh : ∀ m q, (h m q).Lockstep rel bound) (m : M) : (p.plug h step m).Lockstep rel bound := by
  induction p generalizing m with
  | ret r => trivial
  | halt => trivial
  | ask q c ih => exact (hh m q).bind fun a => ih a (hp a) _
  | act f c ih =>
      intro i s t s' hst hf hb
      obtain ⟨heq, hc, hrel⟩ := hp i s t s' hst hf hb
      exact ⟨congrArg (fun q : Prog S E Q A R => q.plug h step m) heq, ih s hc m, hrel⟩
  | emit e c ih => exact ih hp m
  | fork p c ihp ihc => exact ⟨ihp hp.1 m, ihc hp.2 m⟩

/-- A program on a part in which related states agree. -/
theorem lift {get : S → T} {set : S → T → S} (hget : ∀ i s t, rel i s t → get t = get s)
    (hset : ∀ i s t u, rel i s t → rel i (set s u) (set t u)) (p : Prog T Empty Q A R) :
    (p.lift get set : Prog S E Q A R).Lockstep rel bound := by
  induction p with
  | ret r => trivial
  | halt => trivial
  | ask q c ih => exact fun a => ih a
  | act f c ih =>
      intro i s t s' hst hf _
      obtain ⟨u, hu, rfl⟩ := Option.map_eq_some_iff.mp hf
      have hsame := hget i s t hst
      refine ⟨?_, ih (get s), set t u, ?_, hset i s t u hst⟩
      · exact congrArg (fun x => (c x).lift get set) hsame
      · show (f (get t)).map (set t) = some (set t u)
        rw [hsame, hu]
        rfl
  | emit e c ih => exact e.elim
  | fork p c ihp ihc => exact ⟨ihp, ihc⟩

end Lockstep

namespace Paces

variable {p : Prog S E Q A R}

theorem ret (r : R) : (Prog.ret r : Prog S E Q A R).Paces rel bound := ⟨trivial, trivial⟩

theorem emit (e : E) (hp : p.Paces rel bound) : (Prog.emit e p).Paces rel bound :=
  ⟨hp.lockstep, trivial, hp.back⟩

theorem bind {k : R → Prog S E Q A R'} (hp : p.Paces rel bound) (hk : ∀ r, (k r).Paces rel bound) :
    (p.bind k).Paces rel bound :=
  ⟨hp.lockstep.bind fun r => (hk r).lockstep, hp.back.bind fun r => (hk r).back⟩

end Paces

theorem Lockstep.next {p : Prog S E Empty A R} {i : ι} {s s' t : S} {es : List E}
    {ps : List (Prog S E Empty A R)} (hp : p.Lockstep rel bound) (hst : rel i s t) (hb : bound s')
    (h : p.next s = some (es, s', ps)) :
    (∀ q ∈ ps, q.Lockstep rel bound) ∧ ∃ t', p.next t = some (es, t', ps) ∧ rel i s' t' := by
  cases p with
  | ret r => cases h
  | halt => cases h
  | ask q c => exact q.elim
  | act f c =>
      obtain ⟨u, hu, hr⟩ := Option.map_eq_some_iff.mp h
      cases hr
      -- the other side runs the same section on the related state and goes on alike
      obtain ⟨heq, hc, t', ht', hrel⟩ := hp i s t _ hst hu hb
      refine ⟨List.forall_mem_singleton.mpr hc, t', ?_, hrel⟩
      rw [Prog.next, ht', heq]
      rfl
  | emit e c =>
      cases h
      exact ⟨List.forall_mem_singleton.mpr hp, t, rfl, hst⟩
  | fork p c =>
      cases h
      have hpc : p.Lockstep rel bound ∧ c.Lockstep rel bound := hp
      exact ⟨by simpa using hpc, t, rfl, hst⟩

end Prog

namespace Pool

open Prog

variable {S E A R ι : Type} {env : S → S → Prop} {rel : ι → S → S → Prop} {bound : S → Prop}
  {l l' : List (Prog S E Empty A R)} {p : Prog S E Empty A R} {a b : Pool S E A R} {i : ι} {s s' t : S}
  {es : List E} {r : R}

/-! ## Back within the bound -/

theorem Step.back (henv : ∀ s s', env s s' → bound s' → bound s) (h : Step (World.drifting env) a es b)
    (ha : ∀ p ∈ a.threads, p.Backs bound) :
    (bound b.state → bound a.state) ∧ ∀ p ∈ b.threads, p.Backs bound := by
  cases h with
  | @thread s s' p _ ps l r hn _ =>
      obtain ⟨hl, hpr⟩ := List.forall_mem_append.mp ha
      obtain ⟨hp, hr⟩ := List.forall_mem_cons.mp hpr
      obtain ⟨hs, -, hps⟩ := hp.next trivial hn
      refine ⟨fun hb => ?_, List.forall_mem_append.mpr ⟨hl, List.forall_mem_append.mpr ⟨hps, hr⟩⟩⟩
      rcases hs with rfl | hs
      · exact hb
      · exact hs hb
  | env ts he _ => exact ⟨henv _ _ he, ha⟩
  | spawn ts hp => exact hp.elim

theorem Run.back (henv : ∀ s s', env s s' → bound s' → bound s) (h : Run (World.drifting env) a es b)
    (ha : ∀ p ∈ a.threads, p.Backs bound) :
    (bound b.state → bound a.state) ∧ ∀ p ∈ b.threads, p.Backs bound := by
  induction h with
  | refl => exact ⟨id, ha⟩
  | tail _ hs ih =>
      obtain ⟨hrun, hb⟩ := ih
      obtain ⟨hstep, hc⟩ := hs.back henv hb
      exact ⟨fun h => hrun (hstep h), hc⟩

/-- The threads beside stay out of the bound once they are out of it. -/
def BackBeside (bound : S → Prop) (l : List (Prog S E Empty A R)) : Prop :=
  ∀ p ∈ (l.map mute : List (Prog S E Empty A R)), p.Backs bound

theorem Beside.back (henv : ∀ s s', env s s' → bound s' → bound s) (h : Beside env l s es l' s')
    (hl : BackBeside bound l) : (bound s' → bound s) ∧ BackBeside bound l' :=
  Run.back henv h hl

theorem ReturnsBeside.back (henv : ∀ s s', env s s' → bound s' → bound s)
    (h : ReturnsBeside env l p s es r l' s') (hl : BackBeside bound l) (hp : p.Backs bound) :
    (bound s' → bound s) ∧ BackBeside bound l' := by
  have hall : ∀ q ∈ (along ret l p s : Pool S E A R).threads, q.Backs bound := by
    refine List.forall_mem_append.mpr ⟨hl, List.forall_mem_singleton.mpr ?_⟩
    exact Guarantees.bind hp fun _ => trivial
  obtain ⟨hbound, hts⟩ := Run.back henv h hall
  exact ⟨hbound, (List.forall_mem_append.mp hts).1⟩

/-! ## Side by side -/

/-- What happens around two related states. -/
structure Surrounds (env : S → S → Prop) (rel : ι → S → S → Prop) (bound : S → Prop) : Prop where
  follows : ∀ i s t s', rel i s t → env s s' → ∃ t', env t t' ∧ rel i s' t'
  back : ∀ s s', env s s' → bound s' → bound s

theorem Step.lockstep (hW : Surrounds env rel bound) (h : Step (World.drifting env) a es b)
    (ha : ∀ p ∈ a.threads, p.Lockstep rel bound) (hb : bound b.state) (hat : rel i a.state t) :
    (∀ p ∈ b.threads, p.Lockstep rel bound) ∧
      ∃ t', Step (World.drifting env) ⟨t, a.threads⟩ es ⟨t', b.threads⟩ ∧ rel i b.state t' := by
  cases h with
  | @thread s s' p _ ps l r hn _ =>
      obtain ⟨hl, hpr⟩ := List.forall_mem_append.mp ha
      obtain ⟨hp, hr⟩ := List.forall_mem_cons.mp hpr
      obtain ⟨hps, t', hnt, hrel⟩ := hp.next hat hb hn
      refine ⟨List.forall_mem_append.mpr ⟨hl, List.forall_mem_append.mpr ⟨hps, hr⟩⟩, t', ?_, hrel⟩
      exact .thread l r hnt trivial
  | @env s s' ts he _ =>
      obtain ⟨t', henv, hrel⟩ := hW.follows _ _ _ _ hat he
      exact ⟨ha, t', .env ts henv trivial, hrel⟩
  | spawn ts hp => exact hp.elim

/-- A run from one state is a run from the other. -/
theorem Run.lockstep (hW : Surrounds env rel bound) (h : Run (World.drifting env) a es b)
    (ha : ∀ p ∈ a.threads, p.Paces rel bound) (hb : bound b.state) (hat : rel i a.state t) :
    (∀ p ∈ b.threads, p.Paces rel bound) ∧
      ∃ t', Run (World.drifting env) ⟨t, a.threads⟩ es ⟨t', b.threads⟩ ∧ rel i b.state t' := by
  have hback := (h.back hW.back fun p hp => (ha p hp).back).2
  have hlock : (∀ p ∈ b.threads, p.Lockstep rel bound) ∧
      ∃ t', Run (World.drifting env) ⟨t, a.threads⟩ es ⟨t', b.threads⟩ ∧ rel i b.state t' := by
    clear hback
    induction h with
    | refl => exact ⟨fun p hp => (ha p hp).lockstep, t, .refl, hat⟩
    | tail hrun hs ih =>
        have hthreads := (hrun.back hW.back fun p hp => (ha p hp).back).2
        obtain ⟨hb', t', hrun', hrel⟩ := ih ((hs.back hW.back hthreads).1 hb)
        obtain ⟨hc, t'', hstep, hrel'⟩ := hs.lockstep hW hb' hb hrel
        exact ⟨hc, t'', hrun'.tail hstep, hrel'⟩
  exact ⟨fun p hp => ⟨hlock.1 p hp, hback p hp⟩, hlock.2⟩

/-! ## Programs with threads beside them -/

/-- The threads beside keep pace. -/
def PaceBeside (rel : ι → S → S → Prop) (bound : S → Prop) (l : List (Prog S E Empty A R)) : Prop :=
  ∀ p ∈ (l.map mute : List (Prog S E Empty A R)), p.Paces rel bound

theorem PaceBeside.back (hl : PaceBeside rel bound l) : BackBeside bound l :=
  fun p hp => (hl p hp).back

theorem PaceBeside.along (hl : PaceBeside rel bound l) (hp : p.Paces rel bound) :
    ∀ q ∈ (along ret l p s : Pool S E A R).threads, q.Paces rel bound :=
  List.forall_mem_append.mpr ⟨hl, List.forall_mem_singleton.mpr (hp.bind Paces.ret)⟩

theorem Beside.lockstep (hW : Surrounds env rel bound) (h : Beside env l s es l' s')
    (hl : PaceBeside rel bound l) (hb : bound s') (hst : rel i s t) :
    PaceBeside rel bound l' ∧ ∃ t', Beside env l t es l' t' ∧ rel i s' t' :=
  Run.lockstep hW h hl hb hst

theorem ReturnsBeside.lockstep (hW : Surrounds env rel bound) (h : ReturnsBeside env l p s es r l' s')
    (hl : PaceBeside rel bound l) (hp : p.Paces rel bound) (hb : bound s') (hst : rel i s t) :
    PaceBeside rel bound l' ∧ ∃ t', ReturnsBeside env l p t es r l' t' ∧ rel i s' t' := by
  obtain ⟨hts, hrun⟩ := Run.lockstep hW h (hl.along hp) hb hst
  exact ⟨(List.forall_mem_append.mp hts).1, hrun⟩

end Pool
