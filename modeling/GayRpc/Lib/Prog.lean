import Mathlib.Tactic.Common

/-!
# Programs as interaction trees

A `Prog` is what a piece of sequential code may do, as a tree: it asks a question of the code around
it and goes on with the answer, runs an atomic section on a shared state (waiting until the section
is enabled), shows an event, or starts another thread. It has no loops, so every thread ends.

The questions are what makes the code composable. Code that calls a function it was given, say a
callback or a continuation, asks a question there, and whoever knows the function answers it:

    p : Prog S E Q A R        h : Q → Prog S E Q' A' A
    ──────────────────────────────────────────────────
              p.plug h : Prog S E Q' A' R

So a layer of code is modelled without the layers around it, and the layers are put together by `plug`
in the order in which the code nests them. `bind` runs one program after another. `lift` and `within`
run a program on a part of a larger state, the latter with what it shows put in other words. That the
order of these does not matter is the matter of the section on equations.

Closed programs, which ask nothing, run together in a `Pool`, interleaved step by step with one another
and with whatever else the surrounding `World` may do: change the state, and start programs. A `World`
also has a `bound`, and runs that leave it are not looked at; that is how counters are kept from
wrapping around. A statement about a library is then one about every `Run` of a pool in a world that
starts the operations of the library whenever it likes.
-/

inductive Prog (S E Q A R : Type) : Type where
  /-- the end, with a result -/
  | ret (r : R)
  /-- the end of a thread that was started beside another one -/
  | halt
  | ask (q : Q) (k : A → Prog S E Q A R)
  /-- one atomic section; what follows may depend on the state the section found -/
  | act (f : S → Option S) (k : S → Prog S E Q A R)
  | emit (e : E) (k : Prog S E Q A R)
  /-- start `p` beside `k` -/
  | fork (p k : Prog S E Q A R)

namespace Prog

variable {S T E F Q A R Q' A' R' : Type}

/-- Run `p`, then `k` with its result. Threads that `p` started have nobody to return to. -/
def bind (p : Prog S E Q A R) (k : R → Prog S E Q A R') : Prog S E Q A R' :=
  match p with
  | ret r => k r
  | halt => halt
  | ask q c => ask q fun a => (c a).bind k
  | act f c => act f fun s => (c s).bind k
  | emit e c => emit e (c.bind k)
  | fork p c => fork (p.bind fun _ => halt) (c.bind k)

/-- Answer the questions of `p` by the programs `h`. The answering side has a private cell: `h`
finds `m` in it at the first question and `step m` at the next. A thread started beside `p` takes a
copy of the cell along. -/
def plug {M : Type} (h : M → Q → Prog S E Q' A' A) (step : M → M) (m : M)
    (p : Prog S E Q A R) : Prog S E Q' A' R :=
  match p with
  | ret r => ret r
  | halt => halt
  | ask q c => (h m q).bind fun a => (c a).plug h step (step m)
  | act f c => act f fun s => (c s).plug h step m
  | emit e c => emit e (c.plug h step m)
  | fork p c => fork (p.plug h step m) (c.plug h step m)

/-- A program that shows nothing, run on a part of a larger state. -/
def lift (get : S → T) (set : S → T → S) (p : Prog T Empty Q A R) : Prog S E Q A R :=
  match p with
  | ret r => ret r
  | halt => halt
  | ask q c => ask q fun a => (c a).lift get set
  | act f c => act (fun s => (f (get s)).map (set s)) fun s => (c (get s)).lift get set
  | emit e _ => e.elim
  | fork p c => fork (p.lift get set) (c.lift get set)

/-- A program on a part of a larger state, what it shows put in other words. While the state has no
such part, its sections wait. -/
def within (get : S → Option T) (set : S → T → S) (tag : F → E) (p : Prog T F Q A R) :
    Prog S E Q A R :=
  match p with
  | ret r => ret r
  | halt => halt
  | ask q c => ask q fun a => (c a).within get set tag
  | act f c =>
    act (fun s => (get s).bind fun t => (f t).map (set s)) fun s =>
      (get s).elim halt fun t => (c t).within get set tag
  | emit e c => emit (tag e) (c.within get set tag)
  | fork p c => fork (p.within get set tag) (c.within get set tag)

/-- The program, without what it shows. -/
def quiet (p : Prog S E Q A R) : Prog S F Q A R :=
  match p with
  | ret r => ret r
  | halt => halt
  | ask q c => ask q fun a => (c a).quiet
  | act f c => act f fun s => (c s).quiet
  | emit _ c => c.quiet
  | fork p c => fork p.quiet c.quiet

/-- `p`, with its first section held back until the state satisfies `P`. -/
def onlyIf (P : S → Prop) [DecidablePred P] : Prog S E Q A R → Prog S E Q A R
  | act f c => act (fun s => if P s then f s else none) c
  | p => p

/-- `p`, with `g` done as a part of its first section. -/
def noting (g : S → S) : Prog S E Q A R → Prog S E Q A R
  | act f c => act (fun s => (f s).map g) c
  | p => p

/-! ## Equations

All of them are proved by induction on the program. The cases in which a program goes on with a function
of an answer, or of the state, are what `ask_congr` and `act_congr` are for. -/

section equations

variable {U Q'' A'' R'' : Type} {get : S → T} {set : S → T → S} {tag : F → E}

theorem ask_congr {q : Q} {k l : A → Prog S E Q A R} (h : ∀ a, k a = l a) : ask q k = ask q l :=
  congrArg (ask q) (funext h)

theorem act_congr {f : S → Option S} {k l : S → Prog S E Q A R} (h : ∀ s, k s = l s) :
    act f k = act f l :=
  congrArg (act f) (funext h)

theorem bind_congr {p : Prog S E Q A R} {k l : R → Prog S E Q A R'} (h : ∀ r, k r = l r) :
    p.bind k = p.bind l :=
  congrArg p.bind (funext h)

theorem bind_assoc (p : Prog S E Q A R) (k : R → Prog S E Q A R') (l : R' → Prog S E Q A R'') :
    (p.bind k).bind l = p.bind fun r => (k r).bind l := by
  induction p generalizing R' R'' with
  | ret r => rfl
  | halt => rfl
  | ask q c ih => exact ask_congr fun a => ih a k l
  | act f c ih => exact act_congr fun s => ih s k l
  | emit e c ih => exact congrArg (emit e) (ih k l)
  | fork p c ihp ihc => exact congrArg₂ fork (ihp (fun _ => halt) fun _ => halt) (ihc k l)

theorem lift_bind (p : Prog T Empty Q A R)
    (k : R → Prog T Empty Q A R') : ((p.bind k).lift get set : Prog S E Q A R') =
      (p.lift get set).bind fun r => (k r).lift get set := by
  induction p generalizing R' with
  | ret r => rfl
  | halt => rfl
  | ask q c ih => exact ask_congr fun a => ih a k
  | act f c ih => exact act_congr fun s => ih (get s) k
  | emit e c ih => exact e.elim
  | fork p c ihp ihc => exact congrArg₂ fork (ihp fun _ => halt) (ihc k)

/-- Where the answering side keeps nothing, it does not matter which part asks. -/
theorem plug_bind {h : Q → Prog S E Q' A' A} (p : Prog S E Q A R) (k : R → Prog S E Q A R') :
    (p.bind k).plug (fun _ => h) id () =
      (p.plug (fun _ => h) id ()).bind fun r => (k r).plug (fun _ => h) id () := by
  induction p generalizing R' with
  | ret r => rfl
  | halt => rfl
  | ask q c ih =>
      show (h q).bind _ = ((h q).bind _).bind _
      rw [bind_assoc]
      exact bind_congr fun a => ih a k
  | act f c ih => exact act_congr fun s => ih s k
  | emit e c ih => exact congrArg (emit e) (ih k)
  | fork p c ihp ihc => exact congrArg₂ fork (ihp fun _ => halt) (ihc k)

/-- Questions that are only passed on, in other words, are answered by whoever answers those. -/
theorem plug_relay {M : Type} {h : M → Q' → Prog S E Q'' A'' A} {step : M → M} {m : M} {f : Q → Q'}
    (p : Prog S E Q A R) : (p.plug (fun _ q => ask (f q) ret) id ()).plug h step m =
      p.plug (fun m q => h m (f q)) step m := by
  induction p generalizing m with
  | ret r => rfl
  | halt => rfl
  | ask q c ih => exact bind_congr fun a => ih a
  | act g c ih => exact act_congr fun s => ih s
  | emit e c ih => exact congrArg (emit e) ih
  | fork p c ihp ihc => exact congrArg₂ fork ihp ihc

theorem within_bind (p : Prog T F Q A R) (k : R → Prog T F Q A R') :
    ((p.bind k).within (fun s => some (get s)) set tag : Prog S E Q A R') =
      (p.within (fun s => some (get s)) set tag).bind fun r =>
        (k r).within (fun s => some (get s)) set tag := by
  induction p generalizing R' with
  | ret r => rfl
  | halt => rfl
  | ask q c ih => exact ask_congr fun a => ih a k
  | act f c ih => exact act_congr fun s => ih (get s) k
  | emit e c ih => exact congrArg (emit _) (ih k)
  | fork p c ihp ihc => exact congrArg₂ fork (ihp fun _ => halt) (ihc k)

theorem within_plug {M : Type} {h : M → Q → Prog T F Q' A' A} {step : M → M} {m : M}
    (p : Prog T F Q A R) :
    ((p.plug h step m).within (fun s => some (get s)) set tag : Prog S E Q' A' R) =
      (p.within (fun s => some (get s)) set tag).plug
        (fun m q => (h m q).within (fun s => some (get s)) set tag) step m := by
  induction p generalizing m with
  | ret r => rfl
  | halt => rfl
  | ask q c ih =>
      show ((h m q).bind _).within _ _ _ = ((h m q).within _ _ _).bind _
      rw [within_bind]
      exact bind_congr fun a => ih a
  | act f c ih => exact act_congr fun s => ih (get s)
  | emit e c ih => exact congrArg (emit _) ih
  | fork p c ihp ihc => exact congrArg₂ fork ihp ihc

/-- A part of a part. -/
theorem within_lift {g : T → U} {u : T → U → T} (p : Prog U Empty Q A R) :
    ((p.lift g u).within (fun s => some (get s)) set tag : Prog S E Q A R) =
      p.lift (fun s => g (get s)) fun s x => set s (u (get s) x) := by
  induction p with
  | ret r => rfl
  | halt => rfl
  | ask q c ih => exact ask_congr ih
  | act f c ih =>
      refine congrArg₂ act (funext fun s => ?_) (funext fun s => ih (g (get s)))
      exact Option.map_map _ _ _
  | emit e c ih => exact e.elim
  | fork p c ihp ihc => exact congrArg₂ fork ihp ihc

theorem lift_lift {g : T → U} {u : T → U → T} (p : Prog U Empty Q A R) :
    ((p.lift g u : Prog T Empty Q A R).lift get set : Prog S E Q A R) =
      p.lift (fun s => g (get s)) fun s x => set s (u (get s) x) := by
  induction p with
  | ret r => rfl
  | halt => rfl
  | ask q c ih => exact ask_congr ih
  | act f c ih =>
      refine congrArg₂ act (funext fun s => ?_) (funext fun s => ih (g (get s)))
      exact Option.map_map _ _ _
  | emit e c ih => exact e.elim
  | fork p c ihp ihc => exact congrArg₂ fork ihp ihc

theorem lift_plug {M : Type} {h : M → Q → Prog T Empty Q' A' A} {step : M → M} {m : M}
    (p : Prog T Empty Q A R) :
    ((p.plug h step m).lift get set : Prog S E Q' A' R) =
      (p.lift get set).plug (fun m q => (h m q).lift get set) step m := by
  induction p generalizing m with
  | ret r => rfl
  | halt => rfl
  | ask q c ih =>
      show ((h m q).bind _).lift _ _ = ((h m q).lift _ _).bind _
      rw [lift_bind]
      exact bind_congr fun a => ih a
  | act f c ih => exact act_congr fun s => ih (get s)
  | emit e c ih => exact e.elim
  | fork p c ihp ihc => exact congrArg₂ fork ihp ihc

theorem quiet_bind (p : Prog S E Q A R) (k : R → Prog S E Q A R') :
    ((p.bind k).quiet : Prog S F Q A R') = p.quiet.bind fun r => (k r).quiet := by
  induction p generalizing R' with
  | ret r => rfl
  | halt => rfl
  | ask q c ih => exact ask_congr fun a => ih a k
  | act f c ih => exact act_congr fun s => ih s k
  | emit e c ih => exact ih k
  | fork p c ihp ihc => exact congrArg₂ fork (ihp fun _ => halt) (ihc k)

end equations

/-- The thread has come to its end. -/
def Done : Prog S E Q A R → Prop
  | ret _ => True
  | halt => True
  | _ => False

/-- One step of a closed program: the event it shows, the state it leaves and the threads it goes on
as; nothing when it has ended or waits. -/
def next (s : S) : Prog S E Empty A R → Option (List E × S × List (Prog S E Empty A R))
  | ret _ => none
  | halt => none
  | ask q _ => q.elim
  | act f c => (f s).map fun s' => ([], s', [c s])
  | emit e c => some ([e], s, [c])
  | fork p c => some ([], s, [p, c])

/-- A thread that has come to its end takes no step. -/
theorem Done.next {p : Prog S E Empty A R} (h : p.Done) (s : S) : p.next s = none := by
  cases p with
  | ret r => rfl
  | halt => rfl
  | _ => exact h.elim

end Prog

/-- What happens around the threads of a pool: the state may change, and programs may be started.
Only runs that stay within `bound` are looked at. -/
structure World (S E A R : Type) where
  env : S → S → Prop
  spawn : Prog S E Empty A R → Prop
  bound : S → Prop

/-- A world that starts nothing, but changes the state at will. -/
def World.interfering {S E A R : Type} : World S E A R where
  env _ _ := True
  spawn _ := False
  bound _ := True

/-- A world in which nothing happens besides the threads of the pool. -/
def World.alone {S E A R : Type} (bound : S → Prop) : World S E A R where
  env _ _ := False
  spawn _ := False
  bound := bound

/-- The threads that are running, and the state they share. -/
structure Pool (S E A R : Type) where
  state : S
  threads : List (Prog S E Empty A R)

namespace Pool

variable {S E A R : Type}

inductive Step (W : World S E A R) : Pool S E A R → List E → Pool S E A R → Prop where
  | thread {s s' : S} {p : Prog S E Empty A R} {es : List E} {ps : List (Prog S E Empty A R)}
      (l r : List (Prog S E Empty A R)) (h : p.next s = some (es, s', ps)) (hb : W.bound s') :
      Step W ⟨s, l ++ p :: r⟩ es ⟨s', l ++ (ps ++ r)⟩
  | env {s s' : S} (ts : List (Prog S E Empty A R)) (h : W.env s s') (hb : W.bound s') :
      Step W ⟨s, ts⟩ [] ⟨s', ts⟩
  | spawn {s : S} {p : Prog S E Empty A R} (ts : List (Prog S E Empty A R)) (h : W.spawn p) :
      Step W ⟨s, ts⟩ [] ⟨s, p :: ts⟩

namespace Step

variable {W : World S E A R} {s s' : S} {p k : Prog S E Empty A R}
  (l r : List (Prog S E Empty A R))

theorem act {f : S → Option S} {k : S → Prog S E Empty A R} (h : f s = some s')
    (hb : W.bound s') : Step W ⟨s, l ++ .act f k :: r⟩ [] ⟨s', l ++ k s :: r⟩ := by
  have hn : (Prog.act f k).next s = some ([], s', [k s]) := by simp [Prog.next, h]
  exact .thread l r hn hb

theorem emit (e : E) (hb : W.bound s) : Step W ⟨s, l ++ .emit e k :: r⟩ [e] ⟨s, l ++ k :: r⟩ := by
  have hn : (Prog.emit e k).next s = some ([e], s, [k]) := rfl
  exact .thread l r hn hb

theorem fork (hb : W.bound s) : Step W ⟨s, l ++ .fork p k :: r⟩ [] ⟨s, l ++ p :: k :: r⟩ := by
  have hn : (Prog.fork p k).next s = some ([], s, [p, k]) := rfl
  exact .thread l r hn hb

end Step

/-- A run: any number of steps, with the events they show in order. -/
inductive Run (W : World S E A R) (a : Pool S E A R) : List E → Pool S E A R → Prop where
  | refl : Run W a [] a
  | tail {b c : Pool S E A R} {es fs : List E} (h : Run W a es b) (hs : Step W b fs c) :
      Run W a (es ++ fs) c

/-- A thread on its own does what it is going to do next. -/
theorem Step.of_alone {bound : S → Prop} {s : S} {p : Prog S E Empty A R} {es : List E}
    {b : Pool S E A R} (h : Step (World.alone bound) ⟨s, [p]⟩ es b) :
    ∃ s' ps, p.next s = some (es, s', ps) ∧ bound s' ∧ b = ⟨s', ps⟩ := by
  generalize ha : (⟨s, [p]⟩ : Pool S E A R) = a at h
  cases h with
  | @thread t t' q fs qs l r hn hb =>
      obtain ⟨rfl, hts⟩ := Pool.mk.inj ha
      obtain ⟨rfl, rfl, rfl⟩ : l = [] ∧ p = q ∧ r = [] := by
        cases l with
        | nil =>
            obtain ⟨hp, hr⟩ := List.cons.inj hts
            exact ⟨rfl, hp, hr.symm⟩
        | cons x l => simp at hts
      exact ⟨t', qs, hn, hb, by simp⟩
  | env ts he _ => exact he.elim
  | spawn ts hp => exact hp.elim

namespace Run

variable {W : World S E A R} {a b c : Pool S E A R} {es fs : List E}

theorem trans (h : Run W a es b) (h' : Run W b fs c) : Run W a (es ++ fs) c := by
  induction h' with
  | refl => simpa using h
  | tail _ hs ih =>
      rw [← List.append_assoc]
      exact .tail ih hs

theorem single (hs : Step W a es b) : Run W a es b := by
  simpa using Run.refl.tail hs

theorem head (h : Run W b fs c) (hs : Step W a es b) : Run W a (es ++ fs) c :=
  (single hs).trans h

theorem silent (hs : Step W a [] b) (h : Run W b fs c) : Run W a fs c := h.head hs

/-- What every step keeps, a run keeps. -/
theorem invariant {P : Pool S E A R → Prop}
    (hP : ∀ {b c : Pool S E A R} {es : List E}, P b → Step W b es c → P c) (h : Run W a es b)
    (ha : P a) : P b := by
  induction h with
  | refl => exact ha
  | tail _ hs ih => exact hP ih hs

/-- A run that starts within the bound stays there. -/
theorem bound (h : Run W a es b) (ha : W.bound a.state) : W.bound b.state := by
  refine h.invariant (P := fun a => W.bound a.state) (fun hb hs => ?_) ha
  cases hs with
  | thread _ _ _ hb' => exact hb'
  | env _ _ hb' => exact hb'
  | spawn _ _ => exact hb

/-- The first step of a run. -/
theorem head_cases (h : Run W a es b) :
    (es = [] ∧ b = a) ∨ ∃ es₁ es₂ c, es = es₁ ++ es₂ ∧ Step W a es₁ c ∧ Run W c es₂ b := by
  induction h with
  | refl => exact .inl ⟨rfl, rfl⟩
  | @tail b c es fs _ hs ih =>
      right
      obtain ⟨rfl, rfl⟩ | ⟨es₁, es₂, d, rfl, hd, hrun⟩ := ih
      · exact ⟨fs, [], c, by simp, hs, .refl⟩
      · exact ⟨es₁, es₂ ++ fs, d, by simp, hd, hrun.tail hs⟩

/-- A section that runs alone is over before anything else happens. -/
theorem of_act {bound : S → Prop} {s : S} {f : S → Option S} {k : S → Prog S E Empty A R}
    (h : Run (World.alone bound) ⟨s, [.act f k]⟩ es b) (hd : ∀ p ∈ b.threads, p.Done) :
    ∃ s', f s = some s' ∧ bound s' ∧ Run (World.alone bound) ⟨s', [k s]⟩ es b := by
  obtain ⟨rfl, rfl⟩ | ⟨es₁, es₂, c, rfl, hs, hrun⟩ := h.head_cases
  · exact (hd _ (List.mem_singleton.mpr rfl)).elim
  · obtain ⟨t, ps, hn, hb, rfl⟩ := hs.of_alone
    obtain ⟨s', hs', hr⟩ := Option.map_eq_some_iff.mp hn
    cases hr
    exact ⟨t, hs', hb, hrun⟩

end Run

end Pool
