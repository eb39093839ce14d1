import GayRpc.Lib.Prog

/-!
# Duties

What must not be dropped, in programs that run side by side. A `Duty` says which states hold a thing
safely and which events settle it for good. `Discharges B o p`: if `o`, the thing is in the hands of
the program `p`, which may put it into the state again or show an event that settles it, but not lose
it; and if `p` takes the thing out of the state, it is in its hands from then on.

A duty is the other half of a `Budget`. The budget says that something happens at most once, the duty that
it happens at all unless it is still to come. Both are about a right that wanders between the state and
the threads, and both leave it to the proof rules to say where it is.

A duty has to be handed on when a program is followed by another one. After `bind` the second program has
it only if the first one returns, so there are two rules: the first part has discharged its duty itself
(`bind`), or it is certain to return and the second part discharges it (`bind_returns`). `Returns` and
`Asks` are the two kinds of certainty about a program that are needed for this, and say so without a run.

When all threads of a pool are done, nothing is in anybody's hands: the thing has been settled, or it
is still safe (`Run.settled_or_safe`).
-/

structure Duty (S E : Type) where
  /-- what every step keeps -/
  inv : S → Prop
  /-- where the steps under consideration end -/
  bound : S → Prop
  safe : S → Prop
  settles : E → Prop

namespace Prog

variable {S T E Q A R Q' A' R' : Type}

/-- The program comes to an end on its own thread, with a result that satisfies `P`, unless it waits
forever. -/
def Returns (P : R → Prop) : Prog S E Q A R → Prop
  | ret r => P r
  | halt => False
  | ask _ k => ∀ a, Returns P (k a)
  | act _ k => ∀ s, Returns P (k s)
  | emit _ k => Returns P k
  | fork _ k => Returns P k

namespace Returns

variable {P : R → Prop} {p : Prog S E Q A R}

theorem bind {P' : R' → Prop} {k : R → Prog S E Q A R'} (hp : Returns P p)
    (hk : ∀ r, P r → Returns P' (k r)) : Returns P' (p.bind k) := by
  induction p with
  | ret r => exact hk r hp
  | halt => exact hp.elim
  | ask q p ih => exact fun a => ih a (hp a)
  | act f p ih => exact fun s => ih s (hp s)
  | emit e p ih => exact ih hp
  | fork p q _ ihq => exact ihq hp

theorem plug {M : Type} {h : M → Q → Prog S E Q' A' A} {step : M → M} {m : M} (hp : Returns P p)
    (hh : ∀ m q, Returns (fun _ => True) (h m q)) : Returns P (p.plug h step m) := by
  induction p generalizing m with
  | ret r => exact hp
  | halt => exact hp
  | ask q p ih => exact (hh m q).bind fun a _ => ih a (hp a)
  | act f p ih => exact fun s => ih s (hp s)
  | emit e p ih => exact ih hp
  | fork p q _ ihq => exact ihq hp

theorem lift {get : S → T} {set : S → T → S} {p : Prog T Empty Q A R} (hp : Returns P p) :
    Returns P (p.lift get set : Prog S E Q A R) := by
  induction p with
  | ret r => exact hp
  | halt => exact hp
  | ask q p ih => exact fun a => ih a (hp a)
  | act f p ih => exact fun s => ih (get s) (hp (get s))
  | emit e _ _ => exact e.elim
  | fork p q _ ihq => exact ihq hp

end Returns

/-- On every path the program, or a thread that it starts, asks something. -/
def Asks : Prog S E Q A R → Prop
  | ret _ => False
  | halt => False
  | ask _ _ => True
  | act _ k => ∀ s, Asks (k s)
  | emit _ k => Asks k
  | fork p k => Asks p ∨ Asks k

theorem Asks.lift {get : S → T} {set : S → T → S} {p : Prog T Empty Q A R} (hp : p.Asks) :
    (p.lift get set : Prog S E Q A R).Asks := by
  induction p with
  | ret r => exact hp
  | halt => exact hp
  | ask q p _ => trivial
  | act f p ih => exact fun s => ih (get s) (hp (get s))
  | emit e _ _ => exact e.elim
  | fork p q ihp ihq => exact hp.imp ihp ihq

/-- Who asks somebody who asks, asks. -/
theorem Asks.plug {M : Type} {h : M → Q → Prog S E Q' A' A} {step : M → M} {m : M} {p : Prog S E Q A R}
    (hp : p.Asks) (hh : ∀ m q (k : A → Prog S E Q' A' R), ((h m q).bind k).Asks) :
    (p.plug h step m).Asks := by
  induction p generalizing m with
  | ret r => exact hp
  | halt => exact hp
  | ask q p _ => exact hh m q _
  | act f p ih => exact fun s => ih s (hp s)
  | emit e p ih => exact ih hp
  | fork p q ihp ihq => exact hp.imp ihp ihq

def Discharges (B : Duty S E) : Prop → Prog S E Q A R → Prop
  | o, ret _ => ¬ o
  | o, halt => ¬ o
  | o, ask _ k => ∀ a, Discharges B o (k a)
  | o, act f k => ∀ s s', B.inv s → B.bound s' → f s = some s' →
      B.inv s' ∧ ∃ o' : Prop, (o ∨ B.safe s → B.safe s' ∨ o') ∧ Discharges B o' (k s)
  | o, emit e k => ∃ o' : Prop, (o → B.settles e ∨ o') ∧ Discharges B o' k
  | o, fork p k => ∃ a b : Prop, (o → a ∨ b) ∧ Discharges B a p ∧ Discharges B b k

namespace Discharges

variable {B : Duty S E} {o o' : Prop} {p : Prog S E Q A R}

theorem mono (h : Discharges B o p) (ho : o' → o) : Discharges B o' p := by
  induction p generalizing o o' with
  | ret r => exact fun h' => h (ho h')
  | halt => exact fun h' => h (ho h')
  | ask q p ih => exact fun a => ih a (h a) ho
  | act f p _ =>
      intro s s' hs hs' hf
      obtain ⟨hinv, u, hu, hp⟩ := h s s' hs hs' hf
      exact ⟨hinv, u, fun h' => hu (h'.imp_left ho), hp⟩
  | emit e p _ =>
      obtain ⟨u, hu, hp⟩ := h
      exact ⟨u, fun h' => hu (ho h'), hp⟩
  | fork p q _ _ =>
      obtain ⟨a, b, hab, hp, hq⟩ := h
      exact ⟨a, b, fun h' => hab (ho h'), hp, hq⟩

/-- A program that has discharged its duty may be followed by anything that has none. -/
theorem bind {k : R → Prog S E Q A R'} (hp : Discharges B o p)
    (hk : ∀ r, Discharges B False (k r)) : Discharges B o (p.bind k) := by
  induction p generalizing o R' with
  | ret r => exact (hk r).mono hp
  | halt => exact hp
  | ask q p ih => exact fun a => ih a (hp a) hk
  | act f p ih =>
      intro s s' hs hs' hf
      obtain ⟨hinv, u, hu, hp⟩ := hp s s' hs hs' hf
      exact ⟨hinv, u, hu, ih s hp hk⟩
  | emit e p ih =>
      obtain ⟨u, hu, hp⟩ := hp
      exact ⟨u, hu, ih hp hk⟩
  | fork p q ihp ihq =>
      obtain ⟨a, b, hab, hp, hq⟩ := hp
      have hhalt : Discharges B False (halt : Prog S E Q A R') := id
      exact ⟨a, b, hab, ihp hp fun _ => hhalt, ihq hq hk⟩

/-- A duty may wait for what follows a program that is certain to return. -/
theorem bind_returns {P : R → Prop} {k : R → Prog S E Q A R'} (hp : Discharges B o p)
    (hr : Returns P p) (hk : ∀ r, P r → Discharges B o' (k r)) :
    Discharges B (o ∨ o') (p.bind k) := by
  induction p generalizing o with
  -- what returns has discharged its part of the duty, the rest is for `k`
  | ret r => exact (hk r hr).mono fun h => h.resolve_left hp
  | halt => exact hr.elim
  | ask q p ih => exact fun a => ih a (hp a) (hr a)
  | act f p ih =>
      intro s s' hs hs' hf
      obtain ⟨hinv, u, hu, hp⟩ := hp s s' hs hs' hf
      refine ⟨hinv, u ∨ o', ?_, ih s hp (hr s)⟩
      grind
  | emit e p ih =>
      obtain ⟨u, hu, hp⟩ := hp
      refine ⟨u ∨ o', ?_, ih hp hr⟩
      grind
  | fork p q _ ihq =>
      obtain ⟨a, b, hab, hp, hq⟩ := hp
      -- a forked thread is not followed by `k` and keeps only what it was given
      have hhalt : Discharges B False (halt : Prog S E Q A R') := id
      refine ⟨a, b ∨ o', ?_, hp.bind fun _ => hhalt, ihq hq hr⟩
      grind

/-- A program on a part of the state where the thing is not kept, its questions answered by programs
that do not drop it. -/
theorem lift_plug {M : Type} {h : M → Q → Prog S E Q' A' A} {step : M → M} {m : M} {get : S → T}
    {set : S → T → S} {p : Prog T Empty Q A R} (hinv : ∀ s t, B.inv s → B.inv (set s t))
    (hsafe : ∀ s t, B.safe s → B.safe (set s t)) (hh : ∀ m q, Discharges B False (h m q)) :
    Discharges B False ((p.lift get set : Prog S E Q A R).plug h step m) := by
  induction p generalizing m with
  | ret r => exact id
  | halt => exact id
  | ask q p ih => exact (hh m q).bind fun a => ih a
  | act f p ih =>
      intro s s' hs _ hf
      obtain ⟨t, -, rfl⟩ := Option.map_eq_some_iff.mp hf
      exact ⟨hinv s t hs, False, fun ho => .inl (hsafe s t (ho.resolve_left id)), ih (get s)⟩
  | emit e _ _ => exact e.elim
  | fork p q ihp ihq => exact ⟨False, False, False.elim, ihp, ihq⟩

/-- The same for a program without questions. -/
theorem lift {get : S → T} {set : S → T → S} {p : Prog T Empty Empty A R}
    (hinv : ∀ s t, B.inv s → B.inv (set s t)) (hsafe : ∀ s t, B.safe s → B.safe (set s t)) :
    Discharges B False (p.lift get set : Prog S E Empty A R) := by
  induction p with
  | ret r => exact id
  | halt => exact id
  | ask q _ _ => exact q.elim
  | act f p ih =>
      intro s s' hs _ hf
      obtain ⟨t, -, rfl⟩ := Option.map_eq_some_iff.mp hf
      exact ⟨hinv s t hs, False, fun ho => .inl (hsafe s t (ho.resolve_left id)), ih (get s)⟩
  | emit e _ _ => exact e.elim
  | fork p q ihp ihq => exact ⟨False, False, False.elim, ihp, ihq⟩

/-- Whoever is asked takes the thing over, so that a program that asks is rid of it. -/
theorem lift_plug_asks {M : Type} {h : M → Q → Prog S E Q' A' A} {step : M → M} {m : M} {get : S → T}
    {set : S → T → S} {p : Prog T Empty Q A R} (hinv : ∀ s t, B.inv s → B.inv (set s t))
    (hsafe : ∀ s t, B.safe s → B.safe (set s t)) (hh : ∀ m q, Discharges B o (h m q))
    (hp : o → p.Asks) : Discharges B o ((p.lift get set : Prog S E Q A R).plug h step m) := by
  have hnone : ∀ m q, Discharges B False (h m q) := fun m q => (hh m q).mono False.elim
  induction p generalizing o m with
  | ret r => exact hp
  | halt => exact hp
  | ask q p _ => exact (hh m q).bind fun a => lift_plug hinv hsafe hnone
  | act f p ih =>
      intro s s' hs _ hf
      obtain ⟨t, -, rfl⟩ := Option.map_eq_some_iff.mp hf
      refine ⟨hinv s t hs, o, fun ho => ho.symm.imp_left (hsafe s t), ?_⟩
      exact ih (get s) hh fun ho => hp ho (get s)
  | emit e _ _ => exact e.elim
  | fork p q ihp ihq =>
      refine ⟨o ∧ p.Asks, o ∧ q.Asks, fun ho => (hp ho).imp (⟨ho, ·⟩) (⟨ho, ·⟩), ?_, ?_⟩
      · exact ihp (fun m q => (hh m q).mono And.left) And.right
      · exact ihq (fun m q => (hh m q).mono And.left) And.right

/-- What a program does on its part, where the thing is kept. -/
theorem within {F : Type} {B' : Duty T F} {get : S → T} {set : S → T → S} {tag : F → E}
    {p : Prog T F Q A R} (hp : Discharges B' o p)
    (hinv : ∀ s, B.inv s → B'.inv (get s)) (hinv' : ∀ s t, B.inv s → B'.inv t → B.inv (set s t))
    (hbound : ∀ s t, B.bound (set s t) → B'.bound t) (hsafe : ∀ s, B.safe s → B'.safe (get s))
    (hsafe' : ∀ s t, B'.safe t → B.safe (set s t)) (htag : ∀ e, B'.settles e → B.settles (tag e)) :
    Discharges B o (p.within (fun s => some (get s)) set tag) := by
  induction p generalizing o with
  | ret r => exact hp
  | halt => exact hp
  | ask q p ih => exact fun a => ih a (hp a)
  | act f p ih =>
      intro s s' hs hs' hf
      obtain ⟨t, ht, rfl⟩ := Option.map_eq_some_iff.mp hf
      obtain ⟨hinvt, o', ho', hp⟩ := hp (get s) t (hinv s hs) (hbound s t hs') ht
      exact ⟨hinv' s t hs hinvt, o', fun ho => (ho' (ho.imp_right (hsafe s))).imp_left (hsafe' s t),
        ih (get s) hp⟩
  | emit e p ih =>
      obtain ⟨o', ho', hp⟩ := hp
      exact ⟨o', fun ho => (ho' ho).imp_left (htag e), ih hp⟩
  | fork p q ihp ihq =>
      obtain ⟨a, b, hab, hp, hq⟩ := hp
      exact ⟨a, b, hab, ihp hp, ihq hq⟩

/-- What a program does on a part where the thing is not kept. -/
theorem elsewhere {F : Type} {get : S → T} {set : S → T → S} {tag : F → E} {p : Prog T F Q A R}
    (hinv : ∀ s t, B.inv s → B.inv (set s t)) (hsafe : ∀ s t, B.safe s → B.safe (set s t)) :
    Discharges B False (p.within (fun s => some (get s)) set tag) := by
  induction p with
  | ret r => exact id
  | halt => exact id
  | ask q p ih => exact ih
  | act f p ih =>
      intro s s' hs _ hf
      obtain ⟨t, -, rfl⟩ := Option.map_eq_some_iff.mp hf
      exact ⟨hinv s t hs, False, fun ho => .inl (hsafe s t (ho.resolve_left id)), ih (get s)⟩
  | emit e p ih => exact ⟨False, False.elim, ih⟩
  | fork p q ihp ihq => exact ⟨False, False, False.elim, ihp, ihq⟩

end Discharges

def DischargesAll (B : Duty S E) : Prop → List (Prog S E Q A R) → Prop
  | o, [] => ¬ o
  | o, p :: ps => ∃ a b : Prop, (o → a ∨ b) ∧ Discharges B a p ∧ DischargesAll B b ps

namespace DischargesAll

variable {B : Duty S E} {o o' : Prop} {ps qs : List (Prog S E Q A R)}

theorem mono (h : DischargesAll B o ps) (ho : o' → o) : DischargesAll B o' ps := by
  cases ps with
  | nil => exact fun h' => h (ho h')
  | cons p ps =>
      obtain ⟨a, b, hab, hp, hps⟩ := h
      exact ⟨a, b, fun h' => hab (ho h'), hp, hps⟩

theorem single {p : Prog S E Q A R} (h : Discharges B o p) : DischargesAll B o [p] :=
  ⟨o, False, .inl, h, id⟩

theorem append (hp : DischargesAll B o ps) (hq : DischargesAll B o' qs) :
    DischargesAll B (o ∨ o') (ps ++ qs) := by
  induction ps generalizing o with
  | nil => exact hq.mono fun h => h.resolve_left hp
  | cons p ps ih =>
      obtain ⟨a, b, hab, hp, hps⟩ := hp
      refine ⟨a, b ∨ o', ?_, hp, ih hps⟩
      grind

theorem of_append (h : DischargesAll B o (ps ++ qs)) :
    ∃ a b : Prop, (o → a ∨ b) ∧ DischargesAll B a ps ∧ DischargesAll B b qs := by
  induction ps generalizing o with
  | nil => exact ⟨False, o, .inr, id, h⟩
  | cons p ps ih =>
      obtain ⟨a, b, hab, hp, hps⟩ := h
      obtain ⟨a', b', hab', hps, hqs⟩ := ih hps
      exact ⟨a ∨ a', b', by grind, ⟨a, a', id, hp, hps⟩, hqs⟩

/-- Threads that are done have nothing in hand. -/
theorem not_of_done (h : DischargesAll B o ps) (hd : ∀ p ∈ ps, p.Done) : ¬ o := by
  induction ps generalizing o with
  | nil => exact h
  | cons p ps ih =>
      obtain ⟨a, b, hab, hp, hps⟩ := h
      obtain ⟨hdp, hdps⟩ := List.forall_mem_cons.mp hd
      intro ho
      rcases hab ho with ha | hb
      · cases p with
        | ret r => exact hp ha
        | halt => exact hp ha
        | _ => exact hdp
      · exact ih hps hdps hb

end DischargesAll

/-- A step of a thread drops nothing. -/
theorem Discharges.next {B : Duty S E} {o : Prop} {p : Prog S E Empty A R} {s s' : S} {es : List E}
    {ps : List (Prog S E Empty A R)} (hp : Discharges B o p) (hs : B.inv s) (hs' : B.bound s')
    (h : p.next s = some (es, s', ps)) :
    B.inv s' ∧ ∃ o' : Prop, (o ∨ B.safe s → (∃ e ∈ es, B.settles e) ∨ B.safe s' ∨ o') ∧
      DischargesAll B o' ps := by
  cases p with
  | ret r => cases h
  | halt => cases h
  | ask q _ => exact q.elim
  | act f k =>
      obtain ⟨t, ht, hr⟩ := Option.map_eq_some_iff.mp h
      cases hr
      obtain ⟨hinv, u, hu, hk⟩ := hp s s' hs hs' ht
      exact ⟨hinv, u, fun ho => .inr (hu ho), .single hk⟩
  | emit e k =>
      cases h
      obtain ⟨u, hu, hk⟩ := hp
      refine ⟨hs, u, fun ho => ?_, .single hk⟩
      -- the duty is met by this event, or passed on, or no longer asked for
      rcases ho with ho | hsafe
      · rcases hu ho with he | hu
        · exact .inl ⟨e, List.mem_singleton.mpr rfl, he⟩
        · exact .inr (.inr hu)
      · exact .inr (.inl hsafe)
  | fork p k =>
      cases h
      obtain ⟨a, b, hab, hp, hk⟩ := hp
      refine ⟨hs, o, fun ho => .inr ho.symm, a, b, hab, hp, .single hk⟩

end Prog

/-- What happens around the threads drops nothing. -/
structure World.Keeps {S E A R : Type} (W : World S E A R) (B : Duty S E) : Prop where
  bound : ∀ s, W.bound s → B.bound s
  env_inv : ∀ s s', W.env s s' → B.inv s → B.inv s'
  env_safe : ∀ s s', W.env s s' → B.safe s → B.safe s'
  spawn : ∀ p, W.spawn p → Prog.Discharges B False p

namespace Pool

variable {S E A R : Type} {W : World S E A R} {B : Duty S E} {a b : Pool S E A R} {es : List E}

/-- The thing is safe in the state or in the hands of a thread. -/
def Holds (B : Duty S E) (a : Pool S E A R) : Prop :=
  B.inv a.state ∧ ∃ o : Prop, (B.safe a.state ∨ o) ∧ Prog.DischargesAll B o a.threads

theorem Step.holds (hW : W.Keeps B) (h : Step W a es b) (ha : a.Holds B) :
    (∃ e ∈ es, B.settles e) ∨ b.Holds B := by
  obtain ⟨hinv, o, ho, hall⟩ := ha
  cases h with
  | @thread s s' p _ ps l r hn hb =>
      obtain ⟨x, y, hxy, hl, u, v, huv, hp, hr⟩ := hall.of_append
      obtain ⟨hinv', w, hw, hps⟩ := hp.next hinv (hW.bound s' hb) hn
      by_cases hes : ∃ e ∈ es, B.settles e
      · exact .inl hes
      · refine .inr ⟨hinv', _, ?_, hl.append (hps.append hr)⟩
        dsimp only at ho
        grind
  | @env s s' ts he hb =>
      exact .inr ⟨hW.env_inv s s' he hinv, o, ho.imp_left (hW.env_safe s s' he), hall⟩
  | spawn ts hp =>
      exact .inr ⟨hinv, o, ho, False, o, .inr, hW.spawn _ hp, hall⟩

theorem Run.holds (hW : W.Keeps B) (h : Run W a es b) (ha : a.Holds B) :
    (∃ e ∈ es, B.settles e) ∨ b.Holds B := by
  induction h with
  | refl => exact .inr ha
  | tail _ hs ih =>
      rcases ih with ⟨e, he, hse⟩ | hb
      · exact .inl ⟨e, List.mem_append_left _ he, hse⟩
      · rcases hs.holds hW hb with ⟨e, he, hse⟩ | hc
        · exact .inl ⟨e, List.mem_append_right _ he, hse⟩
        · exact .inr hc

/-- What was safe or in hand at the start has been settled or is safe, when all threads are done. -/
theorem Run.settled_or_safe (hW : W.Keeps B) (h : Run W a es b) (ha : a.Holds B)
    (hd : ∀ p ∈ b.threads, p.Done) : (∃ e ∈ es, B.settles e) ∨ B.safe b.state := by
  rcases h.holds hW ha with hes | ⟨-, o, ho, hall⟩
  · exact .inl hes
  · exact .inr (ho.resolve_right (hall.not_of_done hd))

end Pool
