import GayRpc.Lib.Prog
import Mathlib.Data.List.Forall2
import Mathlib.Data.Multiset.AddSub

/-!
# What threads hold

Beside its program a thread may hold something that the program itself does not mention: a place it has
been given, a note of what it is about to do. An `Exchange` says what becomes of that in a section, and
`Holds X o p` that the sections of `p`, begun with `o`, are such exchanges. What is kept of the state and
of all that the threads hold, one exchange at a time, is kept by every run (`Run.held`).

That is a ghost variable for each thread. The code is left as it is; that a thread holds what it is said to
hold is not a part of its state but of the proof, namely of the relation between its program and `o`. An
invariant may then speak of the multiset of all that is held, where a statement about programs would have
to say how far each of them has come. At the end one gets back, for each thread, what it holds
(`Held.exists_holds`).
-/

structure Exchange (S O : Type) where
  /-- where the sections under consideration end -/
  bound : S → Prop
  /-- what a thread starts with -/
  nothing : O
  step : O → S → O → S → Prop
  /-- nobody has to make use of what they hold -/
  of_nothing : ∀ {o s o' s'}, step nothing s o' s' → step o s o' s'

namespace Prog

variable {S T E Q A R Q' A' R' O : Type}

/-- The sections of the program are exchanges. Who asks puts down what it holds. -/
def Holds (X : Exchange S O) : O → Prog S E Q A R → Prop
  | _, ret _ => True
  | _, halt => True
  | _, ask _ k => ∀ a, Holds X X.nothing (k a)
  | o, act f k => ∀ s s', f s = some s' → X.bound s' → ∃ o', X.step o s o' s' ∧ Holds X o' (k s)
  | o, emit _ k => Holds X o k
  | o, fork p k => Holds X X.nothing p ∧ Holds X o k

namespace Holds

variable {X : Exchange S O} {o : O} {p : Prog S E Q A R}

/-- What can be done with nothing can be done with anything. -/
theorem of_nothing (h : Holds X X.nothing p) : Holds X o p := by
  induction p generalizing o with
  | ret r => trivial
  | halt => trivial
  | ask q k _ => exact h
  | act f k _ =>
      intro s s' hf hb
      obtain ⟨o', hstep, hk⟩ := h s s' hf hb
      exact ⟨o', X.of_nothing hstep, hk⟩
  | emit e k ih => exact ih h
  | fork p k _ ih => exact ⟨h.1, ih h.2⟩

/-- What comes after a program starts with nothing. -/
theorem bind {k : R → Prog S E Q A R'} (hp : Holds X o p) (hk : ∀ r, Holds X X.nothing (k r)) :
    Holds X o (p.bind k) := by
  induction p generalizing o R' with
  | ret r => exact (hk r).of_nothing
  | halt => trivial
  | ask q c ih =>
      intro a
      exact ih a (hp a) hk
  | act f c ih =>
      intro s s' hf hb
      obtain ⟨o', hstep, hc⟩ := hp s s' hf hb
      exact ⟨o', hstep, ih s hc hk⟩
  | emit e c ih => exact ih hp hk
  | fork p c ihp ihc => exact ⟨ihp hp.1 fun _ => trivial, ihc hp.2 hk⟩

theorem plug {M : Type} {h : M → Q → Prog S E Q' A' A} {step : M → M} (hp : Holds X o p)
    (hh : ∀ m q, Holds X X.nothing (h m q)) (m : M) : Holds X o (p.plug h step m) := by
  induction p generalizing o m with
  | ret r => trivial
  | halt => trivial
  | ask q c ih =>
      refine (hh m q).of_nothing.bind fun a => ?_
      exact ih a (hp a) _
  | act f c ih =>
      intro s s' hf hb
      obtain ⟨o', hstep, hc⟩ := hp s s' hf hb
      exact ⟨o', hstep, ih s hc _⟩
  | emit e c ih => exact ih hp _
  | fork p c ihp ihc => exact ⟨ihp hp.1 _, ihc hp.2 _⟩

/-- A program on a part of the state that anybody may change. -/
theorem lift {get : S → T} {set : S → T → S} (hset : ∀ s t, X.step X.nothing s X.nothing (set s t))
    (p : Prog T Empty Q A R) : Holds X X.nothing (p.lift get set : Prog S E Q A R) := by
  induction p with
  | ret r => trivial
  | halt => trivial
  | ask q c ih =>
      intro a
      exact ih a
  | act f c ih =>
      intro s s' hf _
      obtain ⟨t, -, rfl⟩ := Option.map_eq_some_iff.mp hf
      exact ⟨X.nothing, hset s t, ih (get s)⟩
  | emit e c _ => exact e.elim
  | fork p c ihp ihc => exact ⟨ihp, ihc⟩

/-- A step is an exchange, or nothing happens to the state. -/
theorem next {p : Prog S E Empty A R} {s s' : S} {es : List E} {ps : List (Prog S E Empty A R)}
    (hp : Holds X o p) (hb : X.bound s') (h : p.next s = some (es, s', ps)) :
    (∃ o' q, ps = [q] ∧ X.step o s o' s' ∧ Holds X o' q) ∨
      (s' = s ∧ ∃ q, ps = [q] ∧ Holds X o q) ∨
      (s' = s ∧ ∃ q q', ps = [q, q'] ∧ Holds X X.nothing q ∧ Holds X o q') := by
  cases p with
  | ret r => cases h
  | halt => cases h
  | ask q c => exact q.elim
  | act f c =>
      obtain ⟨t, ht, hr⟩ := Option.map_eq_some_iff.mp h
      cases hr
      obtain ⟨o', hstep, hc⟩ := hp s _ ht hb
      exact .inl ⟨o', c s, rfl, hstep, hc⟩
  | emit e c =>
      cases h
      exact .inr (.inl ⟨rfl, c, rfl, hp⟩)
  | fork p c =>
      cases h
      exact .inr (.inr ⟨rfl, p, c, rfl, hp.1, hp.2⟩)

end Holds

end Prog

/-- Exchanges, and what happens around the threads, keep a property of the state and of all that the
threads hold. -/
structure Exchange.Keeps {S E A R O : Type} (X : Exchange S O) (W : World S E A R)
    (I : S → Multiset O → Prop) : Prop where
  bound : ∀ s, W.bound s → X.bound s
  step : ∀ {o o' s s' os}, X.step o s o' s' → X.bound s' → I s (o ::ₘ os) → I s' (o' ::ₘ os)
  nothing : ∀ {s os}, I s os → I s (X.nothing ::ₘ os)
  env : ∀ {s s' os}, W.env s s' → W.bound s' → I s os → I s' os
  spawn : ∀ p, W.spawn p → p.Holds X X.nothing

namespace Pool

open Prog

variable {S E A R O : Type} {W : World S E A R} {X : Exchange S O} {I : S → Multiset O → Prop}
  {a b : Pool S E A R} {es : List E}

/-- The threads hold something, and all that fits the state. -/
def Held (X : Exchange S O) (I : S → Multiset O → Prop) (a : Pool S E A R) : Prop :=
  ∃ os : List O, List.Forall₂ (Prog.Holds X) os a.threads ∧ I a.state os

theorem Step.held (hX : X.Keeps W I) (h : Step W a es b) (ha : a.Held X I) : b.Held X I := by
  obtain ⟨os, hall, hinv⟩ := ha
  cases h with
  | @thread s s' p _ ps l r hn hb =>
      have hl := List.forall₂_take_append os l (p :: r) hall
      have hpr := List.forall₂_drop_append os l (p :: r) hall
      obtain ⟨o, or, hp, hr, hdrop⟩ := List.forall₂_cons_right_iff.mp hpr
      have hos := List.take_append_drop l.length os
      rw [hdrop] at hos
      generalize os.take l.length = ol at hl hos
      subst hos
      -- the thread that moves comes first
      have hfirst : ∀ os : List O, (↑(ol ++ (os ++ or)) : Multiset O) = ↑os + ↑(ol ++ or) := by
        intro os
        rw [Multiset.coe_add, Multiset.coe_eq_coe]
        exact List.perm_append_comm_assoc ol os or
      have hfront : I s (o ::ₘ (↑(ol ++ or) : Multiset O)) := by
        have h := hfirst [o]
        rw [List.singleton_append] at h
        dsimp only at hinv
        rw [h] at hinv
        simpa using hinv
      -- the thread changes what it holds, or moves with it, or forks one that holds nothing
      obtain ⟨o', q, rfl, hstep, hq⟩ | ⟨rfl, q, rfl, hq⟩ | ⟨rfl, q, q', rfl, hq, hq'⟩ :=
        hp.next (hX.bound _ hb) hn
      · refine ⟨ol ++ ([o'] ++ or), List.rel_append hl (List.rel_append (.cons hq .nil) hr), ?_⟩
        rw [hfirst]
        simpa using hX.step hstep (hX.bound _ hb) hfront
      · refine ⟨ol ++ ([o] ++ or), List.rel_append hl (List.rel_append (.cons hq .nil) hr), ?_⟩
        rw [hfirst]
        simpa using hfront
      · refine ⟨ol ++ ([X.nothing, o] ++ or),
          List.rel_append hl (List.rel_append (.cons hq (.cons hq' .nil)) hr), ?_⟩
        rw [hfirst]
        simpa using hX.nothing hfront
  | env ts he hb => exact ⟨os, hall, hX.env he hb hinv⟩
  | spawn ts hp => exact ⟨X.nothing :: os, .cons (hX.spawn _ hp) hall, hX.nothing hinv⟩

theorem Run.held (hX : X.Keeps W I) (h : Run W a es b) (ha : a.Held X I) : b.Held X I := by
  induction h with
  | refl => exact ha
  | tail _ hs ih => exact hs.held hX ih

/-- Every thread holds some of it. -/
theorem Held.exists_holds (ha : a.Held X I) :
    ∃ os, I a.state os ∧ ∀ p ∈ a.threads, ∃ o ∈ os, Prog.Holds X o p := by
  obtain ⟨os, hall, hinv⟩ := ha
  refine ⟨os, hinv, fun p hp => ?_⟩
  clear hinv
  generalize a.threads = ts at hall hp
  induction hall with
  | nil => cases hp
  | cons hhead _ ih =>
      obtain rfl | hp := List.mem_cons.mp hp
      · exact ⟨_, by simp, hhead⟩
      · obtain ⟨o, ho, hholds⟩ := ih hp
        exact ⟨o, by simpa using .inr ho, hholds⟩

end Pool
