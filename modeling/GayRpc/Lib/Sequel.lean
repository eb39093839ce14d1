import GayRpc.Lib.Guarantee
import Mathlib.Data.List.Perm.Basic

/-!
# One program after another

What `p.bind k` may do, said by what `p` may do alone: it runs as `p` until `p` returns some `x`, and
from then on the rest of `p` runs beside `k x`. `ReturnsIn` is that situation. If `k x` changes the
state only as the world around might, then everything it meets can also come about without it
(`Run.sequel`).

So a statement about two programs, one after the other, can be split into one about the first alone, which
may be code that nothing is known of, and one about the second in the states that the first leaves. The
world is one that starts nothing and changes the state by `env`; it stands for everybody else.

Threads that `p` starts have nobody to return to, which is what `mute` makes of a program. In a pool such a
thread does the same as before, and a step of the pool is a step of one of them or of the program itself
(`Step.of_along`).
-/

/-- A world that starts nothing, and changes the state by `env`. -/
def World.drifting {S E A R : Type} (env : S → S → Prop) : World S E A R where
  env := env
  spawn _ := False
  bound _ := True

namespace Prog

variable {S E Q A R R' : Type}

/-- A program whose result nobody waits for. -/
def mute (p : Prog S E Q A R) : Prog S E Q A R' := p.bind fun _ => halt

theorem mute_mute {R'' : Type} (p : Prog S E Q A R) :
    ((p.mute : Prog S E Q A R').mute : Prog S E Q A R'') = p.mute :=
  bind_assoc p _ _

/-- A program has returned, or has to wait whatever comes after it, or goes on, the last of the
threads it goes on as being itself. -/
theorem next_cases (p : Prog S E Empty A R) (s : S) :
    (∃ r, p = ret r) ∨ (∀ {R' : Type} (k : R → Prog S E Empty A R'), (p.bind k).next s = none) ∨
    ∃ (es : List E) (s' : S) (qs : List (Prog S E Empty A R)) (q : Prog S E Empty A R),
      ∀ {R' : Type} (k : R → Prog S E Empty A R'),
        (p.bind k).next s = some (es, s', qs.map mute ++ [q.bind k]) := by
  cases p with
  | ret r => exact .inl ⟨r, rfl⟩
  | halt => exact .inr (.inl fun _ => rfl)
  | ask q c => exact q.elim
  | act f c =>
      cases hf : f s with
      | none => exact .inr (.inl fun _ => by simp [bind, next, hf])
      | some t => exact .inr (.inr ⟨[], t, [], c s, fun _ => by simp [bind, next, hf]⟩)
  | emit e c => exact .inr (.inr ⟨[e], s, [], c, fun _ => rfl⟩)
  | fork p c => exact .inr (.inr ⟨[], s, [p], c, fun _ => rfl⟩)

variable {p : Prog S E Empty A R} {s s' : S} {es : List E}

/-- And it does the same whatever comes after it. -/
theorem next_bind {k : R → Prog S E Empty A R'} {ps : List (Prog S E Empty A R')}
    (hp : ∀ r, p ≠ ret r) (h : (p.bind k).next s = some (es, s', ps)) :
    ∃ (qs : List (Prog S E Empty A R)) (q : Prog S E Empty A R), ps = qs.map mute ++ [q.bind k] ∧
      ∀ {R' : Type} (k : R → Prog S E Empty A R'),
        (p.bind k).next s = some (es, s', qs.map mute ++ [q.bind k]) := by
  obtain ⟨r, rfl⟩ | hnone | ⟨fs, t, qs, q, hn⟩ := next_cases p s
  · exact absurd rfl (hp r)
  · rw [hnone] at h
    cases h
  · have hk := (hn k).symm.trans h
    cases hk
    exact ⟨qs, q, rfl, hn⟩

theorem next_mute {ps : List (Prog S E Empty A R')}
    (h : (p.mute : Prog S E Empty A R').next s = some (es, s', ps)) :
    ∃ qs : List (Prog S E Empty A R), ps = qs.map mute ∧
      ∀ {R' : Type}, (p.mute : Prog S E Empty A R').next s = some (es, s', qs.map mute) := by
  have hp : ∀ r, p ≠ ret r := by
    rintro r rfl
    cases h
  obtain ⟨qs, q, rfl, hn⟩ := next_bind hp h
  exact ⟨qs ++ [q], by simp [mute], fun {R'} => by simpa [mute] using hn fun _ => (halt : Prog S E Empty A R')⟩

end Prog

namespace Pool

open Prog

variable {S E A R R' : Type} {env : S → S → Prop} {p : Prog S E Empty A R} {s₀ s s' : S}
  {es fs : List E}

/-- Threads that have come to their end stay there. -/
theorem Step.of_done {a b : Pool S E A R} (ha : ∀ t ∈ a.threads, t.Done)
    (h : Step (World.drifting env) a es b) : b.threads = a.threads := by
  cases h with
  | @thread s _ t _ _ l r hn _ =>
      have hnone : t.next s = none := (ha t (by simp)).next s
      rw [hnone] at hn
      cases hn
  | env ts _ _ => rfl
  | spawn ts hp => exact hp.elim

theorem drifting_preserves {I : S → Prop} {G : E → Prop} (hI : ∀ s s', env s s' → I s → I s') :
    (World.drifting env : World S E A R).Preserves I G :=
  ⟨hI, fun _ hspawn => hspawn.elim⟩

/-- What a program may show at all is all it shows. -/
theorem Run.shows {G : E → Prop} (hp : p.Keeps (fun _ => True) G) {b : Pool S E A R}
    (h : Run (World.drifting env) ⟨s, [p]⟩ es b) : ∀ e ∈ es, G e :=
  (h.guaranteed (drifting_preserves fun _ _ _ _ => trivial) ⟨trivial, by simpa using hp⟩).2

/-- A program that may show nothing shows nothing. -/
theorem Run.eq_nil (hp : p.Keeps (fun _ => True) fun _ => False) {b : Pool S E A R}
    (h : Run (World.drifting env) ⟨s, [p]⟩ es b) : es = [] :=
  List.eq_nil_iff_forall_not_mem.mpr (h.shows hp)

/-- `q` is what is left of a program that is followed by `k`, and `l` runs beside it. -/
def along (k : R → Prog S E Empty A R') (l : List (Prog S E Empty A R)) (q : Prog S E Empty A R)
    (s : S) : Pool S E A R' :=
  ⟨s, l.map mute ++ [q.bind k]⟩

/-- A thread of such a pool is the program itself or one of those beside it. -/
theorem split_along {x p : Prog S E Empty A R'} {l : List (Prog S E Empty A R)}
    {a c : List (Prog S E Empty A R')} (h : l.map mute ++ [x] = a ++ p :: c) :
    (a = l.map mute ∧ p = x ∧ c = []) ∨
      ∃ l₁ q l₂, l = l₁ ++ q :: l₂ ∧ a = l₁.map mute ∧ p = q.mute ∧ c = l₂.map mute ++ [x] := by
  obtain rfl | ⟨c, y, rfl⟩ := c.eq_nil_or_concat
  · obtain ⟨ha, hp⟩ := List.append_inj' h rfl
    exact .inl ⟨ha.symm, (List.cons.inj hp).1.symm, rfl⟩
  · rw [List.concat_eq_append] at h ⊢
    rw [← List.cons_append, ← List.append_assoc] at h
    obtain ⟨hl, hy⟩ := List.append_inj' h rfl
    obtain ⟨l₁, rest, rfl, rfl, hrest⟩ := List.map_eq_append_iff.mp hl
    obtain ⟨q, l₂, rfl, rfl, rfl⟩ := List.map_eq_cons_iff.mp hrest
    obtain rfl := (List.cons.inj hy).1
    exact .inr ⟨l₁, q, l₂, rfl, rfl, rfl, rfl⟩

/-- The threads take a step, and they do the same whatever comes after the program. -/
theorem Step.of_along {k : R → Prog S E Empty A R'} {l : List (Prog S E Empty A R)}
    {q : Prog S E Empty A R} {b : Pool S E A R'} (hq : ∀ x, q = ret x → (k x).next s = none)
    (h : Step (World.drifting env) (along k l q s) es b) :
    ∃ l' q' s', b = along k l' q' s' ∧ ∀ {R' : Type} (k : R → Prog S E Empty A R'),
      Step (World.drifting env) (along k l q s) es (along k l' q' s') := by
  generalize ha : along k l q s = a at h
  cases h with
  | @thread t t' p fs ps l₀ r₀ hn _ =>
      obtain ⟨rfl, hts⟩ := Pool.mk.inj ha
      -- the thread itself moves, or one of the muted threads beside it
      obtain ⟨rfl, rfl, rfl⟩ | ⟨l₁, o, l₂, rfl, rfl, rfl, rfl⟩ := split_along hts
      · have hne : ∀ x, q ≠ ret x := by
          rintro x rfl
          have hnone := (hq x rfl).symm.trans hn
          cases hnone
        obtain ⟨qs, q', rfl, hall⟩ := next_bind hne hn
        refine ⟨l ++ qs, q', t', by simp [along], fun k => ?_⟩
        have hstep := Step.thread (W := World.drifting env) (l.map mute) [] (hall k) trivial
        simpa [along] using hstep
      · obtain ⟨qs, rfl, hall⟩ := next_mute hn
        refine ⟨l₁ ++ (qs ++ l₂), q, t', by simp [along], fun {R'} k => ?_⟩
        have hstep := Step.thread (W := World.drifting env) (l₁.map mute)
          (l₂.map mute ++ [q.bind k]) hall trivial
        simpa [along] using hstep
  | @env t t' ts he _ =>
      obtain ⟨rfl, rfl⟩ := Pool.mk.inj ha
      exact ⟨l, q, t', rfl, fun k => .env _ he trivial⟩
  | spawn ts hp => exact hp.elim

/-- What a program does on its own, it does before anything that comes after it. -/
theorem Run.of_along {l : List (Prog S E Empty A R)} {q : Prog S E Empty A R} {b : Pool S E A R}
    (h : Run (World.drifting env) (along ret l q s) es b) :
    ∃ l' q' s', b = along ret l' q' s' ∧ ∀ {R' : Type} (k : R → Prog S E Empty A R'),
      Run (World.drifting env) (along k l q s) es (along k l' q' s') := by
  induction h with
  | refl => exact ⟨l, q, s, rfl, fun _ => .refl⟩
  | tail _ hs ih =>
      obtain ⟨l', q', s', rfl, hrun⟩ := ih
      obtain ⟨l'', q'', s'', rfl, hstep⟩ := hs.of_along fun _ _ => rfl
      exact ⟨l'', q'', s'', rfl, fun k => (hrun k).tail (hstep k)⟩

/-- Started in `s₀`, the program has shown `es`, returned `x`, and the state is `s` now. -/
def ReturnsIn (env : S → S → Prop) (p : Prog S E Empty A R) (s₀ : S) (es : List E) (x : R) (s : S) :
    Prop :=
  ∃ l, Run (World.drifting env) ⟨s₀, [p.bind ret]⟩ es (along ret l (ret x) s : Pool S E A R)

/-- A pool in which the program has returned looks like that in only one way. -/
theorem eq_of_along_ret {l l' : List (Prog S E Empty A R)} {q : Prog S E Empty A R} {x : R} {s' : S}
    (h : (along ret l (ret x) s : Pool S E A R) = along ret l' q s') :
    s = s' ∧ q = ret x ∧
      ∀ {R' : Type}, (l.map mute : List (Prog S E Empty A R')) = l'.map mute := by
  obtain ⟨rfl, hts⟩ := Pool.mk.inj h
  obtain ⟨hl, hq⟩ := List.append_inj' hts rfl
  have hq : ret x = q.bind ret := (List.cons.inj hq).1
  refine ⟨rfl, ?_, fun {R'} => ?_⟩
  · cases q with
    | ret y => exact hq.symm
    | _ => cases hq
  · have hmap : (l.map mute : List (Prog S E Empty A R)).map mute =
        ((l'.map mute : List (Prog S E Empty A R)).map mute : List (Prog S E Empty A R')) :=
      congrArg (List.map mute) hl
    simpa [List.map_map, Function.comp_def, mute_mute] using hmap

/-- What comes after the program starts when it has returned. -/
theorem Run.sequel_of_returned {l : List (Prog S E Empty A R)} {x : R}
    (h : Run (World.drifting env) ⟨s₀, [p.bind ret]⟩ es (along ret l (ret x) s))
    (k : R → Prog S E Empty A R') :
    Run (World.drifting env) ⟨s₀, [p.bind k]⟩ es ⟨s, l.map mute ++ [k x]⟩ := by
  have h : Run (World.drifting env) (along ret [] p s₀) es (along ret l (ret x) s) := h
  obtain ⟨l', q', s', heq, hall⟩ := h.of_along
  obtain ⟨rfl, rfl, hl⟩ := eq_of_along_ret heq
  rw [hl]
  exact hall k

theorem ReturnsIn.sequel {x : R} (h : ReturnsIn env p s₀ es x s) (k : R → Prog S E Empty A R') :
    ∃ l : List (Prog S E Empty A R), Run (World.drifting env) ⟨s₀, [p.bind k]⟩ es
      ⟨s, l.map mute ++ [k x]⟩ := by
  obtain ⟨l, hrun⟩ := h
  exact ⟨l, hrun.sequel_of_returned k⟩

/-- What the rest of a program that has returned does, it does beside anything. -/
theorem Run.of_returned {l : List (Prog S E Empty A R)} {x : R} {b : Pool S E A R}
    (h : Run (World.drifting env) (along ret l (ret x) s) es b) :
    ∃ l' s', b = along ret l' (ret x) s' ∧ ∀ {R' : Type} (ts : List (Prog S E Empty A R')),
      Run (World.drifting env) ⟨s, l.map mute ++ ts⟩ es ⟨s', l'.map mute ++ ts⟩ := by
  induction h with
  | refl => exact ⟨l, s, rfl, fun _ => .refl⟩
  | @tail _ c es fs _ hs ih =>
      obtain ⟨l', s', rfl, hall⟩ := ih
      generalize ha : (along ret l' (ret x) s' : Pool S E A R) = a at hs
      cases hs with
      | @thread t t' p fs ps l₀ r₀ hn _ =>
          obtain ⟨rfl, hts⟩ := Pool.mk.inj ha
          obtain ⟨-, rfl, -⟩ | ⟨l₁, o, l₂, rfl, rfl, rfl, rfl⟩ := split_along hts
          · -- what has returned cannot move
            cases hn
          · obtain ⟨qs, rfl, hnext⟩ := next_mute hn
            refine ⟨l₁ ++ (qs ++ l₂), t', by simp [along, Prog.bind], fun {R'} ts => ?_⟩
            have hnext : (mute o : Prog S E Empty A R').next s' = some (fs, t', qs.map mute) := hnext
            have hstep := Step.thread (W := World.drifting env) (l₁.map mute) (l₂.map mute ++ ts)
              hnext trivial
            refine (hall ts).tail ?_
            simpa using hstep
      | @env t t' ts he _ =>
          obtain ⟨rfl, rfl⟩ := Pool.mk.inj ha
          exact ⟨l', t', rfl, fun ts => (hall ts).tail (.env _ he trivial)⟩
      | spawn ts hp => exact hp.elim

/-- A program that has returned does not change its mind. -/
theorem ReturnsIn.eq_of_ret {r x : R} (h : ReturnsIn env (ret r : Prog S E Empty A R) s₀ es x s) :
    x = r := by
  obtain ⟨l, hrun⟩ := h
  have hthreads : l.map mute ++ [(ret x : Prog S E Empty A R)] = [ret r] := by
    refine hrun.invariant (P := fun a => a.threads = [(ret r : Prog S E Empty A R)]) ?_ rfl
    intro a b fs ha hs
    exact (hs.of_done (by simp [ha, Done])).trans ha
  obtain ⟨-, hx⟩ := List.append_inj' (show _ = [] ++ [(ret r : Prog S E Empty A R)] from hthreads) rfl
  cases hx
  rfl

/-! ## What the sequel meets

A run of `p.bind k` is turned into a run of `p` alone by leaving out the steps of `k x`. That is possible
since the state drifts in a way that would have been allowed without them (`Follows`). -/

theorem perm_replace {α : Type} {a b c d : List α} {x : α} (ys : List α)
    (h : (a ++ x :: b).Perm (c ++ x :: d)) : (a ++ (ys ++ b)).Perm (c ++ (ys ++ d)) := by
  have hrest : (a ++ b).Perm (c ++ d) :=
    ((List.perm_middle.symm.trans h).trans List.perm_middle).cons_inv
  have hleft : (a ++ (ys ++ b)).Perm (ys ++ (a ++ b)) := by
    rw [← List.append_assoc, ← List.append_assoc]
    exact List.perm_append_comm.append_right b
  have hright : (ys ++ (c ++ d)).Perm (c ++ (ys ++ d)) := by
    rw [← List.append_assoc, ← List.append_assoc]
    exact List.perm_append_comm.append_right d
  exact (hleft.trans (hrest.append_left ys)).trans hright

/-- A step after `p` has returned `x` is one that `p` could have gone on with, or one of what follows it. -/
theorem Step.of_returned (x : R) {a b : Pool S E A R'} {l : List (Prog S E Empty A R)}
    {us : List (Prog S E Empty A R')} (h : Step (World.drifting env) a fs b)
    (hperm : a.threads.Perm (l.map mute ++ us)) :
    (∃ l', Step (World.drifting env) (along ret l (ret x) a.state : Pool S E A R) fs
        (along ret l' (ret x) b.state) ∧ b.threads.Perm (l'.map mute ++ us)) ∨
    ∃ u₁ u u₂ ps, us = u₁ ++ u :: u₂ ∧ u.next a.state = some (fs, b.state, ps) ∧
      b.threads.Perm (l.map mute ++ (u₁ ++ (ps ++ u₂))) := by
  cases h with
  | @thread s s' t fs ps l₀ r₀ hn _ =>
      have hmem : t ∈ l.map mute ++ us := hperm.subset (by simp)
      rcases List.mem_append.mp hmem with ht | ht
      · -- a muted thread left by the first part, which moves the same way before what follows
        obtain ⟨o, ho, rfl⟩ := List.mem_map.mp ht
        obtain ⟨l₁, l₂, rfl⟩ := List.append_of_mem ho
        obtain ⟨qs, rfl, hall⟩ := next_mute hn
        have hstep := Step.thread (W := World.drifting env) (l₁.map mute)
          (l₂.map mute ++ [(ret x : Prog S E Empty A R)]) hall trivial
        refine .inl ⟨l₁ ++ (qs ++ l₂), by simpa [along, Prog.bind] using hstep, ?_⟩
        have hthreads : (l₀ ++ o.mute :: r₀).Perm (l₁.map mute ++ o.mute :: (l₂.map mute ++ us)) := by
          simpa using hperm
        simpa using perm_replace (qs.map mute) hthreads
      · -- one of the threads that follow
        obtain ⟨u₁, u₂, rfl⟩ := List.append_of_mem ht
        refine .inr ⟨u₁, t, u₂, ps, rfl, hn, ?_⟩
        have hthreads : (l₀ ++ t :: r₀).Perm ((l.map mute ++ u₁) ++ t :: u₂) := by
          simpa using hperm
        simpa using perm_replace ps hthreads
  | env ts he _ => exact .inl ⟨l, .env _ he trivial, hperm⟩
  | spawn ts hp => exact hp.elim

/-- What the world around does to the state. -/
theorem Run.drift {a : Pool S E A R} {ts : List (Prog S E Empty A R)}
    (h : Run (World.drifting env) a es ⟨s, ts⟩) (hs : s' = s ∨ env s s') :
    Run (World.drifting env) a es ⟨s', ts⟩ := by
  rcases hs with rfl | hs
  · exact h
  · rw [← List.append_nil es]
    exact h.tail (.env _ hs trivial)

/-- A pool in which `p` is followed by `k`: `p` still runs, or it has returned and what `k` started
runs beside the rest. Either way `p` alone could have come as far. -/
def Follows (env : S → S → Prop) (p : Prog S E Empty A R) (k : R → Prog S E Empty A R') (s₀ : S)
    (G : E → Prop) (b : Pool S E A R') : Prop :=
  (∃ es l q, Run (World.drifting env) ⟨s₀, [p.bind ret]⟩ es (along ret l q b.state) ∧
    (∀ x, q ≠ ret x) ∧ b = along k l q b.state) ∨
  ∃ es l x us, Run (World.drifting env) ⟨s₀, [p.bind ret]⟩ es (along ret l (ret x) b.state) ∧
    b.threads.Perm (l.map mute ++ us) ∧
    ∀ u ∈ us, u.Guarantees (fun s => ∃ es, ReturnsIn env p s₀ es x s) env G

section follows

variable {G : E → Prop} {k : R → Prog S E Empty A R'}

theorem follows_along (hk : ∀ es x s, ReturnsIn env p s₀ es x s →
      (k x).Guarantees (fun s => ∃ es, ReturnsIn env p s₀ es x s) env G)
    {l : List (Prog S E Empty A R)} {q : Prog S E Empty A R}
    (h : Run (World.drifting env) ⟨s₀, [p.bind ret]⟩ es (along ret l q s)) :
    Follows env p k s₀ G (along k l q s) := by
  by_cases hq : ∃ x, q = ret x
  · obtain ⟨x, rfl⟩ := hq
    refine .inr ⟨es, l, x, [k x], h, .refl _, ?_⟩
    intro u hu
    obtain rfl := List.mem_singleton.mp hu
    exact hk es x s ⟨l, h⟩
  · exact .inl ⟨es, l, q, h, fun x hx => hq ⟨x, hx⟩, rfl⟩

theorem follows_returned
    (hG : ∀ es b, Run (World.drifting env) ⟨s₀, [p.bind ret]⟩ es b → ∀ e ∈ es, G e)
    {a b : Pool S E A R'} {l : List (Prog S E Empty A R)} {x : R} {us : List (Prog S E Empty A R')}
    (h : Step (World.drifting env) a fs b)
    (hrun : Run (World.drifting env) ⟨s₀, [p.bind ret]⟩ es (along ret l (ret x) a.state))
    (hperm : a.threads.Perm (l.map mute ++ us))
    (hus : ∀ u ∈ us, u.Guarantees (fun s => ∃ es, ReturnsIn env p s₀ es x s) env G) :
    Follows env p k s₀ G b ∧ ∀ e ∈ fs, G e := by
  obtain ⟨l', hstep, hperm'⟩ | ⟨u₁, u, u₂, ps, rfl, hn, hperm'⟩ := h.of_returned x hperm
  · have hrun' := hrun.tail hstep
    exact ⟨.inr ⟨_, l', x, us, hrun', hperm', hus⟩, fun e he => hG _ _ hrun' e (by simp [he])⟩
  · have hret : ∃ es, ReturnsIn env p s₀ es x a.state := ⟨es, l, hrun⟩
    obtain ⟨hs, hfs, hps⟩ := (hus u (by simp)).next hret hn
    refine ⟨.inr ⟨es, l, x, _, hrun.drift hs, hperm', ?_⟩, hfs⟩
    intro v hv
    simp only [List.mem_append] at hv
    rcases hv with hv | hv | hv
    · exact hus v (by simp [hv])
    · exact hps v hv
    · exact hus v (by simp [hv])

theorem Step.follows
    (hG : ∀ es b, Run (World.drifting env) ⟨s₀, [p.bind ret]⟩ es b → ∀ e ∈ es, G e)
    (hk : ∀ es x s, ReturnsIn env p s₀ es x s →
      (k x).Guarantees (fun s => ∃ es, ReturnsIn env p s₀ es x s) env G)
    {a b : Pool S E A R'} (h : Step (World.drifting env) a fs b) (ha : Follows env p k s₀ G a) :
    Follows env p k s₀ G b ∧ ∀ e ∈ fs, G e := by
  rcases ha with ⟨es, l, q, hrun, hq, ha⟩ | ⟨es, l, x, us, hrun, hperm, hus⟩
  · rw [ha] at h
    obtain ⟨l', q', s', rfl, hstep⟩ := h.of_along fun x hx => absurd hx (hq x)
    have hrun' := hrun.tail (hstep ret)
    exact ⟨follows_along hk hrun', fun e he => hG _ _ hrun' e (List.mem_append_right _ he)⟩
  · exact follows_returned hG h hrun hperm hus

/-- Whatever `p.bind k` shows is in `G`, when what `p` shows alone is, and `k` follows suit from
wherever `p` may return. -/
theorem Run.sequel
    (hG : ∀ es b, Run (World.drifting env) ⟨s₀, [p.bind ret]⟩ es b → ∀ e ∈ es, G e)
    (hk : ∀ es x s, ReturnsIn env p s₀ es x s →
      (k x).Guarantees (fun s => ∃ es, ReturnsIn env p s₀ es x s) env G)
    {b : Pool S E A R'} (h : Run (World.drifting env) ⟨s₀, [p.bind k]⟩ es b) : ∀ e ∈ es, G e := by
  have hfollows : Follows env p k s₀ G b ∧ ∀ e ∈ es, G e := by
    induction h with
    | refl =>
        have hrefl : Run (World.drifting env) ⟨s₀, [p.bind ret]⟩ [] (along ret [] p s₀) := .refl
        exact ⟨follows_along hk hrefl, by simp⟩
    | tail _ hs ih =>
        obtain ⟨hb, hes⟩ := ih
        obtain ⟨hc, hfs⟩ := hs.follows hG hk hb
        exact ⟨hc, List.forall_mem_append.mpr ⟨hes, hfs⟩⟩
  exact hfollows.2

end follows

end Pool
