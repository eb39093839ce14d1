import GayRpc.Lib.Duty
import GayRpc.Lib.RunsTo
import GayRpc.Lib.Sequel

/-!
# The phases of a program

A program that returns goes through its phases in turn: a section, an event, the first of two programs.
`ReturnsBeside` is said of a program with threads beside it, which those threads are after it; so what a
program does up to its end is put together from what its phases do (`returns_bind_iff` and its like).

    ReturnsBeside env l p s es r l' s'
      —   beside the threads l, from s, the program p has shown es with them and returned r;
          the threads beside it are l' now, and the state is s'.

The threads beside it may be those it has started itself, which go on after it has returned, and those that
were there before. Nobody waits for their results, so they are kept with the results cut off (`mute`).
What else happens to the state is `env`.

Two more things are said of a program. `EndsBeside` counts the ends without a return as well, such as that
of a thread which halts. `AlwaysReturns` says that the program does come to its end: from wherever it is,
whatever has gone on beside it, it may go on until it returns, and with nothing but a good result. That too
is put together from phases (`AlwaysReturns.bind`), which is what makes it usable for a loop.

The last sections are about a program in a larger pool: a thread does the same whether or not somebody
waits for it, and what it does among few threads it can do among many.
-/

namespace Pool

open Prog

variable {S E A R R' : Type} {W : World S E A R} {env : S → S → Prop}
  {l l' : List (Prog S E Empty A R)} {p : Prog S E Empty A R} {s s' : S} {es : List E} {r x : R}

/-- The threads `l`, whose results nobody waits for, go on as `l'`. -/
def Beside (env : S → S → Prop) (l : List (Prog S E Empty A R)) (s : S) (es : List E)
    (l' : List (Prog S E Empty A R)) (s' : S) : Prop :=
  Run (World.drifting env) (⟨s, l.map mute⟩ : Pool S E A R) es ⟨s', l'.map mute⟩

/-- Started beside the threads `l`, the program returns `r`; then `l'` are the threads beside it. -/
def ReturnsBeside (env : S → S → Prop) (l : List (Prog S E Empty A R)) (p : Prog S E Empty A R) (s : S)
    (es : List E) (r : R) (l' : List (Prog S E Empty A R)) (s' : S) : Prop :=
  Run (World.drifting env) (along ret l p s) es (along ret l' (ret r) s' : Pool S E A R)

theorem returnsIn_iff : ReturnsIn env p s es r s' ↔ ∃ l', ReturnsBeside env [] p s es r l' s' := Iff.rfl

/-! ## More threads beside -/

theorem Step.joined {a b : Pool S E A R} (h : Step W a es b) (ts : List (Prog S E Empty A R)) :
    Step W ⟨a.state, a.threads ++ ts⟩ es ⟨b.state, b.threads ++ ts⟩ := by
  cases h with
  | thread l r hn hb => simpa using Step.thread l (r ++ ts) hn hb
  | env _ he hb => exact .env _ he hb
  | spawn _ hp => exact .spawn _ hp

theorem Run.joined {a b : Pool S E A R} (h : Run W a es b) (ts : List (Prog S E Empty A R)) :
    Run W ⟨a.state, a.threads ++ ts⟩ es ⟨b.state, b.threads ++ ts⟩ := by
  induction h with
  | refl => exact .refl
  | tail _ hs ih => exact ih.tail (hs.joined ts)

theorem Beside.joined (h : Beside env l s es l' s') (ts : List (Prog S E Empty A R)) :
    Run (World.drifting env) (⟨s, l.map mute ++ ts⟩ : Pool S E A R) es ⟨s', l'.map mute ++ ts⟩ :=
  Run.joined h ts

/-- Threads whose results nobody waits for do the same whatever the type of those results is. -/
theorem Run.of_muted {a : Pool S E A R'} (h : Run (World.drifting env) ⟨s, l.map mute⟩ es a) :
    ∃ (l' : List (Prog S E Empty A R)) (s' : S), a = ⟨s', l'.map mute⟩ ∧ ∀ {R'' : Type},
      Run (World.drifting env) (⟨s, l.map mute⟩ : Pool S E A R'') es ⟨s', l'.map mute⟩ := by
  induction h with
  | refl => exact ⟨l, s, rfl, .refl⟩
  | @tail _ c es fs _ hs ih =>
      obtain ⟨l', s', rfl, hall⟩ := ih
      generalize ha : (⟨s', l'.map mute⟩ : Pool S E A R') = a at hs
      cases hs with
      | @thread t t' p fs ps l₀ r₀ hn _ =>
          obtain ⟨rfl, hts⟩ := Pool.mk.inj ha
          -- every thread of the pool is a muted one, whichever has moved
          obtain ⟨l₁, rest, rfl, rfl, hrest⟩ := List.map_eq_append_iff.mp hts
          obtain ⟨q, l₂, rfl, rfl, rfl⟩ := List.map_eq_cons_iff.mp hrest
          obtain ⟨qs, rfl, hnext⟩ := next_mute hn
          refine ⟨l₁ ++ (qs ++ l₂), t', by simp, fun {R''} => hall.tail ?_⟩
          have hnext : (mute q : Prog S E Empty A R'').next s' = some (fs, t', qs.map mute) := hnext
          have hstep := Step.thread (W := World.drifting env) (l₁.map mute) (l₂.map mute) hnext trivial
          simpa using hstep
      | @env t t' ts he _ =>
          obtain ⟨rfl, rfl⟩ := Pool.mk.inj ha
          exact ⟨l', t', rfl, fun {R''} => hall.tail (.env _ he trivial)⟩
      | spawn ts hp => exact hp.elim

/-- The program may start after the threads beside it have gone on. -/
theorem ReturnsBeside.after {l₁ : List (Prog S E Empty A R)} {s₁ : S} {es₁ es₂ : List E}
    (h : ReturnsBeside env l₁ p s₁ es₂ r l' s') (hbeside : Beside env l s es₁ l₁ s₁) :
    ReturnsBeside env l p s (es₁ ++ es₂) r l' s' :=
  (hbeside.joined [p.bind ret]).trans h

/-! ## What comes first -/

/-- As long as the last thread waits, only the others go on; then it takes its step. -/
theorem Run.first_move {m : Prog S E Empty A R} {b : Pool S E A R}
    (h : Run (World.drifting env) ⟨s, l.map mute ++ [m]⟩ es b) :
    (∃ l₁ s₁, b = ⟨s₁, l₁.map mute ++ [m]⟩ ∧ Beside env l s es l₁ s₁) ∨
      ∃ es₁ l₁ s₁ fs s₂ ps es₂, es = es₁ ++ (fs ++ es₂) ∧ Beside env l s es₁ l₁ s₁ ∧
        m.next s₁ = some (fs, s₂, ps) ∧ Run (World.drifting env) ⟨s₂, l₁.map mute ++ ps⟩ es₂ b := by
  induction h with
  | refl => exact .inl ⟨l, s, rfl, .refl⟩
  | @tail b c es fs _ hs ih =>
      -- once `m` has moved, the steps that follow are only added at the end
      obtain ⟨l₁, s₁, rfl, hbeside⟩ | ⟨es₁, l₁, s₁, gs, s₂, ps, es₂, rfl, hbeside, hn, hrun⟩ := ih
      · generalize ha : (⟨s₁, l₁.map mute ++ [m]⟩ : Pool S E A R) = a at hs
        cases hs with
        | @thread t t' o fs ps l₀ r₀ hn hb =>
            obtain ⟨rfl, hts⟩ := Pool.mk.inj ha
            -- is it `m` itself that moves now, or one of those beside it
            obtain ⟨rfl, rfl, rfl⟩ | ⟨u, o, v, rfl, rfl, rfl, rfl⟩ := split_along hts
            · refine .inr ⟨es, l₁, s₁, fs, t', ps, [], by simp, hbeside, hn, ?_⟩
              rw [List.append_nil]
              exact .refl
            · obtain ⟨qs, rfl, hnext⟩ := next_mute hn
              refine .inl ⟨u ++ (qs ++ v), t', by simp, ?_⟩
              have hnext : (o.mute : Prog S E Empty A R).next s₁ = some (fs, t', qs.map mute) := hnext
              have hstep := Step.thread (W := World.drifting env) (u.map mute) (v.map mute) hnext hb
              have hbeside' := Run.tail hbeside (by simpa using hstep)
              simpa [Beside] using hbeside'
        | @env t t' ts he hb =>
            obtain ⟨rfl, rfl⟩ := Pool.mk.inj ha
            refine .inl ⟨l₁, t', rfl, ?_⟩
            exact Run.tail hbeside (.env _ he hb)
        | spawn ts hp => exact hp.elim
      · exact .inr ⟨es₁, l₁, s₁, gs, s₂, ps, es₂ ++ fs, by simp, hbeside, hn, hrun.tail hs⟩

/-- The program still runs, or it has returned, and what comes after it goes on from there. -/
theorem Run.first_phase {k : R → Prog S E Empty A R'} {q : Prog S E Empty A R} {b : Pool S E A R'}
    (h : Run (World.drifting env) (along k l q s) es b) :
    (∃ l₁ q₁ s₁, b = along k l₁ q₁ s₁ ∧ (∀ x, q₁ ≠ ret x) ∧
        Run (World.drifting env) (along ret l q s) es (along ret l₁ q₁ s₁)) ∨
      ∃ es₁ x l₁ s₁ es₂, es = es₁ ++ es₂ ∧ ReturnsBeside env l q s es₁ x l₁ s₁ ∧
        Run (World.drifting env) ⟨s₁, l₁.map mute ++ [k x]⟩ es₂ b := by
  have hreached : ∀ {fs l₁ q₁ s₁}, Run (World.drifting env) (along ret l q s) fs (along ret l₁ q₁ s₁) →
      (∃ l₂ q₂ s₂, along k l₁ q₁ s₁ = along k l₂ q₂ s₂ ∧ (∀ x, q₂ ≠ ret x) ∧
          Run (World.drifting env) (along ret l q s) fs (along ret l₂ q₂ s₂)) ∨
        ∃ es₁ x l₂ s₂ es₂, fs = es₁ ++ es₂ ∧ ReturnsBeside env l q s es₁ x l₂ s₂ ∧
          Run (World.drifting env) ⟨s₂, l₂.map mute ++ [k x]⟩ es₂ (along k l₁ q₁ s₁) := by
    intro fs l₁ q₁ s₁ hrun
    by_cases hq : ∃ x, q₁ = ret x
    · obtain ⟨x, rfl⟩ := hq
      exact .inr ⟨fs, x, l₁, s₁, [], by simp, hrun, .refl⟩
    · exact .inl ⟨l₁, q₁, s₁, rfl, fun x hx => hq ⟨x, hx⟩, hrun⟩
  induction h with
  | refl => exact hreached .refl
  | @tail b c es fs _ hs ih =>
      -- as long as it has not returned, what is to follow plays no part in a step
      obtain ⟨l₁, q₁, s₁, rfl, hq, hrun⟩ | ⟨es₁, x, l₁, s₁, es₂, rfl, hreturns, hrun⟩ := ih
      · obtain ⟨l₂, q₂, s₂, rfl, hstep⟩ := hs.of_along fun x hx => absurd hx (hq x)
        exact hreached (hrun.tail (hstep ret))
      · exact .inr ⟨es₁, x, l₁, s₁, es₂ ++ fs, by simp, hreturns, hrun.tail hs⟩

theorem ret_bind_ret_ne {k : R → Prog S E Empty A R'} {q : Prog S E Empty A R} (hq : ∀ x, q ≠ ret x)
    (r : R') : q.bind k ≠ ret r := by
  intro h
  cases q with
  | ret x => exact hq x rfl
  | _ => cases h

/-! ## The end -/

/-- What is left of a program that has returned, or else has come to its end without that. -/
def ended : Option R → Prog S E Empty A R
  | some r => ret r
  | none => halt

/-- Started beside the threads `l`, the program comes to its end. -/
def EndsBeside (env : S → S → Prop) (l : List (Prog S E Empty A R)) (p : Prog S E Empty A R) (s : S)
    (es : List E) (o : Option R) (l' : List (Prog S E Empty A R)) (s' : S) : Prop :=
  Run (World.drifting env) (along ret l p s) es (along ret l' (ended o) s' : Pool S E A R)

variable {o : Option R}

theorem ended_bind (o : Option R) : (ended o : Prog S E Empty A R).bind ret = ended o := by
  cases o with
  | some r => rfl
  | none => rfl

/-- The program has been at its end from the start, or it takes a step. -/
theorem EndsBeside.first_move (h : EndsBeside env l p s es o l' s') :
    (p.bind ret = ended o ∧ Beside env l s es l' s') ∨
      ∃ es₁ l₁ s₁ fs s₂ ps es₂, es = es₁ ++ (fs ++ es₂) ∧ Beside env l s es₁ l₁ s₁ ∧
        (p.bind ret).next s₁ = some (fs, s₂, ps) ∧
        Run (World.drifting env) ⟨s₂, l₁.map mute ++ ps⟩ es₂ (along ret l' (ended o) s') := by
  obtain ⟨l₁, s₁, heq, hbeside⟩ | hmove := Run.first_move h
  · left
    obtain ⟨rfl, hts⟩ := Pool.mk.inj heq
    obtain ⟨hl, hr⟩ := List.append_inj' hts rfl
    rw [Beside, ← hl] at hbeside
    exact ⟨(List.cons.inj hr).1.symm.trans (ended_bind o), hbeside⟩
  · exact .inr hmove

theorem done_ended (o : Option R) : (ended o : Prog S E Empty A R).Done := by
  cases o with
  | some r => trivial
  | none => trivial

/-- A program that is not at its end takes a step. -/
theorem EndsBeside.moves (h : EndsBeside env l p s es o l' s') (hp : ¬(p.bind ret).Done) :
    ∃ es₁ l₁ s₁ fs s₂ ps es₂, es = es₁ ++ (fs ++ es₂) ∧ Beside env l s es₁ l₁ s₁ ∧
      (p.bind ret).next s₁ = some (fs, s₂, ps) ∧
      Run (World.drifting env) ⟨s₂, l₁.map mute ++ ps⟩ es₂ (along ret l' (ended o) s') := by
  obtain ⟨hend, -⟩ | hmove := h.first_move
  · rw [hend] at hp
    exact absurd (done_ended o) hp
  · exact hmove

theorem ends_ret_iff :
    EndsBeside env l (ret x) s es o l' s' ↔ o = some x ∧ Beside env l s es l' s' := by
  constructor
  · intro h
    obtain ⟨hend, hbeside⟩ | ⟨_, _, _, _, _, _, _, -, -, hn, -⟩ := h.first_move
    · cases o with
      | some r =>
          cases hend
          exact ⟨rfl, hbeside⟩
      | none => cases hend
    · cases hn
  · rintro ⟨rfl, h⟩
    exact h.joined [ret x]

theorem ends_halt_iff :
    EndsBeside env l halt s es o l' s' ↔ o = none ∧ Beside env l s es l' s' := by
  constructor
  · intro h
    obtain ⟨hend, hbeside⟩ | ⟨_, _, _, _, _, _, _, -, -, hn, -⟩ := h.first_move
    · cases o with
      | some r => cases hend
      | none => exact ⟨rfl, hbeside⟩
    · cases hn
  · rintro ⟨rfl, h⟩
    exact h.joined [halt]

theorem ends_act_iff {f : S → Option S} {k : S → Prog S E Empty A R} :
    EndsBeside env l (act f k) s es o l' s' ↔ ∃ es₁ l₁ s₁ s₂ es₂, es = es₁ ++ es₂ ∧
      Beside env l s es₁ l₁ s₁ ∧ f s₁ = some s₂ ∧ EndsBeside env l₁ (k s₁) s₂ es₂ o l' s' := by
  constructor
  · intro h
    obtain ⟨es₁, l₁, s₁, fs, s₂, ps, es₂, rfl, hbeside, hn, hrun⟩ := h.moves id
    obtain ⟨t, ht, hr⟩ := Option.map_eq_some_iff.mp hn
    cases hr
    exact ⟨es₁, l₁, s₁, s₂, es₂, rfl, hbeside, ht, hrun⟩
  · rintro ⟨es₁, l₁, s₁, s₂, es₂, rfl, hbeside, hf, hrun⟩
    have hstep := Step.act (W := World.drifting env) (l₁.map mute) [] (k := fun s => (k s).bind ret) hf
      trivial
    exact (hbeside.joined _).trans (.silent hstep hrun)

theorem ends_emit_iff {e : E} : EndsBeside env l (emit e p) s es o l' s' ↔ ∃ es₁ l₁ s₁ es₂,
      es = es₁ ++ e :: es₂ ∧ Beside env l s es₁ l₁ s₁ ∧ EndsBeside env l₁ p s₁ es₂ o l' s' := by
  constructor
  · intro h
    obtain ⟨es₁, l₁, s₁, fs, s₂, ps, es₂, rfl, hbeside, hn, hrun⟩ := h.moves id
    cases hn
    exact ⟨es₁, l₁, s₁, es₂, rfl, hbeside, hrun⟩
  · rintro ⟨es₁, l₁, s₁, es₂, rfl, hbeside, hrun⟩
    have hstep := Step.emit (W := World.drifting env) (l₁.map mute) [] (k := p.bind ret) e
      (s := s₁) trivial
    exact (hbeside.joined _).trans (Run.head hrun hstep)

theorem ends_fork_iff {q : Prog S E Empty A R} :
    EndsBeside env l (fork q p) s es o l' s' ↔ ∃ es₁ l₁ s₁ es₂, es = es₁ ++ es₂ ∧
      Beside env l s es₁ l₁ s₁ ∧ EndsBeside env (l₁ ++ [q]) p s₁ es₂ o l' s' := by
  have hpair : ∀ l₁ s₁, (⟨s₁, l₁.map mute ++ [q.mute, p.bind ret]⟩ : Pool S E A R) =
      along ret (l₁ ++ [q]) p s₁ := by
    intro l₁ s₁
    simp [along]
  constructor
  · intro h
    obtain ⟨es₁, l₁, s₁, fs, s₂, ps, es₂, rfl, hbeside, hn, hrun⟩ := h.moves id
    cases hn
    refine ⟨es₁, l₁, s₁, es₂, rfl, hbeside, ?_⟩
    rw [EndsBeside, ← hpair]
    exact hrun
  · rintro ⟨es₁, l₁, s₁, es₂, rfl, hbeside, hrun⟩
    -- let those beside run first, then fork; a forked thread is one more beside
    have hstep := Step.fork (W := World.drifting env) (l₁.map mute) [] (p := q.mute) (k := p.bind ret)
      (s := s₁) trivial
    refine (hbeside.joined _).trans (.silent hstep ?_)
    rw [EndsBeside, ← hpair] at hrun
    exact hrun

/-! ## The phases

A phase is over when its last step has been taken, and between two steps of the program the threads beside
it may have done anything. So each rule has a `Beside` in it for what comes before the step. -/

theorem returns_ret_iff :
    ReturnsBeside env l (ret x) s es r l' s' ↔ r = x ∧ Beside env l s es l' s' := by
  refine (ends_ret_iff (o := some r)).trans ?_
  rw [Option.some_inj]

theorem returns_act_iff {f : S → Option S} {k : S → Prog S E Empty A R} :
    ReturnsBeside env l (act f k) s es r l' s' ↔ ∃ es₁ l₁ s₁ s₂ es₂, es = es₁ ++ es₂ ∧
      Beside env l s es₁ l₁ s₁ ∧ f s₁ = some s₂ ∧ ReturnsBeside env l₁ (k s₁) s₂ es₂ r l' s' :=
  ends_act_iff (o := some r)

theorem returns_emit_iff {e : E} : ReturnsBeside env l (emit e p) s es r l' s' ↔ ∃ es₁ l₁ s₁ es₂,
      es = es₁ ++ e :: es₂ ∧ Beside env l s es₁ l₁ s₁ ∧ ReturnsBeside env l₁ p s₁ es₂ r l' s' :=
  ends_emit_iff (o := some r)

theorem returns_fork_iff {q : Prog S E Empty A R} :
    ReturnsBeside env l (fork q p) s es r l' s' ↔ ∃ es₁ l₁ s₁ es₂, es = es₁ ++ es₂ ∧
      Beside env l s es₁ l₁ s₁ ∧ ReturnsBeside env (l₁ ++ [q]) p s₁ es₂ r l' s' :=
  ends_fork_iff (o := some r)

/-- A program followed by another one: the second starts beside what the first has left. -/
theorem returns_bind_iff {k : R → Prog S E Empty A R} :
    ReturnsBeside env l (p.bind k) s es r l' s' ↔ ∃ es₁ x l₁ s₁ es₂, es = es₁ ++ es₂ ∧
      ReturnsBeside env l p s es₁ x l₁ s₁ ∧ ReturnsBeside env l₁ (k x) s₁ es₂ r l' s' := by
  have hassoc : along ret l (p.bind k) s = along (fun x => (k x).bind ret) l p s := by
    rw [along, along, bind_assoc]
  unfold ReturnsBeside
  rw [hassoc]
  constructor
  · intro h
    obtain ⟨l₁, q₁, s₁, heq, hq, -⟩ | ⟨es₁, x, l₁, s₁, es₂, rfl, hreturns, hrun⟩ := h.first_phase
    · obtain ⟨-, hts⟩ := Pool.mk.inj heq
      obtain ⟨-, hr⟩ := List.append_inj' hts rfl
      -- a run that ends in the value of the whole has passed the return of its first part
      exact absurd (List.cons.inj hr).1.symm (ret_bind_ret_ne hq r)
    · exact ⟨es₁, x, l₁, s₁, es₂, rfl, hreturns, hrun⟩
  · rintro ⟨es₁, x, l₁, s₁, es₂, rfl, hreturns, hrun⟩
    obtain ⟨l₂, q₂, s₂, heq, hall⟩ := Run.of_along hreturns
    obtain ⟨rfl, rfl, hl⟩ := eq_of_along_ret heq
    refine (hall fun x => (k x).bind ret).trans ?_
    rw [along, ← hl]
    exact hrun

/-- Where a program returns at all, it returns with one of its results. -/
theorem ReturnsBeside.result {P : R → Prop} (h : ReturnsBeside env l p s es r l' s') (hp : Returns P p) :
    P r := by
  induction p generalizing l s es with
  | ret x =>
      obtain ⟨rfl, -⟩ := returns_ret_iff.mp h
      exact hp
  | halt => exact hp.elim
  | ask q c _ => exact q.elim
  | act f c ih =>
      obtain ⟨es₁, l₁, s₁, s₂, es₂, -, -, -, hrest⟩ := returns_act_iff.mp h
      exact ih s₁ hrest (hp s₁)
  | emit e c ih =>
      obtain ⟨es₁, l₁, s₁, es₂, -, -, hrest⟩ := returns_emit_iff.mp h
      exact ih hrest hp
  | fork q c _ ih =>
      obtain ⟨es₁, l₁, s₁, es₂, -, -, hrest⟩ := returns_fork_iff.mp h
      exact ih hrest hp

theorem ReturnsIn.result {P : R → Prop} (h : ReturnsIn env p s es r s') (hp : Returns P p) : P r := by
  obtain ⟨l', h⟩ := returnsIn_iff.mp h
  exact ReturnsBeside.result h hp

/-! ## Coming to the end -/

/-- However far the program has come, and whatever goes on beside it, it may still return with a result that
satisfies `P`. As a program that has returned stays where it is, it does not return with any other. -/
def AlwaysReturns (env : S → S → Prop) (P : R → Prop) (p : Prog S E Empty A R) : Prop :=
  ∀ l s es b, Run (World.drifting env) (along ret l p s) es b →
    ∃ fs x l' s', P x ∧ Run (World.drifting env) b fs (along ret l' (ret x) s')

namespace AlwaysReturns

variable {P P' : R → Prop}

theorem ret (hx : P x) : AlwaysReturns env P (ret x : Prog S E Empty A R) := by
  intro l s es b h
  obtain ⟨l', s', rfl, -⟩ := h.of_returned
  exact ⟨[], x, l', s', hx, .refl⟩

theorem emit {e : E} (hp : AlwaysReturns env P p) : AlwaysReturns env P (emit e p) := by
  intro l s es b h
  obtain ⟨l₁, s₁, rfl, -⟩ | ⟨es₁, l₁, s₁, fs, s₂, ps, es₂, rfl, -, hn, hrun⟩ := h.first_move
  · -- the event has not been shown yet
    obtain ⟨fs, x, l', s', hx, hrest⟩ := hp l₁ s₁ [] _ .refl
    exact ⟨e :: fs, x, l', s', hx, hrest.head (.emit (l₁.map mute) [] e trivial)⟩
  · cases hn
    exact hp l₁ s₁ es₂ b hrun

/-- What has returned has returned with a result of this kind. -/
theorem result (hp : AlwaysReturns env P p) (h : ReturnsBeside env l p s es x l' s') : P x := by
  obtain ⟨fs, y, l'', s'', hy, hrun⟩ := hp l s es _ h
  obtain ⟨l₁, s₁, heq, -⟩ := hrun.of_returned
  obtain ⟨-, hret, -⟩ := eq_of_along_ret heq
  cases hret
  exact hy

theorem bind {k : R → Prog S E Empty A R} (hp : AlwaysReturns env P p)
    (hk : ∀ x, P x → AlwaysReturns env P' (k x)) : AlwaysReturns env P' (p.bind k) := by
  intro l s es b h
  have hassoc : along Prog.ret l (p.bind k) s = along (fun x => (k x).bind Prog.ret) l p s := by
    rw [along, along, bind_assoc]
  rw [hassoc] at h
  obtain ⟨l₁, q₁, s₁, rfl, -, hfirst⟩ | ⟨es₁, x, l₁, s₁, es₂, -, hreturns, hrun⟩ := h.first_phase
  · -- it is brought to its end, and then what comes after it is
    obtain ⟨fs, x, l₂, s₂, hx, hrun⟩ := hp l s es _ hfirst
    obtain ⟨l₃, q₃, s₃, heq, hall⟩ := hrun.of_along
    obtain ⟨rfl, rfl, -⟩ := eq_of_along_ret heq
    obtain ⟨gs, y, l', s', hy, hrest⟩ := hk x hx l₃ s₂ [] _ .refl
    exact ⟨fs ++ gs, y, l', s', hy, (hall fun x => (k x).bind Prog.ret).trans hrest⟩
  · exact hk x (hp.result hreturns) l₁ s₁ es₂ b hrun

end AlwaysReturns

/-- A program that is awaited still keeps what it keeps. -/
theorem guaranteed_along {I : S → Prop} {G : E → Prop} (hs : I s) (hp : p.Keeps I G) :
    (along ret [] p s : Pool S E A R).Guaranteed I G := by
  refine ⟨hs, List.forall_mem_singleton.mpr ?_⟩
  exact hp.bind fun _ => trivial

/-- A program that returns has kept what it keeps. -/
theorem ReturnsBeside.keeps {I : S → Prop} {G : E → Prop} (h : ReturnsBeside env [] p s es x l' s')
    (hp : p.Keeps I G) (hs : I s) (hI : ∀ s s', env s s' → I s → I s') : I s' :=
  (Run.guaranteed (drifting_preserves hI) h (guaranteed_along hs hp)).1.state

/-- What a program does up to its end, it does among other threads too, in a world that lets pass what the
program keeps. -/
theorem ReturnsBeside.frame {I : S → Prop} {G : E → Prop} {W' : World S E A R'}
    (h : ReturnsBeside env [] p s es x l' s') (hp : p.Keeps I G) (hs : I s)
    (hI : ∀ s s', env s s' → I s → I s') (henv : ∀ s s', env s s' → W'.env s s')
    (hb : ∀ s, I s → W'.bound s) (k : R → Prog S E Empty A R') (ts us : List (Prog S E Empty A R')) :
    Run W' ⟨s, ts ++ p.bind k :: us⟩ es ⟨s', ts ++ (l'.map mute ++ k x :: us)⟩ := by
  have hstart : (along ret [] p s : Pool S E A R).Guaranteed I G := guaranteed_along hs hp
  have hfollow : ∀ {es b}, Run (World.drifting env) (along ret [] p s) es b → ∃ l₁ q s₁,
      b = along ret l₁ q s₁ ∧ Run W' ⟨s, ts ++ p.bind k :: us⟩ es
        ⟨s₁, ts ++ (l₁.map mute ++ q.bind k :: us)⟩ := by
    intro es b hrun
    induction hrun with
    | refl => exact ⟨[], p, s, rfl, .refl⟩
    | tail hrun hstep ih =>
        obtain ⟨l₁, q, s₁, rfl, hw⟩ := ih
        -- the guarantee holds at every state on the way, so the larger world bounds it as well
        have hinv := ((hrun.tail hstep).guaranteed (drifting_preserves hI) hstart).1.state
        obtain ⟨l₂, q', s₂, rfl, hall⟩ := hstep.of_along fun _ _ => rfl
        refine ⟨l₂, q', s₂, rfl, hw.tail ?_⟩
        have hframe := (hall k).frame (fun _ hspawn => hspawn) henv (hb s₂ hinv) ts us
        simpa [along] using hframe
  obtain ⟨l₁, q, s₁, heq, hrun⟩ := hfollow h
  obtain ⟨rfl, rfl, hl⟩ := eq_of_along_ret heq
  rw [hl]
  exact hrun

/-! ## A thread that nobody waits for -/

/-- The last of the threads that a program goes on as is itself, and it goes on like that whatever comes after
it. -/
theorem next_awaited {ps : List (Prog S E Empty A R)} (k : R → Prog S E Empty A R')
    (h : p.next s = some (es, s', ps)) :
    ∃ qs q, ps = qs ++ [q] ∧ (p.bind k).next s = some (es, s', qs.map mute ++ [q.bind k]) := by
  cases p with
  | ret r => cases h
  | halt => cases h
  | ask q c => exact q.elim
  | act f c =>
      obtain ⟨t, ht, hr⟩ := Option.map_eq_some_iff.mp h
      cases hr
      refine ⟨[], c s, rfl, ?_⟩
      show (f s).map _ = _
      rw [ht]
      rfl
  | emit e c =>
      cases h
      exact ⟨[], c, rfl, rfl⟩
  | fork p c =>
      cases h
      exact ⟨[p], c, rfl, rfl⟩

theorem Step.awaited {b : Pool S E A R} (k : R → Prog S E Empty A R')
    (h : Step (World.drifting env) ⟨s, l ++ [p]⟩ es b) :
    ∃ l' p' s', b = ⟨s', l' ++ [p']⟩ ∧ Step (World.drifting env) (along k l p s) es (along k l' p' s') := by
  generalize ha : (⟨s, l ++ [p]⟩ : Pool S E A R) = a at h
  cases h with
  | @thread t t' o fs ps l₀ r₀ hn _ =>
      obtain ⟨rfl, hts⟩ := Pool.mk.inj ha
      obtain rfl | ⟨r, y, rfl⟩ := r₀.eq_nil_or_concat
      · -- the last thread moves
        obtain ⟨rfl, hp⟩ := List.append_inj' hts rfl
        obtain rfl := (List.cons.inj hp).1
        obtain ⟨qs, q, rfl, hnext⟩ := next_awaited k hn
        refine ⟨l ++ qs, q, t', by simp, ?_⟩
        have hstep := Step.thread (W := World.drifting env) (l.map mute) [] hnext trivial
        simpa [along] using hstep
      · rw [List.concat_eq_append, ← List.cons_append, ← List.append_assoc] at hts
        obtain ⟨rfl, hp⟩ := List.append_inj' hts rfl
        obtain rfl := (List.cons.inj hp).1
        obtain ⟨qs, q, rfl, hnext⟩ := next_awaited (fun _ => (halt : Prog S E Empty A R')) hn
        refine ⟨l₀ ++ (qs ++ q :: r), p, t', by simp, ?_⟩
        have hstep := Step.thread (W := World.drifting env) (l₀.map mute) (r.map mute ++ [p.bind k]) hnext
          trivial
        simpa [along, mute] using hstep
  | @env t t' ts he _ =>
      obtain ⟨rfl, rfl⟩ := Pool.mk.inj ha
      exact ⟨l, p, t', rfl, .env _ he trivial⟩
  | spawn ts hp => exact hp.elim

/-- A thread goes on in the same way whether or not somebody waits for it. -/
theorem Run.awaited {b : Pool S E A R} (k : R → Prog S E Empty A R')
    (h : Run (World.drifting env) ⟨s, l ++ [p]⟩ es b) :
    ∃ l' p' s', b = ⟨s', l' ++ [p']⟩ ∧ Run (World.drifting env) (along k l p s) es (along k l' p' s') := by
  induction h with
  | refl => exact ⟨l, p, s, rfl, .refl⟩
  | tail _ hs ih =>
      obtain ⟨l', p', s', rfl, hrun⟩ := ih
      obtain ⟨l'', p'', s'', rfl, hstep⟩ := hs.awaited k
      exact ⟨l'', p'', s'', rfl, hrun.tail hstep⟩

theorem Run.returns (h : Run (World.drifting env) ⟨s, [p]⟩ es ⟨s', l' ++ [ret x]⟩) :
    ReturnsBeside env [] p s es x l' s' := by
  obtain ⟨l₁, p₁, s₁, heq, hrun⟩ := Run.awaited (l := []) ret h
  obtain ⟨rfl, hts⟩ := Pool.mk.inj heq
  obtain ⟨rfl, hp⟩ := List.append_inj' hts rfl
  obtain rfl := (List.cons.inj hp).1
  exact hrun

/-- What threads do among themselves, they do among others too, in a world that lets pass what they keep. -/
theorem Run.among {I : S → Prop} {G : E → Prop} {W' : World S E A R} {a b : Pool S E A R}
    (h : Run (World.drifting env) a es b) (ha : a.Guaranteed I G) (hI : ∀ s s', env s s' → I s → I s')
    (henv : ∀ s s', env s s' → W'.env s s') (hb : ∀ s, I s → W'.bound s)
    (ts us : List (Prog S E Empty A R)) :
    Run W' ⟨a.state, ts ++ (a.threads ++ us)⟩ es ⟨b.state, ts ++ (b.threads ++ us)⟩ := by
  induction h with
  | refl => exact .refl
  | tail hrun hs ih =>
      have hinv := ((hrun.tail hs).guaranteed (drifting_preserves hI) ha).1.state
      exact ih.tail (hs.frame (fun _ hspawn => hspawn) henv (hb _ hinv) ts us)

/-! ## What is shown on the way -/

variable {G : E → Prop}

def Show (G : E → Prop) (ts : List (Prog S E Empty A R)) : Prop :=
  ∀ t ∈ ts, t.Keeps (fun _ => True) G

theorem Run.show {a b : Pool S E A R} (h : Run (World.drifting env) a es b) (ha : Show G a.threads) :
    (∀ e ∈ es, G e) ∧ Show G b.threads := by
  obtain ⟨hb, hes⟩ := h.guaranteed (drifting_preserves fun _ _ _ _ => trivial) ⟨trivial, ha⟩
  exact ⟨hes, hb.threads⟩

theorem Beside.show (h : Beside env l s es l' s') (hl : Show G (l.map mute : List (Prog S E Empty A R))) :
    (∀ e ∈ es, G e) ∧ Show G (l'.map mute : List (Prog S E Empty A R)) :=
  Run.show h hl

theorem ReturnsBeside.show (h : ReturnsBeside env l p s es r l' s')
    (hl : Show G (l.map mute : List (Prog S E Empty A R))) (hp : p.Keeps (fun _ => True) G) :
    (∀ e ∈ es, G e) ∧ Show G (l'.map mute : List (Prog S E Empty A R)) := by
  have hall : Show G (along ret l p s : Pool S E A R).threads := by
    refine List.forall_mem_append.mpr ⟨hl, List.forall_mem_singleton.mpr ?_⟩
    exact Guarantees.bind hp fun _ => trivial
  obtain ⟨hes, hts⟩ := Run.show h hall
  exact ⟨hes, (List.forall_mem_append.mp hts).1⟩

end Pool
