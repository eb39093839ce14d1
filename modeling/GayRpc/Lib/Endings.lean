import GayRpc.Lib.InTurn

/-!
# How a program may end

A program returns, or it comes to its end without that. `AlwaysEnds` is said of all its runs, and put
together from its phases; `MayEnd` is said of the program alone, and where it works on a part of the state
that everybody changes at will, the two agree (`alwaysEnds_lift_iff`).

The rules are equivalences, so that a statement about all ends of a piece of code can be turned into a
condition on the parts it was given, and the condition is exact. The rule for `bind` is where this takes
some care. What the second program does may depend on what the first one returns, on the threads that the
first one has left, and on how things stand when the second begins; so the condition on the first program
(`K`) is one on results and states, and it has to be closed under whatever those threads do meanwhile.
-/

namespace Prog

variable {S T E A R R' : Type}

/-- There is a way through the program to that end, on which every section finds a state it accepts. -/
def MayEnd : Prog S E Empty A R → Option R → Prop
  | ret r, o => o = some r
  | halt, o => o = none
  | ask q _, _ => q.elim
  | act f c, o => ∃ s, (f s).isSome ∧ (c s).MayEnd o
  | emit _ c, o => c.MayEnd o
  | fork _ c, o => c.MayEnd o

/-- The end of two programs is the end of the second, or the first has not returned. -/
theorem mayEnd_bind {p : Prog S E Empty A R} {k : R → Prog S E Empty A R'} {o : Option R'} :
    (p.bind k).MayEnd o ↔
      (o = none ∧ p.MayEnd none) ∨ ∃ x, p.MayEnd (some x) ∧ (k x).MayEnd o := by
  induction p with
  | ret r => simp [Prog.bind, MayEnd]
  | halt => simp [Prog.bind, MayEnd]
  | ask q c _ => exact q.elim
  | act f c ih =>
      simp only [Prog.bind, MayEnd, ih]
      grind
  | emit e c ih => exact ih
  | fork q c _ ih => exact ih

end Prog

namespace Pool

open Prog

variable {S T E A R R' : Type} {env : S → S → Prop} {p : Prog S E Empty A R} {s s' : S} {es : List E}

/-- Started in `s`, the program comes to its end in `s'`. -/
def EndsIn (env : S → S → Prop) (p : Prog S E Empty A R) (s : S) (es : List E) (o : Option R) (s' : S) :
    Prop :=
  ∃ l', EndsBeside env [] p s es o l' s'

theorem eq_ended_of_bind {o : Option R} (h : p.bind ret = ended o) : p = ended o := by
  cases o with
  | some r =>
      cases p with
      | ret x => exact h
      | _ => cases h
  | none =>
      cases p with
      | halt => rfl
      | _ => cases h

/-- The end of two programs: the first comes to an end without returning, or the second starts beside what
the first has left. -/
theorem endsIn_bind_iff {k : R → Prog S E Empty A R'} {o : Option R'} :
    EndsIn env (p.bind k) s es o s' ↔ (o = none ∧ EndsIn env p s es none s') ∨
      ∃ es₁ x l₁ s₁ es₂ l', es = es₁ ++ es₂ ∧ ReturnsBeside env [] p s es₁ x l₁ s₁ ∧
        EndsBeside env (l₁.map mute) (k x) s₁ es₂ o l' s' := by
  have hassoc : along ret [] (p.bind k) s = along (fun x => (k x).bind ret) [] p s := by
    rw [along, along, Prog.bind_assoc]
    rfl
  have hbeside : ∀ (l : List (Prog S E Empty A R)) x (s : S),
      (⟨s, l.map mute ++ [(k x).bind ret]⟩ : Pool S E A R') = along ret (l.map mute) (k x) s := by
    intro l x s
    simp [along, Function.comp_def, mute_mute]
  unfold EndsIn EndsBeside
  rw [hassoc]
  constructor
  · rintro ⟨l', h⟩
    -- either the first part never returned in this run, or it did at some point of it
    obtain ⟨l₁, q₁, s₁, heq, hq, hrun⟩ | ⟨es₁, x, l₁, s₁, es₂, rfl, hreturns, hrun⟩ := h.first_phase
    · left
      obtain ⟨rfl, hts⟩ := Pool.mk.inj heq
      obtain ⟨-, hr⟩ := List.append_inj' hts rfl
      have hend : ended o = q₁.bind fun x => (k x).bind ret :=
        (ended_bind o).symm.trans (List.cons.inj hr).1
      -- what does not return, and has come to its end with what follows it, has ended itself
      cases o with
      | some r =>
          cases q₁ with
          | ret x => exact absurd rfl (hq x)
          | _ => cases hend
      | none =>
          cases q₁ with
          | ret x => exact absurd rfl (hq x)
          | halt => exact ⟨rfl, l₁, hrun⟩
          | _ => cases hend
    · rw [hbeside] at hrun
      exact .inr ⟨es₁, x, l₁, s₁, es₂, l', rfl, hreturns, hrun⟩
  · rintro (⟨rfl, l', h⟩ | ⟨es₁, x, l₁, s₁, es₂, l', rfl, hreturns, hrun⟩)
    · -- the run knew the first part only, so it is one with `k` behind it as well
      obtain ⟨l₂, q₂, s₂, heq, hall⟩ := Run.of_along h
      obtain ⟨rfl, hts⟩ := Pool.mk.inj heq
      obtain ⟨-, hr⟩ := List.append_inj' hts rfl
      obtain rfl : q₂ = ended none := eq_ended_of_bind (List.cons.inj hr).1.symm
      refine ⟨l₂.map mute, ?_⟩
      have hrun := hall fun x => (k x).bind ret
      simpa [along, ended, Function.comp_def, mute_mute, Prog.bind] using hrun
    · refine ⟨l', ?_⟩
      rw [← hbeside] at hrun
      exact (hreturns.sequel_of_returned fun x => (k x).bind ret).trans hrun

/-- A program that works on a part of the state which changes at will ends as it may end, whatever runs
beside it. -/
theorem ends_lift_iff {get : S → T} {set : S → T → S} (hget : ∀ s t, get (set s t) = t)
    (henv : ∀ s t, env s (set s t)) (p : Prog T Empty Empty A R) (l : List (Prog S E Empty A R)) (s : S)
    (o : Option R) :
    (∃ es l' s', EndsBeside env l (p.lift get set) s es o l' s') ↔ p.MayEnd o := by
  induction p generalizing l s with
  | ret r =>
      constructor
      · rintro ⟨es, l', s', h⟩
        exact (ends_ret_iff.mp h).1
      · rintro rfl
        exact ⟨[], l, s, .refl⟩
  | halt =>
      constructor
      · rintro ⟨es, l', s', h⟩
        exact (ends_halt_iff.mp h).1
      · rintro rfl
        exact ⟨[], l, s, .refl⟩
  | ask q c _ => exact q.elim
  | emit e c _ => exact e.elim
  | act f c ih =>
      constructor
      · rintro ⟨es, l', s', h⟩
        obtain ⟨es₁, l₁, s₁, s₂, es₂, -, -, hf, hrest⟩ := ends_act_iff.mp h
        obtain ⟨t, ht, -⟩ := Option.map_eq_some_iff.mp hf
        exact ⟨get s₁, by simp [ht], (ih (get s₁) l₁ s₂).mp ⟨es₂, l', s', hrest⟩⟩
      · rintro ⟨t, ht, hrest⟩
        obtain ⟨t', ht'⟩ := Option.isSome_iff_exists.mp ht
        -- the part becomes what the section waits for
        obtain ⟨es, l', s', hrun⟩ := (ih t l (set (set s t) t')).mpr hrest
        refine ⟨es, l', s', ends_act_iff.mpr ⟨[], l, set s t, set (set s t) t', es, rfl, ?_, ?_, ?_⟩⟩
        · exact .single (.env _ (henv s t) trivial)
        · simp [hget, ht']
        · rw [hget]
          exact hrun
  | fork q c _ ih =>
      constructor
      · rintro ⟨es, l', s', h⟩
        obtain ⟨es₁, l₁, s₁, es₂, -, -, hrest⟩ := ends_fork_iff.mp h
        exact (ih _ s₁).mp ⟨es₂, l', s', hrest⟩
      · intro h
        -- the forked thread joins those that run beside and may rest there
        obtain ⟨es, l', s', hrun⟩ := (ih (l ++ [q.lift get set]) s).mpr h
        exact ⟨es, l', s', ends_fork_iff.mpr ⟨[], l, s, es, rfl, .refl, hrun⟩⟩

/-! ## Whatever happens -/

/-- However it goes with the program, started beside the threads `l`, this is said of its end. -/
def AlwaysEnds (env : S → S → Prop) (l : List (Prog S E Empty A R)) (p : Prog S E Empty A R) (s : S)
    (P : Option R → Prop) : Prop :=
  ∀ es o l' s', EndsBeside env l p s es o l' s' → P o

variable {l : List (Prog S E Empty A R)} {P : Option R → Prop}

theorem alwaysEnds_ret_iff {x : R} : AlwaysEnds env l (ret x) s P ↔ P (some x) := by
  constructor
  · intro h
    exact h [] (some x) l s .refl
  · intro h es o l' s' hends
    rw [(ends_ret_iff.mp hends).1]
    exact h

theorem alwaysEnds_halt_iff : AlwaysEnds env l halt s P ↔ P none := by
  constructor
  · intro h
    exact h [] none l s .refl
  · intro h es o l' s' hends
    rw [(ends_halt_iff.mp hends).1]
    exact h

theorem alwaysEnds_lift_iff {get : S → T} {set : S → T → S} (hget : ∀ s t, get (set s t) = t)
    (henv : ∀ s t, env s (set s t)) {p : Prog T Empty Empty A R} :
    AlwaysEnds env l (p.lift get set) s P ↔ ∀ o, p.MayEnd o → P o := by
  constructor
  · intro h o ho
    obtain ⟨es, l', s', hends⟩ := (ends_lift_iff hget henv p l s o).mpr ho
    exact h es o l' s' hends
  · intro h es o l' s' hends
    apply h
    exact (ends_lift_iff hget henv p l s o).mp ⟨es, l', s', hends⟩

/-- The other threads go on until the section is run. -/
theorem alwaysEnds_act_iff {f : S → Option S} {k : S → Prog S E Empty A R} :
    AlwaysEnds env l (act f k) s P ↔ ∀ es l₁ s₁ s₂, Beside env l s es l₁ s₁ → f s₁ = some s₂ →
      AlwaysEnds env l₁ (k s₁) s₂ P := by
  constructor
  · intro h es l₁ s₁ s₂ hbeside hf es₂ o l' s' hrest
    exact h (es ++ es₂) o l' s' (ends_act_iff.mpr ⟨es, l₁, s₁, s₂, es₂, rfl, hbeside, hf, hrest⟩)
  · intro h es o l' s' hends
    obtain ⟨es₁, l₁, s₁, s₂, es₂, -, hbeside, hf, hrest⟩ := ends_act_iff.mp hends
    exact h es₁ l₁ s₁ s₂ hbeside hf es₂ o l' s' hrest

/-! Where it does not matter how things stand when the rest starts. -/

theorem alwaysEnds_emit_iff {e : E} {K : Prop} (hk : ∀ l s, AlwaysEnds env l p s P ↔ K) :
    AlwaysEnds env l (emit e p) s P ↔ K := by
  constructor
  · intro h
    refine (hk l s).mp fun es o l' s' hrest => ?_
    exact h (e :: es) o l' s' (ends_emit_iff.mpr ⟨[], l, s, es, rfl, .refl, hrest⟩)
  · intro h es o l' s' hends
    obtain ⟨es₁, l₁, s₁, es₂, -, -, hrest⟩ := ends_emit_iff.mp hends
    exact (hk l₁ s₁).mpr h es₂ o l' s' hrest

theorem alwaysEnds_fork_iff {q : Prog S E Empty A R} {K : Prop} (hk : ∀ l s, AlwaysEnds env l p s P ↔ K) :
    AlwaysEnds env l (fork q p) s P ↔ K := by
  constructor
  · intro h
    refine (hk (l ++ [q]) s).mp fun es o l' s' hrest => ?_
    exact h es o l' s' (ends_fork_iff.mpr ⟨[], l, s, es, rfl, .refl, hrest⟩)
  · intro h es o l' s' hends
    obtain ⟨es₁, l₁, s₁, es₂, -, -, hrest⟩ := ends_fork_iff.mp hends
    exact (hk (l₁ ++ [q]) s₁).mpr h es₂ o l' s' hrest

/-- Nobody returns to the threads that a program leaves, so their type does not matter. -/
theorem Beside.mute {l l' : List (Prog S E Empty A R)} (h : Beside env l s es l' s') :
    Beside env (l.map mute : List (Prog S E Empty A R')) s es (l'.map mute) s' := by
  have hmute : ∀ {B C : Type} (l : List (Prog S E Empty A R)),
      ((l.map Prog.mute : List (Prog S E Empty A B)).map Prog.mute : List (Prog S E Empty A C)) =
        l.map Prog.mute := by
    intro B C l
    simp [Function.comp_def, mute_mute]
  obtain ⟨l₁, s₁, heq, hall⟩ := Run.of_muted h
  obtain ⟨rfl, hl⟩ := Pool.mk.inj heq
  rw [Beside, hmute, hmute]
  have hl' : (l'.map Prog.mute : List (Prog S E Empty A R')) = l₁.map Prog.mute := by
    rw [← hmute (B := R) l', hl, hmute]
  rw [hl']
  exact hall

/-- The end of the second program may depend on what the first returns, and on how things stand when the
second gets to it, the threads that the first has left going on meanwhile. So that is what is asked of the
ends of the first, among which there are those in which its threads have gone on. -/
theorem alwaysEnds_bind_iff {k : R → Prog S E Empty A R'} {P : Option R' → Prop} {K : R → S → Prop}
    (hk : ∀ x l s, AlwaysEnds env l (k x) s P ↔ ∀ es l' s', Beside env l s es l' s' → K x s') :
    AlwaysEnds env [] (p.bind k) s P ↔ ∀ es o l' s', EndsBeside env [] p s es o l' s' →
      o.elim (P none) (K · s') := by
  constructor
  · intro h es o l₁ s₁ hends
    cases o with
    | none =>
        obtain ⟨l', hrun⟩ : EndsIn env (p.bind k) s es none s₁ :=
          endsIn_bind_iff.mpr (.inl ⟨rfl, l₁, hends⟩)
        exact h es none l' s₁ hrun
    | some x =>
        refine (hk x (l₁.map Prog.mute) s₁).mp (fun es₂ o l' s' hrest => ?_) [] _ s₁ .refl
        obtain ⟨l'', hrun⟩ : EndsIn env (p.bind k) s (es ++ es₂) o s' :=
          endsIn_bind_iff.mpr (.inr ⟨es, x, l₁, s₁, es₂, l', rfl, hends, hrest⟩)
        exact h _ o l'' s' hrun
  · intro h es o l' s' hends
    obtain ⟨rfl, l₁, hfirst⟩ | ⟨es₁, x, l₁, s₁, es₂, l₂, rfl, hreturns, hrest⟩ :=
      endsIn_bind_iff.mp ⟨l', hends⟩
    · exact h es none l₁ s' hfirst
    · refine (hk x _ s₁).mpr (fun es₃ l₃ s₃ hbeside => ?_) es₂ o l₂ s' hrest
      -- the threads of the first program could have gone on before anything else
      have hmuted : Beside env ((l₁.map Prog.mute : List (Prog S E Empty A R')).map Prog.mute) s₁ es₃
          (l₃.map Prog.mute : List (Prog S E Empty A R)) s₃ := hbeside.mute
      have hbeside' : Beside env l₁ s₁ es₃ (l₃.map Prog.mute : List (Prog S E Empty A R)) s₃ := by
        simpa [Beside, Function.comp_def, mute_mute] using hmuted
      exact h (es₁ ++ es₃) (some x) _ s₃ (Run.trans hreturns (hbeside'.joined [ret x]))

end Pool
