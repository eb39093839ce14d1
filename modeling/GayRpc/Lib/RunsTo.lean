import GayRpc.Lib.Prog

/-!
# A thread that runs undisturbed

`RunsTo p s es s'`: left alone in state `s`, the thread `p` comes to its end, and so do the threads
it starts; they show `es` on the way and leave `s'`. For a program without `fork` the simp lemmas
compute it, section by section and event by event, since the next step of a thread on its own is
determined (`runsTo_iff_next`).

It is the way from a calculation to a statement about runs that exist. What a thread does alone it can also
do beside others, in any world that does not bound it (`Run.frame`), and the other way round what a
thread shows when nobody disturbs it is what it shows in any run of it alone (`Run.alone_cases`).
-/

namespace Prog

variable {S E A R : Type}

def RunsTo (p : Prog S E Empty A R) (s : S) (es : List E) (s' : S) : Prop :=
  ∃ ds, Pool.Run (World.alone fun _ => True) ⟨s, [p]⟩ es ⟨s', ds⟩ ∧ ∀ d ∈ ds, d.Done

end Prog

namespace Pool

open Prog

variable {S E A R : Type} {s s' : S} {p : Prog S E Empty A R} {es : List E}
  {a b c : Pool S E A R}

/-- A step that no new thread takes part in is one beside other threads, and in another world that lets it
pass. -/
theorem Step.frame {W W' : World S E A R} (hspawn : ∀ p, ¬ W.spawn p)
    (henv : ∀ s s', W.env s s' → W'.env s s') (h : Step W a es b) (hb : W'.bound b.state)
    (l r : List (Prog S E Empty A R)) :
    Step W' ⟨a.state, l ++ (a.threads ++ r)⟩ es ⟨b.state, l ++ (b.threads ++ r)⟩ := by
  cases h with
  | thread l' r' hn _ =>
      have hstep := Step.thread (W := W') (l ++ l') (r' ++ r) hn hb
      simpa only [List.append_assoc, List.cons_append] using hstep
  | env ts he _ => exact .env _ (henv _ _ he) hb
  | spawn ts hp => exact absurd hp (hspawn _)

/-- What threads do on their own they can do beside others. -/
theorem Run.frame {W : World S E A R} (hb : ∀ s, W.bound s) {bound : S → Prop}
    (h : Run (World.alone bound) a es b) (l r : List (Prog S E Empty A R)) :
    Run W ⟨a.state, l ++ (a.threads ++ r)⟩ es ⟨b.state, l ++ (b.threads ++ r)⟩ := by
  induction h with
  | refl => exact .refl
  | tail _ hs ih =>
      refine ih.tail (hs.frame ?_ ?_ (hb _) l r)
      · exact fun _ hspawn => hspawn
      · exact fun _ _ henv => henv.elim

end Pool

namespace Prog

open Pool

variable {S E A R : Type} {s s' : S} {p k : Prog S E Empty A R} {es fs : List E}

/-- The first step of a thread that is not done. -/
theorem runsTo_iff_next (hp : ¬ p.Done) :
    p.RunsTo s es s' ↔
      ∃ es₁ es₂ t ps ds, p.next s = some (es₁, t, ps) ∧ es = es₁ ++ es₂ ∧
        Run (World.alone fun _ => True) ⟨t, ps⟩ es₂ ⟨s', ds⟩ ∧ ∀ d ∈ ds, d.Done := by
  constructor
  · rintro ⟨ds, hrun, hds⟩
    obtain ⟨-, hend⟩ | ⟨es₁, es₂, c, hes, hstep, hrest⟩ := hrun.head_cases
    · obtain ⟨-, rfl⟩ := Pool.mk.inj hend
      exact absurd (hds p (List.mem_singleton.mpr rfl)) hp
    · obtain ⟨t, ps, hn, -, rfl⟩ := hstep.of_alone
      exact ⟨es₁, es₂, t, ps, ds, hn, hes, hrest, hds⟩
  · rintro ⟨es₁, es₂, t, ps, ds, hn, rfl, hrest, hds⟩
    have hstep := Step.thread (W := World.alone fun _ => True) [] [] hn trivial
    rw [List.append_nil] at hstep
    exact ⟨ds, hrest.head hstep, hds⟩

/-- A thread that is done is not going anywhere. -/
theorem runsTo_iff_of_done (hp : p.Done) : p.RunsTo s es s' ↔ es = [] ∧ s' = s := by
  constructor
  · rintro ⟨ds, hrun, -⟩
    obtain ⟨hes, hend⟩ | ⟨es₁, es₂, c, -, hstep, -⟩ := hrun.head_cases
    · exact ⟨hes, (Pool.mk.inj hend).1⟩
    · obtain ⟨t, ps, hn, -⟩ := hstep.of_alone
      rw [hp.next s] at hn
      cases hn
  · rintro ⟨rfl, rfl⟩
    exact ⟨[p], .refl, by simpa using hp⟩

@[simp] theorem runsTo_ret (r : R) :
    (ret r : Prog S E Empty A R).RunsTo s es s' ↔ es = [] ∧ s' = s :=
  runsTo_iff_of_done trivial

@[simp] theorem runsTo_halt :
    (halt : Prog S E Empty A R).RunsTo s es s' ↔ es = [] ∧ s' = s :=
  runsTo_iff_of_done trivial

@[simp] theorem runsTo_act (f : S → Option S) (k : S → Prog S E Empty A R) :
    (act f k).RunsTo s es s' ↔ ∃ t, f s = some t ∧ (k s).RunsTo t es s' := by
  rw [runsTo_iff_next (by simp [Done])]
  constructor
  · rintro ⟨es₁, es₂, t, ps, ds, hn, rfl, hrest, hds⟩
    obtain ⟨u, hu, hr⟩ := Option.map_eq_some_iff.mp hn
    cases hr
    exact ⟨t, hu, ds, hrest, hds⟩
  · rintro ⟨t, ht, ds, hrest, hds⟩
    exact ⟨[], es, t, [k s], ds, by simp [next, ht], rfl, hrest, hds⟩

@[simp] theorem runsTo_emit (e : E) :
    (emit e k).RunsTo s es s' ↔ ∃ fs, es = e :: fs ∧ k.RunsTo s fs s' := by
  rw [runsTo_iff_next (by simp [Done])]
  constructor
  · rintro ⟨es₁, es₂, t, ps, ds, hn, rfl, hrest, hds⟩
    cases hn
    exact ⟨es₂, rfl, ds, hrest, hds⟩
  · rintro ⟨fs, rfl, ds, hrest, hds⟩
    exact ⟨[e], fs, s, [k], ds, rfl, rfl, hrest, hds⟩

end Prog

namespace Pool

open Prog

variable {S E A R : Type} {s : S} {p : Prog S E Empty A R} {es : List E} {b : Pool S E A R}

/-- What a thread shows on its own, it shows by its first step or after it. -/
theorem Run.alone_cases {bound : S → Prop} (h : Run (World.alone bound) ⟨s, [p]⟩ es b) :
    es = [] ∨ ∃ es₁ es₂ s' ps, p.next s = some (es₁, s', ps) ∧ es = es₁ ++ es₂ ∧
      Run (World.alone bound) ⟨s', ps⟩ es₂ b := by
  obtain ⟨hes, -⟩ | ⟨es₁, es₂, c, hes, hstep, hrest⟩ := h.head_cases
  · exact .inl hes
  · obtain ⟨s', ps, hn, -, rfl⟩ := hstep.of_alone
    exact .inr ⟨es₁, es₂, s', ps, hn, hes, hrest⟩

end Pool
