import GayRpc.Lib.Prog

/-!
# What a program keeps, and what it shows

`Guarantees I C G p`: started in states that satisfy `I`, the sections of `p` change the state by `C`,
and whatever `p` shows lies in `G`. Programs are put together from such parts (`bind`, `plug`, `lift`,
`within`). `Keeps I G p` says that the sections keep `I` itself.

This is the rely-guarantee method in its simplest form: `C` is what a thread guarantees to the others,
and the others may do anything that keeps `I`. A pool of programs that guarantee `C`, in a world that does
no more (`World.Preserves`), changes its state by `C` alone as long as a run stays in `I`
(`Run.promised`). For `Keeps` nothing has to be assumed of the run: the invariant holds at any time and
nothing outside of `G` is ever shown (`Run.guaranteed`).
-/

namespace Prog

variable {S T E F Q A R Q' A' R' : Type}

/-- The sections of `p` take states in `I` to others by `C`, and `p` shows nothing outside of `G`. -/
def Guarantees (I : S → Prop) (C : S → S → Prop) (G : E → Prop) : Prog S E Q A R → Prop
  | ret _ => True
  | halt => True
  | ask _ k => ∀ a, (k a).Guarantees I C G
  | act f k => ∀ s, I s → ∀ s', f s = some s' → C s s' ∧ (k s).Guarantees I C G
  | emit e k => G e ∧ k.Guarantees I C G
  | fork p k => p.Guarantees I C G ∧ k.Guarantees I C G

/-- `p` keeps `I` and shows nothing outside of `G`. -/
abbrev Keeps (I : S → Prop) (G : E → Prop) : Prog S E Q A R → Prop :=
  Guarantees I (fun _ s' => I s') G

namespace Guarantees

variable {I : S → Prop} {J : T → Prop} {C : S → S → Prop} {C' : T → T → Prop} {G : E → Prop}
  {G' : F → Prop}

theorem imp {C₁ C₂ : S → S → Prop} {p : Prog S E Q A R} (hp : p.Guarantees I C₁ G)
    (hC : ∀ s s', C₁ s s' → C₂ s s') : p.Guarantees I C₂ G := by
  induction p with
  | ret r => trivial
  | halt => trivial
  | ask q c ih =>
      intro a
      exact ih a (hp a)
  | act f c ih =>
      intro s hs s' hf
      obtain ⟨hs', hc⟩ := hp s hs s' hf
      exact ⟨hC s s' hs', ih s hc⟩
  | emit e c ih => exact ⟨hp.1, ih hp.2⟩
  | fork p c ihp ihc => exact ⟨ihp hp.1, ihc hp.2⟩

theorem shows {G₁ G₂ : E → Prop} {p : Prog S E Q A R} (hp : p.Guarantees I C G₁)
    (hG : ∀ e, G₁ e → G₂ e) : p.Guarantees I C G₂ := by
  induction p with
  | ret r => trivial
  | halt => trivial
  | ask q c ih =>
      intro a
      exact ih a (hp a)
  | act f c ih =>
      intro s hs s' hf
      obtain ⟨hs', hc⟩ := hp s hs s' hf
      exact ⟨hs', ih s hc⟩
  | emit e c ih => exact ⟨hG e hp.1, ih hp.2⟩
  | fork p c ihp ihc => exact ⟨ihp hp.1, ihc hp.2⟩

/-- Any program promises nothing. -/
theorem nothing (p : Prog S E Q A R) : p.Guarantees I (fun _ _ => True) fun _ => True := by
  induction p with
  | ret r => trivial
  | halt => trivial
  | ask q c ih => exact ih
  | act f c ih => exact fun s _ _ _ => ⟨trivial, ih s⟩
  | emit e c ih => exact ⟨trivial, ih⟩
  | fork p c ihp ihc => exact ⟨ihp, ihc⟩

theorem bind {p : Prog S E Q A R} {k : R → Prog S E Q A R'} (hp : p.Guarantees I C G)
    (hk : ∀ r, (k r).Guarantees I C G) : (p.bind k).Guarantees I C G := by
  induction p generalizing R' with
  | ret r => exact hk r
  | halt => trivial
  | ask q c ih =>
      intro a
      exact ih a (hp a) hk
  | act f c ih =>
      intro s hs s' hf
      obtain ⟨hs', hc⟩ := hp s hs s' hf
      exact ⟨hs', ih s hc hk⟩
  | emit e c ih => exact ⟨hp.1, ih hp.2 hk⟩
  | fork p c ihp ihc => exact ⟨ihp hp.1 fun _ => trivial, ihc hp.2 hk⟩

theorem plug {M : Type} {h : M → Q → Prog S E Q' A' A} {step : M → M} {p : Prog S E Q A R}
    (hp : p.Guarantees I C G) (hh : ∀ m q, (h m q).Guarantees I C G) (m : M) :
    (p.plug h step m).Guarantees I C G := by
  induction p generalizing m with
  | ret r => trivial
  | halt => trivial
  | ask q c ih => exact (hh m q).bind fun a => ih a (hp a) _
  | act f c ih =>
      intro s hs s' hf
      obtain ⟨hs', hc⟩ := hp s hs s' hf
      exact ⟨hs', ih s hc _⟩
  | emit e c ih => exact ⟨hp.1, ih hp.2 _⟩
  | fork p c ihp ihc => exact ⟨ihp hp.1 _, ihc hp.2 _⟩

/-- A program of which nothing is known, on a part that may change at will. -/
theorem lift {get : S → T} {set : S → T → S} (hset : ∀ s t, I s → C s (set s t))
    (p : Prog T Empty Q A R) : (p.lift get set : Prog S E Q A R).Guarantees I C G := by
  induction p with
  | ret r => trivial
  | halt => trivial
  | ask q c ih =>
      intro a
      exact ih a
  | act f c ih =>
      intro s hs s' hf
      obtain ⟨t, -, rfl⟩ := Option.map_eq_some_iff.mp hf
      exact ⟨hset s t hs, ih (get s)⟩
  | emit e c ih => exact e.elim
  | fork p c ihp ihc => exact ⟨ihp, ihc⟩

/-- What a program does to its part, it does to the whole. -/
theorem within {get : S → Option T} {set : S → T → S} {tag : F → E} {p : Prog T F Q A R}
    (hp : p.Guarantees J C' G') (hget : ∀ s t, I s → get s = some t → J t)
    (hset : ∀ s t t', I s → get s = some t → C' t t' → C s (set s t')) (htag : ∀ e, G' e → G (tag e)) :
    (p.within get set tag).Guarantees I C G := by
  induction p with
  | ret r => trivial
  | halt => trivial
  | ask q c ih =>
      intro a
      exact ih a (hp a)
  | act f c ih =>
      intro s hs s' hf
      obtain ⟨t, ht, hft⟩ := Option.bind_eq_some_iff.mp hf
      obtain ⟨t', ht', rfl⟩ := Option.map_eq_some_iff.mp hft
      obtain ⟨hj, hc⟩ := hp t (hget s t hs ht) t' ht'
      refine ⟨hset s t t' hs ht hj, ?_⟩
      show ((get s).elim halt fun t => (c t).within get set tag).Guarantees I C G
      rw [ht]
      exact ih t hc
  | emit e c ih => exact ⟨htag e hp.1, ih hp.2⟩
  | fork p c ihp ihc => exact ⟨ihp hp.1, ihc hp.2⟩

end Guarantees

/-- One step of a program changes the state as promised, if at all, and what comes after it makes the
same promises. -/
theorem Guarantees.next {I : S → Prop} {C : S → S → Prop} {G : E → Prop} {p : Prog S E Empty A R}
    {s s' : S} {es : List E} {ps : List (Prog S E Empty A R)} (hp : p.Guarantees I C G) (hs : I s)
    (h : p.next s = some (es, s', ps)) :
    (s' = s ∨ C s s') ∧ (∀ e ∈ es, G e) ∧ ∀ p ∈ ps, p.Guarantees I C G := by
  cases p with
  | ret r => cases h
  | halt => cases h
  | ask q c => exact q.elim
  | act f c =>
      obtain ⟨t, ht, hr⟩ := Option.map_eq_some_iff.mp h
      cases hr
      obtain ⟨hc, hnext⟩ := hp s hs _ ht
      exact ⟨.inr hc, by simp, by simpa using hnext⟩
  | emit e c =>
      cases h
      exact ⟨.inl rfl, by simpa using hp.1, by simpa using hp.2⟩
  | fork p c =>
      cases h
      have hpc : p.Guarantees I C G ∧ c.Guarantees I C G := hp
      exact ⟨.inl rfl, by simp, by simpa using hpc⟩

end Prog

/-- Everything around the threads of a pool keeps the same. -/
structure World.Preserves {S E A R : Type} (W : World S E A R) (I : S → Prop) (G : E → Prop) : Prop where
  env : ∀ s s', W.env s s' → I s → I s'
  spawn : ∀ p, W.spawn p → p.Keeps I G

namespace Pool

open Prog

variable {S E A R : Type} {W : World S E A R} {a b : Pool S E A R} {es : List E} {I : S → Prop}
  {G : E → Prop}

/-- A step of the pool is one that its threads or its surroundings have promised. -/
theorem Step.promised {C : S → S → Prop} (hW : ∀ p, W.spawn p → p.Guarantees I C G) (h : Step W a es b)
    (hs : I a.state) (ha : ∀ p ∈ a.threads, p.Guarantees I C G) :
    (b.state = a.state ∨ C a.state b.state ∨ W.env a.state b.state) ∧ (∀ e ∈ es, G e) ∧
      ∀ p ∈ b.threads, p.Guarantees I C G := by
  cases h with
  | @thread s s' _ _ _ l r hn _ =>
      obtain ⟨hl, hpr⟩ := List.forall_mem_append.mp ha
      obtain ⟨hp, hr⟩ := List.forall_mem_cons.mp hpr
      obtain ⟨hs', hes, hps⟩ := hp.next hs hn
      refine ⟨hs'.imp_right .inl, hes, ?_⟩
      exact List.forall_mem_append.mpr ⟨hl, List.forall_mem_append.mpr ⟨hps, hr⟩⟩
  | env ts he _ => exact ⟨.inr (.inr he), by simp, ha⟩
  | spawn ts hp => exact ⟨.inl rfl, by simp, List.forall_mem_cons.mpr ⟨hW _ hp, ha⟩⟩

/-- As long as a run stays in `I`, all promises for `I` hold. -/
theorem Run.promised {C : S → S → Prop} (hW : ∀ p, W.spawn p → p.Guarantees I C G) (h : Run W a es b)
    (hI : ∀ fs c gs, es = fs ++ gs → Run W a fs c → Run W c gs b → I c.state)
    (ha : ∀ p ∈ a.threads, p.Guarantees I C G) :
    (∀ e ∈ es, G e) ∧ ∀ p ∈ b.threads, p.Guarantees I C G := by
  induction h with
  | refl => exact ⟨by simp, ha⟩
  | @tail b c es fs hrun hs ih =>
      have hlast := hI es b fs rfl hrun (.single hs)
      have hbefore : ∀ fs' d gs, es = fs' ++ gs → Run W a fs' d → Run W d gs b → I d.state := by
        rintro fs' d gs rfl hto hfrom
        exact hI fs' d (gs ++ fs) (List.append_assoc _ _ _) hto (hfrom.tail hs)
      obtain ⟨hes, hb⟩ := ih hbefore
      obtain ⟨-, hfs, hc⟩ := hs.promised hW hlast hb
      exact ⟨List.forall_mem_append.mpr ⟨hes, hfs⟩, hc⟩

/-- The invariant holds, and every thread keeps it. -/
structure Guaranteed (I : S → Prop) (G : E → Prop) (a : Pool S E A R) : Prop where
  state : I a.state
  threads : ∀ p ∈ a.threads, p.Keeps I G

theorem Step.guaranteed (hW : W.Preserves I G) (h : Step W a es b) (ha : a.Guaranteed I G) :
    b.Guaranteed I G ∧ ∀ e ∈ es, G e := by
  obtain ⟨hstate, hes, hthreads⟩ := h.promised hW.spawn ha.state ha.threads
  refine ⟨⟨?_, hthreads⟩, hes⟩
  rcases hstate with hsame | hkept | henv
  · rw [hsame]
    exact ha.state
  · exact hkept
  · exact hW.env _ _ henv ha.state

/-- Over a whole run the invariant is kept, and only what may be shown is shown. -/
theorem Run.guaranteed (hW : W.Preserves I G) (h : Run W a es b) (ha : a.Guaranteed I G) :
    b.Guaranteed I G ∧ ∀ e ∈ es, G e := by
  induction h with
  | refl => exact ⟨ha, by simp⟩
  | tail _ hs ih =>
      obtain ⟨hb, hes⟩ := ih
      obtain ⟨hc, hfs⟩ := hs.guaranteed hW hb
      exact ⟨hc, List.forall_mem_append.mpr ⟨hes, hfs⟩⟩

end Pool
