import GayRpc.Lib.Sequel

/-!
# A sequel that shows one event at most

What `k x` makes of the result `x` of a program may be no more than one event, and that only if there is
an occasion for it: `OnceIf env P` is said of programs that show an event only after they have found a
state in `P`. What `p.bind k` shows then is what `p` shows alone, and this event, if `p` gave the occasion
(`Run.last_word`).

The occasion may come late. The state may come into `P` long after `p` has returned, while the threads
that `p` has started go on; so what is said about the run of `p` alone includes what happens after its
return, up to the occasion. In the pool one thread may do something (`Leads`), the others are `Quiet`, and
a step of any of them leaves it so.
-/

namespace Prog

variable {S E Q A R : Type}

/-- The program shows nothing, and changes the state only as `env` might. -/
abbrev Quiet (env : S → S → Prop) : Prog S E Q A R → Prop :=
  Guarantees (fun _ => True) env fun _ => False

/-- The program shows one event at most, and changes the state only as `env` might. -/
def Once (env : S → S → Prop) : Prog S E Q A R → Prop
  | ret _ => True
  | halt => True
  | ask _ k => ∀ a, (k a).Once env
  | act f k => ∀ s s', f s = some s' → env s s' ∧ (k s).Once env
  | emit _ k => k.Quiet env
  | fork p k => (p.Quiet env ∧ k.Once env) ∨ (p.Once env ∧ k.Quiet env)

/-- The same, and the program shows nothing before one of its sections has found a state in `P`. -/
def OnceIf (env : S → S → Prop) (P : S → Prop) : Prog S E Q A R → Prop
  | ret _ => True
  | halt => True
  | ask _ k => ∀ a, (k a).OnceIf env P
  | act f k => ∀ s s', f s = some s' →
      env s s' ∧ ((P s ∧ (k s).Once env) ∨ (k s).OnceIf env P)
  | emit _ _ => False
  | fork p k => (p.Quiet env ∧ k.OnceIf env P) ∨ (p.OnceIf env P ∧ k.Quiet env)

variable {env : S → S → Prop} {P : S → Prop}

/-- One of the threads is the first of the list in what it may do, the others show nothing. -/
def Leads (env : S → S → Prop) (Φ : Prog S E Q A R → Prop) (ps : List (Prog S E Q A R)) : Prop :=
  ∃ v rest, ps.Perm (v :: rest) ∧ Φ v ∧ ∀ p ∈ rest, p.Quiet env

namespace Leads

variable {Φ Ψ : Prog S E Q A R → Prop} {ps qs : List (Prog S E Q A R)}

theorem single {p : Prog S E Q A R} (hp : Φ p) : Leads env Φ [p] := ⟨p, [], .refl _, hp, by simp⟩

theorem pair {p k : Prog S E Q A R} (h : (p.Quiet env ∧ Φ k) ∨ (Φ p ∧ k.Quiet env)) :
    Leads env Φ [p, k] := by
  rcases h with ⟨hp, hk⟩ | ⟨hp, hk⟩
  · exact ⟨k, [p], .swap k p [], hk, by simpa using hp⟩
  · exact ⟨p, [k], .refl _, hp, by simpa using hk⟩

theorem perm (h : Leads env Φ ps) (hperm : qs.Perm ps) : Leads env Φ qs := by
  obtain ⟨v, rest, hps, hv, hrest⟩ := h
  exact ⟨v, rest, hperm.trans hps, hv, hrest⟩

/-- Quiet threads may join. -/
theorem append (h : Leads env Φ ps) (hqs : ∀ q ∈ qs, q.Quiet env) : Leads env Φ (ps ++ qs) := by
  obtain ⟨v, rest, hps, hv, hrest⟩ := h
  exact ⟨v, rest ++ qs, hps.append_right qs, hv, List.forall_mem_append.mpr ⟨hrest, hqs⟩⟩

/-- Of such threads, one takes a step: the one that may do something, or a quiet one. -/
theorem cases_mem {u₁ u₂ : List (Prog S E Q A R)} {u : Prog S E Q A R}
    (h : Leads env Φ (u₁ ++ u :: u₂)) :
    (Φ u ∧ ∀ w ∈ u₁ ++ u₂, w.Quiet env) ∨ (u.Quiet env ∧ Leads env Φ (u₁ ++ u₂)) := by
  obtain ⟨v, rest, hperm, hv, hrest⟩ := h
  have hmid : (u :: (u₁ ++ u₂)).Perm (v :: rest) := List.perm_middle.symm.trans hperm
  rcases List.mem_cons.mp (hmid.subset List.mem_cons_self) with rfl | hu
  · refine .inl ⟨hv, fun w hw => hrest w ?_⟩
    exact hmid.cons_inv.subset hw
  · obtain ⟨r₁, r₂, rfl⟩ := List.append_of_mem hu
    refine .inr ⟨hrest u hu, v, r₁ ++ r₂, ?_, hv, fun w hw => hrest w ?_⟩
    · have hswap : (v :: (r₁ ++ u :: r₂)).Perm (u :: v :: (r₁ ++ r₂)) :=
        (List.perm_middle.cons v).trans (.swap u v _)
      exact (hmid.trans hswap).cons_inv
    · simp only [List.mem_append, List.mem_cons] at hw ⊢
      exact hw.imp_right .inr

/-- What has become of a quiet thread takes its place. -/
theorem insert_quiet {u₁ u₂ : List (Prog S E Q A R)} (h : Leads env Φ (u₁ ++ u₂))
    (hps : ∀ p ∈ ps, p.Quiet env) : Leads env Φ (u₁ ++ (ps ++ u₂)) := by
  refine (h.append hps).perm ?_
  rw [List.append_assoc]
  exact List.perm_append_comm.append_left u₁

/-- What has become of the one thread takes its place. -/
theorem insert {u₁ u₂ : List (Prog S E Q A R)} (h : Leads env Φ ps)
    (hus : ∀ w ∈ u₁ ++ u₂, w.Quiet env) : Leads env Φ (u₁ ++ (ps ++ u₂)) := by
  refine (h.append hus).perm ?_
  rw [← List.append_assoc, ← List.append_assoc]
  exact List.perm_append_comm.append_right u₂

end Leads

section next

variable {p : Prog S E Empty A R} {s s' : S} {es : List E} {ps : List (Prog S E Empty A R)}

theorem Quiet.next (hp : p.Quiet env) (h : p.next s = some (es, s', ps)) :
    es = [] ∧ (s' = s ∨ env s s') ∧ ∀ p ∈ ps, p.Quiet env := by
  obtain ⟨hs, hes, hps⟩ := Guarantees.next hp trivial h
  exact ⟨List.eq_nil_iff_forall_not_mem.mpr hes, hs, hps⟩

theorem Once.next (hp : p.Once env) (h : p.next s = some (es, s', ps)) :
    (s' = s ∨ env s s') ∧
      ((es = [] ∧ Leads env (Once env) ps) ∨ (∃ e, es = [e]) ∧ ∀ p ∈ ps, p.Quiet env) := by
  cases p with
  | ret r => cases h
  | halt => cases h
  | ask q c => exact q.elim
  | act f c =>
      obtain ⟨t, ht, hr⟩ := Option.map_eq_some_iff.mp h
      cases hr
      obtain ⟨henv, hc⟩ := hp s s' ht
      exact ⟨.inr henv, .inl ⟨rfl, .single hc⟩⟩
  | emit e c =>
      cases h
      have hc : c.Quiet env := hp
      exact ⟨.inl rfl, .inr ⟨⟨e, rfl⟩, by simpa using hc⟩⟩
  | fork p c =>
      cases h
      exact ⟨.inl rfl, .inl ⟨rfl, .pair hp⟩⟩

theorem OnceIf.next (hp : p.OnceIf env P) (h : p.next s = some (es, s', ps)) :
    (s' = s ∨ env s s') ∧ es = [] ∧
      (Leads env (OnceIf env P) ps ∨ (P s ∧ Leads env (Once env) ps)) := by
  cases p with
  | ret r => cases h
  | halt => cases h
  | ask q c => exact q.elim
  | act f c =>
      obtain ⟨t, ht, hr⟩ := Option.map_eq_some_iff.mp h
      cases hr
      obtain ⟨henv, ⟨hP, hc⟩ | hc⟩ := hp s s' ht
      · exact ⟨.inr henv, rfl, .inr ⟨hP, .single hc⟩⟩
      · exact ⟨.inr henv, rfl, .inl (.single hc)⟩
  | emit e c => exact hp.elim
  | fork p c =>
      cases h
      exact ⟨.inl rfl, rfl, .inl (.pair hp)⟩

end next

end Prog

namespace Pool

open Prog

variable {S E A R R' : Type} {env : S → S → Prop} {P : R → S → Prop} {p : Prog S E Empty A R}
  {k : R → Prog S E Empty A R'} {s₀ : S} {es fs : List E}

/-- Where a pool in which `p` is followed by `k` may be, when it has shown `es`. -/
inductive LastWord (env : S → S → Prop) (P : R → S → Prop) (p : Prog S E Empty A R)
    (k : R → Prog S E Empty A R') (s₀ : S) : List E → Pool S E A R' → Prop
  /-- `p` has not returned -/
  | running {es : List E} {l : List (Prog S E Empty A R)} {q : Prog S E Empty A R} {s : S}
      (hrun : Run (World.drifting env) ⟨s₀, [p.bind ret]⟩ es (along ret l q s))
      (hq : ∀ x, q ≠ ret x) : LastWord env P p k s₀ es (along k l q s)
  /-- `p` has returned `x`, and the occasion has not come -/
  | waiting {es : List E} {l : List (Prog S E Empty A R)} {x : R}
      {us : List (Prog S E Empty A R')} {b : Pool S E A R'}
      (hrun : Run (World.drifting env) ⟨s₀, [p.bind ret]⟩ es (along ret l (ret x) b.state))
      (hperm : b.threads.Perm (l.map mute ++ us)) (hus : Leads env (OnceIf env (P x)) us) :
      LastWord env P p k s₀ es b
  /-- the occasion came when the state was `s` -/
  | settled {es es₁ es₂ : List E} {l l' : List (Prog S E Empty A R)} {x : R} {s : S}
      {us : List (Prog S E Empty A R')} {b : Pool S E A R'}
      (hrun : Run (World.drifting env) ⟨s₀, [p.bind ret]⟩ es₁ (along ret l (ret x) s)) (hP : P x s)
      (hrest : Run (World.drifting env) (along ret l (ret x) s) es₂ (along ret l' (ret x) b.state))
      (hperm : b.threads.Perm (l'.map mute ++ us))
      (hus : (es.Perm (es₁ ++ es₂) ∧ Leads env (Once env) us) ∨
        (∃ e, es.Perm (e :: (es₁ ++ es₂))) ∧ ∀ u ∈ us, u.Quiet env) :
      LastWord env P p k s₀ es b

namespace LastWord

/-- What `k x` is when `p` returns `x`. -/
theorem returned (hk : ∀ x s, (P x s ∧ (k x).Once env) ∨ (k x).OnceIf env (P x))
    {l : List (Prog S E Empty A R)} {x : R} {s : S}
    (hrun : Run (World.drifting env) ⟨s₀, [p.bind ret]⟩ es (along ret l (ret x) s)) :
    LastWord env P p k s₀ es (along k l (ret x) s) := by
  rcases hk x s with ⟨hP, hx⟩ | hx
  · exact .settled hrun hP .refl (.refl _) (.inl ⟨by rw [List.append_nil], .single hx⟩)
  · exact .waiting hrun (.refl _) (.single hx)

end LastWord

section step

variable (hk : ∀ x s, (P x s ∧ (k x).Once env) ∨ (k x).OnceIf env (P x))

include hk

theorem Step.last_word {a b : Pool S E A R'} (h : Step (World.drifting env) a fs b)
    (ha : LastWord env P p k s₀ es a) : LastWord env P p k s₀ (es ++ fs) b := by
  cases ha with
  | @running l q s hrun hq =>
      obtain ⟨l', q', s', rfl, hstep⟩ := h.of_along fun x hx => absurd hx (hq x)
      have hrun' := hrun.tail (hstep ret)
      -- `p` itself has moved, and may have come back with that
      by_cases hq' : ∃ x, q' = ret x
      · obtain ⟨x, rfl⟩ := hq'
        exact .returned hk hrun'
      · exact .running hrun' fun x hx => hq' ⟨x, hx⟩
  | @waiting l x us _ hrun hperm hus =>
      obtain ⟨l', hstep, hperm'⟩ | ⟨u₁, u, u₂, ps, rfl, hn, hperm'⟩ := h.of_returned x hperm
      · exact .waiting (hrun.tail hstep) hperm' hus
      · rcases hus.cases_mem with ⟨hu, hrest⟩ | ⟨hu, hus⟩
        -- the thread that waits has moved: it waits on, or has its answer now
        · obtain ⟨hs, rfl, hps | ⟨hP, hps⟩⟩ := hu.next hn
          · rw [List.append_nil]
            exact .waiting (hrun.drift hs) hperm' (hps.insert hrest)
          · rw [List.append_nil]
            have hstay : Run (World.drifting env) (along ret l (ret x) a.state) []
                (along ret l (ret x) b.state) := Run.refl.drift hs
            exact .settled hrun hP hstay hperm' (.inl ⟨by rw [List.append_nil], hps.insert hrest⟩)
        · obtain ⟨rfl, hs, hps⟩ := hu.next hn
          rw [List.append_nil]
          exact .waiting (hrun.drift hs) hperm' (hus.insert_quiet hps)
  | @settled es₁ es₂ l l' x s us _ hrun hP hrest hperm hus =>
      obtain ⟨l'', hstep, hperm'⟩ | ⟨u₁, u, u₂, ps, rfl, hn, hperm'⟩ := h.of_returned x hperm
      · refine .settled hrun hP (hrest.tail hstep) hperm' ?_
        -- a thread of `p`, and what it shows comes before the last word
        rw [← List.append_assoc]
        rcases hus with ⟨hes, hus⟩ | ⟨⟨e, hes⟩, hus⟩
        · exact .inl ⟨hes.append_right fs, hus⟩
        · exact .inr ⟨⟨e, hes.append_right fs⟩, hus⟩
      · rcases hus with ⟨hes, hus⟩ | ⟨hes, hus⟩
        · rcases hus.cases_mem with ⟨hu, hquiet⟩ | ⟨hu, hus⟩
          · obtain ⟨hs, ⟨rfl, hps⟩ | ⟨⟨e, rfl⟩, hps⟩⟩ := hu.next hn
            · rw [List.append_nil]
              exact .settled hrun hP (hrest.drift hs) hperm' (.inl ⟨hes, hps.insert hquiet⟩)
            · have hlast : (es ++ [e]).Perm (e :: (es₁ ++ es₂)) :=
                List.perm_append_comm.trans (hes.cons e)
              refine .settled hrun hP (hrest.drift hs) hperm' (.inr ⟨⟨e, hlast⟩, ?_⟩)
              grind
          · obtain ⟨rfl, hs, hps⟩ := hu.next hn
            rw [List.append_nil]
            exact .settled hrun hP (hrest.drift hs) hperm' (.inl ⟨hes, hus.insert_quiet hps⟩)
        · obtain ⟨rfl, hs, hps⟩ := (hus u (by simp)).next hn
          rw [List.append_nil]
          refine .settled hrun hP (hrest.drift hs) hperm' (.inr ⟨hes, ?_⟩)
          grind

/-- A run of `p` followed by `k` is, as far as `p` goes, a run of `p` alone. It shows one event more at
most, and that only if the occasion came up on the way. -/
theorem Run.last_word {b : Pool S E A R'} (h : Run (World.drifting env) ⟨s₀, [p.bind k]⟩ es b) :
    LastWord env P p k s₀ es b := by
  induction h with
  | refl =>
      by_cases hp : ∃ x, p = ret x
      · obtain ⟨x, rfl⟩ := hp
        have hrefl : Run (World.drifting env) ⟨s₀, [(ret x : Prog S E Empty A R).bind ret]⟩ []
            (along ret [] (ret x) s₀) := .refl
        exact .returned hk hrefl
      · have hrefl : Run (World.drifting env) ⟨s₀, [p.bind ret]⟩ [] (along ret [] p s₀) := .refl
        exact .running hrefl fun x hx => hp ⟨x, hx⟩
  | tail _ hs ih => exact hs.last_word hk ih

end step

/-- A program that shows one event at most, on its own. -/
theorem Run.length_le_one {q : Prog S E Empty A R} (hq : q.Once env) {s : S} {b : Pool S E A R}
    (h : Run (World.drifting env) ⟨s, [q]⟩ es b) : es.length ≤ 1 := by
  -- a program alone is one after a part that has already returned
  have hafter : Run (World.drifting env)
      ⟨s, [(ret () : Prog S E Empty A Unit).bind fun _ => q]⟩ es b := h
  -- that part gives no event, so all events are those of the last word
  have hnothing : ∀ {es b}, Run (World.drifting env)
      ⟨s, [(ret () : Prog S E Empty A Unit).bind ret]⟩ es b → es = [] := by
    intro es b hrun
    have hkeeps : ((ret () : Prog S E Empty A Unit).bind ret).Keeps (fun _ => True)
        (fun _ => False) := trivial
    exact hrun.eq_nil hkeeps
  have hlast := hafter.last_word (P := fun _ _ => True) fun _ _ => .inl ⟨trivial, hq⟩
  cases hlast with
  | running hrun _ => simp [hnothing hrun]
  | waiting hrun _ _ => simp [hnothing hrun]
  | settled hrun _ hrest _ hus =>
      rw [hnothing (hrun.trans hrest)] at hus
      rcases hus with ⟨hes, -⟩ | ⟨⟨e, hes⟩, -⟩
      · exact Nat.le_succ_of_le (Nat.le_of_eq hes.length_eq)
      · exact Nat.le_of_eq hes.length_eq

end Pool
