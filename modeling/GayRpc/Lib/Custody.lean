import GayRpc.Lib.Duty
import GayRpc.Lib.Guarantee

/-!
# Custody

A thing in the state that somebody may take out, and an event that settles it. `Minds B due taken p`
says what the program `p` owes to it: if `taken`, then `p` has taken it out and will settle it, and puts
it nowhere else; if `due`, then `p` is on its way to take it, should it still be there. A program that
owes nothing may leave the thing where it is, or take it out and owe it from then on.

Here nothing gets back into the state, as it may with a `Duty`: so when all threads are done, a thing
that one of them was due to take has been settled (`Run.settled`). Before that, a run may go through any
number of steps in which nobody is due (`Run.minded`); the moment at which some thread becomes due is
picked by the one who uses the rule.

An event may also end the thing in a way that counts as well (`ends`), such as an answer that has come from
elsewhere. And `bound` keeps away the runs that are not considered, which is how a condition on each step
of a run gets into a statement about it.
-/

structure Custody (S E : Type) where
  /-- what every step keeps -/
  inv : S → Prop
  /-- the states of the runs under consideration -/
  bound : S → Prop
  safe : S → Prop
  settles : E → Prop
  /-- after such an event nobody owes anything -/
  ends : E → Prop

namespace Prog

variable {S E Q A R R' : Type}

def Minds (B : Custody S E) : Prop → Prop → Prog S E Q A R → Prop
  | due, taken, ret _ => ¬ due ∧ ¬ taken
  | due, taken, halt => ¬ due ∧ ¬ taken
  | due, taken, ask _ k => ∀ a, Minds B due taken (k a)
  | due, taken, act f k => ∀ s s', B.inv s → B.bound s → f s = some s' → B.inv s' ∧
      ∃ due' taken' : Prop, (taken → taken') ∧ (B.safe s → B.safe s' ∨ taken') ∧
        (due → B.safe s → due' ∨ taken') ∧ Minds B due' taken' (k s)
  | due, taken, emit e k =>
      B.ends e ∨ ∃ taken' : Prop, (taken → B.settles e ∨ taken') ∧ Minds B due taken' k
  | due, taken, fork p k => ∃ d₁ d₂ t₁ t₂ : Prop,
      (due → d₁ ∨ d₂) ∧ (taken → t₁ ∨ t₂) ∧ Minds B d₁ t₁ p ∧ Minds B d₂ t₂ k

namespace Minds

variable {B : Custody S E} {due due' taken taken' : Prop} {p : Prog S E Q A R}

theorem mono (h : Minds B due taken p) (hd : due' → due) (ht : taken' → taken) :
    Minds B due' taken' p := by
  induction p generalizing taken taken' with
  | ret r => exact ⟨fun h' => h.1 (hd h'), fun h' => h.2 (ht h')⟩
  | halt => exact ⟨fun h' => h.1 (hd h'), fun h' => h.2 (ht h')⟩
  | ask q k ih =>
      intro a
      exact ih a (h a) ht
  | act f k _ =>
      intro s s' hs hb hf
      obtain ⟨hs', d, t, htaken, hsafe, hdue, hk⟩ := h s s' hs hb hf
      exact ⟨hs', d, t, fun h' => htaken (ht h'), hsafe, fun h' => hdue (hd h'), hk⟩
  | emit e k ih =>
      rcases h with hends | ⟨t, htaken, hk⟩
      · exact .inl hends
      · exact .inr ⟨t, fun h' => htaken (ht h'), ih hk id⟩
  | fork p k _ _ =>
      obtain ⟨d₁, d₂, t₁, t₂, hdue, htaken, hp, hk⟩ := h
      exact ⟨d₁, d₂, t₁, t₂, fun h' => hdue (hd h'), fun h' => htaken (ht h'), hp, hk⟩

/-- What comes after a program that has settled what it owed must not owe anything. -/
theorem bind {k : R → Prog S E Q A R'} (hp : Minds B due taken p)
    (hk : ∀ r, Minds B False False (k r)) : Minds B due taken (p.bind k) := by
  induction p generalizing due taken R' with
  | ret r => exact (hk r).mono hp.1 hp.2
  | halt => exact hp
  | ask q c ih =>
      intro a
      exact ih a (hp a) hk
  | act f c ih =>
      intro s s' hs hb hf
      obtain ⟨hs', d, t, htaken, hsafe, hdue, hc⟩ := hp s s' hs hb hf
      exact ⟨hs', d, t, htaken, hsafe, hdue, ih s hc hk⟩
  | emit e c ih =>
      rcases hp with hends | ⟨t, htaken, hc⟩
      · exact .inl hends
      · exact .inr ⟨t, htaken, ih hc hk⟩
  | fork p c ihp ihc =>
      obtain ⟨d₁, d₂, t₁, t₂, hdue, htaken, hp, hc⟩ := hp
      -- what is forked is not followed by `k`, so it ends owing nothing and with nothing taken
      have hhalt : Minds B False False (halt : Prog S E Q A R') := ⟨id, id⟩
      exact ⟨d₁, d₂, t₁, t₂, hdue, htaken, ihp hp fun _ => hhalt, ihc hc hk⟩

/-- What is owed may wait for what follows a program that is certain to return. -/
theorem bind_returns {P : R → Prop} {k : R → Prog S E Q A R'} (hp : Minds B due taken p)
    (hr : Returns P p) (hk : ∀ r, P r → Minds B False taken' (k r)) :
    Minds B due (taken ∨ taken') (p.bind k) := by
  induction p generalizing due taken with
  -- the part that returns has taken nothing of its own by then; `k` takes over what is due
  | ret r => exact (hk r hr).mono hp.1 fun h => h.resolve_left hp.2
  | halt => exact hr.elim
  | ask q c ih =>
      intro a
      exact ih a (hp a) (hr a)
  | act f c ih =>
      intro s s' hs hb hf
      obtain ⟨hs', d, t, htaken, hsafe, hdue, hc⟩ := hp s s' hs hb hf
      refine ⟨hs', d, t ∨ taken', ?_, ?_, ?_, ih s hc (hr s)⟩
      · exact fun h => h.imp_left htaken
      · exact fun h => (hsafe h).imp_right .inl
      · exact fun h h' => (hdue h h').imp_right .inl
  | emit e c ih =>
      rcases hp with hends | ⟨t, htaken, hc⟩
      · exact .inl hends
      · refine .inr ⟨t ∨ taken', ?_, ih hc hr⟩
        grind
  | fork p c _ ihc =>
      obtain ⟨d₁, d₂, t₁, t₂, hdue, htaken, hp, hc⟩ := hp
      have hhalt : Minds B False False (halt : Prog S E Q A R') := ⟨id, id⟩
      refine ⟨d₁, d₂, t₁, t₂ ∨ taken', hdue, ?_, hp.bind fun _ => hhalt, ihc hc hr⟩
      -- the case split is on who holds the mark: this part, or what follows it
      grind

/-- What a program owes on two accounts, it owes together. -/
theorem or {d t : Prop} (h : Minds B due taken p) (h' : Minds B d t p) :
    Minds B (due ∨ d) (taken ∨ t) p := by
  induction p generalizing due taken d t with
  | ret r => exact ⟨not_or.mpr ⟨h.1, h'.1⟩, not_or.mpr ⟨h.2, h'.2⟩⟩
  | halt => exact ⟨not_or.mpr ⟨h.1, h'.1⟩, not_or.mpr ⟨h.2, h'.2⟩⟩
  | ask q k ih =>
      intro a
      exact ih a (h a) (h' a)
  | act f k ih =>
      intro s s' hs hb hf
      obtain ⟨hs', d₁, t₁, htaken₁, hsafe, hdue₁, hk₁⟩ := h s s' hs hb hf
      -- both readings follow the same section, so their marks are joined pointwise
      obtain ⟨-, d₂, t₂, htaken₂, -, hdue₂, hk₂⟩ := h' s s' hs hb hf
      refine ⟨hs', d₁ ∨ d₂, t₁ ∨ t₂, ?_, ?_, ?_, ih s hk₁ hk₂⟩
      · grind
      · grind
      · grind
  | emit e k ih =>
      rcases h with hends | ⟨t₁, htaken₁, hk₁⟩
      · exact .inl hends
      · rcases h' with hends | ⟨t₂, htaken₂, hk₂⟩
        · exact .inl hends
        · refine .inr ⟨t₁ ∨ t₂, ?_, ih hk₁ hk₂⟩
          grind
  | fork p k ihp ihk =>
      obtain ⟨d₁, d₂, t₁, t₂, hdue, htaken, hp, hk⟩ := h
      obtain ⟨x₁, x₂, y₁, y₂, hx, hy, hp', hk'⟩ := h'
      refine ⟨d₁ ∨ x₁, d₂ ∨ x₂, t₁ ∨ y₁, t₂ ∨ y₂, ?_, ?_, ihp hp hp', ihk hk hk'⟩
      · grind
      · grind

/-- A section that leaves the thing where it is. -/
theorem act {f : S → Option S} {k : S → Prog S E Q A R}
    (h : ∀ s s', B.inv s → B.bound s → f s = some s' →
      B.inv s' ∧ (B.safe s → B.safe s') ∧ Minds B False False (k s)) :
    Minds B False False (Prog.act f k) := by
  intro s s' hs hb hf
  obtain ⟨hs', hsafe, hk⟩ := h s s' hs hb hf
  exact ⟨hs', False, False, id, fun h => .inl (hsafe h), fun h _ => .inl h, hk⟩

/-- Whoever leaves the thing where it is owes nothing. -/
theorem of_guarantees {G : E → Prop} (hp : p.Guarantees (fun s => B.inv s ∧ B.bound s)
    (fun s s' => B.inv s' ∧ (B.safe s → B.safe s')) G) : Minds B False False p := by
  induction p with
  | ret r => exact ⟨id, id⟩
  | halt => exact ⟨id, id⟩
  | ask q k ih =>
      intro a
      exact ih a (hp a)
  | act f k ih =>
      apply act
      intro s s' hs hb hf
      obtain ⟨⟨hs', hsafe⟩, hk⟩ := hp s ⟨hs, hb⟩ s' hf
      exact ⟨hs', hsafe, ih s hk⟩
  | emit e k ih => exact .inr ⟨False, False.elim, ih hp.2⟩
  | fork p k ihp ihk =>
      exact ⟨False, False, False, False, False.elim, False.elim, ihp hp.1, ihk hp.2⟩

end Minds

def MindsAll (B : Custody S E) : Prop → Prop → List (Prog S E Q A R) → Prop
  | due, taken, [] => ¬ due ∧ ¬ taken
  | due, taken, p :: ps => ∃ d₁ d₂ t₁ t₂ : Prop,
      (due → d₁ ∨ d₂) ∧ (taken → t₁ ∨ t₂) ∧ Minds B d₁ t₁ p ∧ MindsAll B d₂ t₂ ps

namespace MindsAll

variable {B : Custody S E} {due due' taken taken' : Prop} {ps qs : List (Prog S E Q A R)}

theorem mono (h : MindsAll B due taken ps) (hd : due' → due) (ht : taken' → taken) :
    MindsAll B due' taken' ps := by
  cases ps with
  | nil => exact ⟨fun h' => h.1 (hd h'), fun h' => h.2 (ht h')⟩
  | cons p ps =>
      obtain ⟨d₁, d₂, t₁, t₂, hdue, htaken, hp, hps⟩ := h
      exact ⟨d₁, d₂, t₁, t₂, fun h' => hdue (hd h'), fun h' => htaken (ht h'), hp, hps⟩

theorem cons {p : Prog S E Q A R} (hp : Minds B due taken p) (hps : MindsAll B due' taken' ps) :
    MindsAll B (due ∨ due') (taken ∨ taken') (p :: ps) :=
  ⟨due, due', taken, taken', id, id, hp, hps⟩

theorem single {p : Prog S E Q A R} (h : Minds B due taken p) : MindsAll B due taken [p] :=
  ⟨due, False, taken, False, .inl, .inl, h, id, id⟩

theorem append (hp : MindsAll B due taken ps) (hq : MindsAll B due' taken' qs) :
    MindsAll B (due ∨ due') (taken ∨ taken') (ps ++ qs) := by
  induction ps generalizing due taken with
  | nil => exact hq.mono (fun h => h.resolve_left hp.1) fun h => h.resolve_left hp.2
  | cons p ps ih =>
      obtain ⟨d₁, d₂, t₁, t₂, hdue, htaken, hp, hps⟩ := hp
      refine ⟨d₁, d₂ ∨ due', t₁, t₂ ∨ taken', ?_, ?_, hp, ih hps⟩
      · grind
      · grind

theorem of_append (h : MindsAll B due taken (ps ++ qs)) : ∃ d₁ d₂ t₁ t₂ : Prop,
    (due → d₁ ∨ d₂) ∧ (taken → t₁ ∨ t₂) ∧ MindsAll B d₁ t₁ ps ∧ MindsAll B d₂ t₂ qs := by
  induction ps generalizing due taken with
  | nil => exact ⟨False, due, False, taken, .inr, .inr, ⟨id, id⟩, h⟩
  | cons p ps ih =>
      obtain ⟨d₁, d₂, t₁, t₂, hdue, htaken, hp, hps⟩ := h
      obtain ⟨x₁, x₂, y₁, y₂, hx, hy, hps, hqs⟩ := ih hps
      refine ⟨d₁ ∨ x₁, x₂, t₁ ∨ y₁, y₂, ?_, ?_, cons hp hps, hqs⟩
      · grind
      · grind

/-- Threads that are done owe nothing. -/
theorem not_of_done (h : MindsAll B due taken ps) (hd : ∀ p ∈ ps, p.Done) : ¬ due ∧ ¬ taken := by
  induction ps generalizing due taken with
  | nil => exact h
  | cons p ps ih =>
      obtain ⟨d₁, d₂, t₁, t₂, hdue, htaken, hp, hps⟩ := h
      obtain ⟨hdp, hdps⟩ := List.forall_mem_cons.mp hd
      obtain ⟨hd₂, ht₂⟩ := ih hps hdps
      have hpnot : ¬ d₁ ∧ ¬ t₁ := by
        cases p with
        | ret r => exact hp
        | halt => exact hp
        | _ => exact hdp.elim
      exact ⟨fun h => (hdue h).elim hpnot.1 hd₂, fun h => (htaken h).elim hpnot.2 ht₂⟩

end MindsAll

/-- What a step of a thread does about the thing. -/
theorem Minds.next {B : Custody S E} {due taken : Prop} {p : Prog S E Empty A R} {s s' : S}
    {es : List E} {ps : List (Prog S E Empty A R)} (hp : Minds B due taken p) (hs : B.inv s)
    (hb : B.bound s) (h : p.next s = some (es, s', ps)) :
    (∃ e ∈ es, B.ends e) ∨ B.inv s' ∧ ∃ due' taken' : Prop,
      (taken → (∃ e ∈ es, B.settles e) ∨ taken') ∧ (B.safe s → B.safe s' ∨ taken') ∧
        (due → B.safe s → due' ∨ taken') ∧ MindsAll B due' taken' ps := by
  cases p with
  | ret r => cases h
  | halt => cases h
  | ask q _ => exact q.elim
  | act f k =>
      obtain ⟨t, ht, hr⟩ := Option.map_eq_some_iff.mp h
      cases hr
      obtain ⟨hinv, d, u, htaken, hsafe, hdue, hk⟩ := hp s s' hs hb ht
      exact .inr ⟨hinv, d, u, fun h => .inr (htaken h), hsafe, hdue, .single hk⟩
  | emit e k =>
      cases h
      rcases hp with hends | ⟨t, htaken, hk⟩
      · -- an event that ends the custody leaves nothing to follow
        exact .inl ⟨e, List.mem_singleton.mpr rfl, hends⟩
      · refine .inr ⟨hs, due, t, fun h => ?_, .inl, fun h _ => .inl h, .single hk⟩
        exact (htaken h).imp_left fun he => ⟨e, List.mem_singleton.mpr rfl, he⟩
  | fork p k =>
      cases h
      obtain ⟨d₁, d₂, t₁, t₂, hdue, htaken, hp, hk⟩ := hp
      refine .inr ⟨hs, due, taken, .inr, .inl, fun h _ => .inl h, ?_⟩
      exact ⟨d₁, d₂, t₁, t₂, hdue, htaken, hp, .single hk⟩

end Prog

/-- Nothing around the threads touches the thing. -/
structure World.Minds {S E A R : Type} (W : World S E A R) (B : Custody S E) : Prop where
  bound : ∀ s, W.bound s → B.bound s
  env_inv : ∀ s s', W.env s s' → B.inv s → B.inv s'
  env_safe : ∀ s s', W.env s s' → B.safe s → B.safe s'
  spawn : ∀ p, W.spawn p → Prog.Minds B False False p

namespace Pool

open Prog

variable {S E A R : Type} {W : World S E A R} {B : Custody S E} {a b c : Pool S E A R}
  {due taken : Prop} {es fs : List E}

/-- What the threads of a pool owe. -/
structure Minded (B : Custody S E) (due taken : Prop) (a : Pool S E A R) : Prop where
  inv : B.inv a.state
  bound : B.bound a.state
  threads : MindsAll B due taken a.threads

theorem Step.minded (hW : W.Minds B) (h : Step W a es b) (ha : a.Minded B due taken) :
    (∃ e ∈ es, B.ends e) ∨ ∃ due' taken' : Prop, b.Minded B due' taken' ∧
      (taken → (∃ e ∈ es, B.settles e) ∨ taken') ∧ (B.safe a.state → B.safe b.state ∨ taken') ∧
        (due → B.safe a.state → due' ∨ taken') := by
  obtain ⟨hinv, hbound, hall⟩ := ha
  cases h with
  | @thread s s' p _ ps l r hn hb =>
      -- the marks of the thread that moves, beside those of the threads that rest
      obtain ⟨d₁, d₂, t₁, t₂, hdue, htaken, hl, x₁, x₂, y₁, y₂, hx, hy, hp, hr⟩ := hall.of_append
      obtain hends | ⟨hinv', d, t, ht, hsafe, hd, hps⟩ := hp.next hinv hbound hn
      · exact .inl hends
      · refine .inr ⟨_, _, ⟨hinv', hW.bound s' hb, hl.append (hps.append hr)⟩, ?_, ?_, ?_⟩
        · grind
        · grind
        · grind
  | @env s s' ts he hb =>
      refine .inr ⟨due, taken, ⟨hW.env_inv s s' he hinv, hW.bound s' hb, hall⟩, .inr, fun h => ?_,
        fun h _ => .inl h⟩
      exact .inl (hW.env_safe s s' he h)
  | spawn ts hp =>
      -- a new thread begins with no mark at all
      refine .inr ⟨due, taken, ⟨hinv, hbound, ?_⟩, .inr, .inl, fun h _ => .inl h⟩
      exact ((MindsAll.cons (hW.spawn _ hp) hall).mono .inr .inr)

/-- Whatever the threads do with other things of the kind, none of them comes to owe this one. -/
theorem Run.minded (hW : W.Minds B) (h : Run W a es b) (ha : a.Minded B False False) :
    (∃ e ∈ es, B.ends e) ∨ b.Minded B False False := by
  induction h with
  | refl => exact .inr ha
  | tail _ hs ih =>
      rcases ih with ⟨e, he, hends⟩ | hb
      · exact .inl ⟨e, List.mem_append_left _ he, hends⟩
      · obtain ⟨e, he, hends⟩ | ⟨d, t, hc, -⟩ := hs.minded hW hb
        · exact .inl ⟨e, List.mem_append_right _ he, hends⟩
        · exact .inr ⟨hc.inv, hc.bound, hc.threads.mono False.elim False.elim⟩

/-- The thing has been taken, or it is there and, if `must`, somebody is due to take it. -/
def Kept (B : Custody S E) (must : Prop) (a : Pool S E A R) : Prop :=
  ∃ due taken : Prop, a.Minded B due taken ∧ (taken ∨ (B.safe a.state ∧ (must → due)))

/-- After a section of one thread, which is due to take the thing from then on. -/
theorem Kept.act {must : Prop} {f : S → Option S} {k : S → Prog S E Empty A R} {s s' : S}
    {l r : List (Prog S E Empty A R)} (h : Kept B must ⟨s, l ++ act f k :: r⟩) (hf : f s = some s')
    (hb : B.bound s') (hk : Minds B True False (k s)) : Kept B True ⟨s', l ++ k s :: r⟩ := by
  obtain ⟨due, taken, ⟨hinv, hbound, hall⟩, howed⟩ := h
  obtain ⟨d₁, d₂, t₁, t₂, -, htaken, hl, x₁, x₂, y₁, y₂, -, hy, hp, hr⟩ := hall.of_append
  obtain ⟨hinv', d, t, ht, hsafe, -, hks⟩ := hp s s' hinv hbound hf
  refine ⟨_, _, ⟨hinv', hb, hl.append (.cons (hks.or hk) hr)⟩, ?_⟩
  dsimp only at howed
  grind

theorem Run.kept {must : Prop} (hW : W.Minds B) (h : Run W a es b) (ha : a.Kept B must) :
    (∃ e ∈ es, B.ends e ∨ B.settles e) ∨ b.Kept B must := by
  induction h with
  | refl => exact .inr ha
  | @tail b c es fs _ hs ih =>
      rcases ih with ⟨e, he, hends⟩ | ⟨due, taken, hb, howed⟩
      · exact .inl ⟨e, List.mem_append_left _ he, hends⟩
      · obtain ⟨e, he, hends⟩ | ⟨d, t, hc, htaken, hsafe, hdue⟩ := hs.minded hW hb
        · exact .inl ⟨e, List.mem_append_right _ he, .inl hends⟩
        · by_cases hsettled : ∃ e ∈ fs, B.settles e
          · obtain ⟨e, he, hsettles⟩ := hsettled
            exact .inl ⟨e, List.mem_append_right _ he, .inr hsettles⟩
          · exact .inr ⟨d, t, hc, by grind⟩

/-- When all threads are done, what was due has been settled. -/
theorem Run.settled (hW : W.Minds B) (h : Run W a es b) (ha : a.Kept B True)
    (hd : ∀ p ∈ b.threads, p.Done) : ∃ e ∈ es, B.ends e ∨ B.settles e := by
  obtain hes | ⟨due, taken, hb, howed⟩ := h.kept hW ha
  · exact hes
  · obtain ⟨hdue, htaken⟩ := hb.threads.not_of_done hd
    rcases howed with ht | ⟨-, hmust⟩
    · exact absurd ht htaken
    · exact absurd (hmust trivial) hdue

end Pool
