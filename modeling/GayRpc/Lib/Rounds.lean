import GayRpc.Lib.Sequel
import GayRpc.Lib.Trace

/-!
# Programs that work in rounds

Some programs do the same piece of work again and again, and it is not known beforehand how often:
how often depends on what comes back, on the state and on the schedule, and the rounds may overlap,
since they run on different threads. All that can be said is that whenever an event opens a round,
the work of one more round is to be shown.

`Workload` says how events are to be read: which of them open a round, and with what work; which of them
show a piece of work; all others are neither. `Owes V env es p` says that `p` has the work `es` left,
where a `none` stands for a question, and that each round it opens on the way is worked off as well. No
more than one thread ever works at a piece. When all threads of a run have come to their end, what has
been shown is a mixture of the work that was there at the start and of the rounds that were opened
(`Run.mixes`); and the threads can always be brought to their end (`exists_run_all_done`), because each
section they come to is enabled in a state that the world may bring about.

`Upholds good breach bad fine p` is about the same kind of program: as long as the answers it gets are
good, and nothing has been shown that is a breach, it shows nothing bad and comes back with something
fine.
-/

/-! ## Mixtures

What several threads show together is a mixture of what each of them shows. `Mixes` takes the first event
off one of the lists, so that it follows a run step by step; the lemmas say that neither the order of the
lists nor empty ones among them matter. -/

/-- `es` is made of the lists in `ls`, mixed, each of them in its order. -/
inductive Mixes {α : Type} : List (List α) → List α → Prop where
  | nil {ls : List (List α)} (h : ∀ l ∈ ls, l = []) : Mixes ls []
  | cons {front rest : List (List α)} {l es : List α} (e : α) (h : Mixes (front ++ l :: rest) es) :
      Mixes (front ++ (e :: l) :: rest) (e :: es)

namespace Mixes

variable {α : Type} {ls ls' : List (List α)} {es : List α}

theorem length_eq (h : Mixes ls es) : es.length = ls.flatten.length := by
  induction h with
  | nil h => rw [List.flatten_eq_nil_iff.mpr h]
  | cons e _ ih =>
      simp only [List.flatten_append, List.flatten_cons, List.length_append, List.length_cons] at ih ⊢
      omega

/-- It does not matter in which order the lists are given. -/
theorem perm (h : Mixes ls es) (hperm : ls.Perm ls') : Mixes ls' es := by
  induction h generalizing ls' with
  | nil h => exact .nil fun l hl => h l (hperm.mem_iff.mpr hl)
  | @cons front rest l es e _ ih =>
      have hmem : e :: l ∈ ls' := hperm.mem_iff.mp (by simp)
      obtain ⟨front', rest', rfl⟩ := List.append_of_mem hmem
      have hothers : (front ++ rest).Perm (front' ++ rest') :=
        ((List.perm_middle.symm.trans hperm).trans List.perm_middle).cons_inv
      refine .cons e (ih ?_)
      exact (List.perm_middle.trans (hothers.cons l)).trans List.perm_middle.symm

/-- Empty lists do not matter either. -/
theorem nil_cons (h : Mixes ls es) : Mixes ([] :: ls) es := by
  induction h with
  | nil h => exact .nil (by simpa using h)
  | @cons front rest l es e _ ih => exact @cons _ ([] :: front) rest l es e ih

theorem of_nil_cons (h : Mixes ([] :: ls) es) : Mixes ls es := by
  generalize hls : [] :: ls = ls' at h
  induction h generalizing ls with
  | nil h =>
      subst hls
      exact .nil (List.forall_mem_cons.mp h).2
  | @cons front rest l es e _ ih =>
      -- the list that begins with `e` is not the empty one
      cases front with
      | nil => cases hls
      | cons l' front =>
          obtain ⟨rfl, rfl⟩ := List.cons.inj hls
          exact .cons e (ih rfl)

@[simp]
theorem single_iff {l : List α} : Mixes [l] es ↔ es = l := by
  constructor
  · intro h
    generalize hls : [l] = ls at h
    induction h generalizing l with
    | nil h =>
        subst hls
        exact (h l (List.mem_singleton.mpr rfl)).symm
    | @cons front rest l' es e _ ih =>
        rcases List.singleton_eq_append_iff.mp hls with ⟨rfl, hrest⟩ | ⟨-, hmore⟩
        · obtain ⟨rfl, rfl⟩ := List.cons.inj hrest
          rw [ih rfl]
        · cases hmore
  · rintro rfl
    induction es with
    | nil => exact .nil (by simp)
    | cons e es ih => exact @cons _ [] [] es es e ih

end Mixes

/-! ## Work that is owed

`Owes` is put together by `bind` and `plug` as `Emits` is, and a program with a determined trace owes its
trace (`Emits.owes`). What is new is that an event may open a round: then the program has the work of that
round to do besides, on the same thread or on another one. -/

/-- How the events of a program are read: the piece of work an event shows, if any, and the work of the
round it opens, if it opens one. -/
structure Workload (E B : Type) where
  shows : E → Option B
  opens : E → Option (List B)

namespace Prog

variable {S T E B Q A R Q' A' R' : Type}

inductive Owes (V : Workload E B) (env : S → S → Prop) : List (Option B) → Prog S E Q A R → Prop where
  | ret (r : R) : Owes V env [] (ret r)
  | halt : Owes V env [] halt
  | ask {es : List (Option B)} (q : Q) {k : A → Prog S E Q A R} (h : ∀ a, Owes V env es (k a)) :
      Owes V env (none :: es) (ask q k)
  | act {es : List (Option B)} {f : S → Option S} {k : S → Prog S E Q A R}
      (enabled : ∀ s, ∃ s', env s s' ∧ (f s').isSome) (h : ∀ s, (f s).isSome → Owes V env es (k s)) :
      Owes V env es (act f k)
  /-- an event that says nothing about the work -/
  | aside {es : List (Option B)} {e : E} {k : Prog S E Q A R} (hs : V.shows e = none)
      (ho : V.opens e = none) (h : Owes V env es k) : Owes V env es (emit e k)
  | shown {es : List (Option B)} {e : E} {b : B} {k : Prog S E Q A R} (hs : V.shows e = some b)
      (ho : V.opens e = none) (h : Owes V env es k) : Owes V env (some b :: es) (emit e k)
  /-- a thread opens a round when it has nothing else to do -/
  | opened {e : E} {l : List B} {k : Prog S E Q A R} (hs : V.shows e = none) (ho : V.opens e = some l)
      (h : Owes V env (l.map some) k) : Owes V env [] (emit e k)
  /-- the thread that is started does the work -/
  | left {es : List (Option B)} {p k : Prog S E Q A R} (hp : Owes V env es p) (hk : Owes V env [] k) :
      Owes V env es (fork p k)
  /-- the thread that is started has none to do -/
  | right {es : List (Option B)} {p k : Prog S E Q A R} (hp : Owes V env [] p) (hk : Owes V env es k) :
      Owes V env es (fork p k)

namespace Owes

variable {V : Workload E B} {env : S → S → Prop} {es hs : List (Option B)} {u : List B}
  {p : Prog S E Q A R}

/-- What owes nothing may come after anything. -/
theorem bind {k : R → Prog S E Q A R'} (hp : Owes V env es p) (hk : ∀ r, Owes V env [] (k r)) :
    Owes V env es (p.bind k) := by
  induction hp generalizing R' with
  | ret r => exact hk r
  | halt => exact .halt
  | ask q _ ih => exact .ask q fun a => ih a hk
  | act enabled _ ih => exact .act enabled fun s hs => ih s hs hk
  | aside hs ho _ ih => exact .aside hs ho (ih hk)
  | shown hs ho _ ih => exact .shown hs ho (ih hk)
  | opened hs ho _ ih => exact .opened hs ho (ih hk)
  | left _ _ ihp ihk => exact .left (ihp fun _ => .halt) (ihk hk)
  | right _ _ ihp ihk => exact .right (ihp fun _ => .halt) (ihk hk)

section plug

variable {h : Q → Prog S E Q' A' A}

/-- Who asks nothing has the same work left, whoever would have answered. -/
theorem plug_some (hp : Owes V env (u.map some) p) :
    Owes V env (u.map some) (p.plug (fun _ => h) id ()) := by
  generalize hes : u.map some = es at hp
  induction hp generalizing u with
  | ret r => exact .ret r
  | halt => exact .halt
  | ask q _ _ => cases u <;> simp at hes
  | act enabled _ ih => exact .act enabled fun s hs => ih s hs hes
  | aside hs ho _ ih => exact .aside hs ho (ih hes)
  | shown hs ho _ ih =>
      cases u with
      | nil => simp at hes
      | cons b u => exact .shown hs ho (ih (List.cons.inj hes).2)
  | opened hs ho _ ih => exact .opened hs ho (ih rfl)
  | left _ _ ihp ihk => exact .left (ihp hes) (ihk (u := []) rfl)
  | right _ _ ihp ihk => exact .right (ihp (u := []) rfl) (ihk hes)

/-- Who asks at the end of its work has the work of the answer left after it. -/
theorem plug (hh : ∀ q, Owes V env hs (h q)) (hp : Owes V env (u.map some ++ [none]) p) :
    Owes V env (u.map some ++ hs) (p.plug (fun _ => h) id ()) := by
  generalize hes : u.map some ++ [none] = es at hp
  induction hp generalizing u with
  | ret r => simp at hes
  | halt => simp at hes
  | ask q hk _ =>
      cases u with
      | nil =>
          obtain rfl := (List.cons.inj hes).2
          -- the one unknown event of the part is the question, where the host takes over
          exact (hh q).bind fun a => plug_some (u := []) (hk a)
      | cons b u => simp at hes
  | act enabled _ ih => exact .act enabled fun s hs' => ih s hs' hes
  | aside hs ho _ ih => exact .aside hs ho (ih hes)
  | shown hs ho _ ih =>
      cases u with
      | nil => simp at hes
      | cons b' u =>
          -- an event that is shown is the next one expected of the whole
          obtain ⟨hb, hrest⟩ := List.cons.inj hes
          obtain rfl := Option.some.inj hb
          exact .shown hs ho (ih hrest)
  | opened hs ho _ _ => simp at hes
  | left _ hk ihp _ => exact .left (ihp hes) (plug_some (u := []) hk)
  | right hp _ _ ihk => exact .right (plug_some (u := []) hp) (ihk hes)

end plug

section lift

variable {get : S → T} {set : S → T → S}

/-- A program that shows nothing of its own asks the same questions of a larger state, as long as the
world may set its part of it. -/
theorem of_emits (hget : ∀ s t, get (set s t) = t) (henv : ∀ s t, env s (set s t)) {n : ℕ}
    {p : Prog T Empty Q A R} (hp : Emits (List.replicate n none) p) :
    Owes V env (List.replicate n none) (p.lift get set : Prog S E Q A R) := by
  -- every event of the part is a question of the whole, so there are only unknown ones
  generalize hes : List.replicate n none = es at hp
  induction hp generalizing n with
  | ret r =>
      cases n with
      | zero => exact .ret r
      | succ n => cases hes
  | halt =>
      cases n with
      | zero => exact .halt
      | succ n => cases hes
  | ask q _ ih =>
      cases n with
      | zero => cases hes
      | succ n => exact .ask q fun a => ih a (List.cons.inj hes).2
  | act enabled _ ih =>
      obtain ⟨t, ht⟩ := enabled
      refine .act (fun s => ⟨set s t, henv s t, ?_⟩) fun s' hs' => ih (get s') (by simpa using hs') hes
      simpa [hget] using ht
  | emit e _ _ => exact e.elim
  | left _ _ ihp ihk => exact .left (ihp hes) (ihk (n := 0) rfl)
  | right _ _ ihp ihk => exact .right (ihp (n := 0) rfl) (ihk hes)

end lift

end Owes

/-- Where each event is a piece of work, and no round is ever opened. -/
def Workload.trace : Workload E E where
  shows := some
  opens _ := none

/-- A program with a determined trace has that trace to work off. -/
theorem Emits.owes {es : List (Option E)} {p : Prog S E Q A R} (hp : Emits es p) :
    Owes Workload.trace (fun _ _ => True) es p := by
  induction hp with
  | ret r => exact .ret r
  | halt => exact .halt
  | ask q _ ih => exact .ask q ih
  | act enabled _ ih =>
      obtain ⟨t, ht⟩ := enabled
      exact .act (fun _ => ⟨t, trivial, ht⟩) ih
  | emit e _ ih => exact .shown rfl rfl ih
  | left _ _ ihp ihk => exact .left ihp ihk
  | right _ _ ihp ihk => exact .right ihp ihk

/-- Each section that the program comes to is enabled in some state. -/
def Wakes : Prog S E Q A R → Prop
  | ret _ => True
  | halt => True
  | ask _ k => ∀ a, (k a).Wakes
  | act f k => (∃ s, (f s).isSome) ∧ ∀ s, (f s).isSome → (k s).Wakes
  | emit _ k => k.Wakes
  | fork p k => p.Wakes ∧ k.Wakes

/-- Whoever asks questions that open rounds owes nothing but these, however many there are. -/
theorem Wakes.owes {V : Workload E B} {env : S → S → Prop} {get : S → T} {set : S → T → S}
    (hget : ∀ s t, get (set s t) = t) (henv : ∀ s t, env s (set s t)) {h : Q → Prog S E Q' A' A}
    (hh : ∀ q, Owes V env [] (h q)) {p : Prog T Empty Q A R} (hp : p.Wakes) :
    Owes V env [] ((p.lift get set : Prog S E Q A R).plug (fun _ => h) id ()) := by
  induction p with
  | ret r => exact .ret r
  | halt => exact .halt
  | ask q k ih => exact (hh q).bind fun a => ih a (hp a)
  | act f k ih =>
      obtain ⟨⟨t, ht⟩, hk⟩ := hp
      refine .act (fun s => ⟨set s t, henv s t, ?_⟩) fun s' hs' => ih (get s') (hk _ (by simpa using hs'))
      simpa [hget] using ht
  | emit e k _ => exact e.elim
  | fork p k ihp ihk => exact .left (ihp hp.1) (ihk hp.2)

theorem Owes.eq_nil_of_done {V : Workload E B} {env : S → S → Prop} {es : List (Option B)}
    {p : Prog S E Q A R} (hp : Owes V env es p) (hd : p.Done) : es = [] := by
  cases hp with
  | ret => rfl
  | halt => rfl
  | _ => exact hd.elim

abbrev OwesAll (V : Workload E B) (env : S → S → Prop) :
    List (List B) → List (Prog S E Q A R) → Prop :=
  List.Forall₂ fun l p => Owes V env (l.map some) p

variable {V : Workload E B} {env : S → S → Prop} {es fs : List E} {ls ls' : List (List B)} {l : List B}

/-- What has happened while the work `ls` became the work `ls'`: what was shown, mixed with what will be
shown of `ls'` and of any other work, is a mixture of `ls`, of the rounds that were opened and of that other
work. -/
def WorkedOff (V : Workload E B) (ls : List (List B)) (es : List E) (ls' : List (List B)) : Prop :=
  ∀ others more, Mixes (ls' ++ others) more →
    Mixes (ls ++ (es.filterMap V.opens ++ others)) (es.filterMap V.shows ++ more)

theorem WorkedOff.refl : WorkedOff V ls [] ls := fun _ _ h => h

theorem WorkedOff.trans {ls'' : List (List B)} (h : WorkedOff V ls es ls') (h' : WorkedOff V ls' fs ls'') :
    WorkedOff V ls (es ++ fs) ls'' := by
  intro others more hmore
  rw [List.filterMap_append, List.filterMap_append, List.append_assoc, List.append_assoc]
  exact h _ _ (h' others more hmore)

/-- Work of other threads lies beside it. -/
theorem WorkedOff.frame (h : WorkedOff V ls es ls') (front rest : List (List B)) :
    WorkedOff V (front ++ (ls ++ rest)) es (front ++ (ls' ++ rest)) := by
  intro others more hmore
  have hbefore : (front ++ (ls' ++ rest) ++ others).Perm (ls' ++ (front ++ rest ++ others)) := by
    simp only [List.append_assoc]
    exact List.perm_append_comm_assoc _ _ _
  have hafter : (ls ++ (es.filterMap V.opens ++ (front ++ rest ++ others))).Perm
      (front ++ (ls ++ rest) ++ (es.filterMap V.opens ++ others)) := by
    simp only [List.append_assoc]
    refine (List.Perm.append_left ls (List.perm_append_comm_assoc _ _ _)).trans ?_
    refine (List.perm_append_comm_assoc _ _ _).trans (List.Perm.append_left front ?_)
    exact List.Perm.append_left ls (List.perm_append_comm_assoc _ _ _)
  exact (h _ _ (hmore.perm hbefore)).perm hafter

/-- A step of a thread works at what the thread has left. -/
theorem Owes.next {p : Prog S E Empty A R} {s s' : S} {ps : List (Prog S E Empty A R)}
    (hp : Owes V env (l.map some) p) (h : p.next s = some (es, s', ps)) :
    ∃ ls', OwesAll V env ls' ps ∧ WorkedOff V [l] es ls' := by
  generalize hes : l.map some = fs at hp
  cases hp with
  | ret r => cases h
  | halt => cases h
  | ask q _ => exact q.elim
  | @act _ f k _ hk =>
      obtain ⟨t, ht, hr⟩ := Option.map_eq_some_iff.mp h
      cases hr
      refine ⟨[l], .cons ?_ .nil, .refl⟩
      rw [hes]
      exact hk s (by simp [ht])
  | aside hs ho hk =>
      cases h
      refine ⟨[l], .cons (hes ▸ hk) .nil, fun others more hmore => ?_⟩
      simpa [hs, ho] using hmore
  | @shown rest e b k hs ho hk =>
      cases h
      cases l with
      | nil => cases hes
      | cons b' l =>
          obtain ⟨hb, rfl⟩ := List.cons.inj hes
          obtain rfl := Option.some.inj hb
          refine ⟨[l], .cons hk .nil, fun others more hmore => ?_⟩
          simpa [hs, ho] using @Mixes.cons _ [] _ _ _ b' hmore
  | @opened e round k hs ho hk =>
      cases h
      obtain rfl := List.map_eq_nil_iff.mp hes
      refine ⟨[round], .cons hk .nil, fun others more hmore => ?_⟩
      simpa [hs, ho] using hmore.nil_cons
  | left hp hk =>
      cases h
      -- the rounds go to one of the two threads; the other owes none, which changes no mixture
      refine ⟨[l, []], .cons (hes ▸ hp) (.cons hk .nil), fun others more hmore => ?_⟩
      exact (hmore.perm (List.Perm.swap [] l others)).of_nil_cons
  | right hp hk =>
      cases h
      exact ⟨[[], l], .cons hp (.cons (hes ▸ hk) .nil), fun others more hmore => hmore.of_nil_cons⟩

theorem OwesAll.of_append {ps qs : List (Prog S E Q A R)} (h : OwesAll V env ls (ps ++ qs)) :
    ∃ ls₁ ls₂, ls = ls₁ ++ ls₂ ∧ OwesAll V env ls₁ ps ∧ OwesAll V env ls₂ qs :=
  ⟨_, _, (List.take_append_drop ps.length ls).symm, List.forall₂_take_append ls ps qs h,
    List.forall₂_drop_append ls ps qs h⟩

theorem OwesAll.eq_nil_of_done {ps : List (Prog S E Q A R)} (h : OwesAll V env ls ps)
    (hd : ∀ p ∈ ps, p.Done) : ∀ l ∈ ls, l = [] := by
  induction h with
  | nil => simp
  | cons hp _ ih =>
      obtain ⟨hdp, hdps⟩ := List.forall_mem_cons.mp hd
      exact List.forall_mem_cons.mpr ⟨List.map_eq_nil_iff.mp (hp.eq_nil_of_done hdp), ih hdps⟩

/-! ## Good answers -/

/-- As long as the answers are good, and nothing has been shown that is a breach, nothing bad is shown and
what comes back is fine. -/
def Upholds (good : A → Prop) (breach bad : E → Prop) : (R → Prop) → Prog S E Q A R → Prop
  | fine, ret r => fine r
  | _, halt => True
  | fine, ask _ k => ∀ a, good a → Upholds good breach bad fine (k a)
  | fine, act f k => ∀ s, (f s).isSome → Upholds good breach bad fine (k s)
  | fine, emit e k => breach e ∨ (¬ bad e ∧ Upholds good breach bad fine k)
  | fine, fork p k => Upholds good breach bad (fun _ => True) p ∧ Upholds good breach bad fine k

namespace Upholds

variable {good : A → Prop} {good' : A' → Prop} {breach bad : E → Prop} {fine : R → Prop}
  {fine' : R' → Prop} {p : Prog S E Q A R}

theorem bind {k : R → Prog S E Q A R'} (hp : Upholds good breach bad fine p)
    (hk : ∀ r, fine r → Upholds good breach bad fine' (k r)) :
    Upholds good breach bad fine' (p.bind k) := by
  induction p generalizing fine R' fine' with
  | ret r => exact hk r hp
  | halt => trivial
  | ask q c ih => exact fun a ha => ih a (hp a ha) hk
  | act f c ih => exact fun s hs => ih s (hp s hs) hk
  | emit e c ih => exact hp.imp_right fun ⟨he, hc⟩ => ⟨he, ih hc hk⟩
  | fork p c ihp ihc =>
      have hhalt : ∀ r : R, True → Upholds good breach bad (fun _ : R' => True) (halt : Prog S E Q A R') :=
        fun _ _ => trivial
      exact ⟨ihp hp.1 hhalt, ihc hp.2 hk⟩

theorem plug {h : Q → Prog S E Q' A' A} (hp : Upholds good breach bad fine p)
    (hh : ∀ q, Upholds good' breach bad good (h q)) :
    Upholds good' breach bad fine (p.plug (fun _ => h) id ()) := by
  induction p generalizing fine with
  | ret r => exact hp
  | halt => trivial
  | ask q k ih => exact (hh q).bind fun a ha => ih a (hp a ha)
  | act f k ih => exact fun s hs => ih s (hp s hs)
  | emit e k ih => exact hp.imp_right fun ⟨he, hk⟩ => ⟨he, ih hk⟩
  | fork p k ihp ihk => exact ⟨ihp hp.1, ihk hp.2⟩

/-- What a program that shows nothing upholds in its part of the state, it upholds in the whole. -/
theorem lift {get : S → T} {set : S → T → S} {b b' : Empty → Prop} {p : Prog T Empty Q A R}
    (hp : Upholds good b b' fine p) :
    Upholds good breach bad fine (p.lift get set : Prog S E Q A R) := by
  induction p generalizing fine with
  | ret r => exact hp
  | halt => trivial
  | ask q k ih => exact fun a ha => ih a (hp a ha)
  | act f k ih => exact fun s hs => ih (get s) (hp (get s) (by simpa using hs))
  | emit e k _ => exact e.elim
  | fork p k ihp ihk => exact ⟨ihp hp.1, ihk hp.2⟩

end Upholds

/-- A step of a thread shows a breach, or nothing bad, and then the threads it goes on as uphold the
same. -/
theorem Upholds.next {good : A → Prop} {breach bad : E → Prop} {fine : R → Prop}
    {p : Prog S E Empty A R} {s s' : S} {ps : List (Prog S E Empty A R)}
    (hp : Upholds good breach bad fine p) (h : p.next s = some (es, s', ps)) :
    (∃ e ∈ es, breach e) ∨
      (∀ e ∈ es, ¬ bad e) ∧ ∀ q ∈ ps, ∃ fine, Upholds good breach bad fine q := by
  cases p with
  | ret r => cases h
  | halt => cases h
  | ask q k => exact q.elim
  | act f k =>
      obtain ⟨t, ht, hr⟩ := Option.map_eq_some_iff.mp h
      cases hr
      exact .inr ⟨by simp, by simpa using ⟨fine, hp s (by simp [ht])⟩⟩
  | emit e k =>
      cases h
      -- the breach is this very event, or it has not come yet
      rcases hp with hbreach | ⟨he, hk⟩
      · exact .inl ⟨e, by simp, hbreach⟩
      · exact .inr ⟨by simpa using he, by simpa using ⟨fine, hk⟩⟩
  | fork p k =>
      cases h
      refine .inr ⟨by simp, ?_⟩
      simpa using And.intro ⟨_, hp.1⟩ ⟨fine, hp.2⟩

end Prog

namespace Pool

open Prog

variable {S E A R B : Type} {V : Workload E B} {env : S → S → Prop} {a b : Pool S E A R} {es : List E}
  {ls : List (List B)}

theorem Step.worked_off (h : Step (World.drifting env) a es b) (ha : OwesAll V env ls a.threads) :
    ∃ ls', OwesAll V env ls' b.threads ∧ WorkedOff V ls es ls' := by
  cases h with
  | thread l r hn _ =>
      obtain ⟨front, ls, rfl, hl, hpr⟩ := ha.of_append
      obtain ⟨work, rest, hp, hr, rfl⟩ := List.forall₂_cons_right_iff.mp hpr
      obtain ⟨ls', hps, hwork⟩ := hp.next hn
      exact ⟨_, List.rel_append hl (List.rel_append hps hr), hwork.frame front rest⟩
  | env ts _ _ => exact ⟨ls, ha, .refl⟩
  | spawn ts h => exact h.elim

theorem Run.worked_off (h : Run (World.drifting env) a es b) (ha : OwesAll V env ls a.threads) :
    ∃ ls', OwesAll V env ls' b.threads ∧ WorkedOff V ls es ls' := by
  induction h with
  | refl => exact ⟨ls, ha, .refl⟩
  | tail _ hs ih =>
      obtain ⟨ls', hb, hwork⟩ := ih
      obtain ⟨ls'', hc, hstep⟩ := hs.worked_off hb
      exact ⟨ls'', hc, hwork.trans hstep⟩

/-- When all threads have come to their end, the work of the start and the rounds that were opened have
been shown, mixed, and no other work. -/
theorem Run.mixes (h : Run (World.drifting env) a es b) (ha : OwesAll V env ls a.threads)
    (hd : ∀ p ∈ b.threads, p.Done) : Mixes (ls ++ es.filterMap V.opens) (es.filterMap V.shows) := by
  obtain ⟨ls', hb, hwork⟩ := h.worked_off ha
  have hnothing := hb.eq_nil_of_done hd
  have hmixes := hwork [] [] (.nil (by simpa using hnothing))
  simpa using hmixes

/-- Two threads beside each other can be run to their ends if each of them can. -/
theorem exists_run_pair {p k : Prog S E Empty A R}
    (hp : ∀ s l r, ∃ fs s' ds,
      Run (World.drifting env) ⟨s, l ++ p :: r⟩ fs ⟨s', l ++ (ds ++ r)⟩ ∧ ∀ d ∈ ds, d.Done)
    (hk : ∀ s l r, ∃ fs s' ds,
      Run (World.drifting env) ⟨s, l ++ k :: r⟩ fs ⟨s', l ++ (ds ++ r)⟩ ∧ ∀ d ∈ ds, d.Done)
    (s : S) (l r : List (Prog S E Empty A R)) :
    ∃ fs s' ds, Run (World.drifting env) ⟨s, l ++ .fork p k :: r⟩ fs ⟨s', l ++ (ds ++ r)⟩ ∧
      ∀ d ∈ ds, d.Done := by
  obtain ⟨fs, s', ds, hrun, hds⟩ := hp s l (k :: r)
  obtain ⟨fs', s'', ds', hrun', hds'⟩ := hk s' (l ++ ds) r
  refine ⟨fs ++ fs', s'', ds ++ ds', ?_, List.forall_mem_append.mpr ⟨hds, hds'⟩⟩
  simp only [List.append_assoc] at hrun hrun' ⊢
  exact .silent (.fork l r trivial) (hrun.trans hrun')

/-- A thread can be run to its end, and with it all threads it starts. -/
theorem exists_run_done {ws : List (Option B)} {p : Prog S E Empty A R} (hp : Owes V env ws p) (s : S)
    (l r : List (Prog S E Empty A R)) :
    ∃ fs s' ds, Run (World.drifting env) ⟨s, l ++ p :: r⟩ fs ⟨s', l ++ (ds ++ r)⟩ ∧ ∀ d ∈ ds, d.Done := by
  induction hp generalizing s l r with
  | ret x => exact ⟨[], s, [.ret x], .refl, by simp [Done]⟩
  | halt => exact ⟨[], s, [.halt], .refl, by simp [Done]⟩
  | ask q _ _ => exact q.elim
  | act enabled _ ih =>
      -- the environment brings about a state in which the section is enabled
      obtain ⟨t, henv, ht⟩ := enabled s
      obtain ⟨t', ht'⟩ := Option.isSome_iff_exists.mp ht
      obtain ⟨fs, s', ds, hrun, hds⟩ := ih t ht t' l r
      exact ⟨fs, s', ds, .silent (.env _ henv trivial) (.silent (.act l r ht' trivial) hrun), hds⟩
  | aside _ _ _ ih =>
      obtain ⟨fs, s', ds, hrun, hds⟩ := ih s l r
      exact ⟨_, s', ds, hrun.head (.emit l r _ trivial), hds⟩
  | shown _ _ _ ih =>
      obtain ⟨fs, s', ds, hrun, hds⟩ := ih s l r
      exact ⟨_, s', ds, hrun.head (.emit l r _ trivial), hds⟩
  | opened _ _ _ ih =>
      obtain ⟨fs, s', ds, hrun, hds⟩ := ih s l r
      exact ⟨_, s', ds, hrun.head (.emit l r _ trivial), hds⟩
  | @left _ p k _ _ ihp ihk => exact exists_run_pair ihp ihk s l r
  | @right _ p k _ _ ihp ihk => exact exists_run_pair ihp ihk s l r

/-- So can all threads of a pool. -/
theorem exists_run_all_done {ts : List (Prog S E Empty A R)} (h : OwesAll V env ls ts) (s : S)
    (l : List (Prog S E Empty A R)) :
    ∃ fs s' ds, Run (World.drifting env) ⟨s, l ++ ts⟩ fs ⟨s', l ++ ds⟩ ∧ ∀ d ∈ ds, d.Done := by
  induction h generalizing s l with
  | nil => exact ⟨[], s, [], .refl, by simp⟩
  | @cons w p ls ts hp _ ih =>
      obtain ⟨fs, s', ds, hrun, hds⟩ := exists_run_done hp s l ts
      obtain ⟨fs', s'', ds', hrun', hds'⟩ := ih s' (l ++ ds)
      refine ⟨fs ++ fs', s'', ds ++ ds', ?_, List.forall_mem_append.mpr ⟨hds, hds'⟩⟩
      simp only [List.append_assoc] at hrun'
      exact hrun.trans hrun'

/-- What holds of what a program shows holds of every run that is over, since there are such runs. -/
theorem emits_done_iff {es : List E} {p : Prog S E Empty A R} (hp : Emits (es.map some) p) (s : S)
    (P : List E → Prop) :
    (∀ fs b, Run World.interfering ⟨s, [p]⟩ fs b → (∀ q ∈ b.threads, q.Done) → P fs) ↔ P es := by
  have hall : OwesAll Workload.trace (fun _ _ => True) [es] [p] := .cons hp.owes .nil
  have hshown : ∀ {fs b}, Run (World.drifting fun _ _ : S => True) ⟨s, [p]⟩ fs b →
      (∀ q ∈ b.threads, q.Done) → fs = es := by
    intro fs b hrun hdone
    have hmixes := hrun.mixes hall hdone
    simpa [Workload.trace] using hmixes
  constructor
  · intro h
    obtain ⟨fs, s', ds, hrun, hds⟩ := exists_run_done hp.owes s [] []
    have hdone : ∀ d ∈ ds ++ [], d.Done := by simpa using hds
    rw [← hshown hrun hdone]
    exact h fs _ hrun hdone
  · intro h fs b hrun hdone
    rwa [hshown hrun hdone]

/-- As long as no breach is shown, nothing bad is. -/
theorem Run.upholds {good : A → Prop} {breach bad : E → Prop} (h : Run (World.drifting env) a es b)
    (ha : ∀ p ∈ a.threads, ∃ fine, Upholds good breach bad fine p) (hes : ∀ e ∈ es, ¬ breach e) :
    (∀ e ∈ es, ¬ bad e) ∧ ∀ p ∈ b.threads, ∃ fine, Upholds good breach bad fine p := by
  induction h with
  | refl => exact ⟨by simp, ha⟩
  | tail _ hs ih =>
      obtain ⟨hbefore, hnow⟩ := List.forall_mem_append.mp hes
      obtain ⟨hnone, hb⟩ := ih hbefore
      cases hs with
      | thread l r hn _ =>
          obtain ⟨hl, hpr⟩ := List.forall_mem_append.mp hb
          obtain ⟨⟨fine, hp⟩, hr⟩ := List.forall_mem_cons.mp hpr
          rcases hp.next hn with ⟨e, he, hbreach⟩ | ⟨hfs, hps⟩
          · exact absurd hbreach (hnow e he)
          · refine ⟨List.forall_mem_append.mpr ⟨hnone, hfs⟩, ?_⟩
            exact List.forall_mem_append.mpr ⟨hl, List.forall_mem_append.mpr ⟨hps, hr⟩⟩
      | env ts _ _ => exact ⟨by simpa using hnone, hb⟩
      | spawn ts h => exact h.elim

end Pool
