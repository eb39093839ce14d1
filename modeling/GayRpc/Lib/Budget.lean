import GayRpc.Lib.Guarantee
import GayRpc.Lib.Wraps
import Mathlib.Algebra.Ring.Nat

/-!
# Budgets

The potential method, for programs that run side by side. A `Budget` puts a cost on events and a
potential on states. `Affords B c n p`: the program `p` can pay for everything it shows, and `c` for
every question it asks, out of the `n` units it owns and of what its own steps take out of the
potential. Whatever a thread leaves in the state, another thread may pick up.

That is how "at most once" is proved of code that hands a right from one thread to another. The right
is a unit. It is in the state as long as a map has an entry, it belongs to the thread that has taken the
entry out, and the event in question costs it. No invariant has to say who holds it:

    section takes the entry    potential falls by one, the program owns one more
    program shows the event    the program owns one less
    section enters the entry   potential rises by one, the program owns one less

The rules follow the program: `bind` and `plug` split what is owned between the parts, `lift` and
`within` carry a budget to a larger state, `elsewhere` says that a program on another part costs nothing.

If the programs of a pool can afford what they do, and what happens around them is free (`World.Free`),
a run never costs more than the pool was worth at the start (`Run.cost_le`), whatever the interleaving.
-/

structure Budget (S E : Type) where
  /-- what every step keeps -/
  inv : S → Prop
  /-- where the steps under consideration end -/
  bound : S → Prop
  potential : S → ℕ
  cost : E → ℕ

/-- Only questions cost something. -/
def Budget.questions {S E : Type} : Budget S E where
  inv _ := True
  bound _ := True
  potential _ := 0
  cost _ := 0

/-- The same budget with other costs, also of other events. -/
def Budget.charging {S E F : Type} (B : Budget S E) (cost : F → ℕ) : Budget S F where
  inv := B.inv
  bound := B.bound
  potential := B.potential
  cost := cost

namespace Prog

variable {S T E F Q A R Q' A' R' : Type}

def Affords (B : Budget S E) (c : ℕ) : ℕ → Prog S E Q A R → Prop
  | _, ret _ => True
  | _, halt => True
  | n, ask _ k => ∃ m, c + m ≤ n ∧ ∀ a, Affords B c m (k a)
  | n, act f k => ∀ s s', B.inv s → B.bound s' → f s = some s' →
      B.inv s' ∧ ∃ m, m + B.potential s' ≤ n + B.potential s ∧ Affords B c m (k s)
  | n, emit e k => ∃ m, B.cost e + m ≤ n ∧ Affords B c m k
  | n, fork p k => ∃ a b, a + b ≤ n ∧ Affords B c a p ∧ Affords B c b k

namespace Affords

variable {B : Budget S E} {c c' n m : ℕ} {p : Prog S E Q A R}

theorem mono (h : Affords B c n p) (hle : n ≤ m) : Affords B c m p := by
  cases p with
  | ret r => trivial
  | halt => trivial
  | ask q k =>
      obtain ⟨a, ha, hk⟩ := h
      exact ⟨a, by omega, hk⟩
  | act f k =>
      intro s s' hs hs' hf
      obtain ⟨hinv, a, ha, hk⟩ := h s s' hs hs' hf
      exact ⟨hinv, a, by omega, hk⟩
  | emit e k =>
      obtain ⟨a, ha, hk⟩ := h
      exact ⟨a, by omega, hk⟩
  | fork p k =>
      obtain ⟨a, b, hab, hp, hk⟩ := h
      exact ⟨a, b, by omega, hp, hk⟩

theorem bind {k : R → Prog S E Q A R'} (hp : Affords B c n p) (hk : ∀ r, Affords B c m (k r)) :
    Affords B c (n + m) (p.bind k) := by
  induction p generalizing n m R' with
  | ret r => exact (hk r).mono (by omega)
  | halt => trivial
  | ask q p ih =>
      obtain ⟨a, ha, hp⟩ := hp
      exact ⟨a + m, by omega, fun x => ih x (hp x) hk⟩
  | act f p ih =>
      intro s s' hs hs' hf
      obtain ⟨hinv, a, ha, hp⟩ := hp s s' hs hs' hf
      exact ⟨hinv, a + m, by omega, ih s hp hk⟩
  | emit e p ih =>
      obtain ⟨a, ha, hp⟩ := hp
      exact ⟨a + m, by omega, ih hp hk⟩
  | fork p q ihp ihq =>
      obtain ⟨a, b, hab, hp, hq⟩ := hp
      refine ⟨a, b + m, by omega, ?_, ihq hq hk⟩
      -- the forked part is not followed by `k`; nothing is what a thread that halts may spend
      have hhalt : Affords B c 0 (halt : Prog S E Q A R') := trivial
      exact ihp hp fun _ => hhalt

/-- The answers are paid for by what the questions cost. -/
theorem plug {M : Type} {h : M → Q → Prog S E Q' A' A} {step : M → M} {x : M}
    (hp : Affords B c n p) (hh : ∀ x q, Affords B c' c (h x q)) :
    Affords B c' n (p.plug h step x) := by
  induction p generalizing n x with
  | ret r => trivial
  | halt => trivial
  | ask q p ih =>
      obtain ⟨a, ha, hp⟩ := hp
      exact ((hh x q).bind fun y => ih y (hp y)).mono ha
  | act f p ih =>
      intro s s' hs hs' hf
      obtain ⟨hinv, a, ha, hp⟩ := hp s s' hs hs' hf
      exact ⟨hinv, a, ha, ih s hp⟩
  | emit e p ih =>
      obtain ⟨a, ha, hp⟩ := hp
      exact ⟨a, ha, ih hp⟩
  | fork p q ihp ihq =>
      obtain ⟨a, b, hab, hp, hq⟩ := hp
      exact ⟨a, b, hab, ihp hp, ihq hq⟩

/-- A program on a part of the state that neither the invariant nor the potential looks at pays for
its questions only. -/
theorem lift {get : S → T} {set : S → T → S} {p : Prog T Empty Q A R}
    (hinv : ∀ s t, B.inv s → B.inv (set s t)) (hpot : ∀ s t, B.potential (set s t) = B.potential s)
    (hp : Affords Budget.questions c n p) : Affords B c n (p.lift get set : Prog S E Q A R) := by
  induction p generalizing n with
  | ret r => trivial
  | halt => trivial
  | ask q p ih =>
      obtain ⟨a, ha, hp⟩ := hp
      exact ⟨a, ha, fun y => ih y (hp y)⟩
  | act f p ih =>
      intro s s' hs _ hf
      -- what the section writes back is a part that the potential does not depend on
      obtain ⟨t, ht, rfl⟩ := Option.map_eq_some_iff.mp hf
      obtain ⟨-, a, ha, hp⟩ := hp (get s) t trivial trivial ht
      refine ⟨hinv s t hs, a, ?_, ih (get s) hp⟩
      rw [hpot]
      exact Nat.add_le_add_right ha _
  | emit e _ _ => exact e.elim
  | fork p q ihp ihq =>
      obtain ⟨a, b, hab, hp, hq⟩ := hp
      exact ⟨a, b, hab, ihp hp, ihq hq⟩

/-- A program on a part of the state where its own budget is kept. -/
theorem within {B' : Budget T F} {get : S → T} {set : S → T → S} {tag : F → E} {p : Prog T F Q A R}
    (hinv : ∀ s, B.inv s → B'.inv (get s)) (hset : ∀ s t, B.inv s → B'.inv t → B.inv (set s t))
    (hbound : ∀ s t, B.bound (set s t) → B'.bound t)
    (hpot : ∀ s, B.potential s = B'.potential (get s))
    (hpot' : ∀ s t, B.potential (set s t) = B'.potential t) (hcost : ∀ e, B.cost (tag e) ≤ B'.cost e)
    (hp : Affords B' c n p) :
    Affords B c n (p.within (fun s => some (get s)) set tag : Prog S E Q A R) := by
  induction p generalizing n with
  | ret r => trivial
  | halt => trivial
  | ask q p ih =>
      obtain ⟨a, ha, hp⟩ := hp
      exact ⟨a, ha, fun y => ih y (hp y)⟩
  | act f p ih =>
      intro s s' hs hs' hf
      obtain ⟨t, ht, rfl⟩ := Option.map_eq_some_iff.mp hf
      -- what the whole keeps says enough about the part for the inner budget to apply
      obtain ⟨ht', a, ha, hp⟩ := hp (get s) t (hinv s hs) (hbound s t hs') ht
      refine ⟨hset s t hs ht', a, ?_, ih (get s) hp⟩
      rw [hpot', hpot s]
      exact ha
  | emit e p ih =>
      obtain ⟨a, ha, hp⟩ := hp
      exact ⟨a, Nat.le_trans (Nat.add_le_add_right (hcost e) a) ha, ih hp⟩
  | fork p q ihp ihq =>
      obtain ⟨a, b, hab, hp, hq⟩ := hp
      exact ⟨a, b, hab, ihp hp, ihq hq⟩

/-- The costs of what a program does not show do not matter to it. -/
theorem charge (cost : E → ℕ) {C : S → S → Prop} {G : E → Prop} (hp : Affords B c n p)
    (hG : p.Guarantees (fun _ => True) C G) (hcost : ∀ e, G e → cost e ≤ B.cost e) :
    Affords (B.charging cost) c n p := by
  induction p generalizing n with
  | ret r => trivial
  | halt => trivial
  | ask q p ih =>
      obtain ⟨a, ha, hp⟩ := hp
      exact ⟨a, ha, fun y => ih y (hp y) (hG y)⟩
  | act f p ih =>
      intro s s' hs hs' hf
      obtain ⟨hinv, a, ha, hp⟩ := hp s s' hs hs' hf
      exact ⟨hinv, a, ha, ih s hp (hG s trivial s' hf).2⟩
  | emit e p ih =>
      obtain ⟨a, ha, hp⟩ := hp
      exact ⟨a, Nat.le_trans (Nat.add_le_add_right (hcost e hG.1) a) ha, ih hp hG.2⟩
  | fork p q ihp ihq =>
      obtain ⟨a, b, hab, hp, hq⟩ := hp
      exact ⟨a, b, hab, ihp hp hG.1, ihq hq hG.2⟩

/-- What a program shows may be put in other words that cost the same. -/
theorem shown {B' : Budget S F} (tag : F → E) (cost : E → ℕ) {p : Prog S F Q A R}
    (hp : Affords (B'.charging fun e => cost (tag e)) c n p) :
    Affords (B'.charging cost) c n (p.within some (fun _ s => s) tag : Prog S E Q A R) := by
  show Affords (B'.charging cost) c n (p.within (fun s => some (id s)) (fun _ s => s) tag)
  apply Affords.within _ _ _ _ _ _ hp
  · exact fun s hs => hs
  · exact fun s t _ ht => ht
  · exact fun s t hb => hb
  · exact fun s => rfl
  · exact fun s t => rfl
  · exact fun e => Nat.le_refl _

/-- A program on a part that the budget does not look at, which shows nothing that costs. -/
theorem elsewhere {get : S → T} {set : S → T → S} {tag : F → E}
    (hinv : ∀ s t, B.inv s → B.inv (set s t)) (hpot : ∀ s t, B.potential (set s t) = B.potential s)
    (hcost : ∀ e, B.cost (tag e) = 0) (p : Prog T F Empty A R) :
    Affords B c 0 (p.within (fun s => some (get s)) set tag : Prog S E Empty A R) := by
  induction p with
  | ret r => trivial
  | halt => trivial
  | ask q p _ => exact q.elim
  | act f p ih =>
      intro s s' hs _ hf
      obtain ⟨t, -, rfl⟩ := Option.map_eq_some_iff.mp hf
      exact ⟨hinv s t hs, 0, Nat.add_le_add_left (Nat.le_of_eq (hpot s t)) 0, ih (get s)⟩
  | emit e p ih => exact ⟨0, Nat.le_of_eq (hcost e), ih⟩
  | fork p q ihp ihq => exact ⟨0, 0, Nat.le_refl 0, ihp, ihq⟩

/-- What is done besides, where the budget does not look, costs nothing. -/
theorem noting {g : S → S} (hinv : ∀ s, B.inv s → B.inv (g s)) (hbound : ∀ s, B.bound (g s) → B.bound s)
    (hpot : ∀ s, B.potential (g s) = B.potential s) (hp : Affords B c n p) :
    Affords B c n (p.noting g) := by
  cases p with
  | act f k =>
      intro s s' hs hs' hf
      obtain ⟨t, ht, rfl⟩ := Option.map_eq_some_iff.mp hf
      obtain ⟨ht', a, ha, hk⟩ := hp s t hs (hbound t hs') ht
      refine ⟨hinv t ht', a, ?_, hk⟩
      rw [hpot]
      exact ha
  | ret r => trivial
  | halt => trivial
  | ask q k => exact hp
  | emit e k => exact hp
  | fork p k => exact hp

/-- Who waits pays no more. -/
theorem onlyIf {P : S → Prop} [DecidablePred P] (hp : Affords B c n p) :
    Affords B c n (p.onlyIf P) := by
  cases p with
  | act f k =>
      intro s s' hs hs' hf
      exact hp s s' hs hs' (Option.ite_none_right_eq_some.mp hf).2
  | ret r => trivial
  | halt => trivial
  | ask q k => exact hp
  | emit e k => exact hp
  | fork p k => exact hp

theorem trails {own : (S → Option S) → Prop} {r : R}
    (hown : ∀ f, own f → ∀ s s', B.inv s → f s = some s' →
      B.inv s' ∧ B.potential s' ≤ B.potential s) (hp : Trails own r p) : Affords B c n p := by
  induction hp generalizing n with
  | ret => trivial
  | act hf _ ih =>
      intro s s' hs _ hs'
      obtain ⟨hinv, hpot⟩ := hown _ hf s s' hs hs'
      exact ⟨hinv, n, Nat.add_le_add_left hpot n, ih s⟩

/-- Sections around a program cost nothing, if they take nothing out of the state. -/
theorem wraps {own : (S → Option S) → Prop} {mid : Prog S E Q A R}
    (hown : ∀ f, own f → ∀ s s', B.inv s → f s = some s' →
      B.inv s' ∧ B.potential s' ≤ B.potential s)
    (hmid : Affords B c n mid) (hp : Wraps own mid p) : Affords B c n p := by
  induction hp with
  | refl => exact hmid
  | around hk => exact hmid.bind (m := 0) fun r => trails hown (hk r)
  | act hf _ ih =>
      intro s s' hs _ hs'
      obtain ⟨hinv, hpot⟩ := hown _ hf s s' hs hs'
      exact ⟨hinv, n, Nat.add_le_add_left hpot n, ih s⟩

/-- What shows nothing costs nothing, if questions are free. -/
theorem free (p : Prog T Empty Q A R) : Affords Budget.questions 0 0 p := by
  induction p with
  | ret r => trivial
  | halt => trivial
  | ask q p ih => exact ⟨0, Nat.le_refl 0, ih⟩
  | act f p ih => exact fun s s' _ _ _ => ⟨trivial, 0, Nat.le_refl _, ih s⟩
  | emit e _ _ => exact e.elim
  | fork p q ihp ihq => exact ⟨0, 0, Nat.le_refl 0, ihp, ihq⟩

/-- Questions that cost `n` each, where so many units were enough at one unit a question. -/
theorem scale {k : ℕ} {p : Prog T Empty Q A R} (n : ℕ) (h : Affords Budget.questions 1 k p) :
    Affords Budget.questions n (n * k) p := by
  induction p generalizing k with
  | ret r => trivial
  | halt => trivial
  | ask q p ih =>
      obtain ⟨m, hm, hp⟩ := h
      refine ⟨n * m, ?_, fun a => ih a (hp a)⟩
      -- asking costs one, so the answers are paid `n` times from `n` times the rest
      calc n + n * m = n * (1 + m) := by rw [Nat.mul_add, Nat.mul_one]
        _ ≤ n * k := Nat.mul_le_mul_left n hm
  | act f p ih =>
      intro s s' hs hs' hf
      obtain ⟨-, m, hm, hp⟩ := h s s' hs hs' hf
      exact ⟨trivial, n * m, Nat.mul_le_mul_left n hm, ih s hp⟩
  | emit e _ _ => exact e.elim
  | fork p q ihp ihq =>
      obtain ⟨a, b, hab, hp, hq⟩ := h
      refine ⟨n * a, n * b, ?_, ihp hp, ihq hq⟩
      rw [← Nat.mul_add]
      exact Nat.mul_le_mul_left n hab

end Affords

def AffordsAll (B : Budget S E) (c : ℕ) : ℕ → List (Prog S E Q A R) → Prop
  | _, [] => True
  | n, p :: ps => ∃ a b, a + b ≤ n ∧ Affords B c a p ∧ AffordsAll B c b ps

namespace AffordsAll

variable {B : Budget S E} {c n m : ℕ} {ps qs : List (Prog S E Q A R)}

theorem mono (h : AffordsAll B c n ps) (hle : n ≤ m) : AffordsAll B c m ps := by
  cases ps with
  | nil => trivial
  | cons p ps =>
      obtain ⟨a, b, hab, hp, hps⟩ := h
      exact ⟨a, b, by omega, hp, hps⟩

theorem single {p : Prog S E Q A R} (h : Affords B c n p) : AffordsAll B c n [p] :=
  ⟨n, 0, by omega, h, trivial⟩

theorem append (hp : AffordsAll B c n ps) (hq : AffordsAll B c m qs) :
    AffordsAll B c (n + m) (ps ++ qs) := by
  induction ps generalizing n with
  | nil => exact hq.mono (by omega)
  | cons p ps ih =>
      obtain ⟨a, b, hab, hp, hps⟩ := hp
      exact ⟨a, b + m, by omega, hp, ih hps⟩

theorem of_append (h : AffordsAll B c n (ps ++ qs)) :
    ∃ a b, a + b ≤ n ∧ AffordsAll B c a ps ∧ AffordsAll B c b qs := by
  induction ps generalizing n with
  | nil => exact ⟨0, n, by omega, trivial, h⟩
  | cons p ps ih =>
      obtain ⟨a, b, hab, hp, hps⟩ := h
      obtain ⟨a', b', hab', hps, hqs⟩ := ih hps
      exact ⟨a + a', b', by omega, ⟨a, a', by omega, hp, hps⟩, hqs⟩

end AffordsAll

/-- A step of a thread is paid for by the thread and the potential. -/
theorem Affords.next {B : Budget S E} {c n : ℕ} {p : Prog S E Empty A R} {s s' : S} {es : List E}
    {ps : List (Prog S E Empty A R)} (hp : Affords B c n p) (hs : B.inv s) (hs' : B.bound s')
    (h : p.next s = some (es, s', ps)) :
    B.inv s' ∧ ∃ m, (es.map B.cost).sum + m + B.potential s' ≤ n + B.potential s ∧
      AffordsAll B c m ps := by
  cases p with
  | ret r => cases h
  | halt => cases h
  | ask q _ => exact q.elim
  | act f k =>
      obtain ⟨t, ht, hr⟩ := Option.map_eq_some_iff.mp h
      cases hr
      obtain ⟨hinv, m, hm, hk⟩ := hp s s' hs hs' ht
      exact ⟨hinv, m, by simpa using hm, .single hk⟩
  | emit e k =>
      cases h
      obtain ⟨m, hm, hk⟩ := hp
      refine ⟨hs, m, ?_, .single hk⟩
      simp only [List.map_cons, List.map_nil, List.sum_cons, List.sum_nil]
      omega
  | fork p k =>
      cases h
      -- forking pays nothing: the budget is divided between the two threads
      obtain ⟨a, b, hab, hp, hk⟩ := hp
      refine ⟨hs, n, by simp, a, b, hab, hp, .single hk⟩

end Prog

/-- What happens around the threads costs nothing, and what is started there pays for itself. -/
structure World.Free {S E A R : Type} (W : World S E A R) (B : Budget S E) (c : ℕ) : Prop where
  bound : ∀ s, W.bound s → B.bound s
  env_inv : ∀ s s', W.env s s' → B.inv s → B.inv s'
  env_potential : ∀ s s', W.env s s' → B.inv s → B.potential s' ≤ B.potential s
  spawn : ∀ p, W.spawn p → Prog.Affords B c 0 p

namespace Pool

variable {S E A R : Type} {W : World S E A R} {B : Budget S E} {c n : ℕ} {a b : Pool S E A R}
  {es : List E}

/-- What the threads own and what is in the state come to `n` at most. -/
def Worth (B : Budget S E) (c n : ℕ) (a : Pool S E A R) : Prop :=
  B.inv a.state ∧ ∃ m, m + B.potential a.state ≤ n ∧ Prog.AffordsAll B c m a.threads

theorem Step.worth (hW : W.Free B c) (h : Step W a es b) (ha : a.Worth B c n) :
    ∃ m, (es.map B.cost).sum + m ≤ n ∧ b.Worth B c m := by
  obtain ⟨hinv, m, hm, hall⟩ := ha
  cases h with
  | @thread s s' p _ ps l r hn hb =>
      -- what the other threads may spend stays with them
      obtain ⟨x, y, hxy, hl, hpr⟩ := hall.of_append
      obtain ⟨u, v, huv, hp, hr⟩ := hpr
      obtain ⟨hinv', w, hw, hps⟩ := hp.next hinv (hW.bound s' hb) hn
      have hrest : Prog.AffordsAll B c (x + (w + v)) (l ++ (ps ++ r)) := hl.append (hps.append hr)
      refine ⟨x + (w + v) + B.potential s', ?_, hinv', _, Nat.le_refl _, hrest⟩
      dsimp only at hm hw
      omega
  | @env s s' ts he hb =>
      -- the environment may take from the potential and never adds to it
      have hpot := hW.env_potential s s' he hinv
      refine ⟨n, by simp, hW.env_inv s s' he hinv, m, ?_, hall⟩
      dsimp only at hm ⊢
      omega
  | spawn ts hp =>
      exact ⟨n, by simp, hinv, m, hm, 0, m, by omega, hW.spawn _ hp, hall⟩

/-- The cost of a run and the worth of what it ends in come to the worth of what it started from. -/
theorem Run.worth (hW : W.Free B c) (h : Run W a es b) (ha : a.Worth B c n) :
    ∃ m, (es.map B.cost).sum + m ≤ n ∧ b.Worth B c m := by
  induction h with
  | refl => exact ⟨n, by simp, ha⟩
  | tail _ hs ih =>
      obtain ⟨m, hm, hb⟩ := ih
      obtain ⟨m', hm', hc⟩ := hs.worth hW hb
      refine ⟨m', ?_, hc⟩
      rw [List.map_append, List.sum_append]
      omega

/-- A run never costs more than the pool was worth at the start. -/
theorem Run.cost_le (hW : W.Free B c) (h : Run W a es b) (ha : a.Worth B c n) :
    (es.map B.cost).sum ≤ n := by
  obtain ⟨m, hm, -⟩ := h.worth hW ha
  omega

/-- If every event of one kind costs `k`, that limits their number, and what is left of the potential limits
it further. -/
theorem Run.mul_length_filter_add_potential_le (hW : W.Free B c) (h : Run W a es b) (ha : a.Worth B c n)
    (p : E → Bool) (k : ℕ) (hp : ∀ e, p e → k ≤ B.cost e) :
    k * (es.filter p).length + B.potential b.state ≤ n := by
  have hsum : k * (es.filter p).length ≤ (es.map B.cost).sum := by
    clear h
    induction es with
    | nil => simp
    | cons e es ih =>
        rw [List.map_cons, List.sum_cons, List.filter_cons]
        split
        · next he =>
          rw [List.length_cons, Nat.mul_succ]
          have := hp e he
          omega
        · omega
  obtain ⟨m, hm, -, w, hw, -⟩ := h.worth hW ha
  omega

theorem Run.mul_length_filter_le (hW : W.Free B c) (h : Run W a es b) (ha : a.Worth B c n)
    (p : E → Bool) (k : ℕ) (hp : ∀ e, p e → k ≤ B.cost e) : k * (es.filter p).length ≤ n :=
  Nat.le_trans (Nat.le_add_right _ _) (h.mul_length_filter_add_potential_le hW ha p k hp)

/-- The invariant holds wherever a run leads. -/
theorem Run.inv (hW : W.Free B c) (h : Run W a es b) (ha : a.Worth B c n) : B.inv b.state := by
  obtain ⟨_, _, hb⟩ := h.worth hW ha
  exact hb.1

end Pool
