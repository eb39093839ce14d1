import GayRpc.Lib.Duty
import GayRpc.Lib.Ledger
import Mathlib.Data.List.Forall2

/-!
# Things on their way

A thing that exists once is somewhere at any time: at some place in the state, or in the hands of one
thread. A `Journey` says which places there are, and how each of them fits what is on record. `Forwards J
x t p` is said at a moment `t`: whatever happens by then, the sections and the events of `p` leave the
thing at a place that fits; if `x`, it is in the hands of `p`, which nobody else takes it out of, and which
has to put it down before it ends.

A `Duty` asks only whether a thing is safe. Here it is also asked where it is, and a place may be left for
another one only in the way that the journey allows: that is how a message is followed through a system,
from the one who sends it to the one who handles it, and each stage of it can be told from the others.

A `Moment` is what has been shown, the state, and where the thing is. Most of what happens has nothing to do
with the thing, namely a `Harmless` section or an `Idle` event; the rules for these come first. The
others say how a program moves it, and how it hands it on to what follows.

In a run of such programs the thing is never lost, and when all threads are done it lies somewhere in the
state (`Tracked.put_down`).
-/

/-- What has been shown, the state, and where the thing is. -/
structure Moment (S E P : Type) where
  events : List E
  state : S
  place : P

structure Journey {S E : Type} (L : Ledger S E) (P : Type) where
  /-- the thing may be there -/
  fits : P → List E → S → Prop
  /-- the place is in the hands of a thread -/
  inHands : P → Bool
  /-- nothing that is known of the first state and place is wrong of the second -/
  le : S → P → S → P → Prop
  le_refl : ∀ s π, le s π s π
  le_trans : ∀ {s π t ρ u σ}, le s π t ρ → le t ρ u σ → le s π u σ

namespace Journey

variable {S E P : Type} {L : Ledger S E} (J : Journey L P)

/-- The second moment comes after the first, or is the same. Where the thing is in one's own hands, it
has stayed there. -/
structure Later (x : Bool) (t t' : Moment S E P) : Prop where
  record : L.Later t.events t.state t'.events t'.state
  le : J.le t.state t.place t'.state t'.place
  place : x = true → t'.place = t.place

/-- The moment may come about, and be met by a thread that has the thing in hand if `x`. -/
structure Holds (x : Bool) (t : Moment S E P) : Prop where
  inv : L.inv t.events t.state
  fits : J.fits t.place t.events t.state
  hands : x = true → J.inHands t.place = true

/-- What a step of one thread does to the thing: it leaves it to the thread that has it in hand; or the
thing may move, and is in the hands of this one afterwards if it is in anybody's. -/
structure Passes (x : Bool) (t : Moment S E P) (x' : Bool) (t' : Moment S E P) : Prop where
  le : J.le t.state t.place t'.state t'.place
  fits : J.fits t'.place t'.events t'.state
  hands : if x = false ∧ J.inHands t.place = true then t'.place = t.place ∧ x' = false
    else x' = J.inHands t'.place

/-- A section leaves the thing where it is, wherever that is. -/
def Harmless (f : S → Option S) : Prop :=
  ∀ (t : Moment S E P) s, L.inv t.events t.state → J.fits t.place t.events t.state →
    f t.state = some s → L.inv t.events s → J.le t.state t.place s t.place ∧ J.fits t.place t.events s

/-- An event tells nothing about the thing. -/
def Idle (e : E) : Prop :=
  ∀ t : Moment S E P, L.inv t.events t.state → J.fits t.place t.events t.state →
    L.may t.events t.state e → J.fits t.place (t.events ++ [e]) t.state

variable {J} {x x' : Bool} {t t' t'' : Moment S E P} {s : S} {e : E}

namespace Later

theorem refl : J.Later x t t := ⟨.refl, J.le_refl _ _, fun _ => rfl⟩

theorem trans (h : J.Later x t t') (h' : J.Later x t' t'') : J.Later x t t'' :=
  ⟨h.record.trans h'.record, J.le_trans h.le h'.le, fun hx => (h'.place hx).trans (h.place hx)⟩

theorem free (h : J.Later x t t') : J.Later false t t' := ⟨h.record, h.le, by simp⟩

end Later

theorem Holds.free (h : J.Holds x t) : J.Holds false t := ⟨h.inv, h.fits, by simp⟩

namespace Passes

/-- What is left where it is stays in the same hands. -/
theorem stay (hle : J.le t.state t.place t'.state t'.place) (hplace : t'.place = t.place)
    (hfits : J.fits t'.place t'.events t'.state) (ht : J.Holds x t) : J.Passes x t x t' := by
  refine ⟨hle, hfits, ?_⟩
  cases x with
  | true => simpa [hplace] using (ht.hands rfl).symm
  | false => cases hh : J.inHands t.place <;> simp [hplace, hh]

/-- What one has in hand, or is in nobody's hands, may be moved. -/
theorem move (hle : J.le t.state t.place t'.state t'.place)
    (hfits : J.fits t'.place t'.events t'.state) (hfree : x = true ∨ J.inHands t.place = false)
    (hx' : x' = J.inHands t'.place) : J.Passes x t x' t' := by
  refine ⟨hle, hfits, ?_⟩
  rw [if_neg]
  · exact hx'
  · rintro ⟨hx, hhands⟩
    rcases hfree with hfree | hfree
    · rw [hx] at hfree
      cases hfree
    · rw [hhands] at hfree
      cases hfree

theorem later (h : J.Passes x t x' t') (hr : L.Later t.events t.state t'.events t'.state) :
    J.Later false t t' := ⟨hr, h.le, by simp⟩

/-- Who does not have the thing in hand leaves it to the one who has. -/
theorem others (h : J.Passes false t x' t') (hh : J.inHands t.place = true) :
    t'.place = t.place ∧ x' = false := by
  have hhands := h.hands
  rwa [if_pos ⟨rfl, hh⟩] at hhands

/-- So a thread that waits for another program keeps what it has in hand. -/
theorem keep (h : J.Passes false t x' t') (hh : J.inHands t.place = true) : J.Passes true t true t' := by
  obtain ⟨hplace, -⟩ := h.others hh
  refine ⟨h.le, h.fits, ?_⟩
  simp [hplace, hh]

end Passes

end Journey

namespace Prog

variable {S T E F P Q A R Q' A' R' : Type} {L : Ledger S E}

namespace Returns

variable {Φ : R → Prop} {own : (S → Option S) → Prop} {mid p : Prog S E Q A R}

theorem trails {r : R} (hr : Φ r) (hp : Trails own r p) : Returns Φ p := by
  induction hp with
  | ret => exact hr
  | act _ _ ih => exact ih

/-- Whoever wraps a program comes back with what it comes back with. -/
theorem wraps (hmid : Returns Φ mid) (hp : Wraps own mid p) : Returns Φ p := by
  induction hp with
  | refl => exact hmid
  | around hk => exact hmid.bind fun r hr => trails hr (hk r)
  | act _ _ ih => exact ih

theorem within {get : S → T} {set : S → T → S} {tag : F → E} {p : Prog T F Q A R}
    (hp : Returns Φ p) : Returns Φ (p.within (fun s => some (get s)) set tag) := by
  induction p with
  | ret r => exact hp
  | halt => exact hp
  | ask q c ih => exact fun a => ih a (hp a)
  | act f c ih => exact fun s => ih (get s) (hp (get s))
  | emit e c ih => exact ih hp
  | fork p c _ ihc => exact ihc hp

end Returns

def Forwards (J : Journey L P) : Bool → Moment S E P → Prog S E Q A R → Prop
  | x, _, ret _ => x = false
  | x, _, halt => x = false
  | x, t, ask _ k => ∀ a, Forwards J x t (k a)
  | x, t, act f k => ∀ t', J.Later x t t' → J.Holds x t' → ∀ s, f t'.state = some s →
      L.bound s → L.le t'.state s → L.inv t'.events s →
        ∃ π x', J.Passes x t' x' ⟨t'.events, s, π⟩ ∧ Forwards J x' ⟨t'.events, s, π⟩ (k t'.state)
  | x, t, emit e k => ∀ t', J.Later x t t' → J.Holds x t' → L.may t'.events t'.state e →
      L.inv (t'.events ++ [e]) t'.state →
        ∃ π x', J.Passes x t' x' ⟨t'.events ++ [e], t'.state, π⟩ ∧
          Forwards J x' ⟨t'.events ++ [e], t'.state, π⟩ k
  | x, t, fork p k => ∃ y z, x = (y || z) ∧ (y && z) = false ∧ Forwards J y t p ∧ Forwards J z t k

namespace Forwards

variable {J : Journey L P} {x : Bool} {t t' : Moment S E P} {p mid : Prog S E Q A R}

theorem later (hp : Forwards J x t p) (hl : J.Later x t t') : Forwards J x t' p := by
  induction p generalizing x with
  | ret r => exact hp
  | halt => exact hp
  | ask q k ih =>
      intro a
      exact ih a (hp a) hl
  | act f k _ =>
      intro u hu
      exact hp u (hl.trans hu)
  | emit e k _ =>
      intro u hu
      exact hp u (hl.trans hu)
  | fork p k ihp ihk =>
      -- only one of the two threads can have the thing in hand, and its place is still known
      obtain ⟨y, z, hx, hyz, hp, hk⟩ := hp
      refine ⟨y, z, hx, hyz, ihp hp ⟨hl.record, hl.le, fun hy => hl.place ?_⟩,
        ihk hk ⟨hl.record, hl.le, fun hz => hl.place ?_⟩⟩
      · simp [hx, hy]
      · simp [hx, hz]

/-- A section that leaves the thing where it is. -/
theorem act_harmless {f : S → Option S} {k : S → Prog S E Q A R} (hf : J.Harmless f)
    (hk : ∀ t' s, J.Later x t t' → J.Later x t ⟨t'.events, s, t'.place⟩ → J.Holds x t' →
      f t'.state = some s → Forwards J x ⟨t'.events, s, t'.place⟩ (k t'.state)) :
    Forwards J x t (act f k) := by
  intro t' hl ht s hs _ hle hinv
  obtain ⟨hle', hfits⟩ := hf t' s ht.inv ht.fits hs hinv
  have hl' : J.Later x t' ⟨t'.events, s, t'.place⟩ := ⟨⟨List.prefix_rfl, hle⟩, hle', fun _ => rfl⟩
  exact ⟨t'.place, x, .stay hle' rfl hfits ht, hk t' s hl (hl.trans hl') ht hs⟩

theorem emit_idle {e : E} {k : Prog S E Q A R} (he : J.Idle e)
    (hk : ∀ t', J.Later x t t' → e ∈ t'.events → Forwards J x t' k) :
    Forwards J x t (emit e k) := by
  intro t' hl ht hmay hinv
  have hle : J.le t'.state t'.place t'.state t'.place := J.le_refl _ _
  refine ⟨t'.place, x, .stay hle rfl (he t' ht.inv ht.fits hmay) ht, hk _ (hl.trans ?_) ?_⟩
  · exact ⟨⟨List.prefix_append _ _, L.le_refl _⟩, hle, fun _ => rfl⟩
  · exact List.mem_append_right _ (List.mem_singleton.mpr rfl)

/-- Who has put the thing down may be followed by anybody. -/
theorem bind {k : R → Prog S E Q A R'} (hp : Forwards J x t p)
    (hk : ∀ r t', J.Later false t t' → Forwards J false t' (k r)) : Forwards J x t (p.bind k) := by
  induction p generalizing x t R' with
  | ret r =>
      -- it returned with empty hands, so `k` starts with none
      obtain rfl : x = false := hp
      exact hk r t .refl
  | halt => exact hp
  | ask q c ih =>
      intro a
      exact ih a (hp a) hk
  | act f c ih =>
      intro t' hl ht s hs hb hle hinv
      obtain ⟨π, x', hpass, hc⟩ := hp t' hl ht s hs hb hle hinv
      refine ⟨π, x', hpass, ih t'.state hc fun r u hu => hk r u ?_⟩
      exact hl.free.trans ((hpass.later ⟨List.prefix_rfl, hle⟩).trans hu)
  | emit e c ih =>
      intro t' hl ht hmay hinv
      obtain ⟨π, x', hpass, hc⟩ := hp t' hl ht hmay hinv
      refine ⟨π, x', hpass, ih hc fun r u hu => hk r u ?_⟩
      exact hl.free.trans ((hpass.later ⟨List.prefix_append _ _, L.le_refl _⟩).trans hu)
  | fork p c ihp ihc =>
      obtain ⟨y, z, hx, hyz, hp, hc⟩ := hp
      exact ⟨y, z, hx, hyz, ihp hp fun _ _ _ => rfl, ihc hc hk⟩

/-- What comes after may depend on the result. -/
theorem bind_returns {Φ : R → Prop} {k : R → Prog S E Q A R'} (hp : Forwards J x t p)
    (hr : Returns Φ p) (hk : ∀ r t', J.Later false t t' → Φ r → Forwards J false t' (k r)) :
    Forwards J x t (p.bind k) := by
  induction p generalizing x t R' with
  | ret r =>
      obtain rfl : x = false := hp
      exact hk r t .refl hr
  | halt => exact hp
  | ask q c ih =>
      intro a
      exact ih a (hp a) (hr a) hk
  | act f c ih =>
      intro t' hl ht s hs hb hle hinv
      obtain ⟨π, x', hpass, hc⟩ := hp t' hl ht s hs hb hle hinv
      refine ⟨π, x', hpass, ih t'.state hc (hr t'.state) fun r u hu => hk r u ?_⟩
      exact hl.free.trans ((hpass.later ⟨List.prefix_rfl, hle⟩).trans hu)
  | emit e c ih =>
      intro t' hl ht hmay hinv
      obtain ⟨π, x', hpass, hc⟩ := hp t' hl ht hmay hinv
      refine ⟨π, x', hpass, ih hc hr fun r u hu => hk r u ?_⟩
      exact hl.free.trans ((hpass.later ⟨List.prefix_append _ _, L.le_refl _⟩).trans hu)
  | fork p c _ ihc =>
      obtain ⟨y, z, hx, hyz, hp, hc⟩ := hp
      -- the forked part never returns to `k`, only the part that stays does
      exact ⟨y, z, hx, hyz, hp.bind fun _ _ _ => rfl, ihc hc hr hk⟩

/-- A program that comes back may be run with the thing in hand. -/
theorem bind_waiting {Φ : R → Prop} {k : R → Prog S E Q A R'} (hp : Forwards J false t p)
    (hr : Returns Φ p) (hk : ∀ r t', J.Later true t t' → Φ r → Forwards J true t' (k r)) :
    Forwards J true t (p.bind k) := by
  induction p generalizing t with
  | ret r => exact hk r t .refl hr
  | halt => exact hr.elim
  | ask q c ih =>
      intro a
      exact ih a (hp a) (hr a) hk
  | act f c ih =>
      intro t' hl ht s hs hb hle hinv
      obtain ⟨π, x', hpass, hc⟩ := hp t' hl.free ht.free s hs hb hle hinv
      -- the thing is in the hands of what waits, so the step cannot move it
      obtain ⟨rfl, rfl⟩ := hpass.others (ht.hands rfl)
      have hstep : J.Later true t' ⟨t'.events, s, t'.place⟩ :=
        ⟨⟨List.prefix_rfl, hle⟩, hpass.le, fun _ => rfl⟩
      refine ⟨_, true, hpass.keep (ht.hands rfl), ih t'.state hc (hr t'.state) fun r u hu => hk r u ?_⟩
      exact hl.trans (hstep.trans hu)
  | emit e c ih =>
      intro t' hl ht hmay hinv
      obtain ⟨π, x', hpass, hc⟩ := hp t' hl.free ht.free hmay hinv
      obtain ⟨rfl, rfl⟩ := hpass.others (ht.hands rfl)
      have hstep : J.Later true t' ⟨t'.events ++ [e], t'.state, t'.place⟩ :=
        ⟨⟨List.prefix_append _ _, L.le_refl _⟩, hpass.le, fun _ => rfl⟩
      refine ⟨_, true, hpass.keep (ht.hands rfl), ih hc hr fun r u hu => hk r u ?_⟩
      exact hl.trans (hstep.trans hu)
  | fork p c _ ihc =>
      obtain ⟨y, z, hx, -, hp, hc⟩ := hp
      -- with empty hands on entry both threads of the fork have empty hands
      obtain ⟨rfl, rfl⟩ : y = false ∧ z = false := by simpa using hx.symm
      exact ⟨false, true, rfl, rfl, hp.bind fun _ _ _ => rfl, ihc hc hr hk⟩

/-- A program on a part of the state whose changes do no harm, its questions answered by programs that
forward the thing. -/
theorem lift_plug {M : Type} {h : M → Q → Prog S E Q' A' A} {step : M → M} {m : M} {get : S → T}
    {set : S → T → S} (hset : ∀ f : T → Option T, J.Harmless fun s => (f (get s)).map (set s))
    (p : Prog T Empty Q A R)
    (hh : ∀ m q t', J.Later false t t' → Forwards J false t' (h m q)) :
    Forwards J false t ((p.lift get set : Prog S E Q A R).plug h step m) := by
  induction p generalizing t m with
  | ret r => exact rfl
  | halt => exact rfl
  | ask q c ih =>
      refine (hh m q t .refl).bind fun a t' hl => ih a fun m q u hu => hh m q u (hl.trans hu)
  | act f c ih =>
      refine act_harmless (hset f) fun t' s _ hl _ _ => ih (get t'.state) fun m q u hu => ?_
      exact hh m q u (hl.trans hu)
  | emit e c _ => exact e.elim
  | fork p c ihp ihc => exact ⟨false, false, rfl, rfl, ihp hh, ihc hh⟩

theorem trails {own : (S → Option S) → Prop} {r : R} (hown : ∀ f, own f → J.Harmless f)
    (hp : Trails own r p) : Forwards J false t p := by
  induction hp generalizing t with
  | ret => exact rfl
  | act hf _ ih => exact act_harmless (hown _ hf) fun t' _ _ _ _ _ => ih t'.state

/-- Harmless sections around a program change nothing about what it forwards. -/
theorem wraps {own : (S → Option S) → Prop} (hown : ∀ f, own f → J.Harmless f)
    (hmid : ∀ t', J.Later x t t' → Forwards J x t' mid) (hp : Wraps own mid p) : Forwards J x t p := by
  induction hp generalizing t with
  | refl => exact hmid t .refl
  | around hk => exact (hmid t .refl).bind fun r _ _ => trails hown (hk r)
  | act hf _ ih =>
      refine act_harmless (hown _ hf) fun t' s _ hl _ _ => ih t'.state fun u hu => ?_
      exact hmid u (hl.trans hu)

/-- A thread that is done has nothing in hand. -/
theorem of_done (hp : Forwards J x t p) (hd : p.Done) : x = false := by
  cases p with
  | ret r => exact hp
  | halt => exact hp
  | _ => exact hd.elim

end Forwards

end Prog

/-- What happens around the threads leaves the thing where it is, and so do the programs that are started,
unless they find it in nobody's hands. -/
structure World.Forwards {S E A R P : Type} (W : World S E A R) {L : Ledger S E} (J : Journey L P) :
    Prop where
  env : ∀ (t : Moment S E P) s, W.env t.state s → L.inv t.events t.state →
    J.fits t.place t.events t.state → L.inv t.events s →
      J.le t.state t.place s t.place ∧ J.fits t.place t.events s
  spawn : ∀ p, W.spawn p → ∀ t, Prog.Forwards J false t p

namespace Pool

open Prog

variable {S E A R P : Type} {W : World S E A R} {L : Ledger S E} {J : Journey L P}
  {a b : Pool S E A R} {h es : List E} {π : P}

/-- The thing is at the place, and in the hands of exactly one thread if the place is. -/
structure Tracked (J : Journey L P) (h : List E) (π : P) (a : Pool S E A R) : Prop where
  fits : J.fits π h a.state
  threads : ∃ xs : List Bool,
    List.Forall₂ (fun x p => Prog.Forwards J x ⟨h, a.state, π⟩ p) xs a.threads ∧
      xs.count true = (J.inHands π).toNat

/-- What the other threads have in hand they still have when one of them has moved. -/
theorem forall₂_later {xs : List Bool} {ps : List (Prog S E Empty A R)} {t t' : Moment S E P}
    (hps : List.Forall₂ (fun x p => Prog.Forwards J x t p) xs ps) (hl : J.Later false t t')
    (hplace : true ∈ xs → t'.place = t.place) :
    List.Forall₂ (fun x p => Prog.Forwards J x t' p) xs ps := by
  induction hps with
  | nil => exact .nil
  | @cons x p xs ps hp _ ih =>
      refine .cons (hp.later ⟨hl.record, hl.le, fun hx => hplace ?_⟩) (ih fun hxs => hplace ?_)
      · exact hx ▸ List.mem_cons_self
      · exact List.mem_cons_of_mem _ hxs

/-- A step of a thread, on its own: the threads it goes on as have the thing in hand as the place says. -/
theorem forwards_next {x : Bool} {p : Prog S E Empty A R} {s s' : S} {ps : List (Prog S E Empty A R)}
    (hp : Prog.Forwards J x ⟨h, s, π⟩ p) (ht : J.Holds x ⟨h, s, π⟩)
    (hn : p.next s = some (es, s', ps)) (hb : L.bound s') (hle : L.le s s')
    (hinv : L.inv (h ++ es) s') (hes : es = [] ∨ ∃ e, es = [e] ∧ L.may h s e) :
    ∃ (π' : P) (x' : Bool) (xs : List Bool), J.Passes x ⟨h, s, π⟩ x' ⟨h ++ es, s', π'⟩ ∧
      List.Forall₂ (fun x p => Prog.Forwards J x ⟨h ++ es, s', π'⟩ p) xs ps ∧
      xs.count true = x'.toNat := by
  cases p with
  | ret r => cases hn
  | halt => cases hn
  | ask q k => exact q.elim
  | act f k =>
      obtain ⟨u, hu, hr⟩ := Option.map_eq_some_iff.mp hn
      cases hr
      rw [List.append_nil] at hinv ⊢
      obtain ⟨π', x', hpass, hk⟩ := hp ⟨h, s, π⟩ .refl ht s' hu hb hle hinv
      exact ⟨π', x', [x'], hpass, .cons hk .nil, by cases x' <;> rfl⟩
  | emit e k =>
      cases hn
      obtain hnil | ⟨e', he', hmay⟩ := hes
      · cases hnil
      · obtain rfl := List.singleton_inj.mp he'
        obtain ⟨π', x', hpass, hk⟩ := hp ⟨h, s, π⟩ .refl ht hmay hinv
        exact ⟨π', x', [x'], hpass, .cons hk .nil, by cases x' <;> rfl⟩
  | fork p k =>
      cases hn
      rw [List.append_nil]
      obtain ⟨y, z, rfl, hyz, hp, hk⟩ := hp
      refine ⟨π, y || z, [y, z], .stay (J.le_refl _ _) rfl ht.fits ht, .cons hp (.cons hk .nil), ?_⟩
      -- the thing is in one pair of hands before and after, never in both
      revert hyz
      cases y <;> cases z <;> decide

theorem Step.tracked (hW : W.Respects L) (hJ : W.Forwards J) (hs : Step W a es b)
    (ha : a.Honored L h) (hat : a.Tracked J h π) : ∃ π', b.Tracked J (h ++ es) π' := by
  obtain ⟨hb, hes⟩ := hs.honored hW ha
  obtain ⟨hfits, xs, hxs, hcount⟩ := hat
  cases hs with
  | @thread s s' p _ ps l r hn hbound =>
      have hmem : p ∈ l ++ p :: r := List.mem_append_right l List.mem_cons_self
      obtain ⟨hle, -⟩ := (ha.threads p hmem).next ha.inv (hW.bound s' hbound) hn
      have hl := List.forall₂_take_append xs l (p :: r) hxs
      have hpr := List.forall₂_drop_append xs l (p :: r) hxs
      obtain ⟨x, xr, hp, hr, hdrop⟩ := List.forall₂_cons_right_iff.mp hpr
      have hall := List.take_append_drop l.length xs
      rw [hdrop] at hall
      generalize xs.take l.length = xl at hl hall
      subst hall
      rw [List.count_append, List.count_cons] at hcount
      -- what this thread has in hand is counted, so the place says so
      have hhands : x = true → J.inHands π = true := by
        rintro rfl
        cases hπ : J.inHands π with
        | true => rfl
        | false => simp [hπ] at hcount
      have ht : J.Holds x ⟨h, s, π⟩ := ⟨ha.inv, hfits, hhands⟩
      obtain ⟨π', x', ys, hpass, hys, hcount'⟩ :=
        forwards_next hp ht hn (hW.bound s' hbound) hle hb.inv hes
      have hlater : J.Later false ⟨h, s, π⟩ ⟨h ++ es, s', π'⟩ :=
        ⟨⟨List.prefix_append _ _, hle⟩, hpass.le, by simp⟩
      -- if another thread has the thing in hand, this one has left it there
      by_cases hother : x = false ∧ J.inHands π = true
      · obtain ⟨rfl, hπ⟩ := hother
        obtain ⟨rfl, rfl⟩ := hpass.others hπ
        refine ⟨π', hpass.fits, xl ++ (ys ++ xr), List.rel_append (forall₂_later hl hlater fun _ => rfl)
          (List.rel_append hys (forall₂_later hr hlater fun _ => rfl)), ?_⟩
        simp only [List.count_append, hcount', Bool.toNat_false]
        simpa using hcount
      · have hx' : x' = J.inHands π' := by
          have hhands' := hpass.hands
          rwa [if_neg hother] at hhands'
        -- this thread has it, or nobody: the threads that rest have empty hands
        have hfree : xl.count true = 0 ∧ xr.count true = 0 := by
          cases x with
          | true =>
              simp only [hhands rfl, Bool.toNat_true, beq_self_eq_true, if_true] at hcount
              omega
          | false =>
              have hπ : J.inHands π = false := by simpa using hother
              simp only [hπ, Bool.toNat_false] at hcount
              omega
        have hnone : ∀ {ys : List Bool}, ys.count true = 0 → true ∈ ys → π' = π := by
          intro ys hys hmem
          exact absurd hmem (List.count_eq_zero.mp hys)
        refine ⟨π', hpass.fits, xl ++ (ys ++ xr), List.rel_append
          (forall₂_later hl hlater (hnone hfree.1))
          (List.rel_append hys (forall₂_later hr hlater (hnone hfree.2))), ?_⟩
        simp only [List.count_append, hcount', hfree.1, hfree.2, hx']
        omega
  | @env s s' ts he hbound =>
      rw [List.append_nil] at hb ⊢
      obtain ⟨hle', hfits'⟩ := hJ.env ⟨h, s, π⟩ s' he ha.inv hfits hb.inv
      obtain ⟨hle, -⟩ := hW.env h s s' he (hW.bound s' hbound) ha.inv
      have hlater : J.Later false ⟨h, s, π⟩ ⟨h, s', π⟩ := ⟨⟨List.prefix_rfl, hle⟩, hle', by simp⟩
      exact ⟨π, hfits', xs, forall₂_later hxs hlater fun _ => rfl, hcount⟩
  | spawn ts hp =>
      rw [List.append_nil]
      exact ⟨π, hfits, false :: xs, .cons (hJ.spawn _ hp _) hxs, by simpa using hcount⟩

/-- In every run the thing is somewhere at any time. -/
theorem Run.tracked (hW : W.Respects L) (hJ : W.Forwards J) (hrun : Run W a es b)
    (ha : a.Honored L []) (hat : a.Tracked J [] π) : ∃ π', b.Tracked J es π' := by
  induction hrun with
  | refl => exact ⟨π, hat⟩
  | tail hrun hs ih =>
      obtain ⟨π', hb⟩ := ih
      exact hs.tracked hW hJ (hrun.honored hW ha).1 hb

/-- When all threads are done, it is in nobody's hands. -/
theorem Tracked.put_down (hat : a.Tracked J h π) (hd : ∀ p ∈ a.threads, p.Done) :
    J.inHands π = false := by
  obtain ⟨-, xs, hxs, hcount⟩ := hat
  have hnone : true ∉ xs := by
    generalize a.threads = ps at hxs hd
    clear hcount
    induction hxs with
    | nil => simp
    | cons hp _ ih =>
        obtain ⟨hdp, hdps⟩ := List.forall_mem_cons.mp hd
        obtain rfl := hp.of_done hdp
        simpa using ih hdps
  rw [List.count_eq_zero.mpr hnone] at hcount
  cases hπ : J.inHands π with
  | true => simp [hπ] at hcount
  | false => rfl

end Pool
