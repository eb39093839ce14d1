import GayRpc.Lib.Wraps

/-!
# What stays on record

Rely and guarantee for programs that run side by side, where everybody may rely on what is never taken
back: the events that were shown, and what the states never lose (`le`). `Honors L G Φ h s p` is said at
a moment when the events `h` have been shown and the state is `s`: from then on, the sections of `p` keep
the invariant and lose nothing, `p` shows an event only when it may come next, asks questions in `G`, and
comes back with a result in `Φ`.

The invariant is one on what has been shown and the state together, so that it can say where everything in
the state has come from: a message on the wire has been sent, a response was asked for. And `may` can say
of each event what must have gone before it. Nothing has to be said about the other threads, since what
holds at one moment holds at any later one (`Honors.later`): the threads of a pool do not get in each
other's way (`Run.honored`).
-/

structure Ledger (S E : Type) where
  /-- where the steps under consideration end -/
  bound : S → Prop
  /-- how the state fits the events that have been shown -/
  inv : List E → S → Prop
  /-- the second state has lost nothing of the first -/
  le : S → S → Prop
  /-- the event may come after those of the list, in the state -/
  may : List E → S → E → Prop
  le_refl : ∀ s, le s s
  le_trans : ∀ {s t u}, le s t → le t u → le s u
  inv_append : ∀ {h s e}, inv h s → may h s e → inv (h ++ [e]) s

namespace Ledger

variable {S E : Type} (L : Ledger S E)

/-- The second moment comes after the first, or is the same. -/
structure Later (h : List E) (s : S) (h' : List E) (s' : S) : Prop where
  events : h <+: h'
  state : L.le s s'

variable {L} {h h' h'' : List E} {s s' s'' : S}

theorem Later.refl : L.Later h s h s := ⟨List.prefix_rfl, L.le_refl s⟩

theorem Later.trans (hl : L.Later h s h' s') (hl' : L.Later h' s' h'' s'') : L.Later h s h'' s'' :=
  ⟨hl.events.trans hl'.events, L.le_trans hl.state hl'.state⟩

theorem Later.mem {e : E} (hl : L.Later h s h' s') (he : e ∈ h) : e ∈ h' := hl.events.subset he

variable (L) in
/-- A section keeps the invariant and loses nothing, whenever it is run. -/
def Harmless (f : S → Option S) : Prop :=
  ∀ h s s', L.inv h s → f s = some s' → L.bound s' → L.le s s' ∧ L.inv h s'

variable (L) in
/-- Every event of the list may come after those before it, in the state there was then. -/
def Admits (es : List E) : Prop := ∀ l e r, es = l ++ e :: r → ∃ s, L.inv l s ∧ L.may l s e

theorem admits_nil : L.Admits [] := by
  intro l e r h
  cases l <;> cases h

theorem Admits.append {es : List E} {e : E} (hes : L.Admits es) (hs : L.inv es s)
    (he : L.may es s e) : L.Admits (es ++ [e]) := by
  intro l x r h
  rcases List.eq_nil_or_concat r with rfl | ⟨r, y, rfl⟩
  · obtain ⟨rfl, hx⟩ := List.append_inj' h rfl
    obtain rfl := List.singleton_inj.mp hx
    exact ⟨s, hs, he⟩
  · rw [List.concat_eq_append, ← List.cons_append, ← List.append_assoc] at h
    exact hes l x r (List.append_inj' h rfl).1

end Ledger

namespace Prog

variable {S T E Q A R Q' A' R' : Type}

def Honors (L : Ledger S E) (G : Q → Prop) :
    (R → Prop) → List E → S → Prog S E Q A R → Prop
  | Φ, _, _, ret r => Φ r
  | _, _, _, halt => True
  | Φ, h, s, ask q k => G q ∧ ∀ a, Honors L G Φ h s (k a)
  | Φ, h, s, act f k => ∀ h' s', L.Later h s h' s' → L.inv h' s' →
      ∀ s'', f s' = some s'' → L.bound s'' →
        L.le s' s'' ∧ L.inv h' s'' ∧ Honors L G Φ h' s'' (k s')
  | Φ, h, s, emit e k => ∀ h' s', L.Later h s h' s' → L.inv h' s' →
      L.may h' s' e ∧ Honors L G Φ (h' ++ [e]) s' k
  | Φ, h, s, fork p k => Honors L G (fun _ => True) h s p ∧ Honors L G Φ h s k

namespace Honors

variable {L : Ledger S E} {G : Q → Prop} {G' : Q' → Prop} {Φ : R → Prop} {Ψ : R' → Prop}
  {h h' : List E} {s s' : S} {p mid : Prog S E Q A R} {r : R}

theorem later (hp : Honors L G Φ h s p) (hl : L.Later h s h' s') : Honors L G Φ h' s' p := by
  induction p generalizing Φ with
  | ret r => exact hp
  | halt => trivial
  | ask q k ih => exact ⟨hp.1, fun a => ih a (hp.2 a)⟩
  | act f k _ =>
      intro h'' s'' hl'
      exact hp h'' s'' (hl.trans hl')
  | emit e k _ =>
      intro h'' s'' hl'
      exact hp h'' s'' (hl.trans hl')
  | fork p k ihp ihk => exact ⟨ihp hp.1, ihk hp.2⟩

theorem imp {Φ' : R → Prop} (hp : Honors L G Φ h s p) (hΦ : ∀ r, Φ r → Φ' r) :
    Honors L G Φ' h s p := by
  induction p generalizing h s with
  | ret r => exact hΦ r hp
  | halt => trivial
  | ask q k ih => exact ⟨hp.1, fun a => ih a (hp.2 a)⟩
  | act f k ih =>
      intro h' s' hl hinv s'' hf hb
      obtain ⟨hle, hinv', hk⟩ := hp h' s' hl hinv s'' hf hb
      exact ⟨hle, hinv', ih s' hk⟩
  | emit e k ih =>
      intro h' s' hl hinv
      obtain ⟨he, hk⟩ := hp h' s' hl hinv
      exact ⟨he, ih hk⟩
  | fork p k _ ihk => exact ⟨hp.1, ihk hp.2⟩

/-- What comes next may rely on the result, and on all that has happened by then. -/
theorem bind {k : R → Prog S E Q A R'} (hp : Honors L G Φ h s p)
    (hk : ∀ r h' s', L.Later h s h' s' → Φ r → Honors L G Ψ h' s' (k r)) :
    Honors L G Ψ h s (p.bind k) := by
  induction p generalizing Φ h s R' with
  | ret r => exact hk r h s .refl hp
  | halt => trivial
  | ask q c ih => exact ⟨hp.1, fun a => ih a (hp.2 a) hk⟩
  | act f c ih =>
      intro h' s' hl hinv s'' hf hb
      obtain ⟨hle, hinv', hc⟩ := hp h' s' hl hinv s'' hf hb
      -- the record only grows, so what is known later is known of the earlier one
      refine ⟨hle, hinv', ih s' hc fun r h₁ s₁ hl₁ => hk r h₁ s₁ ?_⟩
      exact hl.trans (.trans ⟨List.prefix_rfl, hle⟩ hl₁)
  | emit e c ih =>
      intro h' s' hl hinv
      obtain ⟨he, hc⟩ := hp h' s' hl hinv
      refine ⟨he, ih hc fun r h₁ s₁ hl₁ => hk r h₁ s₁ ?_⟩
      exact hl.trans (.trans ⟨List.prefix_append _ _, L.le_refl _⟩ hl₁)
  | fork p c ihp ihc =>
      refine ⟨ihp hp.1 ?_, ihc hp.2 hk⟩
      intro _ _ _ _ _
      trivial

/-- The questions in `G` are answered by programs that honor the ledger themselves. -/
theorem plug {M : Type} {hd : M → Q → Prog S E Q' A' A} {step : M → M} {m : M}
    (hp : Honors L G Φ h s p)
    (hh : ∀ m q h' s', L.Later h s h' s' → G q → Honors L G' (fun _ => True) h' s' (hd m q)) :
    Honors L G' Φ h s (p.plug hd step m) := by
  induction p generalizing Φ h s m with
  | ret r => exact hp
  | halt => trivial
  | ask q c ih =>
      -- the question is where the host takes over; its continuation starts from a later record
      refine (hh m q h s .refl hp.1).bind fun a h' s' hl _ => ?_
      exact ih a ((hp.2 a).later hl) fun m q h₁ s₁ hl₁ => hh m q h₁ s₁ (hl.trans hl₁)
  | act f c ih =>
      intro h' s' hl hinv s'' hf hb
      obtain ⟨hle, hinv', hc⟩ := hp h' s' hl hinv s'' hf hb
      refine ⟨hle, hinv', ih s' hc fun m q h₁ s₁ hl₁ => hh m q h₁ s₁ ?_⟩
      exact hl.trans (.trans ⟨List.prefix_rfl, hle⟩ hl₁)
  | emit e c ih =>
      intro h' s' hl hinv
      obtain ⟨he, hc⟩ := hp h' s' hl hinv
      refine ⟨he, ih hc fun m q h₁ s₁ hl₁ => hh m q h₁ s₁ ?_⟩
      exact hl.trans (.trans ⟨List.prefix_append _ _, L.le_refl _⟩ hl₁)
  | fork p c ihp ihc => exact ⟨ihp hp.1 hh, ihc hp.2 hh⟩

/-- A program of which nothing is known, on a part whose changes do no harm. -/
theorem lift {get : S → T} {set : S → T → S}
    (hset : ∀ f : T → Option T, L.Harmless fun s => (f (get s)).map (set s))
    (p : Prog T Empty Q A R) :
    Honors L (fun _ => True) (fun _ => True) h s (p.lift get set : Prog S E Q A R) := by
  induction p generalizing h s with
  | ret r => trivial
  | halt => trivial
  | ask q c ih => exact ⟨trivial, fun a => ih a⟩
  | act f c ih =>
      intro h' s' _ hinv s'' hf hb
      obtain ⟨hle, hinv'⟩ := hset f h' s' s'' hinv hf hb
      exact ⟨hle, hinv', ih (get s')⟩
  | emit e c ih => exact e.elim
  | fork p c ihp ihc => exact ⟨ihp, ihc⟩

theorem trails {own : (S → Option S) → Prop} (hown : ∀ f, own f → L.Harmless f) (hr : Φ r)
    (hp : Trails own r p) : Honors L G Φ h s p := by
  induction hp generalizing h s with
  | ret => exact hr
  | act hf _ ih =>
      intro h' s' _ hinv s'' hs hb
      obtain ⟨hle, hinv'⟩ := hown _ hf h' s' s'' hinv hs hb
      exact ⟨hle, hinv', ih s'⟩

/-- Harmless sections around a program change nothing about what it honors. -/
theorem wraps {own : (S → Option S) → Prop} (hown : ∀ f, own f → L.Harmless f)
    (hmid : Honors L G Φ h s mid) (hp : Wraps own mid p) : Honors L G Φ h s p := by
  induction hp generalizing h s with
  | refl => exact hmid
  | around hk => exact hmid.bind fun r _ _ _ hr => trails hown hr (hk r)
  | act hf _ ih =>
      intro h' s' hl hinv s'' hs hb
      obtain ⟨hle, hinv'⟩ := hown _ hf h' s' s'' hinv hs hb
      exact ⟨hle, hinv', ih s' (hmid.later (hl.trans ⟨List.prefix_rfl, hle⟩))⟩

end Honors

/-- A step of a thread goes on record, and what comes after it still honors the ledger. -/
theorem Honors.next {L : Ledger S E} {G : Empty → Prop} {Φ : R → Prop} {h : List E} {s s' : S}
    {p : Prog S E Empty A R} {es : List E} {ps : List (Prog S E Empty A R)}
    (hp : Honors L G Φ h s p) (hinv : L.inv h s) (hb : L.bound s')
    (hn : p.next s = some (es, s', ps)) :
    L.le s s' ∧ L.inv (h ++ es) s' ∧ (es = [] ∨ ∃ e, es = [e] ∧ L.may h s e) ∧
      ∀ p ∈ ps, Honors L G (fun _ => True) (h ++ es) s' p := by
  cases p with
  | ret r => cases hn
  | halt => cases hn
  | ask q c => exact q.elim
  | act f c =>
      obtain ⟨t, ht, hr⟩ := Option.map_eq_some_iff.mp hn
      cases hr
      obtain ⟨hle, hinv', hc⟩ := hp h s .refl hinv s' ht hb
      rw [List.append_nil]
      exact ⟨hle, hinv', .inl rfl, by simpa using hc.imp fun _ _ => trivial⟩
  | emit e c =>
      cases hn
      obtain ⟨he, hc⟩ := hp h s .refl hinv
      -- only an event lengthens the record, and it is one that may be given now
      exact ⟨L.le_refl s, L.inv_append hinv he, .inr ⟨e, rfl, he⟩,
        by simpa using hc.imp fun _ _ => trivial⟩
  | fork p c =>
      cases hn
      rw [List.append_nil]
      exact ⟨L.le_refl s, hinv, .inl rfl, by simpa using ⟨hp.1, hp.2.imp fun _ _ => trivial⟩⟩

end Prog

/-- What happens around the threads does no harm, and what is started there honors the ledger. -/
structure World.Respects {S E A R : Type} (W : World S E A R) (L : Ledger S E) : Prop where
  bound : ∀ s, W.bound s → L.bound s
  env : ∀ h s s', W.env s s' → L.bound s' → L.inv h s → L.le s s' ∧ L.inv h s'
  spawn : ∀ p, W.spawn p → ∀ h s, Prog.Honors L (fun _ => True) (fun _ => True) h s p

namespace Pool

open Prog

variable {S E A R : Type} {W : World S E A R} {L : Ledger S E} {a b : Pool S E A R} {h es : List E}

structure Honored (L : Ledger S E) (h : List E) (a : Pool S E A R) : Prop where
  inv : L.inv h a.state
  threads : ∀ p ∈ a.threads, Prog.Honors L (fun _ => True) (fun _ => True) h a.state p

theorem Step.honored (hW : W.Respects L) (hs : Step W a es b) (ha : a.Honored L h) :
    b.Honored L (h ++ es) ∧ (es = [] ∨ ∃ e, es = [e] ∧ L.may h a.state e) := by
  cases hs with
  | @thread s s' _ _ ps l r hn hb =>
      obtain ⟨hl, hpr⟩ := List.forall_mem_append.mp ha.threads
      obtain ⟨hp, hr⟩ := List.forall_mem_cons.mp hpr
      obtain ⟨hle, hinv, hes, hps⟩ := hp.next ha.inv (hW.bound s' hb) hn
      have hlater : L.Later h s (h ++ es) s' := ⟨List.prefix_append h es, hle⟩
      refine ⟨⟨hinv, List.forall_mem_append.mpr ⟨?_, List.forall_mem_append.mpr ⟨hps, ?_⟩⟩⟩, hes⟩
      · exact fun p hp => (hl p hp).later hlater
      · exact fun p hp => (hr p hp).later hlater
  | @env s s' ts he hb =>
      obtain ⟨hle, hinv⟩ := hW.env h s s' he (hW.bound s' hb) ha.inv
      rw [List.append_nil]
      exact ⟨⟨hinv, fun p hp => (ha.threads p hp).later ⟨List.prefix_rfl, hle⟩⟩, .inl rfl⟩
  | spawn ts hp =>
      rw [List.append_nil]
      exact ⟨⟨ha.inv, List.forall_mem_cons.mpr ⟨hW.spawn _ hp h _, ha.threads⟩⟩, .inl rfl⟩

/-- In every run the invariant holds of what has been shown, and nothing was shown before its time. -/
theorem Run.honored (hW : W.Respects L) (hrun : Run W a es b) (ha : a.Honored L []) :
    b.Honored L es ∧ L.Admits es := by
  induction hrun with
  | refl => exact ⟨ha, Ledger.admits_nil⟩
  | tail _ hs ih =>
      obtain ⟨hb, hes⟩ := ih
      obtain ⟨hc, rfl | ⟨e, rfl, he⟩⟩ := hs.honored hW hb
      · rw [List.append_nil] at hc ⊢
        exact ⟨hc, hes⟩
      · exact ⟨hc, hes.append hb.inv he⟩

end Pool
