import Mathlib.Logic.Function.Basic

/-!
# Automata

An automaton moves from state to state, and each move shows some events. One automaton implements another
when a forward simulation leads from the first to the second: whatever the first can show, the second can
show as well (`Simulation.reaches`).

    A.Reaches es s   —   the automaton A has started somewhere, shown the events es, and is in s.

A step of the first automaton may be answered by any number of steps of the second one, as long as both
show the same. The relation between the states is a field of the simulation, and what it says of the state
that is reached comes out of `Simulation.reaches` together with the run of the second automaton.

Facts about the second automaton are proved once, by an invariant (`Reaches.invariant`), and carried over
by the simulation. Copies of one automaton that move one at a time are an automaton again (`family`); the
events of one copy are then a run of that copy (`Reaches.eventsOf`).
-/

structure Automaton (S E : Type) where
  init : S → Prop
  step : S → List E → S → Prop

namespace Automaton

variable {S T E : Type}

inductive Moves (A : Automaton S E) : S → List E → S → Prop
  | refl {s : S} : Moves A s [] s
  | tail {s s' s'' : S} {es es' : List E} :
      Moves A s es s' → A.step s' es' s'' → Moves A s (es ++ es') s''

def Reaches (A : Automaton S E) (es : List E) (s : S) : Prop := ∃ s₀, A.init s₀ ∧ A.Moves s₀ es s

variable {A : Automaton S E} {B : Automaton T E}

theorem Moves.single {s s' : S} {es : List E} (h : A.step s es s') : A.Moves s es s' :=
  Moves.tail .refl h

theorem Moves.trans {s s' s'' : S} {es es' : List E} (h : A.Moves s es s') (h' : A.Moves s' es' s'') :
    A.Moves s (es ++ es') s'' := by
  induction h' with
  | refl => rwa [List.append_nil]
  | tail _ hstep ih =>
      rw [← List.append_assoc]
      exact ih.tail hstep

/-- What holds at the start and is kept by every step holds of all that can be reached. -/
theorem Reaches.invariant {I : List E → S → Prop} (hinit : ∀ s, A.init s → I [] s)
    (hstep : ∀ es s es' s', I es s → A.step s es' s' → I (es ++ es') s') {es : List E} {s : S}
    (h : A.Reaches es s) : I es s := by
  obtain ⟨s₀, hs₀, hmoves⟩ := h
  induction hmoves with
  | refl => exact hinit _ hs₀
  | tail _ hlast ih => exact hstep _ _ _ _ ih hlast

variable (A B) in
/-- Every step of the first automaton is some steps of the second that show the same. -/
structure Simulation where
  rel : S → T → Prop
  init : ∀ s, A.init s → ∃ t, B.init t ∧ rel s t
  step : ∀ s t es s', rel s t → A.step s es s' → ∃ t', B.Moves t es t' ∧ rel s' t'

/-- **What simulates implements.** -/
theorem Simulation.reaches (sim : A.Simulation B) {es : List E} {s : S} (h : A.Reaches es s) :
    ∃ t, B.Reaches es t ∧ sim.rel s t := by
  refine h.invariant (I := fun es s => ∃ t, B.Reaches es t ∧ sim.rel s t) ?_ ?_
  · intro s hs
    obtain ⟨t, ht, hrel⟩ := sim.init s hs
    exact ⟨t, ⟨t, ht, .refl⟩, hrel⟩
  · intro es s es' s' hreached hstep
    obtain ⟨t, ⟨t₀, ht₀, hmoves⟩, hrel⟩ := hreached
    obtain ⟨t', hmoves', hrel'⟩ := sim.step s t es' s' hrel hstep
    exact ⟨t', ⟨t₀, ht₀, hmoves.trans hmoves'⟩, hrel'⟩

/-! ## Side by side -/

section family

variable {ι : Type} [DecidableEq ι]

variable (ι A) in
/-- Copies of one automaton, which move one at a time. The events say whose they are. -/
def family : Automaton (ι → S) (ι × E) where
  init f := ∀ i, A.init (f i)
  step f es f' := ∃ i es' s, A.step (f i) es' s ∧ es = es'.map (Prod.mk i) ∧ f' = Function.update f i s

def eventsOf (i : ι) : List (ι × E) → List E
  | [] => []
  | (j, e) :: es => if j = i then e :: eventsOf i es else eventsOf i es

theorem eventsOf_append (i : ι) (es es' : List (ι × E)) :
    eventsOf i (es ++ es') = eventsOf i es ++ eventsOf i es' := by
  induction es with
  | nil => rfl
  | cons p es ih =>
      by_cases h : p.1 = i <;> simp [eventsOf, h, ih]

theorem eventsOf_map (i j : ι) (es : List E) :
    eventsOf i (es.map (Prod.mk j)) = if j = i then es else [] := by
  induction es with
  | nil => simp [eventsOf]
  | cons e es ih =>
      by_cases h : j = i
      · simpa [eventsOf, h] using ih
      · simpa [eventsOf, h] using ih

/-- The steps of one copy, while the others stand still. -/
theorem Moves.family {f : ι → S} {i : ι} {es : List E} {s : S} (h : A.Moves (f i) es s) :
    (A.family ι).Moves f (es.map (Prod.mk i)) (Function.update f i s) := by
  induction h with
  | refl =>
      rw [Function.update_eq_self]
      exact .refl
  | @tail s' s'' es es' _ hstep ih =>
      rw [List.map_append]
      refine ih.tail ⟨i, es', s'', ?_, rfl, ?_⟩
      · rwa [Function.update_self]
      · rw [Function.update_idem]

/-- What all do together, each does on its own. -/
theorem Reaches.eventsOf {es : List (ι × E)} {f : ι → S} (h : (A.family ι).Reaches es f) (i : ι) :
    A.Reaches (eventsOf i es) (f i) := by
  refine h.invariant (I := fun es f => A.Reaches (Automaton.eventsOf i es) (f i)) ?_ ?_
  · intro f hf
    exact ⟨f i, hf i, .refl⟩
  · intro es f es' f' hreached hstep
    obtain ⟨s₀, hs₀, hmoves⟩ := hreached
    obtain ⟨j, es', s, hstep, rfl, rfl⟩ := hstep
    refine ⟨s₀, hs₀, ?_⟩
    rw [eventsOf_append, eventsOf_map]
    by_cases h : j = i
    · subst h
      rw [if_pos rfl, Function.update_self]
      exact hmoves.tail hstep
    · rw [if_neg h, List.append_nil, Function.update_of_ne (Ne.symm h)]
      exact hmoves

end family

end Automaton
