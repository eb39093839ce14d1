import GayRpc.Lib.Prog

/-!
# Programs that do not put off an answer

Some events are questions (`asks`) and others answer them (`gives`). A program is `Prompt` if, whenever it
shows a question, the very next thing it shows on the same thread is an answer, with no section in
between that might have to wait.

In a pool of such programs a question that has been shown is not lost, however the threads interleave: it
has been answered, or there is a thread that is about to answer it, and that thread cannot be stopped
(`Run.answered_next`). So every run can be continued to one in which the question has been answered.

Nothing is said here of programs that have to wait before they answer. Their duties may be kept waiting
forever, and need a notion of being over.
-/

namespace Prog

variable {S T E Q A R Q' A' R' : Type}

/-- The next thing the program does is to show an event in `gives`. -/
def Shows (gives : E → Prop) (p : Prog S E Q A R) : Prop :=
  ∃ e k, p = emit e k ∧ gives e

theorem Shows.bind {gives : E → Prop} {p : Prog S E Q A R} (hp : p.Shows gives)
    (k : R → Prog S E Q A R') : (p.bind k).Shows gives := by
  obtain ⟨e, c, rfl, he⟩ := hp
  exact ⟨e, c.bind k, rfl, he⟩

theorem Shows.plug {gives : E → Prop} {M : Type} {h : M → Q → Prog S E Q' A' A} {step : M → M} {m : M}
    {p : Prog S E Q A R} (hp : p.Shows gives) : (p.plug h step m).Shows gives := by
  obtain ⟨e, c, rfl, he⟩ := hp
  exact ⟨e, c.plug h step m, rfl, he⟩

def Prompt (asks gives : E → Prop) : Prog S E Q A R → Prop
  | ret _ => True
  | halt => True
  | ask _ k => ∀ a, (k a).Prompt asks gives
  | act _ k => ∀ s, (k s).Prompt asks gives
  | emit e k => (asks e → k.Shows gives) ∧ k.Prompt asks gives
  | fork p k => p.Prompt asks gives ∧ k.Prompt asks gives

namespace Prompt

variable {asks gives : E → Prop} {p : Prog S E Q A R}

theorem bind {k : R → Prog S E Q A R'} (hp : p.Prompt asks gives)
    (hk : ∀ r, (k r).Prompt asks gives) : (p.bind k).Prompt asks gives := by
  induction p generalizing R' with
  | ret r => exact hk r
  | halt => trivial
  | ask q c ih =>
      intro a
      exact ih a (hp a) hk
  | act f c ih =>
      intro s
      exact ih s (hp s) hk
  | emit e c ih => exact ⟨fun he => (hp.1 he).bind k, ih hp.2 hk⟩
  | fork p c ihp ihc => exact ⟨ihp hp.1 fun _ => trivial, ihc hp.2 hk⟩

theorem plug {M : Type} {h : M → Q → Prog S E Q' A' A} {step : M → M} (hp : p.Prompt asks gives)
    (hh : ∀ m q, (h m q).Prompt asks gives) (m : M) : (p.plug h step m).Prompt asks gives := by
  induction p generalizing m with
  | ret r => trivial
  | halt => trivial
  | ask q c ih => exact (hh m q).bind fun a => ih a (hp a) _
  | act f c ih =>
      intro s
      exact ih s (hp s) _
  | emit e c ih => exact ⟨fun he => (hp.1 he).plug, ih hp.2 _⟩
  | fork p c ihp ihc => exact ⟨ihp hp.1 _, ihc hp.2 _⟩

/-- A program that shows nothing asks nothing. -/
theorem lift {get : S → T} {set : S → T → S} (p : Prog T Empty Q A R) :
    (p.lift get set : Prog S E Q A R).Prompt asks gives := by
  induction p with
  | ret r => trivial
  | halt => trivial
  | ask q c ih => exact ih
  | act f c ih => exact fun s => ih (get s)
  | emit e c _ => exact e.elim
  | fork p c ihp ihc => exact ⟨ihp, ihc⟩

end Prompt

/-- A step that shows a question leaves a thread that is about to answer it. -/
theorem Prompt.next {asks gives : E → Prop} {p : Prog S E Empty A R} {s s' : S} {es : List E}
    {ps : List (Prog S E Empty A R)} (hp : p.Prompt asks gives) (h : p.next s = some (es, s', ps)) :
    (∀ p ∈ ps, p.Prompt asks gives) ∧ ((∃ e ∈ es, asks e) → ∃ p ∈ ps, p.Shows gives) ∧
      (p.Shows gives → ∃ e ∈ es, gives e) := by
  cases p with
  | ret r => cases h
  | halt => cases h
  | ask q c => exact q.elim
  | act f c =>
      obtain ⟨t, -, hr⟩ := Option.map_eq_some_iff.mp h
      cases hr
      refine ⟨by simpa using hp s, by simp, ?_⟩
      rintro ⟨e, k, heq, -⟩
      cases heq
  | emit e c =>
      cases h
      refine ⟨by simpa using hp.2, ?_, ?_⟩
      · rintro ⟨e', he', hasks⟩
        -- after an event that asks, giving is the very next thing the thread does
        obtain rfl := List.mem_singleton.mp he'
        exact ⟨c, List.mem_singleton.mpr rfl, hp.1 hasks⟩
      · rintro ⟨e', k, heq, hgives⟩
        obtain ⟨rfl, -⟩ := Prog.emit.inj heq
        exact ⟨e, List.mem_singleton.mpr rfl, hgives⟩
  | fork p c =>
      cases h
      have hpc : p.Prompt asks gives ∧ c.Prompt asks gives := hp
      refine ⟨by simpa using hpc, by simp, ?_⟩
      rintro ⟨e, k, heq, -⟩
      cases heq

end Prog

namespace Pool

open Prog

variable {S E A R : Type} {W : World S E A R} {asks gives : E → Prop} {a b : Pool S E A R}
  {es fs : List E}

/-- The threads are prompt, and what has been asked is answered, or about to be. -/
structure Answering (asks gives : E → Prop) (es : List E) (a : Pool S E A R) : Prop where
  prompt : ∀ p ∈ a.threads, p.Prompt asks gives
  answered : (∃ e ∈ es, asks e) → (∃ e ∈ es, gives e) ∨ ∃ p ∈ a.threads, p.Shows gives

theorem Step.answering (hW : ∀ p, W.spawn p → p.Prompt asks gives) (h : Step W a fs b)
    (ha : a.Answering asks gives es) : b.Answering asks gives (es ++ fs) := by
  cases h with
  | @thread s s' p _ ps l r hn hb =>
      obtain ⟨hl, hpr⟩ := List.forall_mem_append.mp ha.prompt
      obtain ⟨hp, hr⟩ := List.forall_mem_cons.mp hpr
      obtain ⟨hps, hasks, hgives⟩ := hp.next hn
      refine ⟨List.forall_mem_append.mpr ⟨hl, List.forall_mem_append.mpr ⟨hps, hr⟩⟩, ?_⟩
      rintro ⟨e, he, hask⟩
      rcases List.mem_append.mp he with he | he
      · rcases ha.answered ⟨e, he, hask⟩ with ⟨e', he', hgive⟩ | ⟨q, hq, hshows⟩
        · exact .inl ⟨e', List.mem_append_left fs he', hgive⟩
        -- the thread that is about to answer has moved, or it is still there
        · rcases List.mem_append.mp hq with hq | hq
          · exact .inr ⟨q, List.mem_append_left _ hq, hshows⟩
          · rcases List.mem_cons.mp hq with rfl | hq
            · obtain ⟨e', he', hgive⟩ := hgives hshows
              exact .inl ⟨e', List.mem_append_right es he', hgive⟩
            · exact .inr ⟨q, List.mem_append_right l (List.mem_append_right ps hq), hshows⟩
      · obtain ⟨q, hq, hshows⟩ := hasks ⟨e, he, hask⟩
        exact .inr ⟨q, List.mem_append_right l (List.mem_append_left r hq), hshows⟩
  | env ts _ _ =>
      rw [List.append_nil]
      exact ⟨ha.prompt, ha.answered⟩
  | spawn ts hp =>
      rw [List.append_nil]
      refine ⟨List.forall_mem_cons.mpr ⟨hW _ hp, ha.prompt⟩, fun he => ?_⟩
      rcases ha.answered he with hgive | ⟨q, hq, hshows⟩
      · exact .inl hgive
      · exact .inr ⟨q, List.mem_cons_of_mem _ hq, hshows⟩

theorem Run.answering (hW : ∀ p, W.spawn p → p.Prompt asks gives) (h : Run W a es b)
    (ha : ∀ p ∈ a.threads, p.Prompt asks gives) : b.Answering asks gives es := by
  induction h with
  | refl => exact ⟨ha, by simp⟩
  | tail _ hs ih => exact hs.answering hW ih

/-- Wherever a run has got to, what was asked has been answered, or is one step away from it. -/
theorem Run.answered_next (hW : ∀ p, W.spawn p → p.Prompt asks gives) (h : Run W a es b)
    (ha : ∀ p ∈ a.threads, p.Prompt asks gives) (hb : W.bound b.state) (he : ∃ e ∈ es, asks e) :
    ∃ fs c, Run W b fs c ∧ ∃ e ∈ es ++ fs, gives e := by
  rcases (h.answering hW ha).answered he with hgive | ⟨p, hp, e, k, rfl, hgive⟩
  · refine ⟨[], b, .refl, ?_⟩
    rwa [List.append_nil]
  · obtain ⟨s, ts⟩ := b
    obtain ⟨l, r, rfl⟩ := List.append_of_mem hp
    exact ⟨[e], ⟨s, l ++ k :: r⟩, .single (.emit l r e hb), e, by simp, hgive⟩

end Pool
