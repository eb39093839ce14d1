import GayRpc.Lib.Prog

/-!
# Programs around a program

`Wraps own mid p`: `p` is `mid` with sections of its own before and after it, and comes back with what
`mid` comes back with. Whoever passes a question on wraps that question; once the question is answered,
it wraps the answering program (`Wraps.plug`).

Layers of code that only look at what goes through them can then be forgotten. What a proof needs to know
of such a layer is which sections it has, and a rule for `Wraps` says that these do no harm.
-/

namespace Prog

variable {S T E Q A R Q' A' : Type}

/-- Sections of a program's own, and then the end with `r`. -/
inductive Trails (own : (S → Option S) → Prop) (r : R) : Prog S E Q A R → Prop
  | ret : Trails own r (ret r)
  | act {f : S → Option S} {k : S → Prog S E Q A R} (hf : own f) (hk : ∀ s, Trails own r (k s)) :
      Trails own r (act f k)

inductive Wraps (own : (S → Option S) → Prop) (mid : Prog S E Q A R) : Prog S E Q A R → Prop
  | refl : Wraps own mid mid
  | around {k : R → Prog S E Q A R} (hk : ∀ r, Trails own r (k r)) : Wraps own mid (mid.bind k)
  | act {f : S → Option S} {k : S → Prog S E Q A R} (hf : own f) (hk : ∀ s, Wraps own mid (k s)) :
      Wraps own mid (act f k)

variable {own : (S → Option S) → Prop} {mid mid' p : Prog S E Q A R} {r : R}

namespace Trails

theorem bind {k : R → Prog S E Q A R} (hp : Trails own r p) (hk : Trails own r (k r)) :
    Trails own r (p.bind k) := by
  induction hp with
  | ret => exact hk
  | act hf _ ih => exact .act hf ih

theorem plug {M : Type} {h : M → Q → Prog S E Q' A' A} {step : M → M} {m : M}
    (hp : Trails own r p) : Trails own r (p.plug h step m) := by
  induction hp with
  | ret => exact .ret
  | act hf _ ih => exact .act hf ih

theorem lift {get : S → T} {set : S → T → S} {own' : (T → Option T) → Prop}
    {p : Prog T Empty Q A R} (hp : Trails own' r p)
    (hown : ∀ f, own' f → own fun s => (f (get s)).map (set s)) :
    Trails own r (p.lift get set : Prog S E Q A R) := by
  induction hp with
  | ret => exact .ret
  | act hf _ ih => exact .act (hown _ hf) fun s => ih (get s)

end Trails

namespace Wraps

theorem bind {k : R → Prog S E Q A R} (hp : Wraps own mid p) (hk : ∀ r, Trails own r (k r)) :
    Wraps own mid (p.bind k) := by
  induction hp with
  | refl => exact .around hk
  | around hk' =>
      rw [bind_assoc]
      exact .around fun r => (hk' r).bind (hk r)
  | act hf _ ih => exact .act hf ih

theorem trans (hmid : Wraps own mid mid') (hp : Wraps own mid' p) : Wraps own mid p := by
  induction hp with
  | refl => exact hmid
  | around hk => exact hmid.bind hk
  | act hf _ ih => exact .act hf ih

/-- Around a question, there is the answering program afterwards. -/
theorem plug {M : Type} {h : M → Q → Prog S E Q' A' A} {step : M → M} {m : M} {q : Q}
    {p : Prog S E Q A A} (hp : Wraps own (ask q ret) p) : Wraps own (h m q) (p.plug h step m) := by
  induction hp with
  | refl => exact .around fun _ => .ret
  | around hk => exact .around fun r => (hk r).plug
  | act hf _ ih => exact .act hf ih

/-- What is around a program stays around it when its questions are answered. -/
theorem answered {h : Q → Prog S E Q' A' A} (hp : Wraps own mid p) :
    Wraps own (mid.plug (fun _ => h) id ()) (p.plug (fun _ => h) id ()) := by
  induction hp with
  | refl => exact .refl
  | around hk =>
      rw [plug_bind]
      exact .around fun r => (hk r).plug
  | act hf _ ih => exact .act hf ih

theorem lift {get : S → T} {set : S → T → S} {own' : (T → Option T) → Prop}
    {mid p : Prog T Empty Q A R} (hp : Wraps own' mid p)
    (hown : ∀ f, own' f → own fun s => (f (get s)).map (set s)) :
    Wraps own (mid.lift get set : Prog S E Q A R) (p.lift get set) := by
  induction hp with
  | refl => exact .refl
  | @around k hk =>
      have hlift : ((mid.bind k).lift get set : Prog S E Q A R) =
          (mid.lift get set).bind fun r => (k r).lift get set := lift_bind mid k
      rw [hlift]
      exact .around fun r => (hk r).lift hown
  | act hf _ ih => exact .act (hown _ hf) fun s => ih (get s)

end Wraps

end Prog
