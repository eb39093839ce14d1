import GayRpc.Lib.Prog
import Mathlib.Data.List.Basic

/-!
# Programs with a determined trace

`Emits es p`: whatever the state does, and however the threads of `p` are scheduled, `p` shows the
events of `es` and asks a question where `es` has a `none`, in this order and with nothing else.
That is so when at most one of two threads running beside each other still has something to show, which
is what the constructors for `fork` say: it is the thread that is started, or the one that goes on.

Such programs are put together by `bind` and `plug`, and they may be run on a part of a larger state
(`lift`). For `plug` the interesting case is that of a program that asks once, at its end: a layer of
code that passes a message on, and shows what it does before. Its trace is then followed by that of the
layer below (`Emits.plug`), so that the trace of a chain of layers is read off layer by layer.

What the runs of such a program show is said in `Lib/Rounds`, since they are a special case of
the programs there: the trace is all the work they ever have.
-/

namespace Prog

variable {S T E Q A R Q' A' R' : Type}

inductive Emits : List (Option E) → Prog S E Q A R → Prop where
  | ret (r : R) : Emits [] (ret r)
  | halt : Emits [] halt
  | ask {es : List (Option E)} (q : Q) {k : A → Prog S E Q A R} (h : ∀ a, Emits es (k a)) :
      Emits (none :: es) (ask q k)
  | act {es : List (Option E)} {f : S → Option S} {k : S → Prog S E Q A R}
      (enabled : ∃ s, (f s).isSome) (h : ∀ s, (f s).isSome → Emits es (k s)) : Emits es (act f k)
  | emit {es : List (Option E)} (e : E) {k : Prog S E Q A R} (h : Emits es k) :
      Emits (some e :: es) (emit e k)
  /-- the thread that is started shows everything -/
  | left {es : List (Option E)} {p k : Prog S E Q A R} (hp : Emits es p) (hk : Emits [] k) :
      Emits es (fork p k)
  /-- the thread that is started shows nothing -/
  | right {es : List (Option E)} {p k : Prog S E Q A R} (hp : Emits [] p) (hk : Emits es k) :
      Emits es (fork p k)

namespace Emits

variable {es hs : List (Option E)} {u : List E} {p : Prog S E Q A R}

/-- What shows nothing may come after anything. -/
theorem bind {k : R → Prog S E Q A R'} (hp : Emits es p) (hk : ∀ r, Emits [] (k r)) :
    Emits es (p.bind k) := by
  induction hp generalizing R' with
  | ret r => exact hk r
  | halt => exact .halt
  | ask q _ ih => exact .ask q fun a => ih a hk
  | act enabled _ ih => exact .act enabled fun s hs => ih s hs hk
  | emit e _ ih => exact .emit e (ih hk)
  | left _ _ ihp ihk => exact .left (ihp fun _ => .halt) (ihk hk)
  | right _ _ ihp ihk => exact .right (ihp fun _ => .halt) (ihk hk)

section plug

variable {M : Type} {h : M → Q → Prog S E Q' A' A} {step : M → M} {m : M}

/-- A program that asks nothing is left as it is. -/
theorem plug_some (hp : Emits (u.map some) p) : Emits (u.map some) (p.plug h step m) := by
  generalize hes : u.map some = es at hp
  induction hp generalizing u m with
  | ret r => exact .ret r
  | halt => exact .halt
  | ask q _ _ => cases u <;> simp at hes
  | act enabled _ ih => exact .act enabled fun s hs => ih s hs hes
  | emit e _ ih =>
      cases u with
      | nil => simp at hes
      | cons e' u => exact .emit e (ih (List.cons.inj hes).2)
  | left _ _ ihp ihk => exact .left (ihp hes) (ihk (u := []) rfl)
  | right _ _ ihp ihk => exact .right (ihp (u := []) rfl) (ihk hes)

/-- A program that asks once, at the end, shows what it shows and then what the answering program
shows, which finds its cell as it was at the start. -/
theorem plug (hh : ∀ q, Emits hs (h m q)) (hp : Emits (u.map some ++ [none]) p) :
    Emits (u.map some ++ hs) (p.plug h step m) := by
  generalize hes : u.map some ++ [none] = es at hp
  induction hp generalizing u with
  | ret r => simp at hes
  | halt => simp at hes
  | ask q hk _ =>
      cases u with
      | nil =>
          obtain rfl := (List.cons.inj hes).2
          -- the unknown event is the question, which the host answers from here on
          exact (hh q).bind fun a => plug_some (u := []) (hk a)
      | cons e u => simp at hes
  | act enabled _ ih => exact .act enabled fun s hs' => ih s hs' hes
  | emit e _ ih =>
      cases u with
      | nil => simp at hes
      | cons e' u =>
          obtain ⟨he, hrest⟩ := List.cons.inj hes
          obtain rfl := Option.some.inj he
          exact .emit e' (ih hrest)
  | left _ hk ihp _ => exact .left (ihp hes) (plug_some (u := []) hk)
  | right hp _ _ ihk => exact .right (plug_some (u := []) hp) (ihk hes)

end plug

/-- A program that shows nothing of its own asks the same questions of a larger state, as long as
every value of its part can occur there. -/
theorem lift {get : S → T} {set : S → T → S} (hget : ∀ t, ∃ s, get s = t) {n : ℕ}
    {p : Prog T Empty Q A R} (hp : Emits (List.replicate n none) p) :
    Emits (List.replicate n none) (p.lift get set : Prog S E Q A R) := by
  generalize hes : List.replicate n none = es at hp
  induction hp generalizing n with
  | ret r =>
      cases n with
      | zero => exact .ret r
      | succ n => cases hes
  | halt =>
      cases n with
      | zero => exact .halt
      | succ n => cases hes
  | ask q _ ih =>
      cases n with
      | zero => cases hes
      | succ n => exact .ask q fun a => ih a (List.cons.inj hes).2
  | act enabled _ ih =>
      obtain ⟨t, ht⟩ := enabled
      -- some state of the whole shows this part
      obtain ⟨s, rfl⟩ := hget t
      refine .act ⟨s, by simpa using ht⟩ fun s' hs' => ih (get s') (by simpa using hs') hes
  | emit e _ _ => exact e.elim
  | left _ _ ihp ihk => exact .left (ihp hes) (ihk (n := 0) rfl)
  | right _ _ ihp ihk => exact .right (ihp (n := 0) rfl) (ihk hes)

end Emits

end Prog
