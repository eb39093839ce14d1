import GayRpc.Lib.Sequel
import GayRpc.Lib.Trace

/-!
# How a program asks

`AsksAtMost n p`: no thread of `p` asks more than `n` questions. It is said thread by thread, since a
thread takes a copy along of the cell in which the answering side keeps what it remembers: a program that
hands a question to each of two threads asks each of them once.

What it is for is to do without the cell. Who answers a program that asks once finds the cell as it was at
the start (`AsksAtMost.plug_once`), and who answers a program that asks nothing does not matter at all. The
two together let `plug` be nested the other way round when those who answer ask in their turn.

`Alike p q`: for whoever waits for their results, `p` and `q` are the same. They may differ in how a
thread ends that nobody waits for. It is an equivalence that `bind` and answering respect, and it is all
that can be expected of two ways to build the same chain of calls.
-/

namespace Prog

variable {S T E Q A R Q' A' R' Q'' A'' : Type}

/-- No thread of the program asks more than `n` questions, those counted that were asked before the
thread was started. -/
def AsksAtMost : ℕ → Prog S E Q A R → Prop
  | _, ret _ => True
  | _, halt => True
  | 0, ask _ _ => False
  | n + 1, ask _ k => ∀ a, AsksAtMost n (k a)
  | n, act _ k => ∀ s, AsksAtMost n (k s)
  | n, emit _ k => AsksAtMost n k
  | n, fork p k => AsksAtMost n p ∧ AsksAtMost n k

namespace AsksAtMost

variable {n m : ℕ} {p : Prog S E Q A R}

theorem mono (hp : AsksAtMost n p) (hle : n ≤ m) : AsksAtMost m p := by
  induction p generalizing n m with
  | ret r => trivial
  | halt => trivial
  | ask q k ih =>
      cases n with
      | zero => exact hp.elim
      | succ n =>
          obtain ⟨m, rfl⟩ : ∃ m', m = m' + 1 := ⟨m - 1, by omega⟩
          exact fun a => ih a (hp a) (by omega)
  | act f k ih => exact fun s => ih s (hp s) hle
  | emit e k ih => exact ih hp hle
  | fork p k ihp ihk => exact ⟨ihp hp.1 hle, ihk hp.2 hle⟩

theorem bind {k : R → Prog S E Q A R'} (hp : AsksAtMost n p) (hk : ∀ r, AsksAtMost m (k r)) :
    AsksAtMost (n + m) (p.bind k) := by
  induction p generalizing n m R' with
  | ret r => exact (hk r).mono (by omega)
  | halt => trivial
  | ask q c ih =>
      cases n with
      | zero => exact hp.elim
      | succ n =>
          show AsksAtMost (n + 1 + m) (ask q fun a => (c a).bind k)
          rw [Nat.add_right_comm]
          exact fun a => ih a (hp a) hk
  | act f c ih => exact fun s => ih s (hp s) hk
  | emit e c ih => exact ih hp hk
  | fork p c ihp ihc =>
      have hhalt : AsksAtMost m (halt : Prog S E Q A R') := trivial
      exact ⟨ihp hp.1 fun _ => hhalt, ihc hp.2 hk⟩

theorem lift {get : S → T} {set : S → T → S} {p : Prog T Empty Q A R} (hp : AsksAtMost n p) :
    AsksAtMost n (p.lift get set : Prog S E Q A R) := by
  induction p generalizing n with
  | ret r => trivial
  | halt => trivial
  | ask q k ih =>
      cases n with
      | zero => exact hp.elim
      | succ n => exact fun a => ih a (hp a)
  | act f k ih => exact fun s => ih (get s) (hp (get s))
  | emit e k _ => exact e.elim
  | fork p k ihp ihk => exact ⟨ihp hp.1, ihk hp.2⟩

section plug

variable {M : Type} {h : M → Q → Prog S E Q' A' A} {step : M → M} {x : M}

/-- Who asks nothing does not care who would have answered. -/
theorem plug_eq {N : Type} {h' : N → Q → Prog S E Q' A' A} {step' : N → N} (hp : AsksAtMost 0 p)
    (x : M) (y : N) : p.plug h step x = p.plug h' step' y := by
  induction p with
  | ret r => rfl
  | halt => rfl
  | ask q k _ => exact hp.elim
  | act f k ih => exact act_congr fun s => ih s (hp s)
  | emit e k ih => exact congrArg (emit e) (ih hp)
  | fork p k ihp ihk => exact congrArg₂ fork (ihp hp.1) (ihk hp.2)

/-- Who asks once finds the cell of the answering side as it was at the start. -/
theorem plug_once (hp : AsksAtMost 1 p) (x : M) : p.plug h step x = p.plug (fun _ => h x) id () := by
  induction p with
  | ret r => rfl
  | halt => rfl
  | ask q k _ => exact bind_congr fun a => plug_eq (hp a) _ _
  | act f k ih => exact act_congr fun s => ih s (hp s)
  | emit e k ih => exact congrArg (emit e) (ih hp)
  | fork p k ihp ihk => exact congrArg₂ fork (ihp hp.1) (ihk hp.2)

/-- What the answering side asks is asked once for every question. -/
theorem plug (hp : AsksAtMost n p) (hh : ∀ x q, AsksAtMost m (h x q)) :
    AsksAtMost (n * m) (p.plug h step x) := by
  induction p generalizing n x with
  | ret r => trivial
  | halt => trivial
  | ask q k ih =>
      cases n with
      | zero => exact hp.elim
      | succ n =>
          rw [Nat.succ_mul, Nat.add_comm]
          exact (hh x q).bind fun a => ih a (hp a)
  | act f k ih => exact fun s => ih s (hp s)
  | emit e k ih => exact ih hp
  | fork p k ihp ihk => exact ⟨ihp hp.1, ihk hp.2⟩

end plug

end AsksAtMost

/-! ## Answers that ask in their turn

Layers of code may be put together from the top or from the bottom. -/

theorem plug_plug {M : Type} {h : M → Q → Prog S E Q' A' A} {step : M → M} {x : M}
    {g : Q' → Prog S E Q'' A'' A'} (p : Prog S E Q A R) :
    (p.plug h step x).plug (fun _ => g) id () =
      p.plug (fun x q => (h x q).plug (fun _ => g) id ()) step x := by
  induction p generalizing x with
  | ret r => rfl
  | halt => rfl
  | ask q k ih =>
      show ((h x q).bind _).plug (fun _ => g) id () = ((h x q).plug (fun _ => g) id ()).bind _
      rw [plug_bind]
      exact bind_congr fun a => ih a
  | act f k ih => exact act_congr fun s => ih s
  | emit e k ih => exact congrArg (emit e) ih
  | fork p k ihp ihk => exact congrArg₂ fork ihp ihk

/-- Nobody waits for the threads that a program starts, so it does not matter what they come back
with. -/
def Alike (p q : Prog S E Q A R) : Prop := p.bind ret = q.bind ret

namespace Alike

variable {p q r : Prog S E Q A R}

theorem refl : Alike p p := rfl

theorem of_eq (h : p = q) : Alike p q := congrArg (Prog.bind · ret) h

theorem symm (h : Alike p q) : Alike q p := Eq.symm h

theorem bind_ret : Alike (p.bind ret) p := bind_assoc p ret ret

/-- Programs that are alike are the same to a caller. -/
theorem bind (h : Alike p q) (k : R → Prog S E Q A R') : p.bind k = q.bind k := by
  have hp : ∀ p : Prog S E Q A R, p.bind k = (p.bind ret).bind k := fun p => (bind_assoc p ret k).symm
  rw [hp p, hp q, show p.bind ret = q.bind ret from h]

/-- Whoever asks waits for the answer. -/
theorem answer {h h' : Q → Prog S E Q' A' A} (hh : ∀ q, Alike (h q) (h' q)) (p : Prog S E Q A R) :
    p.plug (fun _ => h) id () = p.plug (fun _ => h') id () := by
  induction p with
  | ret r => rfl
  | halt => rfl
  | ask q k ih =>
      show (h q).bind _ = (h' q).bind _
      rw [(hh q).bind]
      exact bind_congr fun a => ih a
  | act f k ih => exact act_congr fun s => ih s
  | emit e k ih => exact congrArg (emit e) ih
  | fork p k ihp ihk => exact congrArg₂ fork ihp ihk

end Alike

end Prog
