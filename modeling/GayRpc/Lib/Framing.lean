import Mathlib.Data.List.Infix

/-!
# Self-delimiting codes and incremental splitting

A `FrameCode` writes a value as a non-empty string and reads one value back from the front of a
string, leaving the rest untouched. A byte stream is cut into frames by reading from the front until
no complete frame is left:

    Splits s fs rest   —   s is the encodings of fs followed by rest, and rest starts no frame.

Every string splits (`exists_splits`) in exactly one way (`Splits.unique`), and splitting does not
care how the string arrives: holding back the unread rest and splitting again when more has come
(`Feeds`) gives the frames and the rest of the whole string (`Feeds.splits`).
-/

/-- A code that marks its own end: the decoder knows where a frame stops without looking further. -/
structure FrameCode (α β : Type) where
  encode : α → List β
  decode : List β → Option (α × List β)
  decode_encode : ∀ (a : α) (rest : List β), decode (encode a ++ rest) = some (a, rest)
  eq_of_decode : ∀ {s : List β} {a : α} {rest : List β},
    decode s = some (a, rest) → s = encode a ++ rest
  encode_ne_nil : ∀ a : α, encode a ≠ []

namespace FrameCode

variable {α β : Type} (c : FrameCode α β)

def encodeAll (fs : List α) : List β := fs.flatMap c.encode

@[simp] theorem encodeAll_cons (a : α) (fs : List α) :
    c.encodeAll (a :: fs) = c.encode a ++ c.encodeAll fs := rfl

@[simp] theorem encodeAll_append (fs gs : List α) :
    c.encodeAll (fs ++ gs) = c.encodeAll fs ++ c.encodeAll gs := by
  simp [encodeAll, List.flatMap_append]

/-- No complete frame stands at the front of `s`. -/
def Incomplete (s : List β) : Prop := c.decode s = none

/-- `s` is cut into the frames `fs` and the unfinished `rest`. -/
structure Splits (s : List β) (fs : List α) (rest : List β) : Prop where
  eq : s = c.encodeAll fs ++ rest
  incomplete : c.Incomplete rest

variable {c}

/-- A proper prefix of a frame is unfinished. -/
theorem incomplete_of_prefix {a : α} {t u : List β} (h : c.encode a = t ++ u) (hu : u ≠ []) :
    c.Incomplete t := by
  cases hd : c.decode t with
  | none => exact hd
  | some p =>
      obtain ⟨b, rest⟩ := p
      have ht : t = c.encode b ++ rest := c.eq_of_decode hd
      have ha : c.decode (c.encode a) = some (a, []) := by simpa using c.decode_encode a []
      have hb : c.decode (c.encode a) = some (b, rest ++ u) := by
        rw [h, ht, List.append_assoc]
        exact c.decode_encode b (rest ++ u)
      rw [ha] at hb
      have hnil : rest ++ u = [] := (congrArg Prod.snd (Option.some.inj hb)).symm
      exact absurd (List.append_eq_nil_iff.mp hnil).2 hu

theorem incomplete_nil : c.Incomplete [] := by
  cases hd : c.decode [] with
  | none => exact hd
  | some p =>
      have h : [] = c.encode p.1 ++ p.2 := c.eq_of_decode hd
      exact absurd (List.append_eq_nil_iff.mp h.symm).1 (c.encode_ne_nil p.1)

namespace Splits

theorem nil {rest : List β} (h : c.Incomplete rest) : c.Splits rest [] rest := ⟨rfl, h⟩

theorem cons (a : α) {s rest : List β} {fs : List α} (h : c.Splits s fs rest) :
    c.Splits (c.encode a ++ s) (a :: fs) rest :=
  ⟨by rw [h.eq, encodeAll_cons, List.append_assoc], h.incomplete⟩

/-- What was held back, followed by what comes next, goes on where the first cut stopped. -/
theorem append {s t rest rest' : List β} {fs gs : List α} (h : c.Splits s fs rest)
    (h' : c.Splits (rest ++ t) gs rest') : c.Splits (s ++ t) (fs ++ gs) rest' := by
  refine ⟨?_, h'.incomplete⟩
  calc s ++ t
      = c.encodeAll fs ++ (rest ++ t) := by rw [h.eq, List.append_assoc]
    _ = c.encodeAll fs ++ (c.encodeAll gs ++ rest') := by rw [h'.eq]
    _ = c.encodeAll (fs ++ gs) ++ rest' := by rw [encodeAll_append, List.append_assoc]

/-- There is only one way to cut a string. Induction on the frames of one of the two cuts: the
decoder, run on the string, names the next frame of both. -/
theorem unique {s rest rest' : List β} {fs gs : List α} (h : c.Splits s fs rest)
    (h' : c.Splits s gs rest') : fs = gs ∧ rest = rest' := by
  -- on the frames of one split: a decoder gives the same first frame in both
  induction fs generalizing s gs with
  | nil =>
      have hs : s = rest := h.eq
      cases gs with
      | nil => exact ⟨rfl, hs.symm.trans h'.eq⟩
      | cons b gs =>
          have hdec : c.decode s = some (b, c.encodeAll gs ++ rest') := by
            rw [h'.eq, encodeAll_cons, List.append_assoc]
            exact c.decode_encode b _
          -- one split says that no frame is left, the other that there is one
          have hnone : c.decode s = none := hs ▸ h.incomplete
          rw [hnone] at hdec
          cases hdec
  | cons a fs ih =>
      have hdec : c.decode s = some (a, c.encodeAll fs ++ rest) := by
        rw [h.eq, encodeAll_cons, List.append_assoc]
        exact c.decode_encode a _
      cases gs with
      | nil =>
          have hnone : c.decode s = none := by
            rw [show s = rest' from h'.eq]
            exact h'.incomplete
          rw [hnone] at hdec
          cases hdec
      | cons b gs =>
          have hdec' : c.decode s = some (b, c.encodeAll gs ++ rest') := by
            rw [h'.eq, encodeAll_cons, List.append_assoc]
            exact c.decode_encode b _
          rw [hdec] at hdec'
          obtain ⟨rfl, htail⟩ := Prod.mk.inj (Option.some.inj hdec')
          obtain ⟨rfl, rfl⟩ := ih ⟨rfl, h.incomplete⟩ ⟨htail, h'.incomplete⟩
          exact ⟨rfl, rfl⟩

end Splits

/-- Every string can be cut. Strong induction on the length: a frame is never empty, so reading one
leaves a shorter string. -/
theorem exists_splits (c : FrameCode α β) (s : List β) :
    ∃ (fs : List α) (rest : List β), c.Splits s fs rest := by
  induction hn : s.length using Nat.strongRecOn generalizing s with
  | ind n ih =>
      cases hd : c.decode s with
      | none => exact ⟨[], s, Splits.nil hd⟩
      | some p =>
          obtain ⟨a, t⟩ := p
          have hs : s = c.encode a ++ t := c.eq_of_decode hd
          have hpos : 0 < (c.encode a).length := List.length_pos_of_ne_nil (c.encode_ne_nil a)
          have hlt : t.length < n := by
            rw [← hn, hs, List.length_append]
            omega
          obtain ⟨fs, rest, hsplit⟩ := ih t.length hlt t rfl
          exact ⟨a :: fs, rest, hs ▸ hsplit.cons a⟩

/-- A string is cut at a place of one's choice: some of the frames are complete by then. -/
theorem Splits.of_append {s t rest : List β} {fs : List α} (h : c.Splits (s ++ t) fs rest) :
    ∃ (gs gs' : List α) (held : List β), fs = gs ++ gs' ∧ c.Splits s gs held ∧
      c.Splits (held ++ t) gs' rest := by
  obtain ⟨gs, held, hfirst⟩ := c.exists_splits s
  obtain ⟨gs', rest', hsecond⟩ := c.exists_splits (held ++ t)
  obtain ⟨rfl, rfl⟩ := h.unique (hfirst.append hsecond)
  exact ⟨gs, gs', held, rfl, hfirst, hsecond⟩

/-! ## Splitting what arrives in pieces

Whoever reads from a transport gets the string in pieces, and keeps what does not make a frame yet. The
invariant is that what is kept starts no frame, so that cutting again begins where the last cut has
stopped. -/

variable (c) in
/-- `Feeds held chunks fs rest`: starting from the unread string `held`, each chunk is put behind
what is still unread and the result is cut; `fs` are all the frames found, `rest` is unread at the
end. -/
inductive Feeds : List β → List (List β) → List α → List β → Prop
  | nil {held : List β} : Feeds held [] [] held
  | cons {held chunk rest rest' : List β} {chunks : List (List β)} {fs gs : List α} :
      c.Splits (held ++ chunk) fs rest → Feeds rest chunks gs rest' →
      Feeds held (chunk :: chunks) (fs ++ gs) rest'

/-- **Chunking is invisible.** Cutting a stream piece by piece gives the cut of the whole stream. -/
theorem Feeds.splits {held rest : List β} {chunks : List (List β)} {fs : List α}
    (h : c.Feeds held chunks fs rest) (hheld : c.Incomplete held) :
    c.Splits (held ++ chunks.flatten) fs rest := by
  induction h with
  | nil => simpa using Splits.nil hheld
  | cons hsplit _ ih =>
      rw [List.flatten_cons, ← List.append_assoc]
      exact hsplit.append (ih hsplit.incomplete)

end FrameCode
