import Mathlib.Algebra.Ring.Nat
import Mathlib.Tactic.Common

/-!
# Messages of tagged fields

A message is written as a sequence of fields, each a tag and a value, and read back one field after the
other into an object that may have been written to before. What a tag means is up to a `Schema`; a
field whose tag it does not know is kept as it came.

    Fields σ m s m'   —   the object m, after the fields in s have been read into it, is m'.

The reader is a loop with fuel, as a parser has it: it takes a field off the front of the string and goes
on with the rest (`parse`). `Fields` is the same without fuel, and can be put together: a string of fields
behind another one (`Fields.append`), and one rule for each kind of field (`Fields.number`, `Fields.sized`,
`Fields.unknown`). So what a writer makes is read back by a derivation that follows the writer. The two
agree (`parse_eq_some_iff`).

How numbers, sizes and unknown fields look is a parameter, `WireCode`. What it has to promise is that each
value is read back whatever follows it, and that no reader looks behind the value that it reads. From that
alone it follows

* that reading one string after the other is reading both at once (`parse_append`),
* that the bytes which a writer needs can be computed before they are written (`length_writeFields`),
* that what a reader does not know is kept well formed (`parse_wellFormed`) and has no effect on what it
  does know (`parse_insert`).
-/

/-- What reads a value off the front of a string and leaves the rest. -/
abbrev ByteReader (α : Type) : Type := List UInt8 → Option (α × List UInt8)

namespace ByteReader

variable {α β : Type}

/-- The reader does not look behind the value that it reads. -/
structure Local (read : ByteReader α) : Prop where
  takes : ∀ {s rest : List UInt8} {a : α}, read s = some (a, rest) →
    ∃ taken, s = taken ++ rest ∧ ∀ other, read (taken ++ other) = some (a, other)

/-- What stands behind is left standing. -/
theorem Local.append {read : ByteReader α} (h : read.Local) {s rest : List UInt8} {a : α}
    (hs : read s = some (a, rest)) (other : List UInt8) : read (s ++ other) = some (a, rest ++ other) := by
  obtain ⟨taken, rfl, htaken⟩ := h.takes hs
  rw [List.append_assoc]
  exact htaken (rest ++ other)

theorem Local.length_le {read : ByteReader α} (h : read.Local) {s rest : List UInt8} {a : α}
    (hs : read s = some (a, rest)) : rest.length ≤ s.length := by
  obtain ⟨taken, rfl, -⟩ := h.takes hs
  simp

end ByteReader

/-- How the parts of a message look that have nothing to do with what it is about. `F` are the fields
that a reader does not know. -/
structure WireCode (F : Type) where
  writeVarint : UInt64 → List UInt8
  readVarint : ByteReader UInt64
  varintSize : UInt64 → ℕ
  readTag : ByteReader UInt32
  /-- the size of a value that is as long as it says -/
  readSize : ByteReader ℕ
  sizeLimit : ℕ
  writeField : F → List UInt8
  fieldTag : F → UInt32
  fieldSize : F → ℕ
  /-- the value of a field, behind its tag -/
  readField : UInt32 → ByteReader F
  readVarint_write : ∀ (v : UInt64) (rest : List UInt8), readVarint (writeVarint v ++ rest) = some (v, rest)
  length_writeVarint : ∀ v : UInt64, (writeVarint v).length = varintSize v
  varintSize_small : ∀ {v : UInt64}, v < 128 → varintSize v = 1
  readTag_cons : ∀ {tag : UInt8} (rest : List UInt8), 8 ≤ tag → tag < 128 →
    readTag (tag :: rest) = some (tag.toUInt32, rest)
  readSize_write : ∀ {n : ℕ} (rest : List UInt8), n < sizeLimit →
    readSize (writeVarint (UInt32.ofNat n).toUInt64 ++ rest) = some (n, rest)
  readField_write : ∀ (f : F) (rest : List UInt8), ∃ s, readTag (writeField f ++ rest) =
    some (fieldTag f, s) ∧ readField (fieldTag f) s = some (f, rest)
  length_writeField : ∀ f : F, (writeField f).length = fieldSize f
  /-- no field ends a message -/
  fieldTag_ne : ∀ f : F, fieldTag f ≠ 0 ∧ fieldTag f &&& 7 ≠ 4
  fieldTag_of_readField : ∀ {tag : UInt32} {s rest : List UInt8} {f : F},
    readField tag s = some (f, rest) → fieldTag f = tag
  readVarint_local : readVarint.Local
  readTag_local : readTag.Local
  readSize_local : readSize.Local
  readField_local : ∀ tag : UInt32, (readField tag).Local
  length_of_readTag : ∀ {s rest : List UInt8} {tag : UInt32}, readTag s = some (tag, rest) →
    rest.length < s.length

/-- What is done with the value of a field: it is a number, or a string with its size in front. -/
inductive FieldKind (M : Type) where
  | varint (set : UInt64 → M → M)
  | delimited (set : List UInt8 → M → Option M)

/-- The fields of a message, by their tags. -/
abbrev Schema (M : Type) : Type := UInt32 → Option (FieldKind M)

/-- An object of a message: what it is about, and the fields that were not known, in the order in which
they came. -/
structure WireMessage (F M : Type) where
  known : M
  unknownFields : List F := []

namespace WireCode

variable {F M : Type} (W : WireCode F)

/-- A string with its size in front. -/
def readDelimited : ByteReader (List UInt8) := fun s =>
  (W.readSize s).bind fun (n, rest) =>
    if n ≤ rest.length then some (rest.take n, rest.drop n) else none

/-- The value of a known field, put into the object. -/
def readValue (kind : FieldKind M) (m : M) : ByteReader M := fun s =>
  match kind with
  | .varint set => (W.readVarint s).map fun (v, rest) => (set v m, rest)
  | .delimited set => (W.readDelimited s).bind fun (bytes, rest) => (set bytes m).map fun m' => (m', rest)

/-- The value of any field. A tag that would end a group ends the message, which is an error. -/
def readTagged (σ : Schema M) (tag : UInt32) (m : WireMessage F M) : ByteReader (WireMessage F M) := fun s =>
  match σ tag with
  | some kind => (W.readValue kind m.known s).map fun (k, rest) => ({ m with known := k }, rest)
  | none =>
    if tag = 0 ∨ tag &&& 7 = 4 then none
    else
      (W.readField tag s).map fun (f, rest) => ({ m with unknownFields := m.unknownFields ++ [f] }, rest)

/-- A field. -/
def readOne (σ : Schema M) (m : WireMessage F M) : ByteReader (WireMessage F M) := fun s =>
  (W.readTag s).bind fun (tag, rest) => W.readTagged σ tag m rest

/-- The loop over the fields. `fuel` bounds their number; a field takes at least one byte. -/
def parseLoop (σ : Schema M) : ℕ → WireMessage F M → List UInt8 → Option (WireMessage F M)
  | _, m, [] => some m
  | 0, _, _ :: _ => none
  | fuel + 1, m, b :: s => (W.readOne σ m (b :: s)).bind fun (m', rest) => parseLoop σ fuel m' rest

def parse (σ : Schema M) (m : WireMessage F M) (s : List UInt8) : Option (WireMessage F M) :=
  W.parseLoop σ s.length m s

def writeNumber (tag : UInt8) (v : UInt64) : List UInt8 := tag :: W.writeVarint v

/-- A field with its size in front, which the writer has computed before. -/
def writeSized (tag : UInt8) (size : ℕ) (bytes : List UInt8) : List UInt8 :=
  tag :: (W.writeVarint (UInt32.ofNat size).toUInt64 ++ bytes)

def delimitedSize (n : ℕ) : ℕ := n + W.varintSize (UInt32.ofNat n).toUInt64

/-- The fields in the string lead from one object to the other. -/
inductive Fields (σ : Schema M) : WireMessage F M → List UInt8 → WireMessage F M → Prop where
  | nil {m : WireMessage F M} : Fields σ m [] m
  | cons {m m₁ m' : WireMessage F M} {s rest : List UInt8} (h : W.readOne σ m s = some (m₁, rest))
      (hrest : Fields σ m₁ rest m') : Fields σ m s m'

variable {W} {σ : Schema M} {m m₁ m' : WireMessage F M} {s t rest : List UInt8}

/-! ## Lengths -/

@[simp] theorem length_writeNumber (tag : UInt8) (v : UInt64) :
    (W.writeNumber tag v).length = 1 + W.varintSize v := by
  rw [writeNumber, List.length_cons, W.length_writeVarint, Nat.add_comm]

/-- The writer has computed the right size. -/
@[simp] theorem length_writeSized (tag : UInt8) (bytes : List UInt8) :
    (W.writeSized tag bytes.length bytes).length = 1 + W.delimitedSize bytes.length := by
  rw [writeSized, List.length_cons, List.length_append, W.length_writeVarint, delimitedSize]
  omega

@[simp] theorem length_writeFields (fs : List F) :
    (fs.flatMap W.writeField).length = (fs.map W.fieldSize).sum := by
  induction fs with
  | nil => rfl
  | cons f fs ih => simp [W.length_writeField, ih]

/-! ## Readers do not look ahead -/

theorem readDelimited_local : W.readDelimited.Local := by
  constructor
  intro s rest bytes h
  obtain ⟨⟨n, r⟩, hsize, hread⟩ := Option.bind_eq_some_iff.mp h
  dsimp only at hread
  split_ifs at hread with hn
  obtain ⟨rfl, rfl⟩ := Prod.mk.inj (Option.some.inj hread)
  obtain ⟨taken, rfl, htaken⟩ := W.readSize_local.takes hsize
  refine ⟨taken ++ r.take n, by simp, fun other => ?_⟩
  have hlen : (r.take n).length = n := List.length_take_of_le hn
  rw [readDelimited, List.append_assoc, htaken]
  simp [hlen]

theorem readValue_local (kind : FieldKind M) (m : M) : (W.readValue kind m).Local := by
  constructor
  intro s rest a h
  cases kind with
  | varint set =>
      obtain ⟨⟨v, r⟩, hread, hset⟩ := Option.map_eq_some_iff.mp h
      obtain ⟨rfl, rfl⟩ := Prod.mk.inj hset
      obtain ⟨taken, rfl, htaken⟩ := W.readVarint_local.takes hread
      exact ⟨taken, rfl, fun other => by simp [readValue, htaken]⟩
  | delimited set =>
      obtain ⟨⟨bytes, r⟩, hread, hset⟩ := Option.bind_eq_some_iff.mp h
      obtain ⟨m', hm', hr⟩ := Option.map_eq_some_iff.mp hset
      obtain ⟨rfl, rfl⟩ := Prod.mk.inj hr
      obtain ⟨taken, rfl, htaken⟩ := readDelimited_local.takes hread
      exact ⟨taken, rfl, fun other => by simp [readValue, htaken, hm']⟩

theorem readTagged_local (tag : UInt32) (m : WireMessage F M) : (W.readTagged σ tag m).Local := by
  constructor
  intro s rest a h
  unfold readTagged at h ⊢
  -- a known tag reads its value, an unknown one a whole field; both readers are local
  cases hk : σ tag with
  | some kind =>
      simp only [hk] at h ⊢
      obtain ⟨⟨k, r⟩, hread, hm⟩ := Option.map_eq_some_iff.mp h
      obtain ⟨rfl, rfl⟩ := Prod.mk.inj hm
      obtain ⟨taken, rfl, htaken⟩ := (readValue_local kind m.known).takes hread
      exact ⟨taken, rfl, fun other => by simp [htaken]⟩
  | none =>
      simp only [hk] at h ⊢
      split_ifs at h ⊢ with htag
      obtain ⟨⟨f, r⟩, hread, hf⟩ := Option.map_eq_some_iff.mp h
      obtain ⟨rfl, rfl⟩ := Prod.mk.inj hf
      obtain ⟨taken, rfl, htaken⟩ := (W.readField_local tag).takes hread
      exact ⟨taken, rfl, fun other => by simp [htaken]⟩

theorem readOne_local (m : WireMessage F M) : (W.readOne σ m).Local := by
  constructor
  intro s rest a h
  obtain ⟨⟨tag, r⟩, htag, hread⟩ := Option.bind_eq_some_iff.mp h
  obtain ⟨taken, rfl, htaken⟩ := W.readTag_local.takes htag
  obtain ⟨taken', rfl, htaken'⟩ := (readTagged_local tag m).takes hread
  refine ⟨taken ++ taken', by simp, fun other => ?_⟩
  rw [readOne, List.append_assoc, htaken]
  exact htaken' other

theorem length_of_readOne (h : W.readOne σ m s = some (m', rest)) : rest.length < s.length := by
  obtain ⟨⟨tag, r⟩, htag, hread⟩ := Option.bind_eq_some_iff.mp h
  have hle : rest.length ≤ r.length := (readTagged_local tag m).length_le hread
  have hlt : r.length < s.length := W.length_of_readTag htag
  omega

/-! ## The loop and the fields -/

/-- The loop has fuel enough as long as the fuel covers the bytes. -/
theorem parseLoop_eq_some_iff {fuel : ℕ} (hfuel : s.length ≤ fuel) :
    W.parseLoop σ fuel m s = some m' ↔ W.Fields σ m s m' := by
  -- on the fuel: every field takes at least its tag, so the length of the input is enough
  induction fuel generalizing m s with
  | zero =>
      obtain rfl : s = [] := List.length_eq_zero_iff.mp (Nat.le_zero.mp hfuel)
      constructor
      · rintro ⟨⟩
        exact .nil
      · intro h
        cases h with
        | nil => rfl
        | cons h _ => exact absurd (length_of_readOne h) (Nat.not_lt_zero _)
  | succ fuel ih =>
      cases s with
      | nil =>
          constructor
          · rintro ⟨⟩
            exact .nil
          · intro h
            cases h with
            | nil => rfl
            | cons h _ => exact absurd (length_of_readOne h) (Nat.not_lt_zero _)
      | cons b s =>
          -- one field less to read, and at least one byte less
          have hrest : ∀ {m₁ rest}, W.readOne σ m (b :: s) = some (m₁, rest) → rest.length ≤ fuel :=
            fun h => Nat.le_of_lt_succ (Nat.lt_of_lt_of_le (length_of_readOne h) hfuel)
          constructor
          · intro h
            obtain ⟨⟨m₁, rest⟩, hread, hloop⟩ := Option.bind_eq_some_iff.mp h
            exact .cons hread ((ih (hrest hread)).mp hloop)
          · intro h
            cases h with
            | cons hread htail =>
                rw [parseLoop, hread]
                exact (ih (hrest hread)).mpr htail

theorem parse_eq_some_iff : W.parse σ m s = some m' ↔ W.Fields σ m s m' :=
  parseLoop_eq_some_iff (Nat.le_refl _)

namespace Fields

theorem append (h : W.Fields σ m s m₁) (h' : W.Fields σ m₁ t m') : W.Fields σ m (s ++ t) m' := by
  induction h with
  | nil => exact h'
  | cons hread _ ih => exact .cons ((readOne_local _).append hread t) (ih h')

theorem one (h : W.readOne σ m s = some (m', [])) : W.Fields σ m s m' := .cons h .nil

/-- A known field that is a number. -/
theorem number {tag : UInt8} {set : UInt64 → M → M} (hkind : σ tag.toUInt32 = some (.varint set))
    (hlow : 8 ≤ tag) (hhigh : tag < 128) (v : UInt64) :
    W.Fields σ m (W.writeNumber tag v) { m with known := set v m.known } := by
  have hvalue := W.readVarint_write v []
  rw [List.append_nil] at hvalue
  apply one
  rw [readOne, writeNumber, W.readTag_cons _ hlow hhigh]
  simp [readTagged, hkind, readValue, hvalue]

/-- A known field with its size in front. -/
theorem sized {tag : UInt8} {set : List UInt8 → M → Option M} {bytes : List UInt8} {k : M}
    (hkind : σ tag.toUInt32 = some (.delimited set)) (hlow : 8 ≤ tag) (hhigh : tag < 128)
    (hlimit : bytes.length < W.sizeLimit) (hset : set bytes m.known = some k) :
    W.Fields σ m (W.writeSized tag bytes.length bytes) { m with known := k } := by
  apply one
  rw [readOne, writeSized, W.readTag_cons _ hlow hhigh]
  simp [readTagged, hkind, readValue, readDelimited, W.readSize_write bytes hlimit, hset]

/-- A field that is not known. -/
theorem unknown {f : F} (hkind : σ (W.fieldTag f) = none) :
    W.Fields σ m (W.writeField f) { m with unknownFields := m.unknownFields ++ [f] } := by
  obtain ⟨s, htag, hread⟩ := W.readField_write f []
  rw [List.append_nil] at htag
  apply one
  rw [readOne, htag]
  simp [readTagged, hkind, W.fieldTag_ne f, hread]

theorem unknowns {fs : List F} (hkind : ∀ f ∈ fs, σ (W.fieldTag f) = none) :
    W.Fields σ m (fs.flatMap W.writeField) { m with unknownFields := m.unknownFields ++ fs } := by
  induction fs generalizing m with
  | nil =>
      rw [List.append_nil]
      exact .nil
  | cons f fs ih =>
      obtain ⟨hf, hfs⟩ := List.forall_mem_cons.mp hkind
      have hrest := (unknown (m := m) hf).append (ih hfs)
      rwa [List.append_assoc] at hrest

/-- A number that is left out when it would say nothing. -/
theorem numberUnless {tag : UInt8} {set : UInt64 → M → M} {v : UInt64} {k : M} {p : Prop} [Decidable p]
    (hkind : σ tag.toUInt32 = some (.varint set)) (hlow : 8 ≤ tag) (hhigh : tag < 128)
    (hp : p → k = m.known) (hset : ¬p → set v m.known = k) :
    W.Fields σ m (if p then [] else W.writeNumber tag v) { m with known := k } := by
  split_ifs with hcond
  · rw [hp hcond]
    exact .nil
  · rw [← hset hcond]
    exact number hkind hlow hhigh v

/-- A sized field that is left out when it would say nothing. -/
theorem sizedUnless {tag : UInt8} {set : List UInt8 → M → Option M} {bytes : List UInt8} {k : M} {p : Prop}
    [Decidable p] (hkind : σ tag.toUInt32 = some (.delimited set)) (hlow : 8 ≤ tag) (hhigh : tag < 128)
    (hlimit : ¬p → bytes.length < W.sizeLimit) (hp : p → k = m.known)
    (hset : ¬p → set bytes m.known = some k) :
    W.Fields σ m (if p then [] else W.writeSized tag bytes.length bytes) { m with known := k } := by
  split_ifs with hcond
  · rw [hp hcond]
    exact .nil
  · exact sized hkind hlow hhigh (hlimit hcond) (hset hcond)

end Fields

/-- A message goes on behind its first field. -/
theorem Fields.of_readOne (h : W.Fields σ m s m') (hread : W.readOne σ m s = some (m₁, rest)) :
    W.Fields σ m₁ rest m' := by
  cases h with
  | nil => exact absurd (length_of_readOne hread) (Nat.not_lt_zero _)
  | cons hone htail =>
      rw [hread] at hone
      obtain ⟨rfl, rfl⟩ := Prod.mk.inj (Option.some.inj hone)
      exact htail

/-- Reading two strings one after the other is reading them at once. -/
theorem parse_append (h : W.parse σ m s = some m₁) (t : List UInt8) :
    W.parse σ m (s ++ t) = W.parse σ m₁ t := by
  have hs : W.Fields σ m s m₁ := parse_eq_some_iff.mp h
  apply Option.ext
  intro m'
  rw [parse_eq_some_iff, parse_eq_some_iff]
  constructor
  · intro hboth
    clear h
    induction hs with
    | nil => exact hboth
    | cons hread _ ih => exact ih (hboth.of_readOne ((readOne_local _).append hread t))
  · exact hs.append

/-! ## What a reader does not know -/

variable (W σ) in
/-- None of the fields that are kept as unknown is one that the reader knows. -/
def WellFormed (m : WireMessage F M) : Prop := ∀ f ∈ m.unknownFields, σ (W.fieldTag f) = none

theorem readOne_wellFormed (hm : W.WellFormed σ m) (h : W.readOne σ m s = some (m', rest)) :
    W.WellFormed σ m' := by
  obtain ⟨⟨tag, r⟩, -, hread⟩ := Option.bind_eq_some_iff.mp h
  unfold readTagged at hread
  cases hkind : σ tag with
  | some kind =>
      simp only [hkind] at hread
      obtain ⟨⟨k, r'⟩, -, heq⟩ := Option.map_eq_some_iff.mp hread
      obtain ⟨rfl, rfl⟩ := Prod.mk.inj heq
      exact hm
  | none =>
      simp only [hkind] at hread
      split_ifs at hread
      obtain ⟨⟨f, r'⟩, hf, heq⟩ := Option.map_eq_some_iff.mp hread
      obtain ⟨rfl, rfl⟩ := Prod.mk.inj heq
      -- the field kept as unknown has the tag that was read, and the schema does not know it
      intro g hg
      obtain hg | hg := List.mem_append.mp hg
      · exact hm g hg
      · obtain rfl := List.mem_singleton.mp hg
        rw [W.fieldTag_of_readField hf, hkind]

theorem parse_wellFormed (hm : W.WellFormed σ m) (h : W.parse σ m s = some m') : W.WellFormed σ m' := by
  have hfields : W.Fields σ m s m' := parse_eq_some_iff.mp h
  clear h
  induction hfields with
  | nil => exact hm
  | cons hread _ ih => exact ih (readOne_wellFormed hm hread)

/-- What every value of a known field leaves as it is. -/
def FieldKind.Preserves (I : M → Prop) : FieldKind M → Prop
  | .varint set => ∀ v k, I k → I (set v k)
  | .delimited set => ∀ bytes k k', set bytes k = some k' → I k → I k'

theorem readOne_preserves {I : M → Prop} (hσ : ∀ {tag kind}, σ tag = some kind → FieldKind.Preserves I kind)
    (hm : I m.known) (h : W.readOne σ m s = some (m', rest)) : I m'.known := by
  obtain ⟨⟨tag, r⟩, -, hread⟩ := Option.bind_eq_some_iff.mp h
  unfold readTagged at hread
  cases hkind : σ tag with
  | none =>
      simp only [hkind] at hread
      split_ifs at hread
      obtain ⟨p, -, heq⟩ := Option.map_eq_some_iff.mp hread
      obtain ⟨rfl, -⟩ := Prod.mk.inj heq
      -- an unknown field leaves the known ones as they were
      exact hm
  | some kind =>
      simp only [hkind] at hread
      obtain ⟨⟨k, r'⟩, hvalue, heq⟩ := Option.map_eq_some_iff.mp hread
      obtain ⟨rfl, rfl⟩ := Prod.mk.inj heq
      have hset := hσ hkind
      cases kind with
      | varint set =>
          obtain ⟨⟨v, t⟩, -, hk⟩ := Option.map_eq_some_iff.mp hvalue
          obtain ⟨rfl, -⟩ := Prod.mk.inj hk
          exact hset v m.known hm
      | delimited set =>
          obtain ⟨⟨bytes, t⟩, -, hk⟩ := Option.bind_eq_some_iff.mp hvalue
          obtain ⟨k', hk', heq⟩ := Option.map_eq_some_iff.mp hk
          obtain ⟨rfl, -⟩ := Prod.mk.inj heq
          exact hset bytes m.known k' hk' hm

/-- What holds of an object and is left as it is by every field, holds of what is read into it. -/
theorem parse_preserves {I : M → Prop} (hσ : ∀ {tag kind}, σ tag = some kind → FieldKind.Preserves I kind)
    (hm : I m.known) (h : W.parse σ m s = some m') : I m'.known := by
  have hfields : W.Fields σ m s m' := parse_eq_some_iff.mp h
  clear h
  induction hfields with
  | nil => exact hm
  | cons hread _ ih => exact ih (readOne_preserves hσ hm hread)

section known

variable {n : WireMessage F M}

theorem readOne_known (h : m.known = n.known) (s : List UInt8) :
    (W.readOne σ m s).map (Prod.map WireMessage.known id) =
      (W.readOne σ n s).map (Prod.map WireMessage.known id) := by
  unfold readOne
  cases W.readTag s with
  | none => rfl
  | some p =>
      simp only [Option.bind_some, readTagged]
      cases σ p.1 with
      | some kind => simp [h, Function.comp_def]
      | none =>
          dsimp only
          split_ifs
          · rfl
          · simp [h, Function.comp_def]

/-- Objects that are about the same stay so. -/
theorem Fields.known (h : W.Fields σ m s m') (hn : m.known = n.known) :
    ∃ n', W.Fields σ n s n' ∧ m'.known = n'.known := by
  induction h generalizing n with
  | nil => exact ⟨n, .nil, hn⟩
  | @cons m m₁ m' s rest hread _ ih =>
      have hboth := readOne_known (W := W) (σ := σ) hn s
      rw [hread] at hboth
      obtain ⟨⟨n₁, rest'⟩, hread', heq⟩ := Option.map_eq_some_iff.mp hboth.symm
      obtain ⟨hn₁, rfl⟩ := Prod.mk.inj heq
      obtain ⟨n', hrest, hn'⟩ := ih hn₁.symm
      exact ⟨n', .cons hread' hrest, hn'⟩

theorem parse_known (h : m.known = n.known) (s : List UInt8) :
    (W.parse σ m s).map WireMessage.known = (W.parse σ n s).map WireMessage.known := by
  apply Option.ext
  intro a
  simp only [Option.map_eq_some_iff, parse_eq_some_iff]
  constructor
  · rintro ⟨m', hm', rfl⟩
    obtain ⟨n', hn', heq⟩ := hm'.known h
    exact ⟨n', hn', heq.symm⟩
  · rintro ⟨n', hn', rfl⟩
    obtain ⟨m', hm', heq⟩ := hn'.known h.symm
    exact ⟨m', hm', heq.symm⟩

/-- A field that is not known, put between two fields, makes no difference to what is known. -/
theorem parse_insert (h : W.parse σ m s = some m₁) {f : F} (hkind : σ (W.fieldTag f) = none)
    (t : List UInt8) : (W.parse σ m (s ++ (W.writeField f ++ t))).map WireMessage.known =
      (W.parse σ m (s ++ t)).map WireMessage.known := by
  have hf : W.parse σ m₁ (W.writeField f) =
      some { m₁ with unknownFields := m₁.unknownFields ++ [f] } := parse_eq_some_iff.mpr (.unknown hkind)
  rw [parse_append h, parse_append h, parse_append hf]
  apply parse_known
  rfl

end known

end WireCode
