import GayRpc.Lib.Wire

/-!
# Numbers in base 128

A `WireCode` that can be run: a number is written with seven bits in each byte, the least significant
first, and the highest bit of a byte says that another one follows. The lowest three bits of a tag tell
how the value behind it looks, so a field can be passed over without knowing what it means:

    0  a number        1  eight bytes        2  a size, and so many bytes        5  four bytes

Groups, which 3 and 4 begin and end, are not read.

A reader takes as many bytes as it needs off the front of a string and leaves the rest, and it does not
look at the rest (`read_local` and the like). A value that was written is read back whatever follows it
(`read_write`). These two facts about each reader are what a `WireCode` asks for; the fuel is the
number of digits that a reader accepts at most.
-/

namespace Base128

/-- Up to `fuel + 1` digits. -/
def write : ℕ → ℕ → List UInt8
  | 0, n => [UInt8.ofNat n]
  | fuel + 1, n =>
    if n < 128 then [UInt8.ofNat n] else UInt8.ofNat (n % 128 + 128) :: write fuel (n / 128)

def read : ℕ → ByteReader ℕ
  | _, [] => none
  | 0, b :: s => if b.toNat < 128 then some (b.toNat, s) else none
  | fuel + 1, b :: s =>
    if b.toNat < 128 then some (b.toNat, s)
    else (read fuel s).map fun (n, rest) => (b.toNat - 128 + 128 * n, rest)

theorem write_of_lt {fuel n : ℕ} (h : n < 128) : write fuel n = [UInt8.ofNat n] := by
  cases fuel with
  | zero => rfl
  | succ fuel => exact if_pos h

theorem toNat_ofNat {n : ℕ} (h : n < 256) : (UInt8.ofNat n).toNat = n := by
  simp [Nat.mod_eq_of_lt h]

/-- A number with few enough digits comes back, whatever room there was for more. -/
theorem read_write {k j n : ℕ} (rest : List UInt8) (hk : n < 128 ^ (k + 1)) (hj : n < 128 ^ (j + 1)) :
    read k (write j n ++ rest) = some (n, rest) := by
  by_cases hn : n < 128
  · -- one byte: the continuation bit is clear, so the reader stops at once
    have hb : (UInt8.ofNat n).toNat = n := toNat_ofNat (by omega)
    rw [write_of_lt hn]
    cases k <;> simp [read, hb, hn]
  · induction j generalizing k n with
    | zero => exact absurd hj (by simpa using hn)
    | succ j ih =>
        cases k with
        | zero => exact absurd hk (by simpa using hn)
        | succ k =>
            have hb : (UInt8.ofNat (n % 128 + 128)).toNat = n % 128 + 128 := toNat_ofNat (by omega)
            have hk' : n / 128 < 128 ^ (k + 1) := Nat.div_lt_of_lt_mul (by rwa [← Nat.pow_succ'])
            have hj' : n / 128 < 128 ^ (j + 1) := Nat.div_lt_of_lt_mul (by rwa [← Nat.pow_succ'])
            -- the tail is either one byte or again of this shape, with one group less to go
            have hrest : read k (write j (n / 128) ++ rest) = some (n / 128, rest) := by
              by_cases hn' : n / 128 < 128
              · have hb' : (UInt8.ofNat (n / 128)).toNat = n / 128 := toNat_ofNat (by omega)
                rw [write_of_lt hn']
                cases k <;> simp [read, hb', hn']
              · exact ih hk' hj' hn'
            simp only [write, if_neg hn, List.cons_append, read, hb, hrest]
            simp only [show ¬ n % 128 + 128 < 128 by omega, if_false, Option.map_some, Option.some_inj,
              Prod.mk.injEq, and_true]
            omega

theorem read_local (fuel : ℕ) : (read fuel).Local := by
  constructor
  intro s rest n h
  -- the reader looks at one byte at a time and never past the one that ends the number
  induction fuel generalizing s n with
  | zero =>
      cases s with
      | nil => cases h
      | cons b s =>
          simp only [read] at h
          split_ifs at h with hb
          obtain ⟨rfl, rfl⟩ := Prod.mk.inj (Option.some.inj h)
          exact ⟨[b], rfl, fun other => by simp [read, hb]⟩
  | succ fuel ih =>
      cases s with
      | nil => cases h
      | cons b s =>
          simp only [read] at h
          split_ifs at h with hb
          · obtain ⟨rfl, rfl⟩ := Prod.mk.inj (Option.some.inj h)
            exact ⟨[b], rfl, fun other => by simp [read, hb]⟩
          · obtain ⟨⟨m, r⟩, hm, heq⟩ := Option.map_eq_some_iff.mp h
            obtain ⟨rfl, rfl⟩ := Prod.mk.inj heq
            obtain ⟨taken, rfl, htaken⟩ := ih hm
            exact ⟨b :: taken, rfl, fun other => by simp [read, hb, htaken]⟩

theorem length_of_read {fuel : ℕ} {s rest : List UInt8} {n : ℕ} (h : read fuel s = some (n, rest)) :
    rest.length < s.length := by
  obtain ⟨taken, rfl, htaken⟩ := (read_local fuel).takes h
  have hne : taken ≠ [] := by
    rintro rfl
    have hnil := htaken []
    cases fuel <;> cases hnil
  have hpos : 0 < taken.length := List.length_pos_iff.mpr hne
  rw [List.length_append]
  omega

/-- The result of a reader is put in other words, or refused. -/
def filterMap {α β : Type} (f : α → Option β) (rd : ByteReader α) : ByteReader β := fun s =>
  (rd s).bind fun (a, rest) => (f a).map fun b => (b, rest)

theorem filterMap_local {α β : Type} {rd : ByteReader α} (h : rd.Local) (f : α → Option β) :
    (filterMap f rd).Local := by
  constructor
  intro s rest b hs
  obtain ⟨⟨a, r⟩, ha, hb⟩ := Option.bind_eq_some_iff.mp hs
  obtain ⟨b', hf, heq⟩ := Option.map_eq_some_iff.mp hb
  obtain ⟨rfl, rfl⟩ := Prod.mk.inj heq
  obtain ⟨taken, rfl, htaken⟩ := h.takes ha
  exact ⟨taken, rfl, fun other => by simp [filterMap, htaken, hf]⟩

def readVarint : ByteReader UInt64 := filterMap (fun n => some (UInt64.ofNat n)) (read 9)

def readTag : ByteReader UInt32 := filterMap (fun n => some (UInt32.ofNat n)) (read 4)

/-- Sizes that are too close to the largest `int` are refused. -/
def readSize : ByteReader ℕ := filterMap (fun n => if n < 2 ^ 31 - 16 then some n else none) (read 4)

theorem readVarint_local : readVarint.Local := filterMap_local (read_local 9) _

theorem readTag_local : readTag.Local := filterMap_local (read_local 4) _

theorem readSize_local : readSize.Local := filterMap_local (read_local 4) _

/-- So many bytes, whatever they are. -/
def skipBytes (n : ℕ) : ByteReader Unit := fun s =>
  if n ≤ s.length then some ((), s.drop n) else none

/-- The value of a field, passed over. -/
def skip (tag : UInt32) : ByteReader Unit := fun s =>
  match (tag &&& 7).toNat with
  | 0 => (readVarint s).map fun p => ((), p.2)
  | 1 => skipBytes 8 s
  | 2 => (readSize s).bind fun p => skipBytes p.1 p.2
  | 5 => skipBytes 4 s
  | _ => none

theorem skipBytes_local (n : ℕ) : (skipBytes n).Local := by
  constructor
  intro s rest a h
  unfold skipBytes at h
  split_ifs at h with hn
  obtain ⟨-, rfl⟩ := Prod.mk.inj (Option.some.inj h)
  have hlen : (s.take n).length = n := List.length_take_of_le hn
  exact ⟨s.take n, (List.take_append_drop n s).symm, fun other => by simp [skipBytes, hlen]⟩

theorem skip_local (tag : UInt32) : (skip tag).Local := by
  constructor
  intro s rest a h
  unfold skip at h ⊢
  split at h
  · obtain ⟨⟨v, r⟩, hv, heq⟩ := Option.map_eq_some_iff.mp h
    obtain ⟨-, rfl⟩ := Prod.mk.inj heq
    obtain ⟨taken, rfl, htaken⟩ := readVarint_local.takes hv
    exact ⟨taken, rfl, fun other => by simp [htaken]⟩
  · exact (skipBytes_local 8).takes h
  · -- a length first, then that many bytes: both readers are local, and so is their sequence
    obtain ⟨⟨n, r⟩, hn, hskip⟩ := Option.bind_eq_some_iff.mp h
    obtain ⟨taken, rfl, htaken⟩ := readSize_local.takes hn
    obtain ⟨taken', rfl, htaken'⟩ := (skipBytes_local n).takes hskip
    refine ⟨taken ++ taken', by simp, fun other => ?_⟩
    rw [List.append_assoc, htaken]
    exact htaken' other
  · exact (skipBytes_local 4).takes h
  · cases h

/-- A field as it came: a tag with a field number, and the bytes of a value that looks as the tag says. -/
structure RawField where
  tag : UInt32
  payload : List UInt8
  numbered : 8 ≤ tag
  skips : ∀ rest, skip tag (payload ++ rest) = some ((), rest)

/-- Only the bytes of the value are kept. -/
def readField (tag : UInt32) : ByteReader RawField := fun s =>
  if hnum : 8 ≤ tag then
    match h : skip tag s with
    | none => none
    | some (_, rest) =>
      some
        ({ tag := tag
           payload := s.take (s.length - rest.length)
           numbered := hnum
           skips := by
            obtain ⟨taken, rfl, htaken⟩ := (skip_local tag).takes h
            intro other
            rw [List.length_append, Nat.add_sub_cancel, List.take_left]
            exact htaken other }, rest)
  else none

/-- What is passed over is the field. -/
theorem readField_eq {tag : UInt32} {s rest : List UInt8} {f : RawField}
    (h : readField tag s = some (f, rest)) : f.tag = tag ∧ s = f.payload ++ rest := by
  unfold readField at h
  split_ifs at h with hnum
  split at h
  · cases h
  · next a r hskip =>
      obtain ⟨rfl, rfl⟩ := Prod.mk.inj (Option.some.inj h)
      obtain ⟨taken, rfl, -⟩ := (skip_local tag).takes hskip
      refine ⟨rfl, ?_⟩
      show taken ++ r = (taken ++ r).take ((taken ++ r).length - r.length) ++ r
      rw [List.length_append, Nat.add_sub_cancel, List.take_left]

theorem readField_write (f : RawField) (rest : List UInt8) :
    readField f.tag (f.payload ++ rest) = some (f, rest) := by
  unfold readField
  rw [dif_pos f.numbered]
  split
  · next hnone =>
      rw [f.skips] at hnone
      cases hnone
  · next a r hskip =>
      rw [f.skips] at hskip
      obtain ⟨-, rfl⟩ := Prod.mk.inj (Option.some.inj hskip)
      simp

theorem readField_local (tag : UInt32) : (readField tag).Local := by
  constructor
  intro s rest f h
  obtain ⟨rfl, rfl⟩ := readField_eq h
  exact ⟨f.payload, rfl, fun other => readField_write f other⟩

/-- A tag whose lowest bits are those of the end of a group is not passed over. -/
theorem RawField.tag_ne (f : RawField) : f.tag ≠ 0 ∧ f.tag &&& 7 ≠ 4 := by
  constructor
  · intro h
    exact absurd (h ▸ f.numbered) (by decide)
  · intro h
    have hskips := f.skips []
    simp [skip, h] at hskips

def wireCode : WireCode RawField where
  writeVarint v := write 9 v.toNat
  readVarint := readVarint
  varintSize v := (write 9 v.toNat).length
  readTag := readTag
  readSize := readSize
  sizeLimit := 2 ^ 31 - 16
  writeField f := write 4 f.tag.toNat ++ f.payload
  fieldTag := RawField.tag
  fieldSize f := (write 4 f.tag.toNat ++ f.payload).length
  readField := readField
  readVarint_write v rest := by
    have hlt : v.toNat < 128 ^ (9 + 1) := Nat.lt_trans v.toNat_lt (by decide)
    simp [readVarint, filterMap, read_write rest hlt hlt]
  length_writeVarint _ := rfl
  varintSize_small {v} hv := by
    rw [write_of_lt (UInt64.lt_iff_toNat_lt.mp hv)]
    rfl
  readTag_cons {tag} rest _ hhigh := by
    have hlt : tag.toNat < 128 := UInt8.lt_iff_toNat_lt.mp hhigh
    simp [readTag, filterMap, read, hlt]
  readSize_write {n} rest hn := by
    have hn' : (UInt32.ofNat n).toUInt64.toNat = n := by
      simp only [UInt32.toNat_toUInt64, UInt32.toNat_ofNat']
      exact Nat.mod_eq_of_lt (Nat.lt_trans hn (by decide))
    have h4 : n < 128 ^ (4 + 1) := Nat.lt_trans hn (by decide)
    have h9 : n < 128 ^ (9 + 1) := Nat.lt_trans hn (by decide)
    simp only [readSize, filterMap, hn', read_write rest h4 h9, Option.bind_some, if_pos hn, Option.map_some]
  readField_write f rest := by
    have h4 : f.tag.toNat < 128 ^ (4 + 1) := Nat.lt_trans f.tag.toNat_lt (by decide)
    refine ⟨f.payload ++ rest, ?_, readField_write f rest⟩
    simp [readTag, filterMap, List.append_assoc, read_write _ h4 h4]
  length_writeField _ := rfl
  fieldTag_ne := RawField.tag_ne
  fieldTag_of_readField h := (readField_eq h).1
  readVarint_local := readVarint_local
  readTag_local := readTag_local
  readSize_local := readSize_local
  readField_local := readField_local
  length_of_readTag h := by
    obtain ⟨⟨n, r⟩, hn, heq⟩ := Option.bind_eq_some_iff.mp h
    obtain ⟨tag, -, heq⟩ := Option.map_eq_some_iff.mp heq
    obtain ⟨-, rfl⟩ := Prod.mk.inj heq
    exact length_of_read hn

end Base128
