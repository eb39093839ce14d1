import GayRpc.Core.MetaMessage
import GayRpc.Lib.Base128
import Mathlib.Data.Multiset.Sort
import Mathlib.Data.Prod.Lex
import Mathlib.Data.String.Basic

/-!
# A runtime that can be run

The generated classes over base 128. A map is gone through in the order of its keys, and an entry is a
message of two fields that are both always written.

What `MetaRuntime` asks for is proved of it here, so that what follows from it in `Core/MetaWire` is about
something, and can be computed on bytes.
-/

namespace GayRpc

namespace Pb

/-- The fields of an entry. -/
def entrySchema : Schema (String × String) := fun tag =>
  match (tag >>> 3).toNat with
  | 1 =>
    if tag.toUInt8 = 10 then
      some (.delimited fun bytes e => (parseUtf8 bytes).map fun key => (key, e.2))
    else none
  | 2 =>
    if tag.toUInt8 = 18 then
      some (.delimited fun bytes e => (parseUtf8 bytes).map fun value => (e.1, value))
    else none
  | _ => none

/-- The entries of a map by their keys. -/
def sortedEntries (entries : Finmap (fun _ : String => String)) : List (Sigma fun _ : String => String) :=
  ((entries.entries.map fun e => toLex (e.1, e.2)).sort).map fun p => ⟨(ofLex p).1, (ofLex p).2⟩

theorem coe_sortedEntries (entries : Finmap (fun _ : String => String)) :
    (sortedEntries entries : Multiset (Sigma fun _ : String => String)) = entries.entries := by
  rw [sortedEntries, ← Multiset.map_coe, Multiset.sort_eq, Multiset.map_map]
  exact (Multiset.map_congr rfl fun _ _ => rfl).trans (Multiset.map_id _)

def iterateSorted (entries : Finmap (fun _ : String => String)) : AList (fun _ : String => String) where
  entries := sortedEntries entries
  nodupKeys := by
    rw [← Multiset.coe_nodupKeys, coe_sortedEntries]
    exact entries.nodupKeys

theorem toFinmap_iterateSorted (entries : Finmap (fun _ : String => String)) :
    (iterateSorted entries).toFinmap = entries := by
  apply Finmap.ext
  exact coe_sortedEntries entries

section entry

open WireCode

variable {F : Type} (W : WireCode F)

def serializeEntry (key value : String) : List UInt8 :=
  W.writeSized 10 (utf8 key).length (utf8 key) ++ W.writeSized 18 (utf8 value).length (utf8 value)

def parseEntry (bytes : List UInt8) : Option (String × String) :=
  (W.parse entrySchema { known := ("", "") } bytes).map WireMessage.known

theorem parseEntry_serializeEntry (key value : String)
    (hlimit : (serializeEntry W key value).length < W.sizeLimit) :
    parseEntry W (serializeEntry W key value) = some (key, value) := by
  simp only [serializeEntry, List.length_append, length_writeSized, delimitedSize] at hlimit
  have hkey : W.Fields entrySchema ⟨("", ""), []⟩ (W.writeSized 10 (utf8 key).length (utf8 key))
      ⟨(key, ""), []⟩ := .sized rfl (by decide) (by decide) (by omega) (by simp [parseUtf8_utf8])
  have hvalue : W.Fields entrySchema ⟨(key, ""), []⟩ (W.writeSized 18 (utf8 value).length (utf8 value))
      ⟨(key, value), []⟩ := .sized rfl (by decide) (by decide) (by omega) (by simp [parseUtf8_utf8])
  rw [parseEntry, serializeEntry, parse_eq_some_iff.mpr (hkey.append hvalue)]
  rfl

end entry

def base128 : MetaRuntime Base128.RawField where
  toWireCode := Base128.wireCode
  iterate := iterateSorted
  toFinmap_iterate := toFinmap_iterateSorted
  serializeEntry := serializeEntry Base128.wireCode
  parseEntry := parseEntry Base128.wireCode
  entrySize key value := (serializeEntry Base128.wireCode key value).length
  parseEntry_serialize := parseEntry_serializeEntry Base128.wireCode
  length_serializeEntry _ _ := rfl
  deterministic := false

end Pb

end GayRpc
