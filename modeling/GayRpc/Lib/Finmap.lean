import Mathlib.Data.Finmap

/-!
# What a lookup finds after an update

For maps whose values all have one type, taken apart by whether the key is the one that was updated.
Mathlib has a lemma for each of the two cases; code that looks something up in a map after a chain of
updates wants one that rewrites (`lookup_insert_eq_ite`), or one that takes a hypothesis apart
(`of_lookup_insert`).
-/

namespace Finmap

variable {α β : Type} [DecidableEq α] {s : Finmap fun _ : α => β} {a x : α} {b v : β}

theorem lookup_insert_eq_ite (s : Finmap fun _ : α => β) (a x : α) (b : β) :
    (s.insert a b).lookup x = if x = a then some b else s.lookup x := by
  split
  · next hx => rw [hx, lookup_insert]
  · next hx => rw [lookup_insert_of_ne _ hx]

theorem lookup_erase_eq_ite (s : Finmap fun _ : α => β) (a x : α) :
    (s.erase a).lookup x = if x = a then none else s.lookup x := by
  split
  · next hx => rw [hx, lookup_erase]
  · next hx => rw [lookup_erase_ne hx]

theorem of_lookup_insert (h : (s.insert a b).lookup x = some v) :
    (x = a ∧ v = b) ∨ (x ≠ a ∧ s.lookup x = some v) := by
  rw [lookup_insert_eq_ite] at h
  split at h
  · next hx => exact .inl ⟨hx, (Option.some.inj h).symm⟩
  · next hx => exact .inr ⟨hx, h⟩

theorem of_lookup_erase (h : (s.erase a).lookup x = some v) : x ≠ a ∧ s.lookup x = some v := by
  rw [lookup_erase_eq_ite] at h
  split at h
  · cases h
  · next hx => exact ⟨hx, h⟩

theorem erase_of_lookup_eq_none (h : s.lookup a = none) : s.erase a = s := by
  apply ext_lookup
  intro x
  rw [lookup_erase_eq_ite]
  split
  · next hx => rw [hx, h]
  · rfl

/-- The entries of one map, put into another one by one in any order, win over what was there. -/
theorem foldl_insert_entries (items : AList fun _ : α => β) (s : Finmap fun _ : α => β) :
    items.entries.foldl (fun s e => s.insert e.1 e.2) s = items.toFinmap ∪ s := by
  obtain ⟨entries, hnodup⟩ := items
  induction entries generalizing s with
  | nil => exact empty_union.symm
  | cons e entries ih =>
      -- the keys are distinct, so no later insertion overwrites this one
      obtain ⟨hnot, hnodup'⟩ := List.nodupKeys_cons.mp hnodup
      refine (ih _ hnodup').trans (ext_lookup fun x => ?_)
      have hcons (a : α) : lookup a (AList.mk (e :: entries) hnodup).toFinmap =
          if a = e.1 then some e.2 else lookup a (AList.mk entries hnodup').toFinmap := by
        by_cases h : a = e.1
        · subst h
          exact (List.dlookup_cons_eq entries e.1 e.2).trans (if_pos rfl).symm
        · exact (List.dlookup_cons_ne entries e h).trans (if_neg h).symm
      have hunion (s₁ s₂ : Finmap fun _ : α => β) (a : α) :
          lookup a (s₁ ∪ s₂) = (lookup a s₁).or (lookup a s₂) := by
        cases h : lookup a s₁ with
        | some b => rw [lookup_union_left (mem_of_lookup_eq_some h), h, Option.some_or]
        | none => rw [lookup_union_right (lookup_eq_none.mp h), Option.none_or]
      have hfresh : lookup e.1 (AList.mk entries hnodup').toFinmap = none :=
        lookup_eq_none.mpr hnot
      -- at the new key both sides find its value, elsewhere the rest of the entries decides
      rw [hunion, hunion, hcons, lookup_insert_eq_ite]
      by_cases h : x = e.1
      · rw [if_pos h, if_pos h, h, hfresh, Option.none_or, Option.some_or]
      · rw [if_neg h, if_neg h]

end Finmap
