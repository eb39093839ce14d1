import Mathlib.Data.List.Sort
import Mathlib.Data.Multiset.AddSub

/-!
# Priority queues

What the documentation of a priority queue promises: the element on top is one that no other element
has to come before. Which of several such elements it is, is left open, and so is how the elements are
kept; what there is in a queue is a multiset.

A list that is kept in order is such a queue (`sorted`), so the promise can be met, and a run can be
computed.
-/

structure PriorityQueue (α : Type) (le : α → α → Prop) where
  Carrier : Type
  empty : Carrier
  push : Carrier → α → Carrier
  top : Carrier → Option α
  pop : Carrier → Carrier
  elems : Carrier → Multiset α
  elems_empty : elems empty = 0
  elems_push : ∀ (q : Carrier) (a : α), elems (push q a) = a ::ₘ elems q
  top_eq_none : ∀ q : Carrier, top q = none ↔ elems q = 0
  elems_pop : ∀ {q : Carrier} {a : α}, top q = some a → elems q = a ::ₘ elems (pop q)
  le_top : ∀ {q : Carrier} {a : α}, top q = some a → ∀ b ∈ elems q, le a b

namespace PriorityQueue

variable {α : Type} {le : α → α → Prop}

theorem mem_of_top (queue : PriorityQueue α le) {q : queue.Carrier} {a : α} (h : queue.top q = some a) :
    a ∈ queue.elems q := by
  rw [queue.elems_pop h]
  exact Multiset.mem_cons_self _ _

/-- The elements kept in order in a list. -/
def sorted (le : α → α → Prop) [DecidableRel le] [Std.Total le] [IsTrans α le] :
    PriorityQueue α le where
  Carrier := { l : List α // l.Pairwise le }
  empty := ⟨[], .nil⟩
  push q a := ⟨q.1.orderedInsert le a, q.2.orderedInsert a q.1⟩
  top q := q.1.head?
  pop q := ⟨q.1.tail, q.2.tail⟩
  elems q := q.1
  elems_empty := rfl
  elems_push q a := Multiset.coe_eq_coe.mpr (List.perm_orderedInsert le a q.1)
  top_eq_none q := by simp
  elems_pop {q a} h := by
    obtain ⟨l, hl⟩ := q
    cases l with
    | nil => cases h
    | cons b l =>
        obtain rfl := Option.some.inj h
        rfl
  le_top {q a} h b hb := by
    obtain ⟨l, hl⟩ := q
    cases l with
    | nil => cases h
    | cons c l =>
        obtain rfl := Option.some.inj h
        rcases List.mem_cons.mp (Multiset.mem_coe.mp hb) with rfl | hb
        · exact refl_of le b
        · exact List.rel_of_pairwise_cons hl hb

end PriorityQueue
