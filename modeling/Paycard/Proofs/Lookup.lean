import Mathlib.Data.List.Nodup

/-! # Looking up keys

In a table without repeated keys a key is found exactly where it stands, so the order of the table does
not matter.
-/

namespace Paycard

variable {α β : Type} [BEq α] [LawfulBEq α]

theorem lookup_cons_of_ne {key other : α} (elsewhere : other ≠ key) (value : β) (pairs : List (α × β)) :
    ((key, value) :: pairs).lookup other = pairs.lookup other := by
  rw [List.lookup_cons, beq_false_of_ne elsewhere]

theorem lookup_eq_some_iff_mem {pairs : List (α × β)} (distinct : (pairs.map Prod.fst).Nodup) {key : α}
    {value : β} : pairs.lookup key = some value ↔ (key, value) ∈ pairs := by
  induction pairs with
  | nil => simp
  | cons pair pairs ih =>
      obtain ⟨name, found⟩ := pair
      obtain ⟨absent, distinct⟩ := List.nodup_cons.mp distinct
      rw [List.mem_cons, Prod.mk.injEq]
      by_cases here : key = name
      · subst here
        have later : (key, value) ∉ pairs := by
          intro member
          exact absent (List.mem_map.mpr ⟨_, member, rfl⟩)
        simp [later, eq_comm]
      · rw [lookup_cons_of_ne here, ih distinct]
        simp [here]

theorem lookup_perm {pairs others : List (α × β)} (distinct : (pairs.map Prod.fst).Nodup)
    (perm : pairs.Perm others) (key : α) : pairs.lookup key = others.lookup key := by
  have distinct' : (others.map Prod.fst).Nodup := (perm.map Prod.fst).nodup distinct
  ext value
  rw [lookup_eq_some_iff_mem distinct, lookup_eq_some_iff_mem distinct', perm.mem_iff]

theorem lookup_change {key other : α} (elsewhere : other ≠ key) (front back : List (α × β)) (old new : β) :
    (front ++ (key, old) :: back).lookup other = (front ++ (key, new) :: back).lookup other := by
  rw [List.lookup_append, List.lookup_append, lookup_cons_of_ne elsewhere, lookup_cons_of_ne elsewhere]

end Paycard
