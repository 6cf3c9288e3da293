import Mathlib.Data.List.AList
import Mathlib.Algebra.BigOperators.Group.List.Basic
import Mathlib.Algebra.GroupWithZero.Nat

/-!
# Weights of finite maps

The sum of a cost over all entries of an association list, and how the
operations of a hash map change it.
-/

namespace Memstashed.Foundation

variable {α : Type} {β : Type}

def mapWeight (f : α → β → Nat) (m : AList fun _ : α => β) : Nat :=
  (m.entries.map fun entry => f entry.1 entry.2).sum

@[simp] theorem mapWeight_empty (f : α → β → Nat) :
    mapWeight f (∅ : AList fun _ : α => β) = 0 := rfl

variable [DecidableEq α]

private theorem sum_kerase (f : α → β → Nat)
    (entries : List (Sigma fun _ : α => β)) {a : α} {b : β}
    (h : entries.dlookup a = some b) :
    f a b + ((entries.kerase a).map fun entry => f entry.1 entry.2).sum =
      (entries.map fun entry => f entry.1 entry.2).sum := by
  induction entries with
  | nil => simp at h
  | cons entry entries ih =>
      obtain ⟨key, value⟩ := entry
      by_cases hkey : a = key
      · subst hkey
        have hvalue : value = b := by simpa using h
        simp [hvalue]
      · rw [List.dlookup_cons_ne _ _ hkey] at h
        have := ih h
        rw [List.kerase_cons_ne hkey]
        simp only [List.map_cons, List.sum_cons]
        omega

theorem mapWeight_erase (f : α → β → Nat) {m : AList fun _ : α => β}
    {a : α} {b : β} (h : m.lookup a = some b) :
    f a b + mapWeight f (m.erase a) = mapWeight f m :=
  sum_kerase f m.entries h

theorem mapWeight_insert_new (f : α → β → Nat) {m : AList fun _ : α => β}
    {a : α} (b : β) (h : m.lookup a = none) :
    mapWeight f (m.insert a b) = f a b + mapWeight f m := by
  have hmem : a ∉ m := AList.lookup_eq_none.mp h
  rw [mapWeight, AList.entries_insert_of_notMem hmem, List.map_cons,
    List.sum_cons]
  rfl

theorem mapWeight_insert_old (f : α → β → Nat) {m : AList fun _ : α => β}
    {a : α} {old : β} (b : β) (h : m.lookup a = some old) :
    f a old + mapWeight f (m.insert a b) = f a b + mapWeight f m := by
  rw [← mapWeight_erase f h]
  have hinsert : mapWeight f (m.insert a b) =
      f a b + mapWeight f (m.erase a) := by
    rw [mapWeight, AList.entries_insert, List.map_cons, List.sum_cons]
    rfl
  omega

theorem mapWeight_congr {f g : α → β → Nat} {m : AList fun _ : α => β}
    (h : ∀ a b, m.lookup a = some b → f a b = g a b) :
    mapWeight f m = mapWeight g m := by
  unfold mapWeight
  congr 1
  apply List.map_congr_left
  intro entry hentry
  exact h entry.1 entry.2 (AList.mem_lookup_iff.mpr hentry)

end Memstashed.Foundation
