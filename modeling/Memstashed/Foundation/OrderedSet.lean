import Mathlib.Order.Lattice
import Mathlib.Data.List.Basic
import Mathlib.Algebra.BigOperators.Group.List.Basic
import Mathlib.Algebra.GroupWithZero.Nat

/-!
# Ordered sets compared by a key

The behaviour of `std::set` with a comparator that looks only at one component
`key` of its elements: two elements with the same key are equivalent, so an
insertion next to an equivalent element has no effect, and an erasure removes
whichever element has the given key.  The list is kept strictly increasing, so
its head is `begin()`.
-/

namespace Memstashed.Foundation

structure OrderedSet {α κ : Type} [LinearOrder κ] (key : α → κ) where
  toList : List α
  sorted : toList.Pairwise fun a b => key a < key b

namespace OrderedSet

variable {α κ : Type} [LinearOrder κ] {key : α → κ}

def empty : OrderedSet key := ⟨[], .nil⟩

instance : EmptyCollection (OrderedSet key) := ⟨empty⟩

instance : Membership α (OrderedSet key) := ⟨fun s a => a ∈ s.toList⟩

theorem mem_def {a : α} {s : OrderedSet key} : a ∈ s ↔ a ∈ s.toList := Iff.rfl

@[simp] theorem toList_empty : (∅ : OrderedSet key).toList = [] := rfl

@[simp] theorem notMem_empty (a : α) : a ∉ (∅ : OrderedSet key) := by
  simp [mem_def]

/-! ## Insertion -/

def insertList (key : α → κ) (a : α) : List α → List α
  | [] => [a]
  | b :: l =>
      if key a < key b then a :: b :: l
      else if key b < key a then b :: insertList key a l
      else b :: l

theorem mem_insertList {a x : α} {l : List α}
    (hsorted : l.Pairwise fun a b => key a < key b) :
    x ∈ insertList key a l ↔
      x ∈ l ∨ (x = a ∧ ∀ y ∈ l, key y ≠ key a) := by
  induction l with
  | nil => simp [insertList]
  | cons b l ih =>
      obtain ⟨hb, hl⟩ := List.pairwise_cons.mp hsorted
      simp only [insertList]
      split
      · rename_i hlt
        have hfresh : ∀ y ∈ b :: l, key y ≠ key a := by
          intro y hy
          rcases List.mem_cons.mp hy with rfl | hy
          · exact ne_of_gt hlt
          · exact ne_of_gt (hlt.trans (hb y hy))
        simp only [List.mem_cons] at hfresh ⊢
        tauto
      · split
        · rename_i hlt
          have hne : key b ≠ key a := ne_of_lt hlt
          simp only [List.mem_cons, ih hl, forall_eq_or_imp]
          tauto
        · rename_i hge hle
          have heq : key b = key a := le_antisymm (not_lt.mp hge) (not_lt.mp hle)
          simp only [List.mem_cons, forall_eq_or_imp, heq]
          tauto

theorem sorted_insertList (a : α) {l : List α}
    (hsorted : l.Pairwise fun a b => key a < key b) :
    (insertList key a l).Pairwise fun a b => key a < key b := by
  induction l with
  | nil => simp [insertList]
  | cons b l ih =>
      obtain ⟨hb, hl⟩ := List.pairwise_cons.mp hsorted
      simp only [insertList]
      split
      · rename_i hlt
        refine List.pairwise_cons.mpr ⟨?_, hsorted⟩
        intro y hy
        rcases List.mem_cons.mp hy with rfl | hy
        · exact hlt
        · exact hlt.trans (hb y hy)
      · split
        · rename_i hlt
          refine List.pairwise_cons.mpr ⟨?_, ih hl⟩
          intro y hy
          rcases (mem_insertList hl).mp hy with hy | ⟨rfl, -⟩
          · exact hb y hy
          · exact hlt
        · exact hsorted

/-- `s.insert(a)`: no effect when an equivalent element is already there. -/
def insert (a : α) (s : OrderedSet key) : OrderedSet key :=
  ⟨insertList key a s.toList, sorted_insertList a s.sorted⟩

@[simp] theorem mem_insert {a x : α} {s : OrderedSet key} :
    x ∈ s.insert a ↔ x ∈ s ∨ (x = a ∧ ∀ y ∈ s, key y ≠ key a) :=
  mem_insertList s.sorted

theorem insertList_of_mem {a b : α} {l : List α}
    (hsorted : l.Pairwise fun a b => key a < key b) (hb : b ∈ l)
    (hkey : key b = key a) : insertList key a l = l := by
  induction l with
  | nil => simp at hb
  | cons c l ih =>
      obtain ⟨hc, hl⟩ := List.pairwise_cons.mp hsorted
      rcases List.mem_cons.mp hb with rfl | hmem
      · simp [insertList, hkey]
      · have hlt : key c < key a := hkey ▸ hc b hmem
        simp [insertList, hlt, not_lt_of_gt hlt, ih hl hmem]

theorem insert_of_mem {a b : α} {s : OrderedSet key} (hb : b ∈ s)
    (hkey : key b = key a) : s.insert a = s := by
  cases s with
  | mk l hl => simp only [insert, insertList_of_mem hl hb hkey]

/-! ## Erasure -/

/-- `s.erase(x)` for any `x` with key `k`. -/
def erase (k : κ) (s : OrderedSet key) : OrderedSet key :=
  ⟨s.toList.filter (fun a => decide (key a ≠ k)), s.sorted.filter _⟩

@[simp] theorem mem_erase {k : κ} {x : α} {s : OrderedSet key} :
    x ∈ s.erase k ↔ x ∈ s ∧ key x ≠ k := by
  simp [mem_def, erase]

theorem erase_of_notMem {k : κ} {s : OrderedSet key}
    (h : ∀ x ∈ s, key x ≠ k) : s.erase k = s := by
  cases s with
  | mk l hl =>
      simp only [erase, mk.injEq, List.filter_eq_self, decide_eq_true_eq]
      exact h

theorem eq_of_key_eq {a b : α} {s : OrderedSet key} (ha : a ∈ s) (hb : b ∈ s)
    (h : key a = key b) : a = b := by
  cases s with
  | mk l hl =>
      simp only [mem_def] at ha hb
      induction l with
      | nil => simp at ha
      | cons c l ih =>
          obtain ⟨hc, hrest⟩ := List.pairwise_cons.mp hl
          rcases List.mem_cons.mp ha with hac | hal <;>
            rcases List.mem_cons.mp hb with hbc | hbl
          · rw [hac, hbc]
          · exact absurd h (hac ▸ ne_of_lt (hc b hbl))
          · exact absurd h (hbc ▸ ne_of_gt (hc a hal))
          · exact ih hrest hal hbl

/-! ## Weights -/

def weight (f : α → Nat) (s : OrderedSet key) : Nat := (s.toList.map f).sum

@[simp] theorem weight_empty (f : α → Nat) :
    weight f (∅ : OrderedSet key) = 0 := rfl

private theorem sum_insertList (f : α → Nat) (a : α) (l : List α)
    (h : ∀ y ∈ l, key y ≠ key a) :
    ((insertList key a l).map f).sum = f a + (l.map f).sum := by
  induction l with
  | nil => simp [insertList]
  | cons b l ih =>
      have hb : key b ≠ key a := h b (by simp)
      have hl := ih (fun y hy => h y (by simp [hy]))
      simp only [insertList]
      split
      · simp
      · rw [if_pos (lt_of_le_of_ne (not_lt.mp ‹_›) hb)]
        simp only [List.map_cons, List.sum_cons, hl]
        omega

theorem weight_insert (f : α → Nat) {a : α} {s : OrderedSet key}
    (h : ∀ y ∈ s, key y ≠ key a) :
    (s.insert a).weight f = f a + s.weight f :=
  sum_insertList f a s.toList h

theorem weight_insert_le (f : α → Nat) (a : α) (s : OrderedSet key) :
    (s.insert a).weight f ≤ f a + s.weight f := by
  by_cases h : ∃ b ∈ s, key b = key a
  · obtain ⟨b, hb, hkey⟩ := h
    rw [insert_of_mem hb hkey]
    omega
  · have hfresh : ∀ y ∈ s, key y ≠ key a := fun y hy hkey => h ⟨y, hy, hkey⟩
    exact Nat.le_of_eq (weight_insert f hfresh)

private theorem sum_filter_key (f : α → Nat) {a : α} {l : List α}
    (hsorted : l.Pairwise fun a b => key a < key b) (ha : a ∈ l) :
    f a + ((l.filter fun b => decide (key b ≠ key a)).map f).sum =
      (l.map f).sum := by
  induction l with
  | nil => simp at ha
  | cons b l ih =>
      obtain ⟨hb, hl⟩ := List.pairwise_cons.mp hsorted
      rcases List.mem_cons.mp ha with rfl | ha
      · have hrest : l.filter (fun b => decide (key b ≠ key a)) = l := by
          simp only [List.filter_eq_self, decide_eq_true_eq]
          exact fun y hy => ne_of_gt (hb y hy)
        rw [List.filter_cons_of_neg (by simp), hrest, List.map_cons,
          List.sum_cons]
      · have hne : key b ≠ key a := ne_of_lt (hb a ha)
        have hrest := ih hl ha
        rw [List.filter_cons_of_pos (by simpa using hne), List.map_cons,
          List.map_cons, List.sum_cons, List.sum_cons]
        omega

theorem weight_erase (f : α → Nat) {a : α} {s : OrderedSet key} (ha : a ∈ s) :
    f a + (s.erase (key a)).weight f = s.weight f :=
  sum_filter_key f s.sorted ha

end OrderedSet

end Memstashed.Foundation
