import Memstashed.Foundation.Bytes

/-!
# Searching byte strings

`find?` described by how the text is cut: a single byte is found at the end of
the longest piece without it, and the position of an occurrence does not change
when the search starts later, as long as it starts no later than that.
-/

namespace Memstashed.Foundation

/-- The text before the first `c`, and what follows that `c` if there is one. -/
def cut (c : UInt8) : Bytes → Bytes × Option Bytes
  | [] => ([], none)
  | b :: s => if b = c then ([], some s) else ((b :: (cut c s).1), (cut c s).2)

theorem cut_of_some {c : UInt8} {s t r : Bytes} (h : cut c s = (t, some r)) :
    s = t ++ c :: r ∧ c ∉ t := by
  induction s generalizing t with
  | nil => simp [cut] at h
  | cons b s ih =>
      by_cases hb : b = c
      · simp only [cut, hb, if_true, Prod.mk.injEq, Option.some.injEq] at h
        obtain ⟨rfl, rfl⟩ := h
        simp [hb]
      · simp only [cut, hb, if_false, Prod.mk.injEq] at h
        obtain ⟨rfl, hr⟩ := h
        obtain ⟨hs, hnot⟩ := ih (Prod.ext rfl hr)
        constructor
        · rw [List.cons_append, ← hs]
        · simp only [List.mem_cons, not_or]
          exact ⟨fun hc => hb hc.symm, hnot⟩

theorem cut_of_none {c : UInt8} {s t : Bytes} (h : cut c s = (t, none)) :
    t = s ∧ c ∉ s := by
  induction s generalizing t with
  | nil =>
      cases h
      simp
  | cons b s ih =>
      by_cases hb : b = c
      · simp [cut, hb] at h
      · simp only [cut, hb, if_false, Prod.mk.injEq] at h
        obtain ⟨rfl, hr⟩ := h
        obtain ⟨hs, hnot⟩ := ih (Prod.ext rfl hr)
        constructor
        · exact congrArg (b :: ·) hs
        · simp only [List.mem_cons, not_or]
          exact ⟨fun hc => hb hc.symm, hnot⟩

theorem cut_append_cons {c : UInt8} {t : Bytes} (r : Bytes) (h : c ∉ t) :
    cut c (t ++ c :: r) = (t, some r) := by
  induction t with
  | nil => simp [cut]
  | cons b t ih =>
      simp only [List.mem_cons, not_or] at h
      have hb : b ≠ c := fun hc => h.1 hc.symm
      simp [cut, hb, ih h.2]

theorem cut_of_notMem {c : UInt8} {s : Bytes} (h : c ∉ s) :
    cut c s = (s, none) := by
  induction s with
  | nil => rfl
  | cons b s ih =>
      simp only [List.mem_cons, not_or] at h
      have hb : b ≠ c := fun hc => h.1 hc.symm
      simp [cut, hb, ih h.2]

/-! ## One byte -/

private theorem isPrefixOf_singleton (c b : UInt8) (s : Bytes) :
    [c].isPrefixOf (b :: s) = true ↔ c = b := by
  simp [List.isPrefixOf]

theorem find?_append_of_notMem {c : UInt8} {t : Bytes} (s : Bytes)
    (h : c ∉ t) :
    find? [c] (t ++ s) = (find? [c] s).map (t.length + ·) := by
  induction t with
  | nil => simp
  | cons b t ih =>
      simp only [List.mem_cons, not_or] at h
      have hstarts : ¬ [c].isPrefixOf (b :: (t ++ s)) = true := by
        rw [isPrefixOf_singleton]
        exact h.1
      rw [List.cons_append, find?, if_neg hstarts, ih h.2]
      cases find? [c] s with
      | none => rfl
      | some i =>
          simp only [Option.map_some, List.length_cons]
          congr 1
          omega

theorem find?_append_cons {c : UInt8} {t : Bytes} (r : Bytes) (h : c ∉ t) :
    find? [c] (t ++ c :: r) = some t.length := by
  have hhead : find? [c] (c :: r) = some 0 := by
    rw [find?, if_pos ((isPrefixOf_singleton c c r).mpr rfl)]
  rw [find?_append_of_notMem _ h, hhead]
  rfl

theorem find?_of_notMem {c : UInt8} {s : Bytes} (h : c ∉ s) :
    find? [c] s = none := by
  have happend := find?_append_of_notMem [] h
  simpa [find?] using happend

/-! ## Any needle -/

theorem find?_eq_some_iff {needle s : Bytes} {i : Nat} :
    find? needle s = some i ↔
      i ≤ s.length ∧ needle <+: s.drop i ∧ ∀ j < i, ¬ needle <+: s.drop j := by
  induction s generalizing i with
  | nil =>
      unfold find?
      cases i with
      | zero => simp
      | succ i => simp
  | cons b s ih =>
      have hhead : needle.isPrefixOf (b :: s) = true ↔ needle <+: b :: s :=
        List.isPrefixOf_iff_prefix
      unfold find?
      cases i with
      | zero => by_cases h : needle <+: b :: s <;> simp [hhead, h]
      | succ i =>
          by_cases h : needle <+: b :: s
          · simp only [hhead, h, if_true, Option.some.injEq, false_iff,
              reduceCtorEq]
            rintro ⟨-, -, hnot⟩
            exact hnot 0 (Nat.succ_pos i) h
          · simp only [hhead, h, if_false, Option.map_eq_some_iff,
              Nat.add_right_cancel_iff, exists_eq_right, ih, List.length_cons,
              List.drop_succ_cons, Nat.add_le_add_iff_right,
              Nat.forall_lt_succ_left, List.drop_zero, not_false_eq_true,
              true_and]

theorem find?_isPrefixOf {needle s : Bytes} {i : Nat}
    (h : find? needle s = some i) : needle <+: s.drop i :=
  (find?_eq_some_iff.mp h).2.1

theorem find?_le_length {needle s : Bytes} {i : Nat}
    (h : find? needle s = some i) : i ≤ s.length :=
  (find?_eq_some_iff.mp h).1

theorem find?_drop {needle s : Bytes} {i pos : Nat}
    (h : find? needle s = some i) (hpos : pos ≤ i) :
    find? needle (s.drop pos) = some (i - pos) := by
  obtain ⟨hle, hstarts, hfirst⟩ := find?_eq_some_iff.mp h
  refine find?_eq_some_iff.mpr ⟨?_, ?_, fun j hj => ?_⟩
  · rw [List.length_drop]
    omega
  · rwa [List.drop_drop, Nat.add_sub_cancel' hpos]
  · rw [List.drop_drop]
    exact hfirst (pos + j) (by omega)

theorem find?_append_iff {needle s t : Bytes} {i : Nat}
    (hfits : i + needle.length ≤ s.length) :
    find? needle (s ++ t) = some i ↔ find? needle s = some i := by
  have hsame : ∀ j ≤ i, needle <+: (s ++ t).drop j ↔ needle <+: s.drop j := by
    intro j hj
    rw [List.drop_append_of_le_length (by omega)]
    constructor
    · intro h
      refine List.prefix_of_prefix_length_le h (List.prefix_append _ _) ?_
      rw [List.length_drop]
      omega
    · exact fun h => h.trans (List.prefix_append _ _)
  rw [find?_eq_some_iff, find?_eq_some_iff, hsame i le_rfl]
  refine and_congr ?_ (and_congr_right' (forall₂_congr fun j hj => ?_))
  · simp only [List.length_append]
    omega
  · rw [hsame j hj.le]

theorem find?_fits {needle s : Bytes} {i : Nat} (h : find? needle s = some i) :
    i + needle.length ≤ s.length := by
  have hlength := (find?_isPrefixOf h).length_le
  have hle := find?_le_length h
  rw [List.length_drop] at hlength
  omega

theorem find?_append {needle s : Bytes} {i : Nat} (t : Bytes)
    (h : find? needle s = some i) : find? needle (s ++ t) = some i :=
  (find?_append_iff (find?_fits h)).mpr h

theorem find?_crlf {line : Bytes} (h : ¬ crlf <:+: line) (rest : Bytes) :
    find? crlf (line ++ (crlf ++ rest)) = some line.length := by
  induction line with
  | nil => rfl
  | cons b line ih =>
      have hline : ¬ crlf <:+: line := fun hinside =>
        h (hinside.trans (List.suffix_cons b line).isInfix)
      have hstarts : ¬ crlf.isPrefixOf (b :: (line ++ (crlf ++ rest))) = true := by
        cases line with
        | nil => simp [crlf, List.isPrefixOf]
        | cons c line =>
            simp only [crlf, List.cons_append, List.isPrefixOf, Bool.and_true,
              Bool.and_eq_true, beq_iff_eq, not_and]
            rintro rfl rfl
            exact h ⟨[], line, rfl⟩
      rw [List.cons_append, find?, if_neg hstarts, ih hline]
      rfl

theorem find?_crlf_none {s : Bytes} (h : 13 ∉ s) : find? crlf s = none := by
  cases hfind : find? crlf s with
  | none => rfl
  | some i =>
      have hmem : 13 ∈ s.drop i :=
        (find?_isPrefixOf hfind).subset List.mem_cons_self
      exact absurd (List.mem_of_mem_drop hmem) h

theorem exists_find?_of_isInfix {needle s : Bytes} (h : needle <:+: s) :
    ∃ i, find? needle s = some i := by
  obtain ⟨t, r, rfl⟩ := h
  induction t with
  | nil =>
      refine ⟨0, ?_⟩
      cases hs : [] ++ needle ++ r with
      | nil =>
          have hempty : needle = [] := (List.append_eq_nil_iff.mp hs).1
          simp [find?, hempty]
      | cons b s =>
          have hstarts : needle <+: b :: s := ⟨r, hs⟩
          rw [find?, if_pos (List.isPrefixOf_iff_prefix.mpr hstarts)]
  | cons b t ih =>
      obtain ⟨i, hi⟩ := ih
      rw [List.cons_append, List.cons_append, find?]
      split
      · exact ⟨0, rfl⟩
      · exact ⟨i + 1, by rw [hi]; rfl⟩

end Memstashed.Foundation
