import Memstashed.Foundation.Prog
import Mathlib.Data.Fintype.Basic
import Mathlib.Algebra.BigOperators.Group.Finset.Basic
import Mathlib.Algebra.Order.BigOperators.Group.Finset
import Mathlib.Logic.Function.Basic

/-!
# Programs that take turns

Several clients run a program each, one call at a time and in any order.  When a
call that changes the state is the last one of its program, and is made while no
other client is in the middle of its program, the clients might as well have run
one after another.
-/

namespace Memstashed.Foundation

namespace Prog

variable {ι : Type} {ρ : ι → Type} {ε α σ τ κ : Type}

def isDone : Prog ι ρ ε α → Bool
  | done _ => true
  | _ => false

theorem isDone_iff {p : Prog ι ρ ε α} : p.isDone = true ↔ ∃ a, p = done a := by
  cases p <;> simp [isDone]

def result? : Prog ι ρ ε α → Option α
  | done a => some a
  | _ => none

theorem eq_done_of_result? {p : Prog ι ρ ε α} {a : α}
    (h : p.result? = some a) : p = done a := by
  cases p with
  | done b =>
      cases h
      rfl
  | fail e => contradiction
  | call i next => contradiction

abbrev Turn (ι : Type) (ρ : ι → Type) (ε α σ κ : Type) :=
  List κ → (κ → Prog ι ρ ε α) → σ → κ → ι → σ → Prop

inductive Interleaved [DecidableEq κ] (exec : (i : ι) → Effect σ ε (ρ i))
    (ok : Turn ι ρ ε α σ κ) (pool₀ : κ → Prog ι ρ ε α) (s₀ : σ) :
    List κ → (κ → Prog ι ρ ε α) → σ → Prop
  | start : Interleaved exec ok pool₀ s₀ [] pool₀ s₀
  | step {turns : List κ} {pool : κ → Prog ι ρ ε α} {s s' : σ} {k : κ} {i : ι}
      {next : ρ i → Prog ι ρ ε α} {r : ρ i} :
      Interleaved exec ok pool₀ s₀ turns pool s → pool k = call i next →
      exec i s = .ok (r, s') → ok turns pool s k i s' →
      Interleaved exec ok pool₀ s₀ (k :: turns)
        (Function.update pool k (next r)) s'

/-- The clients run to their ends one after another. -/
inductive Serial (exec : (i : ι) → Effect σ ε (ρ i))
    (pool₀ pool : κ → Prog ι ρ ε α) : List κ → σ → σ → Prop
  | nil (s : σ) : Serial exec pool₀ pool [] s s
  | cons {k : κ} {order : List κ} {a : α} {s s' s'' : σ} :
      pool k = done a → (pool₀ k).run exec s = .ok (a, s') →
      Serial exec pool₀ pool order s' s'' →
      Serial exec pool₀ pool (k :: order) s s''

/-- A call that changes the state is made while no other client is in the middle
of its program. -/
def Calm : Turn ι ρ ε α σ κ := fun turns pool s k _ s' =>
  s' = s ∨ ∀ j ∈ turns, j ≠ k → (pool j).isDone = true

inductive ActsLast (exec : (i : ι) → Effect σ ε (ρ i)) :
    Prog ι ρ ε α → Prop
  | done (a : α) : ActsLast exec (.done a)
  | fail (e : ε) : ActsLast exec (.fail e)
  | call {i : ι} {next : ρ i → Prog ι ρ ε α} :
      (∀ s r s', exec i s = .ok (r, s') → s' = s ∨ (next r).isDone = true) →
      (∀ r, ActsLast exec (next r)) → ActsLast exec (.call i next)

section Serial

variable {exec : (i : ι) → Effect σ ε (ρ i)} {pool₀ pool : κ → Prog ι ρ ε α}
  {s s' : σ} {k : κ} {order : List κ}

theorem Serial.snoc {a : α} {s'' : σ} (h : Serial exec pool₀ pool order s s')
    (hdone : pool k = .done a) (hrun : (pool₀ k).run exec s' = .ok (a, s'')) :
    Serial exec pool₀ pool (order ++ [k]) s s'' := by
  induction h with
  | nil s => exact .cons hdone hrun (.nil s'')
  | cons hfirst hrun' _ ih => exact .cons hfirst hrun' (ih hrun)

theorem Serial.congr {pool' : κ → Prog ι ρ ε α}
    (h : Serial exec pool₀ pool order s s')
    (hsame : ∀ k ∈ order, pool' k = pool k) :
    Serial exec pool₀ pool' order s s' := by
  induction h with
  | nil s => exact .nil s
  | cons hdone hrun _ ih =>
      refine .cons ((hsame _ List.mem_cons_self).trans hdone) hrun ?_
      exact ih fun k hk => hsame k (List.mem_cons_of_mem _ hk)

theorem Serial.append_idle (h : Serial exec pool₀ pool order s s')
    {idle : List κ} (hidle : ∀ k ∈ idle, ∃ a, pool k = .done a ∧
      pool₀ k = .done a) :
    Serial exec pool₀ pool (order ++ idle) s s' := by
  induction h with
  | nil s =>
      induction idle with
      | nil => exact .nil s
      | cons k idle ih =>
          obtain ⟨a, hdone, hstart⟩ := hidle k List.mem_cons_self
          refine .cons hdone (by rw [hstart]; rfl) ?_
          exact ih fun j hj => hidle j (List.mem_cons_of_mem _ hj)
  | cons hdone hrun _ ih => exact .cons hdone hrun ih

end Serial

/-! ## Calm interleavings -/

/-- The clients that have finished have run one after another, and those that
have not can start over in the state as it is. -/
structure Rearranged (exec : (i : ι) → Effect σ ε (ρ i))
    (pool₀ : κ → Prog ι ρ ε α) (s₀ : σ) (turns : List κ)
    (pool : κ → Prog ι ρ ε α) (s : σ) (order : List κ) : Prop where
  nodup : order.Nodup
  done : ∀ k ∈ order, (pool k).isDone = true
  complete : ∀ k ∈ turns, (pool k).isDone = true → k ∈ order
  serial : Serial exec pool₀ pool order s₀ s
  again : ∀ k, k ∉ order → (pool₀ k).run exec s = (pool k).run exec s
  waiting : ∀ k, k ∉ turns → pool k = pool₀ k
  last : ∀ k, ActsLast exec (pool k)

section Calm

variable {exec : (i : ι) → Effect σ ε (ρ i)} {pool₀ pool : κ → Prog ι ρ ε α}
  {s₀ s s' : σ} {turns order : List κ} {k : κ} {i : ι}
  {next : ρ i → Prog ι ρ ε α} {r : ρ i}

theorem Rearranged.notMem (h : Rearranged exec pool₀ s₀ turns pool s order)
    (hk : pool k = .call i next) : k ∉ order := by
  intro hmem
  have hdone := h.done k hmem
  rw [hk] at hdone
  contradiction

theorem Rearranged.run_eq (h : Rearranged exec pool₀ s₀ turns pool s order)
    (hk : pool k = .call i next) (hexec : exec i s = .ok (r, s')) :
    (pool₀ k).run exec s = (next r).run exec s' := by
  rw [h.again k (h.notMem hk), hk, run_call, hexec]

variable [DecidableEq κ]

theorem Rearranged.last_update
    (h : Rearranged exec pool₀ s₀ turns pool s order)
    (hk : pool k = .call i next) (j : κ) :
    ActsLast exec (Function.update pool k (next r) j) := by
  by_cases hj : j = k
  · subst hj
    rw [Function.update_self]
    have hlast := h.last j
    rw [hk] at hlast
    cases hlast with
    | call _ hnext => exact hnext r
  · rw [Function.update_of_ne hj]
    exact h.last j

theorem Rearranged.finish (h : Rearranged exec pool₀ s₀ turns pool s order)
    (hk : pool k = .call i next) (hexec : exec i s = .ok (r, s'))
    {a : α} (hnext : next r = .done a)
    (hcalm : s' = s ∨ ∀ j ∈ turns, j ≠ k → (pool j).isDone = true) :
    Rearranged exec pool₀ s₀ (k :: turns) (Function.update pool k (next r)) s'
      (order ++ [k]) := by
  have hnot := h.notMem hk
  have hsame : ∀ j ∈ order, Function.update pool k (next r) j = pool j := by
    intro j hj
    refine Function.update_of_ne ?_ _ _
    rintro rfl
    exact hnot hj
  refine ⟨?_, ?_, ?_, ?_, ?_, ?_, h.last_update hk⟩
  · exact List.Nodup.append h.nodup (List.nodup_singleton k)
      (by simpa using hnot)
  · intro j hj
    rcases List.mem_append.mp hj with hj | hj
    · rw [hsame j hj]
      exact h.done j hj
    · obtain rfl := List.mem_singleton.mp hj
      rw [Function.update_self, hnext]
      rfl
  · intro j hj hdone
    by_cases hjk : j = k
    · simp [hjk]
    · rw [Function.update_of_ne hjk] at hdone
      refine List.mem_append_left _ (h.complete j ?_ hdone)
      exact (List.mem_cons.mp hj).resolve_left hjk
  · refine (h.serial.congr hsame).snoc (a := a) ?_ ?_
    · rw [Function.update_self, hnext]
    · rw [h.run_eq hk hexec, hnext]
      rfl
  · intro j hj
    simp only [List.mem_append, List.mem_singleton, not_or] at hj
    rw [Function.update_of_ne hj.2]
    rcases hcalm with rfl | hothers
    · exact h.again j hj.1
    · -- the others have finished or not begun
      have hnew : j ∉ turns := fun hturn =>
        hj.1 (h.complete j hturn (hothers j hturn hj.2))
      rw [h.waiting j hnew]
  · intro j hj
    simp only [List.mem_cons, not_or] at hj
    rw [Function.update_of_ne hj.1]
    exact h.waiting j hj.2

theorem Rearranged.proceed (h : Rearranged exec pool₀ s₀ turns pool s order)
    (hk : pool k = .call i next) (hexec : exec i s = .ok (r, s))
    (hnext : (next r).isDone = false) :
    Rearranged exec pool₀ s₀ (k :: turns) (Function.update pool k (next r)) s
      order := by
  have hnot := h.notMem hk
  have hsame : ∀ j ∈ order, Function.update pool k (next r) j = pool j := by
    intro j hj
    refine Function.update_of_ne ?_ _ _
    rintro rfl
    exact hnot hj
  refine ⟨h.nodup, ?_, ?_, h.serial.congr hsame, ?_, ?_, h.last_update hk⟩
  · intro j hj
    rw [hsame j hj]
    exact h.done j hj
  · intro j hj hdone
    by_cases hjk : j = k
    · rw [hjk, Function.update_self, hnext] at hdone
      contradiction
    · rw [Function.update_of_ne hjk] at hdone
      exact h.complete j ((List.mem_cons.mp hj).resolve_left hjk) hdone
  · intro j hj
    by_cases hjk : j = k
    · subst hjk
      rw [Function.update_self, h.run_eq hk hexec]
    · rw [Function.update_of_ne hjk]
      exact h.again j hj
  · intro j hj
    simp only [List.mem_cons, not_or] at hj
    rw [Function.update_of_ne hj.1]
    exact h.waiting j hj.2

theorem Interleaved.rearranged
    (h : Interleaved exec Calm pool₀ s₀ turns pool s)
    (hlast : ∀ k, ActsLast exec (pool₀ k)) :
    ∃ order, Rearranged exec pool₀ s₀ turns pool s order := by
  induction h with
  | start =>
      exact ⟨[], List.nodup_nil, by simp, by simp, .nil s₀, fun _ _ => rfl,
        fun _ _ => rfl, hlast⟩
  | @step turns pool s s' k i next r _ hk hexec hcalm ih =>
      obtain ⟨order, h⟩ := ih
      have hchange := h.last k
      rw [hk] at hchange
      cases hchange with
      | call hchange _ =>
          cases hnext : (next r).isDone with
          | true =>
              obtain ⟨a, ha⟩ := isDone_iff.mp hnext
              exact ⟨order ++ [k], h.finish hk hexec ha hcalm⟩
          | false =>
              rcases hchange s r s' hexec with rfl | hdone
              · exact ⟨order, h.proceed hk hexec hnext⟩
              · rw [hdone] at hnext
                contradiction

/-- A calm interleaving that has come to its end is the work of the clients one
after another. -/
theorem Interleaved.serializable [Fintype κ]
    (h : Interleaved exec Calm pool₀ s₀ turns pool s)
    (hlast : ∀ k, ActsLast exec (pool₀ k))
    (hdone : ∀ k, (pool k).isDone = true) :
    ∃ order : List κ, order.Nodup ∧ (∀ k, k ∈ order) ∧
      Serial exec pool₀ pool order s₀ s := by
  obtain ⟨order, h⟩ := h.rearranged hlast
  refine ⟨order ++ (Finset.univ.filter (· ∉ order)).toList, ?_, ?_, ?_⟩
  · refine List.Nodup.append h.nodup (Finset.nodup_toList _) ?_
    intro k hk hidle
    simp only [Finset.mem_toList, Finset.mem_filter] at hidle
    exact hidle.2 hk
  · intro k
    by_cases hk : k ∈ order
    · exact List.mem_append_left _ hk
    · exact List.mem_append_right _ (by simp [hk])
  · refine h.serial.append_idle ?_
    intro k hk
    simp only [Finset.mem_toList, Finset.mem_filter] at hk
    have hturn : k ∉ turns := fun hturn => hk.2 (h.complete k hturn (hdone k))
    obtain ⟨a, ha⟩ := isDone_iff.mp (hdone k)
    exact ⟨a, ha, (h.waiting k hturn).symm.trans ha⟩

end Calm

/-! ## Counting turns -/

inductive AtMost : Nat → Prog ι ρ ε α → Prop
  | done (n : Nat) (a : α) : AtMost n (.done a)
  | fail (n : Nat) (e : ε) : AtMost n (.fail e)
  | call {n : Nat} {i : ι} {next : ρ i → Prog ι ρ ε α} :
      (∀ r, AtMost n (next r)) → AtMost (n + 1) (.call i next)

theorem AtMost.mono {m n : Nat} {p : Prog ι ρ ε α} (h : AtMost m p)
    (hle : m ≤ n) : AtMost n p := by
  induction h generalizing n with
  | done m a => exact .done n a
  | fail m e => exact .fail n e
  | @call m i next _ ih =>
      obtain ⟨n, rfl⟩ : ∃ n', n = n' + 1 := ⟨n - 1, by omega⟩
      exact .call fun r => ih r (by omega)

section Counting

variable [DecidableEq κ] {exec : (i : ι) → Effect σ ε (ρ i)}
  {ok : Turn ι ρ ε α σ κ} {pool₀ pool : κ → Prog ι ρ ε α} {s₀ s : σ}
  {turns : List κ} {n : Nat}

theorem Interleaved.calls {P : ι → Prop}
    (h : Interleaved exec ok pool₀ s₀ turns pool s)
    (hcalls : ∀ k, Calls P (pool₀ k)) (k : κ) : Calls P (pool k) := by
  induction h with
  | start => exact hcalls k
  | @step turns pool s s' j i next r _ hj _ _ ih =>
      by_cases hjk : j = k
      · subst hjk
        rw [hj] at ih
        cases ih with
        | call _ hnext =>
            rw [Function.update_self]
            exact hnext r
      · rw [Function.update_of_ne (Ne.symm hjk)]
        exact ih

theorem Interleaved.count_le
    (h : Interleaved exec ok pool₀ s₀ turns pool s)
    (hmost : ∀ k, AtMost n (pool₀ k)) (k : κ) :
    ∃ m, AtMost m (pool k) ∧ m + turns.count k ≤ n := by
  induction h with
  | start => exact ⟨n, hmost k, by simp⟩
  | @step turns pool s s' j i next r _ hj hexec _ ih =>
      obtain ⟨m, hm, hle⟩ := ih
      by_cases hjk : j = k
      · subst hjk
        rw [hj] at hm
        cases hm with
        | @call m _ _ hnext =>
            rw [Function.update_self, List.count_cons_self]
            exact ⟨m, hnext r, by omega⟩
      · rw [Function.update_of_ne (Ne.symm hjk), List.count_cons_of_ne hjk]
        exact ⟨m, hm, hle⟩

theorem Interleaved.length_le [Fintype κ]
    (h : Interleaved exec ok pool₀ s₀ turns pool s)
    (hmost : ∀ k, AtMost n (pool₀ k)) :
    turns.length ≤ Fintype.card κ * n := by
  have hcount : ∀ k, turns.count k ≤ n := by
    intro k
    obtain ⟨m, -, hle⟩ := h.count_le hmost k
    omega
  calc turns.length = ∑ k, turns.count k := by
        rw [← Multiset.coe_card, ← Multiset.sum_count_eq_card
          (fun k _ => Finset.mem_univ k)]
        simp only [Multiset.coe_count]
    _ ≤ ∑ _k : κ, n := Finset.sum_le_sum fun k _ => hcount k
    _ = Fintype.card κ * n := by simp

end Counting

/-! ## Two levels -/

section Simulation

variable [DecidableEq κ] {exec : (i : ι) → Effect σ ε (ρ i)}
  {exec' : (i : ι) → Effect τ ε (ρ i)} {pool₀ pool : κ → Prog ι ρ ε α}

theorem Interleaved.simulates {ok : Turn ι ρ ε α σ κ} {ok' : Turn ι ρ ε α τ κ}
    {s₀ s : σ} {t₀ : τ} {turns : List κ} (R : List κ → σ → τ → Prop)
    (hstep : ∀ turns pool s t k i next r s', R turns s t →
      pool k = .call i next → exec i s = .ok (r, s') →
      ok turns pool s k i s' →
      Interleaved exec ok pool₀ s₀ turns pool s →
      ∃ t', exec' i t = .ok (r, t') ∧ ok' turns pool t k i t' ∧
        R (k :: turns) s' t')
    (h : Interleaved exec ok pool₀ s₀ turns pool s) (hstart : R [] s₀ t₀) :
    ∃ t, Interleaved exec' ok' pool₀ t₀ turns pool t ∧ R turns s t := by
  induction h with
  | start => exact ⟨t₀, .start, hstart⟩
  | step hturns hk hexec hok ih =>
      obtain ⟨t, ht, hR⟩ := ih
      obtain ⟨t', hexec', hok', hR'⟩ :=
        hstep _ _ _ t _ _ _ _ _ hR hk hexec hok hturns
      exact ⟨t', .step ht hk hexec' hok', hR'⟩

end Simulation

section Lasting

variable {exec : (i : ι) → Effect σ ε (ρ i)}
  {exec' : (i : ι) → Effect τ ε (ρ i)} {pool₀ pool : κ → Prog ι ρ ε α}

structure Lasting (exec : (i : ι) → Effect σ ε (ρ i))
    (exec' : (i : ι) → Effect τ ε (ρ i)) (P : ι → Prop)
    (R : Nat → σ → τ → Prop) : Prop where
  less : ∀ n s t, R (n + 1) s t → R n s t
  step : ∀ n i s t r s', P i → R (n + 1) s t → exec i s = .ok (r, s') →
    ∃ t', exec' i t = .ok (r, t') ∧ R n s' t'

variable {P : ι → Prop} {R : Nat → σ → τ → Prop}

theorem Lasting.less_many (hR : Lasting exec exec' P R) {n : Nat} {s : σ}
    {t : τ} (m : Nat) (h : R (n + m) s t) : R n s t := by
  induction m with
  | zero => exact h
  | succ m ih => exact ih (hR.less _ _ _ h)

theorem Lasting.run (hR : Lasting exec exec' P R) {p : Prog ι ρ ε α}
    {m n : Nat} {s s' : σ} {t : τ} {a : α} (hp : AtMost m p)
    (hcalls : Calls P p) (hrun : p.run exec s = .ok (a, s'))
    (h : R (n + m) s t) :
    ∃ t', p.run exec' t = .ok (a, t') ∧ R n s' t' := by
  induction hp generalizing s t with
  | done m b =>
      cases hrun
      exact ⟨t, rfl, hR.less_many m h⟩
  | fail m e => contradiction
  | @call m i next _ ih =>
      cases hcalls with
      | call hi hnext =>
          rw [run_call] at hrun
          cases hexec : exec i s with
          | error e => simp [hexec] at hrun
          | ok result =>
              rw [hexec] at hrun
              obtain ⟨t', hexec', h'⟩ :=
                hR.step (n + m) i s t result.1 result.2 hi h hexec
              obtain ⟨t'', hrun', h''⟩ :=
                ih result.1 (hnext result.1) hrun h'
              refine ⟨t'', ?_, h''⟩
              rw [run_call, hexec']
              exact hrun'

theorem Lasting.serial (hR : Lasting exec exec' P R) {order : List κ}
    {m n : Nat} {s s' : σ} {t : τ} (hmost : ∀ k, AtMost m (pool₀ k))
    (hcalls : ∀ k, Calls P (pool₀ k))
    (hserial : Serial exec pool₀ pool order s s')
    (h : R (n + order.length * m) s t) :
    ∃ t', Serial exec' pool₀ pool order t t' ∧ R n s' t' := by
  induction hserial generalizing t with
  | nil s => exact ⟨t, .nil t, by simpa using h⟩
  | @cons k order a s s' s'' hdone hrun _ ih =>
      have hsum : n + (k :: order).length * m = n + order.length * m + m := by
        rw [List.length_cons, Nat.succ_mul, Nat.add_assoc]
      rw [hsum] at h
      obtain ⟨t', hrun', h'⟩ := hR.run (hmost k) (hcalls k) hrun h
      obtain ⟨t'', hserial', h''⟩ := ih h'
      exact ⟨t'', .cons hdone hrun' hserial', h''⟩

end Lasting

/-! ## Turns on demand -/

section Schedule

variable [DecidableEq κ] (exec : (i : ι) → Effect σ ε (ρ i))
  (ok : Turn ι ρ ε α σ κ)
  [∀ turns pool s k i s', Decidable (ok turns pool s k i s')]

def schedule : List κ → List κ × (κ → Prog ι ρ ε α) × σ →
    Option (List κ × (κ → Prog ι ρ ε α) × σ)
  | [], c => some c
  | k :: ks, (turns, pool, s) =>
      match pool k with
      | .call i next =>
          match exec i s with
          | .ok (r, s') =>
              if ok turns pool s k i s' then
                schedule ks (k :: turns, Function.update pool k (next r), s')
              else none
          | .error _ => none
      | _ => none

theorem Interleaved.schedule {pool₀ pool : κ → Prog ι ρ ε α} {s₀ s : σ}
    {turns ks : List κ} {c : List κ × (κ → Prog ι ρ ε α) × σ}
    (h : Interleaved exec ok pool₀ s₀ turns pool s)
    (hrun : Prog.schedule exec ok ks (turns, pool, s) = some c) :
    Interleaved exec ok pool₀ s₀ c.1 c.2.1 c.2.2 := by
  induction ks generalizing turns pool s with
  | nil =>
      cases hrun
      exact h
  | cons k ks ih =>
      simp only [Prog.schedule] at hrun
      split at hrun
      · rename_i i next hk
        split at hrun
        · rename_i r s' hexec
          split at hrun
          · exact ih (.step h hk hexec ‹_›) hrun
          · contradiction
        · contradiction
      · contradiction

theorem exists_interleaved_of_schedule (pool₀ : κ → Prog ι ρ ε α) (s₀ : σ)
    (ks : List κ) (result : κ → α)
    (h : ∃ c ∈ Prog.schedule exec ok ks ([], pool₀, s₀),
      ∀ k, (c.2.1 k).result? = some (result k)) :
    ∃ turns pool s, Interleaved exec ok pool₀ s₀ turns pool s ∧
      ∀ k, pool k = .done (result k) := by
  obtain ⟨c, hc, hresult⟩ := h
  exact ⟨c.1, c.2.1, c.2.2, Interleaved.start.schedule _ _ hc,
    fun k => eq_done_of_result? (hresult k)⟩

end Schedule

end Prog

end Memstashed.Foundation
