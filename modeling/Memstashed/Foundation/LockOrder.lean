import Memstashed.Foundation.Mutex

/-!
# Mutexes taken in order

Every mutex has a rank, and a thread takes a mutex only while all those it owns
are of lower rank.  An access may leak what the thread owns: it then never
releases it.  Threads that are stuck have a leaked mutex to blame.
-/

namespace Memstashed.Foundation

/-- The mutexes a thread has taken and is going to release, the last one first,
and those it has leaked. -/
structure Ledger (μ : Type) where
  owned : List μ
  leaked : List μ

namespace Ledger

variable {μ ι : Type} {ρ : ι → Type}

def empty : Ledger μ := ⟨[], []⟩

def Allows (rank : μ → Nat) (leaks : (j : ι) → ρ j → List μ) (g : Ledger μ) :
    Guarded μ ι → Prop
  | .lock m => ∀ m' ∈ g.owned, rank m' < rank m
  | .unlock m => ∃ rest, g.owned = m :: rest
  | .access j => ∀ r, leaks j r = [] ∨ leaks j r = g.owned

def learn (leaks : (j : ι) → ρ j → List μ) (g : Ledger μ) :
    (c : Guarded μ ι) → c.Answer ρ → Ledger μ
  | .lock m, _ => { g with owned := m :: g.owned }
  | .unlock _, _ => { g with owned := g.owned.tail }
  | .access j, r =>
      if (leaks j r).isEmpty then g else ⟨[], leaks j r ++ g.leaked⟩

def Home (g : Ledger μ) : Prop := g.owned = []

end Ledger

def Guarded.leaksOf {μ ι : Type} {ρ : ι → Type}
    (leaks : (j : ι) → ρ j → List μ) : (c : Guarded μ ι) → c.Answer ρ → List μ
  | .access j, r => leaks j r
  | _, _ => []

section Run

variable {μ ι κ σ ε α : Type} {ρ : ι → Type} {act : (j : ι) → σ → ρ j × σ}
  {leaks : (j : ι) → ρ j → List μ} {rank : μ → Nat}

/-- A program that takes its mutexes in order. -/
abbrev Orderly (rank : μ → Nat) (leaks : (j : ι) → ρ j → List μ) (g : Ledger μ)
    (p : Prog (Guarded μ ι) (Guarded.Answer ρ) ε α) : Prop :=
  Prog.Obeys (Ledger.Allows rank leaks) (Ledger.learn leaks)
    (fun g' _ => g'.Home) g p

structure Accounted (leaks : (j : ι) → ρ j → List μ)
    (history :
      List (Prog.Event (Guarded μ ι) (Guarded.Answer ρ) (Locked μ σ) κ))
    (g : κ → Ledger μ) (s : Locked μ σ) : Prop where
  held : ∀ m, s.held m = true ↔
    (∃ k, m ∈ (g k).owned) ∨ ∃ k, m ∈ (g k).leaked
  sole : ∀ j k m, m ∈ (g j).owned → m ∈ (g k).owned → j = k
  kept : ∀ j k m, m ∈ (g j).owned → m ∉ (g k).leaked
  once : ∀ k, (g k).owned.Nodup
  leaked : ∀ m, (∃ k, m ∈ (g k).leaked) ↔
    ∃ e ∈ history, m ∈ Guarded.leaksOf leaks e.call e.answer

variable [DecidableEq κ] {history :
    List (Prog.Event (Guarded μ ι) (Guarded.Answer ρ) (Locked μ σ) κ)}
  {g : κ → Ledger μ} {s : Locked μ σ} {k : κ}

theorem Accounted.lock [DecidableEq μ] (h : Accounted leaks history g s) {m : μ}
    (hfree : s.held m = false) :
    Accounted leaks (⟨k, .lock m, s, ()⟩ :: history)
      (Function.update g k { g k with owned := m :: (g k).owned })
      { s with held := Function.update s.held m true } := by
  have hnot : ¬ ((∃ k, m ∈ (g k).owned) ∨ ∃ k, m ∈ (g k).leaked) := by
    rw [← h.held m, hfree]
    simp
  simp only [not_or, not_exists] at hnot
  obtain ⟨hunowned, hunleaked⟩ := hnot
  have howned : ∀ j m', m' ∈ (Function.update g k
      { g k with owned := m :: (g k).owned } j).owned ↔
        m' ∈ (g j).owned ∨ (j = k ∧ m' = m) := by
    intro j m'
    by_cases hj : j = k
    · subst hj
      simp [or_comm]
    · simp [hj]
  have hleaked : ∀ j, (Function.update g k
      { g k with owned := m :: (g k).owned } j).leaked = (g j).leaked := by
    intro j
    by_cases hj : j = k
    · subst hj
      simp
    · simp [hj]
  constructor
  · intro m'
    simp only [howned, hleaked]
    by_cases hm : m' = m
    · subst hm
      simp
    · simp [hm, h.held m']
  · intro i j m' hi hj
    rw [howned] at hi hj
    grind [h.sole]
  · intro i j m' hi
    rw [hleaked]
    grind [h.kept]
  · intro j
    by_cases hj : j = k
    · subst hj
      simp [h.once j, hunowned j]
    · simp [hj, h.once j]
  · intro m'
    simp only [hleaked, h.leaked m']
    simp [Guarded.leaksOf]

theorem Accounted.unlock [DecidableEq μ] (h : Accounted leaks history g s)
    {m : μ} {rest : List μ} (howned : (g k).owned = m :: rest) :
    Accounted leaks (⟨k, .unlock m, s, ()⟩ :: history)
      (Function.update g k { g k with owned := rest })
      { s with held := Function.update s.held m false } := by
  have hmem : m ∈ (g k).owned := howned ▸ List.mem_cons_self
  have honce : m ∉ rest ∧ rest.Nodup := by
    have := h.once k
    rwa [howned, List.nodup_cons] at this
  have howned' : ∀ j m', m' ∈ (Function.update g k
      { g k with owned := rest } j).owned ↔ m' ∈ (g j).owned ∧ m' ≠ m := by
    intro j m'
    by_cases hj : j = k
    · subst hj
      rw [Function.update_self, howned, List.mem_cons]
      grind
    · rw [Function.update_of_ne hj]
      grind [h.sole]
  have hleaked : ∀ j, (Function.update g k
      { g k with owned := rest } j).leaked = (g j).leaked := by
    intro j
    by_cases hj : j = k
    · subst hj
      simp
    · simp [hj]
  constructor
  · intro m'
    simp only [howned', hleaked]
    by_cases hm : m' = m
    · subst hm
      have hkept := fun j => h.kept k j m' hmem
      simp [hkept]
    · simp [hm, h.held m']
  · intro i j m' hi hj
    rw [howned'] at hi hj
    exact h.sole i j m' hi.1 hj.1
  · intro i j m' hi
    rw [hleaked]
    rw [howned'] at hi
    exact h.kept i j m' hi.1
  · intro j
    by_cases hj : j = k
    · subst hj
      simp [honce.2]
    · simp [hj, h.once j]
  · intro m'
    simp only [hleaked, h.leaked m']
    simp [Guarded.leaksOf]

theorem Accounted.access (h : Accounted leaks history g s) {j : ι} {r : ρ j}
    (hleaks : leaks j r = [] ∨ leaks j r = (g k).owned) (t : σ) :
    Accounted leaks (⟨k, .access j, s, r⟩ :: history)
      (Function.update g k ((g k).learn leaks (.access j) r))
      { s with data := t } := by
  by_cases hempty : leaks j r = []
  · simp only [Ledger.learn, hempty, List.isEmpty_nil, if_true,
      Function.update_eq_self]
    refine ⟨h.held, h.sole, h.kept, h.once, fun m => ?_⟩
    rw [h.leaked m]
    simp [Guarded.leaksOf, hempty]
  · have hall := hleaks.resolve_left hempty
    simp only [Ledger.learn, List.isEmpty_iff, if_neg hempty]
    have howned : ∀ i m, m ∈ (Function.update g k
        ⟨[], leaks j r ++ (g k).leaked⟩ i).owned ↔
          m ∈ (g i).owned ∧ i ≠ k := by
      intro i m
      by_cases hi : i = k
      · subst hi
        simp
      · simp [hi]
    have hleaked : ∀ i m, m ∈ (Function.update g k
        ⟨[], leaks j r ++ (g k).leaked⟩ i).leaked ↔
          m ∈ (g i).leaked ∨ (i = k ∧ m ∈ (g k).owned) := by
      intro i m
      by_cases hi : i = k
      · subst hi
        simp [hall, or_comm]
      · simp [hi]
    constructor
    · intro m
      simp only [howned, hleaked, h.held m]
      grind
    · intro i i' m hi hi'
      rw [howned] at hi hi'
      exact h.sole i i' m hi.1 hi'.1
    · intro i i' m hi
      rw [howned] at hi
      rw [hleaked]
      rintro (hmem | ⟨-, hmem⟩)
      · exact h.kept i i' m hi.1 hmem
      · exact hi.2 (h.sole i k m hi.1 hmem)
    · intro i
      by_cases hi : i = k
      · subst hi
        simp
      · simp [hi, h.once i]
    · intro m
      simp only [hleaked, exists_or, h.leaked m]
      simp [Guarded.leaksOf, hall, or_comm]

variable [DecidableEq μ] {waits : ε}
  {ok : Prog.Admits (Guarded μ ι) (Guarded.Answer ρ) ε α (Locked μ σ) κ}
  {pool₀ pool : κ → Prog (Guarded μ ι) (Guarded.Answer ρ) ε α}
  {s₀ : Locked μ σ}

theorem Orderly.accounted
    (hpool : ∀ k, Orderly rank leaks Ledger.empty (pool₀ k))
    (hfree : ∀ m, s₀.held m = false)
    (h : Prog.Concurrent (Guarded.exec act waits) ok pool₀ s₀ history pool s) :
    ∃ g, Accounted leaks history g s ∧
      ∀ k, Orderly rank leaks (g k) (pool k) := by
  refine h.invariant (Accounted leaks) hpool ?_ ?_
  · exact ⟨by simp [hfree, Ledger.empty], by simp [Ledger.empty],
      by simp [Ledger.empty], by simp [Ledger.empty], by simp [Ledger.empty]⟩
  · intro history g pool s k c r s' hinv _ hallows _ hexec
    cases c with
    | lock m =>
        dsimp only [Guarded.exec] at hexec
        split at hexec
        · contradiction
        · have hfree : s.held m = false := Bool.eq_false_iff.mpr ‹_›
          cases hexec
          exact hinv.lock hfree
    | unlock m =>
        obtain ⟨rest, howned⟩ := hallows
        cases hexec
        have htail : (g k).owned.tail = rest := by rw [howned, List.tail_cons]
        rw [Ledger.learn, htail]
        exact hinv.unlock howned
    | access j =>
        cases hexec
        exact hinv.access (hallows _) _

omit [DecidableEq κ] in
/-- Whoever waits for a mutex that is owned has the owner waiting as well, for a
mutex of higher rank. -/
theorem Orderly.waits_leaked {n : Nat} (hbound : ∀ m, rank m ≤ n)
    {g : κ → Ledger μ} (hg : Accounted leaks history g s)
    (hpool : ∀ k, Orderly rank leaks (g k) (pool k))
    (hstuck : ∀ k c next, pool k = .call c next →
      ∃ e, c.exec act waits s = .error e)
    {m : μ} {next : Unit → Prog (Guarded μ ι) (Guarded.Answer ρ) ε α}
    (hk : pool k = .call (.lock m) next) :
    ∃ j m' next, pool j = .call (.lock m') next ∧ ∃ i, m' ∈ (g i).leaked := by
  have hle := hbound m
  obtain ⟨d, hd⟩ : ∃ d, n = rank m + d := ⟨n - rank m, by omega⟩
  induction d using Nat.strong_induction_on generalizing k m next with
  | _ d ih =>
      have hheld : s.held m = true := by
        obtain ⟨e, he⟩ := hstuck k _ _ hk
        by_contra hfree
        simp [Guarded.exec, hfree] at he
      rcases (hg.held m).mp hheld with ⟨j, hj⟩ | hleaked
      · have hobeys := hpool j
        cases hp : pool j with
        | done a =>
            rw [hp] at hobeys
            cases hobeys with
            | done hhome =>
                have hnil : (g j).owned = [] := hhome
                simp [hnil] at hj
        | fail e =>
            rw [hp] at hobeys
            cases hobeys with
            | fail hhome =>
                have hnil : (g j).owned = [] := hhome
                simp [hnil] at hj
        | call c next' =>
            obtain ⟨e, he⟩ := hstuck j c next' hp
            cases c with
            | lock m' =>
                rw [hp] at hobeys
                cases hobeys with
                | call hallows _ =>
                    have hlt := hallows m hj
                    have hle' := hbound m'
                    exact ih (n - rank m') (by omega) hp hle' (by omega)
            | unlock m' => contradiction
            | access j' => contradiction
      · exact ⟨k, m, next, hk, hleaked⟩

theorem Orderly.stuck {n : Nat} (hbound : ∀ m, rank m ≤ n)
    (hpool : ∀ k, Orderly rank leaks Ledger.empty (pool₀ k))
    (hfree : ∀ m, s₀.held m = false)
    (h : Prog.Concurrent (Guarded.exec act waits) ok pool₀ s₀ history pool s)
    (hstuck : ∀ k c next, pool k = .call c next →
      ∃ e, c.exec act waits s = .error e)
    {k : κ} {c : Guarded μ ι}
    {next : c.Answer ρ → Prog (Guarded μ ι) (Guarded.Answer ρ) ε α}
    (hk : pool k = .call c next) :
    ∃ j m next, pool j = .call (.lock m) next ∧
      ∃ e ∈ history, m ∈ Guarded.leaksOf leaks e.call e.answer := by
  obtain ⟨g, hg, horderly⟩ := Orderly.accounted hpool hfree h
  cases c with
  | lock m =>
      obtain ⟨j, m', next', hj, hleaked⟩ :=
        Orderly.waits_leaked hbound hg horderly hstuck hk
      exact ⟨j, m', next', hj, (hg.leaked m').mp hleaked⟩
  | unlock m =>
      obtain ⟨e, he⟩ := hstuck k _ _ hk
      contradiction
  | access j =>
      obtain ⟨e, he⟩ := hstuck k _ _ hk
      contradiction

theorem Orderly.held_of_leaked
    (hpool : ∀ k, Orderly rank leaks Ledger.empty (pool₀ k))
    (hfree : ∀ m, s₀.held m = false)
    (h : Prog.Concurrent (Guarded.exec act waits) ok pool₀ s₀ history pool s)
    {m : μ} {e : Prog.Event (Guarded μ ι) (Guarded.Answer ρ) (Locked μ σ) κ}
    (he : e ∈ history) (hm : m ∈ Guarded.leaksOf leaks e.call e.answer) :
    s.held m = true := by
  obtain ⟨g, hg, -⟩ := Orderly.accounted hpool hfree h
  exact (hg.held m).mpr (.inr ((hg.leaked m).mpr ⟨e, he, hm⟩))

/-! ## Threads that are shut out -/

inductive Needs (m : μ) (free : α → Prop) :
    Prog (Guarded μ ι) (Guarded.Answer ρ) ε α → Prop
  | done {a : α} : free a → Needs m free (.done a)
  | fail (e : ε) : Needs m free (.fail e)
  | lock {next : Unit → Prog (Guarded μ ι) (Guarded.Answer ρ) ε α} :
      Needs m free (.call (.lock m) next)
  | call {c : Guarded μ ι}
      {next : c.Answer ρ → Prog (Guarded μ ι) (Guarded.Answer ρ) ε α} :
      (∀ r, Needs m free (next r)) → Needs m free (.call c next)

omit [DecidableEq μ] in
theorem Needs.bind {β : Type} {m : μ} {free : α → Prop}
    (p : Prog (Guarded μ ι) (Guarded.Answer ρ) ε β)
    {f : β → Prog (Guarded μ ι) (Guarded.Answer ρ) ε α}
    (hf : ∀ b, Needs m free (f b)) : Needs m free (p >>= f) := by
  induction p with
  | done b => exact hf b
  | fail e => exact .fail e
  | call c next ih => exact .call ih

theorem Needs.turn {m : μ} {free : α → Prop} {c : Guarded μ ι}
    {r : c.Answer ρ} {s' : Locked μ σ}
    {next : c.Answer ρ → Prog (Guarded μ ι) (Guarded.Answer ρ) ε α}
    (h : Needs m free (.call c next)) (hheld : s.held m = true)
    (hexec : c.exec act waits s = .ok (r, s')) : Needs m free (next r) := by
  cases h with
  | lock => simp [Guarded.exec, hheld] at hexec
  | call hnext => exact hnext r

theorem Orderly.shutOut
    (hpool : ∀ k, Orderly rank leaks Ledger.empty (pool₀ k))
    (hfree : ∀ m, s₀.held m = false) {m : μ} {free : α → Prop}
    {later earlier :
      List (Prog.Event (Guarded μ ι) (Guarded.Answer ρ) (Locked μ σ) κ)}
    {e : Prog.Event (Guarded μ ι) (Guarded.Answer ρ) (Locked μ σ) κ}
    (hm : m ∈ Guarded.leaksOf leaks e.call e.answer)
    (hneeds : Needs m free (pool₀ k))
    (hbegun : k ∉ (e :: earlier).map Prog.Event.client)
    (h : Prog.Concurrent (Guarded.exec act waits) ok pool₀ s₀
      (later ++ e :: earlier) pool s) : Needs m free (pool k) := by
  induction later generalizing pool s with
  | nil => exact h.idle hbegun ▸ hneeds
  | cons e' later ih =>
      cases h with
      | @step _ pool s s' j c next r hpast hj _ hexec =>
          have hpool' := ih hpast
          by_cases hjk : k = j
          · subst hjk
            rw [Function.update_self]
            rw [hj] at hpool'
            exact hpool'.turn
              (Orderly.held_of_leaked hpool hfree hpast (by simp) hm) hexec
          · rw [Function.update_of_ne hjk]
            exact hpool'

end Run

end Memstashed.Foundation
