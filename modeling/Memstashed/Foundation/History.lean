import Memstashed.Foundation.Interleave

/-!
# Programs that run at the same time

Any number of clients run a program each, one call at a time and in any order.
What a client has been answered so far is summed up in a state of its own, which
says what it can call next; an invariant over these states and the shared one is
kept by every turn.
-/

namespace Memstashed.Foundation

namespace Prog

variable {ι : Type} {ρ : ι → Type} {ε α β σ κ γ : Type}

structure Event (ι : Type) (ρ : ι → Type) (σ κ : Type) where
  client : κ
  call : ι
  before : σ
  answer : ρ call

abbrev Admits (ι : Type) (ρ : ι → Type) (ε α σ κ : Type) :=
  (κ → Prog ι ρ ε α) → σ → κ → ι → Prop

/-- The turns taken (the last one first), what is left of the programs, and the
state. -/
inductive Concurrent [DecidableEq κ] (exec : (i : ι) → Effect σ ε (ρ i))
    (ok : Admits ι ρ ε α σ κ) (pool₀ : κ → Prog ι ρ ε α) (s₀ : σ) :
    List (Event ι ρ σ κ) → (κ → Prog ι ρ ε α) → σ → Prop
  | start : Concurrent exec ok pool₀ s₀ [] pool₀ s₀
  | step {history : List (Event ι ρ σ κ)} {pool : κ → Prog ι ρ ε α} {s s' : σ}
      {k : κ} {i : ι} {next : ρ i → Prog ι ρ ε α} {r : ρ i} :
      Concurrent exec ok pool₀ s₀ history pool s → pool k = call i next →
      ok pool s k i → exec i s = .ok (r, s') →
      Concurrent exec ok pool₀ s₀ (⟨k, i, s, r⟩ :: history)
        (Function.update pool k (next r)) s'

/-- With what it has learnt from its answers, a program makes only calls that
`pre` allows, and stops only where `post` allows it. -/
inductive Obeys (pre : γ → ι → Prop) (learn : γ → (i : ι) → ρ i → γ)
    (post : γ → Option α → Prop) : γ → Prog ι ρ ε α → Prop
  | done {g : γ} {a : α} : post g (some a) → Obeys pre learn post g (.done a)
  | fail {g : γ} {e : ε} : post g none → Obeys pre learn post g (.fail e)
  | call {g : γ} {i : ι} {next : ρ i → Prog ι ρ ε α} :
      pre g i → (∀ r, Obeys pre learn post (learn g i r) (next r)) →
      Obeys pre learn post g (.call i next)

section Obeys

variable {pre : γ → ι → Prop} {learn : γ → (i : ι) → ρ i → γ} {g : γ}

theorem Obeys.bind {mid : γ → Option β → Prop} {post : γ → Option α → Prop}
    {p : Prog ι ρ ε β} {f : β → Prog ι ρ ε α} (h : Obeys pre learn mid g p)
    (hfail : ∀ g, mid g none → post g none)
    (hf : ∀ g b, mid g (some b) → Obeys pre learn post g (f b)) :
    Obeys pre learn post g (p >>= f) := by
  induction h with
  | done hmid => exact hf _ _ hmid
  | fail hmid => exact .fail (hfail _ hmid)
  | call hpre _ ih => exact .call hpre ih

theorem Obeys.mono {post post' : γ → Option α → Prop} {p : Prog ι ρ ε α}
    (h : Obeys pre learn post g p) (hpost : ∀ g a, post g a → post' g a) :
    Obeys pre learn post' g p := by
  induction h with
  | done ha => exact .done (hpost _ _ ha)
  | fail hnone => exact .fail (hpost _ _ hnone)
  | call hpre _ ih => exact .call hpre ih

theorem Calls.obeys {P : ι → Prop} {p : Prog ι ρ ε β} (h : Calls P p)
    (hpre : ∀ i, P i → pre g i) (hlearn : ∀ i, P i → ∀ r, learn g i r = g) :
    Obeys pre learn (fun g' _ => g' = g) g p := by
  induction h with
  | done b => exact .done rfl
  | fail e => exact .fail rfl
  | @call i next hi _ ih =>
      refine .call (hpre i hi) fun r => ?_
      rw [hlearn i hi r]
      exact ih r

end Obeys

/-! ## Calls that are programs themselves -/

section Refine

variable {ι' : Type} {ρ' : ι' → Type}

def refine (impl : (i : ι) → Prog ι' ρ' ε (ρ i)) :
    Prog ι ρ ε α → Prog ι' ρ' ε α
  | done a => done a
  | fail e => fail e
  | call i next => impl i >>= fun r => (next r).refine impl

theorem Calls.refine_obeys {P : ι → Prop} {home : γ → Prop}
    {pre : γ → ι' → Prop} {learn : γ → (i : ι') → ρ' i → γ}
    {impl : (i : ι) → Prog ι' ρ' ε (ρ i)} {p : Prog ι ρ ε α} (h : Calls P p)
    (himpl : ∀ i, P i → ∀ g, home g →
      Obeys pre learn (fun g' _ => home g') g (impl i)) {g : γ}
    (hg : home g) :
    Obeys pre learn (fun g' _ => home g') g (p.refine impl) := by
  induction h generalizing g with
  | done a => exact .done hg
  | fail e => exact .fail hg
  | call hi _ ih =>
      exact (himpl _ hi g hg).bind (fun _ hhome => hhome) fun g' r hhome =>
        ih r hhome

theorem refine_bind {impl : (i : ι) → Prog ι' ρ' ε (ρ i)} (p : Prog ι ρ ε β)
    (f : β → Prog ι ρ ε α) :
    (p >>= f).refine impl = p.refine impl >>= fun b => (f b).refine impl := by
  induction p with
  | done b => rfl
  | fail e => rfl
  | call i next ih =>
      rw [call_bind, refine, refine, bind_assoc]
      exact congrArg _ (funext ih)

end Refine

section Concurrent

variable [DecidableEq κ] {exec : (i : ι) → Effect σ ε (ρ i)}
  {ok : Admits ι ρ ε α σ κ} {pool₀ pool : κ → Prog ι ρ ε α} {s₀ s : σ}
  {history : List (Event ι ρ σ κ)}

/-- An invariant of the clients' states and the shared one, kept by every call
that a client can make, holds in every run. -/
theorem Concurrent.invariant {pre : γ → ι → Prop}
    {learn : γ → (i : ι) → ρ i → γ} {post : γ → Option α → Prop} {g₀ : κ → γ}
    (inv : List (Event ι ρ σ κ) → (κ → γ) → σ → Prop)
    (hobeys : ∀ k, Obeys pre learn post (g₀ k) (pool₀ k))
    (hstart : inv [] g₀ s₀)
    (hstep : ∀ history g pool s k i r s', inv history g s →
      (∀ j, Obeys pre learn post (g j) (pool j)) → pre (g k) i →
      ok pool s k i → exec i s = .ok (r, s') →
      inv (⟨k, i, s, r⟩ :: history)
        (Function.update g k (learn (g k) i r)) s')
    (h : Concurrent exec ok pool₀ s₀ history pool s) :
    ∃ g, inv history g s ∧ ∀ k, Obeys pre learn post (g k) (pool k) := by
  induction h with
  | start => exact ⟨g₀, hstart, hobeys⟩
  | @step history pool s s' k i next r _ hk hok hexec ih =>
      obtain ⟨g, hinv, hpool⟩ := ih
      have hcall := hpool k
      rw [hk] at hcall
      cases hcall with
      | call hpre hnext =>
          refine ⟨_, hstep _ _ _ _ _ _ _ _ hinv hpool hpre hok hexec,
            fun j => ?_⟩
          by_cases hj : j = k
          · subst hj
            rw [Function.update_self, Function.update_self]
            exact hnext r
          · rw [Function.update_of_ne hj, Function.update_of_ne hj]
            exact hpool j

theorem Concurrent.upTo {later past : List (Event ι ρ σ κ)}
    {e : Event ι ρ σ κ}
    (h : Concurrent exec ok pool₀ s₀ (later ++ e :: past) pool s) :
    ∃ pool' next s', Concurrent exec ok pool₀ s₀ past pool' e.before ∧
      pool' e.client = call e.call next ∧
      exec e.call e.before = .ok (e.answer, s') := by
  induction later generalizing pool s with
  | nil =>
      cases h with
      | step hpast hk _ hexec => exact ⟨_, _, _, hpast, hk, hexec⟩
  | cons first later ih =>
      cases h with
      | step hpast => exact ih hpast

theorem Concurrent.idle {k : κ}
    (h : Concurrent exec ok pool₀ s₀ history pool s)
    (hk : k ∉ history.map Event.client) : pool k = pool₀ k := by
  induction h with
  | start => rfl
  | step _ _ _ _ ih =>
      simp only [List.map_cons, List.mem_cons, not_or] at hk
      rw [Function.update_of_ne hk.1]
      exact ih hk.2

end Concurrent

def isStuck (exec : (i : ι) → Effect σ ε (ρ i)) (s : σ) :
    Prog ι ρ ε α → Bool
  | call i _ =>
      match exec i s with
      | .ok _ => false
      | .error _ => true
  | _ => true

def isCall : Prog ι ρ ε α → Bool
  | call _ _ => true
  | _ => false

theorem isCall_iff {p : Prog ι ρ ε α} :
    p.isCall = true ↔ ∃ i next, p = call i next := by
  cases p <;> simp [isCall]

theorem error_of_isStuck {exec : (i : ι) → Effect σ ε (ρ i)} {s : σ}
    {p : Prog ι ρ ε α} {i : ι} {next : ρ i → Prog ι ρ ε α}
    (h : p.isStuck exec s = true) (hp : p = call i next) :
    ∃ e, exec i s = .error e := by
  subst hp
  cases hexec : exec i s with
  | ok result => simp [isStuck, hexec] at h
  | error e => exact ⟨e, rfl⟩

/-! ## Runs on a schedule -/

section Schedule

variable [DecidableEq κ] (exec : (i : ι) → Effect σ ε (ρ i))
  (ok : Admits ι ρ ε α σ κ) [∀ pool s k i, Decidable (ok pool s k i)]

def takeTurns : List κ →
    List (Event ι ρ σ κ) × (κ → Prog ι ρ ε α) × σ →
    Option (List (Event ι ρ σ κ) × (κ → Prog ι ρ ε α) × σ)
  | [], c => some c
  | k :: ks, (history, pool, s) =>
      match pool k with
      | .call i next =>
          if ok pool s k i then
            match exec i s with
            | .ok (r, s') =>
                takeTurns ks
                  (⟨k, i, s, r⟩ :: history, Function.update pool k (next r), s')
            | .error _ => none
          else none
      | _ => none

theorem Concurrent.takeTurns {pool₀ pool : κ → Prog ι ρ ε α} {s₀ s : σ}
    {history : List (Event ι ρ σ κ)} {ks : List κ}
    {c : List (Event ι ρ σ κ) × (κ → Prog ι ρ ε α) × σ}
    (h : Concurrent exec ok pool₀ s₀ history pool s)
    (hrun : Prog.takeTurns exec ok ks (history, pool, s) = some c) :
    Concurrent exec ok pool₀ s₀ c.1 c.2.1 c.2.2 := by
  induction ks generalizing history pool s with
  | nil =>
      cases hrun
      exact h
  | cons k ks ih =>
      simp only [Prog.takeTurns] at hrun
      split at hrun
      · rename_i i next hk
        split at hrun
        · split at hrun
          · rename_i r s' hexec
            exact ih (.step h hk ‹_› hexec) hrun
          · contradiction
        · contradiction
      · contradiction

theorem exists_concurrent_of_turns (pool₀ : κ → Prog ι ρ ε α) (s₀ : σ)
    (ks : List κ)
    (observed : List (Event ι ρ σ κ) → (κ → Prog ι ρ ε α) → σ → Prop)
    (h : ∃ c ∈ Prog.takeTurns exec ok ks ([], pool₀, s₀),
      observed c.1 c.2.1 c.2.2) :
    ∃ history pool s, Concurrent exec ok pool₀ s₀ history pool s ∧
      observed history pool s := by
  obtain ⟨c, hc, hobserved⟩ := h
  exact ⟨c.1, c.2.1, c.2.2, Concurrent.start.takeTurns _ _ hc, hobserved⟩

end Schedule

end Prog

end Memstashed.Foundation
