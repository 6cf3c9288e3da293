import Mathlib.Logic.Basic

/-!
# Programs with state and faults, and their runs

A program either completes with a result and a new state, or stops in a fault:
an exception nobody catches, or a thread that waits for itself.  The lemmas
below evaluate a program at a state without unfolding the monad.
-/

namespace Memstashed.Foundation

abbrev Effect (σ ε α : Type) : Type := StateT σ (Except ε) α

namespace Effect

variable {σ ε α β : Type}

@[simp] theorem pure_apply (a : α) (s : σ) :
    (pure a : Effect σ ε α) s = .ok (a, s) := rfl

@[simp] theorem get_apply (s : σ) :
    (get : Effect σ ε σ) s = .ok (s, s) := rfl

@[simp] theorem modify_apply (f : σ → σ) (s : σ) :
    (modify f : Effect σ ε PUnit) s = .ok (⟨⟩, f s) := rfl

@[simp] theorem modifyGet_apply (f : σ → α × σ) (s : σ) :
    (modifyGet f : Effect σ ε α) s = .ok (f s) := rfl

@[simp] theorem throw_apply (e : ε) (s : σ) :
    (throw e : Effect σ ε α) s = .error e := rfl

theorem bind_apply (x : Effect σ ε α) (f : α → Effect σ ε β) (s : σ) :
    (x >>= f) s =
      match x s with
      | .ok (a, s') => f a s'
      | .error e => .error e := by
  change (x s >>= fun p => f p.1 p.2) = _
  cases x s <;> rfl

theorem bind_of_ok {x : Effect σ ε α} {f : α → Effect σ ε β} {s s' : σ} {a : α}
    (h : x s = .ok (a, s')) : (x >>= f) s = f a s' := by
  rw [bind_apply, h]

theorem bind_of_error {x : Effect σ ε α} {f : α → Effect σ ε β} {s : σ} {e : ε}
    (h : x s = .error e) : (x >>= f) s = .error e := by
  rw [bind_apply, h]

theorem bind_eq_ok {x : Effect σ ε α} {f : α → Effect σ ε β} {s : σ}
    {r : β × σ} :
    (x >>= f) s = .ok r ↔
      ∃ a s', x s = .ok (a, s') ∧ f a s' = .ok r := by
  rw [bind_apply]
  cases hx : x s with
  | error e => simp
  | ok as =>
      obtain ⟨a, s'⟩ := as
      constructor
      · intro h
        exact ⟨a, s', rfl, h⟩
      · rintro ⟨b, t, heq, h⟩
        cases heq
        exact h

def guarded (p : Prop) [Decidable p] (s : σ) : Except Unit (Unit × σ) :=
  if p then .ok ((), s) else .error ()

theorem guarded_eq_ok {p : Prop} [Decidable p] {s s' : σ} {u : Unit} :
    guarded p s = .ok (u, s') ↔ p ∧ s' = s := by
  unfold guarded
  split
  · simp [*, eq_comm]
  · simp [*]

end Effect

/-! ## Runs -/

section Runs

variable {σ ε ι α : Type}

/--
The states reached from `init` by finitely many completed steps, each of which
meets `ok` in the state it starts from.
-/
inductive Reached (step : ι → Effect σ ε α) (ok : σ → ι → Prop) (init : σ) :
    σ → Prop
  | start : Reached step ok init init
  | next {s s' : σ} {i : ι} {a : α} : Reached step ok init s → ok s i →
      step i s = .ok (a, s') → Reached step ok init s'

theorem Reached.invariant {step : ι → Effect σ ε α} {ok : σ → ι → Prop}
    {init : σ} {P : σ → Prop} (hinit : P init)
    (hstep : ∀ s i a s', P s → ok s i → step i s = .ok (a, s') → P s')
    {s : σ} (h : Reached step ok init s) : P s := by
  induction h with
  | start => exact hinit
  | next _ hok hrun ih => exact hstep _ _ _ _ ih hok hrun

def replay (step : ι → Effect σ ε α) (ok : σ → ι → Prop)
    [∀ s i, Decidable (ok s i)] : List ι → σ → Option σ
  | [], s => some s
  | i :: is, s =>
      if ok s i then
        match step i s with
        | .ok (_, s') => replay step ok is s'
        | .error _ => none
      else none

theorem Reached.replay {step : ι → Effect σ ε α} {ok : σ → ι → Prop}
    [∀ s i, Decidable (ok s i)] {init : σ} {is : List ι} {s s' : σ}
    (h : Reached step ok init s)
    (hreplay : Foundation.replay step ok is s = some s') :
    Reached step ok init s' := by
  induction is generalizing s with
  | nil =>
      obtain rfl := Option.some.inj hreplay
      exact h
  | cons i is ih =>
      simp only [Foundation.replay] at hreplay
      split at hreplay
      · split at hreplay
        · exact ih (.next h ‹_› ‹_›) hreplay
        · contradiction
      · contradiction

theorem Reached.exists_of_replay {β : Type} {step : ι → Effect σ ε α}
    {ok : σ → ι → Prop} [∀ s i, Decidable (ok s i)] {init s : σ}
    (hreached : Reached step ok init s) (is : List ι) (observe : σ → β) (b : β)
    (h : (Foundation.replay step ok is s).map observe = some b) :
    ∃ s', Reached step ok init s' ∧ observe s' = b := by
  obtain ⟨s', hreplay, hobserve⟩ := Option.map_eq_some_iff.mp h
  exact ⟨s', hreached.replay hreplay, hobserve⟩

theorem exists_reached_of_replay {β : Type} (step : ι → Effect σ ε α)
    (ok : σ → ι → Prop) [∀ s i, Decidable (ok s i)] (init : σ) (is : List ι)
    (observe : σ → β) (b : β)
    (h : (replay step ok is init).map observe = some b) :
    ∃ s, Reached step ok init s ∧ observe s = b :=
  Reached.start.exists_of_replay is observe b h

end Runs

end Memstashed.Foundation
