import Mathlib.Logic.Basic

/-!
# Loops that leave with a result

The body of a loop either goes on with a new state or leaves the loop.  `Ends`
says with what the loop is left in the end; `loopFor` runs it for a number of
rounds, and `observe` also collects what is seen of each round.
-/

namespace Memstashed.Foundation

variable {σ ρ : Type}

inductive Ends (body : σ → Except ρ σ) : σ → ρ → Prop
  | leave {s : σ} {r : ρ} : body s = .error r → Ends body s r
  | again {s s' : σ} {r : ρ} :
      body s = .ok s' → Ends body s' r → Ends body s r

def EndsAfter (body : σ → Except ρ σ) : Except ρ σ → ρ → Prop
  | .error left, r => left = r
  | .ok s, r => Ends body s r

def loopFor (body : σ → Except ρ σ) : Nat → σ → Option ρ
  | 0, _ => none
  | fuel + 1, s =>
      match body s with
      | .error r => some r
      | .ok s' => loopFor body fuel s'

def observe {ε : Type} (body : σ → Except ρ σ) (seen : σ → List ε) :
    Nat → σ → List ε × Except ρ σ
  | 0, s => ([], .ok s)
  | rounds + 1, s =>
      match body s with
      | .error r => (seen s, .error r)
      | .ok s' =>
          let rest := observe body seen rounds s'
          (seen s ++ rest.1, rest.2)

def Passes {ε : Type} (body : σ → Except ρ σ) (seen : σ → List ε) (s : σ)
    (log : List ε) (result : Except ρ σ) : Prop :=
  ∃ rounds, observe body seen rounds s = (log, result)

variable {body : σ → Except ρ σ} {s : σ}

theorem Ends.unique {r r' : ρ} (h : Ends body s r) (h' : Ends body s r') :
    r = r' := by
  induction h with
  | leave hbody =>
      cases h' with
      | leave hbody' => exact Except.error.inj (hbody.symm.trans hbody')
      | again hbody' _ => simp [hbody] at hbody'
  | again hbody _ ih =>
      cases h' with
      | leave hbody' => simp [hbody] at hbody'
      | again hbody' hrest =>
          rw [hbody] at hbody'
          cases hbody'
          exact ih hrest

theorem ends_of_loopFor {fuel : Nat} {r : ρ}
    (h : loopFor body fuel s = some r) : Ends body s r := by
  induction fuel generalizing s with
  | zero => contradiction
  | succ fuel ih =>
      unfold loopFor at h
      cases hbody : body s with
      | error left =>
          simp only [hbody, Option.some.injEq] at h
          exact .leave (h ▸ hbody)
      | ok s' =>
          rw [hbody] at h
          exact .again hbody (ih h)

theorem Ends.exists_loopFor {r : ρ} (h : Ends body s r) :
    ∃ fuel, loopFor body fuel s = some r := by
  induction h with
  | leave hbody => exact ⟨1, by simp [loopFor, hbody]⟩
  | again hbody _ ih =>
      obtain ⟨fuel, hfuel⟩ := ih
      exact ⟨fuel + 1, by simp [loopFor, hbody, hfuel]⟩

section Observed

variable {ε : Type} {seen : σ → List ε} {s' : σ} {log log' : List ε}
  {result : Except ρ σ}

theorem Passes.refl : Passes body seen s [] (.ok s) := ⟨0, rfl⟩

variable (body seen s) in
theorem Passes.round : Passes body seen s (seen s) (body s) := by
  refine ⟨1, ?_⟩
  unfold observe
  cases body s with
  | error r => rfl
  | ok s' => simp [observe]

theorem Passes.trans (h : Passes body seen s log (.ok s'))
    (h' : Passes body seen s' log' result) :
    Passes body seen s (log ++ log') result := by
  obtain ⟨n, hn⟩ := h
  induction n generalizing s log with
  | zero =>
      obtain ⟨rfl, hs⟩ := Prod.mk.inj hn
      cases hs
      exact h'
  | succ n ih =>
      unfold observe at hn
      cases hbody : body s with
      | error r => simp [hbody] at hn
      | ok next =>
          rw [hbody] at hn
          obtain ⟨rfl, hrest⟩ := Prod.mk.inj hn
          have hnext : observe body seen n next =
              ((observe body seen n next).1, .ok s') := Prod.ext rfl hrest
          obtain ⟨m, hm⟩ := ih hnext
          refine ⟨m + 1, ?_⟩
          simp only [observe, hbody, hm, List.append_assoc]

theorem Passes.ends (h : Passes body seen s log result) {r : ρ}
    (hresult : EndsAfter body result r) : Ends body s r := by
  obtain ⟨n, hn⟩ := h
  induction n generalizing s log with
  | zero =>
      cases hn
      exact hresult
  | succ n ih =>
      unfold observe at hn
      cases hbody : body s with
      | error left =>
          rw [hbody] at hn
          cases hn
          cases hresult
          exact .leave hbody
      | ok next =>
          rw [hbody] at hn
          exact .again hbody (ih (Prod.ext rfl (Prod.mk.inj hn).2))

theorem Passes.mem_of_left {r : ρ} (h : Passes body seen s log (.error r))
    {rounds : Nat} {e : ε} (he : e ∈ (observe body seen rounds s).1) :
    e ∈ log := by
  obtain ⟨n, hn⟩ := h
  induction n generalizing s log rounds with
  | zero => cases hn
  | succ n ih =>
      cases rounds with
      | zero => cases he
      | succ rounds =>
          unfold observe at hn he
          cases hbody : body s with
          | error left =>
              rw [hbody] at hn he
              cases hn
              exact he
          | ok next =>
              rw [hbody] at hn he
              obtain ⟨rfl, hrest⟩ := Prod.mk.inj hn
              rcases List.mem_append.mp he with he | he
              · exact List.mem_append_left _ he
              · exact List.mem_append_right _ (ih he (Prod.ext rfl hrest))

end Observed

end Memstashed.Foundation
