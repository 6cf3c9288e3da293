import Memstashed.Foundation.Effect

/-!
# Programs over a set of calls

A program is the tree of the calls it makes: after each call it goes on as the
answer tells it to, until it returns or fails.  The calls are given their
meaning by an interpretation in `Effect`; the same program can be run to its end
or one call at a time, in turn with others.
-/

namespace Memstashed.Foundation

inductive Prog (ι : Type) (ρ : ι → Type) (ε α : Type) where
  | done (a : α)
  | fail (e : ε)
  | call (i : ι) (next : ρ i → Prog ι ρ ε α)

namespace Prog

variable {ι : Type} {ρ : ι → Type} {ε α β σ : Type}

def bind : Prog ι ρ ε α → (α → Prog ι ρ ε β) → Prog ι ρ ε β
  | done a, f => f a
  | fail e, _ => fail e
  | call i next, f => call i fun r => (next r).bind f

instance : Monad (Prog ι ρ ε) where
  pure := done
  bind := bind

@[simp] theorem pure_eq (a : α) : (pure a : Prog ι ρ ε α) = done a := rfl

@[simp] theorem done_bind (a : α) (f : α → Prog ι ρ ε β) :
    (done a : Prog ι ρ ε α) >>= f = f a := rfl

@[simp] theorem fail_bind (e : ε) (f : α → Prog ι ρ ε β) :
    (fail e : Prog ι ρ ε α) >>= f = fail e := rfl

@[simp] theorem call_bind (i : ι) (next : ρ i → Prog ι ρ ε α)
    (f : α → Prog ι ρ ε β) :
    call i next >>= f = call i fun r => next r >>= f := rfl

theorem bind_assoc {γ : Type} (p : Prog ι ρ ε α) (f : α → Prog ι ρ ε β)
    (g : β → Prog ι ρ ε γ) : p >>= f >>= g = p >>= fun a => f a >>= g := by
  induction p with
  | done a => rfl
  | fail e => rfl
  | call i next ih =>
      rw [call_bind, call_bind, call_bind]
      exact congrArg (call i) (funext ih)

def ofExcept : Except ε α → Prog ι ρ ε α
  | .ok a => done a
  | .error e => fail e

/-! ## Running to the end -/

def run (exec : (i : ι) → Effect σ ε (ρ i)) :
    Prog ι ρ ε α → Effect σ ε α
  | done a => pure a
  | fail e => throw e
  | call i next => exec i >>= fun r => (next r).run exec

variable (exec : (i : ι) → Effect σ ε (ρ i))

@[simp] theorem run_done (a : α) (s : σ) :
    (done a : Prog ι ρ ε α).run exec s = .ok (a, s) := rfl

@[simp] theorem run_fail (e : ε) (s : σ) :
    (fail e : Prog ι ρ ε α).run exec s = .error e := rfl

theorem run_call (i : ι) (next : ρ i → Prog ι ρ ε α) (s : σ) :
    (call i next).run exec s =
      match exec i s with
      | .ok (r, s') => (next r).run exec s'
      | .error e => .error e := by
  rw [run, Effect.bind_apply]
  cases exec i s with
  | ok result => rfl
  | error e => rfl

theorem run_bind (p : Prog ι ρ ε α) (f : α → Prog ι ρ ε β) :
    (p >>= f).run exec = p.run exec >>= fun a => (f a).run exec := by
  funext s
  induction p generalizing s with
  | done a => rfl
  | fail e => rfl
  | call i next ih =>
      rw [call_bind, run_call, Effect.bind_apply, run_call]
      cases exec i s with
      | error e => rfl
      | ok result =>
          simp only [ih, Effect.bind_apply]

inductive Safe : Prog ι ρ ε α → Prop
  | done (a : α) : Safe (.done a)
  | call {i : ι} {next : ρ i → Prog ι ρ ε α} :
      (∀ r, Safe (next r)) → Safe (.call i next)

theorem Safe.bind {p : Prog ι ρ ε α} (hsafe : Safe p) {f : α → Prog ι ρ ε β}
    (hf : ∀ a, Safe (f a)) : Safe (p >>= f) := by
  induction hsafe with
  | done a => exact hf a
  | call _ ih => exact .call ih

theorem Safe.run_error (inv : σ → Prop) (bad : ε → Prop)
    (hok : ∀ i s r s', inv s → exec i s = .ok (r, s') → inv s')
    (herror : ∀ i s e, inv s → exec i s = .error e → ¬ bad e)
    {p : Prog ι ρ ε α} (hsafe : Safe p) {s : σ} (hs : inv s) {e : ε}
    (hrun : p.run exec s = .error e) : ¬ bad e := by
  induction hsafe generalizing s with
  | done a => contradiction
  | @call i next _ ih =>
      rw [run_call] at hrun
      cases hexec : exec i s with
      | error e' =>
          rw [hexec] at hrun
          cases hrun
          exact herror i s e hs hexec
      | ok result =>
          rw [hexec] at hrun
          exact ih result.1 (hok i s result.1 result.2 hs hexec) hrun

/-- The calls a program makes on the way to a result, with their answers. -/
inductive Path : Prog ι ρ ε α → List (Sigma ρ) → α → Prop
  | done (a : α) : Path (.done a) [] a
  | call {i : ι} {next : ρ i → Prog ι ρ ε α} {r : ρ i} {es : List (Sigma ρ)}
      {a : α} : Path (next r) es a → Path (.call i next) (⟨i, r⟩ :: es) a

theorem Path.of_bind {p : Prog ι ρ ε α} {f : α → Prog ι ρ ε β}
    {es : List (Sigma ρ)} {b : β} (h : Path (p >>= f) es b) :
    ∃ es₁ es₂ a, es = es₁ ++ es₂ ∧ Path p es₁ a ∧ Path (f a) es₂ b := by
  induction p generalizing es with
  | done a => exact ⟨[], es, a, rfl, .done a, h⟩
  | fail e => contradiction
  | call i next ih =>
      cases h with
      | @call _ _ r es' _ hnext =>
          obtain ⟨es₁, es₂, a, rfl, hp, hf⟩ := ih r hnext
          exact ⟨⟨i, r⟩ :: es₁, es₂, a, rfl, .call hp, hf⟩

/-- A list of calls with their answers, carried out one after another. -/
inductive Performs : List (Sigma ρ) → σ → σ → Prop
  | nil (s : σ) : Performs [] s s
  | cons {i : ι} {r : ρ i} {es : List (Sigma ρ)} {s s' s'' : σ} :
      exec i s = .ok (r, s') → Performs es s' s'' →
      Performs (⟨i, r⟩ :: es) s s''

theorem run_ok {p : Prog ι ρ ε α} {s t : σ} {a : α}
    (h : p.run exec s = .ok (a, t)) :
    ∃ es, Path p es a ∧ Performs exec es s t := by
  induction p generalizing s with
  | done b =>
      cases h
      exact ⟨[], .done a, .nil t⟩
  | fail e => contradiction
  | call i next ih =>
      rw [run_call] at h
      cases hexec : exec i s with
      | error e =>
          rw [hexec] at h
          contradiction
      | ok result =>
          obtain ⟨r, s'⟩ := result
          rw [hexec] at h
          obtain ⟨es, hpath, hperforms⟩ := ih r h
          exact ⟨⟨i, r⟩ :: es, .call hpath, .cons hexec hperforms⟩

inductive Calls (P : ι → Prop) : Prog ι ρ ε α → Prop
  | done (a : α) : Calls P (.done a)
  | fail (e : ε) : Calls P (.fail e)
  | call {i : ι} {next : ρ i → Prog ι ρ ε α} :
      P i → (∀ r, Calls P (next r)) → Calls P (.call i next)

theorem Calls.bind {P : ι → Prop} {p : Prog ι ρ ε α} (h : Calls P p)
    {f : α → Prog ι ρ ε β} (hf : ∀ a, Calls P (f a)) :
    Calls P (p >>= f) := by
  induction h with
  | done a => exact hf a
  | fail e => exact .fail e
  | call hi _ ih => exact .call hi ih

theorem Calls.mono {P Q : ι → Prop} {p : Prog ι ρ ε α} (h : Calls P p)
    (hPQ : ∀ i, P i → Q i) : Calls Q p := by
  induction h with
  | done a => exact .done a
  | fail e => exact .fail e
  | call hi _ ih => exact .call (hPQ _ hi) ih

theorem Calls.path {P : ι → Prop} {p : Prog ι ρ ε α} {es : List (Sigma ρ)}
    {a : α} (h : Calls P p) (hpath : Path p es a) : ∀ e ∈ es, P e.1 := by
  induction hpath with
  | done a => simp
  | call _ ih =>
      cases h with
      | call hi hnext =>
          rintro e (_ | ⟨_, hmem⟩)
          · exact hi
          · exact ih (hnext _) e hmem

/-- Every call satisfies `P` as long as the answers before it satisfy `A`. -/
inductive Careful (A : (i : ι) → ρ i → Prop) (P : ι → Prop) :
    Prog ι ρ ε α → Prop
  | done (a : α) : Careful A P (.done a)
  | fail (e : ε) : Careful A P (.fail e)
  | call {i : ι} {next : ρ i → Prog ι ρ ε α} :
      P i → (∀ r, A i r → Careful A P (next r)) → Careful A P (.call i next)

theorem Calls.careful {A : (i : ι) → ρ i → Prop} {P : ι → Prop}
    {p : Prog ι ρ ε α} (h : Calls P p) : Careful A P p := by
  induction h with
  | done a => exact .done a
  | fail e => exact .fail e
  | call hi _ ih => exact .call hi fun r _ => ih r

theorem Careful.bind {A : (i : ι) → ρ i → Prop} {P : ι → Prop}
    {p : Prog ι ρ ε α} (h : Careful A P p) {f : α → Prog ι ρ ε β}
    (hf : ∀ a, Careful A P (f a)) : Careful A P (p >>= f) := by
  induction h with
  | done a => exact hf a
  | fail e => exact .fail e
  | call hi _ ih => exact .call hi ih

theorem Careful.run_invariant {A : (i : ι) → ρ i → Prop} {P : ι → Prop}
    {exec : (i : ι) → Effect σ ε (ρ i)} (inv : σ → Prop)
    (hstep : ∀ i s r s', inv s → P i → exec i s = .ok (r, s') →
      A i r ∧ inv s')
    {p : Prog ι ρ ε α} (hp : Careful A P p) {s s' : σ} {a : α} (hs : inv s)
    (hrun : p.run exec s = .ok (a, s')) : inv s' := by
  induction hp generalizing s with
  | done b =>
      cases hrun
      exact hs
  | fail e => contradiction
  | @call i next hi _ ih =>
      rw [run_call] at hrun
      cases hexec : exec i s with
      | error e =>
          rw [hexec] at hrun
          contradiction
      | ok result =>
          obtain ⟨r, t⟩ := result
          rw [hexec] at hrun
          obtain ⟨hanswer, ht⟩ := hstep i s r t hs hi hexec
          exact ih r hanswer ht hrun

inductive Yields (P : α → Prop) : Prog ι ρ ε α → Prop
  | done {a : α} : P a → Yields P (.done a)
  | fail (e : ε) : Yields P (.fail e)
  | call {i : ι} {next : ρ i → Prog ι ρ ε α} :
      (∀ r, Yields P (next r)) → Yields P (.call i next)

theorem Yields.bind {P : β → Prop} (p : Prog ι ρ ε α) {f : α → Prog ι ρ ε β}
    (hf : ∀ a, Yields P (f a)) : Yields P (p >>= f) := by
  induction p with
  | done a => exact hf a
  | fail e => exact .fail e
  | call i next ih => exact .call ih

theorem Yields.run {P : α → Prop} {p : Prog ι ρ ε α} (h : Yields P p)
    {s t : σ} {a : α} (hrun : p.run exec s = .ok (a, t)) : P a := by
  induction h generalizing s with
  | done ha =>
      cases hrun
      exact ha
  | fail e => contradiction
  | @call i next _ ih =>
      rw [run_call] at hrun
      cases hexec : exec i s with
      | error e => simp [hexec] at hrun
      | ok result =>
          rw [hexec] at hrun
          exact ih result.1 hrun

theorem performs_append {es fs : List (Sigma ρ)} {s t : σ} :
    Performs exec (es ++ fs) s t ↔
      ∃ u, Performs exec es s u ∧ Performs exec fs u t := by
  induction es generalizing s with
  | nil =>
      constructor
      · intro h
        exact ⟨s, .nil s, h⟩
      · rintro ⟨u, hu, h⟩
        cases hu
        exact h
  | cons e es ih =>
      constructor
      · intro h
        cases h with
        | cons hexec hrest =>
            obtain ⟨u, hes, hfs⟩ := ih.mp hrest
            exact ⟨u, .cons hexec hes, hfs⟩
      · rintro ⟨u, hes, hfs⟩
        cases hes with
        | cons hexec hrest => exact .cons hexec (ih.mpr ⟨u, hrest, hfs⟩)

/-! ## Conditions on the calls of a run -/

/-- Every call the program makes from `s` on satisfies `Q`, which sees the state
the call finds and how it ends. -/
def Along (Q : (i : ι) → σ → Except ε (ρ i × σ) → Prop) :
    Prog ι ρ ε α → σ → Prop
  | done _, _ => True
  | fail _, _ => True
  | call i next, s => Q i s (exec i s) ∧
      match exec i s with
      | .ok (r, s') => (next r).Along Q s'
      | .error _ => True

theorem along_call {Q : (i : ι) → σ → Except ε (ρ i × σ) → Prop} {i : ι}
    {next : ρ i → Prog ι ρ ε α} {s : σ} :
    (call i next).Along exec Q s ↔ Q i s (exec i s) ∧
      match exec i s with
      | .ok (r, s') => (next r).Along exec Q s'
      | .error _ => True := by
  rw [Along]

def decidableAlong {Q : (i : ι) → σ → Except ε (ρ i × σ) → Prop}
    [∀ i s r, Decidable (Q i s r)] :
    (p : Prog ι ρ ε α) → (s : σ) → Decidable (p.Along exec Q s)
  | done _, _ => .isTrue trivial
  | fail _, _ => .isTrue trivial
  | call i next, s =>
      let : Decidable (match exec i s with
          | .ok (r, s') => (next r).Along exec Q s'
          | .error _ => True) :=
        match exec i s with
        | .ok (r, s') => decidableAlong (next r) s'
        | .error _ => inferInstanceAs (Decidable True)
      decidable_of_iff' _ (along_call exec)

instance {Q : (i : ι) → σ → Except ε (ρ i × σ) → Prop}
    [∀ i s r, Decidable (Q i s r)] (p : Prog ι ρ ε α) (s : σ) :
    Decidable (p.Along exec Q s) :=
  decidableAlong exec p s

section Along

variable {exec} {Q Q' : (i : ι) → σ → Except ε (ρ i × σ) → Prop}

theorem Along.mono (inv : σ → Prop)
    (hkeep : ∀ i s r s', inv s → Q i s (exec i s) → exec i s = .ok (r, s') →
      inv s')
    (hmono : ∀ i s, inv s → Q i s (exec i s) → Q' i s (exec i s))
    {p : Prog ι ρ ε α} {s : σ} (hs : inv s) (h : p.Along exec Q s) :
    p.Along exec Q' s := by
  induction p generalizing s with
  | done a => trivial
  | fail e => trivial
  | call i next ih =>
      obtain ⟨hcall, hrest⟩ := (along_call exec).mp h
      refine (along_call exec).mpr ⟨hmono i s hs hcall, ?_⟩
      cases hexec : exec i s with
      | error e => trivial
      | ok result =>
          rw [hexec] at hrest
          exact ih result.1 (hkeep i s result.1 result.2 hs hcall hexec) hrest

theorem Along.run_invariant (inv : σ → Prop)
    (hkeep : ∀ i s r s', inv s → Q i s (exec i s) → exec i s = .ok (r, s') →
      inv s')
    {p : Prog ι ρ ε α} {s s' : σ} {a : α} (hs : inv s) (h : p.Along exec Q s)
    (hrun : p.run exec s = .ok (a, s')) : inv s' := by
  induction p generalizing s with
  | done b =>
      cases hrun
      exact hs
  | fail e => contradiction
  | call i next ih =>
      obtain ⟨hcall, hrest⟩ := (along_call exec).mp h
      rw [run_call] at hrun
      cases hexec : exec i s with
      | error e =>
          rw [hexec] at hrun
          contradiction
      | ok result =>
          rw [hexec] at hrun hrest
          exact ih result.1 (hkeep i s result.1 result.2 hs hcall hexec) hrest
            hrun

theorem Calls.along {P : ι → Prop} {p : Prog ι ρ ε α} (hp : Calls P p) {s : σ}
    (h : p.Along exec Q s) :
    p.Along exec (fun i s result => P i ∧ Q i s result) s := by
  induction hp generalizing s with
  | done a => trivial
  | fail e => trivial
  | @call i next hi _ ih =>
      obtain ⟨hcall, hrest⟩ := (along_call exec).mp h
      refine (along_call exec).mpr ⟨⟨hi, hcall⟩, ?_⟩
      cases hexec : exec i s with
      | error e => trivial
      | ok result =>
          rw [hexec] at hrest
          exact ih result.1 hrest

end Along

/-- Once the program has made a call that is not calm, all it can return is
good. -/
inductive Commits (calm : (i : ι) → ρ i → Prop) (good : α → Prop) :
    Prog ι ρ ε α → Prop
  | done (a : α) : Commits calm good (.done a)
  | fail (e : ε) : Commits calm good (.fail e)
  | call {i : ι} {next : ρ i → Prog ι ρ ε α} :
      (∀ r, calm i r → Commits calm good (next r)) →
      (∀ r, ¬ calm i r → Yields good (next r)) →
      Commits calm good (.call i next)

theorem Commits.run_invariant {calm : (i : ι) → ρ i → Prop} {good : α → Prop}
    {exec : (i : ι) → Effect σ ε (ρ i)}
    {Q : (i : ι) → σ → Except ε (ρ i × σ) → Prop} (inv : σ → Prop)
    (hkeep : ∀ i s r s', inv s → Q i s (exec i s) → exec i s = .ok (r, s') →
      calm i r → inv s')
    {p : Prog ι ρ ε α} (hp : Commits calm good p) {s s' : σ} {a : α}
    (hs : inv s) (h : p.Along exec Q s) (hrun : p.run exec s = .ok (a, s'))
    (hbad : ¬ good a) : inv s' := by
  induction hp generalizing s with
  | done b =>
      cases hrun
      exact hs
  | fail e => contradiction
  | @call i next _ hyields ih =>
      obtain ⟨hcall, hrest⟩ := (along_call exec).mp h
      rw [run_call] at hrun
      cases hexec : exec i s with
      | error e =>
          rw [hexec] at hrun
          contradiction
      | ok result =>
          obtain ⟨r, t⟩ := result
          rw [hexec] at hrun hrest
          by_cases hcalm : calm i r
          · exact ih r hcalm (hkeep i s r t hs hcall hexec hcalm) hrest hrun
          · exact absurd ((hyields r hcalm).run exec hrun) hbad

/-! ## Two programs side by side -/

inductive SameEnd (R : α → β → Prop) :
    Except ε (α × σ) → Except ε (β × σ) → Prop
  | ok {a : α} {b : β} (s : σ) : R a b → SameEnd R (.ok (a, s)) (.ok (b, s))
  | error (e : ε) : SameEnd R (.error e) (.error e)

/-- The programs make the same calls and return results in the relation. -/
inductive Alike (R : α → β → Prop) : Prog ι ρ ε α → Prog ι ρ ε β → Prop
  | done {a : α} {b : β} : R a b → Alike R (.done a) (.done b)
  | fail (e : ε) : Alike R (.fail e) (.fail e)
  | call {i : ι} {next : ρ i → Prog ι ρ ε α} {next' : ρ i → Prog ι ρ ε β} :
      (∀ r, Alike R (next r) (next' r)) → Alike R (.call i next) (.call i next')

theorem Alike.run {R : α → β → Prop} {p : Prog ι ρ ε α} {q : Prog ι ρ ε β}
    (h : Alike R p q) (s : σ) : SameEnd R (p.run exec s) (q.run exec s) := by
  induction h generalizing s with
  | done hR => exact .ok s hR
  | fail e => exact .error e
  | @call i next next' _ ih =>
      rw [run_call, run_call]
      cases exec i s with
      | error e => exact .error e
      | ok result => exact ih result.1 result.2

theorem Alike.ite {R : α → β → Prop} {c : Prop} [Decidable c]
    {p p' : Prog ι ρ ε α} {q q' : Prog ι ρ ε β} (hp : Alike R p q)
    (hp' : Alike R p' q') :
    Alike R (if c then p else p') (if c then q else q') := by
  split
  · exact hp
  · exact hp'

/-! ## Keeping a history -/

def traced {ν : Type} (exec : (i : ι) → Effect σ ε (ρ i))
    (notes : (i : ι) → σ → ρ i → List ν) (i : ι) :
    Effect (σ × List ν) ε (ρ i) := fun u =>
  match exec i u.1 with
  | .ok (r, s') => .ok (r, (s', notes i u.1 r ++ u.2))
  | .error e => .error e

variable {ν : Type} {notes : (i : ι) → σ → ρ i → List ν}

theorem traced_ok {i : ι} {u u' : σ × List ν} {r : ρ i}
    (h : traced exec notes i u = .ok (r, u')) :
    exec i u.1 = .ok (r, u'.1) ∧ u'.2 = notes i u.1 r ++ u.2 := by
  unfold traced at h
  cases hexec : exec i u.1 with
  | error e => simp [hexec] at h
  | ok result =>
      simp only [hexec, Except.ok.injEq, Prod.mk.injEq] at h
      obtain ⟨rfl, rfl⟩ := h
      exact ⟨rfl, rfl⟩

theorem run_traced (p : Prog ι ρ ε α) (u : σ × List ν) :
    (p.run (traced exec notes) u).map (fun result => (result.1, result.2.1)) =
      p.run exec u.1 := by
  induction p generalizing u with
  | done a => rfl
  | fail e => rfl
  | call i next ih =>
      rw [run_call, run_call, traced]
      cases exec i u.1 with
      | error e => rfl
      | ok result => exact ih result.1 (result.2, _)

theorem run_invariant (inv : σ → Prop)
    (hstep : ∀ i s r s', inv s → exec i s = .ok (r, s') → inv s')
    {p : Prog ι ρ ε α} {s s' : σ} {a : α} (hs : inv s)
    (h : p.run exec s = .ok (a, s')) : inv s' := by
  induction p generalizing s with
  | done b =>
      cases h
      exact hs
  | fail e => contradiction
  | call i next ih =>
      rw [run_call] at h
      cases hexec : exec i s with
      | error e =>
          rw [hexec] at h
          contradiction
      | ok result =>
          rw [hexec] at h
          exact ih result.1 (hstep i s result.1 result.2 hs hexec) h

end Prog

end Memstashed.Foundation
