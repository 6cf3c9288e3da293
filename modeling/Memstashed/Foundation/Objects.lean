import Memstashed.Foundation.Linearize
import Mathlib.Logic.Relation

/-!
# Programs over an abstract object

A call of a program may stand for one step of an abstract object.  When every
call is implemented by a program that shows in the object at one place, programs
of calls run at the same time as if each call was that one step.
-/

namespace Memstashed.Foundation

/-! ## Maps that lose entries -/

section Forgets

variable {κ α : Type}

def Forgets (m m' : κ → Option α) : Prop := ∀ k, m' k = m k ∨ m' k = none

theorem Forgets.refl (m : κ → Option α) : Forgets m m := fun _ => .inl rfl

theorem Forgets.trans {m m' m'' : κ → Option α} (h : Forgets m m')
    (h' : Forgets m' m'') : Forgets m m'' := by
  intro k
  rcases h' k with hsame | hnone
  · rw [hsame]
    exact h k
  · exact .inr hnone

theorem Forgets.eq_some {m m' : κ → Option α} (h : Forgets m m') {k : κ} {a : α}
    (hk : m' k = some a) : m k = some a := by
  rcases h k with hsame | hnone
  · rw [← hsame, hk]
  · rw [hnone] at hk
    contradiction

theorem Forgets.ne_none {m m' : κ → Option α} (h : Forgets m m') {k : κ}
    (hk : m' k ≠ none) : m k ≠ none := by
  rcases h k with hsame | hnone
  · rwa [← hsame]
  · exact absurd hnone hk

theorem Forgets.update [DecidableEq κ] {m m' : κ → Option α} (h : Forgets m m')
    (k : κ) (a : Option α) :
    Forgets (Function.update m k a) (Function.update m' k a) := by
  intro j
  by_cases hj : j = k
  · subst hj
    simp
  · simp only [Function.update_of_ne hj]
    exact h j

theorem forgets_drop [DecidableEq κ] (m : κ → Option α) (k : κ) :
    Forgets m (Function.update m k none) := by
  intro j
  by_cases hj : j = k
  · subst hj
    simp
  · simp [hj]

end Forgets

namespace Prog

variable {ι ι' : Type} {ρ : ι → Type} {ρ' : ι' → Type} {ε α β σ τ κ : Type}

/-! ## One program -/

/-- The program on an abstract object, which answers each call in one of the
ways of `spec`. -/
inductive Over (spec : (i : ι) → ρ i → τ → τ → Prop) :
    Prog ι ρ ε α → τ → α → τ → Prop
  | done (a : α) (x : τ) : Over spec (.done a) x a x
  | call {i : ι} {next : ρ i → Prog ι ρ ε α} {r : ρ i} {a : α} {x y z : τ} :
      spec i r x y → Over spec (next r) y a z → Over spec (.call i next) x a z

section Over

variable {spec : (i : ι) → ρ i → τ → τ → Prop}

theorem Over.of_done {a b : α} {x y : τ}
    (h : Over spec (.done a : Prog ι ρ ε α) x b y) : b = a ∧ y = x := by
  cases h
  exact ⟨rfl, rfl⟩

theorem Over.of_bind {p : Prog ι ρ ε α} {f : α → Prog ι ρ ε β} {b : β}
    {x z : τ} (h : Over spec (p >>= f) x b z) :
    ∃ a y, Over spec p x a y ∧ Over spec (f a) y b z := by
  induction p generalizing x with
  | done a => exact ⟨a, x, .done a x, h⟩
  | fail e => contradiction
  | call i next ih =>
      cases h with
      | call hspec hrest =>
          obtain ⟨a, y, hnext, hf⟩ := ih _ hrest
          exact ⟨a, y, .call hspec hnext, hf⟩

theorem Over.of_call {i : ι} {f : ρ i → Prog ι ρ ε β} {b : β} {x z : τ}
    (h : Over spec (.call i .done >>= f) x b z) :
    ∃ r y, spec i r x y ∧ Over spec (f r) y b z := by
  cases h with
  | call hspec hrest => exact ⟨_, _, hspec, hrest⟩

theorem Over.mono_of_calls {spec' : (i : ι) → ρ i → τ → τ → Prop}
    {P : ι → Prop} {p : Prog ι ρ ε α} {a : α} {x z : τ}
    (hspec : ∀ i r x y, P i → spec i r x y → spec' i r x y)
    (hp : Calls P p) (h : Over spec p x a z) : Over spec' p x a z := by
  induction h with
  | done a x => exact .done a x
  | call hstep _ ih =>
      cases hp with
      | call hi hnext =>
          exact .call (hspec _ _ _ _ hi hstep) (ih (hnext _))

theorem Over.loses {loses : τ → τ → Prop} (hrefl : ∀ x, loses x x)
    (htrans : ∀ x y z, loses x y → loses y z → loses x z)
    {p : Prog ι ρ ε α} {a : α} {x z : τ}
    (h : Over (fun _ _ => loses) p x a z) : loses x z := by
  induction h with
  | done a x => exact hrefl x
  | call hstep _ ih => exact htrans _ _ _ hstep ih

theorem over_of_run {exec : (i : ι) → Effect σ ε (ρ i)} (view : σ → τ)
    (hstep : ∀ i s r s', exec i s = .ok (r, s') → spec i r (view s) (view s'))
    {p : Prog ι ρ ε α} {s s' : σ} {a : α} (hrun : p.run exec s = .ok (a, s')) :
    Over spec p (view s) a (view s') := by
  induction p generalizing s with
  | done b =>
      cases hrun
      exact .done a _
  | fail e => contradiction
  | call i next ih =>
      rw [run_call] at hrun
      cases hexec : exec i s with
      | error e =>
          rw [hexec] at hrun
          contradiction
      | ok result =>
          obtain ⟨r, t⟩ := result
          rw [hexec] at hrun
          exact .call (hstep i s r t hexec) (ih r hrun)

end Over

/-! ## A program that shows once, alone -/

section Alone

variable {exec : (i : ι) → Effect σ ε (ρ i)} {lose : τ → τ → Prop}
  {Hidden : ι → Prop} {Takes : (i : ι) → ρ i → α → Prop} {Free : α → Prop}
  {p : Prog ι ρ ε α} {s s' : σ} {a : α}

theorem Shows.run_after (view : σ → τ) (hhidden : ∀ i s r s', Hidden i →
      exec i s = .ok (r, s') → view s' = view s ∨ lose (view s) (view s'))
    {b : α} (h : Shows Hidden Takes Free (some b) p)
    (hrun : p.run exec s = .ok (a, s')) :
    a = b ∧ Relation.ReflTransGen lose (view s) (view s') := by
  induction p generalizing s with
  | done c =>
      cases h
      cases hrun
      exact ⟨rfl, .refl⟩
  | fail e => contradiction
  | call i next ih =>
      cases h with
      | after hi hnext =>
          rw [run_call] at hrun
          cases hexec : exec i s with
          | error e =>
              rw [hexec] at hrun
              contradiction
          | ok result =>
              obtain ⟨r, t⟩ := result
              rw [hexec] at hrun
              obtain ⟨rfl, hlose⟩ := ih r (hnext r) hrun
              refine ⟨rfl, ?_⟩
              rcases hhidden i s r t hi hexec with hsame | hstep
              · rwa [hsame] at hlose
              · exact .head hstep hlose

theorem Shows.run (view : σ → τ) (spec : α → τ → τ → Prop)
    (hhidden : ∀ i s r s', Hidden i → exec i s = .ok (r, s') →
      view s' = view s ∨ lose (view s) (view s'))
    (htakes : ∀ i s r s' a, Takes i r a → exec i s = .ok (r, s') →
      spec a (view s) (view s'))
    (hfree : ∀ a x, Free a → spec a x x)
    (h : Shows Hidden Takes Free none p) (hrun : p.run exec s = .ok (a, s')) :
    ∃ x y, Relation.ReflTransGen lose (view s) x ∧ spec a x y ∧
      Relation.ReflTransGen lose y (view s') := by
  induction p generalizing s with
  | done c =>
      cases hrun
      cases h with
      | free hc => exact ⟨_, _, .refl, hfree a _ hc, .refl⟩
  | fail e => contradiction
  | call i next ih =>
      cases h with
      | before answer hi htake hnext =>
          rw [run_call] at hrun
          cases hexec : exec i s with
          | error e =>
              rw [hexec] at hrun
              contradiction
          | ok result =>
              obtain ⟨r, t⟩ := result
              rw [hexec] at hrun
              have hgo := hnext r
              cases hanswer : answer r with
              | some b =>
                  rw [hanswer] at hgo
                  obtain ⟨rfl, hlose⟩ := hgo.run_after view hhidden hrun
                  exact ⟨_, _, .refl,
                    htakes i s r t a (htake r a hanswer) hexec, hlose⟩
              | none =>
                  rw [hanswer] at hgo
                  obtain ⟨x, y, hx, hspec, hy⟩ := ih r hgo hrun
                  refine ⟨x, y, ?_, hspec, hy⟩
                  rcases hhidden i s r t (hi r hanswer) hexec with hsame | hstep
                  · rwa [hsame] at hx
                  · exact .head hstep hx

end Alone

theorem Shows.of_map {Hidden : ι → Prop} {Takes : (i : ι) → ρ i → β → Prop}
    {Free : β → Prop} {f : α → β} (back : β → Option α)
    (hback : ∀ a, back (f a) = some a)
    (hf : ∀ a b, back b = some a → f a = b)
    (htakes : ∀ i r b, Takes i r b → (back b).isSome = true)
    {p : Prog ι ρ ε α} {shown : Option β}
    (hshown : ∀ b ∈ shown, (back b).isSome = true)
    (h : Shows Hidden Takes Free shown (p >>= fun a => .done (f a))) :
    Shows Hidden (fun i r a => Takes i r (f a)) (fun a => Free (f a))
      (shown.bind back) p := by
  induction p generalizing shown with
  | done a =>
      cases h with
      | done =>
          rw [Option.bind_some, hback]
          exact .done a
      | free ha => exact .free ha
  | fail e => exact .fail _ e
  | call i next ih =>
      cases h with
      | before answer hi htake hnext =>
          refine .before (fun r => (answer r).bind back) (fun r hr => ?_)
            (fun r a hr => ?_) fun r => ?_
          · refine hi r (Option.eq_none_iff_forall_ne_some.mpr fun b hb => ?_)
            have hsome := htakes i r b (htake r b hb)
            rw [hb, Option.bind_some] at hr
            rw [hr] at hsome
            contradiction
          · obtain ⟨b, hb, ha⟩ := Option.bind_eq_some_iff.mp hr
            obtain rfl := hf a b ha
            exact htake r _ hb
          · exact ih r (fun b hb => htakes i r b (htake r b hb)) (hnext r)
      | @after b _ _ hi hnext =>
          obtain ⟨a, ha⟩ := Option.isSome_iff_exists.mp (hshown b rfl)
          rw [Option.bind_some, ha]
          refine .after hi fun r => ?_
          have hgo := ih r hshown (hnext r)
          rwa [Option.bind_some, ha] at hgo

/-! ## Programs with idle calls -/

/-- `p` makes the calls of `q` with idle ones in between.  It may stop before
`q` does; `R` says with what. -/
inductive Trails (idle : ι → Prop) (R : α → Prog ι ρ ε β → Prop) :
    Prog ι ρ ε α → Prog ι ρ ε β → Prop
  | done {a : α} {q : Prog ι ρ ε β} : R a q → Trails idle R (.done a) q
  | fail (e : ε) : Trails idle R (.fail e) (.fail e)
  | call {i : ι} {next : ρ i → Prog ι ρ ε α} {next' : ρ i → Prog ι ρ ε β} :
      (∀ r, Trails idle R (next r) (next' r)) →
      Trails idle R (.call i next) (.call i next')
  | idle {i : ι} {next : ρ i → Prog ι ρ ε α} {q : Prog ι ρ ε β} : idle i →
      (∀ r, Trails idle R (next r) q) → Trails idle R (.call i next) q

theorem Yields.mono {P Q : α → Prop} {p : Prog ι ρ ε α} (h : Yields P p)
    (hPQ : ∀ a, P a → Q a) : Yields Q p := by
  induction h with
  | done ha => exact .done (hPQ _ ha)
  | fail e => exact .fail e
  | call _ ih => exact .call ih

theorem Trails.bind {γ : Type} {idle : ι → Prop} {R : α → Prog ι ρ ε β → Prop}
    {P : γ → Prop} {p : Prog ι ρ ε γ} (hp : Yields P p)
    {f : γ → Prog ι ρ ε α} {g : γ → Prog ι ρ ε β}
    (h : ∀ c, P c → Trails idle R (f c) (g c)) :
    Trails idle R (p >>= f) (p >>= g) := by
  induction hp with
  | done hc => exact h _ hc
  | fail e => exact .fail e
  | call _ ih => exact .call ih

/-! ## Programs at the same time -/

inductive Atomic [DecidableEq κ] (lose : τ → τ → Prop)
    (spec : (i : ι) → ρ i → τ → τ → Prop) (pool₀ : κ → Prog ι ρ ε α) (x₀ : τ) :
    List κ → (κ → Prog ι ρ ε α) → τ → Prop
  | start : Atomic lose spec pool₀ x₀ [] pool₀ x₀
  | lose {turns : List κ} {pool : κ → Prog ι ρ ε α} {x y : τ} :
      Atomic lose spec pool₀ x₀ turns pool x → lose x y →
      Atomic lose spec pool₀ x₀ turns pool y
  | call {turns : List κ} {pool : κ → Prog ι ρ ε α} {x y : τ} {k : κ} {i : ι}
      {next : ρ i → Prog ι ρ ε α} {r : ρ i} :
      Atomic lose spec pool₀ x₀ turns pool x → pool k = .call i next →
      spec i r x y →
      Atomic lose spec pool₀ x₀ (k :: turns) (Function.update pool k (next r)) y

/-- How far the implementation of a program is: between two calls, in a call
that has not shown, or in one that has shown with its result. -/
inductive Implements (impl : (i : ι) → Prog ι' ρ' ε (ρ i)) (Hidden : ι' → Prop)
    (Takes : (i : ι) → (j : ι') → ρ' j → ρ i → Prop)
    (Free : (i : ι) → ρ i → Prop) :
    Prog ι ρ ε α → Prog ι' ρ' ε α → Prop
  | between (q : Prog ι ρ ε α) :
      Implements impl Hidden Takes Free q (q.refine impl)
  | pending {i : ι} {next : ρ i → Prog ι ρ ε α} {c : Prog ι' ρ' ε (ρ i)} :
      Shows Hidden (Takes i) (Free i) none c → (∀ r, c ≠ .done r) →
      Implements impl Hidden Takes Free (.call i next)
        (c >>= fun r => (next r).refine impl)
  | shown {i : ι} {next : ρ i → Prog ι ρ ε α} {c : Prog ι' ρ' ε (ρ i)}
      {r : ρ i} : Shows Hidden (Takes i) (Free i) (some r) c →
      Implements impl Hidden Takes Free (next r)
        (c >>= fun r => (next r).refine impl)

section Implements

variable {impl : (i : ι) → Prog ι' ρ' ε (ρ i)} {Hidden : ι' → Prop}
  {Takes : (i : ι) → (j : ι') → ρ' j → ρ i → Prop}
  {Free : (i : ι) → ρ i → Prop} {q : Prog ι ρ ε α}

theorem call_of_bind {p : Prog ι ρ ε α} {f : α → Prog ι ρ ε β} {i : ι}
    {next : ρ i → Prog ι ρ ε β} (h : p >>= f = .call i next)
    (hdone : ∀ a, p ≠ .done a) :
    ∃ m, p = .call i m ∧ ∀ r, next r = m r >>= f := by
  cases p with
  | done a => exact absurd rfl (hdone a)
  | fail e => contradiction
  | call j m =>
      cases h
      exact ⟨m, rfl, fun _ => rfl⟩

theorem done_of_bind {p : Prog ι ρ ε α} {f : α → Prog ι ρ ε β} {b : β}
    (h : p >>= f = .done b) : ∃ a, p = .done a ∧ f a = .done b := by
  cases p with
  | done a => exact ⟨a, rfl, h⟩
  | fail e => contradiction
  | call i next => contradiction

theorem done_of_refine (himpl : ∀ i r, impl i ≠ .done r) {a : α}
    (h : q.refine impl = .done a) : q = .done a := by
  cases q with
  | done b =>
      cases h
      rfl
  | fail e => contradiction
  | call i next =>
      obtain ⟨r, hr, -⟩ := done_of_bind h
      exact absurd hr (himpl i r)

theorem Implements.done (himpl : ∀ i r, impl i ≠ .done r) {a : α}
    {p : Prog ι' ρ' ε α} (h : Implements impl Hidden Takes Free q p)
    (hp : p = .done a) : q = .done a := by
  cases h with
  | between => exact done_of_refine himpl hp
  | pending _ hdone =>
      obtain ⟨r, hr, -⟩ := done_of_bind hp
      exact absurd hr (hdone r)
  | shown hshows =>
      obtain ⟨r, rfl, hnext⟩ := done_of_bind hp
      cases hshows
      exact done_of_refine himpl hnext

theorem Implements.of_call (himpl : ∀ i r, impl i ≠ .done r)
    (hshows : ∀ i, Shows Hidden (Takes i) (Free i) none (impl i)) {j : ι'}
    {rest : ρ' j → Prog ι' ρ' ε α} {p : Prog ι' ρ' ε α}
    (h : Implements impl Hidden Takes Free q p) (hp : p = .call j rest) :
    (∃ (i : ι) (next : ρ i → Prog ι ρ ε α) (m : ρ' j → Prog ι' ρ' ε (ρ i)),
        q = .call i next ∧
        Shows Hidden (Takes i) (Free i) none (.call j m) ∧
        ∀ r, rest r = m r >>= fun r => (next r).refine impl) ∨
      ∃ (i : ι) (next : ρ i → Prog ι ρ ε α) (m : ρ' j → Prog ι' ρ' ε (ρ i))
        (a : ρ i), q = next a ∧
        Shows Hidden (Takes i) (Free i) (some a) (.call j m) ∧
        ∀ r, rest r = m r >>= fun r => (next r).refine impl := by
  have hbetween : ∀ q : Prog ι ρ ε α, q.refine impl = .call j rest →
      ∃ (i : ι) (next : ρ i → Prog ι ρ ε α) (m : ρ' j → Prog ι' ρ' ε (ρ i)),
        q = .call i next ∧
        Shows Hidden (Takes i) (Free i) none (.call j m) ∧
        ∀ r, rest r = m r >>= fun r => (next r).refine impl := by
    intro q hq
    cases q with
    | done a => contradiction
    | fail e => contradiction
    | call i next =>
        obtain ⟨m, hm, hrest⟩ := call_of_bind hq (himpl i)
        exact ⟨i, next, m, rfl, hm ▸ hshows i, hrest⟩
  cases h with
  | between => exact .inl (hbetween q hp)
  | @pending i next c hc hdone =>
      obtain ⟨m, rfl, hrest⟩ := call_of_bind hp hdone
      exact .inl ⟨i, next, m, rfl, hc, hrest⟩
  | @shown i next c r hc =>
      by_cases hdone : ∃ r, c = .done r
      · obtain ⟨r', rfl⟩ := hdone
        cases hc
        exact .inl (hbetween _ hp)
      · push Not at hdone
        obtain ⟨m, rfl, hrest⟩ := call_of_bind hp hdone
        exact .inr ⟨i, next, m, r, rfl, hc, hrest⟩

end Implements

section Run

variable [DecidableEq κ] {exec : (j : ι') → Effect σ ε (ρ' j)}
  {ok : Admits ι' ρ' ε α σ κ} {impl : (i : ι) → Prog ι' ρ' ε (ρ i)}
  {pool₀ : κ → Prog ι ρ ε α} {pool : κ → Prog ι' ρ' ε α} {s₀ s : σ}
  {history : List (Event ι' ρ' σ κ)} {lose : τ → τ → Prop}
  {spec : (i : ι) → ρ i → τ → τ → Prop} {Hidden : ι' → Prop}
  {Takes : (i : ι) → (j : ι') → ρ' j → ρ i → Prop}
  {Free : (i : ι) → ρ i → Prop}

private theorem implements_update {pool' : κ → Prog ι ρ ε α}
    (h : ∀ k, Implements impl Hidden Takes Free (pool' k) (pool k)) {k : κ}
    {q : Prog ι ρ ε α} {p : Prog ι' ρ' ε α}
    (hk : Implements impl Hidden Takes Free q p) (j : κ) :
    Implements impl Hidden Takes Free (Function.update pool' k q j)
      (Function.update pool k p j) := by
  by_cases hj : j = k
  · subst hj
    rw [Function.update_self, Function.update_self]
    exact hk
  · rw [Function.update_of_ne hj, Function.update_of_ne hj]
    exact h j

/-- Programs of calls run at the same time as if every call was one step of the
object, taken at a turn of its client. -/
theorem Concurrent.atomic (view : σ → τ) (himpl : ∀ i r, impl i ≠ .done r)
    (hshows : ∀ i, Shows Hidden (Takes i) (Free i) none (impl i))
    (hhidden : ∀ j s r s', Hidden j → exec j s = .ok (r, s') →
      view s' = view s ∨ lose (view s) (view s'))
    (htakes : ∀ i j s r s' a, Takes i j r a → exec j s = .ok (r, s') →
      spec i a (view s) (view s'))
    (hfree : ∀ i a x, Free i a → spec i a x x)
    (h : Concurrent exec ok (fun k => (pool₀ k).refine impl) s₀ history pool
      s) :
    ∃ turns pool', Atomic lose spec pool₀ (view s₀) turns pool' (view s) ∧
      turns.Sublist (history.map Event.client) ∧
      ∀ k a, pool k = .done a → pool' k = .done a := by
  suffices hrun : ∃ turns pool',
      Atomic lose spec pool₀ (view s₀) turns pool' (view s) ∧
      turns.Sublist (history.map Event.client) ∧
      ∀ k, Implements impl Hidden Takes Free (pool' k) (pool k) by
    obtain ⟨turns, pool', hatomic, hturns, himplements⟩ := hrun
    exact ⟨turns, pool', hatomic, hturns, fun k a hk =>
      (himplements k).done himpl hk⟩
  induction h with
  | start =>
      exact ⟨[], pool₀, .start, List.Sublist.refl _,
        fun k => .between (pool₀ k)⟩
  | @step history pool s s' k j rest r _ hk _ hexec ih =>
      obtain ⟨turns, pool', hatomic, hturns, himplements⟩ := ih
      have hquiet : Hidden j →
          Atomic lose spec pool₀ (view s₀) turns pool' (view s') := by
        intro hj
        rcases hhidden j s r s' hj hexec with hsame | hlose
        · rwa [hsame]
        · exact hatomic.lose hlose
      rcases (himplements k).of_call himpl hshows hk with
        ⟨i, next, m, hq, hm, hrest⟩ | ⟨i, next, m, a, hq, hm, hrest⟩
      · rw [hrest r]
        cases hm with
        | before answer hi htake hnext =>
            have hgo := hnext r
            cases hanswer : answer r with
            | some a =>
                rw [hanswer] at hgo
                refine ⟨k :: turns, _, hatomic.call hq
                  (htakes i j s r s' a (htake r a hanswer) hexec),
                  hturns.cons_cons k, implements_update himplements ?_⟩
                exact .shown hgo
            | none =>
                rw [hanswer] at hgo
                have hlater := hquiet (hi r hanswer)
                by_cases hdone : ∃ a, m r = .done a
                · -- the call ends here without having shown
                  obtain ⟨a, ha⟩ := hdone
                  rw [ha] at hgo ⊢
                  cases hgo with
                  | free ha' =>
                      refine ⟨k :: turns, _,
                        hlater.call hq (hfree i a _ ha'),
                        hturns.cons_cons k, implements_update himplements ?_⟩
                      exact .between (next a)
                · push Not at hdone
                  refine ⟨turns, Function.update pool' k (.call i next), ?_,
                    hturns.cons k, implements_update himplements
                      (.pending hgo hdone)⟩
                  rw [← hq, Function.update_eq_self]
                  exact hlater
      · rw [hrest r]
        cases hm with
        | after hj hnext =>
            refine ⟨turns, Function.update pool' k (next a), ?_,
              hturns.cons k, implements_update himplements (.shown (hnext r))⟩
            rw [← hq, Function.update_eq_self]
            exact hquiet hj

end Run

/-! ## One program among others -/

section Among

variable [DecidableEq κ] {lose : τ → τ → Prop}
  {spec : (i : ι) → ρ i → τ → τ → Prop} {pool₀ pool : κ → Prog ι ρ ε α}
  {x₀ x : τ} {turns : List κ}

theorem Atomic.map {τ' : Type} {lose' : τ' → τ' → Prop}
    {spec' : (i : ι) → ρ i → τ' → τ' → Prop} (view : τ → τ')
    (hlose : ∀ x y, lose x y → lose' (view x) (view y))
    (hspec : ∀ i r x y, spec i r x y → spec' i r (view x) (view y))
    (h : Atomic lose spec pool₀ x₀ turns pool x) :
    Atomic lose' spec' pool₀ (view x₀) turns pool (view x) := by
  induction h with
  | start => exact .start
  | lose _ hstep ih => exact .lose ih (hlose _ _ hstep)
  | call _ hk hstep ih => exact .call ih hk (hspec _ _ _ _ hstep)

theorem Atomic.trails {idle : ι → Prop}
    {R : κ → α → Prog ι ρ ε β → Prop} {pool₀' : κ → Prog ι ρ ε β}
    (hidle : ∀ i r x y, idle i → spec i r x y → y = x)
    (h : Atomic lose spec pool₀ x₀ turns pool x)
    (htrails : ∀ k, Trails idle (R k) (pool₀ k) (pool₀' k)) :
    ∃ turns' pool', Atomic lose spec pool₀' x₀ turns' pool' x ∧
      turns'.Sublist turns ∧ ∀ k, Trails idle (R k) (pool k) (pool' k) := by
  induction h with
  | start => exact ⟨[], pool₀', .start, .refl _, htrails⟩
  | lose _ hstep ih =>
      obtain ⟨turns', pool', hatomic, hturns, hpool⟩ := ih
      exact ⟨turns', pool', hatomic.lose hstep, hturns, hpool⟩
  | @call turns pool x y k i next r _ hk hstep ih =>
      obtain ⟨turns', pool', hatomic, hturns, hpool⟩ := ih
      have hmoved : ∀ q, Trails idle (R k) (next r) q → ∀ j,
          Trails idle (R j) (Function.update pool k (next r) j)
            (Function.update pool' k q j) := by
        intro q hq j
        by_cases hj : j = k
        · subst hj
          rwa [Function.update_self, Function.update_self]
        · rw [Function.update_of_ne hj, Function.update_of_ne hj]
          exact hpool j
      have hgo := hpool k
      rw [hk] at hgo
      generalize hq : pool' k = q at hgo
      cases hgo with
      | call hnext =>
          exact ⟨k :: turns', _, hatomic.call hq hstep, hturns.cons_cons k,
            hmoved _ (hnext r)⟩
      | idle hi hnext =>
          obtain rfl := hidle i r x y hi hstep
          refine ⟨turns', Function.update pool' k q, ?_, hturns.cons k,
            hmoved q (hnext r)⟩
          rwa [← hq, Function.update_eq_self]

theorem Over.of_loses {loses : τ → τ → Prop} (hrefl : ∀ x, loses x x)
    (hbefore : ∀ i r x y z, loses x y → spec i r y z → spec i r x z)
    {p : Prog ι ρ ε α} {a : α} {y z : τ} (hlose : loses x y)
    (h : Over spec p y a z) : ∃ z', Over spec p x a z' ∧ loses z' z := by
  cases h with
  | done => exact ⟨x, .done a x, hlose⟩
  | call hstep hrest =>
      exact ⟨z, .call (hbefore _ _ _ _ _ hlose hstep) hrest, hrefl z⟩

/-- If all that the others do to a view of the object is to lose something, a
program runs on that view as it does alone. -/
theorem Atomic.over {τ' : Type} {loses : τ' → τ' → Prop}
    {step : (i : ι) → ρ i → τ' → τ' → Prop} {own others : ι → Prop}
    (view : τ → τ') (k : κ) (hrefl : ∀ x, loses x x)
    (htrans : ∀ x y z, loses x y → loses y z → loses x z)
    (hbefore : ∀ i r x y z, loses x y → step i r y z → step i r x z)
    (hlose : ∀ x y, lose x y → loses (view x) (view y))
    (hown : ∀ i r x y, own i → spec i r x y → step i r (view x) (view y))
    (hothers : ∀ i r x y, others i → spec i r x y → loses (view x) (view y))
    (hk : Calls own (pool₀ k)) (hrest : ∀ j, j ≠ k → Calls others (pool₀ j))
    (h : Atomic lose spec pool₀ x₀ turns pool x) {a : α}
    (hdone : pool k = .done a) :
    ∃ y, Over step (pool₀ k) (view x₀) a y ∧ loses y (view x) := by
  suffices hall : Calls own (pool k) ∧ (∀ j, j ≠ k → Calls others (pool j)) ∧
      ∀ a z, Over step (pool k) (view x) a z →
        ∃ y, Over step (pool₀ k) (view x₀) a y ∧ loses y z by
    refine hall.2.2 a (view x) ?_
    rw [hdone]
    exact .done a _
  clear hdone
  induction h with
  | start => exact ⟨hk, hrest, fun a z hz => ⟨z, hz, hrefl z⟩⟩
  | lose _ hstep ih =>
      obtain ⟨hcalls, hcalls', hover⟩ := ih
      refine ⟨hcalls, hcalls', fun a z hz => ?_⟩
      obtain ⟨z', hz', hloses⟩ := hz.of_loses hrefl hbefore (hlose _ _ hstep)
      obtain ⟨y, hy, hlosesy⟩ := hover a z' hz'
      exact ⟨y, hy, htrans _ _ _ hlosesy hloses⟩
  | @call turns pool x y j i next r _ hj hstep ih =>
      obtain ⟨hcalls, hcalls', hover⟩ := ih
      by_cases hjk : j = k
      · subst hjk
        rw [hj] at hcalls
        cases hcalls with
        | call hi hnext =>
            refine ⟨?_, fun l hl => ?_, fun a z hz => ?_⟩
            · rw [Function.update_self]
              exact hnext r
            · rw [Function.update_of_ne hl]
              exact hcalls' l hl
            · rw [Function.update_self] at hz
              refine hover a z ?_
              rw [hj]
              exact .call (hown i r x y hi hstep) hz
      · have hother := hcalls' j hjk
        rw [hj] at hother
        cases hother with
        | call hi hnext =>
            refine ⟨?_, fun l hl => ?_, fun a z hz => ?_⟩
            · rw [Function.update_of_ne (Ne.symm hjk)]
              exact hcalls
            · by_cases hlj : l = j
              · subst hlj
                rw [Function.update_self]
                exact hnext r
              · rw [Function.update_of_ne hlj]
                exact hcalls' l hl
            · rw [Function.update_of_ne (Ne.symm hjk)] at hz
              obtain ⟨z', hz', hloses⟩ :=
                hz.of_loses hrefl hbefore (hothers i r x y hi hstep)
              obtain ⟨y', hy, hlosesy⟩ := hover a z' hz'
              exact ⟨y', hy, htrans _ _ _ hlosesy hloses⟩

end Among

end Prog

end Memstashed.Foundation
