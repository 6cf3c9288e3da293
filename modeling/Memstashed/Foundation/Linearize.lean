import Memstashed.Foundation.History

/-!
# Linearization

Several clients run a program each at the same time.  When every program shows
in an abstract state at one of its calls only, the clients might as well have
taken one atomic step each, at that call.
-/

namespace Memstashed.Foundation

namespace Prog

variable {ι : Type} {ρ : ι → Type} {ε α σ τ κ : Type}

/--
A program that has not shown so far, or has shown with the result it is going to
return.  A call that is `Hidden` does not show; a call that `Takes` shows as the
whole program with its result; a result that is `Free` may be returned without
showing.
-/
inductive Shows (Hidden : ι → Prop) (Takes : (i : ι) → ρ i → α → Prop)
    (Free : α → Prop) : Option α → Prog ι ρ ε α → Prop
  | done (a : α) : Shows Hidden Takes Free (some a) (.done a)
  | free {a : α} : Free a → Shows Hidden Takes Free none (.done a)
  | fail (shown : Option α) (e : ε) : Shows Hidden Takes Free shown (.fail e)
  | before {i : ι} {next : ρ i → Prog ι ρ ε α} (shown : ρ i → Option α) :
      (∀ r, shown r = none → Hidden i) →
      (∀ r a, shown r = some a → Takes i r a) →
      (∀ r, Shows Hidden Takes Free (shown r) (next r)) →
      Shows Hidden Takes Free none (.call i next)
  | after {a : α} {i : ι} {next : ρ i → Prog ι ρ ε α} :
      Hidden i → (∀ r, Shows Hidden Takes Free (some a) (next r)) →
      Shows Hidden Takes Free (some a) (.call i next)

section Shows

variable {Hidden : ι → Prop} {Takes : (i : ι) → ρ i → α → Prop}
  {Free : α → Prop}

theorem Shows.hidden {i : ι} {next : ρ i → Prog ι ρ ε α} {shown : Option α}
    (hi : Hidden i) (hnext : ∀ r, Shows Hidden Takes Free shown (next r)) :
    Shows Hidden Takes Free shown (.call i next) := by
  cases shown with
  | none => exact .before (fun _ => none) (fun _ _ => hi) (by simp) hnext
  | some a => exact .after hi hnext

theorem Shows.hidden_bind {β : Type} {p : Prog ι ρ ε β}
    {f : β → Prog ι ρ ε α} {shown : Option α} (hp : Calls Hidden p)
    (hf : ∀ b, Shows Hidden Takes Free shown (f b)) :
    Shows Hidden Takes Free shown (p >>= f) := by
  induction hp with
  | done b => exact hf b
  | fail e => exact .fail shown e
  | call hi _ ih => exact .hidden hi ih

end Shows

inductive Serves (lose : τ → τ → Prop) (spec : κ → α → τ → τ → Prop) :
    List (κ × α) → τ → τ → Prop
  | nil (x : τ) : Serves lose spec [] x x
  | lose {order : List (κ × α)} {x y z : τ} :
      Serves lose spec order x y → lose y z → Serves lose spec order x z
  | serve {order : List (κ × α)} {x y z : τ} {k : κ} {a : α} :
      Serves lose spec order x y → spec k a y z →
      Serves lose spec (order ++ [(k, a)]) x z

/--
The turns of the clients amount to one atomic step of the abstract object for
each client in the order: the step is one of the client's own turns, and a
client that has finished has returned its result.
-/
structure Linearized (lose : τ → τ → Prop) (spec : κ → α → τ → τ → Prop)
    (turns : List κ) (pool : κ → Prog ι ρ ε α) (x y : τ)
    (order : List (κ × α)) : Prop where
  once : (order.map Prod.fst).Nodup
  inTime : (order.map Prod.fst).reverse.Sublist turns
  finished : ∀ k a, pool k = .done a → (k, a) ∈ order
  serves : Serves lose spec order x y

theorem Linearized.before {lose : τ → τ → Prop} {spec : κ → α → τ → τ → Prop}
    {later earlier : List κ} {pool : κ → Prog ι ρ ε α} {x y : τ}
    {order : List (κ × α)}
    (h : Linearized lose spec (later ++ earlier) pool x y order) {j k : κ}
    (hj : j ∈ order.map Prod.fst) (hk : k ∈ order.map Prod.fst)
    (hfirst : j ∉ later) (hlast : k ∉ earlier) :
    [j, k].Sublist (order.map Prod.fst) := by
  obtain ⟨late, early, hsplit, hlate, hearly⟩ :=
    List.sublist_append_iff.mp h.inTime
  have hj' : j ∈ early := by
    have hmem : j ∈ late ++ early := hsplit ▸ List.mem_reverse.mpr hj
    exact (List.mem_append.mp hmem).resolve_left fun hlate' =>
      hfirst (hlate.subset hlate')
  have hk' : k ∈ late := by
    have hmem : k ∈ late ++ early := hsplit ▸ List.mem_reverse.mpr hk
    exact (List.mem_append.mp hmem).resolve_right fun hearly' =>
      hlast (hearly.subset hearly')
  have horder : order.map Prod.fst = early.reverse ++ late.reverse := by
    rw [← List.reverse_append, ← hsplit, List.reverse_reverse]
  rw [horder]
  exact List.Sublist.append
    (List.singleton_sublist.mpr (List.mem_reverse.mpr hj'))
    (List.singleton_sublist.mpr (List.mem_reverse.mpr hk'))

private theorem inTime_snoc {order : List (κ × α)} {turns : List κ} {k : κ}
    {a : α} (h : (order.map Prod.fst).reverse.Sublist turns) :
    ((order ++ [(k, a)]).map Prod.fst).reverse.Sublist (k :: turns) := by
  rw [List.map_append, List.reverse_append]
  exact h.cons_cons k

private theorem once_snoc {order : List (κ × α)} {k : κ} {a : α}
    (h : (order.map Prod.fst).Nodup) (hk : k ∉ order.map Prod.fst) :
    ((order ++ [(k, a)]).map Prod.fst).Nodup := by
  rw [List.map_append]
  refine List.Nodup.append h (List.nodup_singleton k) ?_
  intro j hj hjk
  obtain rfl := List.mem_singleton.mp hjk
  exact hk hj

/-! ## Every run is linearized -/

section Run

variable [DecidableEq κ] {exec : (i : ι) → Effect σ ε (ρ i)}
  {ok : Admits ι ρ ε α σ κ} {pool₀ pool : κ → Prog ι ρ ε α} {s₀ s : σ}
  {history : List (Event ι ρ σ κ)} {lose : τ → τ → Prop}
  {spec : κ → α → τ → τ → Prop} {Hidden : ι → Prop}
  {Takes : κ → (i : ι) → ρ i → α → Prop} {Free : κ → α → Prop}

structure Showing (Hidden : ι → Prop) (Takes : κ → (i : ι) → ρ i → α → Prop)
    (Free : κ → α → Prop) (order : List (κ × α)) (pool : κ → Prog ι ρ ε α)
    (shown : κ → Option α) : Prop where
  served : ∀ k a, shown k = some a ↔ (k, a) ∈ order
  stands : ∀ k, Shows Hidden (Takes k) (Free k) (shown k) (pool k)
  atWork : ∀ k a, shown k = none → pool k ≠ .done a

omit [DecidableEq κ] in
theorem Showing.notMem {order : List (κ × α)} {shown : κ → Option α}
    (h : Showing Hidden Takes Free order pool shown) {k : κ}
    (hk : shown k = none) : k ∉ order.map Prod.fst := by
  intro hmem
  obtain ⟨⟨j, a⟩, hja, hj⟩ := List.mem_map.mp hmem
  obtain rfl : j = k := hj
  have hsome := (h.served j a).mpr hja
  rw [hk] at hsome
  contradiction

theorem Showing.proceed {order : List (κ × α)} {shown : κ → Option α}
    (h : Showing Hidden Takes Free order pool shown) {k : κ}
    {p : Prog ι ρ ε α} (hp : Shows Hidden (Takes k) (Free k) (shown k) p)
    (hwork : ∀ a, shown k = none → p ≠ .done a) :
    Showing Hidden Takes Free order (Function.update pool k p) shown where
  served := h.served
  stands j := by
    by_cases hj : j = k
    · subst hj
      rw [Function.update_self]
      exact hp
    · rw [Function.update_of_ne hj]
      exact h.stands j
  atWork j a hnone := by
    by_cases hj : j = k
    · subst hj
      rw [Function.update_self]
      exact hwork a hnone
    · rw [Function.update_of_ne hj]
      exact h.atWork j a hnone

theorem Showing.show {order : List (κ × α)} {shown : κ → Option α}
    (h : Showing Hidden Takes Free order pool shown) {k : κ}
    (hk : shown k = none) {a : α} {p : Prog ι ρ ε α}
    (hp : Shows Hidden (Takes k) (Free k) (some a) p) :
    Showing Hidden Takes Free (order ++ [(k, a)]) (Function.update pool k p)
      (Function.update shown k (some a)) where
  served j b := by
    rw [List.mem_append, List.mem_singleton, Prod.mk.injEq]
    by_cases hj : j = k
    · subst hj
      rw [Function.update_self]
      constructor
      · intro hab
        exact .inr ⟨rfl, (Option.some.inj hab).symm⟩
      · rintro (hmem | ⟨-, rfl⟩)
        · exact absurd (List.mem_map_of_mem hmem) (h.notMem hk)
        · rfl
    · rw [Function.update_of_ne hj]
      simp [h.served j b, hj]
  stands j := by
    by_cases hj : j = k
    · subst hj
      rw [Function.update_self, Function.update_self]
      exact hp
    · rw [Function.update_of_ne hj, Function.update_of_ne hj]
      exact h.stands j
  atWork j b hnone := by
    by_cases hj : j = k
    · subst hj
      rw [Function.update_self] at hnone
      contradiction
    · rw [Function.update_of_ne hj] at hnone ⊢
      exact h.atWork j b hnone

/-- Whoever runs programs that show once is served atomically, in an order that
agrees with the turns taken. -/
theorem Concurrent.linearized (view : σ → τ)
    (hshows : ∀ k, Shows Hidden (Takes k) (Free k) none (pool₀ k))
    (hwork : ∀ k a, pool₀ k ≠ .done a)
    (hhidden : ∀ i s r s', Hidden i → exec i s = .ok (r, s') →
      view s' = view s ∨ lose (view s) (view s'))
    (htakes : ∀ k i s r s' a, Takes k i r a → exec i s = .ok (r, s') →
      spec k a (view s) (view s'))
    (hfree : ∀ k a x, Free k a → spec k a x x)
    (h : Concurrent exec ok pool₀ s₀ history pool s) :
    ∃ order, Linearized lose spec (history.map Event.client) pool (view s₀)
      (view s) order := by
  suffices hrun : ∃ order shown, (order.map Prod.fst).Nodup ∧
      (order.map Prod.fst).reverse.Sublist (history.map Event.client) ∧
      Showing Hidden Takes Free order pool shown ∧
      Serves lose spec order (view s₀) (view s) by
    obtain ⟨order, shown, honce, hintime, hshowing, hserves⟩ := hrun
    refine ⟨order, honce, hintime, fun k a hdone => ?_, hserves⟩
    have hk := hshowing.stands k
    rw [hdone] at hk
    cases hshown : shown k with
    | none => exact absurd hdone (hshowing.atWork k a hshown)
    | some b =>
        rw [hshown] at hk
        cases hk
        exact (hshowing.served k a).mp hshown
  induction h with
  | start =>
      exact ⟨[], fun _ => none, List.nodup_nil, List.Sublist.refl _,
        ⟨by simp, hshows, fun k a _ => hwork k a⟩, .nil _⟩
  | @step history pool s s' k i next r _ hk _ hexec ih =>
      obtain ⟨order, shown, honce, hintime, hshowing, hserves⟩ := ih
      have hstands := hshowing.stands k
      rw [hk] at hstands
      cases hshown : shown k with
      | some b =>
          rw [hshown] at hstands
          cases hstands with
          | after hi hnext =>
              refine ⟨order, shown, honce, hintime.cons k,
                hshowing.proceed (hshown ▸ hnext r) (by simp [hshown]), ?_⟩
              rcases hhidden i s r s' hi hexec with hsame | hlose
              · exact hsame ▸ hserves
              · exact hserves.lose hlose
      | none =>
          rw [hshown] at hstands
          have hnot := hshowing.notMem hshown
          cases hstands with
          | before answer hi htake hnext =>
              have hgo := hnext r
              cases hanswer : answer r with
              | some a =>
                  rw [hanswer] at hgo
                  exact ⟨_, _, once_snoc honce hnot, inTime_snoc hintime,
                    hshowing.show hshown hgo,
                    hserves.serve (htakes k i s r s' a (htake r a hanswer)
                      hexec)⟩
              | none =>
                  rw [hanswer] at hgo
                  have hserves' : Serves lose spec order (view s₀) (view s') := by
                    rcases hhidden i s r s' (hi r hanswer) hexec with
                      hsame | hlose
                    · exact hsame ▸ hserves
                    · exact hserves.lose hlose
                  -- a client that ends here is served at its last turn
                  by_cases hdone : ∃ a, next r = .done a
                  · obtain ⟨a, ha⟩ := hdone
                    rw [ha] at hgo
                    cases hgo with
                    | free hfree' =>
                        refine ⟨_, _, once_snoc honce hnot,
                          inTime_snoc hintime,
                          hshowing.show hshown (ha ▸ .done a),
                          hserves'.serve (hfree k a _ hfree')⟩
                  · exact ⟨order, shown, honce, hintime.cons k,
                      hshowing.proceed (hshown ▸ hgo)
                        fun a _ ha => hdone ⟨a, ha⟩, hserves'⟩

end Run

end Prog

end Memstashed.Foundation
