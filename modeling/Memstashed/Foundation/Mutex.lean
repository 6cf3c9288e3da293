import Memstashed.Foundation.History

/-!
# Sections under mutexes are atomic

Threads take mutexes, make accesses to shared data, and release the mutexes
again, one step at a time and in any order.  Each mutex protects a part of the
data.  A section that shows in the parts it does not own at one of its accesses
only, before which it has looked and after which it has written what it owns, is
as good as one step: to every run of such sections there is a run in which each
of them is taken at once.
-/

namespace Memstashed.Foundation

inductive Guarded (μ ι : Type) where
  | lock (m : μ)
  | unlock (m : μ)
  | access (j : ι)

abbrev Guarded.Answer {μ ι : Type} (ρ : ι → Type) : Guarded μ ι → Type
  | lock _ => Unit
  | unlock _ => Unit
  | access j => ρ j

structure Locked (μ σ : Type) where
  data : σ
  held : μ → Bool

def Guarded.exec {μ ι σ ε : Type} {ρ : ι → Type} [DecidableEq μ]
    (act : (j : ι) → σ → ρ j × σ) (waits : ε) :
    (c : Guarded μ ι) → Effect (Locked μ σ) ε (c.Answer ρ)
  | lock m => fun s =>
      if s.held m then .error waits
      else .ok ((), { s with held := Function.update s.held m true })
  | unlock m => fun s =>
      .ok ((), { s with held := Function.update s.held m false })
  | access j => fun s =>
      .ok ((act j s.data).1, { s with data := (act j s.data).2 })

/--
Data in parts: one for each mutex, and the rest (`none`), which anybody may
access.  An access concerns one part.  Some of the rest is `steady` while
mutexes on which someone `Relies` are held.
-/
structure Memory (μ : Type) {ι σ : Type} {ρ : ι → Type}
    (act : (j : ι) → σ → ρ j × σ) where
  Part : Option μ → Type
  part : (p : Option μ) → σ → Part p
  ext : ∀ s t, (∀ p, part p s = part p t) → s = t
  scope : ι → Option μ
  answer : ∀ j s t, part (scope j) s = part (scope j) t →
    (act j s).1 = (act j t).1
  effect : ∀ j s t, part (scope j) s = part (scope j) t →
    part (scope j) (act j s).2 = part (scope j) (act j t).2
  frame : ∀ j s p, p ≠ scope j → part p (act j s).2 = part p s
  Steady : Type
  steady : σ → Steady
  steady_rest : ∀ s t, part none s = part none t → steady s = steady t
  Relies : List μ → Prop

/-- What a section does when it is taken at once: the mutexes it needs, its
answer and its effect, and the mutexes it does not release. -/
structure AtOnce (μ ι σ : Type) (ρ : ι → Type) where
  needs : ι → List μ
  body : (i : ι) → σ → ρ i × σ
  leaks : (i : ι) → σ → List μ

namespace Memory

variable {μ ι ι₀ σ ε : Type} {ρ : ι → Type} {ρ₀ : ι₀ → Type}
  {act : (j : ι) → σ → ρ j × σ} (M : Memory μ act)

structure Knows (owned : List μ) (s t : σ) : Prop where
  part : ∀ m ∈ owned, M.part (some m) s = M.part (some m) t
  steady : M.Relies owned → M.steady s = M.steady t

def Elsewhere (owned : List μ) (s t : σ) : Prop :=
  ∀ p, (∀ m ∈ owned, p ≠ some m) → M.part p s = M.part p t

/-- The rest of a section that has shown.  From `s` on it writes what it owns
until it is as in `u`, and releases all but the mutexes it leaks. -/
inductive After {α : Type} (leaked : List μ) (a : α) (u : σ) :
    List μ → σ → Prog (Guarded μ ι) (Guarded.Answer ρ) ε α → Prop
  | done {s : σ} : (∀ m ∈ leaked, M.part (some m) s = M.part (some m) u) →
      After leaked a u leaked s (.done a)
  | write {owned : List μ} {s : σ} {j : ι} {m : μ}
      {next : ρ j → Prog (Guarded μ ι) (Guarded.Answer ρ) ε α} :
      M.scope j = some m → m ∈ owned →
      After leaked a u owned (act j s).2 (next (act j s).1) →
      After leaked a u owned s (.call (.access j) next)
  | unlock {owned : List μ} {s : σ} {m : μ}
      {next : Unit → Prog (Guarded μ ι) (Guarded.Answer ρ) ε α} :
      m ∉ owned → m ∉ leaked → M.part (some m) s = M.part (some m) u →
      After leaked a u owned s (next ()) →
      After leaked a u (m :: owned) s (.call (.unlock m) next)

/-- The access at which a section shows: with the mutexes it owns, the section
might as well be taken at once. -/
structure ShowsAt (B : AtOnce μ ι₀ σ ρ₀) (i : ι₀) (owned : List μ) (j : ι)
    (next : ρ j → Prog (Guarded μ ι) (Guarded.Answer ρ) ε (ρ₀ i)) (t : σ) :
    Prop where
  elsewhere : M.Elsewhere owned (act j t).2 (B.body i t).2
  leaks : ∀ m ∈ B.leaks i t, m ∈ owned
  after : M.After (B.leaks i t) (B.body i t).1 (B.body i t).2 owned (act j t).2
    (next (act j t).1)

/-- The rest of a section that has not shown.  It takes mutexes, and it looks at
what it owns and at what is steady. -/
inductive Before (B : AtOnce μ ι₀ σ ρ₀) (i : ι₀) :
    List μ → σ → Prog (Guarded μ ι) (Guarded.Answer ρ) ε (ρ₀ i) → Prop
  | lock {owned : List μ} {s : σ} {m : μ}
      {next : Unit → Prog (Guarded μ ι) (Guarded.Answer ρ) ε (ρ₀ i)} :
      (∀ t, M.Knows owned s t → Before B i (m :: owned) t (next ())) →
      Before B i owned s (.call (.lock m) next)
  | look {owned : List μ} {s : σ} {j : ι}
      {next : ρ j → Prog (Guarded μ ι) (Guarded.Answer ρ) ε (ρ₀ i)} :
      (∀ t, M.Knows owned s t → act j t = ((act j s).1, t)) →
      Before B i owned s (next (act j s).1) →
      Before B i owned s (.call (.access j) next)
  | shows {owned : List μ} {s : σ} {j : ι}
      {next : ρ j → Prog (Guarded μ ι) (Guarded.Answer ρ) ε (ρ₀ i)} :
      (∀ m, M.scope j = some m → m ∈ owned) → (∀ m ∈ B.needs i, m ∈ owned) →
      (∀ t, M.Knows owned s t → M.ShowsAt B i owned j next t) →
      Before B i owned s (.call (.access j) next)

section Stable

variable {M} {owned : List μ} {s t u : σ}

theorem Knows.refl (owned : List μ) (s : σ) : M.Knows owned s s :=
  ⟨fun _ _ => rfl, fun _ => rfl⟩

theorem Knows.trans (h : M.Knows owned s t) (h' : M.Knows owned t u) :
    M.Knows owned s u :=
  ⟨fun m hm => (h.part m hm).trans (h'.part m hm),
    fun hrelies => (h.steady hrelies).trans (h'.steady hrelies)⟩

theorem steady_access {j : ι} {m : μ} (hscope : M.scope j = some m) (s : σ) :
    M.steady (act j s).2 = M.steady s :=
  M.steady_rest _ _ (M.frame j s none (by simp [hscope]))

theorem part_access {j : ι} {p : Option μ} (h : M.part p s = M.part p t)
    (hscope : M.part (M.scope j) s = M.part (M.scope j) t) :
    M.part p (act j s).2 = M.part p (act j t).2 := by
  by_cases hp : p = M.scope j
  · subst hp
    exact M.effect j s t hscope
  · rw [M.frame j s p hp, M.frame j t p hp, h]

theorem After.congr {α : Type} {leaked : List μ} {a : α} {u u' : σ}
    {q : Prog (Guarded μ ι) (Guarded.Answer ρ) ε α}
    (h : M.After leaked a u owned s q)
    (hs : ∀ m ∈ owned, M.part (some m) s = M.part (some m) t)
    (hu : ∀ m ∈ owned, M.part (some m) u = M.part (some m) u') :
    M.After leaked a u' owned t q := by
  induction h generalizing t with
  | done hend =>
      refine .done fun m hm => ?_
      rw [← hs m hm, hend m hm, hu m hm]
  | @write owned s j m next hscope hm _ ih =>
      have hpart : M.part (M.scope j) s = M.part (M.scope j) t := by
        rw [hscope]
        exact hs m hm
      refine .write hscope hm ?_
      rw [← M.answer j s t hpart]
      exact ih (fun m' hm' => part_access (hs m' hm') hpart) hu
  | @unlock owned s m next hnot hleak hpart _ ih =>
      have hm : m ∈ m :: owned := List.mem_cons_self
      refine .unlock hnot hleak (by rw [← hs m hm, hpart, hu m hm]) ?_
      exact ih (fun m' hm' => hs m' (List.mem_cons_of_mem _ hm'))
        fun m' hm' => hu m' (List.mem_cons_of_mem _ hm')

theorem Before.congr {B : AtOnce μ ι₀ σ ρ₀} {i : ι₀}
    {q : Prog (Guarded μ ι) (Guarded.Answer ρ) ε (ρ₀ i)}
    (h : M.Before B i owned s q) (hst : M.Knows owned s t) :
    M.Before B i owned t q := by
  induction h generalizing t with
  | lock hnext _ => exact .lock fun u hu => hnext u (hst.trans hu)
  | look hlook _ ih =>
      have hanswer := congrArg Prod.fst (hlook t hst)
      refine .look (fun u hu => ?_) ?_
      · rw [hlook u (hst.trans hu), hanswer]
      · rw [hanswer]
        exact ih hst
  | shows hscope hneeds hshows =>
      exact .shows hscope hneeds fun u hu => hshows u (hst.trans hu)

theorem Before.looks {B : AtOnce μ ι₀ σ ρ₀} {i : ι₀} {j : ι} {r : ρ j}
    {next : ρ j → Prog (Guarded μ ι) (Guarded.Answer ρ) ε (ρ₀ i)}
    (hlook : ∀ t, M.Knows owned s t → act j t = (r, t))
    (hnext : M.Before B i owned s (next r)) :
    M.Before B i owned s (.call (.access j) next) := by
  have hr : (act j s).1 = r := by rw [hlook s (.refl _ _)]
  exact .look (fun t ht => by rw [hr, hlook t ht]) (hr ▸ hnext)

theorem ShowsAt.of_eq {B : AtOnce μ ι₀ σ ρ₀} {i : ι₀} {j : ι} {r : ρ j}
    {a : ρ₀ i} {leaked : List μ}
    {next : ρ j → Prog (Guarded μ ι) (Guarded.Answer ρ) ε (ρ₀ i)}
    (hact : act j t = (r, s)) (hbody : B.body i t = (a, u))
    (hleaks : B.leaks i t = leaked) (helsewhere : M.Elsewhere owned s u)
    (howned : ∀ m ∈ leaked, m ∈ owned)
    (hafter : M.After leaked a u owned s (next r)) :
    M.ShowsAt B i owned j next t where
  elsewhere := by
    rw [hact, hbody]
    exact helsewhere
  leaks := hleaks ▸ howned
  after := by
    rw [hact, hbody, hleaks]
    exact hafter

theorem Elsewhere.refl (owned : List μ) (s : σ) : M.Elsewhere owned s s :=
  fun _ _ => rfl

theorem Elsewhere.trans (h : M.Elsewhere owned s t)
    (h' : M.Elsewhere owned t u) : M.Elsewhere owned s u :=
  fun p hp => (h p hp).trans (h' p hp)

end Stable

/-! ## Where the threads stand -/

section Threads

variable {κ α τ : Type} (B : AtOnce μ ι₀ σ ρ₀)
  (impl : (i : ι₀) → Prog (Guarded μ ι) (Guarded.Answer ρ) ε (ρ₀ i))

/-- A thread between two sections, in one that has not shown, or in one that has
shown and leaks some mutexes.  The data are `s`; with every section taken at
once they would be `u`. -/
inductive Stands (s u : σ) : List μ → Option (List μ) → Prog ι₀ ρ₀ ε α →
    Prog (Guarded μ ι) (Guarded.Answer ρ) ε α → Prop
  | out (p : Prog ι₀ ρ₀ ε α) : Stands s u [] none p (p.refine impl)
  | before {owned : List μ} {i : ι₀} {next : ρ₀ i → Prog ι₀ ρ₀ ε α}
      {q : Prog (Guarded μ ι) (Guarded.Answer ρ) ε (ρ₀ i)} :
      M.Before B i owned s q →
      Stands s u owned none (.call i next)
        (q >>= fun r => (next r).refine impl)
  | after {owned leaked : List μ} {i : ι₀} {r : ρ₀ i}
      {next : ρ₀ i → Prog ι₀ ρ₀ ε α}
      {q : Prog (Guarded μ ι) (Guarded.Answer ρ) ε (ρ₀ i)} :
      M.After leaked r u owned s q →
      Stands s u owned (some leaked) (next r)
        (q >>= fun r => (next r).refine impl)

def RunsAtOnce (exec : (i : ι₀) → Effect τ ε (ρ₀ i)) (data : τ → σ)
    (held : τ → μ → Bool) : Prop :=
  ∀ i c, (∀ m ∈ B.needs i, held c m = false) →
    ∃ c', exec i c = .ok ((B.body i (data c)).1, c') ∧
      data c' = (B.body i (data c)).2 ∧
      ∀ m, held c' m = true ↔ held c m = true ∨ m ∈ B.leaks i (data c)

/-- The threads with their mutexes, against the same threads with every section
taken at once. -/
structure Reduces (data : τ → σ) (held : τ → μ → Bool) (s : Locked μ σ)
    (pool : κ → Prog (Guarded μ ι) (Guarded.Answer ρ) ε α) (c : τ)
    (pool' : κ → Prog ι₀ ρ₀ ε α) (owned : κ → List μ)
    (shown : κ → Option (List μ)) : Prop where
  stands : ∀ k, M.Stands B impl s.data (data c) (owned k) (shown k) (pool' k)
    (pool k)
  apart : ∀ j k m, m ∈ owned j → m ∈ owned k → j = k
  locks : ∀ m, s.held m = true ↔ held c m = true ∨ ∃ k, m ∈ owned k
  leaks : ∀ k, ∀ m ∈ owned k, held c m = true ↔
    ∃ leaked, shown k = some leaked ∧ m ∈ leaked
  part : ∀ p, (∀ k, shown k ≠ none → ∀ m ∈ owned k, p ≠ some m) →
    M.part p s.data = M.part p (data c)

variable {M B impl} {data : τ → σ} {held : τ → μ → Bool} {s : Locked μ σ}
  {pool : κ → Prog (Guarded μ ι) (Guarded.Answer ρ) ε α} {c : τ}
  {pool' : κ → Prog ι₀ ρ₀ ε α} {owned : κ → List μ}
  {shown : κ → Option (List μ)}

theorem Stands.congr {u u' t t' : σ} {L : List μ} {leaked : Option (List μ)}
    {p' : Prog ι₀ ρ₀ ε α} {p : Prog (Guarded μ ι) (Guarded.Answer ρ) ε α}
    (h : M.Stands B impl t u L leaked p' p) (ht : M.Knows L t t')
    (hu : ∀ m ∈ L, M.part (some m) u = M.part (some m) u') :
    M.Stands B impl t' u' L leaked p' p := by
  cases h with
  | out => exact .out _
  | before hbefore => exact .before (hbefore.congr ht)
  | after hafter => exact .after (hafter.congr ht.part hu)

theorem Stands.cases {t u : σ} {L : List μ} {leaked : Option (List μ)}
    {p' : Prog ι₀ ρ₀ ε α} {p : Prog (Guarded μ ι) (Guarded.Answer ρ) ε α}
    (h : M.Stands B impl t u L leaked p' p) :
    (L = [] ∧ leaked = none ∧ p = p'.refine impl) ∨
    (∃ i next q, leaked = none ∧ p' = .call i next ∧ M.Before B i L t q ∧
      p = q >>= fun r => (next r).refine impl) ∨
    (∃ (i : ι₀) (r : ρ₀ i) (next : ρ₀ i → Prog ι₀ ρ₀ ε α) (q : _)
      (leaks : List μ), leaked = some leaks ∧ p' = next r ∧
      M.After leaks r u L t q ∧ p = q >>= fun r => (next r).refine impl) := by
  cases h with
  | out => exact .inl ⟨rfl, rfl, rfl⟩
  | before hbefore => exact .inr (.inl ⟨_, _, _, rfl, rfl, hbefore, rfl⟩)
  | after hafter => exact .inr (.inr ⟨_, _, _, _, _, rfl, rfl, hafter, rfl⟩)

variable [DecidableEq κ]

theorem Reduces.update
    (h : M.Reduces B impl data held s pool c pool' owned shown)
    (s' : Locked μ σ) (c' : τ) (k : κ) {L : List μ} {leaked : Option (List μ)}
    {p' : Prog ι₀ ρ₀ ε α}
    {p : Prog (Guarded μ ι) (Guarded.Answer ρ) ε α}
    (hk : M.Stands B impl s'.data (data c') L leaked p' p)
    (hothers : ∀ j, j ≠ k → M.Knows (owned j) s.data s'.data ∧
      ∀ m ∈ owned j, M.part (some m) (data c) = M.part (some m) (data c') ∧
        (held c' m = true ↔ held c m = true))
    (hapart : ∀ j, j ≠ k → ∀ m ∈ L, m ∉ owned j)
    (hheld : ∀ m, s'.held m = true ↔
      held c' m = true ∨ m ∈ L ∨ ∃ j, j ≠ k ∧ m ∈ owned j)
    (hleaked : ∀ m ∈ L, held c' m = true ↔
      ∃ leaks, leaked = some leaks ∧ m ∈ leaks)
    (hpart : ∀ q, (leaked ≠ none → ∀ m ∈ L, q ≠ some m) →
      (∀ j, j ≠ k → shown j ≠ none → ∀ m ∈ owned j, q ≠ some m) →
      M.part q s'.data = M.part q (data c')) :
    M.Reduces B impl data held s' (Function.update pool k p) c'
      (Function.update pool' k p') (Function.update owned k L)
      (Function.update shown k leaked) where
  stands j := by
    by_cases hj : j = k
    · subst hj
      simpa only [Function.update_self] using hk
    · simp only [Function.update_of_ne hj]
      exact (h.stands j).congr (hothers j hj).1 fun m hm =>
        ((hothers j hj).2 m hm).1
  apart i j m hi hj := by
    by_cases hik : i = k <;> by_cases hjk : j = k
    · rw [hik, hjk]
    · subst hik
      rw [Function.update_self] at hi
      rw [Function.update_of_ne hjk] at hj
      exact absurd hj (hapart j hjk m hi)
    · subst hjk
      rw [Function.update_self] at hj
      rw [Function.update_of_ne hik] at hi
      exact absurd hi (hapart i hik m hj)
    · rw [Function.update_of_ne hik] at hi
      rw [Function.update_of_ne hjk] at hj
      exact h.apart i j m hi hj
  locks m := by
    rw [hheld m, Function.exists_update_iff owned fun _ L => m ∈ L]
  leaks j := by
    by_cases hj : j = k
    · subst hj
      simpa only [Function.update_self] using hleaked
    · simp only [Function.update_of_ne hj]
      intro m hm
      rw [((hothers j hj).2 m hm).2]
      exact h.leaks j m hm
  part q hq := by
    refine hpart q ?_ fun j hj => ?_
    · simpa only [Function.update_self] using hq k
    · simpa only [Function.update_of_ne hj] using hq j

theorem Reduces.locks_apart
    (h : M.Reduces B impl data held s pool c pool' owned shown) (k : κ)
    (m : μ) :
    s.held m = true ↔
      held c m = true ∨ m ∈ owned k ∨ ∃ j, j ≠ k ∧ m ∈ owned j := by
  rw [h.locks m]
  constructor
  · rintro (hheld | ⟨j, hj⟩)
    · exact .inl hheld
    · by_cases hjk : j = k
      · exact .inr (.inl (hjk ▸ hj))
      · exact .inr (.inr ⟨j, hjk, hj⟩)
  · rintro (hheld | hk | ⟨j, -, hj⟩)
    · exact .inl hheld
    · exact .inr ⟨k, hk⟩
    · exact .inr ⟨j, hj⟩

theorem Reduces.settle
    (h : M.Reduces B impl data held s pool c pool' owned shown) {k : κ}
    (hshown : shown k = some (owned k)) (hp : pool k = (pool' k).refine impl)
    (hend : ∀ m ∈ owned k, M.part (some m) s.data = M.part (some m) (data c)) :
    M.Reduces B impl data held s pool c pool' (Function.update owned k [])
      (Function.update shown k none) := by
  have hstands :
      M.Stands B impl s.data (data c) [] none (pool' k) (pool k) := by
    rw [hp]
    exact .out (pool' k)
  have hmoved := h.update s c k hstands
    (fun j _ => ⟨.refl _ _, fun m _ => ⟨rfl, Iff.rfl⟩⟩) (by simp)
    (fun m => ?_) (by simp) (fun q _ hothers => ?_)
  · rwa [Function.update_eq_self, Function.update_eq_self] at hmoved
  · rw [h.locks_apart k m]
    have hleaked : m ∈ owned k → held c m = true := fun hm =>
      (h.leaks k m hm).mpr ⟨_, hshown, hm⟩
    simp only [List.not_mem_nil, false_or]
    tauto
  · by_cases hq : ∃ m ∈ owned k, q = some m
    · obtain ⟨m, hm, rfl⟩ := hq
      exact hend m hm
    · refine h.part q fun j hj m hm hqm => ?_
      by_cases hjk : j = k
      · subst hjk
        exact hq ⟨m, hm, hqm⟩
      · exact hothers j hjk hj m hm hqm

theorem Before.isCall {L : List μ} {t : σ} {i : ι₀}
    {q : Prog (Guarded μ ι) (Guarded.Answer ρ) ε (ρ₀ i)}
    (h : M.Before B i L t q) : ∃ g next, q = .call g next := by
  cases h with
  | lock _ => exact ⟨_, _, rfl⟩
  | look _ _ => exact ⟨_, _, rfl⟩
  | shows _ _ _ => exact ⟨_, _, rfl⟩

theorem Reduces.at_call
    (h : M.Reduces B impl data held s pool c pool' owned shown)
    (himpl : ∀ i t, M.Before B i [] t (impl i)) {k : κ} {g : Guarded μ ι}
    {next : g.Answer ρ → Prog (Guarded μ ι) (Guarded.Answer ρ) ε α}
    (hk : pool k = .call g next) :
    ∃ owned shown, M.Reduces B impl data held s pool c pool' owned shown ∧
      ((∃ i q rest, shown k = none ∧ pool' k = .call i rest ∧
        M.Before B i (owned k) s.data (.call g q) ∧
        next = fun r => q r >>= fun r => (rest r).refine impl) ∨
      (∃ (i : ι₀) (r : ρ₀ i) (rest : ρ₀ i → Prog ι₀ ρ₀ ε α) (q : _)
        (leaked : List μ), shown k = some leaked ∧ pool' k = rest r ∧
        M.After leaked r (data c) (owned k) s.data (.call g q) ∧
        next = fun r => q r >>= fun r => (rest r).refine impl)) := by
  -- a thread between two sections begins the next one
  have hout : ∀ owned shown,
      M.Reduces B impl data held s pool c pool' owned shown → owned k = [] →
      shown k = none → pool k = (pool' k).refine impl →
      ∃ i q rest, shown k = none ∧ pool' k = .call i rest ∧
        M.Before B i (owned k) s.data (.call g q) ∧
        next = fun r => q r >>= fun r => (rest r).refine impl := by
    intro owned shown _ howned hshown hp
    cases hp' : pool' k with
    | done a =>
        rw [hk, hp'] at hp
        contradiction
    | fail e =>
        rw [hk, hp'] at hp
        contradiction
    | call i rest =>
        have hbefore := himpl i s.data
        obtain ⟨g', q, hq⟩ := hbefore.isCall
        rw [hk, hp', Prog.refine, hq] at hp
        cases hp
        exact ⟨i, q, rest, hshown, rfl, howned ▸ hq ▸ hbefore, rfl⟩
  rcases (h.stands k).cases with
    ⟨howned, hshown, hp⟩ | ⟨i, rest, q, hshown, hp', hbefore, hp⟩ |
      ⟨i, r, rest, q, leaked, hshown, hp', hafter, hp⟩
  · exact ⟨owned, shown, h, .inl (hout owned shown h howned hshown hp)⟩
  · obtain ⟨g', q', rfl⟩ := hbefore.isCall
    rw [hk] at hp
    cases hp
    exact ⟨owned, shown, h, .inl ⟨i, q', rest, hshown, hp', hbefore, rfl⟩⟩
  · cases q with
    | done a =>
        obtain ⟨rfl, rfl, hend⟩ : leaked = owned k ∧ a = r ∧
            ∀ m ∈ owned k, M.part (some m) s.data =
              M.part (some m) (data c) := by
          generalize owned k = L at hafter
          cases hafter with
          | done hend => exact ⟨rfl, rfl, hend⟩
        have hpool : pool k = (pool' k).refine impl := by rw [hp, hp']; rfl
        refine ⟨_, _, h.settle hshown hpool hend, .inl ?_⟩
        exact hout _ _ (h.settle hshown hpool hend) (Function.update_self ..)
          (Function.update_self ..) hpool
    | fail e =>
        rw [hk] at hp
        contradiction
    | call g' q' =>
        rw [hk] at hp
        cases hp
        exact ⟨owned, shown, h,
          .inr ⟨i, r, rest, q', leaked, hshown, hp', hafter, rfl⟩⟩

/-! ### One turn -/

section Turns

variable {k : κ} {i : ι₀} {rest : ρ₀ i → Prog ι₀ ρ₀ ε α}

omit [DecidableEq κ] in
/-- What a thread that has not shown owns is not held at the level above, and it
cannot tell the two levels apart. -/
theorem Reduces.knows
    (h : M.Reduces B impl data held s pool c pool' owned shown)
    (hshown : shown k = none) : M.Knows (owned k) s.data (data c) := by
  have hapart : ∀ j, shown j ≠ none → ∀ m ∈ owned j, m ∉ owned k := by
    intro j hj m hm hmk
    obtain rfl := h.apart j k m hm hmk
    exact hj hshown
  refine ⟨fun m hm => h.part _ fun j hj m' hm' hmm' => ?_, fun _ => ?_⟩
  · obtain rfl := Option.some.inj hmm'
    exact hapart j hj m hm' hm
  · exact M.steady_rest _ _ (h.part none fun _ _ _ _ => by simp)

omit [DecidableEq κ] in
theorem Reduces.not_held
    (h : M.Reduces B impl data held s pool c pool' owned shown)
    (hshown : shown k = none) {m : μ} (hm : m ∈ owned k) :
    held c m = false := by
  refine Bool.eq_false_iff.mpr fun hheld => ?_
  obtain ⟨leaked, hsome, -⟩ := (h.leaks k m hm).mp hheld
  rw [hshown] at hsome
  contradiction

theorem Reduces.lock [DecidableEq μ]
    (h : M.Reduces B impl data held s pool c pool' owned shown)
    (hshown : shown k = none) (hp' : pool' k = .call i rest) {m : μ}
    {q : Unit → Prog (Guarded μ ι) (Guarded.Answer ρ) ε (ρ₀ i)}
    (hbefore : M.Before B i (owned k) s.data (.call (.lock m) q))
    (hfree : s.held m = false) :
    M.Reduces B impl data held
      { s with held := Function.update s.held m true }
      (Function.update pool k (q () >>= fun r => (rest r).refine impl)) c pool'
      (Function.update owned k (m :: owned k))
      (Function.update shown k none) := by
  have hnot : ¬ (held c m = true ∨ ∃ j, m ∈ owned j) := by
    rw [← h.locks m, hfree]
    simp
  have hstands : M.Stands B impl s.data (data c) (m :: owned k) none (pool' k)
      (q () >>= fun r => (rest r).refine impl) := by
    rw [hp']
    cases hbefore with
    | lock hnext => exact .before (hnext s.data (.refl _ _))
  have hmoved := h.update { s with held := Function.update s.held m true } c k
    hstands (fun j _ => ⟨.refl _ _, fun m _ => ⟨rfl, Iff.rfl⟩⟩) ?_
    (fun m' => ?_) ?_ (fun q _ hothers => h.part q fun j hj => ?_)
  · rwa [Function.update_eq_self] at hmoved
  · intro j hj m' hm' hother
    rcases List.mem_cons.mp hm' with rfl | hm'
    · exact hnot (.inr ⟨j, hother⟩)
    · exact hj (h.apart j k m' hother hm')
  · change Function.update s.held m true m' = true ↔ _
    by_cases hm' : m' = m
    · subst hm'
      simp
    · rw [Function.update_of_ne hm', h.locks_apart k m']
      simp [hm']
  · intro m' hm'
    rcases List.mem_cons.mp hm' with rfl | hm'
    · simp [Bool.eq_false_iff.mpr fun hheld => hnot (.inl hheld)]
    · simp [h.not_held hshown hm']
  · refine hothers j ?_ hj
    rintro rfl
    exact hj hshown

theorem Reduces.look
    (h : M.Reduces B impl data held s pool c pool' owned shown)
    (hshown : shown k = none) (hp' : pool' k = .call i rest)
    {q : Prog (Guarded μ ι) (Guarded.Answer ρ) ε (ρ₀ i)}
    (hbefore : M.Before B i (owned k) s.data q) :
    M.Reduces B impl data held s
      (Function.update pool k (q >>= fun r => (rest r).refine impl)) c pool'
      owned shown := by
  have hstands : M.Stands B impl s.data (data c) (owned k) (shown k) (pool' k)
      (q >>= fun r => (rest r).refine impl) := by
    rw [hp', hshown]
    exact .before hbefore
  have hmoved := h.update s c k hstands
    (fun j _ => ⟨.refl _ _, fun m _ => ⟨rfl, Iff.rfl⟩⟩)
    (fun j hj m hm hother => hj (h.apart j k m hother hm))
    (h.locks_apart k) (h.leaks k) (fun p hk hothers => h.part p fun j hj => ?_)
  · rwa [Function.update_eq_self, Function.update_eq_self,
      Function.update_eq_self] at hmoved
  · by_cases hjk : j = k
    · subst hjk
      exact hk hj
    · exact hothers j hjk hj

theorem Reduces.shows {exec' : (i : ι₀) → Effect τ ε (ρ₀ i)}
    (hruns : RunsAtOnce B exec' data held)
    (h : M.Reduces B impl data held s pool c pool' owned shown)
    (hshown : shown k = none) (hp' : pool' k = .call i rest) {j : ι}
    {q : ρ j → Prog (Guarded μ ι) (Guarded.Answer ρ) ε (ρ₀ i)}
    (hscope : ∀ m, M.scope j = some m → m ∈ owned k)
    (hneeds : ∀ m ∈ B.needs i, m ∈ owned k)
    (hshows : ∀ t, M.Knows (owned k) s.data t →
      M.ShowsAt B i (owned k) j q t)
    (hquiet : ∀ L, M.Relies L → (∀ m ∈ L, s.held m = true) →
      M.steady (act j s.data).2 = M.steady s.data) :
    ∃ c' r leaked, exec' i c = .ok (r, c') ∧
      M.Reduces B impl data held { s with data := (act j s.data).2 }
        (Function.update pool k
          (q (act j s.data).1 >>= fun r => (rest r).refine impl)) c'
        (Function.update pool' k (rest r)) owned
        (Function.update shown k (some leaked)) := by
  have hknows := h.knows hshown
  obtain ⟨helsewhere, hleaks, hafter⟩ := hshows (data c) hknows
  obtain ⟨c', hexec, hdata, hheld⟩ :=
    hruns i c fun m hm => h.not_held hshown (hneeds m hm)
  -- no part that an access of the thread concerns differs between the levels
  have hpart : ∀ p, (∀ m, p = some m → m ∈ owned k) →
      M.part p s.data = M.part p (data c) := by
    intro p hp
    cases p with
    | none => exact h.part none fun _ _ _ _ => by simp
    | some m => exact hknows.part m (hp m rfl)
  have hsame := hpart (M.scope j) hscope
  have hdistinct : ∀ l, l ≠ k → ∀ m ∈ owned l, some m ≠ M.scope j := by
    intro l hl m hm hmj
    exact hl (h.apart l k m hm (hscope m hmj.symm))
  refine ⟨c', _, B.leaks i (data c), hexec, ?_⟩
  have hstands : M.Stands B impl (act j s.data).2 (data c') (owned k)
      (some (B.leaks i (data c))) (rest (B.body i (data c)).1)
      (q (act j s.data).1 >>= fun r => (rest r).refine impl) := by
    rw [M.answer j s.data (data c) hsame, hdata]
    refine .after (hafter.congr (fun m hm => ?_) fun _ _ => rfl)
    exact (part_access (hknows.part m hm) hsame).symm
  have hmoved := h.update { s with data := (act j s.data).2 } c' k hstands
    (fun l hl => ⟨⟨fun m hm => ?_, fun hrelies => ?_⟩, fun m hm => ⟨?_, ?_⟩⟩)
    (fun l hl m hm hother => hl (h.apart l k m hother hm)) (fun m => ?_)
    (fun m hm => ?_) (fun p hk hothers => ?_)
  · rwa [Function.update_eq_self] at hmoved
  · exact (M.frame j s.data _ (hdistinct l hl m hm)).symm
  · refine (hquiet (owned l) hrelies fun m hm => ?_).symm
    exact (h.locks m).mpr (.inr ⟨l, hm⟩)
  · rw [hdata, ← helsewhere (some m) fun m' hm' hmm' => ?_]
    · exact (M.frame j (data c) _ (hdistinct l hl m hm)).symm
    · obtain rfl := Option.some.inj hmm'
      exact hl (h.apart l k m hm hm')
  · rw [hheld m]
    refine or_iff_left fun hm' => ?_
    exact hl (h.apart l k m hm (hleaks m hm'))
  · have := hleaks m
    rw [h.locks_apart k m, hheld m]
    tauto
  · have hfree := h.not_held hshown hm
    rw [hheld m]
    simp [hfree]
  · rw [hdata, ← helsewhere p (hk (by simp))]
    refine part_access (h.part p fun l hl => ?_) hsame
    refine hothers l ?_ hl
    rintro rfl
    exact hl hshown

theorem Reduces.write
    (h : M.Reduces B impl data held s pool c pool' owned shown) {r : ρ₀ i}
    {leaked : List μ} (hshown : shown k = some leaked) (hp' : pool' k = rest r)
    {j : ι} {m : μ} (hscope : M.scope j = some m) (hm : m ∈ owned k)
    {q : Prog (Guarded μ ι) (Guarded.Answer ρ) ε (ρ₀ i)}
    (hafter : M.After leaked r (data c) (owned k) (act j s.data).2 q) :
    M.Reduces B impl data held { s with data := (act j s.data).2 }
      (Function.update pool k (q >>= fun r => (rest r).refine impl)) c pool'
      owned shown := by
  have hstands : M.Stands B impl (act j s.data).2 (data c) (owned k) (shown k)
      (pool' k) (q >>= fun r => (rest r).refine impl) := by
    rw [hp', hshown]
    exact .after hafter
  have hframe : ∀ p, (∀ m ∈ owned k, p ≠ some m) →
      M.part p (act j s.data).2 = M.part p s.data := fun p hp =>
    M.frame j s.data p (hscope ▸ hp m hm)
  have hmoved := h.update { s with data := (act j s.data).2 } c k hstands
    (fun l hl => ⟨⟨fun m' hm' => ?_, fun _ => ?_⟩, fun _ _ => ⟨rfl, Iff.rfl⟩⟩)
    (fun l hl m hm hother => hl (h.apart l k m hother hm)) (h.locks_apart k)
    (h.leaks k) (fun p hk hothers => ?_)
  · rwa [Function.update_eq_self, Function.update_eq_self,
      Function.update_eq_self] at hmoved
  · refine (hframe _ fun m'' hm'' heq => ?_).symm
    obtain rfl := Option.some.inj heq
    exact hl (h.apart l k m' hm' hm'')
  · exact (steady_access hscope s.data).symm
  · have hp := hk (by simp [hshown])
    refine (hframe p hp).trans (h.part p fun l hl => ?_)
    by_cases hlk : l = k
    · subst hlk
      exact hp
    · exact hothers l hlk hl

theorem Reduces.unlock [DecidableEq μ]
    (h : M.Reduces B impl data held s pool c pool' owned shown) {r : ρ₀ i}
    {leaked L : List μ} (hshown : shown k = some leaked)
    (hp' : pool' k = rest r) {m : μ} (howned : owned k = m :: L)
    (hnot : m ∉ L) (hleak : m ∉ leaked)
    (hpart : M.part (some m) s.data = M.part (some m) (data c))
    {q : Prog (Guarded μ ι) (Guarded.Answer ρ) ε (ρ₀ i)}
    (hafter : M.After leaked r (data c) L s.data q) :
    M.Reduces B impl data held
      { s with held := Function.update s.held m false }
      (Function.update pool k (q >>= fun r => (rest r).refine impl)) c pool'
      (Function.update owned k L) shown := by
  have hmem : ∀ m', m' ∈ owned k ↔ m' = m ∨ m' ∈ L := fun m' => by
    rw [howned, List.mem_cons]
  have hstands : M.Stands B impl s.data (data c) L (shown k) (pool' k)
      (q >>= fun r => (rest r).refine impl) := by
    rw [hp', hshown]
    exact .after hafter
  have hmoved := h.update { s with held := Function.update s.held m false } c k
    hstands (fun j _ => ⟨.refl _ _, fun m _ => ⟨rfl, Iff.rfl⟩⟩)
    (fun l hl m' hm' hother => ?_) (fun m' => ?_) (fun m' hm' => ?_)
    (fun p hk hothers => ?_)
  · rwa [Function.update_eq_self, Function.update_eq_self] at hmoved
  · exact hl (h.apart l k m' hother ((hmem m').mpr (.inr hm')))
  · change Function.update s.held m false m' = true ↔ _
    by_cases hm' : m' = m
    · subst hm'
      have hk := (hmem m').mpr (.inl rfl)
      have hfree : held c m' ≠ true := fun hheld => by
        obtain ⟨leaked', hsome, hin⟩ := (h.leaks k m' hk).mp hheld
        obtain rfl := Option.some.inj (hshown.symm.trans hsome)
        exact hleak hin
      have hothers : ¬ ∃ j, j ≠ k ∧ m' ∈ owned j := fun ⟨j, hj, hmj⟩ =>
        hj (h.apart j k m' hmj hk)
      simp [hfree, hnot, hothers]
    · rw [Function.update_of_ne hm', h.locks_apart k m', hmem m']
      simp [hm']
  · exact h.leaks k m' ((hmem m').mpr (.inr hm'))
  · by_cases hp : p = some m
    · rw [hp]
      exact hpart
    · refine h.part p fun l hl => ?_
      by_cases hlk : l = k
      · subst hlk
        intro m' hm' hpm'
        rcases (hmem m').mp hm' with rfl | hm'
        · exact hp hpm'
        · exact hk hl m' hm' hpm'
      · exact hothers l hlk hl

end Turns

/-! ### Every run -/

def Quiet (M : Memory μ act) (s : Locked μ σ) (j : ι) : Prop :=
  ∀ L, M.Relies L → (∀ m ∈ L, s.held m = true) →
    M.steady (act j s.data).2 = M.steady s.data

/-- A turn is a turn of the level above, or nothing. -/
theorem Reduces.turn [DecidableEq μ] {exec' : (i : ι₀) → Effect τ ε (ρ₀ i)}
    {waits : ε} (hruns : RunsAtOnce B exec' data held)
    (himpl : ∀ i t, M.Before B i [] t (impl i))
    (h : M.Reduces B impl data held s pool c pool' owned shown) {k : κ}
    {g : Guarded μ ι} {r : g.Answer ρ} {s' : Locked μ σ}
    {next : g.Answer ρ → Prog (Guarded μ ι) (Guarded.Answer ρ) ε α}
    (hk : pool k = .call g next) (hexec : g.exec act waits s = .ok (r, s'))
    (hquiet : ∀ j, g = .access j → M.Quiet s j) :
    ∃ owned shown,
      M.Reduces B impl data held s' (Function.update pool k (next r)) c pool'
        owned shown ∨
      ∃ i rest r' c', pool' k = .call i rest ∧ exec' i c = .ok (r', c') ∧
        M.Reduces B impl data held s' (Function.update pool k (next r)) c'
          (Function.update pool' k (rest r')) owned shown := by
  obtain ⟨owned, shown, h, hcall⟩ := h.at_call himpl hk
  rcases hcall with ⟨i, q, rest, hshown, hp', hbefore, rfl⟩ |
    ⟨i, r', rest, q, leaked, hshown, hp', hafter, rfl⟩
  · cases g with
    | lock m =>
        dsimp only [Guarded.exec] at hexec
        split at hexec
        · contradiction
        · have hfree : s.held m = false := Bool.eq_false_iff.mpr ‹_›
          cases hexec
          exact ⟨_, _, .inl (h.lock hshown hp' hbefore hfree)⟩
    | unlock m => cases hbefore
    | access j =>
        cases hexec
        cases hbefore with
        | look hlook hrest =>
            have hsame := hlook s.data (.refl _ _)
            have hstate : (act j s.data).2 = s.data := congrArg Prod.snd hsame
            refine ⟨owned, shown, .inl ?_⟩
            rw [hstate]
            exact h.look hshown hp' hrest
        | shows hscope hneeds hshows =>
            obtain ⟨c', r', leaked, hexec', hmoved⟩ :=
              h.shows hruns hshown hp' hscope hneeds hshows (hquiet j rfl)
            exact ⟨_, _, .inr ⟨i, rest, r', c', hp', hexec', hmoved⟩⟩
  · generalize howned : owned k = L at hafter
    cases hafter with
    | write hscope hm hrest =>
        subst howned
        cases hexec
        exact ⟨_, _, .inl (h.write hshown hp' hscope hm hrest)⟩
    | unlock hnot hleak hpart hrest =>
        cases hexec
        exact ⟨_, _, .inl (h.unlock hshown hp' howned hnot hleak hpart hrest)⟩

omit [DecidableEq κ] in
theorem Stands.stopped {t u : σ} {L : List μ} {leaked : Option (List μ)}
    {p' : Prog ι₀ ρ₀ ε α} {stop : Except ε α}
    (himpl : ∀ i t, M.Before B i [] t (impl i))
    (h : M.Stands B impl t u L leaked p' (.ofExcept stop)) :
    p' = .ofExcept stop := by
  have hout : ∀ p : Prog ι₀ ρ₀ ε α, p.refine impl = .ofExcept stop →
      p = .ofExcept stop := by
    intro p hp
    cases p with
    | done b => cases stop <;> cases hp; rfl
    | fail e => cases stop <;> cases hp; rfl
    | call i next =>
        obtain ⟨g, q, hq⟩ := (himpl i t).isCall
        rw [Prog.refine, hq] at hp
        cases stop <;> contradiction
  rcases h.cases with ⟨-, -, hp⟩ | ⟨i, next, q, -, -, hbefore, hp⟩ |
    ⟨i, r, next, q, leaked, -, rfl, hafter, hp⟩
  · exact hout p' hp.symm
  · obtain ⟨g, q', rfl⟩ := hbefore.isCall
    cases stop <;> contradiction
  · cases hafter with
    | done _ => exact hout (next r) hp.symm
    | write _ _ _ => cases stop <;> contradiction
    | unlock _ _ _ _ => cases stop <;> contradiction

omit [DecidableEq κ] in
theorem Reduces.stopped
    (h : M.Reduces B impl data held s pool c pool' owned shown)
    (hstop : ∀ k g next, pool k ≠ .call g next) :
    data c = s.data ∧ ∀ m, held c m = s.held m := by
  have hend : ∀ k, ∀ m ∈ owned k, shown k = some (owned k) ∧
      M.part (some m) s.data = M.part (some m) (data c) := by
    intro k m hm
    rcases (h.stands k).cases with
      ⟨howned, -, -⟩ | ⟨i, next, q, -, -, hbefore, hp⟩ |
        ⟨i, r, next, q, leaked, hshown, -, hafter, hp⟩
    · rw [howned] at hm
      contradiction
    · obtain ⟨g, q', rfl⟩ := hbefore.isCall
      exact absurd hp (hstop k _ _)
    · generalize owned k = L at hm hafter
      cases hafter with
      | done hpart => exact ⟨hshown, hpart m hm⟩
      | write _ _ _ => exact absurd hp (hstop k _ _)
      | unlock _ _ _ _ => exact absurd hp (hstop k _ _)
  constructor
  · refine M.ext _ _ fun p => ?_
    by_cases hp : ∃ k, ∃ m ∈ owned k, p = some m
    · obtain ⟨k, m, hm, rfl⟩ := hp
      exact (hend k m hm).2.symm
    · exact (h.part p fun k _ m hm hpm => hp ⟨k, m, hm, hpm⟩).symm
  · refine fun m => Bool.eq_iff_iff.mpr ?_
    rw [h.locks m]
    refine ⟨.inl, ?_⟩
    rintro (hheld | ⟨k, hk⟩)
    · exact hheld
    · exact (h.leaks k m hk).mpr ⟨owned k, (hend k m hk).1, hk⟩

/-- However the accesses are interleaved, the sections might as well have been
taken at once, each at a turn of its client. -/
theorem atomic [DecidableEq μ] {exec' : (i : ι₀) → Effect τ ε (ρ₀ i)}
    {waits : ε}
    {ok : Prog.Admits (Guarded μ ι) (Guarded.Answer ρ) ε α (Locked μ σ) κ}
    {pool₀ : κ → Prog ι₀ ρ₀ ε α} {s₀ : Locked μ σ} {c₀ : τ}
    {history :
      List (Prog.Event (Guarded μ ι) (Guarded.Answer ρ) (Locked μ σ) κ)}
    (hruns : RunsAtOnce B exec' data held)
    (himpl : ∀ i t, M.Before B i [] t (impl i))
    (hok : ∀ pool s k j, ok pool s k (.access j) → M.Quiet s j)
    (hdata : s₀.data = data c₀) (hheld : ∀ m, s₀.held m = held c₀ m)
    (h : Prog.Concurrent (Guarded.exec act waits) ok
      (fun k => (pool₀ k).refine impl) s₀ history pool s) :
    ∃ history' pool' c,
      Prog.Concurrent exec' (fun _ _ _ _ => True) pool₀ c₀ history' pool' c ∧
      (history'.map Prog.Event.client).Sublist
        (history.map Prog.Event.client) ∧
      (∀ k stop, pool k = .ofExcept stop → pool' k = .ofExcept stop) ∧
      ((∀ k g next, pool k ≠ .call g next) →
        data c = s.data ∧ ∀ m, held c m = s.held m) := by
  suffices hrun : ∃ history' pool' c owned shown,
      Prog.Concurrent exec' (fun _ _ _ _ => True) pool₀ c₀ history' pool' c ∧
      (history'.map Prog.Event.client).Sublist
        (history.map Prog.Event.client) ∧
      M.Reduces B impl data held s pool c pool' owned shown by
    obtain ⟨history', pool', c, owned, shown, hrun, hturns, hreduces⟩ := hrun
    refine ⟨history', pool', c, hrun, hturns, fun k stop hk => ?_,
      hreduces.stopped⟩
    have hstands := hreduces.stands k
    rw [hk] at hstands
    exact hstands.stopped himpl
  induction h with
  | start =>
      refine ⟨[], pool₀, c₀, fun _ => [], fun _ => none, .start, .refl _, ?_⟩
      refine ⟨fun k => .out (pool₀ k), by simp, fun m => ?_, by simp, ?_⟩
      · simp [hheld m]
      · exact fun p _ => by rw [hdata]
  | @step history pool s s' k g next r _ hk hadmits hexec ih =>
      obtain ⟨history', pool', c, owned, shown, hrun, hturns, hreduces⟩ := ih
      obtain ⟨owned, shown, hmoved | ⟨i, rest, r', c', hp', hexec', hmoved⟩⟩ :=
        hreduces.turn hruns himpl hk hexec fun j hg =>
          hok pool s k j (hg ▸ hadmits)
      · exact ⟨history', pool', c, owned, shown, hrun, hturns.cons _, hmoved⟩
      · exact ⟨_, _, c', owned, shown, .step hrun hp' trivial hexec',
          hturns.cons_cons _, hmoved⟩

end Threads

end Memory

end Memstashed.Foundation
