import Memstashed.Dblru.Tokens
import Memstashed.Scmd.Runs

/-!
# What cas tokens detect

The history of one key in a run of commands: which tokens were read, which were
written, and with which ones a conditional store went through.  A token is stale
once the key has been written since it was read; two writes by the static
generator have different tokens, while a call of `dbAddElement` can repeat any
token that the key has had.
-/

namespace Memstashed.Scmd

open Memstashed.Foundation
open Memstashed.Dblru

/-! ## The history of a key -/

inductive Note where
  | read (token : Bytes)
  | swapped (token : Bytes)
  | wrote (m : Mark)
  deriving DecidableEq, Repr

def Note.mark? : Note → Option Mark
  | .wrote m => some m
  | _ => none

def marks (log : List Note) : List Mark := log.filterMap Note.mark?

def notes (key : KeyType) : (op : Op) → State → op.Answer → List Note
  | .get _ k, _, found =>
      match found with
      | none => []
      | some element => if k = key then [.read element.cas] else []
  | .insert clock k _ casUniq _ _, t, r =>
      if k = key ∧ r = .success then
        .wrote (.draw (nextDraw clock.now t.store).1
          (nextDraw clock.now t.store).2) ::
          (if casUniq = [] then [] else [.swapped casUniq])
      else []
  | .add clock k _ _ _ _, _, r =>
      if k = key ∧ r = .success then [.wrote (.add clock.now)] else []
  | _, _, _ => []

def serveNoting (env : Env) (key : KeyType) (q : Request) :
    Effect (State × List Note) Fault Response :=
  Prog.run (Prog.traced (Op.exec env) (notes key))
    (cmdProcessCommand q.times q.input)

theorem serveNoting_erases (env : Env) (key : KeyType) (q : Request)
    (u : State × List Note) :
    (serveNoting env key q u).map
        (fun result => (result.1, result.2.1)) =
      (cmdProcessCommand q.times q.input).run env u.1 :=
  Prog.run_traced (Op.exec env) _ u

/-- No conditional store has gone through with a token that was read before the
key was written again. -/
def NoStaleSwap (log : List Note) : Prop :=
  ∀ later between before earlier token m,
    log ≠ later ++ .swapped token ::
      (between ++ .wrote m :: (before ++ .read token :: earlier))

/-! ## Histories that make sense -/

def Consistent (env : Env) : List Note → Prop
  | [] => True
  | .wrote _ :: log => Consistent env log
  | .read token :: log =>
      (∃ m, (marks log).head? = some m ∧ token = m.token env) ∧
        Consistent env log
  | .swapped token :: log =>
      (∃ m, (marks log).head? = some m ∧ token = m.token env) ∧
        Consistent env log

section Histories

variable {env : Env}

theorem Consistent.tail (log' : List Note) {log : List Note}
    (h : Consistent env (log' ++ log)) : Consistent env log := by
  induction log' with
  | nil => exact h
  | cons note log' ih =>
      cases note with
      | wrote m => exact ih h
      | read token => exact ih h.2
      | swapped token => exact ih h.2

@[simp] theorem marks_append (log log' : List Note) :
    marks (log ++ log') = marks log ++ marks log' :=
  List.filterMap_append

@[simp] theorem marks_wrote (m : Mark) (log : List Note) :
    marks (.wrote m :: log) = m :: marks log := rfl

@[simp] theorem marks_read (token : Bytes) (log : List Note) :
    marks (.read token :: log) = marks log := rfl

@[simp] theorem marks_swapped (token : Bytes) (log : List Note) :
    marks (.swapped token :: log) = marks log := rfl

@[simp] theorem marks_nil : marks [] = [] := rfl

theorem Consistent.noStaleSwap {log : List Note} (h : Consistent env log)
    (hdistinct : (marks log).Pairwise fun a b => a.token env ≠ b.token env) :
    NoStaleSwap log := by
  rintro later between before earlier token m rfl
  obtain ⟨⟨a, ha, htoken⟩, hrest⟩ := h.tail later
  have hread : Consistent env (.read token :: earlier) := by
    apply Consistent.tail (between ++ .wrote m :: before)
    simpa using hrest
  obtain ⟨⟨b, hb, htoken'⟩, -⟩ := hread
  have hb' : b ∈ marks earlier := List.mem_of_mem_head? hb
  -- the swapped token is that of a write since the read
  have ha' : a ∈ marks between ++ m :: marks before := by
    cases hbetween : marks between with
    | nil =>
        simp only [marks_append, hbetween, List.nil_append, marks_wrote,
          List.head?_cons, Option.some.injEq] at ha
        simp [ha]
    | cons c rest =>
        simp only [marks_append, hbetween, List.cons_append,
          List.head?_cons, Option.some.injEq] at ha
        simp [ha]
  have hsplit : marks (later ++ .swapped token ::
      (between ++ .wrote m :: (before ++ .read token :: earlier))) =
      (marks later ++ (marks between ++ m :: marks before)) ++
        marks earlier := by
    simp
  rw [hsplit] at hdistinct
  exact (List.pairwise_append.mp hdistinct).2.2 a
    (List.mem_append_right _ ha') b hb' (htoken.symm.trans htoken')

end Histories

/-! ## The history of a run -/

/-- What the history of the key has to do with the store. -/
structure Tracked (env : Env) (key : KeyType) (s : Store) (log : List Note) :
    Prop where
  entry : ∀ it, s.entry key = some it →
    ∃ m, (marks log).head? = some m ∧ it.1.casUniq = m.token env
  consistent : Consistent env log
  drawn : ∀ seed n, .draw seed n ∈ marks log →
    ∃ count, s.generator = some (seed, count) ∧ n < count
  ordered : (marks log).Pairwise fun a b => ∀ seed m seed' n,
    a = .draw seed m → b = .draw seed' n → n < m

theorem tracked_init (env : Env) (key : KeyType) :
    Tracked env key Store.init [] := by
  refine ⟨?_, trivial, by simp, by simp⟩
  intro it hentry
  simp [Store.entry, Store.init] at hentry

section Steps

variable {env : Env} {key : KeyType} {s s' : Store} {op : Op} {r : RetStatus}
  {log : List Note}

theorem generator_mono (op : Op) {seed count : Nat}
    (h : s.generator = some (seed, count)) :
    ∃ count', op.generator s = some (seed, count') ∧ count ≤ count' := by
  cases op with
  | insert clock k flags casUniq value expiry =>
      exact ⟨count + 1, by simp [Op.generator, nextDraw, h], by omega⟩
  | _ => exact ⟨count, h, le_rfl⟩

theorem Tracked.drawn_step (h : Tracked env key s log)
    (hstep : StoreStep env s op r s') {seed n : Nat}
    (hmem : .draw seed n ∈ marks log) :
    ∃ count, s'.generator = some (seed, count) ∧ n < count := by
  obtain ⟨count, hgenerator, hlt⟩ := h.drawn seed n hmem
  obtain ⟨count', hgenerator', hle⟩ := generator_mono op hgenerator
  exact ⟨count', hstep.generator.trans hgenerator', by omega⟩

theorem entry_of_not_stored (hstep : StoreStep env s op r s')
    (hnot : ¬ op.stores r key) {it : MapEntry} (hentry : s'.entry key = some it) :
    ∃ old, s.entry key = some old ∧ old.1.casUniq = it.1.casUniq := by
  cases hstep.entryStep key with
  | kept hkept => exact ⟨it, hkept ▸ hentry, rfl⟩
  | dropped hnone => simp [hnone] at hentry
  | read now old hop hfound hlive hread =>
      rw [hread] at hentry
      cases hentry
      exact ⟨old, hfound, rfl⟩
  | delayed now expiry old hop hlater hfound hdelayed =>
      rw [hdelayed] at hentry
      cases hentry
      exact ⟨old, hfound, rfl⟩
  | written w s₁ hwrite hkey hr hwrote =>
      exact absurd ⟨hr, w, hwrite, hkey⟩ hnot

theorem Tracked.of_not_stored (h : Tracked env key s log)
    (hstep : StoreStep env s op r s') (hnot : ¬ op.stores r key) :
    Tracked env key s' log := by
  refine ⟨?_, h.consistent, fun _ _ hmem => h.drawn_step hstep hmem, h.ordered⟩
  intro it hentry
  obtain ⟨old, hold, hsame⟩ := entry_of_not_stored hstep hnot hentry
  rw [← hsame]
  exact h.entry old hold

theorem Tracked.of_stored {w : Write} {m : Mark} (swaps : List Note)
    (h : Tracked env key s (swaps ++ log)) (hstep : StoreStep env s op r s')
    (hwrite : op.write? = some w) (hkey : w.key = key)
    (hr : r = .success) (hm : op.mark? s = some m) :
    Tracked env key s' (.wrote m :: (swaps ++ log)) := by
  obtain ⟨s₁, hwrote⟩ := wrote_of_success hwrite hstep hr
  refine ⟨?_, h.consistent, ?_, ?_⟩
  · intro it hentry
    subst hkey
    rw [hwrote.entry] at hentry
    cases hentry
    refine ⟨m, rfl, ?_⟩
    rw [← Op.token_eq hm]
    cases s₁.entry w.key with
    | none => rfl
    | some old => rfl
  · intro seed n hmem
    rcases List.mem_cons.mp hmem with rfl | hmem
    · cases op with
      | insert clock k flags casUniq value expiry =>
          cases hm
          exact ⟨_, hstep.generator, Nat.lt_succ_self _⟩
      | add clock k flags casUniq value expiry => cases hm
      | _ => contradiction
    · exact h.drawn_step hstep hmem
  · refine List.pairwise_cons.mpr ⟨?_, h.ordered⟩
    rintro b hb seed n seed' n' rfl rfl
    obtain ⟨count, hgenerator, hlt⟩ := h.drawn seed' n' hb
    cases op with
    | insert clock k flags casUniq value expiry =>
        simp only [Op.mark?, nextDraw, hgenerator, Option.getD_some,
          Option.some.injEq, Mark.draw.injEq] at hm
        omega
    | add clock k flags casUniq value expiry => cases hm
    | _ => contradiction

theorem Tracked.read (h : Tracked env key s log) {now : Nat}
    {element : Element} (hget : (getStep now key s).1 = some element) :
    Tracked env key s (.read element.cas :: log) := by
  have hvisible : Visible s now key := getStep_isSome.mp (by simp [hget])
  obtain ⟨it, hentry, hlive⟩ := hvisible
  rw [getStep_live hentry hlive] at hget
  cases hget
  exact ⟨h.entry, ⟨h.entry it hentry, h.consistent⟩, h.drawn, h.ordered⟩

theorem Tracked.swapped (h : Tracked env key s log) {token : Bytes}
    {it : MapEntry} (hentry : s.entry key = some it)
    (htoken : it.1.casUniq = token) :
    Tracked env key s (.swapped token :: log) := by
  subst htoken
  exact ⟨h.entry, ⟨h.entry it hentry, h.consistent⟩, h.drawn, h.ordered⟩

theorem Tracked.step (h : Tracked env key s log) {a : op.Answer}
    (hexec : op.exec env ⟨s, Locks.free⟩ = .ok (a, ⟨s', Locks.free⟩)) :
    Tracked env key s' (notes key op ⟨s, Locks.free⟩ a ++ log) := by
  have hstep := (Op.exec_cases hexec).2
  cases op with
  | get now k =>
      have hother : ¬ Op.stores (.get now k) (Op.status (.get now k) a) key := by
        rintro ⟨-, w, hwrite, -⟩
        contradiction
      have hfound : dbGetElement now k ⟨s, Locks.free⟩ =
        .ok (a, ⟨s', Locks.free⟩) := hexec
      rw [dbGetElement_free] at hfound
      simp only [Except.ok.injEq, Prod.mk.injEq] at hfound
      cases a with
      | none => exact h.of_not_stored hstep hother
      | some element =>
          by_cases hk : k = key
          · subst hk
            simp only [notes, if_true]
            exact (h.read hfound.1).of_not_stored hstep hother
          · simp only [notes, hk, if_false]
            exact h.of_not_stored hstep hother
  | insert clock k flags casUniq value expiry =>
      by_cases hstored : k = key ∧ a = RetStatus.success
      · simp only [notes, hstored, and_self, if_true]
        obtain ⟨rfl, rfl⟩ := hstored
        refine Tracked.of_stored _ ?_ hstep rfl rfl rfl rfl
        by_cases hcas : casUniq = []
        · simpa [hcas] using h
        · obtain ⟨it, hentry, htoken⟩ := entry_of_swapped hcas hstep rfl
          simpa [hcas] using h.swapped hentry htoken
      · simp only [notes, hstored, if_false]
        refine h.of_not_stored hstep ?_
        rintro ⟨hr, w, hwrite, hkey⟩
        cases hwrite
        exact hstored ⟨hkey, hr⟩
  | add clock k flags casUniq value expiry =>
      by_cases hstored : k = key ∧ a = RetStatus.success
      · simp only [notes, hstored, and_self, if_true]
        obtain ⟨rfl, rfl⟩ := hstored
        exact Tracked.of_stored [] h hstep rfl rfl rfl rfl
      · simp only [notes, hstored, if_false]
        refine h.of_not_stored hstep ?_
        rintro ⟨hr, w, hwrite, hkey⟩
        cases hwrite
        exact hstored ⟨hkey, hr⟩
  | delete now k expiry =>
      refine h.of_not_stored hstep ?_
      rintro ⟨-, w, hwrite, -⟩
      contradiction
  | setFlushAll now expiry =>
      refine h.of_not_stored hstep ?_
      rintro ⟨-, w, hwrite, -⟩
      contradiction
  | handleFlushAll now =>
      refine h.of_not_stored hstep ?_
      rintro ⟨-, w, hwrite, -⟩
      contradiction

end Steps

theorem tracked_of_reached {env : Env} {key : KeyType}
    {ok : State × List Note → Request → Prop} {u : State × List Note}
    (h : Reached (serveNoting env key) ok (State.init, []) u) :
    u.1.locks = Locks.free ∧ Tracked env key u.1.store u.2 := by
  refine Reached.invariant
    (P := fun u => u.1.locks = Locks.free ∧ Tracked env key u.1.store u.2)
    ⟨rfl, tracked_init env key⟩ ?_ h
  intro u q resp u' hu _ hserve
  refine Prog.run_invariant _
    (fun u => u.1.locks = Locks.free ∧ Tracked env key u.1.store u.2) ?_ hu
    hserve
  rintro op ⟨⟨s, locks⟩, log⟩ a ⟨⟨s', locks'⟩, log'⟩ ⟨hlocks, htracked⟩ hcall
  obtain rfl : locks = Locks.free := hlocks
  obtain ⟨hexec, rfl⟩ := Prog.traced_ok _ hcall
  obtain rfl : locks' = Locks.free := (Op.exec_cases hexec).1
  exact ⟨rfl, htracked.step hexec⟩

/-! ## Tokens that differ -/

def Mark.isAdd : Mark → Bool
  | .add _ => true
  | .draw _ _ => false

/-- Of two writes of the key, one of them by `dbAddElement`, the tokens
differ. -/
def AddsApart (env : Env) (log : List Note) : Prop :=
  (marks log).Pairwise fun a b =>
    Mark.isAdd a = true ∨ Mark.isAdd b = true → a.token env ≠ b.token env

def DrawsApart (env : Env) (s : Store) : Prop :=
  ∀ seed count, s.generator = some (seed, count) →
    ∀ j, j < count → ∀ i, i < j →
      env.mt19937_64 seed i ≠ env.mt19937_64 seed j

theorem Tracked.distinct {env : Env} {key : KeyType} {s : Store}
    {log : List Note} (h : Tracked env key s log) (hadds : AddsApart env log)
    (hdraws : DrawsApart env s) :
    (marks log).Pairwise fun a b => a.token env ≠ b.token env := by
  refine (List.Pairwise.and_mem.mp (hadds.and h.ordered)).imp ?_
  rintro a b ⟨ha, hb, hapart, horder⟩
  cases a with
  | add second => exact hapart (.inl rfl)
  | draw seed n =>
      cases b with
      | add second => exact hapart (.inr rfl)
      | draw seed' n' =>
          obtain ⟨count, hgenerator, hlt⟩ := h.drawn seed n ha
          obtain ⟨count', hgenerator', -⟩ := h.drawn seed' n' hb
          rw [hgenerator] at hgenerator'
          cases hgenerator'
          have hless := horder seed n seed n' rfl rfl
          intro htoken
          exact hdraws seed count hgenerator n hlt n' hless
            (toDecimal_injective htoken).symm

/--
In every run of commands in which `dbAddElement` gives the key no token that
another write of the key has, a conditional store with a stale token does not
go through.
-/
theorem cas_detects_change (env : Env) (key : KeyType) (u : State × List Note)
    (hrun : Reached (serveNoting env key) (fun _ _ => True) (State.init, []) u)
    (hdraws : DrawsApart env u.1.store) (hadds : AddsApart env u.2) :
    NoStaleSwap u.2 := by
  have htracked := (tracked_of_reached hrun).2
  exact htracked.consistent.noStaleSwap (htracked.distinct hadds hdraws)

def firstToken : Bytes := addToken Env.x86 1000

/-- A token read between two `set` commands is refused. -/
theorem cas_detects_change_setSet :
    ∃ u, Reached (serveNoting Env.x86 (ascii "k")) (fun _ _ => True)
        (State.init, []) u ∧
      Note.read firstToken ∈ u.2 ∧ (marks u.2).length = 2 ∧
      NoStaleSwap u.2 := by
  obtain ⟨u, hreached, hobserved⟩ := exists_reached_of_replay
    (serveNoting Env.x86 (ascii "k")) (fun _ _ => True) (State.init, [])
    [⟨.const 1000, ascii "set k 0 0 1\r\nv\r\n"⟩,
      ⟨.const 1000, ascii "gets k\r\n"⟩,
      ⟨.const 1000, ascii "set k 0 0 1\r\nw\r\n"⟩,
      ⟨.const 1000, ascii "cas k 0 0 1 " ++ firstToken ++
        ascii "\r\nx\r\n"⟩]
    (fun u => (u.2, u.1.store.generator))
    ([.wrote (.draw 1000 1), .read firstToken, .wrote (.draw 1000 0)],
      some (1000, 3)) (by decide +kernel)
  obtain ⟨hlog, hgenerator⟩ := Prod.mk.inj hobserved
  refine ⟨u, hreached, by simp [hlog], by simp [hlog],
    cas_detects_change Env.x86 _ u hreached ?_ ?_⟩
  · intro seed count heq
    rw [hgenerator] at heq
    cases heq
    decide +kernel
  · rw [AddsApart, hlog]
    simp [Mark.isAdd]

/-- The key is added, read, deleted and added again in one second: the token is
the same, and the stale one goes through. -/
theorem cas_misses_readd :
    ¬ ∀ (env : Env) (key : KeyType) (u : State × List Note),
      Reached (serveNoting env key) (fun _ _ => True) (State.init, []) u →
      DrawsApart env u.1.store → NoStaleSwap u.2 := by
  intro hall
  obtain ⟨u, hreached, hobserved⟩ := exists_reached_of_replay
    (serveNoting Env.x86 (ascii "k")) (fun _ _ => True) (State.init, [])
    [⟨.const 1000, ascii "add k 0 0 1\r\nv\r\n"⟩,
      ⟨.const 1000, ascii "gets k\r\n"⟩,
      ⟨.const 1000, ascii "delete k\r\n"⟩,
      ⟨.const 1000, ascii "add k 0 0 1\r\nw\r\n"⟩,
      ⟨.const 1000, ascii "cas k 0 0 1 " ++ firstToken ++
        ascii "\r\nx\r\n"⟩]
    (fun u => (u.2, u.1.store.generator))
    ([.wrote (.draw 1000 0), .swapped firstToken, .wrote (.add 1000),
      .read firstToken, .wrote (.add 1000)], some (1000, 1))
    (by decide +kernel)
  obtain ⟨hlog, hgenerator⟩ := Prod.mk.inj hobserved
  refine hall Env.x86 _ u hreached ?_ [.wrote (.draw 1000 0)] [] []
    [.wrote (.add 1000)] firstToken (.add 1000) hlog
  intro seed count heq
  rw [hgenerator] at heq
  cases heq
  decide

end Memstashed.Scmd
