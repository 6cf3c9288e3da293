import Memstashed.Dblru.Recency
import Memstashed.Scmd.Runs

/-!
# Which keys are evicted in runs of commands
-/

namespace Memstashed.Scmd

open Memstashed.Foundation
open Memstashed.Dblru

abbrev LoggedState := State × List TimestampToKeyStruct

def Request.serveLogged (env : Env) (q : Request) :
    Effect LoggedState Fault Response :=
  Prog.run (Prog.traced (Op.exec env) accesses)
    (cmdProcessCommand q.times q.input)

theorem serveLogged_erases (env : Env) (q : Request) (u : LoggedState) :
    (q.serveLogged env u).map (fun result => (result.1, result.2.1)) =
      q.serve env u.1 :=
  Prog.run_traced (Op.exec env) _ u

def Request.AlongLogged (env : Env)
    (Q : List TimestampToKeyStruct → Store → Op → Prop) (u : LoggedState)
    (q : Request) : Prop :=
  Prog.Along (Prog.traced (Op.exec env) accesses)
    (fun op u _ => Q u.2 u.1.store op) (cmdProcessCommand q.times q.input) u

instance (env : Env) (Q : List TimestampToKeyStruct → Store → Op → Prop)
    [∀ log s op, Decidable (Q log s op)] (u : LoggedState) (q : Request) :
    Decidable (q.AlongLogged env Q u) :=
  inferInstanceAs (Decidable (Prog.Along _ _ _ _))

structure InOrderOfUse (u : LoggedState) : Prop where
  locks : u.1.locks = Locks.free
  recency : Recency u.1.store.gTimestamp u.2 u.1.store

theorem inOrderOfUse_call {env : Env} (op : Op) (u : LoggedState)
    (a : op.Answer) (u' : LoggedState) (hu : InOrderOfUse u)
    (hkeeps : KeepsRecency u.1.store op)
    (hcall : Prog.traced (Op.exec env) accesses op u = .ok (a, u')) :
    InOrderOfUse u' := by
  obtain ⟨⟨s, locks⟩, log⟩ := u
  obtain ⟨hlocks, hrecency⟩ := hu
  simp only at hlocks hrecency
  subst hlocks
  obtain ⟨hexec, hlog⟩ := Prog.traced_ok _ hcall
  obtain ⟨t, log'⟩ := u'
  simp only at hexec hlog
  subst hlog
  exact ⟨(Op.exec_cases hexec).1, recency_step hexec hkeeps hrecency⟩

/--
In every run of commands whose calls keep the order of accesses, every call of
`removeLRUElement` that takes out a live key takes one of the two live keys of
the bucket that were accessed least recently, the one with the longer value.
-/
theorem eviction_follows_recency (env : Env) (u : LoggedState)
    (h : Reached (Request.serveLogged env)
      (fun u q => q.AlongLogged env (fun _ s op => KeepsRecency s op) u)
      (State.init, []) u) (q : Request)
    (hq : q.AlongLogged env (fun _ s op => KeepsRecency s op) u) :
    q.AlongLogged env (EvictsOldest env) u := by
  have hu : InOrderOfUse u := by
    refine Reached.invariant ⟨rfl, recency_init⟩ ?_ h
    intro u q resp u' hu hok hrun
    exact hok.run_invariant InOrderOfUse inOrderOfUse_call hu hrun
  refine hq.mono InOrderOfUse inOrderOfUse_call ?_ hu
  intro op u hu _
  exact hu.recency.evictsOldest op

/-- With three values in one bucket, none of them read since it was stored, a
fourth takes the place of the oldest two. -/
theorem eviction_follows_recency_fourSets :
    ∃ u, Reached (Request.serveLogged Env.x86)
        (fun u q => q.AlongLogged Env.x86 (fun _ s op => KeepsRecency s op) u)
        (State.init, []) u ∧
      Request.AlongLogged Env.x86 (EvictsOldest Env.x86) u
        ⟨.const 1003,
          ascii "set W 0 60 2200\r\n" ++ List.replicate 2200 65 ++ crlf⟩ := by
  obtain ⟨u, hreached, hobserved⟩ := exists_reached_of_replay
    (Request.serveLogged Env.x86)
    (fun u q => q.AlongLogged Env.x86 (fun _ s op => KeepsRecency s op) u)
    (State.init, [])
    [⟨.const 1000,
        ascii "set a 0 60 2200\r\n" ++ List.replicate 2200 65 ++ crlf⟩,
      ⟨.const 1001,
        ascii "set k 0 60 2200\r\n" ++ List.replicate 2200 65 ++ crlf⟩,
      ⟨.const 1002,
        ascii "set u 0 60 2200\r\n" ++ List.replicate 2200 65 ++ crlf⟩]
    (fun u => decide (Request.AlongLogged Env.x86
      (fun _ s op => KeepsRecency s op) u
      ⟨.const 1003,
        ascii "set W 0 60 2200\r\n" ++ List.replicate 2200 65 ++ crlf⟩)) true
    (by decide +kernel)
  exact ⟨u, hreached, eviction_follows_recency Env.x86 u hreached _
    (of_decide_eq_true hobserved)⟩

/-! ## An overwritten key -/

/-- The first eviction made for a `set` takes out `key`, and two other live keys
of the bucket were accessed before it. -/
def TakesNewer (env : Env) (key older older' : KeyType)
    (log : List TimestampToKeyStruct) (s : Store) : Op → Prop
  | .insert clock own flags _ value _ =>
      let drawn := insertDrawn env clock.now s
      let h := getHashTblNbrFromKey own
      let now := clock.evictions 0
      insertAction (insertFits env own flags (insertToken env clock.now s) value)
          h h drawn = .evict h ∧
        (∀ k ∈ [key, older, older'], getHashTblNbrFromKey k = h ∧
          ∃ it ∈ drawn.entry k, ¬ Dead drawn now it) ∧
        ((removeSection now h drawn).2.entry key).isNone = true ∧
        older ≠ older' ∧
        lastAccess older log < lastAccess key log ∧
        lastAccess older' log < lastAccess key log
  | _ => False

instance (env : Env) (key older older' : KeyType)
    (log : List TimestampToKeyStruct) (s : Store) (op : Op) :
    Decidable (TakesNewer env key older older' log s op) :=
  match op with
  | .insert .. => inferInstanceAs (Decidable (_ ∧ _))
  | .add .. => inferInstanceAs (Decidable False)
  | .get .. => inferInstanceAs (Decidable False)
  | .delete .. => inferInstanceAs (Decidable False)
  | .setFlushAll .. => inferInstanceAs (Decidable False)
  | .handleFlushAll .. => inferInstanceAs (Decidable False)

theorem not_takesNewer_of_evictsOldest {env : Env} {key older older' : KeyType}
    {log : List TimestampToKeyStruct} {s : Store} {op : Op}
    (h : EvictsOldest env log s op) :
    ¬ TakesNewer env key older older' log s op := by
  intro hnewer
  cases op with
  | insert clock own flags casUniq value expiry =>
      obtain ⟨haction, hlive, hnone, hne, hlt, hlt'⟩ := hnewer
      have hliveIn : ∀ k ∈ [key, older, older'], ∃ it,
          LiveIn (insertDrawn env clock.now s) (clock.evictions 0)
            (getHashTblNbrFromKey own) k it := by
        intro k hk
        obtain ⟨hhome, it, hentry, hdead⟩ := hlive k hk
        exact ⟨it, hhome, hentry, hdead⟩
      obtain ⟨it, hkey⟩ := hliveIn key (by simp)
      obtain ⟨itOlder, holder⟩ := hliveIn older (by simp)
      obtain ⟨itOlder', holder'⟩ := hliveIn older' (by simp)
      have hneKey : older ≠ key := fun heq => absurd hlt (heq ▸ lt_irrefl _)
      obtain ⟨other, itOther, -, -, -, holdest⟩ :=
        h _ _ _ (.here haction rfl) key it hkey ⟨older, itOlder, holder, hneKey⟩
          (Option.isNone_iff_eq_none.mp hnone)
      -- one of the two is neither the evicted key nor the other one
      rcases holdest older itOlder holder with heq | rfl | ⟨hgt, -⟩
      · exact hneKey heq
      · rcases holdest older' itOlder' holder' with heq | heq | ⟨hgt, -⟩
        · exact absurd hlt' (heq ▸ lt_irrefl _)
        · exact hne heq.symm
        · exact absurd hgt (not_lt_of_gt hlt')
      · exact absurd hgt (not_lt_of_gt hlt)
  | _ => exact hnewer

/-- A key that was stored twice and read keeps the entry of its second store, and
is evicted before two keys that were not used since. -/
theorem eviction_takes_newest_after_overwrite :
    ¬ ∀ (env : Env) (u : LoggedState),
      Reached (Request.serveLogged env) (fun _ _ => True) (State.init, []) u →
        ∀ q : Request, q.AlongLogged env (EvictsOldest env) u := by
  intro hall
  obtain ⟨u, hreached, hobserved⟩ := exists_reached_of_replay
    (Request.serveLogged Env.x86) (fun _ _ => True) (State.init, [])
    [⟨.const 1000, ascii "set a 0 60 1\r\nv\r\n"⟩,
      ⟨.const 1001,
        ascii "set a 0 60 2200\r\n" ++ List.replicate 2200 65 ++ crlf⟩,
      ⟨.const 1002,
        ascii "set k 0 60 2100\r\n" ++ List.replicate 2100 65 ++ crlf⟩,
      ⟨.const 1003,
        ascii "set u 0 60 2100\r\n" ++ List.replicate 2100 65 ++ crlf⟩,
      ⟨.const 1004, ascii "get a\r\n"⟩]
    (fun u => decide (Request.AlongLogged Env.x86
      (fun log s op =>
        ¬ TakesNewer Env.x86 (ascii "a") (ascii "k") (ascii "u") log s op) u
      ⟨.const 1005,
        ascii "set W 0 60 2200\r\n" ++ List.replicate 2200 65 ++ crlf⟩)) false
    (by decide +kernel)
  refine of_decide_eq_false hobserved ?_
  refine (hall Env.x86 u hreached _).mono (fun _ => True)
    (fun _ _ _ _ _ _ _ => trivial) ?_ trivial
  intro op u _ hoperation
  exact not_takesNewer_of_evictsOldest hoperation

end Memstashed.Scmd
