import Memstashed.Dblru.Limit
import Memstashed.Dblru.Refunds
import Memstashed.Scmd.Runs

/-!
# Runs of commands against the memory limit
-/

namespace Memstashed.Scmd

open Memstashed.Foundation
open Memstashed.Dblru

/-! ## The limit is respected -/

/-- In every run of commands whose calls all keep the counter covered, the counter
is under the limit after every command. -/
theorem storedSize_lt_limit (env : Env) (hlimit : 0 < env.gServMemLimit)
    (t : State)
    (h : Reached (Request.serve env)
      (fun t q => q.Along env (fun s op _ => StaysCovered env s op) t)
      State.init t) :
    t.store.gStoredSize < env.gServMemLimit :=
  (served_invariant (underLimit_init hlimit)
    (fun _ _ _ _ hs hok hstep => underLimit_step hs hok hstep) h).2.limit

theorem storedSize_lt_limit_addGetSet :
    ∃ t, Reached (Request.serve Env.x86)
        (fun t q => q.Along Env.x86 (fun s op _ => StaysCovered Env.x86 s op) t)
        State.init t ∧
      t.store.gStoredSize < 7000 ∧ 0 < t.store.gStoredSize := by
  obtain ⟨t, hreached, hsize⟩ := exists_reached_of_replay
    (Request.serve Env.x86)
    (fun t q => q.Along Env.x86 (fun s op _ => StaysCovered Env.x86 s op) t)
    State.init
    [⟨.const 1000, ascii "add k 0 0 1\r\nv\r\n"⟩,
      ⟨.const 1001, ascii "get k\r\n"⟩,
      ⟨.const 1002, ascii "set k 0 0 4\r\nword\r\n"⟩]
    (fun t => decide (0 < t.store.gStoredSize)) true (by decide +kernel)
  exact ⟨t, hreached, storedSize_lt_limit Env.x86 (by decide) t hreached,
    of_decide_eq_true hsize⟩

/-- An `add` whose value fits and whose flags and token no longer do. -/
theorem storedSize_exceeds_limit_on_add :
    ¬ ∀ (env : Env) (t : State), 0 < env.gServMemLimit →
      Reached (Request.serve env) (fun _ _ => True) State.init t →
        t.store.gStoredSize < env.gServMemLimit := by
  intro hall
  obtain ⟨t, hreached, hsize⟩ := exists_reached_of_replay
    (Request.serve Env.x86) (fun _ _ => True) State.init
    [⟨.const 1000,
        ascii "set k 0 0 3500\r\n" ++ List.replicate 3500 65 ++ crlf⟩,
      ⟨.const 1000,
        ascii "add j 0 0 3440\r\n" ++ List.replicate 3440 65 ++ crlf⟩]
    (fun t => t.store.gStoredSize) 7008 (by decide +kernel)
  have hless := hall Env.x86 t (by decide) hreached
  rw [hsize] at hless
  exact absurd hless (by decide)

/-! ## Refused for want of memory -/

/-- A call that reports a full memory was asked to store an item that would not
fit the empty cache. -/
def HonestlyFull (env : Env) (s : Store) (op : Op)
    (result : Except Fault (op.Answer × State)) : Prop :=
  (∃ a ∈ result.toOption, op.status a.1 = .memoryFull) →
    env.gServMemLimit ≤ op.charge env s

instance (env : Env) (s : Store) (op : Op)
    (result : Except Fault (op.Answer × State)) :
    Decidable (HonestlyFull env s op result) :=
  inferInstanceAs (Decidable (_ → _))

/-- In every run of commands whose items all fit beside what the counter would
keep if everything stored were given back, memory is reported full only for
items that are too large for the empty cache. -/
theorem memoryFull_only_if_too_large (env : Env) (t : State)
    (h : Reached (Request.serve env)
      (fun t q => q.Along env (fun s op _ => FitsEmptied env s op) t)
      State.init t) (q : Request)
    (hq : q.Along env (fun s op _ => FitsEmptied env s op) t) :
    q.Along env (HonestlyFull env) t := by
  refine served_along (P := fun _ => True) trivial (fun _ _ _ _ _ _ _ => trivial)
    ?_ h hq
  rintro s op - hfits ⟨⟨a, t'⟩, hresult, hfull⟩
  have hexec : op.exec env ⟨s, Locks.free⟩ = .ok (a, t') := by
    cases hexec : op.exec env ⟨s, Locks.free⟩ with
    | error e => simp [hexec, Except.toOption] at hresult
    | ok result => simpa [hexec, Except.toOption] using hresult
  obtain ⟨hwrite, hcharge⟩ := (Op.exec_cases hexec).2.memoryFull hfull
  rcases hfits with hnone | hroom | hlarge
  · rw [Option.isNone_iff_eq_none] at hnone
    simp [hnone] at hwrite
  · omega
  · exact hlarge

/-- A key is stored and deleted, which leaves most of its charge behind; there is
still room for another. -/
theorem memoryFull_only_if_too_large_setDelete :
    ∃ t, Reached (Request.serve Env.x86)
        (fun t q => q.Along Env.x86 (fun s op _ => FitsEmptied Env.x86 s op) t)
        State.init t ∧
      0 < residual t.store ∧
      Request.Along Env.x86 (HonestlyFull Env.x86) t
        ⟨.const 1002, ascii "add j 0 0 1\r\nw\r\n"⟩ := by
  obtain ⟨t, hreached, hobserved⟩ := exists_reached_of_replay
    (Request.serve Env.x86)
    (fun t q => q.Along Env.x86 (fun s op _ => FitsEmptied Env.x86 s op) t)
    State.init
    [⟨.const 1000, ascii "set k 0 0 1\r\nv\r\n"⟩,
      ⟨.const 1001, ascii "delete k\r\n"⟩]
    (fun t => decide (0 < residual t.store ∧ Request.Along Env.x86
      (fun s op _ => FitsEmptied Env.x86 s op) t
      ⟨.const 1002, ascii "add j 0 0 1\r\nw\r\n"⟩)) true (by decide +kernel)
  obtain ⟨hleft, hfits⟩ := of_decide_eq_true hobserved
  exact ⟨t, hreached, hleft,
    memoryFull_only_if_too_large Env.x86 t hreached _ hfits⟩

/-- An item that was stored and deleted is refused when it comes again. -/
theorem memoryFull_after_delete :
    ¬ ∀ (env : Env) (t : State),
      Reached (Request.serve env) (fun _ _ => True) State.init t →
        ∀ q : Request, q.Along env (HonestlyFull env) t := by
  intro hall
  obtain ⟨t, hreached, hobserved⟩ := exists_reached_of_replay
    (Request.serve Env.x86) (fun _ _ => True) State.init
    [⟨.const 1000,
        ascii "set k 0 0 3500\r\n" ++ List.replicate 3500 65 ++ crlf⟩,
      ⟨.const 1000, ascii "delete k\r\n"⟩]
    (fun t => decide (Request.Along Env.x86 (HonestlyFull Env.x86) t
      ⟨.const 1000,
        ascii "set k 0 0 3500\r\n" ++ List.replicate 3500 65 ++ crlf⟩)) false
    (by decide +kernel)
  exact of_decide_eq_false hobserved (hall Env.x86 t hreached _)

end Memstashed.Scmd
