import Memstashed.Dblru.Atomic
import Memstashed.Scmd.Contents

/-!
# Requests of several clients, one access at a time

Commands are not atomic: a client can come between the two calls of another
one's `append`.  But their calls are, down to the single access: the clients
might as well run their handlers on the cache, each call of `dblru.cpp` at once.
-/

namespace Memstashed.Scmd

open Memstashed.Foundation
open Memstashed.Dblru

def Request.accesses (env : Env) (fuel : Nat) (q : Request) :
    Accesses Response :=
  (q.sections env fuel).refine Accesses.ofSection

/-- The requests are served at the same time, their accesses in any order in
which a flush is published while nobody holds both mutexes of a bucket. -/
abbrev ServesAccesses {κ : Type} [DecidableEq κ] (env : Env) (fuel : Nat)
    (requests : κ → Request) (s₀ : Locked Mutex Store)
    (history : AccessTurns κ) (pool : κ → Accesses Response)
    (s : Locked Mutex Store) : Prop :=
  Prog.Concurrent (Access.exec env) FlushesApart
    (fun k => (requests k).accesses env fuel) s₀ history pool s

abbrev ServesCalls {κ : Type} [DecidableEq κ] (env : Env) (fuel : Nat)
    (requests : κ → Request) (c₀ : Cache) (turns : List κ)
    (pool : κ → Command Response) (c : Cache) : Prop :=
  Prog.Atomic Cache.Loses
    (fun op a c c' => Cache.Does env c (opCall fuel op) (opReturned op a) c')
    (fun k => cmdProcessCommand (requests k).times (requests k).input) c₀ turns
    pool c

theorem opSections_ne_done {env : Env} {fuel : Nat} (op : Op)
    (a : op.Answer) : opSections env fuel op ≠ .done a := by
  cases op <;> exact fun h => nomatch h

def accessesOf {α : Type} (env : Env) (fuel : Nat) (p : Command α) :
    Accesses α :=
  (p.refine (opSections env fuel)).refine Accesses.ofSection

abbrev RunsCalls {κ α : Type} [DecidableEq κ] (env : Env) (fuel : Nat)
    (p : κ → Command α) (c₀ : Cache) (turns : List κ) (pool : κ → Command α)
    (c : Cache) : Prop :=
  Prog.Atomic Cache.Loses
    (fun op a c c' => Cache.Does env c (opCall fuel op) (opReturned op a) c')
    p c₀ turns pool c

section Programs

variable {κ α : Type} [DecidableEq κ] {env : Env} {fuel : Nat}
  {p : κ → Command α}

theorem runsCalls_of_sections {t₀ t : State} {turns : Turns κ}
    {pool : κ → Sections α} {ok : Prog.Admits Section Section.Answer
      Fault α State κ}
    (h : Prog.Concurrent (Section.exec env) ok
      (fun k => (p k).refine (opSections env fuel)) t₀ turns pool t) :
    ∃ calls pool', RunsCalls env fuel p t₀.store.cache calls pool'
        t.store.cache ∧
      calls.Sublist (turns.map Prog.Event.client) ∧
      ∀ k a, pool k = .done a → pool' k = .done a :=
  Prog.Concurrent.atomic (fun t => t.store.cache) opSections_ne_done
    (shows_opSections env fuel)
    (fun _ _ _ _ hi hexec => cache_hidden hi (Section.apply_of_exec hexec))
    (fun _ _ _ _ _ _ htakes hexec =>
      does_of_takes htakes (Section.apply_of_exec hexec))
    (fun _ _ c hfree => does_of_free hfree c) h

theorem runsCalls_of_accesses {t₀ : State} {history : AccessTurns κ}
    {pool : κ → Accesses α} {s : Locked Mutex Store}
    (h : Prog.Concurrent (Access.exec env) FlushesApart
      (fun k => accessesOf env fuel (p k)) ⟨t₀.store, t₀.locks.held⟩ history
      pool s) :
    ∃ calls pool' c, RunsCalls env fuel p t₀.store.cache calls pool' c ∧
      calls.Sublist (history.map Prog.Event.client) ∧
      (∀ k a, pool k = .done a → pool' k = .done a) ∧
      ((∀ k g next, pool k ≠ .call g next) → c = s.data.cache) := by
  obtain ⟨turns, sections, t, hrun, hturns, hstopped, hrest⟩ :=
    Memory.atomic (runsAtOnce env) before_ofSection
      (fun _ _ _ _ => quiet_of_flushesApart) rfl (fun _ => rfl) h
  obtain ⟨calls, pool', hruns, hcalls, hresults⟩ :=
    runsCalls_of_sections hrun
  exact ⟨calls, pool', t.store.cache, hruns, hcalls.trans hturns,
    fun k a hk => hresults k a (hstopped k (.ok a) hk),
    fun hstop => by rw [(hrest hstop).1]⟩

end Programs

section Clients

variable {κ : Type} [DecidableEq κ] {env : Env} {fuel : Nat}
  {requests : κ → Request}

/-- However the accesses of the commands are interleaved, the replies are those
of the handlers on a cache that may lose entries at any time, with each call taken
at once at an access of its client. -/
theorem requests_served {t₀ : State} {history : AccessTurns κ}
    {pool : κ → Accesses Response} {s : Locked Mutex Store}
    (h : ServesAccesses env fuel requests ⟨t₀.store, t₀.locks.held⟩ history
      pool s) :
    ∃ calls pool' c, ServesCalls env fuel requests t₀.store.cache calls pool'
        c ∧
      calls.Sublist (history.map Prog.Event.client) ∧
      (∀ k resp, pool k = .done resp → pool' k = .done resp) ∧
      ((∀ k g next, pool k ≠ .call g next) → c = s.data.cache) :=
  runsCalls_of_accesses h

end Clients

def storeAndLookup : Bool → Request
  | false => ⟨.const 1000, ascii "set k 0 0 1\r\nx\r\n"⟩
  | true => ⟨.const 1000, ascii "get k\r\n"⟩

/-- The lookup begins first and finds what is stored meanwhile. -/
theorem requests_served_lookup :
    ∃ (history : AccessTurns Bool) (pool : Bool → Accesses Response)
      (calls : List Bool) (pool' : Bool → Command Response) (c : Cache),
      ServesCalls Env.x86 12 storeAndLookup Store.init.cache calls pool' c ∧
      calls.Sublist (history.map Prog.Event.client) ∧
      pool true = .done ⟨0, ascii "VALUE k 0 1\r\nx\r\nEND\r\n"⟩ ∧
      pool' true = .done ⟨0, ascii "VALUE k 0 1\r\nx\r\nEND\r\n"⟩ := by
  obtain ⟨history, pool, s, h, hresult⟩ := Prog.exists_concurrent_of_turns
    (Access.exec Env.x86) FlushesApart
    (fun k => (storeAndLookup k).accesses Env.x86 12)
    ⟨State.init.store, State.init.locks.held⟩
    ([true, false, false, false, false, true, false, false, false, true, false,
      true, false, true, false, true, false] ++ List.replicate 5 true)
    (fun _ pool _ => (pool true).result? =
      some ⟨0, ascii "VALUE k 0 1\r\nx\r\nEND\r\n"⟩)
    (by decide +kernel)
  obtain ⟨calls, pool', c, hserves, hcalls, hreplies, -⟩ := requests_served h
  have hdone := Prog.eq_done_of_result? hresult
  exact ⟨history, pool, calls, pool', c, hserves, hcalls, hdone,
    hreplies true _ hdone⟩

end Memstashed.Scmd
