import Memstashed.Dblru.KeyView
import Memstashed.Foundation.Interleave
import Memstashed.Scmd.Runs

/-!
# Commands of several clients on one key

The section under `gKeyToValueMutex` of each call is one step, and the clients
take their steps in any order.  A command that reads the key and then stores it
lets go of the mutex in between; if no other client changes the key there, the
commands are atomic.
-/

namespace Memstashed.Scmd

open Memstashed.Foundation
open Memstashed.Dblru

def Word.worksOnKey : Word → Bool
  | .incr => true
  | .decr => true
  | .append => true
  | .prepend => true
  | .replace => true
  | .touch => true
  | .set => true
  | .delete => true
  | _ => false

def Word.key? (times : Times) (input : Bytes) : Word → Option KeyType
  | .set | .replace =>
      (cmdProcessCommon times.parse input false false).toOption.map
        fun (_, store) => store.key
  | .append | .prepend =>
      (extendRequest times.parse input).toOption.map fun (_, store) => store.key
  | .incr | .decr => (counterRequest input).toOption.map fun (key, _) => key
  | .touch => (touchRequest input).toOption.map fun (key, _) => key
  | .delete => (deleteRequest input).toOption.map fun (key, _) => key
  | _ => none

structure Client where
  word : Word
  times : Times
  input : Bytes

def Client.program (c : Client) : Command Response :=
  c.word.process c.times c.input

def Client.key? (c : Client) : Option KeyType := c.word.key? c.times c.input

/-! ## The shape of the commands -/

inductive Brief : Command Response → Prop
  | done (resp : Response) : Brief (.done resp)
  | fail (e : Fault) : Brief (.fail e)
  | call {op : Op} {next : op.Answer → Command Response} :
      (∀ r, ∃ resp, next r = .done resp) → Brief (.call op next)

/-- One call at most, or a read, which is the last call if it finds nothing,
with one call at most after it. -/
inductive ReadsFirst : Command Response → Prop
  | brief {p : Command Response} : Brief p → ReadsFirst p
  | read {now : Nat} {key : KeyType}
      {next : Option Element → Command Response} :
      (∃ resp, next none = .done resp) →
      (∀ element, Brief (next (some element))) →
      ReadsFirst (.call (.get now key) next)

section Shapes

theorem Brief.atMost {p : Command Response} (h : Brief p) : p.AtMost 1 := by
  cases h with
  | done resp => exact .done 1 resp
  | fail e => exact .fail 1 e
  | call hnext =>
      refine .call fun r => ?_
      obtain ⟨resp, hresp⟩ := hnext r
      rw [hresp]
      exact .done 0 resp

theorem ReadsFirst.atMost {p : Command Response} (h : ReadsFirst p) :
    p.AtMost 2 := by
  cases h with
  | brief hbrief => exact hbrief.atMost.mono (by omega)
  | read hnone hsome =>
      refine .call fun found => ?_
      cases found with
      | none =>
          obtain ⟨resp, hresp⟩ := hnone
          rw [hresp]
          exact .done 1 resp
      | some element => exact (hsome element).atMost

theorem Brief.actsLast {p : Command Response} (h : Brief p) {σ : Type}
    (exec : (op : Op) → Effect σ Fault op.Answer) : p.ActsLast exec := by
  cases h with
  | done resp => exact .done resp
  | fail e => exact .fail e
  | call hnext =>
      refine .call (fun s r s' _ => .inr ?_) fun r => ?_
      · exact Prog.isDone_iff.mpr (hnext r)
      · obtain ⟨resp, hresp⟩ := hnext r
        rw [hresp]
        exact .done resp

theorem ReadsFirst.actsLast {p : Command Response} (h : ReadsFirst p)
    (env : Env) : p.ActsLast (KeyView.exec env) := by
  cases h with
  | brief hbrief => exact hbrief.actsLast _
  | @read now key next hnone hsome =>
      refine .call ?_ fun found => ?_
      · intro v found v' hget
        cases found with
        | none => exact .inr (Prog.isDone_iff.mpr hnone)
        | some element =>
            refine .inl ?_
            have hread : KeyView.get now v = (some element, v') :=
              Except.ok.inj hget
            unfold KeyView.get at hread
            split at hread
            · cases hread
            · split at hread
              · cases hread
              · cases hread
                rfl
      · cases found with
        | none =>
            obtain ⟨resp, hresp⟩ := hnone
            rw [hresp]
            exact .done resp
        | some element => exact (hsome element).actsLast _

theorem readsFirst_parsed {α : Type} {request : Parse α}
    {act : α → Command Response} (h : ∀ fields, ReadsFirst (act fields)) :
    ReadsFirst (parsed request act) := by
  cases request with
  | ok fields => exact h fields
  | error stop =>
      cases stop with
      | reply output => exact .brief (.done _)
      | exception e => exact .brief (.fail _)

theorem readsFirst_storage {request : Parse (Int × StorageStruct)}
    {act : StorageStruct → Command Response}
    (h : ∀ store, ReadsFirst (act store)) : ReadsFirst (storage request act) := by
  apply readsFirst_parsed
  intro ⟨ret, store⟩
  simp only
  split
  · exact .brief (.done _)
  · exact h store

theorem brief_insertAndAnswer (times : Times) (key flags value : Bytes)
    (expiry : Nat) (noreply : Bool) (output : Bytes) :
    Brief (insertAndAnswer times key flags value expiry noreply output) := by
  refine .call fun r => ?_
  exact ⟨_, (apply_ite Prog.done _ _ _).symm⟩

theorem brief_uncaughtStoul {text : Bytes} {next : Nat → Command Response}
    (h : ∀ n, Brief (next n)) : Brief (uncaughtStoul text >>= next) := by
  unfold uncaughtStoul
  split
  · exact h _
  · exact .fail _

variable (times : Times) (input : Bytes)

theorem readsFirst_extend (join : Bytes → Bytes → Bytes) :
    ReadsFirst (cmdProcessExtend join times input) := by
  apply readsFirst_storage
  intro store
  exact .read ⟨_, rfl⟩ fun element => brief_insertAndAnswer ..

theorem readsFirst_counter (combine : Nat → Nat → Nat) :
    ReadsFirst (cmdProcessCounter combine times input) := by
  apply readsFirst_parsed
  intro ⟨key, value, noreply⟩
  refine .read ⟨_, rfl⟩ fun element => ?_
  apply brief_uncaughtStoul
  intro inputValue
  apply brief_uncaughtStoul
  intro oldValue
  split
  · exact .done _
  · exact brief_insertAndAnswer ..

theorem readsFirst_process {w : Word} (hw : w.worksOnKey = true) :
    ReadsFirst (w.process times input) := by
  cases w with
  | set =>
      rw [Word.process, cmdProcessSet]
      refine readsFirst_storage fun store => ?_
      exact .brief (brief_insertAndAnswer ..)
  | replace =>
      rw [Word.process, cmdProcessReplace]
      refine readsFirst_storage fun store => ?_
      exact .read ⟨_, rfl⟩ fun element => brief_insertAndAnswer ..
  | append => exact readsFirst_extend times input fun value data => value ++ data
  | prepend => exact readsFirst_extend times input fun value data => data ++ value
  | delete =>
      refine readsFirst_parsed fun fields => .brief (.call fun r => ?_)
      exact ⟨_, (apply_ite Prog.done _ _ _).symm⟩
  | incr =>
      unfold Word.process cmdProcessIncr
      exact readsFirst_counter times input _
  | decr =>
      unfold Word.process cmdProcessDecr
      exact readsFirst_counter times input _
  | touch =>
      refine readsFirst_parsed fun fields => ?_
      refine .read ⟨_, rfl⟩ fun element => .call fun r => ?_
      exact ⟨_, (apply_ite Prog.done _ _ _).symm⟩
  | _ => contradiction

end Shapes

/-! ## The key of the commands -/

section Keys

variable (times : Times) (input : Bytes) {key : KeyType}

theorem onKey_insertAndAnswer (flags value : Bytes) (expiry : Nat)
    (noreply : Bool) (output : Bytes) :
    Prog.Calls (OnKey key)
      (insertAndAnswer times key flags value expiry noreply output) :=
  calls_insertAndAnswer times (.insert _ _ _ _ _)

theorem onKey_extend (join : Bytes → Bytes → Bytes)
    (hkey : ∀ key' ∈ Word.key? times input .append, key' = key) :
    Prog.Calls (OnKey key) (cmdProcessExtend join times input) := by
  apply calls_storage_of
  intro ret store hrequest
  obtain rfl := hkey store.key (by simp [Word.key?, hrequest, Except.toOption])
  refine .call (.get _) fun found => ?_
  cases found with
  | none => exact .done _
  | some element => exact onKey_insertAndAnswer ..

theorem onKey_counter (combine : Nat → Nat → Nat)
    (hkey : ∀ key' ∈ Word.key? times input .incr, key' = key) :
    Prog.Calls (OnKey key) (cmdProcessCounter combine times input) := by
  apply calls_parsed_of
  intro ⟨key', value, noreply⟩ hrequest
  obtain rfl := hkey key' (by simp [Word.key?, hrequest, Except.toOption])
  refine .call (.get _) fun found => ?_
  cases found with
  | none => exact .done _
  | some element =>
      apply calls_uncaughtStoul
      intro inputValue
      apply calls_uncaughtStoul
      intro oldValue
      exact calls_ite (.done _) (onKey_insertAndAnswer ..)

theorem onKey_process {w : Word} (hw : w.worksOnKey = true)
    (hkey : ∀ key' ∈ w.key? times input, key' = key) :
    Prog.Calls (OnKey key) (w.process times input) := by
  cases w with
  | set =>
      rw [Word.process, cmdProcessSet]
      refine calls_storage_of fun ret store hrequest => ?_
      obtain rfl :=
        hkey store.key (by simp [Word.key?, hrequest, Except.toOption])
      exact onKey_insertAndAnswer ..
  | replace =>
      rw [Word.process, cmdProcessReplace]
      refine calls_storage_of fun ret store hrequest => ?_
      obtain rfl :=
        hkey store.key (by simp [Word.key?, hrequest, Except.toOption])
      refine .call (.get _) fun found => ?_
      cases found with
      | none => exact .done _
      | some element => exact onKey_insertAndAnswer ..
  | append => exact onKey_extend times input (fun value data => value ++ data) hkey
  | prepend => exact onKey_extend times input (fun value data => data ++ value) hkey
  | delete =>
      refine calls_parsed_of fun request hrequest => ?_
      obtain rfl :=
        hkey request.1 (by simp [Word.key?, hrequest, Except.toOption])
      exact .call (.delete _) fun r => calls_ite (.done _) (.done _)
  | incr =>
      unfold Word.process cmdProcessIncr
      exact onKey_counter times input _ hkey
  | decr =>
      unfold Word.process cmdProcessDecr
      exact onKey_counter times input _ hkey
  | touch =>
      refine calls_parsed_of fun request hrequest => ?_
      obtain rfl :=
        hkey request.1 (by simp [Word.key?, hrequest, Except.toOption])
      refine .call (.get _) fun found => ?_
      cases found with
      | none => exact .done _
      | some element =>
          exact .call (.insert _ _ _ _ _) fun r =>
            calls_ite (.done _) (.done _)
  | _ => contradiction

end Keys

/-! ## Turns -/

/-- A section that leaves the key as it is: a read of a live or a missing key, a
delete of a dead or a missing one. -/
def LeavesKey (s : Store) : Op → Prop
  | .get now key => ∀ it ∈ s.entry key, ¬ Dead s now it
  | .delete now key _ => ∀ it ∈ s.entry key, Dead s now it
  | _ => False

instance (s : Store) : (op : Op) → Decidable (LeavesKey s op)
  | .get now key =>
      inferInstanceAs (Decidable (∀ it ∈ s.entry key, ¬ Dead s now it))
  | .delete now key _ =>
      inferInstanceAs (Decidable (∀ it ∈ s.entry key, Dead s now it))
  | .insert _ _ _ _ _ _ => isFalse id
  | .add _ _ _ _ _ _ => isFalse id
  | .setFlushAll _ _ => isFalse id
  | .handleFlushAll _ => isFalse id

/-- A section that may change the key comes when no other command is between its
read and its store, and a store finds room. -/
def TakesTurns (κ : Type) (env : Env) :
    Prog.Turn Op Op.Answer Fault Response State κ :=
  fun turns pool t k op _ =>
    HasRoom env t.store op ∧ (LeavesKey t.store op ∨
      ∀ j ∈ turns, j ≠ k → (pool j).isDone = true)

instance (κ : Type) [DecidableEq κ] (env : Env) (turns : List κ)
    (pool : κ → Command Response) (t : State) (k : κ) (op : Op) (t' : State) :
    Decidable (TakesTurns κ env turns pool t k op t') :=
  inferInstanceAs (Decidable (_ ∧ (_ ∨ _)))

section Atomicity

variable {env : Env} {key : KeyType} {s s₀ : Store}

theorem view_of_leavesKey {op : Op} (hop : OnKey key op)
    (hleaves : LeavesKey s op) {a : op.Answer} {v : KeyView}
    (h : KeyView.exec env op (s.view key) = .ok (a, v)) : v = s.view key := by
  cases hop with
  | insert clock flags casUniq value expiry => exact hleaves.elim
  | get now =>
      have hget : (s.view key).get now = (a, v) := Except.ok.inj h
      cases hentry : s.entry key with
      | none =>
          rw [view_absent hentry] at hget ⊢
          cases hget
          rfl
      | some it =>
          rw [view_present hentry] at hget ⊢
          simp only [KeyView.get, live_iff.mpr (hleaves it hentry),
            Bool.false_eq_true, if_false, Prod.mk.injEq] at hget
          exact hget.2.symm
  | delete now =>
      have hdelete : (s.view key).delete now = (a, v) := Except.ok.inj h
      cases hentry : s.entry key with
      | none =>
          rw [view_absent hentry] at hdelete ⊢
          cases hdelete
          rfl
      | some it =>
          rw [view_present hentry] at hdelete ⊢
          simp only [KeyView.delete, dead_iff.mpr (hleaves it hentry),
            if_true, Prod.mk.injEq] at hdelete
          exact hdelete.2.symm

/-- The store and the model of the key are in step, for `n` calls to come. -/
structure InStep (key : KeyType) (n : Nat) (v : KeyView) (t : State) :
    Prop where
  free : t.locks = Locks.free
  view : t.store.view key = v
  inOrder : InOrder n t.store

theorem InStep.exec {n : Nat} {v : KeyView} {t : State}
    (h : InStep key (n + 1) v t) {op : Op} (hop : OnKey key op)
    {a : op.Answer} {v' : KeyView}
    (hexec : KeyView.exec env op v = .ok (a, v')) :
    ∃ t', op.exec env t = .ok (a, t') ∧ InStep key n v' t' := by
  obtain ⟨s, locks⟩ := t
  obtain rfl : locks = Locks.free := h.free
  rw [← h.view] at hexec
  obtain ⟨s', hexec', hview⟩ := exec_of_view hop h.inOrder.flushed hexec
  refine ⟨⟨s', Locks.free⟩, hexec', rfl, hview, ?_⟩
  exact h.inOrder.step (Op.exec_cases hexec').2

theorem lasting_inStep (env : Env) (key : KeyType) :
    Prog.Lasting (KeyView.exec env) (Op.exec env) (OnKey key)
      (InStep key) where
  less n v t h := ⟨h.free, h.view, h.inOrder.flushed, by
    have := h.inOrder.wrap
    omega⟩
  step n op v t a v' hop h hexec := h.exec hop hexec

variable {κ : Type} [Fintype κ] [DecidableEq κ] {pool₀ pool : κ → Command Response}
  {turns : List κ} {t₀ t : State}

theorem calm_of_takesTurns
    (h : Prog.Interleaved (Op.exec env) (TakesTurns κ env) pool₀ t₀ turns pool t)
    (hmost : ∀ k, (pool₀ k).AtMost 2)
    (hcalls : ∀ k, Prog.Calls (OnKey key) (pool₀ k)) {v₀ : KeyView}
    (hstart : InStep key (Fintype.card κ * 2) v₀ t₀) :
    ∃ v, Prog.Interleaved (KeyView.exec env) Prog.Calm pool₀ v₀ turns pool v ∧
      InStep key (Fintype.card κ * 2 - turns.length) v t := by
  refine Prog.Interleaved.simulates
    (fun turns t v => InStep key (Fintype.card κ * 2 - turns.length) v t)
    ?_ h hstart
  intro turns pool t v k op next a t' hR hk hexec hok hturns
  have hop : OnKey key op := by
    have hleft := hturns.calls hcalls k
    rw [hk] at hleft
    cases hleft with
    | call hop _ => exact hop
  have hlength := (Prog.Interleaved.step hturns hk hexec hok).length_le hmost
  rw [List.length_cons] at hlength
  obtain ⟨n, hn⟩ : ∃ n, Fintype.card κ * 2 - turns.length = n + 1 :=
    ⟨Fintype.card κ * 2 - turns.length - 1, by omega⟩
  have hnext : Fintype.card κ * 2 - (k :: turns).length = n := by
    rw [List.length_cons]
    omega
  simp only [hn] at hR
  obtain ⟨s, locks⟩ := t
  obtain rfl : locks = Locks.free := hR.free
  have hview := view_of_exec hop hR.inOrder.flushed hok.1 hexec
  rw [hR.view] at hview
  obtain ⟨u, hexec', hR'⟩ := hR.exec hop hview
  obtain rfl : u = t' := by
    rw [hexec'] at hexec
    cases hexec
    rfl
  refine ⟨_, hview, ?_, ?_⟩
  · refine hok.2.imp_left fun hleaves => ?_
    rw [← hR.view] at hview ⊢
    exact view_of_leavesKey hop hleaves hview
  · simp only [hnext]
    exact hR'

theorem view_answers {s s' : Store} (hstamp : s.gFlushAllTimestamp ≤ s.gTimestamp)
    (hstamp' : s'.gFlushAllTimestamp ≤ s'.gTimestamp)
    (h : s'.view key = s.view key) (now : Nat) :
    (getStep now key s').1 = (getStep now key s).1 := by
  have hs : ((s.view key).get now).1 = (getStep now key s).1 :=
    congrArg Prod.fst (view_get now hstamp)
  have hs' : ((s'.view key).get now).1 = (getStep now key s').1 :=
    congrArg Prod.fst (view_get now hstamp')
  rw [← hs, ← hs', h]

/-- Commands on one key that take turns might as well have been given one after
another. -/
theorem commands_serializable (clients : κ → Client)
    (hwords : ∀ k, (clients k).word.worksOnKey = true)
    (hkey : ∀ k, ∀ key' ∈ (clients k).key?, key' = key)
    (hflush : s₀.gFlushAllTimestamp ≤ s₀.gTimestamp)
    (hwrap : s₀.gTimestamp + Fintype.card κ * 2 < wordSize)
    (h : Prog.Interleaved (Op.exec env) (TakesTurns κ env)
      (fun k => (clients k).program) ⟨s₀, Locks.free⟩ turns pool t)
    (hdone : ∀ k, (pool k).isDone = true) :
    ∃ order : List κ, order.Nodup ∧ (∀ k, k ∈ order) ∧
      ∃ t', Prog.Serial (Op.exec env) (fun k => (clients k).program) pool order
          ⟨s₀, Locks.free⟩ t' ∧
        ∀ now, (getStep now key t'.store).1 = (getStep now key t.store).1 := by
  have hshape : ∀ k, ReadsFirst (clients k).program := fun k =>
    readsFirst_process _ _ (hwords k)
  have hmost : ∀ k, (clients k).program.AtMost 2 := fun k => (hshape k).atMost
  have hcalls : ∀ k, Prog.Calls (OnKey key) (clients k).program := fun k =>
    onKey_process _ _ (hwords k) (hkey k)
  have hstart : InStep key (Fintype.card κ * 2) (s₀.view key)
      ⟨s₀, Locks.free⟩ := ⟨rfl, rfl, hflush, hwrap⟩
  obtain ⟨v, hcalm, hend⟩ := calm_of_takesTurns h hmost hcalls hstart
  obtain ⟨order, hnodup, hall, hserial⟩ :=
    hcalm.serializable (fun k => (hshape k).actsLast env) hdone
  have hlength : order.length = Fintype.card κ := by
    rw [← List.toFinset_card_of_nodup hnodup, ← Finset.card_univ]
    congr 1
    ext k
    simp [hall k]
  rw [← hlength, ← Nat.zero_add (order.length * 2)] at hstart
  obtain ⟨t', hserial', hend'⟩ :=
    (lasting_inStep env key).serial hmost hcalls hserial hstart
  refine ⟨order, hnodup, hall, t', hserial', fun now => ?_⟩
  exact view_answers hend.inOrder.flushed hend'.inOrder.flushed
    (hend'.view.trans hend.view.symm) now

def threeClients : Fin 3 → Client
  | 0 => ⟨.set, .const 1000, ascii "set k 0 0 1\r\n5\r\n"⟩
  | 1 => ⟨.incr, .const 1000, ascii "incr k 1\r\n"⟩
  | 2 => ⟨.incr, .const 1000, ascii "incr k 0\r\n"⟩

theorem commands_serializable_threeClients :
    ∃ turns pool t,
      Prog.Interleaved (Op.exec Env.x86) (TakesTurns (Fin 3) Env.x86)
        (fun k => (threeClients k).program) State.init turns pool t ∧
      pool 1 = .done ⟨0, ascii "6\r\n"⟩ ∧
      ∃ order : List (Fin 3), order.Nodup ∧ (∀ k, k ∈ order) ∧
        ∃ t', Prog.Serial (Op.exec Env.x86) (fun k => (threeClients k).program)
            pool order State.init t' ∧
          ∀ now, (getStep now (ascii "k") t'.store).1 =
            (getStep now (ascii "k") t.store).1 := by
  obtain ⟨turns, pool, t, h, hresult⟩ := Prog.exists_interleaved_of_schedule
    (Op.exec Env.x86) (TakesTurns (Fin 3) Env.x86)
    (fun k => (threeClients k).program) State.init [0, 1, 2, 1]
    (fun
      | 0 => ⟨0, ascii "STORED\r\n"⟩
      | 1 => ⟨0, ascii "6\r\n"⟩
      | 2 => ⟨0, ascii "CLIENT_ERROR invalid format for value\r\n"⟩)
    (by decide +kernel)
  refine ⟨turns, pool, t, h, hresult 1, ?_⟩
  exact commands_serializable threeClients (by decide) (by decide +kernel)
    (by decide) (by decide) h fun k => by simp [hresult k, Prog.isDone]

def fiveStored : Store :=
  match Command.run Env.x86 (cmdProcessSet (.const 1000)
      (ascii "set k 0 0 1\r\n5\r\n")) State.init with
  | .ok (_, t) => t.store
  | .error _ => Store.init

def incrementClient : Client :=
  ⟨.incr, .const 1000, ascii "incr k 1\r\n"⟩

theorem increments_get_lost :
    ¬ ∀ (env : Env) (s₀ : Store) (key : KeyType) (clients : Fin 2 → Client)
        (turns : List (Fin 2)) (pool : Fin 2 → Command Response) (t : State),
      (∀ k, (clients k).word.worksOnKey = true) →
      (∀ k, ∀ key' ∈ (clients k).key?, key' = key) →
      Prog.Interleaved (Op.exec env) (fun _ _ _ _ _ _ => True)
        (fun k => (clients k).program) ⟨s₀, Locks.free⟩ turns pool t →
      (∀ k, (pool k).isDone = true) →
      ∃ order : List (Fin 2), order.Nodup ∧ (∀ k, k ∈ order) ∧
        ∃ t', Prog.Serial (Op.exec env) (fun k => (clients k).program) pool
            order ⟨s₀, Locks.free⟩ t' ∧
          ∀ now, (getStep now key t'.store).1 = (getStep now key t.store).1 := by
  intro hall
  obtain ⟨turns, pool, t, h, hresult⟩ := Prog.exists_interleaved_of_schedule
    (Op.exec Env.x86) (fun _ _ _ _ _ _ => True)
    (fun _ : Fin 2 => incrementClient.program) ⟨fiveStored, Locks.free⟩
    [0, 1, 0, 1] (fun _ => ⟨0, ascii "6\r\n"⟩) (by decide +kernel)
  obtain ⟨order, -, hmem, t', hserial, -⟩ := hall Env.x86 fiveStored (ascii "k")
    (fun _ => incrementClient) turns pool t (by decide) (by decide +kernel) h
    fun k => by simp [hresult k, Prog.isDone]
  -- one after another, the second increment answers 7
  have hseven : ((Prog.run (Op.exec Env.x86) incrementClient.program
        ⟨fiveStored, Locks.free⟩).toOption.bind fun first =>
      (Prog.run (Op.exec Env.x86) incrementClient.program
        first.2).toOption.map Prod.fst) = some ⟨0, ascii "7\r\n"⟩ := by decide +kernel
  cases hserial with
  | nil => exact absurd (hmem 0) List.not_mem_nil
  | @cons j _ _ _ _ _ _ hfirst hrest =>
      cases hrest with
      | nil =>
          have h0 : (0 : Fin 2) = j := List.mem_singleton.mp (hmem 0)
          have h1 : (1 : Fin 2) = j := List.mem_singleton.mp (hmem 1)
          exact absurd (h0.trans h1.symm) (by decide)
      | @cons i _ a _ _ _ hdone hsecond _ =>
          rw [hresult i] at hdone
          cases hdone
          simp only [hfirst, hsecond, Except.toOption, Option.bind_some,
            Option.map_some] at hseven
          exact absurd hseven (by decide)

end Atomicity

end Memstashed.Scmd
