import Memstashed.Dblru.Shown
import Memstashed.Scmd.Headers
import Memstashed.Scmd.Runs

/-!
# Refused requests

What a client is shown before and after a request that is refused.  The handlers
themselves change nothing on their way to a refusal; but the functions that store
make room first and only then look at the key and its token, so that a refused
request may have evicted what others stored.
-/

namespace Memstashed.Scmd

open Memstashed.Foundation
open Memstashed.Dblru

/-! ## Replies -/

def IsRefusal (output : Bytes) : Prop :=
  output = ascii "NOT_STORED\r\n" ∨ output = ascii "EXISTS\r\n" ∨
    output = ascii "NOT_FOUND\r\n" ∨ ascii "CLIENT_ERROR" <+: output ∨
    ascii "SERVER_ERROR" <+: output

instance (output : Bytes) : Decidable (IsRefusal output) :=
  inferInstanceAs (Decidable (_ ∨ _ ∨ _ ∨ _ ∨ _))

/-- A call that leaves every other entry as it was and is answered with a
failure; a read may move the entry to another timestamp. -/
def CalmCall : (op : Op) → op.Answer → Prop
  | .insert _ _ _ _ _ _, r => r ≠ .success
  | .add _ _ _ _ _ _, r => r ≠ .success
  | .get _ _, _ => True
  | .delete _ _ _, r => r ≠ .success
  | .setFlushAll _ _, _ => False
  | .handleFlushAll _, _ => False

abbrev Commits (p : Command Response) : Prop :=
  Prog.Commits CalmCall (fun resp => ¬ IsRefusal resp.output) p

section Handlers

variable {times : Times} {input : Bytes}

theorem isRefusal_answer {noreply : Bool} {output : Bytes}
    (h : ¬ IsRefusal output) : ¬ IsRefusal (answer noreply output).output := by
  cases noreply with
  | false => exact h
  | true =>
      change ¬ IsRefusal []
      decide

theorem commits_parsed {α : Type} {request : Parse α}
    {act : α → Command Response} (h : ∀ fields, Commits (act fields)) :
    Commits (parsed request act) := by
  cases request with
  | ok fields => exact h fields
  | error stop =>
      cases stop with
      | reply output => exact .done _
      | exception e => exact .fail _

theorem commits_storage {request : Parse (Int × StorageStruct)}
    {act : StorageStruct → Command Response} (h : ∀ store, Commits (act store)) :
    Commits (storage request act) := by
  apply commits_parsed
  intro ⟨ret, store⟩
  simp only
  split
  · exact .done _
  · exact h store

theorem commits_ite {c : Prop} [Decidable c] {p q : Command Response}
    (hp : Commits p) (hq : Commits q) : Commits (if c then p else q) := by
  split
  · exact hp
  · exact hq

theorem commits_insertAndAnswer {key flags value : Bytes} {expiry : Nat}
    {noreply : Bool} {output : Bytes} (h : ¬ IsRefusal output) :
    Commits (insertAndAnswer times key flags value expiry noreply output) := by
  refine .call (fun r _ => ?_) fun r hr => ?_
  · exact commits_ite (.done _) (.done _)
  · have hsuccess : r = .success := not_not.mp hr
    subst hsuccess
    exact .done (isRefusal_answer h)

theorem commits_get {now : Nat} {key : KeyType}
    {next : Option Element → Command Response}
    (h : ∀ found, Commits (next found)) :
    Commits (Command.get now key >>= next) :=
  .call (fun found _ => h found) fun _ hcalm => absurd trivial hcalm

theorem commits_extend (join : Bytes → Bytes → Bytes) :
    Commits (cmdProcessExtend join times input) := by
  apply commits_storage
  intro store
  apply commits_get
  intro found
  cases found with
  | none => exact .done _
  | some element => exact commits_insertAndAnswer (by decide)

theorem not_isRefusal_toDecimal (n : Nat) : ¬ IsRefusal (toDecimal n ++ crlf) := by
  cases hdigits : toDecimal n with
  | nil => exact absurd hdigits (toDecimal_ne_nil n)
  | cons b rest =>
      have hdigit : isDigitByte b = true :=
        isDigitByte_of_mem_toDecimal (n := n) (by simp [hdigits])
      have hne : ∀ c : UInt8, isDigitByte c = false → b ≠ c := by
        rintro c hc rfl
        rw [hc] at hdigit
        contradiction
      rintro (h | h | h | h | h)
      · exact hne 78 (by decide) (List.cons.inj h).1
      · exact hne 69 (by decide) (List.cons.inj h).1
      · exact hne 78 (by decide) (List.cons.inj h).1
      · exact hne 67 (by decide) (List.cons_prefix_cons.mp h).1.symm
      · exact hne 83 (by decide) (List.cons_prefix_cons.mp h).1.symm

theorem commits_uncaughtStoul {text : Bytes} {next : Nat → Command Response}
    (h : ∀ n, Commits (next n)) : Commits (uncaughtStoul text >>= next) := by
  unfold uncaughtStoul
  cases stoul text with
  | ok n => exact h n
  | error e => exact .fail _

theorem commits_counter (combine : Nat → Nat → Nat) :
    Commits (cmdProcessCounter combine times input) := by
  apply commits_parsed
  intro ⟨key, value, noreply⟩
  apply commits_get
  intro found
  cases found with
  | none => exact .done _
  | some element =>
      apply commits_uncaughtStoul
      intro inputValue
      apply commits_uncaughtStoul
      intro oldValue
      refine commits_ite (.done _) ?_
      exact commits_insertAndAnswer (not_isRefusal_toDecimal _)

theorem commits_getLoop (withCas : Bool) (keys : List Bytes) :
    ∀ (clock : Nat → Nat) (output : Bytes) (tail : Bytes → Response),
      Commits (getLoop withCas clock keys output >>= fun out =>
        .done (tail out)) := by
  induction keys with
  | nil =>
      intro clock output tail
      exact .done _
  | cons key keys ih =>
      intro clock output tail
      refine .call (fun found _ => ?_) fun _ hcalm => absurd trivial hcalm
      cases found with
      | none => exact ih _ output tail
      | some element => exact ih _ _ tail

/-- No handler changes anything on its way to a refusal. -/
theorem commits_process (w : Word) : Commits (w.process times input) := by
  cases w with
  | set =>
      rw [Word.process, cmdProcessSet]
      exact commits_storage fun store => commits_insertAndAnswer (by decide)
  | add =>
      rw [Word.process, cmdProcessAdd]
      refine commits_storage fun store => .call (fun r _ => ?_) fun r hr => ?_
      · exact commits_ite (.done _) (commits_ite (.done _) (.done _))
      · have hsuccess : r = .success := not_not.mp hr
        subst hsuccess
        exact .done (isRefusal_answer (by decide))
  | replace =>
      rw [Word.process, cmdProcessReplace]
      refine commits_storage fun store => commits_get fun found => ?_
      cases found with
      | none => exact .done _
      | some element => exact commits_insertAndAnswer (by decide)
  | append => exact commits_extend fun value data => value ++ data
  | prepend => exact commits_extend fun value data => data ++ value
  | cas =>
      rw [Word.process, cmdProcessCas]
      refine commits_storage fun store => .call (fun r _ => ?_) fun r hr => ?_
      · exact commits_ite (.done _)
          (commits_ite (.done _) (commits_ite (.done _) (.done _)))
      · have hsuccess : r = .success := not_not.mp hr
        subst hsuccess
        exact .done (isRefusal_answer (by decide))
  | get => exact commits_parsed fun keys => commits_getLoop false keys _ _ _
  | gets => exact commits_parsed fun keys => commits_getLoop true keys _ _ _
  | delete =>
      refine commits_parsed fun fields => .call (fun r _ => ?_) fun r hr => ?_
      · exact commits_ite (.done _) (.done _)
      · have hsuccess : r = .success := not_not.mp hr
        subst hsuccess
        exact .done (isRefusal_answer (by decide))
  | incr =>
      unfold Word.process cmdProcessIncr
      exact commits_counter _
  | decr =>
      unfold Word.process cmdProcessDecr
      exact commits_counter _
  | touch =>
      refine commits_parsed fun fields => commits_get fun found => ?_
      cases found with
      | none => exact .done _
      | some element =>
          refine .call (fun r _ => ?_) fun r hr => ?_
          · exact commits_ite (.done _) (.done _)
          · have hsuccess : r = .success := not_not.mp hr
            subst hsuccess
            exact .done (isRefusal_answer (by decide))
  | flushAll =>
      refine commits_parsed fun fields => .call (fun r hcalm => ?_) fun r _ => ?_
      · exact absurd hcalm not_false
      · exact .done (isRefusal_answer (by decide))
  | stats => exact .done _
  | version => exact .done _
  | verbosity => exact commits_parsed fun noreply => .done _
  | quit => exact .done _

theorem commits_dispatch : Commits (dispatch times input) := by
  unfold dispatch
  split
  · exact commits_process _
  · exact .done _

end Handlers

/-! ## What is shown -/

theorem allows_madeAt (now : Nat) : Allows (.const now) (Op.MadeAt now) :=
  ⟨fun _ _ => rfl, fun _ => trivial, fun _ _ _ _ _ => rfl,
    fun _ _ _ _ _ => rfl⟩

theorem calls_madeAt (now : Nat) (input : Bytes) :
    Prog.Calls (Op.MadeAt now) (dispatch (.const now) input) := by
  unfold dispatch
  split
  · rename_i w _
    by_cases hw : w = .flushAll
    · subst hw
      exact calls_parsed fun fields => .call trivial fun _ => .done _
    · exact calls_process_of (allows_madeAt now) input hw
  · exact .done _

structure Unshaken (now : Nat) (s : Store) (t : State) : Prop where
  locks : t.locks = Locks.free
  shows : SameShows now s t.store
  settled : Settled t.store now

theorem unshaken_call {env : Env} {now : Nat} {s : Store} (op : Op)
    (t : State) (a : op.Answer) (t' : State) (ht : Unshaken now s t)
    (hok : op.MadeAt now ∧ Spares env t.store op)
    (hexec : op.exec env t = .ok (a, t')) (hcalm : CalmCall op a) :
    Unshaken now s t' := by
  obtain ⟨s₁, locks⟩ := t
  obtain ⟨hlocks, hshows, hsettled⟩ := ht
  simp only at hlocks hshows hsettled
  subst hlocks
  obtain ⟨hfree, hstep⟩ := Op.exec_cases hexec
  have hflush : op.flushes = false := by
    cases op with
    | setFlushAll time expiry => exact absurd hcalm not_false
    | handleFlushAll time => exact absurd hcalm not_false
    | _ => rfl
  have hrefused : (∃ time key, op = .get time key) ∨ op.status a ≠ .success := by
    cases op with
    | insert clock key flags casUniq value expiry => exact .inr hcalm
    | add clock key flags casUniq value expiry => exact .inr hcalm
    | get time key => exact .inl ⟨time, key, rfl⟩
    | delete time key expiry => exact .inr hcalm
    | setFlushAll time expiry => exact absurd hcalm not_false
    | handleFlushAll time => exact absurd hcalm not_false
  exact ⟨hfree,
    hshows.trans (sameShows_step hstep hok.2 hok.1 hflush hrefused),
    settled_step hstep hflush hsettled⟩

theorem handleFlush_of_settled {now : Nat} {s : Store} (h : Settled s now) :
    handleFlush now s = s :=
  if_neg h

/--
From every state with free mutexes, a request that is refused leaves every
client shown what was shown before, value, flags, token and expiry, if its calls
spare what is live.
-/
theorem refused_shows_same (env : Env) (s : Store) (now : Nat) (input : Bytes)
    (resp : Response) (t : State)
    (hspares : Request.Along env (fun s op _ => Spares env s op)
      ⟨s, Locks.free⟩ ⟨.const now, input⟩)
    (hserve : Request.serve env ⟨.const now, input⟩ ⟨s, Locks.free⟩ =
      .ok (resp, t))
    (hrefusal : IsRefusal resp.output) :
    ∀ key v, Shown t.store now key v ↔ Shown s now key v := by
  have hrun : (dispatch (.const now) input).run env
      ⟨handleFlush now s, Locks.free⟩ = .ok (resp, t) := hserve
  have halong : (dispatch (.const now) input).Along (Op.exec env)
      (fun op t _ => Spares env t.store op) ⟨handleFlush now s, Locks.free⟩ :=
    ((Prog.along_call (Op.exec env)).mp hspares).2
  have hstart : Unshaken now (handleFlush now s)
      ⟨handleFlush now s, Locks.free⟩ :=
    ⟨rfl, fun _ _ => Iff.rfl, settled_handleFlush now s⟩
  have hend : Unshaken now (handleFlush now s) t :=
    commits_dispatch.run_invariant (Unshaken now (handleFlush now s))
      unshaken_call hstart ((calls_madeAt now input).along halong) hrun
      (not_not_intro hrefusal)
  intro key v
  unfold Shown
  rw [handleFlush_of_settled hend.settled]
  exact hend.shows key v

private theorem exists_of_served {env : Env} {q : Request} {t : State}
    {β : Type} (observe : Response → State → β) {b : β}
    (h : (q.serve env t).map (fun r => observe r.1 r.2) = .ok b) :
    ∃ resp t', q.serve env t = .ok (resp, t') ∧ observe resp t' = b := by
  cases hserve : q.serve env t with
  | error e => simp [hserve, Except.map] at h
  | ok result =>
      simp only [hserve, Except.map, Except.ok.injEq] at h
      exact ⟨result.1, result.2, rfl, h⟩

/-- An `add` of a key that is there, with room in memory. -/
theorem refused_shows_same_add :
    let s := Store.init.setEntry (getHashTblNbrFromKey (ascii "k")) (ascii "k")
      (⟨2000, ascii "v", ascii "0", ascii "7"⟩, 0)
    ∃ resp t, Request.serve Env.x86
          ⟨.const 1000, ascii "add k 0 0 1\r\nw\r\n"⟩ ⟨s, Locks.free⟩ =
        .ok (resp, t) ∧
      resp.output = ascii "NOT_STORED\r\n" ∧
      ∀ key v, Shown t.store 1000 key v ↔ Shown s 1000 key v := by
  intro s
  obtain ⟨resp, t, hserve, houtput⟩ := exists_of_served
    (fun resp _ => resp.output) (b := ascii "NOT_STORED\r\n")
    (show (Request.serve Env.x86 ⟨.const 1000, ascii "add k 0 0 1\r\nw\r\n"⟩
      ⟨s, Locks.free⟩).map (fun r => r.1.output) = _ by decide +kernel)
  refine ⟨resp, t, hserve, houtput, ?_⟩
  exact refused_shows_same Env.x86 s 1000 (ascii "add k 0 0 1\r\nw\r\n") resp t
    (by decide +kernel) hserve (.inl houtput)

/-- With two large values of one bucket in the store, an `add` of one of the keys
evicts the other and is then refused. -/
theorem refused_add_evicts :
    ¬ ∀ (env : Env) (t : State),
      Reached (Request.serve env) (fun _ _ => True) State.init t →
      ∀ (now : Nat) (input : Bytes) (resp : Response) (t' : State),
        Request.serve env ⟨.const now, input⟩ t = .ok (resp, t') →
        IsRefusal resp.output →
        ∀ key v, Shown t'.store now key v ↔ Shown t.store now key v := by
  intro hall
  obtain ⟨t, hreached, hobserved⟩ := exists_reached_of_replay
    (Request.serve Env.x86) (fun _ _ => True) State.init
    [⟨.const 1000,
        ascii "set a 0 0 3000\r\n" ++ List.replicate 3000 65 ++ crlf⟩,
      ⟨.const 1000,
        ascii "set k 0 0 3000\r\n" ++ List.replicate 3000 65 ++ crlf⟩]
    (fun t => (decide (Visible (handleFlush 1000 t.store) 1000 (ascii "a")),
      (Request.serve Env.x86 ⟨.const 1000,
        ascii "add k 0 0 3000\r\n" ++ List.replicate 3000 65 ++ crlf⟩ t).map
        fun r => (r.1.output,
          decide (Visible (handleFlush 1000 r.2.store) 1000 (ascii "a")))))
    (true, .ok (ascii "NOT_STORED\r\n", false)) (by decide +kernel)
  obtain ⟨hbefore, hserved⟩ := Prod.mk.inj hobserved
  obtain ⟨resp, t', hserve, hafter⟩ := exists_of_served
    (fun resp t' => (resp.output,
      decide (Visible (handleFlush 1000 t'.store) 1000 (ascii "a")))) hserved
  obtain ⟨houtput, hgone⟩ := Prod.mk.inj hafter
  have hsame := hall Env.x86 t hreached 1000 _ resp t' hserve (.inl houtput)
  obtain ⟨v, hshown⟩ := visible_iff_shows.mp (of_decide_eq_true hbefore)
  exact of_decide_eq_false hgone
    (visible_iff_shows.mpr ⟨v, (hsame (ascii "a") v).mpr hshown⟩)

end Memstashed.Scmd
