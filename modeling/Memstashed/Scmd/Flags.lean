import Memstashed.Dblru.Frame
import Memstashed.Dblru.Tokens
import Memstashed.Scmd.Acceptance
import Memstashed.Scmd.Encoding
import Memstashed.Scmd.Runs

/-!
# What can be stored as flags

Flags are stored as they stand in a request, without a look at them.  But they
are a field of its line, so there is no space and no line end in them; and a
handler that stores the flags of another entry has read them from the store.
-/

namespace Memstashed.Scmd

open Memstashed.Foundation
open Memstashed.Dblru

/-- Flags and tokens are single words. -/
def Admissible (s : Store) : Prop :=
  ∀ key, ∀ it ∈ s.entry key, OneWord it.1.flags ∧ OneWord it.1.casUniq

def liveValue (s : Store) (now : Nat) (key : KeyType) : Option ValueStruct :=
  match s.entry key with
  | none => none
  | some it => if Dead s now it then none else some it.1

/-! ## Fields of a line -/

theorem oneWord_of_field {line text : Bytes} (hline : ¬ crlf <:+: line)
    (htext : text ∈ line.splitOn space) : OneWord text := by
  induction hlength : line.length using Nat.strong_induction_on
    generalizing line with
  | h n ih =>
      cases hcut : cut space line with
      | mk first rest =>
          cases rest with
          | none =>
              obtain ⟨rfl, hnot⟩ := cut_of_none hcut
              rw [splitOn_cut_none hcut, List.mem_singleton] at htext
              rw [htext]
              exact ⟨hnot, hline⟩
          | some rest =>
              obtain ⟨rfl, hnot⟩ := cut_of_some hcut
              rw [splitOn_cut hcut] at htext
              rcases List.mem_cons.mp htext with rfl | hmem
              · refine ⟨hnot, fun hcrlf => hline (hcrlf.trans ?_)⟩
                exact (List.prefix_append _ _).isInfix
              · have hrest : ¬ crlf <:+: rest := fun hcrlf => hline (hcrlf.trans
                  ((List.suffix_cons space rest).trans
                    (List.suffix_append _ _)).isInfix)
                refine ih rest.length ?_ hrest hmem rfl
                rw [← hlength, List.length_append, List.length_cons]
                omega

theorem Framed.oneLine {input line data : Bytes} (f : Framed input line data) :
    ¬ crlf <:+: line := by
  rintro ⟨before, after, hline⟩
  obtain ⟨-, -, hfirst⟩ := find?_eq_some_iff.mp f.endl
  have hlength := congrArg List.length hline
  simp only [List.length_append, crlf, List.length_cons,
    List.length_nil] at hlength
  refine hfirst before.length (by omega) ?_
  rw [f.eq, ← hline, List.append_assoc, List.append_assoc, List.drop_left]
  exact List.prefix_append _ _

theorem oneWord_flags {now : Nat} {input : Bytes} {isCas : Bool} {ret : Int}
    {store : StorageStruct} (hsmall : input.length + 2 < wordSize)
    (h : cmdProcessCommon now input isCas false = .ok (ret, store)) :
    OneWord store.flags := by
  rw [cmdProcessCommon_eq hsmall] at h
  obtain ⟨word, text, rest, bytesStr, hfields, -⟩ := fullOf_ok h
  have hmem : store.flags ∈ (lineOf input).splitOn space := by
    rw [hfields]
    simp
  refine oneWord_of_field ?_ hmem
  rcases framed_or_unended hsmall with f | u
  · exact f.oneLine
  · rw [u.lineOf_eq]
    exact u.noCrlf

/-! ## What the calls keep -/

def WordFlags (op : Op) : Prop := ∀ w ∈ op.write?, OneWord w.flags

def WordAnswer : (op : Op) → op.Answer → Prop
  | .get _ _, found => ∀ element ∈ found, OneWord element.flags
  | _, _ => True

section Calls

variable {env : Env} {s s' : Store}

theorem liveValue_eq_some {s : Store} {now : Nat} {key : KeyType}
    {v : ValueStruct} :
    liveValue s now key = some v ↔
      ∃ it, s.entry key = some it ∧ ¬ Dead s now it ∧ it.1 = v := by
  unfold liveValue
  cases s.entry key with
  | none => simp
  | some it => simp [and_comm]

theorem getStep_liveValue (now : Nat) (key : KeyType) (s : Store) :
    (getStep now key s).1 = (liveValue s now key).map fun v =>
      ⟨v.flags, v.casUniq, v.value, wordSub v.expiry now⟩ := by
  unfold liveValue
  cases hentry : s.entry key with
  | none => rw [getStep_absent hentry]; rfl
  | some it =>
      by_cases hdead : Dead s now it
      · rw [getStep_dead hentry hdead]
        simp [hdead]
      · rw [getStep_live hentry hdead]
        simp [hdead]

theorem oneWord_token (env : Env) (s : Store) (op : Op) :
    OneWord (op.token env s) := by
  have hdecimal : ∀ n, OneWord (toDecimal n) :=
    fun n => oneWord_of_digits (toDecimal_digits n)
  cases op with
  | insert clock key flags casUniq value expiry =>
      rw [Op.token, insertToken_eq]
      exact hdecimal _
  | add clock key flags casUniq value expiry => exact hdecimal _
  | _ =>
      have hnone : OneWord [] := by decide
      exact hnone

theorem admissible_step {op : Op} {r : RetStatus} (hs : Admissible s)
    (hop : WordFlags op) (hstep : StoreStep env s op r s') : Admissible s' := by
  intro key it hit
  cases hstep.entryStep key with
  | kept entry =>
      rw [entry] at hit
      exact hs key it hit
  | dropped entry =>
      rw [entry] at hit
      contradiction
  | read now old get found live entry =>
      rw [entry] at hit
      cases hit
      exact hs key old found
  | delayed now expiry old delete later found entry =>
      rw [entry] at hit
      cases hit
      exact hs key old found
  | written w s₁ write stored success wrote =>
      subst stored
      rw [wrote.entry] at hit
      cases hit
      have htoken := oneWord_token env s op
      cases s₁.entry w.key with
      | none => exact ⟨hop w write, htoken⟩
      | some old => exact ⟨hop w write, htoken⟩

theorem wordAnswer_exec {op : Op} {a : op.Answer} {t : State}
    (hs : Admissible s) (hexec : op.exec env ⟨s, Locks.free⟩ = .ok (a, t)) :
    WordAnswer op a := by
  cases op with
  | get now key =>
      rw [Op.exec, dbGetElement_free, getStep_liveValue] at hexec
      cases hexec
      intro element helement
      obtain ⟨v, hv, rfl⟩ := Option.map_eq_some_iff.mp helement
      obtain ⟨it, hit, -, rfl⟩ := liveValue_eq_some.mp hv
      exact (hs key it hit).1
  | _ => trivial

end Calls

/-! ## The handlers -/

section Handlers

abbrev KeepsWords (p : Command Response) : Prop :=
  Prog.Careful WordAnswer WordFlags p

variable {times : Times} {input : Bytes}

theorem wordFlags_insert {clock : Clock} {key flags casUniq value : Bytes}
    {expiry : Nat} (h : OneWord flags) :
    WordFlags (.insert clock key flags casUniq value expiry) := by
  rintro w ⟨⟩
  exact h

theorem keepsWords_parsed {α : Type} {request : Parse α}
    {act : α → Command Response} (h : ∀ fields, KeepsWords (act fields)) :
    KeepsWords (parsed request act) := by
  cases request with
  | ok fields => exact h fields
  | error stop =>
      cases stop with
      | reply output => exact .done _
      | exception e => exact .fail _

theorem keepsWords_insertAndAnswer {key flags value : Bytes} {expiry : Nat}
    {noreply : Bool} {output : Bytes} (h : OneWord flags) :
    KeepsWords
      (insertAndAnswer times key flags value expiry noreply output) :=
  (calls_insertAndAnswer times (wordFlags_insert h)).careful

theorem keepsWords_get {now : Nat} {key : KeyType}
    {next : Option Element → Command Response} (hnone : KeepsWords (next none))
    (hsome : ∀ element : Element, OneWord element.flags →
      KeepsWords (next (some element))) :
    KeepsWords (Command.get now key >>= next) := by
  refine .call (fun w hw => by contradiction) fun found hfound => ?_
  cases found with
  | none => exact hnone
  | some element => exact hsome element (hfound element rfl)

theorem keepsWords_extend (join : Bytes → Bytes → Bytes) :
    KeepsWords (cmdProcessExtend join times input) := by
  refine keepsWords_parsed fun ⟨ret, store⟩ => ?_
  simp only
  split
  · exact .done _
  · refine keepsWords_get (.done _) fun element helement => ?_
    exact keepsWords_insertAndAnswer helement

theorem keepsWords_uncaughtStoul {text : Bytes} {next : Nat → Command Response}
    (h : ∀ n, KeepsWords (next n)) : KeepsWords (uncaughtStoul text >>= next) := by
  refine Prog.Careful.bind ?_ h
  unfold uncaughtStoul
  split
  · exact .done _
  · exact .fail _

theorem keepsWords_counter (combine : Nat → Nat → Nat) :
    KeepsWords (cmdProcessCounter combine times input) := by
  refine keepsWords_parsed fun ⟨key, value, noreply⟩ => ?_
  refine keepsWords_get (.done _) fun element helement => ?_
  refine keepsWords_uncaughtStoul fun inputValue => ?_
  refine keepsWords_uncaughtStoul fun oldValue => ?_
  simp only
  split
  · exact .done _
  · exact keepsWords_insertAndAnswer helement

variable (hsmall : input.length + 2 < wordSize)

include hsmall

theorem keepsWords_process (w : Word) :
    KeepsWords (w.process times input) := by
  have hread : ∀ now isCas ret store,
      cmdProcessCommon now input isCas false = .ok (ret, store) →
      OneWord store.flags := fun _ _ _ _ h => oneWord_flags hsmall h
  have hquiet : ∀ op : Op, op.write? = none → WordFlags op := by
    intro op hnone w hw
    rw [hnone] at hw
    contradiction
  cases w with
  | set =>
      rw [Word.process, cmdProcessSet]
      refine (calls_storage_of fun ret store hparse => ?_).careful
      exact calls_insertAndAnswer times
        (wordFlags_insert (hread _ _ _ _ hparse))
  | add =>
      rw [Word.process, cmdProcessAdd]
      refine (calls_storage_of fun ret store hparse => ?_).careful
      refine .call ?_ fun r => calls_ite (.done _) (calls_ite (.done _) (.done _))
      rintro w ⟨⟩
      exact hread _ _ _ _ hparse
  | replace =>
      rw [Word.process, cmdProcessReplace]
      refine (calls_storage_of fun ret store hparse => ?_).careful
      refine .call (hquiet _ rfl) fun found => ?_
      cases found with
      | none => exact .done _
      | some element =>
          exact calls_insertAndAnswer times
            (wordFlags_insert (hread _ _ _ _ hparse))
  | cas =>
      rw [Word.process, cmdProcessCas]
      refine (calls_storage_of fun ret store hparse => ?_).careful
      exact .call (wordFlags_insert (hread _ _ _ _ hparse)) fun r =>
        calls_ite (.done _) (calls_ite (.done _) (calls_ite (.done _) (.done _)))
  | append => exact keepsWords_extend fun value data => value ++ data
  | prepend => exact keepsWords_extend fun value data => data ++ value
  | incr =>
      unfold Word.process cmdProcessIncr
      exact keepsWords_counter _
  | decr =>
      unfold Word.process cmdProcessDecr
      exact keepsWords_counter _
  | touch =>
      refine keepsWords_parsed fun fields => ?_
      refine keepsWords_get (.done _) fun element helement => ?_
      exact (Prog.Calls.call (wordFlags_insert helement) fun r =>
        calls_ite (.done _) (.done _)).careful
  | get => exact (calls_getWith times _ input fun _ _ => hquiet _ rfl).careful
  | gets => exact (calls_getWith times _ input fun _ _ => hquiet _ rfl).careful
  | delete =>
      refine (calls_parsed fun fields => ?_).careful
      exact .call (hquiet _ rfl) fun r => calls_ite (.done _) (.done _)
  | flushAll =>
      refine (calls_parsed fun fields => ?_).careful
      exact .call (hquiet _ rfl) fun r => .done _
  | verbosity => exact (calls_parsed fun noreply => .done _).careful
  | stats => exact .done _
  | version => exact .done _
  | quit => exact .done _

theorem keepsWords_command :
    KeepsWords (cmdProcessCommand times input) := by
  refine .call (fun w hw => by contradiction) fun r _ => ?_
  change KeepsWords (dispatch times input)
  unfold dispatch
  split
  · exact keepsWords_process hsmall _
  · exact .done _

end Handlers

theorem admissible_of_served {env : Env} {t : State}
    (h : Reached (Request.serve env)
      (fun _ q => q.input.length + 2 < wordSize) State.init t) :
    t.locks = Locks.free ∧ Admissible t.store := by
  let inv : State → Prop := fun t => t.locks = Locks.free ∧ Admissible t.store
  refine Reached.invariant (P := inv) ⟨rfl, ?_⟩ ?_ h
  · intro key it hit
    contradiction
  · intro t q resp t' ht hsmall hrun
    refine (keepsWords_command hsmall).run_invariant inv ?_ ht hrun
    rintro op ⟨s, locks⟩ a t₁ ⟨hlocks, hs⟩ hop hexec
    simp only at hlocks hs
    subst hlocks
    obtain ⟨hfree, hstep⟩ := Op.exec_cases hexec
    exact ⟨wordAnswer_exec hs hexec, hfree, admissible_step hs hop hstep⟩

end Memstashed.Scmd
