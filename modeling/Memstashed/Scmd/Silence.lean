import Memstashed.Scmd.Flags
import Memstashed.Scmd.OneLine

/-!
# What `noreply` changes

Every handler reads `noreply` for itself and asks for it before each answer it
assigns.  A request with `noreply` makes the calls that it makes without, and is
not answered; but `incr` and `decr` refuse a zero under that test, return
included, and a zero that comes with `noreply` is added or subtracted.
-/

namespace Memstashed.Scmd

open Memstashed.Foundation
open Memstashed.Dblru

/-! ## Requests -/

/--
The line of a well-formed request without `noreply`.  Beside the full header of
a storage command there is the short one that `append` and `prepend` try first,
of which the byte before the count is not read.
-/
inductive PlainLine : Word → Bytes → Prop
  | storage {h : Header} {n : Nat} (wf : h.WellFormed n)
      (loud : h.noreply = false) : PlainLine h.word h.line
  | short {w : Word} {key bytes : Bytes} {b : UInt8} {n : Nat}
      (word : w = .append ∨ w = .prepend) (keyWord : space ∉ key)
      (bytesWord : space ∉ bytes) (count : stoul bytes = .ok n)
      (oneLine : ¬ crlf <:+:
        ascii w.text ++ space :: (key ++ space :: b :: bytes)) :
      PlainLine w (ascii w.text ++ space :: (key ++ space :: b :: bytes))
  | delete {key : Bytes} (keyWord : OneWord key) :
      PlainLine .delete (ascii Word.delete.text ++ space :: key)
  | keyed {w : Word} {key text : Bytes}
      (word : w = .incr ∨ w = .decr ∨ w = .touch) (keyWord : OneWord key)
      (textWord : OneWord text) :
      PlainLine w (ascii w.text ++ space :: (key ++ space :: text))

def requestOf (line data : Bytes) (noreply : Bool) : Bytes :=
  line ++ optionsText noreply ++ (crlf ++ data)

/-- The answer under `noreply` beside the answer without: none at all, unless
the request is refused. -/
structure Quieter (quiet loud : Response) : Prop where
  ret : quiet.ret = loud.ret
  output : quiet.output = [] ∨ ascii "CLIENT_ERROR" <+: loud.output

def RefusesZero (s : Store) (now : Nat) (w : Word) (line : Bytes) : Prop :=
  (w = .incr ∨ w = .decr) ∧ ∃ key text it n,
    line.splitOn space = [ascii w.text, key, text] ∧ stoul text = .ok 0 ∧
      s.entry key = some it ∧ ¬ Dead s now it ∧ stoul it.1.value = .ok n

section Lines

variable {w : Word} {line data : Bytes}

theorem noSpace_text (w : Word) : space ∉ ascii w.text := by
  cases w <;> decide

theorem oneLine_text (w : Word) : ¬ crlf <:+: ascii w.text := by
  cases w <;> decide

theorem PlainLine.text (h : PlainLine w line) :
    ∃ rest, line = ascii w.text ++ space :: rest := by
  cases h with
  | storage wf loud => exact ⟨_, rfl⟩
  | short => exact ⟨_, rfl⟩
  | delete => exact ⟨_, rfl⟩
  | keyed => exact ⟨_, rfl⟩

theorem PlainLine.oneLine (h : PlainLine w line) : ¬ crlf <:+: line := by
  cases h with
  | storage wf loud => exact wf.oneLine
  | short word keyWord bytesWord count oneLine => exact oneLine
  | delete keyWord => exact oneLine_append (oneLine_text _) keyWord.2
  | keyed word keyWord textWord =>
      exact oneLine_append (oneLine_text _)
        (oneLine_append keyWord.2 textWord.2)

theorem framed_requestOf (h : PlainLine w line) (noreply : Bool)
    (hsmall : (requestOf line data noreply).length + 2 < wordSize) :
    Framed (requestOf line data noreply) (line ++ optionsText noreply) data :=
  ⟨rfl, find?_crlf (oneLine_options h.oneLine noreply) data, hsmall⟩

theorem dispatch_requestOf (h : PlainLine w line) (times : Times)
    (noreply : Bool) :
    dispatch times (requestOf line data noreply) =
      w.process times (requestOf line data noreply) := by
  obtain ⟨rest, hline⟩ := h.text
  have hword : commandWord (requestOf line data noreply) = ascii w.text := by
    rw [requestOf, hline, List.append_assoc, List.append_assoc,
      List.cons_append]
    exact commandWord_text w _
  unfold dispatch
  rw [hword, ofBytes_text]

/-! ## What is parsed -/

theorem line_noreply {h : Header} (hloud : h.noreply = false) (noreply : Bool) :
    ({ h with noreply := noreply } : Header).line =
      h.line ++ optionsText noreply := by
  have hnone : h.options = [] := by
    rw [Header.options, hloud]
    rfl
  have hoptions : ({ h with noreply := noreply } : Header).options =
      optionsText noreply := rfl
  have hending : ({ h with noreply := noreply } : Header).ending =
      h.ending ++ optionsText noreply := by
    rw [Header.ending, Header.ending, hoptions, hnone]
    by_cases hcas : h.word = .cas
    · rw [if_pos hcas, if_pos hcas]
      simp
    · rw [if_neg hcas, if_neg hcas]
      simp
  simp only [Header.line, hending, List.append_assoc, List.cons_append]

theorem length_requestOf_le (noreply : Bool)
    (hsmall : (requestOf line data true).length + 2 < wordSize) :
    (requestOf line data noreply).length + 2 < wordSize := by
  cases noreply with
  | true => exact hsmall
  | false =>
      have hnone : optionsText false = [] := rfl
      simp only [requestOf, hnone, List.length_append] at hsmall ⊢
      simp only [List.length_nil]
      omega

theorem storageRequest_full {h : Header} {n : Nat} (wf : h.WellFormed n)
    (hloud : h.noreply = false) (now : Nat)
    (hsmall : (requestOf h.line data true).length + 2 < wordSize) :
    ∃ ret, ∃ store : StorageStruct, ∀ noreply,
      h.word.storageRequest now (requestOf h.line data noreply) =
        .ok (ret, { store with noreply := noreply }) := by
  obtain ⟨expTime, hexpTime⟩ := exists_expiryField wf now
  obtain ⟨ret, block, hdata⟩ := exists_dataOf wf.count data
  refine ⟨ret, ⟨h.key, h.flags, expTime, n, h.casStr, false, block⟩,
    fun noreply => ?_⟩
  have hline := line_noreply hloud noreply
  have hfits := length_requestOf_le noreply hsmall
  have wf' : ({ h with noreply := noreply } : Header).WellFormed n :=
    { wf with
      oneLine := by
        rw [hline]
        exact oneLine_options wf.oneLine noreply }
  rw [requestOf, ← hline] at hfits ⊢
  exact storageRequest_header_of wf' hexpTime hdata hfits

theorem storageRequest_short {key bytes : Bytes} {b : UInt8} {n : Nat}
    (hword : w = .append ∨ w = .prepend) (hkey : space ∉ key)
    (hbytes : space ∉ bytes) (hcount : stoul bytes = .ok n)
    (hline : ¬ crlf <:+: ascii w.text ++ space :: (key ++ space :: b :: bytes))
    (now : Nat)
    (hsmall : (requestOf (ascii w.text ++ space :: (key ++ space :: b :: bytes))
      data true).length + 2 < wordSize) :
    ∃ ret, ∃ store : StorageStruct, ∀ noreply,
      w.storageRequest now (requestOf (ascii w.text ++ space ::
          (key ++ space :: b :: bytes)) data noreply) =
        .ok (ret, { store with noreply := noreply }) := by
  obtain ⟨ret, block, hdata⟩ := exists_dataOf hcount data
  refine ⟨ret, ⟨key, [], 0, n, [], false, block⟩, fun noreply => ?_⟩
  have f := framed_requestOf (.short hword hkey hbytes hcount hline) noreply
    (length_requestOf_le noreply hsmall)
  have hextend : w.storageRequest now (requestOf (ascii w.text ++ space ::
      (key ++ space :: b :: bytes)) data noreply) =
      extendRequest now (requestOf (ascii w.text ++ space ::
        (key ++ space :: b :: bytes)) data noreply) := by
    rcases hword with rfl | rfl
    · rfl
    · rfl
  have hshort : shortOf (ascii w.text ++ space :: (key ++ space :: b :: bytes) ++
      optionsText noreply) data =
      .ok (ret, ⟨key, [], 0, n, [], noreply, block⟩) := by
    rw [shortOf_plain hkey hbytes b noreply data, hdata]
    rfl
  rw [hextend, extendRequest, cmdProcessCommon_short f now, hshort]

theorem deleteRequest_requestOf {key : Bytes} (hkey : OneWord key)
    (noreply : Bool)
    (hsmall : (requestOf (ascii Word.delete.text ++ space :: key) data
      noreply).length + 2 < wordSize) :
    deleteRequest (requestOf (ascii Word.delete.text ++ space :: key) data
      noreply) = .ok (key, noreply) := by
  rw [deleteRequest_eq (framed_requestOf (.delete hkey) noreply hsmall)]
  simp only [deleteOf, List.append_assoc, List.cons_append,
    cut_append_cons _ (noSpace_text .delete), cut_options hkey.1]
  cases noreply with
  | true => rfl
  | false => rfl

theorem keyAndValueOf_keyed {key text : Bytes} (hkey : OneWord key)
    (htext : OneWord text) (noreply : Bool) :
    keyAndValueOf (ascii w.text ++ space :: (key ++ space :: text) ++
        optionsText noreply) =
      .ok (key, text, if noreply then some (ascii "noreply") else none) := by
  simp only [keyAndValueOf, List.append_assoc, List.cons_append,
    cut_append_cons _ (noSpace_text w), cut_append_cons _ hkey.1,
    cut_options htext.1, Parse.pure_eq]

theorem counterRequest_requestOf {key text : Bytes}
    (hword : w = .incr ∨ w = .decr ∨ w = .touch) (hkey : OneWord key)
    (htext : OneWord text) (noreply : Bool)
    (hsmall : (requestOf (ascii w.text ++ space :: (key ++ space :: text)) data
      noreply).length + 2 < wordSize) :
    counterRequest (requestOf (ascii w.text ++ space :: (key ++ space :: text))
      data noreply) = .ok (key, text, noreply) := by
  rw [counterRequest_eq
    (framed_requestOf (.keyed hword hkey htext) noreply hsmall), counterOf,
    keyAndValueOf_keyed hkey htext]
  cases noreply with
  | true => rfl
  | false => rfl

theorem touchRequest_requestOf {key text : Bytes}
    (hword : w = .incr ∨ w = .decr ∨ w = .touch) (hkey : OneWord key)
    (htext : OneWord text) (noreply : Bool)
    (hsmall : (requestOf (ascii w.text ++ space :: (key ++ space :: text)) data
      noreply).length + 2 < wordSize) :
    touchRequest (requestOf (ascii w.text ++ space :: (key ++ space :: text))
      data noreply) =
      (do
        let expTime ← stoulOr "CLIENT_ERROR invalid expiry time\r\n" text
        return (key, expTime, noreply)) := by
  rw [touchRequest_eq
    (framed_requestOf (.keyed hword hkey htext) noreply hsmall), touchOf,
    keyAndValueOf_keyed hkey htext]
  cases noreply with
  | true => rfl
  | false => rfl

end Lines

/-! ## Handlers side by side -/

abbrev AlikeButQuiet (quiet loud : Command Response) : Prop :=
  Prog.Alike Quieter quiet loud

section Handlers

variable {times : Times}

theorem alike_answer (output : Bytes) :
    AlikeButQuiet (.done (answer true output)) (.done (answer false output)) :=
  .done ⟨rfl, .inl rfl⟩

theorem alike_insertAndAnswer (key flags value : Bytes) (expiry : Nat)
    (output : Bytes) :
    AlikeButQuiet
      (insertAndAnswer times key flags value expiry true output)
      (insertAndAnswer times key flags value expiry false output) :=
  .call fun _ => .ite (alike_answer _) (alike_answer _)

theorem alike_storage {w : Word} (hstores : w.stores = true) {quiet loud : Bytes}
    {ret : Int} {store : StorageStruct}
    (hquiet : w.storageRequest times.parse quiet =
      .ok (ret, { store with noreply := true }))
    (hloud : w.storageRequest times.parse loud =
      .ok (ret, { store with noreply := false })) :
    AlikeButQuiet (w.process times quiet) (w.process times loud) := by
  rw [process_storage hstores, process_storage hstores, hquiet, hloud]
  simp only [storage, parsed]
  refine .ite (.done ⟨rfl, .inl rfl⟩) ?_
  have hextend (join : Bytes → Bytes → Bytes) : AlikeButQuiet
      (Word.storeStep.extend times { store with noreply := true } join)
      (Word.storeStep.extend times { store with noreply := false } join) := by
    refine .call fun found => ?_
    cases found with
    | none => exact alike_answer _
    | some element => exact alike_insertAndAnswer _ _ _ _ _
  cases w with
  | set => exact alike_insertAndAnswer _ _ _ _ _
  | add =>
      exact .call fun r => .ite (alike_answer _)
        (.ite (alike_answer _) (alike_answer _))
  | replace =>
      refine .call fun found => ?_
      cases found with
      | none => exact alike_answer _
      | some element => exact alike_insertAndAnswer _ _ _ _ _
  | append => exact hextend fun value data => value ++ data
  | prepend => exact hextend fun value data => data ++ value
  | cas =>
      exact .call fun r => .ite (alike_answer _) (.ite (alike_answer _)
        (.ite (alike_answer _) (alike_answer _)))
  | _ => contradiction

theorem alike_delete {quiet loud : Bytes} {key : Bytes}
    (hquiet : deleteRequest quiet = .ok (key, true))
    (hloud : deleteRequest loud = .ok (key, false)) :
    AlikeButQuiet (cmdProcessDelete times quiet)
      (cmdProcessDelete times loud) := by
  simp only [cmdProcessDelete, parsed, hquiet, hloud]
  exact .call fun r => .ite (alike_answer _) (alike_answer _)

theorem alike_touch {quiet loud : Bytes} {key : Bytes} {expTime : Parse Nat}
    (hquiet : touchRequest quiet = (do
      let e ← expTime
      return (key, e, true)))
    (hloud : touchRequest loud = (do
      let e ← expTime
      return (key, e, false)))
    (hreply : ∀ output, expTime = .error (.reply output) →
      ascii "CLIENT_ERROR" <+: output) :
    AlikeButQuiet (cmdProcessTouch times quiet)
      (cmdProcessTouch times loud) := by
  unfold cmdProcessTouch
  rw [hquiet, hloud]
  cases hexp : expTime with
  | error stop =>
      cases stop with
      | reply output => exact .done ⟨rfl, .inr (hreply output hexp)⟩
      | exception e => exact .fail _
  | ok e =>
      refine .call fun found => ?_
      cases found with
      | none => exact alike_answer _
      | some element =>
          exact .call fun r => .ite (alike_answer _) (alike_answer _)

end Handlers

/-! ## Counters -/

section Counters

variable {env : Env} {times : Times} {s : Store}

theorem not_sameEnd_insertAndAnswer (key flags value : Bytes) (expiry : Nat)
    (output : Bytes) (loud : Response) :
    ¬ Prog.SameEnd Quieter
      ((insertAndAnswer times key flags value expiry true output).run env
        ⟨s, Locks.free⟩) (.ok (loud, ⟨s, Locks.free⟩)) := by
  intro hsame
  cases hrun : (insertAndAnswer times key flags value expiry true output).run
      env ⟨s, Locks.free⟩ with
  | error e =>
      rw [hrun] at hsame
      cases hsame
  | ok result =>
      rw [hrun] at hsame
      cases hsame
      obtain ⟨es, hpath, hperforms⟩ := Prog.run_ok _ hrun
      obtain ⟨r, rfl, -⟩ := path_insertAndAnswer hpath
      cases hperforms with
      | cons hexec hrest =>
          cases hrest
          have hcounts := (Op.exec_cases hexec).2.counts rfl
          have htimestamp : s.gTimestamp = toWord (s.gTimestamp + 1) :=
            hcounts.timestamp
          unfold toWord at htimestamp
          omega

theorem sameEnd_counter_iff (combine : Nat → Nat → Nat) {quiet loud : Bytes}
    {key text : Bytes} (hquiet : counterRequest quiet = .ok (key, text, true))
    (hloud : counterRequest loud = .ok (key, text, false)) :
    Prog.SameEnd Quieter
        ((cmdProcessCounter combine times quiet).run env ⟨s, Locks.free⟩)
        ((cmdProcessCounter combine times loud).run env ⟨s, Locks.free⟩) ↔
      ¬ (stoul text = .ok 0 ∧ ∃ it n, s.entry key = some it ∧
        ¬ Dead s (times.get 0) it ∧ stoul it.1.value = .ok n) := by
  simp only [cmdProcessCounter, parsed, hquiet, hloud, run_get]
  rw [getStep_liveValue]
  generalize (getStep (times.get 0) key s).2 = s₀
  cases hvalue : liveValue s (times.get 0) key with
  | none =>
      refine iff_of_true ((alike_answer _).run (Op.exec env)
        ⟨s₀, Locks.free⟩) ?_
      rintro ⟨-, it, n, hit, hlive, -⟩
      have hfound := liveValue_eq_some.mpr ⟨it, hit, hlive, rfl⟩
      rw [hvalue] at hfound
      contradiction
  | some v =>
      obtain ⟨it, hit, hlive, rfl⟩ := liveValue_eq_some.mp hvalue
      simp only [Option.map_some, hit, Option.some.injEq, uncaughtStoul]
      cases htext : stoul text with
      | error e => exact iff_of_true (.error _) (by simp)
      | ok m =>
          cases hold : stoul it.1.value with
          | error e =>
              refine iff_of_true (.error _) ?_
              rintro ⟨-, it', n, rfl, -, hn⟩
              rw [hold] at hn
              contradiction
          | ok n =>
              by_cases hzero : m = 0
              · subst hzero
                refine iff_of_false ?_ (not_not.mpr ⟨rfl, it, n, rfl, hlive, hold⟩)
                exact not_sameEnd_insertAndAnswer _ _ _ _ _ _
              · refine iff_of_true ?_ (by simp [hzero])
                refine Prog.Alike.run (Op.exec env) ?_ ⟨s₀, Locks.free⟩
                simp only [Prog.done_bind, hzero, false_and, if_false]
                exact alike_insertAndAnswer _ _ _ _ _

end Counters

/-! ## The law -/

section Law

variable {env : Env} {times : Times} {s : Store}

theorem alike_process {w : Word} {line data : Bytes} (h : PlainLine w line)
    (hcounter : ¬ (w = .incr ∨ w = .decr))
    (hsmall : (requestOf line data true).length + 2 < wordSize) :
    AlikeButQuiet (w.process times (requestOf line data true))
      (w.process times (requestOf line data false)) := by
  have hsmall' := length_requestOf_le false hsmall
  cases h with
  | storage wf loud =>
      obtain ⟨ret, store, hread⟩ :=
        storageRequest_full wf loud times.parse hsmall
      exact alike_storage wf.stores (hread true) (hread false)
  | short word keyWord bytesWord count oneLine =>
      obtain ⟨ret, store, hread⟩ := storageRequest_short word keyWord bytesWord
        count oneLine times.parse hsmall
      have hstores : w.stores = true := by
        rcases word with rfl | rfl
        · rfl
        · rfl
      exact alike_storage hstores (hread true) (hread false)
  | delete keyWord =>
      exact alike_delete (deleteRequest_requestOf keyWord true hsmall)
        (deleteRequest_requestOf keyWord false hsmall')
  | keyed word keyWord textWord =>
      obtain rfl : w = .touch := by tauto
      refine alike_touch
        (touchRequest_requestOf word keyWord textWord true hsmall)
        (touchRequest_requestOf word keyWord textWord false hsmall') ?_
      intro output hrefused
      unfold stoulOr reply at hrefused
      split at hrefused
      · contradiction
      · cases hrefused
        decide
      · cases hrefused

theorem refusesZero_keyed {w : Word} {key text : Bytes} {now : Nat}
    (hcounter : w = .incr ∨ w = .decr) (hkey : OneWord key)
    (htext : OneWord text) :
    RefusesZero s now w (ascii w.text ++ space :: (key ++ space :: text)) ↔
      stoul text = .ok 0 ∧ ∃ it n, s.entry key = some it ∧ ¬ Dead s now it ∧
        stoul it.1.value = .ok n := by
  have hfields : (ascii w.text ++ space :: (key ++ space :: text)).splitOn
      space = [ascii w.text, key, text] := by
    rw [List.splitOn_append_cons_self_of_not_mem (noSpace_text w),
      List.splitOn_append_cons_self_of_not_mem hkey.1,
      List.splitOn_eq_singleton htext.1]
  unfold RefusesZero
  rw [hfields]
  constructor
  · rintro ⟨-, key', text', it, n, heq, hzero, hrest⟩
    cases heq
    exact ⟨hzero, it, n, hrest⟩
  · rintro ⟨hzero, it, n, hrest⟩
    exact ⟨hcounter, key, text, it, n, rfl, hzero, hrest⟩

theorem sameEnd_process_iff {w : Word} {line data : Bytes}
    (h : PlainLine w line)
    (hsmall : (requestOf line data true).length + 2 < wordSize) :
    Prog.SameEnd Quieter
        ((w.process times (requestOf line data true)).run env ⟨s, Locks.free⟩)
        ((w.process times (requestOf line data false)).run env
          ⟨s, Locks.free⟩) ↔
      ¬ RefusesZero s (times.get 0) w line := by
  by_cases hcounter : w = .incr ∨ w = .decr
  · cases h with
    | storage wf loud =>
        have hstores := wf.stores
        rcases hcounter with hword | hword
        · rw [hword] at hstores
          contradiction
        · rw [hword] at hstores
          contradiction
    | short word => rcases word with rfl | rfl <;> simp at hcounter
    | delete => simp at hcounter
    | keyed word keyWord textWord =>
        have hquiet := counterRequest_requestOf word keyWord textWord true
          hsmall
        have hloud := counterRequest_requestOf word keyWord textWord false
          (length_requestOf_le false hsmall)
        rw [refusesZero_keyed hcounter keyWord textWord]
        rcases hcounter with rfl | rfl
        · exact sameEnd_counter_iff _ hquiet hloud
        · exact sameEnd_counter_iff _ hquiet hloud
  · refine iff_of_true ?_ fun hrefuses => hcounter hrefuses.1
    exact (alike_process h hcounter hsmall).run (Op.exec env) ⟨s, Locks.free⟩

theorem run_requestOf {w : Word} {line data : Bytes} (h : PlainLine w line)
    (noreply : Bool) :
    (cmdProcessCommand times (requestOf line data noreply)).run env
        ⟨s, Locks.free⟩ =
      (w.process times (requestOf line data noreply)).run env
        ⟨handleFlush times.flush s, Locks.free⟩ := by
  rw [cmdProcessCommand, run_handleFlushAll, dispatch_requestOf h]

/--
A request with `noreply` does what it does without, and is not answered, exactly
when it is not an `incr` or `decr` by zero of a number that is there.
-/
theorem noreply_silences_iff (env : Env) (times : Times) (w : Word)
    (line data : Bytes) (s : Store) (h : PlainLine w line)
    (hsmall : (requestOf line data true).length + 2 < wordSize) :
    Prog.SameEnd Quieter
        ((cmdProcessCommand times (requestOf line data true)).run env
          ⟨s, Locks.free⟩)
        ((cmdProcessCommand times (requestOf line data false)).run env
          ⟨s, Locks.free⟩) ↔
      ¬ RefusesZero (handleFlush times.flush s) (times.get 0) w line := by
  rw [run_requestOf h, run_requestOf h]
  exact sameEnd_process_iff h hsmall

def five : MapEntry := (⟨wordMax, ascii "5", ascii "0", ascii "42"⟩, 0)

def numberStored : Store :=
  Store.init.setEntry (getHashTblNbrFromKey (ascii "k")) (ascii "k") five

def incrLine (text : Bytes) : Bytes :=
  ascii Word.incr.text ++ space :: (ascii "k" ++ space :: text)

theorem plainLine_incr {text : Bytes} (htext : OneWord text) :
    PlainLine .incr (incrLine text) :=
  .keyed (.inl rfl) (by decide) htext

theorem refusesZero_incr {now : Nat} {text : Bytes} (htext : OneWord text) :
    RefusesZero s now .incr (incrLine text) ↔
      stoul text = .ok 0 ∧ ∃ it n, s.entry (ascii "k") = some it ∧
        ¬ Dead s now it ∧ stoul it.1.value = .ok n :=
  refusesZero_keyed (.inl rfl) (by decide) htext

theorem noreply_silences_incr :
    Prog.SameEnd Quieter
      ((cmdProcessCommand (.const 1000)
        (requestOf (incrLine (ascii "2")) [] true)).run Env.x86
          ⟨numberStored, Locks.free⟩)
      ((cmdProcessCommand (.const 1000)
        (requestOf (incrLine (ascii "2")) [] false)).run Env.x86
          ⟨numberStored, Locks.free⟩) := by
  have hword : OneWord (ascii "2") := by decide
  have hsmall : (requestOf (incrLine (ascii "2")) [] true).length + 2 <
      wordSize := by decide
  have hplain : PlainLine .incr (incrLine (ascii "2")) := plainLine_incr hword
  have hlaw := noreply_silences_iff Env.x86 (.const 1000) .incr
    (incrLine (ascii "2")) [] numberStored hplain hsmall
  rw [refusesZero_incr hword] at hlaw
  refine hlaw.mpr ?_
  rintro ⟨hzero, -⟩
  exact absurd hzero (by decide)

/-- An increment by zero that wants no answer is carried out. -/
theorem noreply_carries_out_zero :
    ¬ ∀ (env : Env) (times : Times) (w : Word) (line data : Bytes) (s : Store),
      PlainLine w line → (requestOf line data true).length + 2 < wordSize →
      Prog.SameEnd Quieter
        ((cmdProcessCommand times (requestOf line data true)).run env
          ⟨s, Locks.free⟩)
        ((cmdProcessCommand times (requestOf line data false)).run env
          ⟨s, Locks.free⟩) := by
  intro hall
  have hword : OneWord (ascii "0") := by decide
  have hplain : PlainLine .incr (incrLine (ascii "0")) := plainLine_incr hword
  have hsmall : (requestOf (incrLine (ascii "0")) [] true).length + 2 <
      wordSize := by decide
  have hsame := hall Env.x86 (.const 1000) .incr (incrLine (ascii "0")) []
    numberStored hplain hsmall
  rw [run_requestOf hplain, run_requestOf hplain,
    sameEnd_process_iff hplain hsmall, refusesZero_incr hword] at hsame
  exact hsame ⟨by decide, five, 5, rfl, by decide, by decide⟩

end Law

end Memstashed.Scmd
