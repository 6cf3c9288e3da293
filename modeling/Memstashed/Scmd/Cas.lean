import Memstashed.Scmd.Commands
import Memstashed.Scmd.Lines
import Memstashed.Dblru.Accounting

/-!
# Compare and swap

The contract of `cas` against what the code does.  One function serves plain and
conditional stores and takes an empty token for a plain one; and it looks for
the key in the map without asking whether its entry is expired or flushed.
-/

namespace Memstashed.Scmd

open Memstashed.Foundation
open Memstashed.Dblru

/-! ## The token of a request -/

def bytesField (line : Bytes) : Bytes := ((line.splitOn space)[4]?).getD []

def tokenField (line : Bytes) : Option Bytes := (line.splitOn space)[5]?

/-- The parser takes the sixth field for the token, and the byte count if there
is no sixth field. -/
theorem bytesAndTokenOf_casStr {data rest bytesStr casStr : Bytes}
    {noreply : Bool}
    (h : bytesAndTokenOf true data rest = .ok (bytesStr, casStr, noreply)) :
    casStr = ((rest.splitOn space)[1]?).getD
      (((rest.splitOn space)[0]?).getD []) := by
  unfold bytesAndTokenOf at h
  cases hbytes : cut space rest with
  | mk bytes after =>
      rw [hbytes] at h
      cases after with
      | none =>
          simp only at h
          split at h
          · contradiction
          · cases h
            simp [splitOn_cut_none hbytes, (cut_of_none hbytes).1]
      | some after =>
          simp only at h
          rw [splitOn_cut hbytes]
          cases htoken : cut space after with
          | mk token last =>
              rw [htoken] at h
              cases last with
              | none =>
                  cases h
                  simp [splitOn_cut_none htoken]
              | some last =>
                  simp only at h
                  rw [splitOn_cut htoken]
                  cases hnoreply : noreplyOf last with
                  | error stop =>
                      rw [hnoreply] at h
                      contradiction
                  | ok noreply' =>
                      rw [hnoreply] at h
                      cases h
                      simp

theorem commonOf_casStr {now : Nat} {line data : Bytes} {ret : Int}
    {store : StorageStruct} (h : commonOf now true line data = .ok (ret, store)) :
    store.casStr = (tokenField line).getD (bytesField line) := by
  obtain ⟨word, text, rest, bytesStr, hline, -, hlast, -⟩ := commonOf_ok h
  rw [tokenField, bytesField, hline]
  exact bytesAndTokenOf_casStr hlast

/-! ## The contract -/

/-- What `cas` promises: the status `r` and the store `s'` it leaves behind, for
a request with the given token in the store `s`. -/
structure CasContract (s : Store) (now : Nat) (key value flags : Bytes)
    (token : Option Bytes) (r : RetStatus) (s' : Store) : Prop where
  stored : r = .success ↔ ∃ it,
    (s.gKeyToValueHashMap (getHashTblNbrFromKey key)).lookup key = some it ∧
      ¬ Dead s now it ∧ token = some it.1.casUniq
  written : r = .success → ∃ it,
    (s'.gKeyToValueHashMap (getHashTblNbrFromKey key)).lookup key = some it ∧
      it.1.value = value ∧ it.1.flags = flags
  missing : r = .notExist ↔ ¬ Visible s now key
  differs : r = .exist ↔ ∃ it,
    (s.gKeyToValueHashMap (getHashTblNbrFromKey key)).lookup key = some it ∧
      ¬ Dead s now it ∧ token ≠ some it.1.casUniq
  unchanged : r ≠ .success →
    s'.gKeyToValueHashMap = s.gKeyToValueHashMap ∧
      s'.gTimestampToKeySet = s.gTimestampToKeySet ∧
      s'.gStoredSize = s.gStoredSize

/-- The token of the request is one the code can tell from others: it is not
empty, and if the field is missing, the byte count that is taken in its place
is not the token of the entry. -/
def TokenCompared (token : Option Bytes) (bytes : Bytes)
    (entry : Option MapEntry) : Prop :=
  match token with
  | some t => t ≠ [] ∨ ∃ it, entry = some it ∧ it.1.casUniq = []
  | none => bytes ≠ [] ∧ ∀ it, entry = some it → it.1.casUniq ≠ bytes

section Contract

variable {s s' : Store} {now : Nat} {key value flags : Bytes}
  {token : Option Bytes} {it : MapEntry}

private theorem casContract_missing (hmissing : ¬ Visible s now key)
    {r : RetStatus} (hr : r = .notExist) :
    CasContract s now key value flags token r s := by
  subst hr
  have hnone : ∀ it,
      (s.gKeyToValueHashMap (getHashTblNbrFromKey key)).lookup key = some it →
        Dead s now it := by
    intro it hlookup
    by_contra hlive
    exact hmissing ⟨it, hlookup, hlive⟩
  refine ⟨?_, ?_, ?_, ?_, fun _ => ⟨rfl, rfl, rfl⟩⟩
  · simp only [reduceCtorEq, false_iff, not_exists, not_and]
    intro it hlookup hlive
    exact absurd (hnone it hlookup) hlive
  · simp
  · simp [hmissing]
  · simp only [reduceCtorEq, false_iff, not_exists, not_and]
    intro it hlookup hlive
    exact absurd (hnone it hlookup) hlive

private theorem casContract_differs
    (hlookup : (s.gKeyToValueHashMap (getHashTblNbrFromKey key)).lookup key =
      some it) (hlive : ¬ Dead s now it) (htoken : token ≠ some it.1.casUniq) :
    CasContract s now key value flags token .exist s := by
  have hvisible : Visible s now key := ⟨it, hlookup, hlive⟩
  refine ⟨?_, ?_, ?_, ?_, fun _ => ⟨rfl, rfl, rfl⟩⟩
  · simp [hlookup, hlive, htoken]
  · simp
  · simp [hvisible]
  · simp [hlookup, hlive, htoken]

private theorem casContract_stored
    (hlookup : (s.gKeyToValueHashMap (getHashTblNbrFromKey key)).lookup key =
      some it) (hlive : ¬ Dead s now it) (htoken : token = some it.1.casUniq)
    (hwritten : ∃ it,
      (s'.gKeyToValueHashMap (getHashTblNbrFromKey key)).lookup key = some it ∧
        it.1.value = value ∧ it.1.flags = flags) :
    CasContract s now key value flags token .success s' := by
  have hvisible : Visible s now key := ⟨it, hlookup, hlive⟩
  refine ⟨?_, fun _ => hwritten, ?_, ?_, ?_⟩
  · simp [hlookup, hlive, htoken]
  · simp [hvisible]
  · simp [hlookup, htoken]
  · simp

private theorem CasContract.status {r : RetStatus}
    (h : CasContract s now key value flags token r s') :
    (r = .success → ∃ it,
      (s.gKeyToValueHashMap (getHashTblNbrFromKey key)).lookup key = some it ∧
        ¬ Dead s now it ∧ token = some it.1.casUniq) ∧
      (r = .exist → Visible s now key) := by
  refine ⟨h.stored.mp, ?_⟩
  intro hr
  obtain ⟨it, hlookup, hlive, -⟩ := h.differs.mp hr
  exact ⟨it, hlookup, hlive⟩

end Contract

theorem casContract_iff (s : Store) (now : Nat)
    (key value flags casUniq newToken : Bytes) (expiry : Nat)
    (timestamp : TimestampType) (token : Option Bytes) (bytes : Bytes)
    (hcas : casUniq = token.getD bytes) :
    CasContract s now key value flags token
        (insertStep now key flags casUniq value expiry newToken timestamp s).1
        (insertStep now key flags casUniq value expiry newToken timestamp s).2 ↔
      (EntryIs s key fun it => ¬ Dead s now it) ∧
        TokenCompared token bytes
          ((s.gKeyToValueHashMap (getHashTblNbrFromKey key)).lookup key) := by
  cases hlookup :
      (s.gKeyToValueHashMap (getHashTblNbrFromKey key)).lookup key with
  | none =>
      have hentry : EntryIs s key fun it => ¬ Dead s now it := by
        simp [EntryIs, hlookup]
      have hmissing : ¬ Visible s now key := by simp [Visible, hlookup]
      have htoken : TokenCompared token bytes none ↔ casUniq ≠ [] := by
        cases token with
        | none => simp [TokenCompared, hcas]
        | some t => simp [TokenCompared, hcas]
      rw [htoken]
      by_cases hempty : casUniq = []
      · rw [insertStep_created hlookup hempty]
        simp only [hempty, ne_eq, not_true_eq_false, and_false, iff_false]
        intro hcontract
        obtain ⟨it, hsome, -⟩ := hcontract.status.1 rfl
        simp [hlookup] at hsome
      · rw [insertStep_notExist hlookup hempty]
        exact iff_of_true (casContract_missing hmissing rfl) ⟨hentry, hempty⟩
  | some it =>
      have hentry : (EntryIs s key fun it => ¬ Dead s now it) ↔
          ¬ Dead s now it := by
        simp [EntryIs, hlookup]
      by_cases hdead : Dead s now it
      · -- A dead entry is answered like a live one, and overwritten.
        have hmissing : ¬ Visible s now key := by simp [Visible, hlookup, hdead]
        refine iff_of_false ?_ fun h => hentry.mp h.1 hdead
        intro hcontract
        by_cases hrefused : casUniq ≠ [] ∧ it.1.casUniq ≠ casUniq
        · rw [insertStep_refused hlookup hrefused] at hcontract
          exact hmissing (hcontract.status.2 rfl)
        · rw [insertStep_overwrite hlookup hrefused] at hcontract
          obtain ⟨other, hsome, hlive, -⟩ := hcontract.status.1 rfl
          exact hmissing ⟨other, hsome, hlive⟩
      · have htoken : TokenCompared token bytes (some it) ↔
            (token = some it.1.casUniq ↔
              ¬ (casUniq ≠ [] ∧ it.1.casUniq ≠ casUniq)) := by
          cases token with
          | none =>
              simp only [TokenCompared, hcas, Option.getD_none, reduceCtorEq,
                Option.some.injEq, forall_eq', false_iff, not_not]
          | some t =>
              simp only [TokenCompared, hcas, Option.getD_some,
                Option.some.injEq, exists_eq_left', not_and_or, not_not]
              grind
        rw [hentry, htoken]
        by_cases hrefused : casUniq ≠ [] ∧ it.1.casUniq ≠ casUniq
        · rw [insertStep_refused hlookup hrefused]
          rw [iff_false_right (not_not_intro hrefused), and_iff_right hdead]
          constructor
          · intro hcontract
            obtain ⟨other, hsome, -, hother⟩ := hcontract.differs.mp rfl
            rw [hlookup] at hsome
            cases hsome
            exact hother
          · intro hother
            exact casContract_differs hlookup hdead hother
        · rw [insertStep_overwrite hlookup hrefused]
          rw [iff_true_right hrefused, and_iff_right hdead]
          constructor
          · intro hcontract
            obtain ⟨other, hsome, -, hsame⟩ := hcontract.stored.mp rfl
            rw [hlookup] at hsome
            cases hsome
            exact hsame
          · intro hsame
            refine casContract_stored hlookup hdead hsame ?_
            refine ⟨(⟨toWord (now + expiry), value, flags, newToken⟩, it.2), ?_,
              rfl, rfl⟩
            simp

/-! ## The command -/

def casText : RetStatus → Bytes
  | .memoryFull => memoryFullText
  | .exist => ascii "EXISTS\r\n"
  | .notExist => ascii "NOT_FOUND\r\n"
  | _ => ascii "STORED\r\n"

theorem cmdProcessCas_run {env : Env} {times : Times} {input : Bytes} {s : Store}
    {ret : Int} {store : StorageStruct} {s₁ : Store}
    (hparse : cmdProcessCommon times.parse input true false = .ok (ret, store))
    (hret : ret ≤ 0)
    (hroom : insertLoop env times.write store.key store.flags store.data s =
      .ok (true, ⟨s₁, Locks.free⟩)) :
    (cmdProcessCas times input).run env ⟨s, Locks.free⟩ =
      .ok (answer store.noreply (casText
          (insertStep times.write.now store.key store.flags store.casStr
            store.data store.expTime (insertToken env times.write.now s)
            s.gTimestamp s₁).1),
        ⟨(insertStep times.write.now store.key store.flags store.casStr
            store.data store.expTime (insertToken env times.write.now s)
            s.gTimestamp s₁).2, Locks.free⟩) := by
  have hexec := dbInsertElement_free env times.write store.key store.flags
    store.casStr store.data store.expTime s
  rw [hroom] at hexec
  simp only [cmdProcessCas, storage, parsed, hparse, not_lt.mpr hret,
    if_false, run_insert hexec]
  cases (insertStep times.write.now store.key store.flags store.casStr
    store.data store.expTime (insertToken env times.write.now s)
    s.gTimestamp s₁).1 <;> rfl

/--
A `cas` that reaches the store with room in memory keeps its contract exactly
when the map has no expired or flushed entry for the key and the request has a
token that the code compares: one that is not empty; or, when the field is
missing, the byte count in its place is not the token of the entry.
-/
theorem cmdProcessCas_contract_iff (env : Env) (times : Times) (s s₁ : Store)
    (input : Bytes) (ret : Int) (store : StorageStruct)
    (hcrlf : crlf <:+ input) (hsize : input.length + 2 < wordSize)
    (hparse : cmdProcessCommon times.parse input true false = .ok (ret, store))
    (hret : ret ≤ 0)
    (hroom : insertLoop env times.write store.key store.flags store.data s =
      .ok (true, ⟨s₁, Locks.free⟩)) :
    ∃ r s', dbInsertElement env times.write store.key store.flags store.casStr
          store.data store.expTime ⟨s, Locks.free⟩ =
        .ok (r, ⟨s', Locks.free⟩) ∧
      (cmdProcessCas times input).run env ⟨s, Locks.free⟩ =
        .ok (answer store.noreply (casText r), ⟨s', Locks.free⟩) ∧
      (CasContract s₁ times.write.now store.key store.data store.flags
          (tokenField (lineOf input)) r s' ↔
        (EntryIs s₁ store.key fun it => ¬ Dead s₁ times.write.now it) ∧
          TokenCompared (tokenField (lineOf input)) (bytesField (lineOf input))
            ((s₁.gKeyToValueHashMap
              (getHashTblNbrFromKey store.key)).lookup store.key)) := by
  have f := framed_of_crlf hcrlf.isInfix hsize
  have hcas : store.casStr = (tokenField (lineOf input)).getD
      (bytesField (lineOf input)) := by
    rw [cmdProcessCommon_full f] at hparse
    exact commonOf_casStr hparse
  have hinsert := dbInsertElement_free env times.write store.key store.flags
    store.casStr store.data store.expTime s
  rw [hroom] at hinsert
  exact ⟨_, _, hinsert, cmdProcessCas_run hparse hret hroom,
    casContract_iff s₁ times.write.now store.key store.data store.flags
      store.casStr _ store.expTime s.gTimestamp _ _ hcas⟩

/-- A key is set, and a `cas` with its token finds it. -/
theorem cmdProcessCas_contract_matching :
    ∃ s it s',
      (s.gKeyToValueHashMap (getHashTblNbrFromKey (ascii "k"))).lookup
          (ascii "k") = some it ∧
      it.1.casUniq = ascii "2632470296759921198" ∧
      (cmdProcessCas (.const 1000)
          (ascii "cas k 0 0 1 2632470296759921198\r\nx\r\n")).run Env.x86
          ⟨s, Locks.free⟩ =
        .ok (answer false (casText .success), ⟨s', Locks.free⟩) ∧
      CasContract (insertDrawn Env.x86 1000 s) 1000 (ascii "k") (ascii "x")
        (ascii "0") (some (ascii "2632470296759921198")) .success s' := by
  obtain ⟨s, hfits, it, hlookup, htoken, hdrawn, hlive⟩ :
      ∃ s, insertFits Env.x86 (ascii "k") (ascii "0")
          (insertToken Env.x86 1000 s) (ascii "x") s ∧
        ∃ it, (s.gKeyToValueHashMap (getHashTblNbrFromKey (ascii "k"))).lookup
            (ascii "k") = some it ∧
          it.1.casUniq = ascii "2632470296759921198" ∧
          ((insertDrawn Env.x86 1000 s).gKeyToValueHashMap
            (getHashTblNbrFromKey (ascii "k"))).lookup (ascii "k") = some it ∧
          ¬ Dead (insertDrawn Env.x86 1000 s) 1000 it :=
    ⟨(insertStep 1000 (ascii "k") (ascii "0") [] (ascii "v") 0
      (insertToken Env.x86 1000 Store.init) 0
      (insertDrawn Env.x86 1000 Store.init)).2, by decide +kernel,
      (⟨4294967295, ascii "v", ascii "0", ascii "2632470296759921198"⟩, 0),
      by decide +kernel, by decide +kernel, by decide +kernel,
      by decide +kernel⟩
  obtain ⟨r, s', -, hrun, hcontract⟩ := cmdProcessCas_contract_iff Env.x86
    (.const 1000) s (insertDrawn Env.x86 1000 s)
    (ascii "cas k 0 0 1 2632470296759921198\r\nx\r\n") 0
    ⟨ascii "k", ascii "0", 0, 1, ascii "2632470296759921198", false, ascii "x"⟩
    ⟨ascii "cas k 0 0 1 2632470296759921198\r\nx", by decide⟩ (by decide)
    (by decide) (by decide) (insertLoop_of_fits hfits)
  have hfield : tokenField
      (lineOf (ascii "cas k 0 0 1 2632470296759921198\r\nx\r\n")) =
      some (ascii "2632470296759921198") := by decide
  rw [hfield] at hcontract
  have hkept := hcontract.mpr ⟨fun it' hlookup' => by
    rw [hdrawn] at hlookup'
    cases hlookup'
    exact hlive, .inl (by decide)⟩
  have hsuccess : r = .success :=
    hkept.stored.mpr ⟨it, hdrawn, hlive, by rw [htoken]⟩
  subst hsuccess
  exact ⟨s, it, s', hlookup, htoken, hrun, hkept⟩

/-- A space where the token should be makes `cas` an unconditional store. -/
theorem cmdProcessCas_stores_without_token :
    ¬ ∀ (env : Env) (times : Times) (s s₁ : Store) (input : Bytes) (ret : Int)
        (store : StorageStruct),
      crlf <:+ input → input.length + 2 < wordSize →
      cmdProcessCommon times.parse input true false = .ok (ret, store) →
      ret ≤ 0 →
      insertLoop env times.write store.key store.flags store.data s =
        .ok (true, ⟨s₁, Locks.free⟩) →
      ∃ r s', dbInsertElement env times.write store.key store.flags store.casStr
            store.data store.expTime ⟨s, Locks.free⟩ =
          .ok (r, ⟨s', Locks.free⟩) ∧
        (cmdProcessCas times input).run env ⟨s, Locks.free⟩ =
          .ok (answer store.noreply (casText r), ⟨s', Locks.free⟩) ∧
        CasContract s₁ times.write.now store.key store.data store.flags
          (tokenField (lineOf input)) r s' := by
  intro hall
  have hfits : insertFits Env.x86 (ascii "k") (ascii "0")
      (insertToken Env.x86 1000 Store.init) (ascii "x") Store.init := by
    decide +kernel
  obtain ⟨r, s', hinsert, -, hcontract⟩ := hall Env.x86 (.const 1000) Store.init
    (insertDrawn Env.x86 1000 Store.init) (ascii "cas k 0 0 1 \r\nx\r\n") 0
    ⟨ascii "k", ascii "0", 0, 1, [], false, ascii "x"⟩
    ⟨ascii "cas k 0 0 1 \r\nx", by decide⟩ (by decide) (by decide)
    (by decide) (insertLoop_of_fits hfits)
  have hstored : (dbInsertElement Env.x86 (.const 1000) (ascii "k") (ascii "0")
      [] (ascii "x") 0 State.init).map Prod.fst = .ok .success := by
    decide +kernel
  have hsuccess : r = .success := by
    have hsame := (congrArg (Except.map Prod.fst) hinsert).symm.trans hstored
    cases hsame
    rfl
  obtain ⟨it, hlookup, -⟩ := hcontract.status.1 hsuccess
  simp [Store.init] at hlookup

end Memstashed.Scmd
