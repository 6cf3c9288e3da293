import Memstashed.Dblru.Writes
import Memstashed.Scmd.Commands

/-!
# The calls of a command

What the path of a handler through its calls can look like, for the commands
that store: at most one look at the key, then one store with the arguments that
were parsed.
-/

namespace Memstashed.Scmd

open Memstashed.Foundation
open Memstashed.Dblru

abbrev Event := Sigma Op.Answer

section Paths

variable {α β : Type} {es : List Event}

theorem path_done {a b : α} (h : Prog.Path (.done a : Command α) es b) :
    es = [] ∧ b = a := by
  cases h
  exact ⟨rfl, rfl⟩

theorem path_call {op : Op} {next : op.Answer → Command α} {b : α}
    (h : Prog.Path (.call op next) es b) :
    ∃ r es', es = ⟨op, r⟩ :: es' ∧ Prog.Path (next r) es' b := by
  cases h with
  | call hnext => exact ⟨_, _, rfl, hnext⟩

theorem path_fail {e : Fault} {b : α}
    (h : Prog.Path (.fail e : Command α) es b) : False := by
  cases h

theorem last_eq (es fs : List Event) {e f : Event}
    (h : es ++ [e] = fs ++ [f]) : e = f := by
  have hlast := congrArg List.getLast? h
  simpa using hlast

theorem init_eq (es fs : List Event) {e f : Event}
    (h : es ++ [e] = fs ++ [f]) : es = fs :=
  (List.append_inj' h rfl).1

end Paths

section Storage

variable {times : Times} {input : Bytes} {es : List Event}
  {resp : Response}

theorem path_parsed {α : Type} {request : Parse α}
    {act : α → Command Response} (hne : es ≠ [])
    (h : Prog.Path (parsed request act) es resp) :
    ∃ fields, request = .ok fields ∧ Prog.Path (act fields) es resp := by
  cases request with
  | ok fields => exact ⟨fields, rfl, h⟩
  | error stop =>
      cases stop with
      | reply output => exact absurd (path_done h).1 hne
      | exception e => exact (path_fail h).elim

theorem path_storage {request : Parse (Int × StorageStruct)}
    {act : StorageStruct → Command Response} (hne : es ≠ [])
    (h : Prog.Path (storage request act) es resp) :
    ∃ ret store, request = .ok (ret, store) ∧ ret ≤ 0 ∧
      Prog.Path (act store) es resp := by
  obtain ⟨⟨ret, store⟩, hrequest, hpath⟩ := path_parsed hne h
  simp only at hpath
  split at hpath
  · exact absurd (path_done hpath).1 hne
  · exact ⟨ret, store, hrequest, by omega, hpath⟩

theorem path_insertAndAnswer {key flags value : Bytes} {expiry : Nat}
    {noreply : Bool} {output : Bytes}
    (h : Prog.Path (insertAndAnswer times key flags value expiry noreply output)
      es resp) :
    ∃ r, es = [⟨.insert times.write key flags [] value expiry, r⟩] ∧
      resp = answer noreply
        (if r = RetStatus.memoryFull then memoryFullText else output) := by
  obtain ⟨r, es', rfl, hnext⟩ := path_call h
  change Prog.Path (if r = RetStatus.memoryFull then _ else _) es' resp at hnext
  refine ⟨r, ?_⟩
  split at hnext
  · obtain ⟨rfl, rfl⟩ := path_done hnext
    simp [*]
  · obtain ⟨rfl, rfl⟩ := path_done hnext
    simp [*]

theorem path_set (hne : es ≠ [])
    (h : Prog.Path (cmdProcessSet times input) es resp) :
    ∃ ret store r,
      cmdProcessCommon times.parse input false false = .ok (ret, store) ∧
      es = [⟨.insert times.write store.key store.flags [] store.data
        store.expTime, r⟩] := by
  obtain ⟨ret, store, hparse, -, hpath⟩ := path_storage hne h
  obtain ⟨r, hes, -⟩ := path_insertAndAnswer hpath
  exact ⟨ret, store, r, hparse, hes⟩

theorem path_add (hne : es ≠ [])
    (h : Prog.Path (cmdProcessAdd times input) es resp) :
    ∃ ret store r,
      cmdProcessCommon times.parse input false false = .ok (ret, store) ∧
      es = [⟨.add times.write store.key store.flags store.casStr store.data
        store.expTime, r⟩] := by
  obtain ⟨ret, store, hparse, -, hpath⟩ := path_storage hne h
  obtain ⟨r, es', rfl, hnext⟩ := path_call hpath
  refine ⟨ret, store, r, hparse, ?_⟩
  change Prog.Path (if r = RetStatus.memoryFull then _
    else if r = RetStatus.exist then _ else _) es' resp at hnext
  split at hnext
  · rw [(path_done hnext).1]
  · split at hnext
    · rw [(path_done hnext).1]
    · rw [(path_done hnext).1]

theorem path_cas (hne : es ≠ [])
    (h : Prog.Path (cmdProcessCas times input) es resp) :
    ∃ ret store r,
      cmdProcessCommon times.parse input true false = .ok (ret, store) ∧
      es = [⟨.insert times.write store.key store.flags store.casStr store.data
        store.expTime, r⟩] := by
  obtain ⟨ret, store, hparse, -, hpath⟩ := path_storage hne h
  obtain ⟨r, es', rfl, hnext⟩ := path_call hpath
  refine ⟨ret, store, r, hparse, ?_⟩
  change Prog.Path (if r = RetStatus.memoryFull then _
    else if r = RetStatus.exist then _
    else if r = RetStatus.notExist then _ else _) es' resp at hnext
  split at hnext
  · rw [(path_done hnext).1]
  · split at hnext
    · rw [(path_done hnext).1]
    · split at hnext
      · rw [(path_done hnext).1]
      · rw [(path_done hnext).1]

theorem path_replace (hne : es ≠ [])
    (h : Prog.Path (cmdProcessReplace times input) es resp) :
    ∃ ret store found es',
      cmdProcessCommon times.parse input false false = .ok (ret, store) ∧
      es = ⟨.get (times.get 0) store.key, found⟩ :: es' ∧
      match found with
      | none => es' = []
      | some _ => ∃ r, es' =
          [⟨.insert times.write store.key store.flags [] store.data
            store.expTime, r⟩] := by
  obtain ⟨ret, store, hparse, -, hpath⟩ := path_storage hne h
  obtain ⟨found, es', rfl, hnext⟩ := path_call hpath
  refine ⟨ret, store, found, es', hparse, rfl, ?_⟩
  cases found with
  | none => exact (path_done hnext).1
  | some element =>
      obtain ⟨r, hes, -⟩ := path_insertAndAnswer hnext
      exact ⟨r, hes⟩

def Word.storesData : Word → Bool
  | .set => true
  | .add => true
  | .replace => true
  | .cas => true
  | _ => false

theorem path_storesData {w : Word} (hw : w.storesData = true) {op : Op}
    {r : op.Answer}
    (h : Prog.Path (w.process times input) (es ++ [⟨op, r⟩]) resp)
    (hr : op.status r = .success) :
    ∃ isCas ret store,
      cmdProcessCommon times.parse input isCas false = .ok (ret, store) ∧
      op.write? = some
        ⟨times.write, store.key, store.flags, store.data, store.expTime⟩ := by
  have hne : es ++ [⟨op, r⟩] ≠ [] := by simp
  cases w with
  | set =>
      obtain ⟨ret, store, r', hparse, hes⟩ := path_set hne h
      cases last_eq es [] hes
      exact ⟨false, ret, store, hparse, rfl⟩
  | add =>
      obtain ⟨ret, store, r', hparse, hes⟩ := path_add hne h
      cases last_eq es [] hes
      exact ⟨false, ret, store, hparse, rfl⟩
  | cas =>
      obtain ⟨ret, store, r', hparse, hes⟩ := path_cas hne h
      cases last_eq es [] hes
      exact ⟨true, ret, store, hparse, rfl⟩
  | replace =>
      obtain ⟨ret, store, found, es', hparse, hes, hafter⟩ :=
        path_replace hne h
      cases found with
      | none =>
          subst hafter
          cases last_eq es [] hes
          simp [Op.status] at hr
      | some element =>
          obtain ⟨r', rfl⟩ := hafter
          cases last_eq es [_] hes
          exact ⟨false, ret, store, hparse, rfl⟩
  | _ => contradiction

end Storage

/-! ## Commands that end in a store -/

/--
The command `p` ends in a store that succeeds, after the calls `es`.  It finds
`s` and stores in `s₀`, what these calls make of `s`; `s₁` is `s₀` with room made
for the new entry, and `s'` the result.
-/
def StoredBy (env : Env) (p : Command Response) (es : List Event)
    (write : Write) (s s₀ s₁ s' : Store) : Prop :=
  ∃ (op : Op) (r : op.Answer) (resp : Response),
    Prog.Path p (es ++ [⟨op, r⟩]) resp ∧
    Prog.Performs (Op.exec env) es ⟨s, Locks.free⟩ ⟨s₀, Locks.free⟩ ∧
    op.exec env ⟨s₀, Locks.free⟩ = .ok (r, ⟨s', Locks.free⟩) ∧
    op.status r = .success ∧ op.write? = some write ∧
    op.room env s₀ = .ok (true, ⟨s₁, Locks.free⟩)

theorem StoredBy.wrote {env : Env} {p : Command Response} {es : List Event}
    {write : Write} {s s₀ s₁ s' : Store}
    (h : StoredBy env p es write s s₀ s₁ s') :
    ∃ op, Wrote env op write s₀ s₁ s' := by
  obtain ⟨op, r, resp, -, -, hexec, hr, hwrite, hroom⟩ := h
  obtain ⟨s₂, hwrote⟩ := wrote_of_success hwrite (Op.exec_cases hexec).2 hr
  have hsame := hwrote.room
  rw [hroom] at hsame
  cases hsame
  exact ⟨op, hwrote⟩

theorem storedBy_set (env : Env) (times : Times) (input : Bytes) (ret : Int)
    (store : StorageStruct) (s : Store)
    (hparse : cmdProcessCommon times.parse input false false =
      .ok (ret, store)) (hret : ret ≤ 0)
    (hfits : insertFits env store.key store.flags
      (insertToken env times.write.now s) store.data s) :
    StoredBy env (cmdProcessSet times input) []
      ⟨times.write, store.key, store.flags, store.data, store.expTime⟩ s s
      (insertDrawn env times.write.now s)
      (insertStep times.write.now store.key store.flags [] store.data
        store.expTime (insertToken env times.write.now s) s.gTimestamp
        (insertDrawn env times.write.now s)).2 := by
  have hroom : insertLoop env times.write store.key store.flags store.data s =
      .ok (true, ⟨insertDrawn env times.write.now s, Locks.free⟩) :=
    insertLoop_of_fits hfits
  have hexec : dbInsertElement env times.write store.key store.flags []
      store.data store.expTime ⟨s, Locks.free⟩ = .ok (_, ⟨_, Locks.free⟩) :=
    dbInsertElement_of_fits hfits
  rw [insertStep_plain] at hexec
  refine ⟨.insert times.write store.key store.flags [] store.data
    store.expTime, .success, answer store.noreply (ascii "STORED\r\n"), ?_,
    .nil _, hexec, rfl, rfl, hroom⟩
  simp only [cmdProcessSet, storage, parsed, hparse,
    not_lt.mpr hret, if_false]
  exact .call (.done _)

end Memstashed.Scmd
