import Memstashed.Scmd.Headers

/-!
# Which keys exist

Every command that depends on a key being there finds out in the same way,
although the source writes the test out anew in each of three functions: the
map has an entry for the key that is neither expired nor flushed.
-/

namespace Memstashed.Scmd

open Memstashed.Foundation
open Memstashed.Dblru

def Replies (env : Env) (p : Command Response) (s : Store) (output : Bytes) :
    Prop :=
  ∃ t, p.run env ⟨s, Locks.free⟩ = .ok (⟨0, output⟩, t)

/--
All commands take the key for present, or all of them take it for absent.  The
requests are those of which the handler reads this key; a request that wants no
answer has none to tell the cases apart by.  An `add` that has to evict first may
evict the key itself.
-/
structure Treats (env : Env) (s : Store) (now : Nat) (key : KeyType)
    (present : Prop) : Prop where
  get : ∀ input, getKeys input = .ok [key] →
    ((∃ element, Replies env (cmdProcessGet (.const now) input) s
      (valueItem false key element ++ ascii "END\r\n")) ↔ present)
  gets : ∀ input, getKeys input = .ok [key] →
    ((∃ element, Replies env (cmdProcessGets (.const now) input) s
      (valueItem true key element ++ ascii "END\r\n")) ↔ present)
  deleteElement :
    (∃ t, dbDeleteElement now key 0 ⟨s, Locks.free⟩ = .ok (.success, t)) ↔
      present
  addElement : ∀ flags casUniq value expiry, addFits env key value s →
    ((∃ t, dbAddElement env (.const now) key flags casUniq value expiry
      ⟨s, Locks.free⟩ = .ok (.exist, t)) ↔ present)
  replace : ∀ input ret store,
    cmdProcessCommon now input false false = .ok (ret, store) → ret ≤ 0 →
    store.key = key → store.noreply = false →
    (¬ Replies env (cmdProcessReplace (.const now) input) s
      (ascii "NOT_STORED\r\n") ↔ present)
  append : ∀ input ret store,
    extendRequest now input = .ok (ret, store) → ret ≤ 0 →
    store.key = key → store.noreply = false →
    (¬ Replies env (cmdProcessAppend (.const now) input) s
      (ascii "NOT_STORED\r\n") ↔ present)
  prepend : ∀ input ret store,
    extendRequest now input = .ok (ret, store) → ret ≤ 0 →
    store.key = key → store.noreply = false →
    (¬ Replies env (cmdProcessPrepend (.const now) input) s
      (ascii "NOT_STORED\r\n") ↔ present)
  incr : ∀ input value, counterRequest input = .ok (key, value, false) →
    (¬ Replies env (cmdProcessIncr (.const now) input) s
      (ascii "NOT_FOUND\r\n") ↔ present)
  decr : ∀ input value, counterRequest input = .ok (key, value, false) →
    (¬ Replies env (cmdProcessDecr (.const now) input) s
      (ascii "NOT_FOUND\r\n") ↔ present)
  touch : ∀ input expTime, touchRequest input = .ok (key, expTime, false) →
    (¬ Replies env (cmdProcessTouch (.const now) input) s
      (ascii "NOT_FOUND\r\n") ↔ present)

/-! ## The commands that look before they act -/

section Lookup

variable {env : Env} {s : Store} {now : Nat} {key : KeyType} {text : Bytes}

theorem replies_missing {missing : Command Response}
    {found : Element → Command Response} (hmissing : missing = .done ⟨0, text⟩)
    (hfound : ∀ element,
      Prog.Yields (fun resp => resp.output ≠ text) (found element)) :
    ¬ Replies env (Command.get now key >>= fun r =>
        match r with
        | none => missing
        | some element => found element) s text ↔ Visible s now key := by
  rw [← getStep_isSome, Replies]
  simp only [run_get]
  cases hget : (getStep now key s).1 with
  | none =>
      simp only [hmissing, Option.isSome_none, Bool.false_eq_true, iff_false,
        not_not]
      exact ⟨_, rfl⟩
  | some element =>
      simp only [Option.isSome_some, iff_true]
      rintro ⟨t, hrun⟩
      exact (hfound element).run _ hrun rfl

theorem insertAndAnswer_yields {times : Times} {key flags value : Bytes}
    {expiry : Nat} {output : Bytes} (hfull : memoryFullText ≠ text)
    (houtput : output ≠ text) :
    Prog.Yields (fun resp => resp.output ≠ text)
      (insertAndAnswer times key flags value expiry false output) := by
  refine .bind _ fun r => ?_
  exact yields_ite (.done hfull) (.done houtput)

theorem storage_eq {request : Parse (Int × StorageStruct)}
    {act : StorageStruct → Command Response} {ret : Int}
    {store : StorageStruct} (hparse : request = .ok (ret, store))
    (hret : ret ≤ 0) : storage request act = act store := by
  simp only [storage, parsed, hparse, not_lt.mpr hret, if_false]

theorem extend_missing (join : Bytes → Bytes → Bytes) {input : Bytes}
    {ret : Int} {store : StorageStruct}
    (hparse : extendRequest now input = .ok (ret, store)) (hret : ret ≤ 0)
    (hkey : store.key = key) (hreply : store.noreply = false) :
    ¬ Replies env (cmdProcessExtend join (.const now) input) s
      (ascii "NOT_STORED\r\n") ↔ Visible s now key := by
  subst hkey
  have hparse' : extendRequest (Times.const now).parse input =
    .ok (ret, store) := hparse
  rw [cmdProcessExtend, storage_eq hparse' hret, hreply]
  refine replies_missing rfl fun element => ?_
  exact insertAndAnswer_yields (by decide) (by decide)

theorem toDecimal_crlf_ne_notFound (n : Nat) :
    toDecimal n ++ crlf ≠ ascii "NOT_FOUND\r\n" := by
  intro heq
  have hmem : (78 : UInt8) ∈ toDecimal n ++ crlf := by
    rw [heq]
    decide
  rcases List.mem_append.mp hmem with hdigit | hend
  · have := isDigitByte_of_mem_toDecimal hdigit
    contradiction
  · exact absurd hend (by decide)

theorem counter_missing (combine : Nat → Nat → Nat) {input value : Bytes}
    (hparse : counterRequest input = .ok (key, value, false)) :
    ¬ Replies env (cmdProcessCounter combine (.const now) input) s
      (ascii "NOT_FOUND\r\n") ↔ Visible s now key := by
  rw [cmdProcessCounter]
  simp only [parsed, hparse]
  refine replies_missing rfl fun element => ?_
  refine .bind _ fun inputValue => ?_
  refine .bind _ fun oldValue => ?_
  refine yields_ite (.done (by decide)) ?_
  exact insertAndAnswer_yields (by decide) (toDecimal_crlf_ne_notFound _)

theorem get_emits (withCas : Bool) {input : Bytes}
    (hkeys : getKeys input = .ok [key]) :
    (∃ element, Replies env (cmdProcessGetWith withCas (.const now) input) s
      (valueItem withCas key element ++ ascii "END\r\n")) ↔
      Visible s now key := by
  have hread : cmdProcessGetWith withCas (.const now) input =
      Command.get now key >>= fun r =>
        match r with
        | none => .done ⟨0, ascii "END\r\n"⟩
        | some element =>
            .done ⟨0, valueItem withCas key element ++ ascii "END\r\n"⟩ := by
    simp only [cmdProcessGetWith, parsed, hkeys]
    refine congrArg (Prog.call (Op.get now key)) (funext fun found => ?_)
    cases found with
    | none => rfl
    | some element => rfl
  rw [← getStep_isSome, hread]
  simp only [Replies, run_get]
  cases hget : (getStep now key s).1 with
  | none =>
      simp only [Option.isSome_none, Bool.false_eq_true, iff_false]
      rintro ⟨element, t, hrun⟩
      have houtput : ascii "END\r\n" =
          valueItem withCas key element ++ ascii "END\r\n" := by
        injection hrun with hpair
        injection hpair with hresp
        injection hresp
      have hlength := congrArg List.length houtput
      simp [valueItem, ascii] at hlength
  | some element =>
      simp only [Option.isSome_some, iff_true]
      exact ⟨element, _, rfl⟩

end Lookup

/-! ## Agreement -/

section Agreement

variable {env : Env} {s : Store} {now : Nat} {key : KeyType}

theorem deleteElement_success :
    (∃ t, dbDeleteElement now key 0 ⟨s, Locks.free⟩ = .ok (.success, t)) ↔
      Visible s now key := by
  rw [dbDeleteElement_free]
  cases hlookup :
      (s.gKeyToValueHashMap (getHashTblNbrFromKey key)).lookup key with
  | none => simp [deleteSection, Visible, hlookup]
  | some it =>
      by_cases hdead : Dead s now it
      · simp [deleteSection, Visible, hlookup, hdead]
      · simp [deleteSection, Visible, hlookup, hdead]

theorem addElement_exist {clock : Clock} {flags casUniq value : Bytes}
    {expiry : Nat} (hfits : addFits env key value s) :
    (∃ t, dbAddElement env clock key flags casUniq value expiry
      ⟨s, Locks.free⟩ = .ok (.exist, t)) ↔ Visible s clock.now key := by
  rw [dbAddElement_free, addLoop_of_fits hfits]
  -- Drawing a timestamp changes neither the entry nor whether it is dead.
  have hdrawn : Visible (nextTimestamp s).2 clock.now key ↔
      Visible s clock.now key := Iff.rfl
  rw [← hdrawn]
  generalize (nextTimestamp s).2 = s₁
  cases hlookup :
      (s₁.gKeyToValueHashMap (getHashTblNbrFromKey key)).lookup key with
  | none => simp [addStep_created hlookup, Visible, hlookup]
  | some it =>
      by_cases hdead : Dead s₁ clock.now it
      · simp [addStep_revived hlookup hdead, Visible, hlookup, hdead]
      · simp [addStep_exist hlookup hdead, Visible, hlookup, hdead]

theorem treats_visible : Treats env s now key (Visible s now key) where
  get _ hkeys := get_emits false hkeys
  gets _ hkeys := get_emits true hkeys
  deleteElement := deleteElement_success
  addElement _ _ _ _ hfits := addElement_exist hfits
  replace input ret store hparse hret hkey hreply := by
    subst hkey
    have hparse' : cmdProcessCommon (Times.const now).parse input false false =
      .ok (ret, store) := hparse
    rw [cmdProcessReplace, storage_eq hparse' hret, hreply]
    refine replies_missing rfl fun element => ?_
    exact insertAndAnswer_yields (by decide) (by decide)
  append _ _ _ hparse hret hkey hreply :=
    extend_missing _ hparse hret hkey hreply
  prepend _ _ _ hparse hret hkey hreply :=
    extend_missing _ hparse hret hkey hreply
  incr _ _ hparse := counter_missing _ hparse
  decr _ _ hparse := counter_missing _ hparse
  touch input expTime hparse := by
    simp only [cmdProcessTouch, parsed, hparse]
    refine replies_missing rfl fun element => .bind _ fun r => ?_
    exact yields_ite (.done (by decide)) (.done (by decide))

theorem not_visible_of_deleted {s' : Store} {locks : Locks}
    (hdelete : dbDeleteElement now key 0 ⟨s, Locks.free⟩ =
      .ok (.success, ⟨s', locks⟩)) (later : Nat) : ¬ Visible s' later key := by
  rw [dbDeleteElement_free] at hdelete
  cases hlookup :
      (s.gKeyToValueHashMap (getHashTblNbrFromKey key)).lookup key with
  | none => simp [deleteSection, hlookup] at hdelete
  | some it =>
      by_cases hdead : Dead s now it
      · simp [deleteSection, hlookup, hdead] at hdelete
      · simp only [deleteSection, hlookup, hdead, if_false, if_true,
          Except.ok.injEq, Prod.mk.injEq, State.mk.injEq] at hdelete
        obtain ⟨-, rfl, -⟩ := hdelete
        simp [Visible]

end Agreement

/--
In every store and at every time, the commands agree about every key: present
means that its entry is neither expired nor flushed.  After a delete that
succeeds they agree that it is absent, whatever the time.
-/
theorem commands_agree_on_presence (env : Env) (s : Store) (now : Nat)
    (key : KeyType) :
    Treats env s now key (Visible s now key) ∧
      ∀ t, dbDeleteElement now key 0 ⟨s, Locks.free⟩ = .ok (.success, t) →
        t.locks = Locks.free ∧ ∀ later, Treats env t.store later key False := by
  refine ⟨treats_visible, ?_⟩
  rintro ⟨s', locks⟩ hdelete
  have hfree : locks = Locks.free := by
    rw [dbDeleteElement_free] at hdelete
    injection hdelete with hpair
    injection hpair with _ hstate
    injection hstate with _ hlocks
    exact hlocks.symm
  refine ⟨hfree, fun later => ?_⟩
  have habsent := not_visible_of_deleted hdelete later
  have htreats : Treats env s' later key (Visible s' later key) :=
    treats_visible
  rwa [eq_false habsent] at htreats

/-- A key that is read before a delete and not after it. -/
theorem commands_agree_on_presence_deleted :
    let s := Store.init.setEntry (getHashTblNbrFromKey (ascii "k")) (ascii "k")
        (⟨2000, ascii "v", ascii "0", ascii "7"⟩, 0)
    (∃ element, Replies Env.x86
        (cmdProcessGet (.const 1000) (ascii "get k\r\n")) s
        (valueItem false (ascii "k") element ++ ascii "END\r\n")) ∧
      ∃ t, dbDeleteElement 1000 (ascii "k") 0 ⟨s, Locks.free⟩ =
          .ok (.success, t) ∧
        ¬ ∃ element, Replies Env.x86
          (cmdProcessGets (.const 1000) (ascii "gets k\r\n")) t.store
          (valueItem true (ascii "k") element ++ ascii "END\r\n") := by
  intro s
  obtain ⟨hbefore, hdeleted⟩ :=
    commands_agree_on_presence Env.x86 s 1000 (ascii "k")
  have hvisible : Visible s 1000 (ascii "k") := by decide
  obtain ⟨t, hdelete⟩ := hbefore.deleteElement.mpr hvisible
  refine ⟨(hbefore.get (ascii "get k\r\n") (by decide)).mpr hvisible, t, hdelete,
    ?_⟩
  exact ((hdeleted t hdelete).2 1000).gets (ascii "gets k\r\n") (by decide) |>.mp

end Memstashed.Scmd
