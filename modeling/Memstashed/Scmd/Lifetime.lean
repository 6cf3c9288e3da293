import Memstashed.Scmd.Events
import Memstashed.Scmd.Lines

/-!
# The lifetime of an item

The `exptime` of a request says how long the item can be read.  The parser makes
a difference of an absolute time, the new entry takes no difference for "never",
and an entry that is overwritten takes it for "now" and keeps the timestamp
that a flush is compared with.
-/

namespace Memstashed.Scmd

open Memstashed.Foundation
open Memstashed.Dblru

/-! ## What is asked for -/

def exptimeField (line : Bytes) : Option Nat :=
  ((line.splitOn space)[3]?).bind fun text => (stoul text).toOption

def Lives (e t t' : Nat) : Prop :=
  e = 0 ∨ (0 < e ∧ e ≤ expiryThreshold ∧ t' ≤ t + e) ∨
    (expiryThreshold < e ∧ t' ≤ e)

def Hits (s : Store) (now : Nat) (key : KeyType) : Prop :=
  ∃ element t, dbGetElement now key ⟨s, Locks.free⟩ = .ok (some element, t)

theorem hits_iff_visible {s : Store} {now : Nat} {key : KeyType} :
    Hits s now key ↔ Visible s now key := by
  rw [← getStep_isSome]
  unfold Hits
  rw [dbGetElement_free]
  constructor
  · rintro ⟨element, t, heq⟩
    simp only [Except.ok.injEq, Prod.mk.injEq] at heq
    simp [heq.1]
  · intro hsome
    obtain ⟨element, helement⟩ := Option.isSome_iff_exists.mp hsome
    exact ⟨element, _, by rw [helement]⟩

/--
A step that neither writes, deletes, flushes nor evicts the key: it leaves the
entry and the flush stamp alone, or it reads the key, at the latest at `t'` and
before the counter of timestamps has wrapped.
-/
inductive Undisturbed (env : Env) (key : KeyType) (t' : Nat) :
    Store → Store → Prop
  | apart {s s' : Store} {op : Op} {r : RetStatus} :
      StoreStep env s op r s' → s'.entry key = s.entry key →
      s'.gFlushAllTimestamp = s.gFlushAllTimestamp →
      Undisturbed env key t' s s'
  | read {s s' : Store} {now : Nat} {r : RetStatus} :
      StoreStep env s (.get now key) r s' → now ≤ t' →
      s.gFlushAllTimestamp ≤ s.gTimestamp → Undisturbed env key t' s s'

/-! ## What stays visible -/

section Visibility

variable {env : Env} {key : KeyType} {t' : Nat}

theorem visible_getStep {s : Store} {now : Nat} (hnow : now ≤ t')
    (hstamp : s.gFlushAllTimestamp ≤ s.gTimestamp) :
    Visible (getStep now key s).2 t' key ↔ Visible s t' key := by
  rw [visible_iff_entry, visible_iff_entry]
  cases hlookup :
      (s.gKeyToValueHashMap (getHashTblNbrFromKey key)).lookup key with
  | none =>
      have hnone : s.entry key = none := hlookup
      have hafter : (nextTimestamp s).2.entry key = none := hlookup
      simp [getStep_absent hlookup, hnone, hafter]
  | some it =>
      have hsome : s.entry key = some it := hlookup
      by_cases hdead : Dead s now it
      · have hafter : ((nextTimestamp s).2.eraseKey
            (getHashTblNbrFromKey key) key).entry key = none := by
          simp [Store.entry]
        rw [getStep_dead hlookup hdead, hafter, hsome]
        simp only [reduceCtorEq, false_and, exists_false, false_iff,
          Option.some.injEq, exists_eq_left', not_and, not_le]
        intro hlive
        -- what is expired at `now` is expired at `t'`
        rcases hdead with hexpired | hflushed
        · exact absurd (hexpired.trans_le hnow) (not_lt.mpr hlive)
        · exact hflushed
      · have hafter : (getStep now key s).2.entry key =
            some (it.1, s.gTimestamp) := by
          rw [getStep_live hlookup hdead]
          exact entry_setEntry_self _ key _
        have hflush : (getStep now key s).2.gFlushAllTimestamp =
            s.gFlushAllTimestamp := by
          rw [getStep_live hlookup hdead]
          rfl
        have hkept : s.gFlushAllTimestamp ≤ it.2 := by
          by_contra hflushed
          exact hdead (.inr (not_le.mp hflushed))
        rw [hafter, hsome, hflush]
        simp [hstamp, hkept]

theorem visible_of_undisturbed {s s' : Store}
    (h : Undisturbed env key t' s s') :
    Visible s' t' key ↔ Visible s t' key := by
  cases h with
  | apart _ hentry hflush =>
      rw [visible_iff_entry, visible_iff_entry, hentry, hflush]
  | read hstep hnow hstamp =>
      cases hstep
      exact visible_getStep hnow hstamp

theorem visible_of_undisturbed_many {s s' : Store}
    (h : Relation.ReflTransGen (Undisturbed env key t') s s') :
    Visible s' t' key ↔ Visible s t' key := by
  induction h with
  | refl => exact Iff.rfl
  | tail _ hstep ih => exact (visible_of_undisturbed hstep).trans ih

end Visibility

/-! ## What a store makes of the exptime -/

def relativeExpiry (t e : Nat) : Nat :=
  if expiryThreshold < e then wordSub e t else e

theorem expiryField_eq {now e x : Nat} {text : Bytes}
    (hfield : expiryField now text = .ok x) (he : stoul text = .ok e) :
    x = relativeExpiry now e := by
  simp only [expiryField, stoulOr, he, Parse.ok_bind, Parse.pure_eq,
    Except.ok.injEq] at hfield
  rw [← hfield]
  rfl

theorem StoredBy.expiry {env : Env} {t : Nat} {w : Word} {input : Bytes}
    {es : List Event} {write : Write} {s s₀ s₁ s' : Store} {e : Nat}
    (hw : w.storesData = true) (hcrlf : crlf <:+ input)
    (hsize : input.length + 2 < wordSize)
    (h : StoredBy env (w.process (.const t) input) es write s s₀ s₁ s')
    (he : exptimeField (lineOf input) = some e) :
    write.clock.now = t ∧ write.expiry = relativeExpiry t e := by
  obtain ⟨op, r, resp, hpath, -, -, hr, hwrite, -⟩ := h
  obtain ⟨isCas, ret, store, hparse, hfields⟩ :=
    path_storesData hw hpath hr
  rw [hwrite] at hfields
  cases hfields
  rw [cmdProcessCommon_full (framed_of_crlf hcrlf.isInfix hsize)] at hparse
  obtain ⟨word, text, rest, bytesStr, hline, hfield, -⟩ := commonOf_ok hparse
  have htext : stoul text = .ok e := by
    simp only [exptimeField, hline, List.getElem?_cons_succ,
      List.getElem?_cons_zero, Option.bind_some] at he
    cases hnumber : stoul text with
    | error ex => simp [hnumber, Except.toOption] at he
    | ok n => simpa [hnumber, Except.toOption] using he
  exact ⟨rfl, expiryField_eq hfield htext⟩

/-- The store keeps what the request says: with an absolute time in the past
nothing is readable anyway; a new entry must not have the absolute time "now",
and an old one must not be asked to stay for ever, or be flushed. -/
def KeepsLifetime (t e stamp flush : Nat) (old : Option MapEntry) : Prop :=
  (expiryThreshold < e ∧ e < t) ∨
    match old with
    | none => ¬ (expiryThreshold < e ∧ e = t) ∧ flush ≤ stamp
    | some it => (e = 0 → t = wordMax) ∧ flush ≤ it.2

section Arithmetic

variable {t e : Nat} (hclock : t + e < wordSize)

include hclock

theorem toWord_relativeExpiry :
    toWord (t + relativeExpiry t e) =
      if expiryThreshold < e then e else t + e := by
  unfold relativeExpiry
  split
  · exact toWord_add_wordSub (by omega)
  · exact toWord_of_lt hclock

theorem relativeExpiry_eq_zero :
    relativeExpiry t e = 0 ↔ e = 0 ∨ (expiryThreshold < e ∧ e = t) := by
  unfold relativeExpiry wordSub expiryThreshold
  unfold wordSize at hclock
  split
  · omega
  · omega

theorem newExpiry_relativeExpiry :
    newExpiry t (relativeExpiry t e) =
      if e = 0 ∨ (expiryThreshold < e ∧ e = t) then wordMax
      else if expiryThreshold < e then e else t + e := by
  simp only [newExpiry, ne_eq, relativeExpiry_eq_zero hclock,
    toWord_relativeExpiry hclock, ite_not]

theorem keepsLifetime_iff (w : Write) (token : Bytes) (stamp flush : Nat)
    (old : Option MapEntry) (hnow : w.clock.now = t)
    (hexpiry : w.expiry = relativeExpiry t e) :
    (∀ t', t ≤ t' → t' < wordSize →
      (t' ≤ (w.entry token stamp old).1.expiry ∧
        flush ≤ (w.entry token stamp old).2 ↔ Lives e t t')) ↔
      KeepsLifetime t e stamp flush old := by
  have hsize := hclock
  unfold wordSize at hsize
  cases old with
  | none =>
      have hlimit := newExpiry_relativeExpiry hclock
      simp only [Write.entry, hnow, hexpiry, KeepsLifetime, Lives]
      generalize newExpiry t (relativeExpiry t e) = x at hlimit ⊢
      unfold wordMax wordSize at *
      constructor
      · intro h
        have hfirst := h t le_rfl (by omega)
        have hnext := h (t + 1) (by omega)
        split_ifs at hlimit
        · omega
        · omega
        · omega
      · intro h t' hle hlt
        split_ifs at hlimit
        · omega
        · omega
        · omega
  | some it =>
      have hlimit := toWord_relativeExpiry hclock
      simp only [Write.entry, hnow, hexpiry, KeepsLifetime, Lives]
      generalize toWord (t + relativeExpiry t e) = x at hlimit ⊢
      unfold wordMax wordSize at *
      constructor
      · intro h
        have hfirst := h t le_rfl (by omega)
        have hnext := h (t + 1) (by omega)
        split_ifs at hlimit
        · omega
        · omega
      · intro h t' hle hlt
        split_ifs at hlimit
        · omega
        · omega

end Arithmetic

/-! ## The commands that store -/

/--
An item that `set`, `add`, `replace` or `cas` stores at `t` lives as long as its
exptime says exactly when the request and the entry it finds in the map meet
`KeepsLifetime`.
-/
theorem lifetime_iff (env : Env) (w : Word) (t e : Nat) (input : Bytes)
    (es : List Event) (write : Write) (s s₀ s₁ s' : Store)
    (hw : w.storesData = true)
    (hcrlf : crlf <:+ input) (hsize : input.length + 2 < wordSize)
    (hstored : StoredBy env (w.process (.const t) input) es write s s₀ s₁ s')
    (he : exptimeField (lineOf input) = some e)
    (hclock : t + e < wordSize) :
    (∀ t', t ≤ t' → t' < wordSize → ∀ s'',
      Relation.ReflTransGen (Undisturbed env write.key t') s' s'' →
        (Hits s'' t' write.key ↔ Lives e t t')) ↔
      KeepsLifetime t e s₀.gTimestamp s₁.gFlushAllTimestamp
        (s₁.entry write.key) := by
  obtain ⟨hnow, hexpiry⟩ := hstored.expiry hw hcrlf hsize he
  obtain ⟨op, hwrote⟩ := hstored.wrote
  rw [← keepsLifetime_iff hclock write (op.token env s₀) s₀.gTimestamp
    s₁.gFlushAllTimestamp (s₁.entry write.key) hnow hexpiry]
  constructor
  · intro h t' hle hlt
    rw [← h t' hle hlt s' .refl, hits_iff_visible, visible_of_wrote hwrote]
  · intro h t' hle hlt s'' hsteps
    rw [← h t' hle hlt, hits_iff_visible, visible_of_undisturbed_many hsteps,
      visible_of_wrote hwrote]

/-- A new key stored for ten seconds. -/
theorem lifetime_tenSeconds :
    ∃ s', StoredBy Env.x86
        (cmdProcessSet (.const 1000) (ascii "set k 0 10 1\r\nv\r\n")) []
        ⟨.const 1000, ascii "k", ascii "0", ascii "v", 10⟩ Store.init Store.init
        (insertDrawn Env.x86 1000 Store.init) s' ∧
      ∀ t', 1000 ≤ t' → t' < wordSize → ∀ s'',
        Relation.ReflTransGen (Undisturbed Env.x86 (ascii "k") t') s' s'' →
          (Hits s'' t' (ascii "k") ↔ Lives 10 1000 t') := by
  have hstored := storedBy_set Env.x86 (.const 1000)
    (ascii "set k 0 10 1\r\nv\r\n") 0
    ⟨ascii "k", ascii "0", 10, 1, [], false, ascii "v"⟩ Store.init (by decide)
    (by decide) (by decide +kernel)
  have hkeeps : KeepsLifetime 1000 10 0 0 none := .inr ⟨by decide, le_rfl⟩
  exact ⟨_, hstored, (lifetime_iff Env.x86 .set 1000 10 _ _ _ _ _ _ _ rfl
    ⟨ascii "set k 0 10 1\r\nv", by decide⟩ (by decide) hstored (by decide)
    (by decide)).mpr hkeeps⟩

/-- Stored a second time to stay for ever, a key is gone after one second. -/
theorem lifetime_ends_on_overwrite :
    ¬ ∀ (env : Env) (w : Word) (t e : Nat) (input : Bytes)
        (es : List Event) (write : Write) (s s₀ s₁ s' : Store),
      w.storesData = true → crlf <:+ input → input.length + 2 < wordSize →
      StoredBy env (w.process (.const t) input) es write s s₀ s₁ s' →
      exptimeField (lineOf input) = some e → t + e < wordSize →
      ∀ t', t ≤ t' → t' < wordSize → ∀ s'',
        Relation.ReflTransGen (Undisturbed env write.key t') s' s'' →
          (Hits s'' t' write.key ↔ Lives e t t') := by
  intro hall
  have hstored := storedBy_set Env.x86 (.const 1000)
    (ascii "set k 0 0 1\r\nv\r\n") 0
    ⟨ascii "k", ascii "0", 0, 1, [], false, ascii "v"⟩
    (insertStep 1000 (ascii "k") (ascii "0") [] (ascii "v") 0
      (insertToken Env.x86 1000 Store.init) 0
      (insertDrawn Env.x86 1000 Store.init)).2 (by decide) (by decide)
    (by decide +kernel)
  have hlives := (hall Env.x86 .set 1000 0 _ _ _ _ _ _ _ rfl
    ⟨ascii "set k 0 0 1\r\nv", by decide⟩ (by decide) hstored (by decide)
    (by decide) 1001 (by decide) (by decide) _ .refl).mpr (.inl rfl)
  rw [hits_iff_visible] at hlives
  exact absurd hlives (by decide +kernel)

end Memstashed.Scmd
