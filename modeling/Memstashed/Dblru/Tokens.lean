import Memstashed.Dblru.Frame

/-!
# Cas tokens

`dbInsertElement` draws its tokens from one generator that lives as long as the
program; `dbAddElement` seeds a generator of its own with the current second and
takes its first value.
-/

namespace Memstashed.Dblru

open Memstashed.Foundation

/-- Where a token comes from: a call of `dbAddElement` in some second, or the
static generator with its seed at some position. -/
inductive Mark where
  | add (second : Nat)
  | draw (seed n : Nat)
  deriving DecidableEq, Repr

def Mark.token (env : Env) : Mark → Bytes
  | .add second => addToken env second
  | .draw seed n => toDecimal (env.mt19937_64 seed n)

def nextDraw (now : Nat) (s : Store) : Nat × Nat := s.generator.getD (now, 0)

def Op.mark? (s : Store) : Op → Option Mark
  | .insert clock _ _ _ _ _ =>
      some (.draw (nextDraw clock.now s).1 (nextDraw clock.now s).2)
  | .add clock _ _ _ _ _ => some (.add clock.now)
  | _ => none

theorem insertToken_eq (env : Env) (now : Nat) (s : Store) :
    insertToken env now s =
      (Mark.draw (nextDraw now s).1 (nextDraw now s).2).token env := by
  cases hgenerator : s.generator with
  | none => simp [insertToken, nextToken, nextTimestamp, nextDraw, hgenerator,
      Mark.token]
  | some pair => simp [insertToken, nextToken, nextTimestamp, nextDraw,
      hgenerator, Mark.token]

theorem insertDrawn_generator (env : Env) (now : Nat) (s : Store) :
    (insertDrawn env now s).generator =
      some ((nextDraw now s).1, (nextDraw now s).2 + 1) := by
  cases hgenerator : s.generator with
  | none => simp [insertDrawn, nextToken, nextTimestamp, nextDraw, hgenerator]
  | some pair =>
      simp [insertDrawn, nextToken, nextTimestamp, nextDraw, hgenerator]

section Steps

variable {env : Env} {s s' : Store} {op : Op} {r : RetStatus}

theorem Op.token_eq {m : Mark} (h : op.mark? s = some m) :
    op.token env s = m.token env := by
  cases op with
  | insert clock key flags casUniq value expiry =>
      cases h
      exact insertToken_eq env clock.now s
  | add clock key flags casUniq value expiry =>
      cases h
      rfl
  | _ => contradiction

theorem insertStep_generator (now : Nat) (key flags casUniq value : Bytes)
    (expiry : Nat) (token : Bytes) (timestamp : TimestampType) (s : Store) :
    (insertStep now key flags casUniq value expiry token timestamp
      s).2.generator = s.generator := by
  cases hlookup :
      (s.gKeyToValueHashMap (getHashTblNbrFromKey key)).lookup key with
  | none =>
      by_cases hcas : casUniq = []
      · rw [insertStep_created hlookup hcas]
        rfl
      · rw [insertStep_notExist hlookup hcas]
  | some it =>
      by_cases hcas : casUniq ≠ [] ∧ it.1.casUniq ≠ casUniq
      · rw [insertStep_refused hlookup hcas]
      · rw [insertStep_overwrite hlookup hcas]
        rfl

theorem addStep_generator (now : Nat) (key flags value : Bytes)
    (expiry : Nat) (token : Bytes) (timestamp : TimestampType) (s : Store) :
    (addStep now key flags value expiry token timestamp s).2.generator =
      s.generator := by
  cases hlookup :
      (s.gKeyToValueHashMap (getHashTblNbrFromKey key)).lookup key with
  | none =>
      rw [addStep_created hlookup]
      rfl
  | some it =>
      by_cases hdead : Dead s now it
      · rw [addStep_revived hlookup hdead]
        rfl
      · rw [addStep_exist hlookup hdead]

def Op.generator (s : Store) : Op → Option (Nat × Nat)
  | .insert clock _ _ _ _ _ =>
      some ((nextDraw clock.now s).1, (nextDraw clock.now s).2 + 1)
  | _ => s.generator

theorem StoreStep.generator (h : StoreStep env s op r s') :
    s'.generator = op.generator s := by
  cases h with
  | insert casUniq expiry room =>
      rw [insertStep_generator,
        (shrinks_evictsMany (insertLoop_spec room).1).generator]
      exact insertDrawn_generator env _ s
  | insertFull casUniq expiry full =>
      rw [(shrinks_evictsMany (insertLoop_spec full).1).generator]
      exact insertDrawn_generator env _ s
  | add flags casUniq expiry room =>
      rw [addStep_generator,
        (shrinks_evictsMany (addLoop_spec room).1).generator]
      rfl
  | addFull flags casUniq expiry full =>
      rw [(shrinks_evictsMany (addLoop_spec full).1).generator]
      rfl
  | get now key =>
      exact getStep_keeps (P := fun t => t.generator = s.generator) rfl
        (fun _ _ _ => rfl) (fun _ _ _ => rfl)
  | delete now key expiry =>
      exact deleteSection_keeps (P := fun t => t.generator = s.generator) rfl
        (fun _ _ _ _ => rfl) (fun _ _ _ => rfl)
  | setFlushAll now expiry => rfl
  | handleFlushAll now =>
      unfold handleFlush
      split
      · rfl
      · rfl

theorem entry_of_swapped {clock : Clock} {key flags casUniq value : Bytes}
    {expiry : Nat} (hcas : casUniq ≠ [])
    (h : StoreStep env s (.insert clock key flags casUniq value expiry) r s')
    (hr : r = .success) :
    ∃ it, s.entry key = some it ∧ it.1.casUniq = casUniq := by
  cases h with
  | insertFull casUniq expiry full => contradiction
  | @insert _ _ _ _ s₁ casUniq expiry room =>
      have hshrinks := (shrinks_evictsMany (insertLoop_spec room).1).entry key
      cases hlookup :
          (s₁.gKeyToValueHashMap (getHashTblNbrFromKey key)).lookup key with
      | none =>
          rw [insertStep_notExist hlookup hcas] at hr
          contradiction
      | some it =>
          have hsome : s₁.entry key = some it := hlookup
          have hentry : s.entry key = some it := by
            rw [hsome] at hshrinks
            simpa [Store.entry, eq_comm] using hshrinks
          refine ⟨it, hentry, ?_⟩
          by_contra hother
          rw [insertStep_refused hlookup ⟨hcas, hother⟩] at hr
          contradiction

end Steps

end Memstashed.Dblru
