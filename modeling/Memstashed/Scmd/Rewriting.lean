import Memstashed.Dblru.Tokens
import Memstashed.Dblru.Writes
import Memstashed.Scmd.Commands

/-!
# Items that are read and stored again

`append`, `prepend`, `incr`, `decr` and `touch` read an item and store it again
under the same key.  What that comes to when the item is live and nothing has to
be evicted for it.
-/

namespace Memstashed.Scmd

open Memstashed.Foundation
open Memstashed.Dblru

variable {env : Env} {s : Store} {t : Nat} {key : KeyType} {it : MapEntry}

theorem reads_live (hit : s.entry key = some it) (hlive : ¬ Dead s t it) :
    (getStep t key s).1 =
        some ⟨it.1.flags, it.1.casUniq, it.1.value, wordSub it.1.expiry t⟩ ∧
      (getStep t key s).2.entry key = some (it.1, s.gTimestamp) ∧
      (∀ other, other ≠ key → (getStep t key s).2.entry other = s.entry other) ∧
      (getStep t key s).2.gStoredSize = s.gStoredSize ∧
      (getStep t key s).2.generator = s.generator := by
  rw [getStep_live hit hlive]
  refine ⟨rfl, entry_setEntry_self _ key _, ?_, rfl, rfl⟩
  intro other hother
  exact entry_setEntry_ne (nextTimestamp s).2 _ hother

theorem fits_after_read {now : Nat} {flags value : Bytes}
    (hit : s.entry key = some it) (hlive : ¬ Dead s t it)
    (hfits : insertFits env key flags (insertToken env now s) value s) :
    insertToken env now (getStep t key s).2 = insertToken env now s ∧
      insertFits env key flags (insertToken env now (getStep t key s).2) value
        (getStep t key s).2 := by
  obtain ⟨-, -, -, hsize, hgenerator⟩ := reads_live hit hlive
  have htoken : insertToken env now (getStep t key s).2 =
      insertToken env now s := by
    rw [insertToken_eq, insertToken_eq, nextDraw, nextDraw, hgenerator]
  constructor
  · exact htoken
  · rw [htoken]
    simp only [insertFits, hsize] at hfits ⊢
    exact hfits

theorem overwrite_wrote (clock : Clock) (flags casUniq value : Bytes) (e : Nat)
    (hit : s.entry key = some it)
    (hcas : ¬ (casUniq ≠ [] ∧ it.1.casUniq ≠ casUniq))
    (hfits : insertFits env key flags (insertToken env clock.now s) value s) :
    ∃ s', dbInsertElement env clock key flags casUniq value e
        ⟨s, Locks.free⟩ = .ok (.success, ⟨s', Locks.free⟩) ∧
      s'.entry key = some (⟨toWord (clock.now + e), value, flags,
        insertToken env clock.now s⟩, it.2) ∧
      ∀ other, other ≠ key → s'.entry other = s.entry other := by
  have hthere : ((insertDrawn env clock.now s).gKeyToValueHashMap
      (getHashTblNbrFromKey key)).lookup key = some it := by
    rw [insertDrawn_gKeyToValueHashMap]
    exact hit
  have hexec : dbInsertElement env clock key flags casUniq value e
      ⟨s, Locks.free⟩ = .ok (_, ⟨_, Locks.free⟩) :=
    dbInsertElement_of_fits hfits
  rw [insertStep_overwrite hthere hcas] at hexec
  refine ⟨_, hexec, entry_setEntry_self _ key _, fun other hother => ?_⟩
  refine (entry_setEntry_ne (insertDrawn env clock.now s) _ hother).trans ?_
  rw [Store.entry, insertDrawn_gKeyToValueHashMap]
  rfl

/-- What is left of an item that was read and stored again with another
value. -/
structure Rewritten (s s' : Store) (key : KeyType) (it : MapEntry)
    (value : Bytes) (expiry : Nat) : Prop where
  entry : ∃ it', s'.entry key = some it' ∧ it'.1.value = value ∧
    it'.1.flags = it.1.flags ∧ it'.1.expiry = expiry
  others : ∀ other, other ≠ key → s'.entry other = s.entry other

theorem rewrite_run {times : Times} {noreply : Bool} {output value : Bytes}
    {act : Option Element → Command Response}
    (hit : s.entry key = some it) (hlive : ¬ Dead s (times.get 0) it)
    (hact : act (some ⟨it.1.flags, it.1.casUniq, it.1.value,
        wordSub it.1.expiry (times.get 0)⟩) =
      insertAndAnswer times key it.1.flags value
        (wordSub it.1.expiry (times.get 0)) noreply output)
    (hfits : insertFits env key it.1.flags (insertToken env times.write.now s)
      value s) :
    ∃ s', (Command.get (times.get 0) key >>= act).run env ⟨s, Locks.free⟩ =
        .ok (answer noreply output, ⟨s', Locks.free⟩) ∧
      Rewritten s s' key it value
        (toWord (times.write.now + wordSub it.1.expiry (times.get 0))) := by
  obtain ⟨hanswer, hread, hothers, -, -⟩ := reads_live hit hlive
  obtain ⟨-, hroom⟩ := fits_after_read hit hlive hfits
  obtain ⟨s', hinsert, hentry, hothers'⟩ :=
    overwrite_wrote times.write it.1.flags [] value
      (wordSub it.1.expiry (times.get 0)) hread (by simp) hroom
  refine ⟨s', ?_, ⟨_, hentry, rfl, rfl, rfl⟩, fun other hother => ?_⟩
  · rw [run_get, hanswer, hact]
    exact run_insert hinsert _
  · rw [hothers' other hother, hothers other hother]

end Memstashed.Scmd
