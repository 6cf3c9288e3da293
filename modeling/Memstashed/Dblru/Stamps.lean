import Memstashed.Dblru.Flush
import Memstashed.Dblru.Hits

/-!
# Where the timestamps of entries come from

An entry gets the timestamp its reader or its first store brought along.  A store
over an entry leaves the one that is there.
-/

namespace Memstashed.Dblru

open Memstashed.Foundation

def Section.stamp? : Section → Option TimestampType
  | .getSection _ _ timestamp => some timestamp
  | .insertSection _ _ _ _ _ timestamp => some timestamp
  | .addSection _ _ _ _ timestamp => some timestamp
  | _ => none

def Section.hit? : (i : Section) → i.Answer → Option (KeyType × TimestampType)
  | .getSection _ key timestamp, found => found.map fun _ => (key, timestamp)
  | _, _ => none

variable {env : Env} {s s' : Store} {key : KeyType} {it' : MapEntry}

/-- The section brings this timestamp along for the entry: it stores the key, or
reads an entry that has not been flushed. -/
def Section.Stamps (s : Store) (key : KeyType) (timestamp : TimestampType)
    (i : Section) (r : i.Answer) : Prop :=
  (∃ valueStr, i.stored r = some (key, valueStr)) ∨
    i.hit? r = some (key, timestamp) ∧
      ∃ it, s.entry key = some it ∧ s.gFlushAllTimestamp ≤ it.2

theorem stamp_setEntry {other : KeyType} {it : MapEntry}
    (hentry : (s.setEntry (getHashTblNbrFromKey other) other it).entry key =
      some it') :
    (other = key ∧ it' = it) ∨ s.entry key = some it' := by
  by_cases hkey : key = other
  · subst hkey
    rw [entry_setEntry_self] at hentry
    cases hentry
    exact .inl ⟨rfl, rfl⟩
  · rw [entry_setEntry_ne s it hkey] at hentry
    exact .inr hentry

theorem stamp_eraseKey {other : KeyType}
    (hentry : (s.eraseKey (getHashTblNbrFromKey other) other).entry key =
      some it') : s.entry key = some it' := by
  by_cases hkey : key = other
  · subst hkey
    rw [entry_eraseKey_self] at hentry
    contradiction
  · rwa [entry_eraseKey_ne s hkey] at hentry

theorem stamp_of_apply {i : Section} {r : i.Answer}
    (happly : i.apply env s = (r, s')) (hentry : s'.entry key = some it') :
    (∃ it, s.entry key = some it ∧ it'.2 = it.2) ∨
      i.stamp? = some it'.2 ∧ i.Stamps s key it'.2 r := by
  cases i with
  | getSection now other timestamp =>
      rcases getSection_cases happly with
        ⟨-, -, rfl⟩ | ⟨it, -, -, -, rfl⟩ | ⟨it, hfound, hlive, rfl, rfl⟩
      · exact .inl ⟨it', hentry, rfl⟩
      · exact .inl ⟨it', stamp_eraseKey hentry, rfl⟩
      · rcases stamp_setEntry hentry with ⟨rfl, rfl⟩ | hkept
        · exact .inr ⟨rfl, .inr ⟨rfl, it, hfound,
            not_lt.mp fun hdead => hlive (.inr hdead)⟩⟩
        · exact .inl ⟨it', hkept, rfl⟩
  | deleteSection now other expiry =>
      rcases deleteSection_cases happly with
        ⟨-, rfl⟩ | ⟨it, -, -, -, rfl⟩ | ⟨it, hfound, -, -, rfl⟩
      · exact .inl ⟨it', hentry, rfl⟩
      · exact .inl ⟨it', stamp_eraseKey hentry, rfl⟩
      · rcases stamp_setEntry hentry with ⟨rfl, rfl⟩ | hkept
        · exact .inl ⟨it, hfound, rfl⟩
        · exact .inl ⟨it', hkept, rfl⟩
  | insertSection now other casUniq expiry valueStr timestamp =>
      rcases insertSection_cases happly with
        ⟨it, -, -, -, -, rfl⟩ | ⟨it, diff, hfound, -, -, rfl⟩ |
          ⟨-, -, -, rfl⟩ | ⟨-, -, rfl, rfl⟩
      · exact .inl ⟨it', hentry, rfl⟩
      · rcases stamp_setEntry hentry with ⟨rfl, rfl⟩ | hkept
        · exact .inl ⟨it, hfound, rfl⟩
        · exact .inl ⟨it', hkept, rfl⟩
      · exact .inl ⟨it', hentry, rfl⟩
      · rcases stamp_setEntry hentry with ⟨rfl, rfl⟩ | hkept
        · exact .inr ⟨rfl, .inl ⟨valueStr, rfl⟩⟩
        · exact .inl ⟨it', hkept, rfl⟩
  | addSection now other expiry valueStr timestamp =>
      rcases addSection_cases happly with
        ⟨it, -, -, -, rfl⟩ | ⟨it, hfound, -, -, rfl⟩ | ⟨-, rfl, rfl⟩
      · exact .inl ⟨it', hentry, rfl⟩
      · rcases stamp_setEntry hentry with ⟨rfl, rfl⟩ | hkept
        · exact .inl ⟨it, hfound, rfl⟩
        · exact .inl ⟨it', hkept, rfl⟩
      · rcases stamp_setEntry hentry with ⟨rfl, rfl⟩ | hkept
        · exact .inr ⟨rfl, .inl ⟨valueStr, rfl⟩⟩
        · exact .inl ⟨it', hkept, rfl⟩
  | removeLRUElement now h =>
      cases happly
      rcases removeSection_entry now h s key with hsame | hnone
      · exact .inl ⟨it', hsame ▸ hentry, rfl⟩
      · rw [hnone] at hentry
        contradiction
  | nextToken now =>
      obtain ⟨generator, rfl⟩ := nextToken_cases happly
      exact .inl ⟨it', hentry, rfl⟩
  | _ =>
      cases happly
      exact .inl ⟨it', hentry, rfl⟩

end Memstashed.Dblru
