import Memstashed.Dblru.Frame
import Memstashed.Dblru.Protocol

/-!
# What a hit returns, with other threads at work

A hit returns what one store operation wrote: the last one on the key before the
read, in the order of the bucket's mutex.
-/

namespace Memstashed.Dblru

open Memstashed.Foundation

/-! ## Stores and erasures -/

def Section.stored : (i : Section) → i.Answer → Option (KeyType × ValueStruct)
  | .insertSection _ key _ _ valueStr _, outcome =>
      match outcome with
      | .overwritten _ _ => some (key, valueStr)
      | .created => some (key, valueStr)
      | _ => none
  | .addSection _ key _ valueStr _, outcome =>
      match outcome with
      | .revived _ => some (key, valueStr)
      | .created => some (key, valueStr)
      | _ => none
  | _, _ => none

/-- A successful delete, the erasure of an expired entry, or an eviction. -/
def Section.Erases (key : KeyType) : (i : Section) → Store → i.Answer → Prop
  | .deleteSection _ other _, _, ret => other = key ∧ ret = .success
  | .getSection _ other _, s, found =>
      other = key ∧ found = none ∧ (s.entry key).isSome = true
  | .removeLRUElement now h, s, _ =>
      (s.entry key).isSome = true ∧ (removeSection now h s).2.entry key = none
  | _, _, _ => False

def contents (valueStr : ValueStruct) : Bytes × Bytes × Bytes :=
  (valueStr.value, valueStr.flags, valueStr.casUniq)

def Store.contents (s : Store) (key : KeyType) : Option (Bytes × Bytes × Bytes) :=
  (s.entry key).map fun it => Dblru.contents it.1

section Effects

variable {env : Env} {s s' : Store} {key : KeyType}

theorem contents_setEntry_self (s : Store) (key : KeyType) (it : MapEntry) :
    (s.setEntry (getHashTblNbrFromKey key) key it).contents key =
      some (contents it.1) := by
  rw [Store.contents, entry_setEntry_self]
  rfl

theorem contents_setEntry_ne (s : Store) {key other : KeyType} (it : MapEntry)
    (h : other ≠ key) :
    (s.setEntry (getHashTblNbrFromKey key) key it).contents other =
      s.contents other := by
  rw [Store.contents, entry_setEntry_ne s it h]
  rfl

theorem contents_eraseKey_ne (s : Store) {key other : KeyType}
    (h : other ≠ key) :
    (s.eraseKey (getHashTblNbrFromKey key) key).contents other =
      s.contents other := by
  rw [Store.contents, entry_eraseKey_ne s h]
  rfl

theorem contents_of_stored {i : Section} {r : i.Answer} {valueStr : ValueStruct}
    (happly : i.apply env s = (r, s'))
    (hstored : i.stored r = some (key, valueStr)) :
    s'.contents key = some (contents valueStr) := by
  cases i with
  | insertSection now other casUniq expiry v timestamp =>
      rcases insertSection_cases happly with
        ⟨it, -, -, -, rfl, -⟩ | ⟨it, diff, -, -, rfl, rfl⟩ | ⟨-, -, rfl, -⟩ |
          ⟨-, -, rfl, rfl⟩ <;> cases hstored
      · exact contents_setEntry_self ..
      · exact contents_setEntry_self ..
  | addSection now other expiry v timestamp =>
      rcases addSection_cases happly with
        ⟨it, -, -, rfl, -⟩ | ⟨it, -, -, rfl, rfl⟩ | ⟨-, rfl, rfl⟩ <;>
          cases hstored
      · exact contents_setEntry_self ..
      · exact contents_setEntry_self ..
  | _ => cases hstored

theorem contents_kept {i : Section} {r : i.Answer}
    (happly : i.apply env s = (r, s'))
    (hstored : ∀ valueStr, i.stored r ≠ some (key, valueStr))
    (herases : ¬ i.Erases key s r) : s'.contents key = s.contents key := by
  cases i with
  | insertSection now other casUniq expiry v timestamp =>
      rcases insertSection_cases happly with
        ⟨it, -, -, -, -, rfl⟩ | ⟨it, diff, -, -, rfl, rfl⟩ | ⟨-, -, -, rfl⟩ |
          ⟨-, -, rfl, rfl⟩
      · rfl
      · exact contents_setEntry_ne s _ fun hkey => hstored v (hkey ▸ rfl)
      · rfl
      · exact contents_setEntry_ne s _ fun hkey => hstored v (hkey ▸ rfl)
  | addSection now other expiry v timestamp =>
      rcases addSection_cases happly with
        ⟨it, -, -, -, rfl⟩ | ⟨it, -, -, rfl, rfl⟩ | ⟨-, rfl, rfl⟩
      · rfl
      · exact contents_setEntry_ne s _ fun hkey => hstored v (hkey ▸ rfl)
      · exact contents_setEntry_ne s _ fun hkey => hstored v (hkey ▸ rfl)
  | getSection now other timestamp =>
      rcases getSection_cases happly with
        ⟨-, -, rfl⟩ | ⟨it, hentry, -, rfl, rfl⟩ | ⟨it, hentry, -, -, rfl⟩
      · rfl
      · refine contents_eraseKey_ne s fun hkey => herases ⟨hkey.symm, rfl, ?_⟩
        simp [hkey, hentry]
      · by_cases hkey : key = other
        · subst hkey
          rw [contents_setEntry_self, Store.contents, hentry]
          rfl
        · exact contents_setEntry_ne s _ hkey
  | deleteSection now other expiry =>
      rcases deleteSection_cases happly with
        ⟨-, rfl⟩ | ⟨it, hentry, -, rfl, rfl⟩ | ⟨it, hentry, -, rfl, rfl⟩
      · rfl
      · exact contents_eraseKey_ne s fun hkey => herases ⟨hkey.symm, rfl⟩
      · exact contents_setEntry_ne s _ fun hkey => herases ⟨hkey.symm, rfl⟩
  | removeLRUElement now h =>
      cases happly
      rcases removeSection_entry now h s key with hsame | hnone
      · rw [Store.contents, hsame]
        rfl
      · cases hentry : s.entry key with
        | none => simp [Store.contents, hnone, hentry]
        | some it => exact absurd ⟨by simp [hentry], hnone⟩ herases
  | nextToken now =>
      obtain ⟨generator, rfl⟩ := nextToken_cases happly
      rfl
  | _ =>
      cases happly
      rfl

theorem contents_of_erased {i : Section} {r : i.Answer}
    (happly : i.apply env s = (r, s')) (herases : i.Erases key s r)
    (hdelete : ∀ now expiry, i = .deleteSection now key expiry → expiry = 0) :
    s'.contents key = none := by
  cases i with
  | getSection now other timestamp =>
      obtain ⟨rfl, rfl, hsome⟩ := herases
      rcases getSection_cases happly with
        ⟨hnone, -, -⟩ | ⟨it, -, -, -, rfl⟩ | ⟨it, -, -, hhit, -⟩
      · simp [hnone] at hsome
      · simp [Store.contents]
      · contradiction
  | deleteSection now other expiry =>
      obtain ⟨rfl, rfl⟩ := herases
      obtain rfl := hdelete now expiry rfl
      rcases deleteSection_cases happly with
        ⟨hmiss, -⟩ | ⟨it, -, -, -, rfl⟩ | ⟨it, -, hne, -, -⟩
      · contradiction
      · simp [Store.contents]
      · exact absurd rfl hne
  | removeLRUElement now h =>
      cases happly
      simp [Store.contents, herases.2]
  | _ => exact absurd herases not_false

end Effects

/-! ## The store operation behind a hit -/

def DbCall.Stores (key : KeyType) (valueStr : ValueStruct) : DbCall → Prop
  | insert _ _ other flags _ value _ =>
      other = key ∧ flags = valueStr.flags ∧ value = valueStr.value
  | add _ _ other flags _ value _ =>
      other = key ∧ flags = valueStr.flags ∧ value = valueStr.value
  | _ => False

section Hits

variable {κ : Type} [DecidableEq κ] {env : Env} {calls : κ → DbCall}
  {t₀ t : State} {history : Turns κ} {pool : κ → Sections Returned}
  {g : κ → Progress}

/-- The last store operation on the key wrote `valueStr`, and nothing has erased
the key since. -/
structure LastStore (key : KeyType) (valueStr : ValueStruct)
    (store : Prog.Event Section Section.Answer State κ)
    (history : Turns κ) : Prop where
  stored : store.call.stored store.answer = some (key, valueStr)
  since : ∃ later before, history = later ++ store :: before ∧
    ∀ e ∈ later, (∀ other, e.call.stored e.answer ≠ some (key, other)) ∧
      ¬ e.call.Erases key e.before.store e.answer

omit [DecidableEq κ] in
theorem LastStore.later {key : KeyType} {valueStr : ValueStruct}
    {store e : Prog.Event Section Section.Answer State κ}
    (h : LastStore key valueStr store history)
    (hstored : ∀ other, e.call.stored e.answer ≠ some (key, other))
    (herases : ¬ e.call.Erases key e.before.store e.answer) :
    LastStore key valueStr store (e :: history) := by
  obtain ⟨later, before, rfl, hkept⟩ := h.since
  refine ⟨h.stored, e :: later, before, rfl, ?_⟩
  rintro other (_ | ⟨_, hmem⟩)
  · exact ⟨hstored, herases⟩
  · exact hkept other hmem

def EntriesStored (history : Turns κ) (s : Store) : Prop :=
  ∀ key v, s.contents key = some v →
    ∃ store valueStr, LastStore key valueStr store history ∧
      contents valueStr = v

def StoredByCalls (calls : κ → DbCall) (history : Turns κ)
    (g : κ → Progress) : Prop :=
  ∀ e ∈ history, ∀ key valueStr,
    e.call.stored e.answer = some (key, valueStr) →
    (calls e.client).Stores key valueStr ∧ (g e.client).wrote = true

/-- A hit is the contents of the key when it was read. -/
def HitsRead (calls : κ → DbCall) (history : Turns κ) (g : κ → Progress) :
    Prop :=
  ∀ k e, (g k).hit = some e → ∃ now key timestamp s old later before,
    calls k = .get now key ∧
    history = later ++
      ⟨k, .getSection now key timestamp, s, some (e, old)⟩ :: before ∧
    ∃ store valueStr, LastStore key valueStr store before ∧
      contents valueStr = (e.value, e.flags, e.cas)

omit [DecidableEq κ] in
theorem entriesStored_step {i : Section} {k : κ} {before : State} {s' : Store}
    {r : i.Answer} (h : EntriesStored history before.store)
    (hdelete : ∀ now key expiry, i = .deleteSection now key expiry → expiry = 0)
    (happly : i.apply env before.store = (r, s')) :
    EntriesStored (⟨k, i, before, r⟩ :: history) s' := by
  intro key v hv
  by_cases hstored : ∃ valueStr, i.stored r = some (key, valueStr)
  · obtain ⟨valueStr, hstored⟩ := hstored
    rw [contents_of_stored happly hstored] at hv
    cases hv
    exact ⟨⟨k, i, before, r⟩, valueStr,
      ⟨hstored, [], history, rfl, by simp⟩, rfl⟩
  · rw [not_exists] at hstored
    by_cases herases : i.Erases key before.store r
    · rw [contents_of_erased happly herases fun now expiry hi =>
        hdelete now key expiry hi] at hv
      contradiction
    · rw [contents_kept happly hstored herases] at hv
      obtain ⟨store, valueStr, hlast, hcontents⟩ := h key v hv
      exact ⟨store, valueStr, hlast.later hstored herases, hcontents⟩

theorem storedByCalls_step {i : Section} {k : κ} {before : State}
    {r : i.Answer} (htracks : Tracks calls history g)
    (h : StoredByCalls calls history g) (hallows : (g k).Allows i) :
    StoredByCalls calls (⟨k, i, before, r⟩ :: history)
      (Function.update g k ((g k).learn i r)) := by
  rintro e (_ | ⟨_, hmem⟩) key valueStr hstored
  · rw [Function.update_self, ← htracks.call k]
    cases i with
    | insertSection now other casUniq expiry v timestamp =>
        obtain ⟨⟨fuel, clock, expiry', hcall⟩, -, -⟩ := hallows
        cases r <;> cases hstored
        · exact ⟨hcall ▸ ⟨rfl, rfl, rfl⟩, rfl⟩
        · exact ⟨hcall ▸ ⟨rfl, rfl, rfl⟩, rfl⟩
    | addSection now other expiry v timestamp =>
        obtain ⟨⟨fuel, clock, casUniq, expiry', hcall⟩, -⟩ := hallows
        cases r <;> cases hstored
        · exact ⟨hcall ▸ ⟨rfl, rfl, rfl⟩, rfl⟩
        · exact ⟨hcall ▸ ⟨rfl, rfl, rfl⟩, rfl⟩
    | _ => cases hstored
  · obtain ⟨hstores, hwrote⟩ := h e hmem key valueStr hstored
    refine ⟨hstores, ?_⟩
    by_cases hk : e.client = k
    · rw [hk] at hwrote ⊢
      rw [Function.update_self]
      exact Progress.learn_wrote hwrote
    · rw [Function.update_of_ne hk]
      exact hwrote

theorem hitsRead_step {i : Section} {k : κ} {before : State} {s' : Store}
    {r : i.Answer} (htracks : Tracks calls history g)
    (hentries : EntriesStored history before.store)
    (h : HitsRead calls history g) (hallows : (g k).Allows i)
    (happly : i.apply env before.store = (r, s')) :
    HitsRead calls (⟨k, i, before, r⟩ :: history)
      (Function.update g k ((g k).learn i r)) := by
  -- what was known of a hit is still known after the turn
  have hold : ∀ j e, (g j).hit = some e → ∃ now key timestamp s old later prior,
      calls j = .get now key ∧
      (⟨k, i, before, r⟩ :: history : Turns κ) = later ++
        ⟨j, .getSection now key timestamp, s, some (e, old)⟩ :: prior ∧
      ∃ store valueStr, LastStore key valueStr store prior ∧
        contents valueStr = (e.value, e.flags, e.cas) := by
    intro j e he
    obtain ⟨now, key, timestamp, s, old, later, prior, hcall, rfl, hlast⟩ :=
      h j e he
    exact ⟨now, key, timestamp, s, old, _ :: later, prior, hcall, rfl, hlast⟩
  intro j e he
  by_cases hj : j = k
  · subst hj
    rw [Function.update_self] at he
    cases i with
    | getSection now key timestamp =>
        cases r with
        | none => exact hold j e he
        | some found =>
            cases he
            rcases getSection_cases happly with
              ⟨-, hmiss, -⟩ | ⟨it, -, -, hmiss, -⟩ | ⟨it, hentry, -, hhit, -⟩
            · contradiction
            · contradiction
            · cases hhit
              refine ⟨now, key, timestamp, before, it.2, [], history,
                (htracks.call j).symm.trans hallows.1, rfl, ?_⟩
              exact hentries key (contents it.1) (by simp [Store.contents, hentry])
    | insertSection now key casUniq expiry v timestamp =>
        cases r <;> exact hold j e he
    | addSection now key expiry v timestamp => cases r <;> exact hold j e he
    | _ => exact hold j e he
  · rw [Function.update_of_ne hj] at he
    exact hold j e he

/-- A get that hits returns the flags, the value and the token of one store
operation that succeeds: the last one on the key before the read.  In between
nothing erases the key. -/
theorem hit_is_last_store
    (hdelete : ∀ k now key expiry, calls k = .delete now key expiry →
      expiry = 0)
    (h : Interleaves env calls State.init history pool t) {k : κ} {now : Nat}
    {key : KeyType} {e : Element} (hget : calls k = .get now key)
    (hhit : pool k = .done (.element (some e))) :
    ∃ timestamp s old store valueStr later before,
      history = later ++
        ⟨k, .getSection now key timestamp, s, some (e, old)⟩ :: before ∧
      LastStore key valueStr store before ∧
      (calls store.client).Stores key valueStr ∧
      (∀ ret, pool store.client = .done ret → ret = .status .success) ∧
      e.value = valueStr.value ∧ e.flags = valueStr.flags ∧
      e.cas = valueStr.casUniq := by
  obtain ⟨g, htracks, ⟨-, hstored, hread⟩, hends⟩ := h.invariant
    (fun history g s => EntriesStored history s ∧
      StoredByCalls calls history g ∧ HitsRead calls history g)
    ⟨fun key v hv => by simp [Store.contents, Store.entry, State.init,
      Store.init] at hv, by simp [StoredByCalls], by simp [HitsRead, Progress.start]⟩
    fun history g before s' j i r htracks hinv hallows happly =>
      ⟨entriesStored_step hinv.1 (fun now' key' expiry' hi =>
          hdelete j now' key' expiry' (by
            subst hi
            exact (htracks.call j).symm.trans hallows)) happly,
        storedByCalls_step htracks hinv.2.1 hallows,
        hitsRead_step htracks hinv.1 hinv.2.2 hallows happly⟩
  have hfound := (hends k _ hhit).2.1 e rfl
  obtain ⟨now', key', timestamp, s, old, later, before, hcall, rfl, store,
    valueStr, hlast, hcontents⟩ := hread k e hfound
  cases hget.symm.trans hcall
  obtain ⟨mid, first, hbefore, -⟩ := hlast.since
  obtain ⟨hstores, hwrote⟩ := hstored store (by simp [hbefore]) key valueStr
    hlast.stored
  simp only [contents, Prod.mk.injEq] at hcontents
  exact ⟨timestamp, s, old, store, valueStr, later, before, rfl, hlast, hstores,
    fun ret hret => (hends _ ret hret).2.2.2 hwrote, hcontents.1.symm,
    hcontents.2.1.symm, hcontents.2.2.symm⟩

end Hits

section Witness

def setAndGet : Bool → DbCall
  | false => .insert 1 (.const 1000) (ascii "k") (ascii "0") [] (ascii "5") 60
  | true => .get 1000 (ascii "k")

def fiveRead : Element :=
  ⟨ascii "0", toDecimal (MersenneTwister.output 1000 0), ascii "5", 60⟩

/-- The get comes between the two halves of the set. -/
theorem hit_is_last_store_setAndGet :
    ∃ history pool t, Interleaves Env.x86 setAndGet State.init history pool t ∧
      pool true = .done (.element (some fiveRead)) ∧
      ∃ timestamp s old store valueStr later before,
        history = later ++ ⟨true, .getSection 1000 (ascii "k") timestamp, s,
          some (fiveRead, old)⟩ :: before ∧
        LastStore (ascii "k") valueStr store before ∧
        (setAndGet store.client).Stores (ascii "k") valueStr ∧
        (∀ ret, pool store.client = .done ret → ret = .status .success) ∧
        fiveRead.value = valueStr.value ∧ fiveRead.flags = valueStr.flags ∧
        fiveRead.cas = valueStr.casUniq := by
  obtain ⟨history, pool, t, h, hresult⟩ := Prog.exists_concurrent_of_turns
    (Section.exec Env.x86) (fun _ _ _ _ => True)
    (fun k => (setAndGet k).program Env.x86) State.init
    [false, false, false, false, true, true, true, false, false]
    (fun _ pool _ => (pool true).result? = some (.element (some fiveRead)))
    (by decide +kernel)
  have hhit := Prog.eq_done_of_result? hresult
  exact ⟨history, pool, t, h, hhit,
    hit_is_last_store (by simp [setAndGet]) h rfl hhit⟩

end Witness

end Memstashed.Dblru
