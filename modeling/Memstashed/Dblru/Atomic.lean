import Memstashed.Dblru.Accesses
import Memstashed.Dblru.Cache
import Memstashed.Dblru.Hits

/-!
# The sections of `dblru.cpp` are atomic

Every section makes its accesses to a bucket under the mutexes of the bucket,
and is seen from outside at one access only.  An eviction reads
`gFlushAllTimestamp` more than once; as long as nobody publishes a flush while
it does so, the threads might as well have taken each section at once.
-/

namespace Memstashed.Dblru

open Memstashed.Foundation

/-! ## What the mutexes protect -/

def Access.scope : Access → Option Mutex
  | setSize h => some (.timestampToKey h)
  | stampAt h _ => some (.timestampToKey h)
  | insertStamp h _ => some (.timestampToKey h)
  | eraseStamp h _ => some (.timestampToKey h)
  | find h _ => some (.keyToValue h)
  | node h _ => some (.keyToValue h)
  | emplace h _ _ => some (.keyToValue h)
  | eraseKey h _ => some (.keyToValue h)
  | assign h _ _ => some (.keyToValue h)
  | flushAllTimestamp => none
  | atomic _ _ => none

def Store.rest (s : Store) : Store :=
  { s with
    gTimestampToKeySet := fun _ => ∅
    gKeyToValueHashMap := fun _ => ∅ }

abbrev StorePart : Option Mutex → Type
  | none => Store
  | some (.timestampToKey _) => TimestampToKeyType
  | some (.keyToValue _) => KeyToValueType

def Store.part : (p : Option Mutex) → Store → StorePart p
  | none, s => s.rest
  | some (.timestampToKey h), s => s.gTimestampToKeySet h
  | some (.keyToValue h), s => s.gKeyToValueHashMap h

section Parts

variable {env : Env} {s t : Store}

theorem part_ext (h : ∀ p, s.part p = t.part p) : s = t := by
  have hrest : s.rest = t.rest := h none
  have hsets : s.gTimestampToKeySet = t.gTimestampToKeySet :=
    funext fun h' => h (some (.timestampToKey h'))
  have hmaps : s.gKeyToValueHashMap = t.gKeyToValueHashMap :=
    funext fun h' => h (some (.keyToValue h'))
  cases s
  cases t
  simp only [Store.rest, Store.mk.injEq, true_and] at hrest hsets hmaps ⊢
  exact ⟨hsets, hmaps, hrest⟩

theorem flushAllTimestamp_eq (h : s.part none = t.part none) :
    s.gFlushAllTimestamp = t.gFlushAllTimestamp := by
  have hrest : s.rest.gFlushAllTimestamp = t.rest.gFlushAllTimestamp :=
    congrArg Store.gFlushAllTimestamp h
  exact hrest

theorem apply_of_rest {i : Section} (single : i.IsAtomic)
    (h : s.rest = t.rest) :
    (i.apply env s).1 = (i.apply env t).1 ∧
      (i.apply env s).2.rest = (i.apply env t).2.rest := by
  cases s
  cases t
  simp only [Store.rest, Store.mk.injEq, true_and] at h
  obtain ⟨rfl, rfl, rfl, rfl, rfl, rfl⟩ := h
  cases i with
  | nextToken now =>
      simp only [Section.apply, nextToken]
      split <;> exact ⟨rfl, rfl⟩
  | _ =>
      first
        | exact ⟨rfl, rfl⟩
        | exact absurd single not_false

theorem apply_frame {i : Section} (single : i.IsAtomic) (s : Store)
    (m : Mutex) : (i.apply env s).2.part (some m) = s.part (some m) := by
  cases i with
  | nextToken now =>
      simp only [Section.apply, nextToken]
      cases m <;> split <;> rfl
  | _ =>
      first
        | exact absurd single not_false
        | (cases m <;> rfl)

theorem act_answer (j : Access) (h : s.part j.scope = t.part j.scope) :
    (j.act env s).1 = (j.act env t).1 := by
  cases j with
  | setSize b => exact congrArg (fun set => set.toList.length) h
  | stampAt b n => exact congrArg (fun set => set.toList[n]?) h
  | find b key => exact congrArg (fun map => map.lookup key) h
  | node b key =>
      exact congrArg (fun map => (map.lookup key).getD Access.noNode) h
  | emplace b key it =>
      have hmap : s.gKeyToValueHashMap b = t.gKeyToValueHashMap b := h
      simp only [Access.act, hmap]
      cases (t.gKeyToValueHashMap b).lookup key <;> rfl
  | flushAllTimestamp => exact flushAllTimestamp_eq h
  | atomic i single => exact (apply_of_rest single h).1
  | _ => rfl

theorem act_effect (j : Access) (h : s.part j.scope = t.part j.scope) :
    (j.act env s).2.part j.scope = (j.act env t).2.part j.scope := by
  cases j with
  | atomic i single => exact (apply_of_rest single h).2
  | insertStamp b entry =>
      simp only [Access.act, Access.scope, Store.part,
        Store.insertStamp_gTimestampToKeySet, Function.update_self] at h ⊢
      rw [h]
  | eraseStamp b timestamp =>
      simp only [Access.act, Access.scope, Store.part,
        Store.eraseStamp_gTimestampToKeySet, Function.update_self] at h ⊢
      rw [h]
  | emplace b key it =>
      have hmap : s.gKeyToValueHashMap b = t.gKeyToValueHashMap b := h
      simp only [Access.act, Access.scope, Store.part, hmap]
      cases (t.gKeyToValueHashMap b).lookup key with
      | some old => exact hmap
      | none => simp [hmap]
  | eraseKey b key =>
      simp only [Access.act, Access.scope, Store.part,
        Store.eraseKey_gKeyToValueHashMap, Function.update_self] at h ⊢
      rw [h]
  | assign b key field =>
      have hmap : s.gKeyToValueHashMap b = t.gKeyToValueHashMap b := h
      simp only [Access.act, Access.scope, Store.part, hmap]
      cases (t.gKeyToValueHashMap b).lookup key with
      | some old => simp [hmap]
      | none => exact hmap
  | _ => exact h

theorem part_set {b : HashTblNum} {set : TimestampToKeyType} {p : Option Mutex}
    (s : Store) (hp : p ≠ some (.timestampToKey b)) :
    Store.part p { s with
      gTimestampToKeySet := Function.update s.gTimestampToKeySet b set } =
      s.part p := by
  rcases p with _ | (h | h)
  · rfl
  · refine Function.update_of_ne ?_ _ _
    rintro rfl
    exact hp rfl
  · rfl

theorem part_map {b : HashTblNum} {map : KeyToValueType} {p : Option Mutex}
    (s : Store) (hp : p ≠ some (.keyToValue b)) :
    Store.part p { s with
      gKeyToValueHashMap := Function.update s.gKeyToValueHashMap b map } =
      s.part p := by
  rcases p with _ | (h | h)
  · rfl
  · rfl
  · refine Function.update_of_ne ?_ _ _
    rintro rfl
    exact hp rfl

theorem act_frame (j : Access) (s : Store) (p : Option Mutex)
    (hp : p ≠ j.scope) : (j.act env s).2.part p = s.part p := by
  cases j with
  | atomic i single =>
      cases p with
      | none => exact absurd rfl hp
      | some m => exact apply_frame single s m
  | insertStamp b entry => exact part_set s hp
  | eraseStamp b timestamp => exact part_set s hp
  | emplace b key it =>
      simp only [Access.act]
      split
      · rfl
      · exact part_map s hp
  | eraseKey b key => exact part_map s hp
  | assign b key field =>
      simp only [Access.act]
      split
      · exact part_map s hp
      · rfl
  | _ => rfl

end Parts

/-- The mutexes of both kinds of a bucket are what an eviction holds while it
relies on `gFlushAllTimestamp`. -/
def storeMemory (env : Env) : Memory Mutex (Access.act env) where
  Part := StorePart
  part := Store.part
  ext _ _ := part_ext
  scope := Access.scope
  answer j _ _ := act_answer j
  effect j _ _ := act_effect j
  frame := act_frame
  Steady := TimestampType
  steady := Store.gFlushAllTimestamp
  steady_rest _ _ := flushAllTimestamp_eq
  Relies owned := ∃ h, .timestampToKey h ∈ owned ∧ .keyToValue h ∈ owned

/-! ## What the sections do at once -/

def Section.mutexes : Section → List Mutex
  | setIsEmpty h => [.timestampToKey h]
  | removeLRUElement _ h => [.keyToValue h, .timestampToKey h]
  | getSection _ key _ => [.keyToValue (getHashTblNbrFromKey key)]
  | deleteSection _ key _ => [.keyToValue (getHashTblNbrFromKey key)]
  | insertSection _ key _ _ _ _ => [.keyToValue (getHashTblNbrFromKey key)]
  | addSection _ key _ _ _ => [.keyToValue (getHashTblNbrFromKey key)]
  | eraseStamp entry => [.timestampToKey (getHashTblNbrFromKey entry.key)]
  | insertStamp entry => [.timestampToKey (getHashTblNbrFromKey entry.key)]
  | restamp _ entry => [.timestampToKey (getHashTblNbrFromKey entry.key)]
  | _ => []

/-- The early return of `removeLRUElement` releases nothing. -/
def Section.leaks : Section → Store → List Mutex
  | removeLRUElement now h, s =>
      if (removeSection now h s).1 then []
      else [.keyToValue h, .timestampToKey h]
  | _, _ => []

def storeAtOnce (env : Env) :
    AtOnce Mutex Section Store Section.Answer where
  needs := Section.mutexes
  body := Section.apply env
  leaks := Section.leaks

section AtOnce

variable {env : Env} {t : State}

theorem exec_underTimestampToKey {α : Type} {h : HashTblNum}
    {f : Store → α × Store}
    (hfree : ∀ m ∈ [Mutex.timestampToKey h], t.locks.held m = false) :
    ∃ t', underTimestampToKey h f t = .ok ((f t.store).1, t') ∧
      t'.store = (f t.store).2 ∧
      ∀ m, t'.locks.held m = true ↔ t.locks.held m = true ∨ m ∈ [] := by
  have hheld := hfree _ List.mem_cons_self
  exact ⟨_, underTimestampToKey_of_free hheld, rfl, by simp⟩

theorem exec_underKeyToValue {α : Type} {h : HashTblNum}
    {f : Store → α × Store}
    (hfree : ∀ m ∈ [Mutex.keyToValue h], t.locks.held m = false) :
    ∃ t', underKeyToValue h f t = .ok ((f t.store).1, t') ∧
      t'.store = (f t.store).2 ∧
      ∀ m, t'.locks.held m = true ↔ t.locks.held m = true ∨ m ∈ [] := by
  have hheld := hfree _ List.mem_cons_self
  exact ⟨_, underKeyToValue_of_free hheld, rfl, by simp⟩

theorem exec_removeLRUElement (now : Nat) {h : HashTblNum}
    (hfree : ∀ m ∈ [Mutex.keyToValue h, .timestampToKey h],
      t.locks.held m = false) :
    ∃ t', removeLRUElement now h t = .ok ((), t') ∧
      t'.store = (removeSection now h t.store).2 ∧
      ∀ m, t'.locks.held m = true ↔ t.locks.held m = true ∨
        m ∈ Section.leaks (.removeLRUElement now h) t.store := by
  have hmap : t.locks.gKeyToValueMutex h = false :=
    hfree (.keyToValue h) (by simp)
  have hset : t.locks.gTimestampToKeyMutex h = false :=
    hfree (.timestampToKey h) (by simp)
  obtain ⟨s, locks⟩ := t
  dsimp only at hmap hset
  simp only [removeLRUElement, Effect.bind_apply, lockTimestampToKey,
    lockKeyToValue, onStore, hmap, hset, Bool.false_eq_true, if_false,
    Section.leaks]
  cases hreleased : (removeSection now h s).1 with
  | true =>
      simp only [if_true, Effect.bind_apply, unlockKeyToValue,
        unlockTimestampToKey, Function.update_idem]
      refine ⟨_, rfl, rfl, fun m => ?_⟩
      rcases m with b | b
      · by_cases hb : b = h <;> simp [Locks.held, hb, hset]
      · by_cases hb : b = h <;> simp [Locks.held, hb, hmap]
  | false =>
      simp only [Bool.false_eq_true, if_false, Effect.pure_apply]
      refine ⟨_, rfl, rfl, fun m => ?_⟩
      rcases m with b | b
      · by_cases hb : b = h <;> simp [Locks.held, hb]
      · by_cases hb : b = h <;> simp [Locks.held, hb]

theorem runsAtOnce (env : Env) :
    Memory.RunsAtOnce (storeAtOnce env) (Section.exec env) State.store
      (fun t => t.locks.held) := by
  intro i t hfree
  cases i with
  | removeLRUElement now h => exact exec_removeLRUElement now hfree
  | setIsEmpty h => exact exec_underTimestampToKey hfree
  | eraseStamp entry => exact exec_underTimestampToKey hfree
  | insertStamp entry => exact exec_underTimestampToKey hfree
  | restamp old entry => exact exec_underTimestampToKey hfree
  | getSection now key timestamp => exact exec_underKeyToValue hfree
  | deleteSection now key expiry => exact exec_underKeyToValue hfree
  | insertSection now key casUniq expiry valueStr timestamp =>
      exact exec_underKeyToValue hfree
  | addSection now key expiry valueStr timestamp =>
      exact exec_underKeyToValue hfree
  | _ =>
      refine ⟨⟨_, t.locks⟩, rfl, rfl, fun m => ?_⟩
      exact (or_iff_left List.not_mem_nil).symm

end AtOnce

/-! ## Access by access -/

abbrev Unshown (env : Env) (i : Section) (owned : List Mutex) (s : Store)
    (q : Accesses i.Answer) : Prop :=
  (storeMemory env).Before (storeAtOnce env) i owned s q

section Sections

variable {env : Env} {i : Section} {s t u : Store} {b : HashTblNum}
  {owned : List Mutex} {key : KeyType}

theorem elsewhere_set (s : Store) (set : TimestampToKeyType)
    (hb : .timestampToKey b ∈ owned) :
    (storeMemory env).Elsewhere owned s { s with
      gTimestampToKeySet := Function.update s.gTimestampToKeySet b set } :=
  fun _ hp => (part_set s (hp _ hb)).symm

theorem elsewhere_map (s : Store) (map : KeyToValueType)
    (hb : .keyToValue b ∈ owned) :
    (storeMemory env).Elsewhere owned s { s with
      gKeyToValueHashMap := Function.update s.gKeyToValueHashMap b map } :=
  fun _ hp => (part_map s (hp _ hb)).symm

theorem after_unlock {α : Type} {m : Mutex} {a : α}
    (h : s.part (some m) = u.part (some m)) :
    (storeMemory env).After (ε := Fault) [] a u [m] s
      (.call (.unlock m) fun _ => .done a) :=
  .unlock (by simp) (by simp) h (.done (by simp))

theorem showsAt {j : Access} {r : j.Answer} {a : i.Answer}
    {next : j.Answer → Accesses i.Answer} (hact : j.act env t = (r, s))
    (hbody : i.apply env t = (a, u)) (hleaks : i.leaks t = [])
    (helsewhere : (storeMemory env).Elsewhere owned s u)
    (hafter : (storeMemory env).After [] a u owned s (next r)) :
    (storeMemory env).ShowsAt (storeAtOnce env) i owned j next t :=
  .of_eq hact hbody hleaks helsewhere (by simp) hafter

/-! ### Single accesses, and sections with a timestamp set -/

theorem before_atomic (single : i.IsAtomic) (s : Store) :
    Unshown env i [] s (Accesses.atomic i single) := by
  have hneeds : (storeAtOnce env).needs i = [] := by
    cases i <;> first | rfl | exact absurd single not_false
  have hleaks : ∀ t, i.leaks t = [] := fun t => by
    cases i <;> first | rfl | exact absurd single not_false
  refine .shows (fun m hm => nomatch hm) (fun m hm => ?_) fun t _ => ?_
  · exact hneeds ▸ hm
  · exact showsAt rfl rfl (hleaks t) (.refl _ _) (.done (by simp))

theorem before_setIsEmpty (h : HashTblNum) (s : Store) :
    Unshown env (.setIsEmpty h) [] s (Accesses.setIsEmpty h) := by
  refine .lock fun t _ => .shows (by simp [storeMemory, Access.scope])
    (by simp [storeAtOnce, Section.mutexes]) fun u _ => ?_
  have hanswer : decide ((u.gTimestampToKeySet h).toList.length ≤ 0) =
      (u.gTimestampToKeySet h).toList.isEmpty := by
    cases (u.gTimestampToKeySet h).toList <;> simp
  refine showsAt rfl rfl rfl (.refl _ _) ?_
  rw [← hanswer]
  exact after_unlock rfl

theorem before_eraseStamp (entry : TimestampToKeyStruct) (s : Store) :
    Unshown env (.eraseStamp entry) [] s (Accesses.eraseStamp entry) :=
  .lock fun t _ => .shows (by simp [storeMemory, Access.scope])
    (by simp [storeAtOnce, Section.mutexes]) fun u _ =>
      showsAt rfl rfl rfl (.refl _ _) (after_unlock rfl)

theorem before_insertStamp (entry : TimestampToKeyStruct) (s : Store) :
    Unshown env (.insertStamp entry) [] s (Accesses.insertStamp entry) :=
  .lock fun t _ => .shows (by simp [storeMemory, Access.scope])
    (by simp [storeAtOnce, Section.mutexes]) fun u _ =>
      showsAt rfl rfl rfl (.refl _ _) (after_unlock rfl)

theorem before_restamp (old : TimestampType) (entry : TimestampToKeyStruct)
    (s : Store) :
    Unshown env (.restamp old entry) [] s (Accesses.restamp old entry) :=
  .lock fun t _ => .shows (by simp [storeMemory, Access.scope])
    (by simp [storeAtOnce, Section.mutexes]) fun u _ =>
      showsAt rfl rfl rfl (elsewhere_set _ _ List.mem_cons_self)
        (.write rfl List.mem_cons_self (after_unlock rfl))

/-! ### Sections with a map -/

theorem lookup_eq (hb : .keyToValue b ∈ owned)
    (h : (storeMemory env).Knows owned t u) (key : KeyType) :
    (u.gKeyToValueHashMap b).lookup key =
      (t.gKeyToValueHashMap b).lookup key := by
  have hmap : t.gKeyToValueHashMap b = u.gKeyToValueHashMap b := h.part _ hb
  rw [hmap]

theorem before_isDead (now : Nat) (it : MapEntry) {j : Access} {r : j.Answer}
    {next : j.Answer → Accesses i.Answer} {rest : Bool → Accesses i.Answer}
    (hscope : ∀ m, j.scope = some m → m ∈ owned)
    (hneeds : ∀ m ∈ i.mutexes, m ∈ owned)
    (hact : ∀ u, (storeMemory env).Knows owned t u → j.act env u = (r, u))
    (hnext : next r = Accesses.isDead now it >>= rest)
    (hleaks : ∀ u, i.leaks u = [])
    (hend : ∀ u dead, (storeMemory env).Knows owned t u →
      (dead = true ↔ Dead u now it) →
      (storeMemory env).Elsewhere owned u (i.apply env u).2 ∧
        (storeMemory env).After [] (i.apply env u).1 (i.apply env u).2 owned u
          (rest dead)) :
    Unshown env i owned t (.call (.access j) next) := by
  by_cases hexpiry : it.1.expiry < now
  · refine .shows hscope hneeds fun u hu => ?_
    obtain ⟨helsewhere, hafter⟩ := hend u true hu (by simp [Dead, hexpiry])
    refine showsAt (hact u hu) rfl (hleaks u) helsewhere ?_
    rw [hnext, Accesses.isDead, if_pos hexpiry]
    exact hafter
  · refine .looks hact ?_
    rw [hnext, Accesses.isDead, if_neg hexpiry]
    refine .shows (by simp [storeMemory, Access.scope]) hneeds fun u hu => ?_
    obtain ⟨helsewhere, hafter⟩ :=
      hend u (decide (it.2 < u.gFlushAllTimestamp)) hu (by simp [Dead, hexpiry])
    exact showsAt rfl rfl (hleaks u) helsewhere hafter

theorem act_find {it : Option MapEntry}
    (hlookup : (u.gKeyToValueHashMap b).lookup key = it) :
    (Access.find b key).act env u = (it, u) := by
  rw [Access.act, hlookup]

theorem act_node {it : MapEntry}
    (hlookup : (u.gKeyToValueHashMap b).lookup key = some it) :
    (Access.node b key).act env u = (it, u) := by
  rw [Access.act, hlookup, Option.getD_some]

theorem act_emplace_some {it new : MapEntry}
    (hlookup : (u.gKeyToValueHashMap b).lookup key = some it) :
    (Access.emplace b key new).act env u = (some it, u) := by
  simp only [Access.act, hlookup]

theorem act_emplace_none {new : MapEntry}
    (hlookup : (u.gKeyToValueHashMap b).lookup key = none) :
    (Access.emplace b key new).act env u = (none, u.setEntry b key new) := by
  simp only [Access.act, hlookup]

theorem act_assign {it : MapEntry} (field : Field)
    (hlookup : (u.gKeyToValueHashMap b).lookup key = some it) :
    (Access.assign b key field).act env u =
      ((), u.setEntry b key (field.assign it)) := by
  simp only [Access.act, hlookup]

theorem before_getSection (now : Nat) (key : KeyType)
    (timestamp : TimestampType) (s : Store) :
    Unshown env (.getSection now key timestamp) [] s
      (Accesses.getSection now key timestamp) := by
  refine .lock fun t _ => ?_
  have hmem : ∀ m, some (Mutex.keyToValue (getHashTblNbrFromKey key)) = some m →
      m ∈ [Mutex.keyToValue (getHashTblNbrFromKey key)] := by simp
  cases hfound : (t.gKeyToValueHashMap (getHashTblNbrFromKey key)).lookup
      key with
  | none =>
      refine .shows hmem (fun _ => id) fun u hu => ?_
      have hlookup := (lookup_eq (hmem _ rfl) hu key).trans hfound
      refine showsAt (act_find hlookup) ?_ rfl (.refl _ _) (after_unlock rfl)
      simp only [Section.apply, getSection, hlookup]
  | some it =>
      refine before_isDead now it hmem (fun _ => id)
        (fun u hu => act_find ((lookup_eq (hmem _ rfl) hu key).trans hfound))
        rfl (fun _ => rfl) fun u dead hu hdead => ?_
      have hlookup := (lookup_eq (hmem _ rfl) hu key).trans hfound
      cases dead with
      | true =>
          have hbody : getSection now key timestamp u =
              (none, u.eraseKey (getHashTblNbrFromKey key) key) := by
            simp only [getSection, hlookup, hdead.mp rfl, if_true]
          simp only [Section.apply, hbody]
          exact ⟨elsewhere_map _ _ (hmem _ rfl),
            .write rfl (hmem _ rfl) (after_unlock rfl)⟩
      | false =>
          have hlive : ¬ Dead u now it := fun h =>
            Bool.false_ne_true (hdead.mpr h)
          have hbody : getSection now key timestamp u =
              (some (⟨it.1.flags, it.1.casUniq, it.1.value,
                wordSub it.1.expiry now⟩, it.2),
              u.setEntry (getHashTblNbrFromKey key) key
                (it.1, timestamp)) := by
            simp only [getSection, hlookup, hlive, if_false]
          simp only [Section.apply, hbody]
          refine ⟨elsewhere_map _ _ (hmem _ rfl), .write rfl (hmem _ rfl) ?_⟩
          rw [act_assign _ hlookup]
          exact after_unlock rfl

theorem before_deleteSection (now : Nat) (key : KeyType) (expiry : Nat)
    (s : Store) :
    Unshown env (.deleteSection now key expiry) [] s
      (Accesses.deleteSection now key expiry) := by
  refine .lock fun t _ => ?_
  have hmem : ∀ m, some (Mutex.keyToValue (getHashTblNbrFromKey key)) = some m →
      m ∈ [Mutex.keyToValue (getHashTblNbrFromKey key)] := by simp
  cases hfound : (t.gKeyToValueHashMap (getHashTblNbrFromKey key)).lookup
      key with
  | none =>
      refine .shows hmem (fun _ => id) fun u hu => ?_
      have hlookup := (lookup_eq (hmem _ rfl) hu key).trans hfound
      refine showsAt (act_find hlookup) ?_ rfl (.refl _ _) (after_unlock rfl)
      simp only [Section.apply, deleteSection, hlookup]
  | some it =>
      refine before_isDead now it hmem (fun _ => id)
        (fun u hu => act_find ((lookup_eq (hmem _ rfl) hu key).trans hfound))
        rfl (fun _ => rfl) fun u dead hu hdead => ?_
      have hlookup := (lookup_eq (hmem _ rfl) hu key).trans hfound
      cases dead with
      | true =>
          have hbody : deleteSection now key expiry u = (.notExist, u) := by
            simp only [deleteSection, hlookup, hdead.mp rfl, if_true]
          simp only [Section.apply, hbody]
          exact ⟨.refl _ _, after_unlock rfl⟩
      | false =>
          have hlive : ¬ Dead u now it := fun h =>
            Bool.false_ne_true (hdead.mpr h)
          by_cases hexpiry : expiry = 0
          · have hbody : deleteSection now key expiry u =
                (.success, u.eraseKey (getHashTblNbrFromKey key) key) := by
              simp only [deleteSection, hlookup, hlive, hexpiry, if_true,
                if_false]
            simp only [Section.apply, hbody, Bool.false_eq_true, if_false,
              if_pos hexpiry]
            exact ⟨elsewhere_map _ _ (hmem _ rfl),
              .write rfl (hmem _ rfl) (after_unlock rfl)⟩
          · have hbody : deleteSection now key expiry u =
                (.success, u.setEntry (getHashTblNbrFromKey key) key
                  ({ it.1 with expiry := toWord (now + expiry) }, it.2)) := by
              simp only [deleteSection, hlookup, hlive, hexpiry, if_false]
            simp only [Section.apply, hbody, Bool.false_eq_true, if_false,
              if_neg hexpiry]
            refine ⟨elsewhere_map _ _ (hmem _ rfl), .write rfl (hmem _ rfl) ?_⟩
            rw [act_assign _ hlookup]
            exact after_unlock rfl

/-! ### Overwriting a node field by field -/

theorem setEntry_setEntry (s : Store) (b : HashTblNum) (key : KeyType)
    (it it' : MapEntry) :
    (s.setEntry b key it).setEntry b key it' = s.setEntry b key it' := by
  simp [Store.setEntry, AList.insert_insert]

theorem lookup_setEntry (s : Store) (b : HashTblNum) (key : KeyType)
    (it : MapEntry) :
    ((s.setEntry b key it).gKeyToValueHashMap b).lookup key = some it := by
  simp [AList.lookup_insert]

theorem act_assign_setEntry (field : Field) (it : MapEntry) :
    ((Access.assign b key field).act env (u.setEntry b key it)).2 =
      u.setEntry b key (field.assign it) := by
  rw [act_assign field (lookup_setEntry u b key it), setEntry_setEntry]

theorem after_overwrite {α : Type} {a : α} {it : MapEntry} (expiry : Nat)
    (valueStr : ValueStruct)
    (hlookup : (u.gKeyToValueHashMap b).lookup key = some it) :
    (storeMemory env).After (ε := Fault) [] a
      (u.setEntry b key ({ valueStr with expiry := expiry }, it.2))
      [.keyToValue b] u
      (Accesses.overwrite b key expiry valueStr >>= fun _ => .done a) := by
  have hmem : Mutex.keyToValue b ∈ [Mutex.keyToValue b] := List.mem_cons_self
  refine .write rfl hmem ?_
  rw [act_assign _ hlookup]
  refine .write rfl hmem ?_
  rw [act_assign_setEntry]
  refine .write rfl hmem ?_
  rw [act_assign_setEntry]
  refine .write rfl hmem ?_
  rw [act_assign_setEntry]
  exact after_unlock rfl

theorem before_insertSection (now : Nat) (key casUniq : Bytes) (expiry : Nat)
    (valueStr : ValueStruct) (timestamp : TimestampType) (s : Store) :
    Unshown env (.insertSection now key casUniq expiry valueStr timestamp) [] s
      (Accesses.insertSection now key casUniq expiry valueStr timestamp) := by
  refine .lock fun t _ => ?_
  have hmem : ∀ m, some (Mutex.keyToValue (getHashTblNbrFromKey key)) = some m →
      m ∈ [Mutex.keyToValue (getHashTblNbrFromKey key)] := by simp
  refine .shows hmem (fun _ => id) fun u _ => ?_
  cases hlookup : (u.gKeyToValueHashMap (getHashTblNbrFromKey key)).lookup
      key with
  | none =>
      by_cases hcas : casUniq ≠ []
      · have hbody : insertSection now key casUniq expiry valueStr timestamp u =
            (.notExist, (u.setEntry (getHashTblNbrFromKey key) key
              (valueStr, timestamp)).eraseKey (getHashTblNbrFromKey key)
                key) := by
          simp only [insertSection, hlookup, if_pos hcas]
        refine showsAt (act_emplace_none hlookup) hbody rfl
          (elsewhere_map _ _ (hmem _ rfl)) ?_
        change (storeMemory env).After _ _ _ _ _ (ite (casUniq ≠ []) _ _)
        rw [if_pos hcas]
        exact .write rfl (hmem _ rfl) (after_unlock rfl)
      · have hbody : insertSection now key casUniq expiry valueStr timestamp u =
            (.created, u.setEntry (getHashTblNbrFromKey key) key
              (valueStr, timestamp)) := by
          simp only [insertSection, hlookup, if_neg hcas]
        refine showsAt (act_emplace_none hlookup) hbody rfl (.refl _ _) ?_
        change (storeMemory env).After _ _ _ _ _ (ite (casUniq ≠ []) _ _)
        rw [if_neg hcas]
        exact after_unlock rfl
  | some it =>
      by_cases hcas : casUniq ≠ [] ∧ it.1.casUniq ≠ casUniq
      · have hbody : insertSection now key casUniq expiry valueStr timestamp u =
            (.exist, u) := by
          simp only [insertSection, hlookup, if_pos hcas]
        refine showsAt (act_emplace_some hlookup) hbody rfl (.refl _ _) ?_
        change (storeMemory env).After _ _ _ _ _
          (ite (casUniq ≠ [] ∧ it.1.casUniq ≠ casUniq) _ _)
        rw [if_pos hcas]
        exact after_unlock rfl
      · have hbody : insertSection now key casUniq expiry valueStr timestamp u =
            (.overwritten it.2
              (overwriteDiff it valueStr.flags valueStr.casUniq valueStr.value),
              u.setEntry (getHashTblNbrFromKey key) key
                ({ valueStr with expiry := toWord (now + expiry) },
                  it.2)) := by
          simp only [insertSection, hlookup, if_neg hcas]
        refine showsAt (act_emplace_some hlookup) hbody rfl
          (elsewhere_map _ _ (hmem _ rfl)) ?_
        change (storeMemory env).After _ _ _ _ _
          (ite (casUniq ≠ [] ∧ it.1.casUniq ≠ casUniq) _ _)
        rw [if_neg hcas]
        exact after_overwrite _ valueStr hlookup

theorem before_addSection (now : Nat) (key : Bytes) (expiry : Nat)
    (valueStr : ValueStruct) (timestamp : TimestampType) (s : Store) :
    Unshown env (.addSection now key expiry valueStr timestamp) [] s
      (Accesses.addSection now key expiry valueStr timestamp) := by
  refine .lock fun t _ => ?_
  have hmem : ∀ m, some (Mutex.keyToValue (getHashTblNbrFromKey key)) = some m →
      m ∈ [Mutex.keyToValue (getHashTblNbrFromKey key)] := by simp
  cases hfound : (t.gKeyToValueHashMap (getHashTblNbrFromKey key)).lookup
      key with
  | none =>
      refine .shows hmem (fun _ => id) fun u hu => ?_
      have hlookup := (lookup_eq (hmem _ rfl) hu key).trans hfound
      refine showsAt (act_emplace_none hlookup) ?_ rfl (.refl _ _)
        (after_unlock rfl)
      simp only [Section.apply, addSection, hlookup]
  | some it =>
      refine before_isDead now it hmem (fun _ => id)
        (fun u hu =>
          act_emplace_some ((lookup_eq (hmem _ rfl) hu key).trans hfound))
        rfl (fun _ => rfl) fun u dead hu hdead => ?_
      have hlookup := (lookup_eq (hmem _ rfl) hu key).trans hfound
      cases dead with
      | true =>
          have hbody : addSection now key expiry valueStr timestamp u =
              (.revived it.2, u.setEntry (getHashTblNbrFromKey key) key
                ({ valueStr with expiry := toWord (now + expiry) },
                  it.2)) := by
            simp only [addSection, hlookup, hdead.mp rfl, if_true]
          simp only [Section.apply, hbody]
          exact ⟨elsewhere_map _ _ (hmem _ rfl),
            after_overwrite _ valueStr hlookup⟩
      | false =>
          have hlive : ¬ Dead u now it := fun h =>
            Bool.false_ne_true (hdead.mpr h)
          have hbody : addSection now key expiry valueStr timestamp u =
              (.exist, u) := by
            simp only [addSection, hlookup, hlive, if_false]
          simp only [Section.apply, hbody]
          exact ⟨.refl _ _, after_unlock rfl⟩

/-! ### An eviction -/

section Eviction

variable {now : Nat} {h : HashTblNum}

abbrev both (h : HashTblNum) : List Mutex :=
  [.keyToValue h, .timestampToKey h]

theorem scan_congr (hmap : u.gKeyToValueHashMap h = t.gKeyToValueHashMap h)
    (hstamp : u.gFlushAllTimestamp = t.gFlushAllTimestamp)
    (one : Option (TimestampToKeyStruct × MapEntry))
    (l : List TimestampToKeyStruct) :
    scan u now h one l = scan t now h one l := by
  induction l generalizing one with
  | nil => rfl
  | cons entry rest ih =>
      simp only [scan, hmap]
      cases (t.gKeyToValueHashMap h).lookup entry.key with
      | none => rfl
      | some it =>
          have hdead : Dead u now it ↔ Dead t now it := by simp [Dead, hstamp]
          simp only [hdead, ih]

theorem Knows.bucket (hu : (storeMemory env).Knows (both h) t u) :
    u.gTimestampToKeySet h = t.gTimestampToKeySet h ∧
      u.gKeyToValueHashMap h = t.gKeyToValueHashMap h ∧
      u.gFlushAllTimestamp = t.gFlushAllTimestamp :=
  ⟨(hu.part (.timestampToKey h) (by simp)).symm,
    (hu.part (.keyToValue h) (by simp)).symm,
    (hu.steady ⟨h, by simp, by simp⟩).symm⟩

theorem Knows.scan (hu : (storeMemory env).Knows (both h) t u) :
    scan u now h none (u.gTimestampToKeySet h).toList =
      scan t now h none (t.gTimestampToKeySet h).toList := by
  obtain ⟨hset, hmap, hstamp⟩ := Knows.bucket hu
  rw [hset, scan_congr hmap hstamp]

theorem leaks_of_released {r : Bool}
    (hremove : removeSection now h u = (r, s)) :
    Section.leaks (.removeLRUElement now h) u = if r then [] else both h := by
  simp only [Section.leaks, hremove]

theorem before_evictOrphan {entry : TimestampToKeyStruct}
    (hremove : ∀ u, (storeMemory env).Knows (both h) t u →
      removeSection now h u = (true, evictOrphan u h entry)) :
    Unshown env (.removeLRUElement now h) (both h) t
      (Accesses.evictOrphan h entry) := by
  refine .shows (fun m hm => nomatch hm) (fun _ => id) fun u hu => ?_
  have hbody : Section.apply env (.removeLRUElement now h) u =
      ((), evictOrphan u h entry) := by
    simp only [Section.apply, hremove u hu]
  refine showsAt rfl hbody (leaks_of_released (hremove u hu))
    (elsewhere_set _ _ (by simp)) ?_
  refine .write (m := .timestampToKey h) rfl (by simp) ?_
  exact .unlock (by simp) (by simp) rfl (after_unlock rfl)

theorem before_evictPair {entry : TimestampToKeyStruct} {it : MapEntry}
    (hremove : ∀ u, (storeMemory env).Knows (both h) t u →
      removeSection now h u = (true, evictPair u h entry it)) :
    Unshown env (.removeLRUElement now h) (both h) t
      (Accesses.evictPair h entry it) := by
  refine .shows (fun m hm => nomatch hm) (fun _ => id) fun u hu => ?_
  have hbody : Section.apply env (.removeLRUElement now h) u =
      ((), evictPair u h entry it) := by
    simp only [Section.apply, hremove u hu]
  refine showsAt rfl hbody (leaks_of_released (hremove u hu)) ?_ ?_
  · exact (elsewhere_map _ _ (by simp)).trans (elsewhere_set _ _ (by simp))
  · refine .write (m := .keyToValue h) rfl (by simp) ?_
    refine .write (m := .timestampToKey h) rfl (by simp) ?_
    exact .unlock (by simp) (by simp) rfl (after_unlock rfl)

theorem before_scanTurn (n : Nat)
    (one : Option (TimestampToKeyStruct × MapEntry))
    {alive : TimestampToKeyStruct → Accesses Unit}
    (hscan : scan t now h none (t.gTimestampToKeySet h).toList =
      scan t now h one ((t.gTimestampToKeySet h).toList.drop n))
    (halive : ∀ entry it, (t.gTimestampToKeySet h).toList[n]? = some entry →
      (t.gKeyToValueHashMap h).lookup entry.key = some it → ¬ Dead t now it →
      Unshown env (.removeLRUElement now h) (both h) t (alive entry)) :
    Unshown env (.removeLRUElement now h) (both h) t
      (Accesses.scanTurn now h n alive) := by
  have hstampAt : ∀ u, (storeMemory env).Knows (both h) t u →
      (Access.stampAt h n).act env u =
        ((t.gTimestampToKeySet h).toList[n]?, u) := fun u hu => by
    rw [Access.act, (Knows.bucket hu).1]
  cases hentry : (t.gTimestampToKeySet h).toList[n]? with
  | none =>
      rw [List.drop_eq_nil_of_le (List.getElem?_eq_none_iff.mp hentry)] at hscan
      have hremove : ∀ u, (storeMemory env).Knows (both h) t u →
          removeSection now h u = (false, u) := fun u hu => by
        simp only [removeSection, Knows.scan hu, hscan, scan]
      refine .shows (by simp [storeMemory, Access.scope]) (fun _ => id)
        fun u hu => ?_
      have hbody : Section.apply env (.removeLRUElement now h) u = ((), u) := by
        simp only [Section.apply, hremove u hu]
      refine .of_eq (hentry ▸ hstampAt u hu) hbody
        (leaks_of_released (hremove u hu)) (.refl _ _) (fun _ => id) ?_
      exact .done fun _ _ => rfl
  | some entry =>
      obtain ⟨hlt, hget⟩ := List.getElem?_eq_some_iff.mp hentry
      rw [List.drop_eq_getElem_cons hlt, hget] at hscan
      refine .looks (r := some entry) (fun u hu => hentry ▸ hstampAt u hu) ?_
      have hfind : ∀ u, (storeMemory env).Knows (both h) t u →
          (Access.find h entry.key).act env u =
            ((t.gKeyToValueHashMap h).lookup entry.key, u) := fun u hu =>
        act_find (lookup_eq (by simp) hu entry.key)
      cases hlookup : (t.gKeyToValueHashMap h).lookup entry.key with
      | none =>
          refine .looks (r := none) (fun u hu => hlookup ▸ hfind u hu) ?_
          refine before_evictOrphan fun u hu => ?_
          simp only [removeSection, Knows.scan hu, hscan, scan, hlookup]
      | some it =>
          refine .looks (r := some it) (fun u hu => hlookup ▸ hfind u hu) ?_
          have hexpired : Dead t now it →
              Unshown env (.removeLRUElement now h) (both h) t
                (Accesses.evictPair h entry it) := fun hdead => by
            refine before_evictPair fun u hu => ?_
            simp only [removeSection, Knows.scan hu, hscan, scan, hlookup,
              if_pos hdead]
          change Unshown env _ _ _ (Accesses.isDead now it >>= _)
          by_cases hexpiry : it.1.expiry < now
          · rw [Accesses.isDead, if_pos hexpiry]
            exact hexpired (.inl hexpiry)
          · rw [Accesses.isDead, if_neg hexpiry]
            refine .looks (r := t.gFlushAllTimestamp) (fun u hu => ?_) ?_
            · rw [Access.act, (Knows.bucket hu).2.2]
            · change Unshown env _ _ _
                (if decide (it.2 < t.gFlushAllTimestamp) = true then _ else _)
              by_cases hflushed : it.2 < t.gFlushAllTimestamp
              · rw [if_pos (by simpa using hflushed)]
                exact hexpired (.inr hflushed)
              · rw [if_neg (by simpa using hflushed)]
                refine halive entry it hentry hlookup ?_
                rintro (hdead | hdead)
                · exact hexpiry hdead
                · exact hflushed hdead

theorem before_choose {one two : TimestampToKeyStruct}
    {valueOne valueTwo : MapEntry}
    (hone : (t.gKeyToValueHashMap h).lookup one.key = some valueOne)
    (htwo : (t.gKeyToValueHashMap h).lookup two.key = some valueTwo)
    (hscan : scan t now h none (t.gTimestampToKeySet h).toList =
      .pair one valueOne two valueTwo) :
    Unshown env (.removeLRUElement now h) (both h) t
      (Accesses.choose h one two) := by
  refine .looks (r := valueOne) (fun u hu =>
    act_node ((lookup_eq (by simp) hu one.key).trans hone)) ?_
  refine .looks (r := valueTwo) (fun u hu =>
    act_node ((lookup_eq (by simp) hu two.key).trans htwo)) ?_
  change Unshown env _ _ _
    (if valueOne.1.value.length < valueTwo.1.value.length then _ else _)
  by_cases hshorter : valueOne.1.value.length < valueTwo.1.value.length
  · rw [if_pos hshorter]
    refine before_evictPair fun u hu => ?_
    simp only [removeSection, Knows.scan hu, hscan, if_pos hshorter]
  · rw [if_neg hshorter]
    refine before_evictPair fun u hu => ?_
    simp only [removeSection, Knows.scan hu, hscan, if_neg hshorter]

theorem before_removeLRUElement (now : Nat) (h : HashTblNum) (s : Store) :
    Unshown env (.removeLRUElement now h) [] s
      (Accesses.removeLRUElement now h) := by
  refine .lock fun _ _ => .lock fun t _ => ?_
  refine before_scanTurn 0 none rfl fun one valueOne hone hvalueOne hlive => ?_
  have hsecond : scan t now h none (t.gTimestampToKeySet h).toList =
      scan t now h (some (one, valueOne))
        ((t.gTimestampToKeySet h).toList.drop 1) := by
    cases hlist : (t.gTimestampToKeySet h).toList with
    | nil => simp [hlist] at hone
    | cons entry rest =>
        obtain rfl : entry = one := by simpa [hlist] using hone
        simp only [scan, hvalueOne, if_neg hlive, List.drop_one, List.tail_cons]
  refine before_scanTurn 1 _ hsecond
    fun two valueTwo htwo hvalueTwo hlive' => ?_
  obtain ⟨hlt, hget⟩ := List.getElem?_eq_some_iff.mp htwo
  rw [List.drop_eq_getElem_cons hlt, hget] at hsecond
  refine before_choose hvalueOne hvalueTwo ?_
  simp only [hsecond, scan, hvalueTwo, if_neg hlive']

end Eviction

theorem before_ofSection (i : Section) (s : Store) :
    Unshown env i [] s (Accesses.ofSection i) := by
  cases i with
  | setIsEmpty h => exact before_setIsEmpty h s
  | removeLRUElement now h => exact before_removeLRUElement now h s
  | getSection now key timestamp => exact before_getSection now key timestamp s
  | deleteSection now key expiry => exact before_deleteSection now key expiry s
  | insertSection now key casUniq expiry valueStr timestamp =>
      exact before_insertSection now key casUniq expiry valueStr timestamp s
  | addSection now key expiry valueStr timestamp =>
      exact before_addSection now key expiry valueStr timestamp s
  | eraseStamp entry => exact before_eraseStamp entry s
  | insertStamp entry => exact before_insertStamp entry s
  | restamp old entry => exact before_restamp old entry s
  | _ => exact before_atomic (by trivial) s

end Sections

/-! ## Threads at work -/

def publishesFlush : Guarded Mutex Access → Bool
  | .access (.atomic (.setFlushAllTimestamp _) _) => true
  | _ => false

/-- Nobody publishes a flush while somebody holds both mutexes of a bucket. -/
def FlushesApart {α κ : Type} : AdmitsAccess α κ := fun _ s _ g =>
  publishesFlush g = true →
    ∀ h, ¬ (s.held (.timestampToKey h) = true ∧ s.held (.keyToValue h) = true)

instance {α κ : Type} (pool : κ → Accesses α) (s : Locked Mutex Store)
    (k : κ) (g : Guarded Mutex Access) : Decidable (FlushesApart pool s k g) :=
  inferInstanceAs (Decidable (_ → ∀ _, ¬ (_ ∧ _)))

section Threads

variable {κ : Type} {env : Env}

theorem flushAllTimestamp_act {j : Access}
    (hpublish : publishesFlush (.access j) = false) (s : Store) :
    (j.act env s).2.gFlushAllTimestamp = s.gFlushAllTimestamp := by
  cases j with
  | atomic i single =>
      cases i with
      | nextToken now =>
          simp only [Access.act, Section.apply, nextToken]
          split <;> rfl
      | setFlushAllTimestamp stamp => contradiction
      | _ =>
          first
            | rfl
            | exact absurd single not_false
  | emplace b key it =>
      simp only [Access.act]
      split <;> rfl
  | assign b key field =>
      simp only [Access.act]
      split <;> rfl
  | _ => rfl

theorem quiet_of_flushesApart {α : Type} {pool : κ → Accesses α}
    {s : Locked Mutex Store} {k : κ} {j : Access}
    (h : FlushesApart pool s k (.access j)) : (storeMemory env).Quiet s j := by
  rintro owned ⟨b, hset, hmap⟩ hheld
  cases hpublish : publishesFlush (.access j) with
  | true => exact absurd ⟨hheld _ hset, hheld _ hmap⟩ (h hpublish b)
  | false => exact flushAllTimestamp_act hpublish s.data

variable [DecidableEq κ] {calls : κ → DbCall} {t₀ : State}
  {history : AccessTurns κ} {pool : κ → Accesses Returned}
  {s : Locked Mutex Store}

/-- However the accesses of the calls are interleaved, their sections might as
well have been taken at once, each at an access of its client.  With all calls
at rest, the data and the mutexes are the same. -/
theorem sections_atomic
    (h : InterleavesAccesses env FlushesApart calls ⟨t₀.store, t₀.locks.held⟩
      history pool s) :
    ∃ turns pool' t, Interleaves env calls t₀ turns pool' t ∧
      (turns.map Prog.Event.client).Sublist
        (history.map Prog.Event.client) ∧
      (∀ k ret, pool k = .done ret → pool' k = .done ret) ∧
      ((∀ k g next, pool k ≠ .call g next) →
        t.store = s.data ∧ ∀ m, t.locks.held m = s.held m) := by
  obtain ⟨turns, pool', t, hrun, hturns, hstopped, hrest⟩ :=
    Memory.atomic (runsAtOnce env) before_ofSection
      (fun _ _ _ _ => quiet_of_flushesApart) rfl (fun _ => rfl) h
  exact ⟨turns, pool', t, hrun, hturns,
    fun k ret hk => hstopped k (.ok ret) hk, hrest⟩

end Threads

theorem exists_setAndGet_accesses :
    ∃ history pool s, InterleavesAccesses Env.x86 FlushesApart setAndGet
        ⟨State.init.store, State.init.locks.held⟩ history pool s ∧
      (pool true).result? = some (.element (some fiveRead)) :=
  Prog.exists_concurrent_of_turns (Access.exec Env.x86) FlushesApart
    (fun k => (setAndGet k).accesses Env.x86)
    ⟨State.init.store, State.init.locks.held⟩
    [false, false, false, false, false, true, false, true, true, true, true,
      false, true, false, false, false, true, true, true, true]
    (fun _ pool _ => (pool true).result? = some (.element (some fiveRead)))
    (by decide +kernel)

theorem sections_atomic_setAndGet :
    ∃ history pool s, InterleavesAccesses Env.x86 FlushesApart setAndGet
        ⟨State.init.store, State.init.locks.held⟩ history pool s ∧
      ∃ turns pool' t,
        Interleaves Env.x86 setAndGet State.init turns pool' t ∧
        (turns.map Prog.Event.client).Sublist
          (history.map Prog.Event.client) ∧
        pool' true = .done (.element (some fiveRead)) := by
  obtain ⟨history, pool, s, h, hresult⟩ := exists_setAndGet_accesses
  obtain ⟨turns, pool', t, hrun, hturns, hdone, -⟩ := sections_atomic h
  exact ⟨history, pool, s, h, turns, pool', t, hrun, hturns,
    hdone true _ (Prog.eq_done_of_result? hresult)⟩

section Threads

variable {κ : Type} [DecidableEq κ] {env : Env} {calls : κ → DbCall}
  {t₀ : State} {history : AccessTurns κ} {pool : κ → Accesses Returned}
  {s : Locked Mutex Store}

/-- However the accesses of the calls are interleaved, the calls are served by
the cache one after another, each at one of its own accesses. -/
theorem accesses_servedAsCache
    (h : InterleavesAccesses env FlushesApart calls ⟨t₀.store, t₀.locks.held⟩
      history pool s) :
    ∃ order c, Prog.Linearized Cache.Loses
        (fun k ret before after => Cache.Does env before (calls k) ret after)
        (history.map Prog.Event.client) pool t₀.store.cache c order ∧
      ((∀ k g next, pool k ≠ .call g next) → c = s.data.cache) := by
  obtain ⟨turns, pool', t, hrun, hturns, hstopped, hrest⟩ :=
    Memory.atomic (runsAtOnce env) before_ofSection
      (fun _ _ _ _ => quiet_of_flushesApart) rfl (fun _ => rfl) h
  obtain ⟨order, hserved⟩ := Interleaves.servedAsCache hrun
  exact ⟨order, t.store.cache,
    ⟨hserved.once, hserved.inTime.trans hturns, fun k ret hk =>
      hserved.finished k ret (hstopped k (.ok ret) hk), hserved.serves⟩,
    fun hstop => by rw [(hrest hstop).1]⟩

end Threads

theorem accesses_servedAsCache_setAndGet :
    ∃ (history : AccessTurns Bool) (pool : Bool → Accesses Returned)
      (order : List (Bool × Returned)) (c : Cache),
      Prog.Linearized Cache.Loses
        (fun k ret before after =>
          Cache.Does Env.x86 before (setAndGet k) ret after)
        (history.map Prog.Event.client) pool Store.init.cache c order ∧
      (true, .element (some fiveRead)) ∈ order := by
  obtain ⟨history, pool, s, h, hresult⟩ := exists_setAndGet_accesses
  obtain ⟨order, c, hserved, -⟩ := accesses_servedAsCache h
  exact ⟨history, pool, order, c, hserved,
    hserved.finished true _ (Prog.eq_done_of_result? hresult)⟩

end Memstashed.Dblru
