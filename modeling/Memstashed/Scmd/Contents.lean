import Memstashed.Dblru.Cache
import Memstashed.Dblru.Hits
import Memstashed.Foundation.Objects
import Memstashed.Scmd.Clients

/-!
# What the handlers find in the store

For a handler the store is a map from keys to values, flags and tokens that may
lose entries: when an entry expires, is flushed or evicted makes no difference
to what a call can answer.  This holds for a handler that runs alone, and for
each call of a handler that runs together with others.
-/

namespace Memstashed.Scmd

open Memstashed.Foundation
open Memstashed.Dblru

/-! ## The calls of the handlers as steps of the cache -/

def opCall (fuel : Nat) : Op → DbCall
  | .insert clock key flags casUniq value expiry =>
      .insert fuel clock key flags casUniq value expiry
  | .add clock key flags casUniq value expiry =>
      .add fuel clock key flags casUniq value expiry
  | .get now key => .get now key
  | .delete now key expiry => .delete now key expiry
  | .setFlushAll now expiry => .setFlushAll now expiry
  | .handleFlushAll now => .handleFlushAll now

def opReturned : (op : Op) → op.Answer → Returned
  | .insert _ _ _ _ _ _, ret => .status ret
  | .add _ _ _ _ _ _, ret => .status ret
  | .get _ _, found => .element found
  | .delete _ _ _, ret => .status ret
  | .setFlushAll _ _, _ => .nothing
  | .handleFlushAll _, _ => .nothing

def opAnswer? : (op : Op) → Returned → Option op.Answer
  | .insert _ _ _ _ _ _, .status ret => some ret
  | .add _ _ _ _ _ _, .status ret => some ret
  | .get _ _, .element found => some found
  | .delete _ _ _, .status ret => some ret
  | .setFlushAll _ _, .nothing => some ()
  | .handleFlushAll _, .nothing => some ()
  | _, _ => none

theorem opAnswer?_returned (op : Op) (a : op.Answer) :
    opAnswer? op (opReturned op a) = some a := by
  cases op <;> rfl

theorem opReturned_of_answer? (op : Op) (a : op.Answer) (ret : Returned)
    (h : opAnswer? op ret = some a) : opReturned op a = ret := by
  cases op <;> cases ret <;> cases h <;> rfl

theorem isSome_opAnswer? {env : Env} {fuel : Nat} (op : Op) (i : Section)
    (r : i.Answer) (ret : Returned)
    (h : DbCall.Takes env (opCall fuel op) i r ret) :
    (opAnswer? op ret).isSome = true := by
  cases op <;> cases h <;> rfl

theorem program_opCall (env : Env) (fuel : Nat) (op : Op) :
    (opCall fuel op).program env =
      opSections env fuel op >>= fun a => .done (opReturned op a) := by
  cases op <;> rfl

theorem shows_opSections (env : Env) (fuel : Nat) (op : Op) :
    Prog.Shows Section.Hidden
      (fun i r a => DbCall.Takes env (opCall fuel op) i r (opReturned op a))
      (fun a => DbCall.Free (opCall fuel op) (opReturned op a)) none
      (opSections env fuel op) := by
  have hprogram : ShowsAs env (opCall fuel op) none
      ((opCall fuel op).program env) := shows_program (opCall fuel op)
  rw [ShowsAs, program_opCall] at hprogram
  exact hprogram.of_map (opAnswer? op) (opAnswer?_returned op)
    (opReturned_of_answer? op) (isSome_opAnswer? op) (by simp)

theorem does_of_exec {env : Env} {op : Op} {t t' : State} {a : op.Answer}
    (h : op.exec env t = .ok (a, t')) :
    ∃ c c', Relation.ReflTransGen Cache.Loses t.store.cache c ∧
      Cache.Does env c (opCall (evictionFuel t.store) op) (opReturned op a) c' ∧
      Relation.ReflTransGen Cache.Loses c' t'.store.cache := by
  rw [← run_opSections] at h
  exact (shows_opSections env _ op).run (fun t => t.store.cache)
    (fun a c c' => Cache.Does env c (opCall (evictionFuel t.store) op)
      (opReturned op a) c')
    (fun i t r t' hi hexec => cache_hidden hi (Section.apply_of_exec hexec))
    (fun i t r t' a htakes hexec =>
      does_of_takes htakes (Section.apply_of_exec hexec))
    (fun a c hfree => does_of_free hfree c) h

/-! ## Contents -/

abbrev Contents := KeyType → Option (Bytes × Bytes × Bytes)

namespace Contents

variable {c c' : Contents}

def put (c : Contents) (key : KeyType) (v : Bytes × Bytes × Bytes) :
    Contents :=
  Function.update c key (some v)

def drop (c : Contents) (key : KeyType) : Contents :=
  Function.update c key none

/-- What a call may answer, and what it does to the contents.  The token of a
store is left open. -/
inductive Does (c : Contents) : (op : Op) → op.Answer → Contents → Prop
  | hit {now : Nat} {key : KeyType} {element : Element} :
      c key = some (element.value, element.flags, element.cas) →
      Does c (.get now key) (some element) c
  | miss {now : Nat} {key : KeyType} :
      Does c (.get now key) none (c.drop key)
  | stored {clock : Clock} {key flags casUniq value token : Bytes}
      {expiry : Nat} :
      (casUniq = [] ∨ ∃ value flags, c key = some (value, flags, casUniq)) →
      Does c (.insert clock key flags casUniq value expiry) .success
        (c.put key (value, flags, token))
  | changed {clock : Clock} {key flags casUniq value : Bytes} {expiry : Nat}
      {v : Bytes × Bytes × Bytes} :
      casUniq ≠ [] → c key = some v → v.2.2 ≠ casUniq →
      Does c (.insert clock key flags casUniq value expiry) .exist c
  | absent {clock : Clock} {key flags casUniq value : Bytes} {expiry : Nat} :
      casUniq ≠ [] →
      Does c (.insert clock key flags casUniq value expiry) .notExist
        (c.drop key)
  | full {clock : Clock} {key flags casUniq value : Bytes} {expiry : Nat} :
      Does c (.insert clock key flags casUniq value expiry) .memoryFull c
  | added {clock : Clock} {key flags casUniq value token : Bytes}
      {expiry : Nat} :
      Does c (.add clock key flags casUniq value expiry) .success
        (c.put key (value, flags, token))
  | taken {clock : Clock} {key flags casUniq value : Bytes} {expiry : Nat} :
      c key ≠ none →
      Does c (.add clock key flags casUniq value expiry) .exist c
  | noRoom {clock : Clock} {key flags casUniq value : Bytes} {expiry : Nat} :
      Does c (.add clock key flags casUniq value expiry) .memoryFull c
  | deleted {now : Nat} {key : KeyType} : c key ≠ none →
      Does c (.delete now key 0) .success (c.drop key)
  | delayed {now expiry : Nat} {key : KeyType} : c key ≠ none → expiry ≠ 0 →
      Does c (.delete now key expiry) .success c
  | notFound {now expiry : Nat} {key : KeyType} :
      Does c (.delete now key expiry) .notExist c
  | setFlushAll {now expiry : Nat} : Does c (.setFlushAll now expiry) () c
  | handleFlushAll {now : Nat} : Does c (.handleFlushAll now) () c

theorem drop_of_none {key : KeyType} (h : c key = none) : c.drop key = c := by
  rw [drop, ← h, Function.update_eq_self]

theorem Does.of_forgets {op : Op} {a : op.Answer} {x y : Contents}
    (hforgets : Forgets c x) (h : Does x op a y) :
    ∃ z, Does c op a z ∧ Forgets z y := by
  cases h with
  | hit hfound => exact ⟨c, .hit (hforgets.eq_some hfound), hforgets⟩
  | miss => exact ⟨_, .miss, hforgets.update _ _⟩
  | stored htoken =>
      refine ⟨_, .stored (htoken.imp_right ?_), hforgets.update _ _⟩
      rintro ⟨value, flags, hfound⟩
      exact ⟨value, flags, hforgets.eq_some hfound⟩
  | changed htoken hfound hne =>
      exact ⟨c, .changed htoken (hforgets.eq_some hfound) hne, hforgets⟩
  | absent htoken => exact ⟨_, .absent htoken, hforgets.update _ _⟩
  | full => exact ⟨c, .full, hforgets⟩
  | added => exact ⟨_, .added, hforgets.update _ _⟩
  | taken hthere => exact ⟨c, .taken (hforgets.ne_none hthere), hforgets⟩
  | noRoom => exact ⟨c, .noRoom, hforgets⟩
  | deleted hthere =>
      exact ⟨_, .deleted (hforgets.ne_none hthere), hforgets.update _ _⟩
  | delayed hthere hexpiry =>
      exact ⟨c, .delayed (hforgets.ne_none hthere) hexpiry, hforgets⟩
  | notFound => exact ⟨c, .notFound, hforgets⟩
  | setFlushAll => exact ⟨c, .setFlushAll, hforgets⟩
  | handleFlushAll => exact ⟨c, .handleFlushAll, hforgets⟩

def Steps (op : Op) (a : op.Answer) (c c' : Contents) : Prop :=
  ∃ y, Does c op a y ∧ Forgets y c'

end Contents

/-! ## The contents of the cache -/

def Cache.contents (c : Cache) : Contents := fun key =>
  (c.entry key).map fun it => Dblru.contents it.1

section Cache

variable {env : Env} {c c' : Cache}

theorem contents_put (c : Cache) (key : KeyType) (it : MapEntry) :
    Cache.contents (c.put key it) =
      (Cache.contents c).put key (Dblru.contents it.1) := by
  funext other
  simp only [Cache.contents, Cache.put, Contents.put]
  by_cases hother : other = key
  · subst hother
    simp
  · rw [Function.update_of_ne hother, Function.update_of_ne hother]
    rfl

theorem contents_drop (c : Cache) (key : KeyType) :
    Cache.contents (c.drop key) = (Cache.contents c).drop key := by
  funext other
  simp only [Cache.contents, Cache.drop, Contents.drop]
  by_cases hother : other = key
  · subst hother
    simp
  · rw [Function.update_of_ne hother, Function.update_of_ne hother]
    rfl

theorem forgets_of_loses (h : Cache.Loses c c') :
    Forgets (Cache.contents c) (Cache.contents c') := by
  obtain ⟨key, rfl⟩ := h
  rw [contents_drop]
  exact forgets_drop _ key

theorem forgets_of_losesMany (h : Relation.ReflTransGen Cache.Loses c c') :
    Forgets (Cache.contents c) (Cache.contents c') := by
  induction h with
  | refl => exact .refl _
  | tail _ hloses ih => exact ih.trans (forgets_of_loses hloses)

theorem contents_of_entry {key : KeyType} {it : MapEntry}
    (h : c.entry key = some it) :
    Cache.contents c key = some (Dblru.contents it.1) := by
  rw [Cache.contents, h]
  rfl

theorem contents_put_same {key : KeyType} {it : MapEntry}
    (h : c.entry key = some it) (it' : MapEntry)
    (hsame : Dblru.contents it'.1 = Dblru.contents it.1) :
    Cache.contents (c.put key it') = Cache.contents c := by
  rw [contents_put, hsame, Contents.put, ← contents_of_entry h,
    Function.update_eq_self]

theorem does_contents {fuel : Nat} {op : Op} {a : op.Answer}
    (h : Cache.Does env c (opCall fuel op) (opReturned op a) c') :
    Contents.Does (Cache.contents c) op a (Cache.contents c') := by
  cases op with
  | get now key =>
      simp only [opCall, opReturned] at h
      generalize hret : Returned.element a = ret at h
      cases h with
      | @hit _ _ it stamp hentry hlive =>
          cases hret
          rw [contents_put_same hentry (it.1, stamp) rfl]
          exact .hit (contents_of_entry hentry)
      | stale hentry hdead =>
          cases hret
          rw [contents_drop]
          exact .miss
      | missing hnone =>
          cases hret
          have hgone : Cache.contents c key = none := by
            rw [Cache.contents, hnone]
            rfl
          have hmiss : Contents.Does (Cache.contents c) (.get now key) none _ :=
            .miss
          rwa [Contents.drop_of_none hgone] at hmiss
      | unchanged => contradiction
  | insert clock key flags casUniq value expiry =>
      simp only [opCall, opReturned] at h
      generalize hret : Returned.status a = ret at h
      cases h with
      | create hnone =>
          cases hret
          rw [contents_put]
          exact .stored (.inl rfl)
      | overwrite hentry hcas =>
          cases hret
          rw [contents_put]
          refine .stored (hcas.imp_right fun hsame => ?_)
          rw [contents_of_entry hentry, ← hsame]
          exact ⟨_, _, rfl⟩
      | changed hentry hcas hne =>
          cases hret
          exact .changed hcas (contents_of_entry hentry) hne
      | absent hnone hcas =>
          cases hret
          have hgone : Cache.contents c key = none := by
            rw [Cache.contents, hnone]
            rfl
          have habsent : Contents.Does (Cache.contents c)
              (.insert clock key flags casUniq value expiry) .notExist _ :=
            .absent hcas
          rwa [Contents.drop_of_none hgone] at habsent
      | noRoom =>
          cases hret
          exact .full
      | unchanged => contradiction
  | add clock key flags casUniq value expiry =>
      simp only [opCall, opReturned] at h
      generalize hret : Returned.status a = ret at h
      cases h with
      | add hnone =>
          cases hret
          rw [contents_put]
          exact .added
      | revive hentry hdead =>
          cases hret
          rw [contents_put]
          exact .added
      | taken hentry hlive =>
          cases hret
          refine .taken ?_
          rw [contents_of_entry hentry]
          exact Option.some_ne_none _
      | noRoomToAdd =>
          cases hret
          exact .noRoom
      | unchanged => contradiction
  | delete now key expiry =>
      simp only [opCall, opReturned] at h
      generalize hret : Returned.status a = ret at h
      cases h with
      | delete hentry hlive =>
          cases hret
          rw [contents_drop]
          refine .deleted ?_
          rw [contents_of_entry hentry]
          exact Option.some_ne_none _
      | @delay _ _ _ it hentry hlive hexpiry =>
          cases hret
          rw [contents_put_same hentry
            ({ it.1 with expiry := toWord (now + expiry) }, it.2) rfl]
          refine .delayed ?_ hexpiry
          rw [contents_of_entry hentry]
          exact Option.some_ne_none _
      | notFound =>
          cases hret
          exact .notFound
      | unchanged => contradiction
  | setFlushAll now expiry =>
      simp only [opCall, opReturned] at h
      cases h with
      | unchanged => exact .setFlushAll
  | handleFlushAll now =>
      simp only [opCall, opReturned] at h
      cases h with
      | flush => exact .handleFlushAll
      | unchanged => exact .handleFlushAll

end Cache

theorem steps_of_exec {env : Env} {op : Op} {t t' : State} {a : op.Answer}
    (h : op.exec env t = .ok (a, t')) :
    Contents.Steps op a t.store.contents t'.store.contents := by
  obtain ⟨c, c', hc, hdoes, hc'⟩ := does_of_exec h
  obtain ⟨y, hy, hforgets⟩ :=
    (does_contents hdoes).of_forgets (forgets_of_losesMany hc)
  exact ⟨y, hy, hforgets.trans (forgets_of_losesMany hc')⟩

end Memstashed.Scmd
