import Memstashed.Scmd.Answers

/-!
# The keys of a request

A request names keys, and may put something under some of them.  Its handler
makes no call about any other key.  So a client whose keys nobody else puts
anything under finds the part of the map with its keys as if it were alone.
-/

namespace Memstashed.Scmd

open Memstashed.Foundation
open Memstashed.Dblru

/-- The request may insert the key; a `touch` does so with what is there. -/
def Word.Puts (input key : Bytes) : Word → Prop
  | .touch => ∃ expTime noreply,
      touchRequest input = .ok (key, expTime, noreply)
  | w => w.Writes input key

def Word.Names (input key : Bytes) : Word → Prop
  | .get => ∃ keys, getKeys input = .ok keys ∧ key ∈ keys
  | .gets => ∃ keys, getKeys input = .ok keys ∧ key ∈ keys
  | .delete => ∃ noreply, deleteRequest input = .ok (key, noreply)
  | w => w.Puts input key

def Puts (input key : Bytes) : Prop :=
  ∃ w, Word.ofBytes (commandWord input) = some w ∧ w.Puts input key

def Names (input key : Bytes) : Prop :=
  ∃ w, Word.ofBytes (commandWord input) = some w ∧ w.Names input key

theorem names_of_touch {input key other : Bytes} (hputs : Puts input key)
    (hwrites : ¬ Writes input key) (h : Names input other) : other = key := by
  obtain ⟨w, hword, hkey⟩ := hputs
  obtain ⟨w', hword', hother⟩ := h
  rw [hword] at hword'
  cases hword'
  cases w with
  | touch =>
      obtain ⟨expTime, noreply, hrequest⟩ := hkey
      obtain ⟨expTime', noreply', hrequest'⟩ := hother
      rw [hrequest] at hrequest'
      cases hrequest'
      rfl
  | _ => exact absurd ⟨_, hword, hkey⟩ hwrites

/-! ## The calls of a handler -/

def opKey? : Op → Option KeyType
  | .insert _ key _ _ _ _ => some key
  | .add _ key _ _ _ _ => some key
  | .get _ key => some key
  | .delete _ key _ => some key
  | .setFlushAll _ _ => none
  | .handleFlushAll _ => none

/-- A call about keys of these, which puts something only under keys of
those. -/
def Concerns (names puts : KeyType → Prop) (op : Op) : Prop :=
  (∀ key, opKey? op = some key → names key) ∧
    ∀ w, op.write? = some w → puts w.key

section Calls

variable {names puts : KeyType → Prop} {times : Times} {input key : Bytes}

theorem concerns_none {op : Op} (hkey : opKey? op = none)
    (hwrite : op.write? = none) : Concerns names puts op := by
  constructor
  · intro key h
    rw [hkey] at h
    contradiction
  · intro w h
    rw [hwrite] at h
    contradiction

theorem concerns_get (now : Nat) (hname : names key) :
    Concerns names puts (.get now key) := by
  constructor
  · intro key' hkey
    cases hkey
    exact hname
  · intro w hw
    contradiction

theorem concerns_delete (now expiry : Nat) (hname : names key) :
    Concerns names puts (.delete now key expiry) := by
  constructor
  · intro key' hkey
    cases hkey
    exact hname
  · intro w hw
    contradiction

theorem concerns_insert (clock : Clock) (flags casUniq value : Bytes)
    (expiry : Nat) (hname : names key) (hput : puts key) :
    Concerns names puts (.insert clock key flags casUniq value expiry) := by
  constructor
  · intro key' hkey
    cases hkey
    exact hname
  · intro w hw
    cases hw
    exact hput

theorem concerns_add (clock : Clock) (flags casUniq value : Bytes)
    (expiry : Nat) (hname : names key) (hput : puts key) :
    Concerns names puts (.add clock key flags casUniq value expiry) := by
  constructor
  · intro key' hkey
    cases hkey
    exact hname
  · intro w hw
    cases hw
    exact hput

theorem concerns_storeStep {store : StorageStruct} (hname : names store.key)
    (hput : puts store.key) (w : Word) :
    Prog.Calls (Concerns names puts) (w.storeStep times store) := by
  have hextend (join : Bytes → Bytes → Bytes) :
      Prog.Calls (Concerns names puts)
        (Word.storeStep.extend times store join) := by
    refine .call (concerns_get _ hname) fun found => ?_
    cases found with
    | none => exact .done _
    | some element =>
        exact calls_insertAndAnswer times (concerns_insert _ _ _ _ _ hname hput)
  cases w with
  | set =>
      exact calls_insertAndAnswer times (concerns_insert _ _ _ _ _ hname hput)
  | add =>
      exact .call (concerns_add _ _ _ _ _ hname hput) fun r =>
        calls_ite (.done _) (calls_ite (.done _) (.done _))
  | replace =>
      refine .call (concerns_get _ hname) fun found => ?_
      cases found with
      | none => exact .done _
      | some element =>
          exact calls_insertAndAnswer times
            (concerns_insert _ _ _ _ _ hname hput)
  | append => exact hextend fun value data => value ++ data
  | prepend => exact hextend fun value data => data ++ value
  | cas =>
      exact .call (concerns_insert _ _ _ _ _ hname hput) fun r =>
        calls_ite (.done _)
          (calls_ite (.done _) (calls_ite (.done _) (.done _)))
  | _ => exact .done _

theorem concerns_getLoop (withCas : Bool) (keys : List Bytes) :
    ∀ (clock : Nat → Nat) (output : Bytes), (∀ key ∈ keys, names key) →
      Prog.Calls (Concerns names puts) (getLoop withCas clock keys output) := by
  induction keys with
  | nil =>
      intro clock output h
      exact .done output
  | cons key keys ih =>
      intro clock output h
      have htail : ∀ other ∈ keys, names other := fun other hmem =>
        h other (List.mem_cons_of_mem _ hmem)
      refine .call (concerns_get _ (h key List.mem_cons_self)) fun found => ?_
      cases found with
      | none => exact ih _ output htail
      | some element => exact ih _ _ htail

theorem concerns_getWith (withCas : Bool)
    (h : ∀ keys, getKeys input = .ok keys → ∀ key ∈ keys, names key) :
    Prog.Calls (Concerns names puts)
      (cmdProcessGetWith withCas times input) := by
  refine calls_parsed_of fun keys hkeys => ?_
  refine Prog.Calls.bind ?_ fun output => .done _
  exact concerns_getLoop withCas keys _ _ (h keys hkeys)

theorem concerns_counter (combine : Nat → Nat → Nat)
    (h : ∀ key value noreply, counterRequest input = .ok (key, value, noreply) →
      names key ∧ puts key) :
    Prog.Calls (Concerns names puts)
      (cmdProcessCounter combine times input) := by
  refine calls_parsed_of fun fields hfields => ?_
  obtain ⟨key, value, noreply⟩ := fields
  obtain ⟨hname, hput⟩ := h key value noreply hfields
  refine .call (concerns_get _ hname) fun found => ?_
  cases found with
  | none => exact .done _
  | some element =>
      refine calls_uncaughtStoul fun inputValue => ?_
      refine calls_uncaughtStoul fun oldValue => ?_
      exact calls_ite (.done _) (calls_insertAndAnswer times
        (concerns_insert _ _ _ _ _ hname hput))

theorem concerns_storage {w : Word} (hstores : w.stores = true)
    (h : ∀ ret store, w.storageRequest times.parse input = .ok (ret, store) →
      names store.key ∧ puts store.key) :
    Prog.Calls (Concerns names puts) (w.process times input) := by
  rw [process_storage hstores]
  refine calls_storage_of fun ret store hrequest => ?_
  obtain ⟨hname, hput⟩ := h ret store hrequest
  exact concerns_storeStep hname hput w

theorem concerns_process (times : Times) (input : Bytes) (w : Word) :
    Prog.Calls (Concerns (fun key => w.Names input key) fun key =>
      w.Puts input key) (w.process times input) := by
  cases w with
  | get =>
      exact concerns_getWith false fun keys hkeys key hmem =>
        ⟨keys, hkeys, hmem⟩
  | gets =>
      exact concerns_getWith true fun keys hkeys key hmem =>
        ⟨keys, hkeys, hmem⟩
  | delete =>
      refine calls_parsed_of fun fields hfields => ?_
      exact .call (concerns_delete _ _ ⟨fields.2, hfields⟩) fun r =>
        calls_ite (.done _) (.done _)
  | incr =>
      unfold Word.process cmdProcessIncr
      exact concerns_counter _ fun key value noreply hfields =>
        ⟨⟨value, noreply, hfields⟩, ⟨value, noreply, hfields⟩⟩
  | decr =>
      unfold Word.process cmdProcessDecr
      exact concerns_counter _ fun key value noreply hfields =>
        ⟨⟨value, noreply, hfields⟩, ⟨value, noreply, hfields⟩⟩
  | touch =>
      refine calls_parsed_of fun fields hfields => ?_
      obtain ⟨key, expTime, noreply⟩ := fields
      have hput : Word.Puts input key .touch := ⟨expTime, noreply, hfields⟩
      refine .call (concerns_get _ hput) fun found => ?_
      cases found with
      | none => exact .done _
      | some element =>
          exact .call (concerns_insert _ _ _ _ _ hput hput) fun r =>
            calls_ite (.done _) (.done _)
  | flushAll =>
      refine calls_parsed fun fields => .call ?_ fun r => .done _
      exact concerns_none rfl rfl
  | verbosity => exact calls_parsed fun noreply => .done _
  | version => exact .done _
  | stats => exact .done _
  | quit => exact .done _
  | _ =>
      refine concerns_storage rfl fun ret store hrequest => ?_
      exact ⟨⟨rfl, _, ret, store, hrequest, rfl⟩,
        ⟨rfl, _, ret, store, hrequest, rfl⟩⟩

theorem concerns_command (times : Times) (input : Bytes) :
    Prog.Calls (Concerns (Names input) (Puts input))
      (cmdProcessCommand times input) := by
  refine .call (concerns_none rfl rfl) fun r => ?_
  change Prog.Calls _ (dispatch times input)
  unfold dispatch
  cases hword : Word.ofBytes (commandWord input) with
  | none => exact .done _
  | some w =>
      refine (concerns_process times input w).mono fun op hop => ?_
      exact ⟨fun key hkey => ⟨w, hword, hop.1 key hkey⟩,
        fun v hv => ⟨w, hword, hop.2 v hv⟩⟩

end Calls

/-! ## A part of the map -/

namespace Contents

open Classical in
noncomputable def only (c : Contents) (keys : KeyType → Prop) : Contents :=
  fun key => if keys key then c key else none

section Only

variable {keys : KeyType → Prop} {c c' : Contents} {key : KeyType}

theorem only_of_mem (c : Contents) (h : keys key) : c.only keys key = c key :=
  if_pos h

theorem only_update (c : Contents) (h : keys key)
    (v : Option (Bytes × Bytes × Bytes)) :
    Contents.only (Function.update c key v) keys =
      Function.update (c.only keys) key v := by
  funext other
  by_cases hother : other = key
  · subst hother
    rw [Function.update_self, only_of_mem _ h, Function.update_self]
  · simp only [only, Function.update_of_ne hother]

theorem only_update_of_not (c : Contents) (h : ¬ keys key)
    (v : Option (Bytes × Bytes × Bytes)) :
    Contents.only (Function.update c key v) keys = c.only keys := by
  funext other
  by_cases hother : other = key
  · subst hother
    simp only [only, h, if_false]
  · simp only [only, Function.update_of_ne hother]

theorem forgets_only (h : Forgets c c') :
    Forgets (c.only keys) (c'.only keys) := by
  intro other
  by_cases hother : keys other
  · rw [only_of_mem c hother, only_of_mem c' hother]
    exact h other
  · refine .inr ?_
    simp only [only, hother, if_false]

theorem Does.only {op : Op} {a : op.Answer} (h : Does c op a c')
    (hop : ∀ key, opKey? op = some key → keys key) :
    Does (c.only keys) op a (c'.only keys) := by
  cases h with
  | @hit now key element hfound =>
      refine .hit ?_
      rwa [only_of_mem c (hop key rfl)]
  | @miss now key =>
      rw [drop, only_update c (hop key rfl)]
      exact .miss
  | @stored clock key flags casUniq value token expiry htoken =>
      rw [put, only_update c (hop key rfl)]
      refine .stored ?_
      rwa [only_of_mem c (hop key rfl)]
  | @changed clock key flags casUniq value expiry v htoken hfound hne =>
      refine .changed htoken ?_ hne
      rwa [only_of_mem c (hop key rfl)]
  | @absent clock key flags casUniq value expiry htoken =>
      rw [drop, only_update c (hop key rfl)]
      exact .absent htoken
  | full => exact .full
  | @added clock key flags casUniq value token expiry =>
      rw [put, only_update c (hop key rfl)]
      exact .added
  | @taken clock key flags casUniq value expiry hthere =>
      refine .taken ?_
      rwa [only_of_mem c (hop key rfl)]
  | noRoom => exact .noRoom
  | @deleted now key hthere =>
      rw [drop, only_update c (hop key rfl)]
      refine .deleted ?_
      rwa [only_of_mem c (hop key rfl)]
  | @delayed now expiry key hthere hexpiry =>
      refine .delayed ?_ hexpiry
      rwa [only_of_mem c (hop key rfl)]
  | notFound => exact .notFound
  | setFlushAll => exact .setFlushAll
  | handleFlushAll => exact .handleFlushAll

theorem Does.forgets_only {op : Op} {a : op.Answer} (h : Does c op a c')
    (hop : ∀ w, op.write? = some w → ¬ keys w.key) :
    Forgets (c.only keys) (c'.only keys) := by
  cases h with
  | hit => exact .refl _
  | miss => exact Contents.forgets_only (forgets_drop c _)
  | stored =>
      rw [put, only_update_of_not c (hop _ rfl)]
      exact .refl _
  | changed => exact .refl _
  | absent => exact Contents.forgets_only (forgets_drop c _)
  | full => exact .refl _
  | added =>
      rw [put, only_update_of_not c (hop _ rfl)]
      exact .refl _
  | taken => exact .refl _
  | noRoom => exact .refl _
  | deleted => exact Contents.forgets_only (forgets_drop c _)
  | delayed => exact .refl _
  | notFound => exact .refl _
  | setFlushAll => exact .refl _
  | handleFlushAll => exact .refl _

def StepsOn (keys : KeyType → Prop) (op : Op) (a : op.Answer)
    (c c' : Contents) : Prop :=
  ((∀ key, opKey? op = some key → keys key) → Steps op a c c') ∧
    ((∀ w, op.write? = some w → ¬ keys w.key) → Forgets c c')

theorem Does.stepsOn {op : Op} {a : op.Answer} (h : Does c op a c') :
    StepsOn keys op a (c.only keys) (c'.only keys) :=
  ⟨fun hop => ⟨_, h.only hop, .refl _⟩, fun hop => h.forgets_only hop⟩

theorem stepsOn_of_forgets (op : Op) (a : op.Answer) (x y z : Contents)
    (hforgets : Forgets x y) (h : StepsOn keys op a y z) :
    StepsOn keys op a x z := by
  refine ⟨fun hop => ?_, fun hop => hforgets.trans (h.2 hop)⟩
  obtain ⟨w, hdoes, hw⟩ := h.1 hop
  obtain ⟨w', hdoes', hw'⟩ := hdoes.of_forgets hforgets
  exact ⟨w', hdoes', hw'.trans hw⟩

end Only

end Contents

/-- A request, as the part of the map with these keys shows it: it is answered
from there if it names no other key, and can only lose something there if it
puts nothing under these. -/
def AnswersOn (keys : KeyType → Prop) (times : Times) (input : Bytes)
    (c : Contents) (resp : Response) (c' : Contents) : Prop :=
  ((∀ key, Names input key → keys key) →
      Amounts (Answers times input c resp) c') ∧
    ((∀ key, Puts input key → ¬ keys key) → Forgets c c')

theorem answersOn_of_over {keys : KeyType → Prop} {times : Times}
    {input : Bytes} {c c' : Contents} {resp : Response}
    (h : Prog.Over (Contents.StepsOn keys) (cmdProcessCommand times input) c
      resp c') : AnswersOn keys times input c resp c' := by
  have hconcerns := concerns_command times input
  refine ⟨fun hnames => ?_, fun hputs => ?_⟩
  · refine answers_of_over (h.mono_of_calls (fun op a x y hop hstep => ?_)
      hconcerns)
    exact hstep.1 fun key hkey => hnames key (hop.1 key hkey)
  · refine Prog.Over.loses Forgets.refl (fun _ _ _ => Forgets.trans)
      (h.mono_of_calls (fun op a x y hop hstep => ?_) hconcerns)
    exact hstep.2 fun w hw => hputs w.key (hop.2 w hw)

end Memstashed.Scmd
