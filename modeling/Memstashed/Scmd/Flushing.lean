import Memstashed.Scmd.Runs

/-!
# What `flush_all` separates

Every command looks whether a flush is due before it does anything else.  From
then on the keys of before are missed until they are stored again.  A store over
an entry of before keeps the old timestamp, though, and is missed as well.
-/

namespace Memstashed.Scmd

open Memstashed.Foundation
open Memstashed.Dblru

def Request.word (q : Request) : Option Word :=
  Word.ofBytes (commandWord q.input)

/-- The counter of timestamps does not wrap during the command, and a flush is
not set while another one is still waiting. -/
structure Orderly (s : Store) (q : Request) (es : List Event) : Prop where
  wrap : s.gTimestamp + es.length < wordSize
  flush : ∀ now delay, ⟨.setFlushAll now delay, ()⟩ ∈ es →
    (handleFlush q.times.flush s).gIsFlushAllSet = false

def StoresKey (key : KeyType) (es : List Event) : Prop :=
  ∃ e ∈ es, e.1.stores (e.1.status e.2) key

/--
The run from `s₀` on, in which a flush is set for the second `time`: first the
commands that are served before that second, then, once it has come, commands
that do not store the key.  `touch` is not among the commands that store.
-/
inductive SinceFlush (env : Env) (time : Nat) (key : KeyType) (s₀ : Store) :
    Bool → Store → Prop
  | start : SinceFlush env time key s₀ false s₀
  | waiting {s s' : Store} {q : Request} {es : List Event} :
      SinceFlush env time key s₀ false s → Orderly s q es →
      Serves env q es s s' → q.times.flush < time →
      SinceFlush env time key s₀ false s'
  | come {b : Bool} {s s' : Store} {q : Request} {es : List Event} :
      SinceFlush env time key s₀ b s → Orderly s q es →
      Serves env q es s s' → b = true ∨ time ≤ q.times.flush →
      q.word = some .touch ∨ ¬ StoresKey key es →
      SinceFlush env time key s₀ true s'

/-! ## The calls of a command -/

section Paths

variable {times : Times} {input : Bytes} {es : List Event} {resp : Response}

theorem path_command
    (h : Prog.Path (cmdProcessCommand times input) es resp) :
    ∃ es', es = ⟨.handleFlushAll times.flush, ()⟩ :: es' ∧
      Prog.Path (dispatch times input) es' resp := by
  obtain ⟨r, es', rfl, hpath⟩ := path_call h
  exact ⟨es', rfl, hpath⟩

theorem path_flushAll
    (h : Prog.Path (cmdProcessFlushAll times input) es resp) :
    es = [] ∨ ∃ delay, es = [⟨.setFlushAll times.write.now delay, ()⟩] := by
  by_cases hne : es = []
  · exact .inl hne
  · obtain ⟨⟨delay, noreply⟩, -, hpath⟩ := path_parsed hne h
    obtain ⟨r, es', rfl, hnext⟩ := path_call hpath
    obtain rfl := (path_done hnext).1
    exact .inr ⟨delay, rfl⟩

theorem path_dispatch (h : Prog.Path (dispatch times input) es resp) :
    (∃ delay, es = [⟨.setFlushAll times.write.now delay, ()⟩]) ∨
      ∀ e ∈ es, HandlerCall times e.1 := by
  unfold dispatch at h
  split at h
  · rename_i w hword
    by_cases hw : w = .flushAll
    · subst hw
      rcases path_flushAll h with rfl | hset
      · exact .inr (by simp)
      · exact .inl hset
    · exact .inr ((calls_process times input hw).path h)
  · obtain ⟨rfl, -⟩ := path_done h
    exact .inr (by simp)

theorem path_touch (hne : es ≠ [])
    (h : Prog.Path (cmdProcessTouch times input) es resp) :
    ∃ key found es', es = ⟨.get (times.get 0) key, found⟩ :: es' ∧
      match found with
      | none => es' = []
      | some element => ∃ expTime r, es' =
          [⟨.insert times.write key element.flags element.cas element.value
            expTime, r⟩] := by
  obtain ⟨⟨key, expTime, noreply⟩, -, hpath⟩ := path_parsed hne h
  obtain ⟨found, es', rfl, hnext⟩ := path_call hpath
  refine ⟨key, found, es', rfl, ?_⟩
  cases found with
  | none => exact (path_done hnext).1
  | some element =>
      obtain ⟨r, es'', rfl, hafter⟩ := path_call hnext
      change Prog.Path (if r = RetStatus.memoryFull then _ else _) es'' resp
        at hafter
      refine ⟨expTime, r, ?_⟩
      split at hafter
      · rw [(path_done hafter).1]
      · rw [(path_done hafter).1]

end Paths

/-! ## What the calls of a command keep -/

section Keeps

variable {env : Env} {s : Store} {t : State} {es : List Event} {key : KeyType}

theorem performs_stamped
    (h : Prog.Performs (Op.exec env) es ⟨s, Locks.free⟩ t)
    (hwrap : s.gTimestamp + es.length < wordSize) (hs : Stamped s) :
    t.locks = Locks.free ∧ Stamped t.store := by
  suffices hkept : t.locks = Locks.free ∧
      t.store.gTimestamp + 0 < wordSize ∧ Stamped t.store from
    ⟨hkept.1, hkept.2.2⟩
  refine performs_keeps
    (I := fun n s => s.gTimestamp + n < wordSize ∧ Stamped s)
    (Q := fun _ => True) ?_ h (fun _ _ => trivial) ⟨hwrap, hs⟩
  rintro n s op a s' ⟨hwrap, hs⟩ - hstep
  have hnext : s.gTimestamp + 1 < wordSize := by omega
  have hmono := hstep.timestamp hnext
  exact ⟨by omega, stamped_step hstep hs hnext⟩

theorem performs_gone
    (h : Prog.Performs (Op.exec env) es ⟨s, Locks.free⟩ t)
    (hwrap : s.gTimestamp + es.length < wordSize) (hs : Stamped s)
    (hnot : ¬ StoresKey key es) (hgone : Gone s key) :
    t.locks = Locks.free ∧ Gone t.store key := by
  suffices hkept : t.locks = Locks.free ∧
      t.store.gTimestamp + 0 < wordSize ∧ Stamped t.store ∧
        Gone t.store key from ⟨hkept.1, hkept.2.2.2⟩
  refine performs_keeps
    (I := fun n s =>
      s.gTimestamp + n < wordSize ∧ Stamped s ∧ Gone s key)
    (Q := fun e => ¬ e.1.stores (e.1.status e.2) key) ?_ h
    (fun e he hstores => hnot ⟨e, he, hstores⟩) ⟨hwrap, hs, hgone⟩
  rintro n s op a s' ⟨hwrap, hs, hgone⟩ hnot hstep
  have hnext : s.gTimestamp + 1 < wordSize := by omega
  have hmono := hstep.timestamp hnext
  exact ⟨by omega, stamped_step hstep hs hnext,
    gone_step hstep hs hnext hnot hgone⟩

theorem performs_unflushed {P : Store → Prop}
    (hkeep : ∀ s op r s', StoreStep env s op r s' → op.flushes = false →
      P s → P s')
    (h : Prog.Performs (Op.exec env) es ⟨s, Locks.free⟩ t)
    (hes : ∀ e ∈ es, e.1.flushes = false) (hs : P s) : P t.store := by
  refine (performs_keeps (I := fun _ s => P s)
    (Q := fun e => e.1.flushes = false) ?_ h hes hs).2
  intro n s op a s' hs hop hstep
  exact hkeep s op _ s' hstep hop hs

theorem performs_misses
    (h : Prog.Performs (Op.exec env) es ⟨s, Locks.free⟩ t)
    (hwrap : s.gTimestamp + es.length < wordSize) (hs : Stamped s)
    (hnot : ¬ StoresKey key es) (hgone : Gone s key) {now : Nat}
    {found : Option Element} (hget : ⟨.get now key, found⟩ ∈ es) :
    found = none := by
  obtain ⟨before, after, rfl⟩ := List.append_of_mem hget
  obtain ⟨⟨s', locks⟩, hbefore, hafter⟩ :=
    (Prog.performs_append (Op.exec env)).mp h
  have hwrap' : s.gTimestamp + before.length < wordSize := by
    simp only [List.length_append] at hwrap
    omega
  have hnot' : ¬ StoresKey key before := by
    rintro ⟨e, he, hstores⟩
    exact hnot ⟨e, List.mem_append_left _ he, hstores⟩
  obtain ⟨rfl, hgone'⟩ := performs_gone hbefore hwrap' hs hnot' hgone
  cases hafter with
  | cons hexec _ =>
      have hstep : dbGetElement now key ⟨s', Locks.free⟩ = .ok (found, _) :=
        hexec
      rw [dbGetElement_free, getStep_of_gone hgone' now] at hstep
      cases hstep
      rfl

end Keeps

section Served

variable {env : Env} {s s' : Store} {q : Request} {es : List Event}
  {key : KeyType} {time : Nat}

theorem Serves.first (h : Serves env q es s s') :
    ∃ es' resp, es = ⟨.handleFlushAll q.times.flush, ()⟩ :: es' ∧
      Prog.Path (dispatch q.times q.input) es' resp ∧
      Prog.Performs (Op.exec env) es'
        ⟨handleFlush q.times.flush s, Locks.free⟩ ⟨s', Locks.free⟩ := by
  obtain ⟨resp, hpath, hperforms⟩ := h
  obtain ⟨es', rfl, hdispatch⟩ := path_command hpath
  cases hperforms with
  | cons hexec hrest =>
      cases hexec
      exact ⟨es', resp, rfl, hdispatch, hrest⟩

theorem Serves.stamped (h : Serves env q es s s') (hok : Orderly s q es)
    (hs : Stamped s) : Stamped s' := by
  obtain ⟨resp, -, hperforms⟩ := h
  exact (performs_stamped hperforms hok.wrap hs).2

theorem Serves.pending (h : Serves env q es s s') (hok : Orderly s q es)
    (hwait : q.times.flush < time) (hpending : Pending s time) :
    Pending s' time := by
  obtain ⟨es', resp, rfl, hpath, hperforms⟩ := h.first
  have hsame := pending_handleFlush hwait hpending
  rw [hsame] at hperforms
  rcases path_dispatch hpath with ⟨delay, rfl⟩ | hkeeps
  · have hset := hok.flush _ _ (List.mem_cons_of_mem _ List.mem_cons_self)
    rw [hsame, hpending.1] at hset
    contradiction
  · exact performs_unflushed (P := fun s => Pending s time)
      (fun _ _ _ _ hstep hop hp => pending_step hstep hop hp) hperforms
      (fun e he => (hkeeps e he).flushes) hpending

theorem Serves.fired (h : Serves env q es s s') (hok : Orderly s q es)
    (hs : Stamped s) (hcome : time ≤ q.times.flush)
    (hpending : Pending s time) (key : KeyType) :
    Gone (handleFlush q.times.flush s) key := by
  obtain ⟨es', resp, rfl, -, -⟩ := h.first
  have hwrap := hok.wrap
  simp only [List.length_cons] at hwrap
  exact gone_of_fired hs (by omega) hpending.1 (hpending.2 ▸ hcome) key

theorem handleFlush_stamped {n : Nat} (now : Nat)
    (hwrap : s.gTimestamp + (n + 1) < wordSize) (hs : Stamped s) :
    Stamped (handleFlush now s) ∧
      (handleFlush now s).gTimestamp + n < wordSize := by
  have hstep : StoreStep Env.x86 s (.handleFlushAll now) .success
      (handleFlush now s) := .handleFlushAll now
  have hnext : s.gTimestamp + 1 < wordSize := by omega
  have hmono := hstep.timestamp hnext
  exact ⟨stamped_step hstep hs hnext, by omega⟩

theorem touch_stores_not {es' : List Event} {resp : Response}
    {t : State} (hword : q.word = some .touch)
    (hpath : Prog.Path (dispatch q.times q.input) es' resp)
    (hperforms : Prog.Performs (Op.exec env) es' ⟨s, Locks.free⟩ t)
    (hgone : Gone s key) : ¬ StoresKey key es' := by
  rintro ⟨e, he, hr, w, hwrite, hkey⟩
  have htouch : dispatch q.times q.input =
      cmdProcessTouch q.times q.input := by
    have hof : Word.ofBytes (commandWord q.input) = some .touch := hword
    rw [dispatch, hof]
    rfl
  rw [htouch] at hpath
  obtain ⟨other, found, es'', rfl, hafter⟩ :=
    path_touch (List.ne_nil_of_mem he) hpath
  rcases List.mem_cons.mp he with rfl | hmem
  · contradiction
  · cases found with
    | none =>
        subst hafter
        contradiction
    | some element =>
        obtain ⟨expTime, r, rfl⟩ := hafter
        obtain rfl := List.mem_singleton.mp hmem
        cases hwrite
        obtain rfl : other = key := hkey
        -- the read before the store has found the key
        cases hperforms with
        | cons hexec _ =>
            have hget : dbGetElement (q.times.get 0) other ⟨s, Locks.free⟩ =
              .ok (some element, _) := hexec
            rw [dbGetElement_free, getStep_of_gone hgone] at hget
            simp at hget

theorem Serves.gone (h : Serves env q es s s') (hok : Orderly s q es)
    (hs : Stamped s) (hgone : Gone (handleFlush q.times.flush s) key)
    (hnot : q.word = some .touch ∨ ¬ StoresKey key es) : Gone s' key := by
  obtain ⟨es', resp, rfl, hpath, hperforms⟩ := h.first
  obtain ⟨hstamped, hwrap⟩ :=
    handleFlush_stamped q.times.flush hok.wrap hs
  refine (performs_gone hperforms hwrap hstamped ?_ hgone).2
  rcases hnot with hword | hnot
  · exact touch_stores_not hword hpath hperforms hgone
  · rintro ⟨e, he, hstores⟩
    exact hnot ⟨e, List.mem_cons_of_mem _ he, hstores⟩

theorem Serves.misses (h : Serves env q es s s') (hok : Orderly s q es)
    (hs : Stamped s) (hgone : Gone (handleFlush q.times.flush s) key)
    (hnot : ¬ StoresKey key es) {now : Nat} {found : Option Element}
    (hget : ⟨.get now key, found⟩ ∈ es) : found = none := by
  obtain ⟨es', resp, rfl, hpath, hperforms⟩ := h.first
  obtain ⟨hstamped, hwrap⟩ :=
    handleFlush_stamped q.times.flush hok.wrap hs
  have hnot' : ¬ StoresKey key es' := by
    rintro ⟨e, he, hstores⟩
    exact hnot ⟨e, List.mem_cons_of_mem _ he, hstores⟩
  have hget' : ⟨.get now key, found⟩ ∈ es' := by simpa using hget
  exact performs_misses hperforms hwrap hstamped hnot' hgone hget'

theorem Serves.gone_first (h : Serves env q es s s') (hok : Orderly s q es)
    (hs : Stamped s) (hgone : Gone s key) :
    Gone (handleFlush q.times.flush s) key := by
  obtain ⟨es', resp, rfl, -, -⟩ := h.first
  have hwrap := hok.wrap
  simp only [List.length_cons] at hwrap
  have hstep : StoreStep env s (.handleFlushAll q.times.flush) .success
      (handleFlush q.times.flush s) := .handleFlushAll q.times.flush
  refine gone_step hstep hs (by omega) ?_ hgone
  rintro ⟨-, w, hwrite, -⟩
  contradiction

end Served

/-! ## The run since a flush -/

theorem Run.stamped {env : Env} {s s' : Store} (h : Run env Orderly s s')
    (hs : Stamped s) : Stamped s' := by
  induction h with
  | start => exact hs
  | next _ hok hserves ih => exact hserves.stamped hok ih

theorem SinceFlush.kept {env : Env} {time : Nat} {key : KeyType}
    {s₀ s : Store} {b : Bool} (h : SinceFlush env time key s₀ b s)
    (hs : Stamped s₀) (hpending : Pending s₀ time) :
    Stamped s ∧ (b = false → Pending s time) ∧ (b = true → Gone s key) := by
  induction h with
  | start => exact ⟨hs, fun _ => hpending, by simp⟩
  | waiting _ hok hserves hwait ih =>
      obtain ⟨hstamped, hpending, -⟩ := ih
      exact ⟨hserves.stamped hok hstamped,
        fun _ => hserves.pending hok hwait (hpending rfl), by simp⟩
  | @come b s s' q es _ hok hserves hcome hnot ih =>
      obtain ⟨hstamped, hpending, hgone⟩ := ih
      refine ⟨hserves.stamped hok hstamped, by simp, fun _ => ?_⟩
      refine hserves.gone hok hstamped ?_ hnot
      cases b with
      | true => exact hserves.gone_first hok hstamped (hgone rfl)
      | false =>
          have hcome : time ≤ q.times.flush := by simpa using hcome
          exact hserves.fired hok hstamped hcome (hpending rfl) key

theorem Serves.get_stores_not {env : Env} {q : Request} {es : List Event}
    {s s' : Store} (h : Serves env q es s s')
    (hword : q.word = some .get ∨ q.word = some .gets) (key : KeyType) :
    ¬ StoresKey key es := by
  obtain ⟨es', resp, rfl, hpath, -⟩ := h.first
  have hcalls : Prog.Calls (fun op => op.write? = none)
      (dispatch q.times q.input) := by
    rcases hword with hget | hgets
    · have hof : Word.ofBytes (commandWord q.input) = some .get := hget
      rw [dispatch, hof]
      exact calls_getWith q.times false q.input fun _ _ => rfl
    · have hof : Word.ofBytes (commandWord q.input) = some .gets := hgets
      rw [dispatch, hof]
      exact calls_getWith q.times true q.input fun _ _ => rfl
  rintro ⟨e, he, -, w, hwrite, -⟩
  rcases List.mem_cons.mp he with rfl | hmem
  · contradiction
  · rw [hcalls.path hpath e hmem] at hwrite
    contradiction

theorem Serves.sets_flush {env : Env} {q : Request} {es : List Event}
    {s s' : Store} {now delay : Nat} (hsum : now + delay < wordSize)
    (h : Serves env q (es ++ [⟨.setFlushAll now delay, ()⟩]) s s') :
    Pending s' (now + delay) := by
  obtain ⟨resp, -, hperforms⟩ := h
  obtain ⟨⟨u, locks⟩, -, hlast⟩ :=
    (Prog.performs_append (Op.exec env)).mp hperforms
  cases hlast with
  | cons hexec hnil =>
      cases hnil
      simp only [Op.exec, dbSetFlushAll, onStore_apply, Except.ok.injEq,
        Prod.mk.injEq, State.mk.injEq, true_and] at hexec
      rw [← hexec.1]
      exact ⟨rfl, toWord_of_lt hsum⟩

/-! ## Stores -/

/-- An entry stored over `old` can be read in the second it was stored in. -/
def ReadableAtOnce (write : Write) (flush : Nat) : Option MapEntry → Prop
  | none => write.expiry = 0 ∨
      write.clock.now ≤ toWord (write.clock.now + write.expiry)
  | some it => write.clock.now ≤ toWord (write.clock.now + write.expiry) ∧
      flush ≤ it.2

structure AsksFor (input : Bytes) (key : KeyType) : Prop where
  word : Word.ofBytes (commandWord input) = some .get
  keys : getKeys input = .ok [key]

section Stores

variable {env : Env} {now : Nat} {input : Bytes} {es : List Event}
  {write : Write} {s s₀ s₁ s' : Store}

theorem StoredBy.serves {times : Times}
    (h : StoredBy env (cmdProcessCommand times input) es write s s₀ s₁ s') :
    ∃ e : Event, e.1.write? = some write ∧
      Serves env ⟨times, input⟩ (es ++ [e]) s s' := by
  obtain ⟨op, r, resp, hpath, hperforms, hexec, -, hwrite, -⟩ := h
  refine ⟨⟨op, r⟩, hwrite, resp, hpath, ?_⟩
  exact (Prog.performs_append (Op.exec env)).mpr
    ⟨_, hperforms, .cons hexec (.nil _)⟩

theorem StoredBy.settled
    (h : StoredBy env (cmdProcessCommand (.const now) input) es write s s₀ s₁
      s') : Settled s' now ∧ write.clock = .const now := by
  obtain ⟨e, hwrite, hserves⟩ := h.serves
  obtain ⟨es', resp, hes, hpath, hperforms⟩ := hserves.first
  rcases path_dispatch hpath with ⟨delay, rfl⟩ | hkeeps
  · cases last_eq es [_] hes
    contradiction
  · refine ⟨?_, ?_⟩
    · exact performs_unflushed (P := fun s => Settled s now)
        (fun _ _ _ _ hstep hop hsettled => settled_step hstep hop hsettled)
        hperforms (fun e he => (hkeeps e he).flushes)
        (settled_handleFlush now s)
    · have hlast : e ∈ es ++ [e] := by simp
      rw [hes] at hlast
      rcases List.mem_cons.mp hlast with rfl | hmem
      · contradiction
      · exact (hkeeps e hmem).clock hwrite

theorem StoredBy.stamped
    (h : StoredBy env (cmdProcessCommand (.const now) input) es write s s₀ s₁
      s') (hwrap : s.gTimestamp + es.length < wordSize) (hs : Stamped s) :
    Stamped s₀ := by
  obtain ⟨op, r, resp, -, hperforms, -⟩ := h
  exact (performs_stamped hperforms hwrap hs).2

theorem ReadableAtOnce.entry {token : Bytes} {stamp flush : Nat}
    {old : Option MapEntry} (h : ReadableAtOnce write flush old)
    (hnow : write.clock.now < wordSize) (hstamp : flush ≤ stamp) :
    write.clock.now ≤ (write.entry token stamp old).1.expiry ∧
      flush ≤ (write.entry token stamp old).2 := by
  cases old with
  | none =>
      refine ⟨?_, hstamp⟩
      change write.clock.now ≤ newExpiry write.clock.now write.expiry
      unfold newExpiry
      split
      · exact h.resolve_left ‹_›
      · exact Nat.le_of_lt_succ hnow
  | some it => exact h

theorem StoredBy.read {p : Command Response}
    (h : StoredBy env p es write s s₀ s₁ s')
    (hnow : write.clock.now < wordSize) (hstamped : Stamped s₀)
    (hreadable : ReadableAtOnce write s₁.gFlushAllTimestamp
      (s₁.entry write.key)) :
    ∃ cas expiry s'', getStep write.clock.now write.key s' =
      (some ⟨write.flags, cas, write.value, expiry⟩, s'') := by
  obtain ⟨op, hwrote⟩ := h.wrote
  have hstamp : s₁.gFlushAllTimestamp ≤ s₀.gTimestamp := by
    rw [hwrote.flushStamp₁]
    exact hstamped.flushed
  obtain ⟨it, hentry, hlive⟩ :=
    (visible_of_wrote hwrote).mpr (hreadable.entry hnow hstamp)
  have hsame : it =
      write.entry (op.token env s₀) s₀.gTimestamp (s₁.entry write.key) := by
    have hwritten := hwrote.entry
    rw [Store.entry, hentry] at hwritten
    exact Option.some.inj hwritten
  have hvalue : it.1.flags = write.flags ∧ it.1.value = write.value := by
    rw [hsame]
    cases s₁.entry write.key with
    | none => exact ⟨rfl, rfl⟩
    | some old => exact ⟨rfl, rfl⟩
  have hget := getStep_live hentry hlive
  rw [hvalue.1, hvalue.2] at hget
  exact ⟨_, _, _, hget⟩

theorem run_asksFor {key : KeyType} {element : Element} {s'' : Store}
    (hasks : AsksFor input key) (hsettled : Settled s now)
    (hget : getStep now key s = (some element, s'')) :
    (cmdProcessCommand (.const now) input).run env ⟨s, Locks.free⟩ =
      .ok (⟨0, valueItem false key element ++ ascii "END\r\n"⟩,
        ⟨s'', Locks.free⟩) := by
  have hflush : handleFlush now s = s := if_neg hsettled
  rw [cmdProcessCommand, run_handleFlushAll]
  simp only [Times.const, hflush, dispatch, hasks.word, Word.process,
    cmdProcessGet, cmdProcessGetWith, parsed, hasks.keys, getLoop,
    Command.run, Command.get, Prog.call_bind, Prog.done_bind, Prog.run_call,
    Op.exec, dbGetElement_free, hget]
  rfl

end Stores

/-! ## Old and new -/

/--
In every orderly run, what was there before a flush whose second has come is
missed until it is stored again; and what a command then stores is there for a
`get` in the same second, unless it was stored over a flushed entry or with an
expiry that is past.
-/
theorem flush_separates (env : Env) (s : Store)
    (hrun : Run env Orderly Store.init s) :
    (∀ q es now delay s₀, Orderly s q (es ++ [⟨.setFlushAll now delay, ()⟩]) →
      Serves env q (es ++ [⟨.setFlushAll now delay, ()⟩]) s s₀ →
      now + delay < wordSize →
      ∀ key b s₁, SinceFlush env (now + delay) key s₀ b s₁ →
      ∀ q' es' s₂, Orderly s₁ q' es' → Serves env q' es' s₁ s₂ →
      q'.word = some .get ∨ q'.word = some .gets →
      b = true ∨ now + delay ≤ q'.times.flush →
      ∀ second found, ⟨.get second key, found⟩ ∈ es' → found = none) ∧
    (∀ now input es write s₀ s₁ s', now < wordSize →
      s.gTimestamp + es.length < wordSize →
      StoredBy env (cmdProcessCommand (.const now) input) es write s s₀ s₁ s' →
      ReadableAtOnce write s₁.gFlushAllTimestamp (s₁.entry write.key) →
      ∀ input', AsksFor input' write.key → ∃ cas expiry s'',
        (cmdProcessCommand (.const now) input').run env ⟨s', Locks.free⟩ =
          .ok (⟨0, valueItem false write.key
            ⟨write.flags, cas, write.value, expiry⟩ ++ ascii "END\r\n"⟩,
            ⟨s'', Locks.free⟩)) := by
  have hs : Stamped s := hrun.stamped stamped_init
  constructor
  · intro q es now delay s₀ hok hserves hsum key b s₁ hsince q' es' s₂ hok'
      hserves' hword hcome second found hget
    obtain ⟨hstamped, hpending, hgone⟩ :=
      hsince.kept (hserves.stamped hok hs) (hserves.sets_flush hsum)
    refine hserves'.misses hok' hstamped ?_
      (hserves'.get_stores_not hword key) hget
    cases b with
    | true => exact hserves'.gone_first hok' hstamped (hgone rfl)
    | false =>
        have hcome : now + delay ≤ q'.times.flush := by simpa using hcome
        exact hserves'.fired hok' hstamped hcome (hpending rfl) key
  · intro now input es write s₀ s₁ s' hnow hwrap hstored hreadable input' hasks
    obtain ⟨hsettled, hconst⟩ := hstored.settled
    have hclock : write.clock.now = now := by rw [hconst]; rfl
    obtain ⟨cas, expiry, s'', hget⟩ := hstored.read (hclock ▸ hnow)
      (hstored.stamped hwrap hs) hreadable
    rw [hclock] at hget
    exact ⟨cas, expiry, s'', run_asksFor hasks hsettled hget⟩

/-! ## Requests served on their own -/

theorem storedBy_setCommand (env : Env) (times : Times) (input : Bytes)
    (store : StorageStruct) (s s₀ : Store)
    (hword : Word.ofBytes (commandWord input) = some .set)
    (hparse : cmdProcessCommon times.parse input false false =
      .ok (0, store))
    (hflush : handleFlush times.flush s = s₀)
    (hfits : insertFits env store.key store.flags
      (insertToken env times.write.now s₀) store.data s₀) :
    StoredBy env (cmdProcessCommand times input)
      [⟨.handleFlushAll times.flush, ()⟩]
      ⟨times.write, store.key, store.flags, store.data, store.expTime⟩ s s₀
      (insertDrawn env times.write.now s₀)
      (insertStep times.write.now store.key store.flags [] store.data
        store.expTime (insertToken env times.write.now s₀) s₀.gTimestamp
        (insertDrawn env times.write.now s₀)).2 := by
  obtain ⟨op, r, resp, hpath, hperforms, hrest⟩ :=
    storedBy_set env times input 0 store s₀ hparse le_rfl hfits
  have hfirst : Op.exec env (.handleFlushAll times.flush) ⟨s, Locks.free⟩ =
      .ok ((), ⟨handleFlush times.flush s, Locks.free⟩) := rfl
  rw [hflush] at hfirst
  refine ⟨op, r, resp, .call ?_, .cons hfirst hperforms, hrest⟩
  change Prog.Path (dispatch times input) ([] ++ [⟨op, r⟩]) resp
  rw [dispatch, hword]
  exact hpath

theorem serves_flushAll (env : Env) (q : Request) (s : Store) {delay : Nat}
    {noreply : Bool} (hword : q.word = some .flushAll)
    (hparse : flushAllRequest q.input = .ok (delay, noreply)) :
    Serves env q
      ([⟨.handleFlushAll q.times.flush, ()⟩] ++
        [⟨.setFlushAll q.times.write.now delay, ()⟩]) s
      { handleFlush q.times.flush s with
        gIsFlushAllSet := true
        gFlushAllTime := toWord (q.times.write.now + delay) } := by
  refine ⟨answer noreply (ascii "OK\r\n"), .call ?_,
    .cons rfl (.cons rfl (.nil _))⟩
  have hof : Word.ofBytes (commandWord q.input) = some .flushAll := hword
  change Prog.Path (dispatch q.times q.input) _ _
  rw [dispatch, hof]
  simp only [Word.process, cmdProcessFlushAll, parsed, hparse]
  exact .call (.done _)

theorem StoredBy.orderly {env : Env} {times : Times} {input : Bytes}
    {write : Write} {s s₀ s₁ s' : Store}
    (h : StoredBy env (cmdProcessCommand times input)
      [⟨.handleFlushAll times.flush, ()⟩] write s s₀ s₁ s')
    (hwrap : s.gTimestamp + 2 < wordSize) : Run env Orderly s s' := by
  obtain ⟨e, hwrite, hserves⟩ := h.serves
  refine .next .start ⟨by simpa using hwrap, ?_⟩ hserves
  intro now delay hmem
  rcases List.mem_cons.mp hmem with heq | hmem
  · cases heq
  · cases List.mem_singleton.mp hmem
    contradiction

/-- A key that is there is flushed and missed; in the store before the flush
another one is set and read back. -/
theorem flush_separates_setFlush :
    ∃ s s₀, Run Env.x86 Orderly Store.init s ∧ Visible s 1000 (ascii "k") ∧
      Serves Env.x86 ⟨.const 1000, ascii "flush_all\r\n"⟩
        ([⟨.handleFlushAll 1000, ()⟩] ++ [⟨.setFlushAll 1000 0, ()⟩]) s s₀ ∧
      (∀ es' s₂, Orderly s₀ ⟨.const 1000, ascii "get k\r\n"⟩ es' →
        Serves Env.x86 ⟨.const 1000, ascii "get k\r\n"⟩ es' s₀ s₂ →
        ∀ second found, ⟨.get second (ascii "k"), found⟩ ∈ es' →
          found = none) ∧
      ∃ cas expiry s' s'', StoredBy Env.x86
          (cmdProcessCommand (.const 1000) (ascii "set j 0 0 1\r\nw\r\n"))
          [⟨.handleFlushAll 1000, ()⟩]
          ⟨.const 1000, ascii "j", ascii "0", ascii "w", 0⟩ s s
          (insertDrawn Env.x86 1000 s) s' ∧
        (cmdProcessCommand (.const 1000) (ascii "get j\r\n")).run Env.x86
            ⟨s', Locks.free⟩ =
          .ok (⟨0, valueItem false (ascii "j")
            ⟨ascii "0", cas, ascii "w", expiry⟩ ++ ascii "END\r\n"⟩,
            ⟨s'', Locks.free⟩) := by
  obtain ⟨s, hset, hvisible, hclean, hfits, hsmall, hnew⟩ :
      ∃ s, StoredBy Env.x86
          (cmdProcessCommand (.const 1000) (ascii "set k 0 0 1\r\nv\r\n"))
          [⟨.handleFlushAll 1000, ()⟩]
          ⟨.const 1000, ascii "k", ascii "0", ascii "v", 0⟩ Store.init
          Store.init (insertDrawn Env.x86 1000 Store.init) s ∧
        Visible s 1000 (ascii "k") ∧ s.gIsFlushAllSet = false ∧
        insertFits Env.x86 (ascii "j") (ascii "0")
          (insertToken Env.x86 1000 s) (ascii "w") s ∧
        s.gTimestamp + 3 < wordSize ∧
        (insertDrawn Env.x86 1000 s).entry (ascii "j") = none :=
    ⟨_, storedBy_setCommand Env.x86 (.const 1000)
      (ascii "set k 0 0 1\r\nv\r\n")
      ⟨ascii "k", ascii "0", 0, 1, [], false, ascii "v"⟩ Store.init Store.init
      (by decide) (by decide) rfl (by decide +kernel), by decide +kernel,
      by decide +kernel, by decide +kernel, by decide +kernel,
      by decide +kernel⟩
  have hflush : handleFlush 1000 s = s := by simp [handleFlush, hclean]
  obtain ⟨hmisses, hreads⟩ := flush_separates Env.x86 s
    (hset.orderly (by decide))
  have hserves := serves_flushAll Env.x86
    ⟨.const 1000, ascii "flush_all\r\n"⟩ s (by decide)
    (by decide : flushAllRequest (ascii "flush_all\r\n") = .ok (0, false))
  have horderly : Orderly s ⟨.const 1000, ascii "flush_all\r\n"⟩
      ([⟨.handleFlushAll 1000, ()⟩] ++ [⟨.setFlushAll 1000 0, ()⟩]) := by
    refine ⟨lt_trans (Nat.lt_succ_self _) hsmall, fun _ _ _ => ?_⟩
    change (handleFlush 1000 s).gIsFlushAllSet = false
    rw [hflush, hclean]
  have hstored := storedBy_setCommand Env.x86 (.const 1000)
    (ascii "set j 0 0 1\r\nw\r\n")
    ⟨ascii "j", ascii "0", 0, 1, [], false, ascii "w"⟩ s s (by decide)
    (by decide) hflush hfits
  obtain ⟨cas, expiry, s'', hget⟩ := hreads 1000 _ _ _ _ _ _ (by decide)
    (lt_trans (by simp) hsmall) hstored
    (by
      change ReadableAtOnce _ _ ((insertDrawn Env.x86 1000 s).entry (ascii "j"))
      rw [hnew]
      exact .inl rfl)
    (ascii "get j\r\n") ⟨by decide, by decide⟩
  refine ⟨s, _, hset.orderly (by decide), hvisible, hserves, ?_, cas, expiry,
    _, s'', hstored, hget⟩
  intro es' s₂ horderly' hserves' second found hmem
  exact hmisses _ _ 1000 0 _ horderly hserves (by decide) _ false _ .start _
    es' s₂ horderly' hserves' (.inl (by decide)) (.inr (by decide)) second found
    hmem

/-- Set again after the flush, the key is missed at once. -/
theorem flush_hides_overwrite :
    ¬ ∀ (env : Env) (s : Store), Run env (fun _ _ _ => True) Store.init s →
      ∀ now input es write s₀ s₁ s', now < wordSize →
        Word.ofBytes (commandWord input) = some .set →
        StoredBy env (cmdProcessCommand (.const now) input) es write s s₀ s₁
          s' →
        ∀ input', AsksFor input' write.key → ∃ cas expiry s'',
          (cmdProcessCommand (.const now) input').run env ⟨s', Locks.free⟩ =
            .ok (⟨0, valueItem false write.key
              ⟨write.flags, cas, write.value, expiry⟩ ++ ascii "END\r\n"⟩,
              ⟨s'', Locks.free⟩) := by
  intro hall
  have hset := storedBy_setCommand Env.x86 (.const 1000)
    (ascii "set k 0 0 1\r\nv\r\n")
    ⟨ascii "k", ascii "0", 0, 1, [], false, ascii "v"⟩ Store.init Store.init
    (by decide) (by decide) rfl (by decide +kernel)
  obtain ⟨e, -, hfirst⟩ := hset.serves
  obtain ⟨s, hrun, s₀, s₁, s', hagain, hmiss⟩ :
      ∃ s, Run Env.x86 (fun _ _ _ => True) Store.init s ∧ ∃ s₀ s₁ s',
        StoredBy Env.x86
          (cmdProcessCommand (.const 1000) (ascii "set k 0 0 1\r\nw\r\n"))
          [⟨.handleFlushAll 1000, ()⟩]
          ⟨.const 1000, ascii "k", ascii "0", ascii "w", 0⟩ s s₀ s₁ s' ∧
        Except.map (fun p => p.1.output.head?)
          ((cmdProcessCommand (.const 1000) (ascii "get k\r\n")).run Env.x86
            ⟨s', Locks.free⟩) = .ok (some 69) :=
    ⟨_, .next (.next .start trivial hfirst) trivial (serves_flushAll Env.x86
        ⟨.const 1000, ascii "flush_all\r\n"⟩ _ (by decide)
        (by decide : flushAllRequest (ascii "flush_all\r\n") =
          .ok (0, false))), _, _, _,
      storedBy_setCommand Env.x86 (.const 1000)
        (ascii "set k 0 0 1\r\nw\r\n")
        ⟨ascii "k", ascii "0", 0, 1, [], false, ascii "w"⟩ _ _ (by decide)
        (by decide) rfl (by decide +kernel), by decide +kernel⟩
  obtain ⟨cas, expiry, s'', hget⟩ := hall Env.x86 s hrun 1000 _ _ _ _ _ _
    (by decide) (by decide) hagain (ascii "get k\r\n")
    ⟨by decide, by decide⟩
  rw [hget] at hmiss
  have hletter : byteOfChar 'V' = 69 := by
    simpa [Except.map, valueItem, ascii] using hmiss
  exact absurd hletter (by decide)

end Memstashed.Scmd
