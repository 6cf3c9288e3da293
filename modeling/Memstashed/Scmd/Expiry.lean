import Memstashed.Scmd.Flags
import Memstashed.Scmd.Lifetime
import Memstashed.Scmd.OneLine
import Memstashed.Scmd.Rewriting

/-!
# What becomes of an expiry

`dbGetElement` hands out the time that is left, and `dbInsertElement` adds it to
the time that it is then.  What comes out is the old expiry if both read the same
second and if nothing is left only of an item that is still in the map.  `touch`
goes the same way with the time from its request, which it takes as it stands.
-/

namespace Memstashed.Scmd

open Memstashed.Foundation
open Memstashed.Dblru

/-! ## Commands that rewrite an item -/

/-- The commands that store what they have read, changed. -/
def Word.rewrites : Word → Bool
  | .append => true
  | .prepend => true
  | .incr => true
  | .decr => true
  | _ => false

section Paths

variable {times : Times} {input : Bytes} {es : List Event} {resp : Response}

theorem path_uncaughtStoul {text : Bytes} {act : Nat → Command Response}
    (h : Prog.Path (uncaughtStoul text >>= act) es resp) :
    ∃ n, Prog.Path (act n) es resp := by
  unfold uncaughtStoul at h
  cases hnumber : stoul text with
  | ok n =>
      rw [hnumber] at h
      exact ⟨n, h⟩
  | error e =>
      rw [hnumber] at h
      exact (path_fail h).elim

/-- A look at a key, and a store that follows it. -/
def Rewrites (times : Times) (es : List Event) (op : Op) : Prop :=
  ∃ (key : KeyType) (element : Element) (value : Bytes),
    es = [⟨.get (times.get 0) key, some element⟩] ∧
    op = .insert times.write key element.flags [] value element.expiry

theorem rewrites_of_path {key : KeyType} {missing : Response}
    {act : Element → Command Response} {op : Op} {r : op.Answer} {w : Write}
    (hact : ∀ element es', Prog.Path (act element) es' resp → es' = [] ∨
      ∃ value r', es' =
        [⟨.insert times.write key element.flags [] value element.expiry, r'⟩])
    (h : Prog.Path (Command.get (times.get 0) key >>= fun found =>
      match found with
      | none => .done missing
      | some element => act element) (es ++ [⟨op, r⟩]) resp)
    (hw : op.write? = some w) : Rewrites times es op := by
  obtain ⟨found, es', hes, hnext⟩ := path_call h
  cases found with
  | none =>
      rw [(path_done hnext).1] at hes
      cases last_eq es [] hes
      contradiction
  | some element =>
      rcases hact element es' hnext with rfl | ⟨value, r', rfl⟩
      · cases last_eq es [] hes
        contradiction
      · have hfirst := init_eq es [_] hes
        cases last_eq es [_] hes
        exact ⟨key, element, value, hfirst, rfl⟩

theorem rewrites_extend (join : Bytes → Bytes → Bytes) {op : Op} {r : op.Answer}
    {w : Write}
    (h : Prog.Path (cmdProcessExtend join times input) (es ++ [⟨op, r⟩]) resp)
    (hw : op.write? = some w) : Rewrites times es op := by
  obtain ⟨ret, store, -, -, hpath⟩ := path_storage (by simp) h
  refine rewrites_of_path (fun element es' hnext => .inr ?_) hpath hw
  obtain ⟨r', hes, -⟩ := path_insertAndAnswer hnext
  exact ⟨_, r', hes⟩

theorem rewrites_counter {combine : Nat → Nat → Nat} {op : Op} {r : op.Answer}
    {w : Write}
    (h : Prog.Path (cmdProcessCounter combine times input) (es ++ [⟨op, r⟩])
      resp) (hw : op.write? = some w) : Rewrites times es op := by
  obtain ⟨⟨key, value, noreply⟩, -, hpath⟩ := path_parsed (by simp) h
  refine rewrites_of_path (fun element es' hnext => ?_) hpath hw
  obtain ⟨inputValue, hnext⟩ := path_uncaughtStoul hnext
  obtain ⟨oldValue, hnext⟩ := path_uncaughtStoul hnext
  simp only at hnext
  split at hnext
  · exact .inl (path_done hnext).1
  · obtain ⟨r', hes, -⟩ := path_insertAndAnswer hnext
    exact .inr ⟨_, r', hes⟩

theorem rewrites_process {w : Word} (hw : w.rewrites = true) {op : Op}
    {r : op.Answer} {write : Write}
    (h : Prog.Path (w.process times input) (es ++ [⟨op, r⟩]) resp)
    (hwrite : op.write? = some write) : Rewrites times es op := by
  cases w with
  | append =>
      exact rewrites_extend (fun value data => value ++ data) h hwrite
  | prepend =>
      exact rewrites_extend (fun value data => data ++ value) h hwrite
  | incr =>
      unfold Word.process cmdProcessIncr at h
      exact rewrites_counter h hwrite
  | decr =>
      unfold Word.process cmdProcessDecr at h
      exact rewrites_counter h hwrite
  | _ => contradiction

end Paths

section Rewriting

variable {env : Env} {times : Times} {p : Command Response}
  {es : List Event} {write : Write} {s s₀ s₁ s' : Store} {it : MapEntry}

theorem StoredBy.rewritten {w : Word} (hw : w.rewrites = true) {input : Bytes}
    (h : StoredBy env (w.process times input) es write s s₀ s₁ s')
    (hit : s.entry write.key = some it) :
    write.clock = times.write ∧
      write.expiry = wordSub it.1.expiry (times.get 0) := by
  obtain ⟨op, r, resp, hpath, hperforms, -, -, hwrite, -⟩ := h
  obtain ⟨key, element, value, rfl, rfl⟩ := rewrites_process hw hpath hwrite
  cases hwrite
  refine ⟨rfl, ?_⟩
  cases hperforms with
  | cons hexec hrest =>
      rw [Op.exec, dbGetElement_free, getStep_liveValue] at hexec
      obtain ⟨hfound, -⟩ := Prod.mk.inj (Except.ok.inj hexec)
      obtain ⟨v, hv, rfl⟩ := Option.map_eq_some_iff.mp hfound
      obtain ⟨it', hit', -, rfl⟩ := liveValue_eq_some.mp hv
      rw [hit] at hit'
      cases hit'
      rfl

theorem toWord_drift {e t₁ t₂ : Nat} (he : e < wordSize) (h₁₂ : t₁ ≤ t₂)
    (h₂ : t₂ ≤ e) : toWord (t₂ + wordSub e t₁) = e ↔ t₁ = t₂ := by
  unfold toWord wordSub wordSize at *
  omega

theorem recorded_drift {e t₁ t₂ : Nat} (he : e < wordSize) (h₁₂ : t₁ ≤ t₂)
    (h₂ : t₂ ≤ e) {write : Write} (hnow : write.clock.now = t₂)
    (hexpiry : write.expiry = wordSub e t₁) (token : Bytes)
    (stamp : TimestampType) (old : Option MapEntry) :
    (write.entry token stamp old).1.expiry = e ↔
      t₁ = t₂ ∧ (old = none → e = t₁ → e = wordMax) := by
  have hdrift := toWord_drift he h₁₂ h₂
  cases old with
  | some it => simp [Write.entry, hnow, hexpiry, hdrift]
  | none =>
      have hzero : wordSub e t₁ = 0 ↔ e = t₁ := by
        rw [wordSub_of_le he (h₁₂.trans h₂)]
        omega
      simp only [Write.entry, hnow, hexpiry, newExpiry, ne_eq, hzero,
        forall_const]
      by_cases hleft : e = t₁
      · have hsame : t₁ = t₂ := by omega
        simp only [hleft, not_true_eq_false, if_false, hsame, true_and,
          forall_const]
        exact eq_comm
      · simp only [hleft, not_false_eq_true, if_true, hdrift, false_implies,
          and_true]

/--
A command that stores what it has read keeps the expiry exactly when both calls
read the same second, and the item is still in the map or was not to expire in
that very second.
-/
theorem expiry_kept_iff (env : Env) (w : Word) (times : Times) (input : Bytes)
    (es : List Event) (write : Write) (s s₀ s₁ s' : Store) (it : MapEntry)
    (hw : w.rewrites = true)
    (hstored : StoredBy env (w.process times input) es write s s₀ s₁ s')
    (hit : s.entry write.key = some it) (hword : it.1.expiry < wordSize)
    (hclock : times.get 0 ≤ times.write.now)
    (hlive : times.write.now ≤ it.1.expiry) :
    (∃ it', s'.entry write.key = some it' ∧ it'.1.expiry = it.1.expiry) ↔
      times.get 0 = times.write.now ∧
        (s₁.entry write.key = none → it.1.expiry = times.get 0 →
          it.1.expiry = wordMax) := by
  obtain ⟨hwclock, hexpiry⟩ := hstored.rewritten hw hit
  obtain ⟨op, hwrote⟩ := hstored.wrote
  rw [hwrote.entry]
  simp only [Option.some.injEq, exists_eq_left']
  exact recorded_drift hword hclock hlive (by rw [hwclock]) hexpiry _ _ _

theorem storedBy_extend (env : Env) (join : Bytes → Bytes → Bytes)
    (times : Times) (input : Bytes) (ret : Int) (store : StorageStruct)
    (v : ValueStruct) (s : Store)
    (hparse : extendRequest times.parse input = .ok (ret, store))
    (hret : ret ≤ 0) (hlive : liveValue s (times.get 0) store.key = some v)
    (hfits : insertFits env store.key v.flags
      (insertToken env times.write.now (getStep (times.get 0) store.key s).2)
      (join v.value store.data) (getStep (times.get 0) store.key s).2) :
    ∃ es s', StoredBy env (cmdProcessExtend join times input) es
      ⟨times.write, store.key, v.flags, join v.value store.data,
        wordSub v.expiry (times.get 0)⟩ s (getStep (times.get 0) store.key s).2
      (insertDrawn env times.write.now (getStep (times.get 0) store.key s).2)
      s' := by
  have hfound : (getStep (times.get 0) store.key s).1 =
      some ⟨v.flags, v.casUniq, v.value, wordSub v.expiry (times.get 0)⟩ := by
    rw [getStep_liveValue, hlive]
    rfl
  have hget := dbGetElement_free (times.get 0) store.key s
  rw [hfound] at hget
  generalize (getStep (times.get 0) store.key s).2 = s₀ at *
  have hexec : dbInsertElement env times.write store.key v.flags []
      (join v.value store.data) (wordSub v.expiry (times.get 0))
      ⟨s₀, Locks.free⟩ = .ok (_, ⟨_, Locks.free⟩) :=
    dbInsertElement_of_fits hfits
  rw [insertStep_plain] at hexec
  refine ⟨[⟨.get (times.get 0) store.key, some _⟩], _,
    .insert times.write store.key v.flags [] (join v.value store.data)
      (wordSub v.expiry (times.get 0)), .success,
    answer store.noreply (ascii "STORED\r\n"), ?_, .cons hget (.nil _), hexec,
    rfl, rfl, insertLoop_of_fits hfits⟩
  simp only [cmdProcessExtend, storage, parsed, hparse, not_lt.mpr hret,
    if_false]
  exact .call (.call (.done _))

def forever : ValueStruct := ⟨wordMax, ascii "v", ascii "0", ascii "42"⟩

def foreverStored : Store :=
  Store.init.setEntry (getHashTblNbrFromKey (ascii "k")) (ascii "k")
    (forever, 0)

def tick (t : Nat) : Times := ⟨1000, 1000, fun _ => 1000, .const t⟩

theorem storedBy_append_forever (t : Nat)
    (hfits : insertFits Env.x86 (ascii "k") (ascii "0")
      (insertToken Env.x86 t (getStep 1000 (ascii "k") foreverStored).2)
      (ascii "vw") (getStep 1000 (ascii "k") foreverStored).2) :
    ∃ es s', StoredBy Env.x86 (cmdProcessAppend (tick t)
        (ascii "append k 0 0 1\r\nw\r\n")) es
      ⟨.const t, ascii "k", ascii "0", ascii "vw", wordSub wordMax 1000⟩
      foreverStored (getStep 1000 (ascii "k") foreverStored).2
      (insertDrawn Env.x86 t (getStep 1000 (ascii "k") foreverStored).2) s' :=
  storedBy_extend Env.x86 (fun value data => value ++ data) (tick t)
    (ascii "append k 0 0 1\r\nw\r\n") 0
    ⟨ascii "k", ascii "0", 0, 1, [], false, ascii "w"⟩ forever foreverStored rfl
    (by decide) rfl hfits

theorem expiry_kept_forever :
    ∃ es s', StoredBy Env.x86 (cmdProcessAppend (tick 1000)
        (ascii "append k 0 0 1\r\nw\r\n")) es
      ⟨.const 1000, ascii "k", ascii "0", ascii "vw", wordSub wordMax 1000⟩
      foreverStored (getStep 1000 (ascii "k") foreverStored).2
      (insertDrawn Env.x86 1000 (getStep 1000 (ascii "k") foreverStored).2) s' ∧
      ∃ it', s'.entry (ascii "k") = some it' ∧ it'.1.expiry = wordMax := by
  obtain ⟨es, s', hstored⟩ := storedBy_append_forever 1000 (by decide +kernel)
  refine ⟨es, s', hstored, ?_⟩
  exact (expiry_kept_iff Env.x86 .append (tick 1000) _ es _ foreverStored _ _ s'
    (forever, 0) rfl hstored rfl (by decide) (by decide) (by decide)).mpr ⟨rfl, fun _ _ => rfl⟩

/-- One tick of the clock, and what was to stay for ever expires at 0. -/
theorem expiry_lost_at_tick :
    ¬ ∀ (env : Env) (w : Word) (times : Times) (input : Bytes)
        (es : List Event) (write : Write) (s s₀ s₁ s' : Store) (it : MapEntry),
      w.rewrites = true →
      StoredBy env (w.process times input) es write s s₀ s₁ s' →
      s.entry write.key = some it → it.1.expiry < wordSize →
      times.get 0 ≤ times.write.now → times.write.now ≤ it.1.expiry →
      ∃ it', s'.entry write.key = some it' ∧ it'.1.expiry = it.1.expiry := by
  intro hall
  obtain ⟨es, s', hstored⟩ := storedBy_append_forever 1001 (by decide +kernel)
  obtain ⟨it', hit', hsame⟩ := hall Env.x86 .append (tick 1001) _ es _ _ _ _ s'
    (forever, 0) rfl hstored rfl (by decide) (by decide) (by decide)
  obtain ⟨op, hwrote⟩ := hstored.wrote
  rw [hwrote.entry] at hit'
  rw [← Option.some.inj hit'] at hsame
  have hdrift : 1000 = 1001 ∧ _ := (recorded_drift (by decide) (by decide)
    (by decide) rfl rfl _ _ _).mp hsame
  exact absurd hdrift.1 (by decide)

end Rewriting

/-! ## `touch` -/

def freshExpiry (t e : Nat) : Nat := newExpiry t (relativeExpiry t e)

theorem set_records {env : Env} {t e : Nat} {input : Bytes} {es : List Event}
    {write : Write} {s s₀ s₁ s' : Store} (hcrlf : crlf <:+ input)
    (hsize : input.length + 2 < wordSize)
    (hstored : StoredBy env (cmdProcessSet (.const t) input) es write s s₀ s₁ s')
    (he : exptimeField (lineOf input) = some e)
    (habsent : s₀.entry write.key = none) :
    ∃ it, s'.entry write.key = some it ∧ it.1.expiry = freshExpiry t e := by
  have hset : StoredBy env (Word.set.process (.const t) input) es write s s₀ s₁
    s' := hstored
  obtain ⟨hnow, hexpiry⟩ := hset.expiry rfl hcrlf hsize he
  obtain ⟨op, hwrote⟩ := hstored.wrote
  have hnone : s₁.entry write.key = none := by
    rcases hwrote.shrinks write.key with hsame | hnone
    · rw [hsame, habsent]
    · exact hnone
  refine ⟨_, hwrote.entry, ?_⟩
  rw [hnone, Write.entry, hnow, hexpiry, freshExpiry]

/-- The item is the same but for its expiry, and so are all others. -/
structure ChangesExpiry (s s' : Store) (key : KeyType) (expiry : Nat) : Prop where
  entry : ∃ it it', s.entry key = some it ∧ s'.entry key = some it' ∧
    it'.1 = { it.1 with expiry := expiry }
  others : ∀ other, other ≠ key → s'.entry other = s.entry other

section Touch

variable {env : Env} {s : Store} {t e : Nat} {key : KeyType} {it : MapEntry}

theorem run_touch {input : Bytes} {noreply : Bool} {element : Element}
    (hparse : touchRequest input = .ok (key, e, noreply))
    (hfound : (getStep t key s).1 = some element) {r : RetStatus} {u : State}
    (hinsert : dbInsertElement env (.const t) key element.flags element.cas
      element.value e ⟨(getStep t key s).2, Locks.free⟩ = .ok (r, u)) :
    (cmdProcessTouch (.const t) input).run env ⟨s, Locks.free⟩ =
      .ok (answer noreply (if r = RetStatus.memoryFull then memoryFullText
        else ascii "TOUCHED\r\n"), u) := by
  simp only [cmdProcessTouch, parsed, hparse]
  refine (run_get t key _).trans ?_
  rw [hfound]
  refine (run_insert hinsert _).trans ?_
  by_cases hfull : r = RetStatus.memoryFull
  · rw [if_pos hfull, if_pos hfull]
    rfl
  · rw [if_neg hfull, if_neg hfull]
    rfl

theorem toWord_eq_freshExpiry (ht : t < wordSize) (he : e < wordSize) :
    toWord (t + e) = freshExpiry t e ↔
      (0 < e ∧ e ≤ expiryThreshold) ∨ (e = 0 ∧ t = wordMax) ∨
        (expiryThreshold < e ∧ t = 0) := by
  unfold freshExpiry newExpiry relativeExpiry
  by_cases hlarge : expiryThreshold < e
  · rw [if_pos hlarge]
    by_cases hsame : e = t
    · have hzero : wordSub e t = 0 := by
        rw [wordSub_of_le he hsame.ge]
        omega
      rw [if_neg (by simpa using hzero)]
      unfold toWord wordMax wordSize expiryThreshold at *
      omega
    · have hpos : wordSub e t ≠ 0 := by
        unfold wordSub wordSize at *
        omega
      rw [if_pos hpos, toWord_add_wordSub he]
      unfold toWord wordSize expiryThreshold at *
      omega
  · rw [if_neg hlarge]
    by_cases hzero : e = 0
    · rw [if_neg (by simpa using hzero), hzero, Nat.add_zero, toWord_of_lt ht]
      omega
    · rw [if_pos hzero]
      omega

theorem touchRequest_lt {input : Bytes} {noreply : Bool}
    (h : touchRequest input = .ok (key, e, noreply)) : e < wordSize := by
  simp only [touchRequest, Parse.bind_eq_ok, Parse.pure_eq, Except.ok.injEq,
    Prod.mk.injEq] at h
  obtain ⟨⟨key', text, pos, more⟩, -, e', he, -, -, -, rfl, -⟩ := h
  unfold stoulOr at he
  split at he
  · rename_i n hstoul
    cases he
    exact Nat.lt_succ_of_le (stoul_le_wordMax hstoul)
  · contradiction
  · contradiction

theorem touch_run {input : Bytes} {noreply : Bool} (ht : t < wordSize)
    (hparse : touchRequest input = .ok (key, e, noreply))
    (hit : s.entry key = some it) (hlive : ¬ Dead s t it)
    (hfits : insertFits env key it.1.flags (insertToken env t s) it.1.value s) :
    ∃ s', (cmdProcessTouch (.const t) input).run env ⟨s, Locks.free⟩ =
        .ok (answer noreply (ascii "TOUCHED\r\n"), ⟨s', Locks.free⟩) ∧
      (ChangesExpiry s s' key (freshExpiry t e) ↔
        insertToken env t s = it.1.casUniq ∧
          ((0 < e ∧ e ≤ expiryThreshold) ∨ (e = 0 ∧ t = wordMax) ∨
            (expiryThreshold < e ∧ t = 0))) := by
  obtain ⟨hanswer, hread, hothers, -, -⟩ := reads_live hit hlive
  obtain ⟨htoken, hroom⟩ := fits_after_read hit hlive hfits
  obtain ⟨s', hinsert, hentry, hothers'⟩ :=
    overwrite_wrote (.const t) it.1.flags it.1.casUniq it.1.value e hread
      (fun hcas => hcas.2 rfl) hroom
  refine ⟨s', run_touch hparse hanswer hinsert, ?_⟩
  have hexpiry := toWord_eq_freshExpiry ht (touchRequest_lt hparse)
  rw [← hexpiry, ← htoken]
  constructor
  · rintro ⟨⟨it₁, it', hit₁, hit', heq⟩, -⟩
    rw [hit] at hit₁
    cases hit₁
    rw [hentry] at hit'
    rw [← Option.some.inj hit'] at heq
    exact ⟨congrArg ValueStruct.casUniq heq, congrArg ValueStruct.expiry heq⟩
  · rintro ⟨hcas, hsame⟩
    refine ⟨⟨it, _, hit, hentry, ?_⟩, fun other hother => ?_⟩
    · simp only [Clock.const, hcas, hsame]
    · rw [hothers' other hother, hothers other hother]

/--
A `touch` that finds the key and need not evict anything succeeds.  It changes
the expiry alone, and to what a `set` would have recorded, exactly when the token
that it draws is the one the item has already and the exptime is a relative one,
or else the clock is at one of its two ends.
-/
theorem touch_keeps_iff (env : Env) (t : Nat) (ht : t < wordSize) :
    (∀ input es write s s₀ s₁ s' e, crlf <:+ input →
      input.length + 2 < wordSize →
      StoredBy env (cmdProcessSet (.const t) input) es write s s₀ s₁ s' →
      exptimeField (lineOf input) = some e → s₀.entry write.key = none →
      ∃ it, s'.entry write.key = some it ∧ it.1.expiry = freshExpiry t e) ∧
    ∀ (input : Bytes) (key : KeyType) (e : Nat) (noreply : Bool) (s : Store)
      (it : MapEntry), touchRequest input = .ok (key, e, noreply) →
      s.entry key = some it → ¬ Dead s t it →
      insertFits env key it.1.flags (insertToken env t s) it.1.value s →
      ∃ s', (cmdProcessTouch (.const t) input).run env ⟨s, Locks.free⟩ =
          .ok (answer noreply (ascii "TOUCHED\r\n"), ⟨s', Locks.free⟩) ∧
        (ChangesExpiry s s' key (freshExpiry t e) ↔
          insertToken env t s = it.1.casUniq ∧
            ((0 < e ∧ e ≤ expiryThreshold) ∨ (e = 0 ∧ t = wordMax) ∨
              (expiryThreshold < e ∧ t = 0))) := by
  constructor
  · intro input es write s s₀ s₁ s' e hcrlf hsize hstored he habsent
    exact set_records hcrlf hsize hstored he habsent
  · intro input key e noreply s it hparse hit hlive hfits
    exact touch_run ht hparse hit hlive hfits

def addedStored : Store :=
  Store.init.setEntry (getHashTblNbrFromKey (ascii "k")) (ascii "k")
    (⟨wordMax, ascii "v", ascii "0", addToken Env.x86 1000⟩, 0)

theorem touch_keeps_added :
    ∃ s', (cmdProcessTouch (.const 1000) (ascii "touch k 10\r\n")).run Env.x86
        ⟨addedStored, Locks.free⟩ =
        .ok (⟨0, ascii "TOUCHED\r\n"⟩, ⟨s', Locks.free⟩) ∧
      ChangesExpiry addedStored s' (ascii "k") (freshExpiry 1000 10) := by
  obtain ⟨s', hrun, hkeeps⟩ := (touch_keeps_iff Env.x86 1000 (by decide)).2
    (ascii "touch k 10\r\n") (ascii "k") 10 false addedStored
    (⟨wordMax, ascii "v", ascii "0", addToken Env.x86 1000⟩, 0) rfl rfl
    (by decide) (by decide +kernel)
  exact ⟨s', hrun, hkeeps.mpr ⟨rfl, .inl (by decide)⟩⟩

/-- What is touched to stay for ever expires in the same second. -/
theorem touch_zero_expires :
    ¬ ∀ (env : Env) (t : Nat) (input : Bytes) (key : KeyType) (e : Nat)
        (noreply : Bool) (s s' : Store) (it : MapEntry), t < wordSize →
      touchRequest input = .ok (key, e, noreply) → s.entry key = some it →
      ¬ Dead s t it →
      insertFits env key it.1.flags (insertToken env t s) it.1.value s →
      (cmdProcessTouch (.const t) input).run env ⟨s, Locks.free⟩ =
        .ok (⟨0, ascii "TOUCHED\r\n"⟩, ⟨s', Locks.free⟩) →
      ChangesExpiry s s' key (freshExpiry t e) := by
  intro hall
  have hfits : insertFits Env.x86 (ascii "k") (ascii "0")
      (insertToken Env.x86 1000 foreverStored) (ascii "v") foreverStored := by
    decide +kernel
  have hthere : foreverStored.entry (ascii "k") = some (forever, 0) := rfl
  have hparse : touchRequest (ascii "touch k 0\r\n") =
    .ok (ascii "k", 0, false) := rfl
  obtain ⟨s', hrun, hkeeps⟩ := touch_run (t := 1000) (by decide) hparse hthere
    (by decide) hfits
  have hchanges := hall Env.x86 1000 _ (ascii "k") 0 false foreverStored s'
    (forever, 0) (by decide) hparse hthere (by decide) hfits hrun
  exact absurd (hkeeps.mp hchanges).2 (by decide)

end Touch

end Memstashed.Scmd
