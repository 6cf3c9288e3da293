import Memstashed.Dblru.Hits

/-!
# One winner per token

Of the calls that ask for the same token of the same key at most one succeeds,
as long as the generator does not draw that token again.
-/

namespace Memstashed.Dblru

open Memstashed.Foundation

def DbCall.IsCas (key : KeyType) (token : Bytes) : DbCall → Prop
  | insert _ _ other _ casUniq _ _ => other = key ∧ casUniq = token
  | _ => False

def DbCall.IsAdd (key : KeyType) : DbCall → Prop
  | add _ _ other _ _ _ _ => other = key
  | _ => False

section Winners

variable {κ : Type} [DecidableEq κ] {env : Env} {calls : κ → DbCall}
  {key : KeyType} {token : Bytes} {t₀ t : State} {history : Turns κ}
  {pool : κ → Sections Returned} {g : κ → Progress}

def NotDrawn (token : Bytes) (history : Turns κ) : Prop :=
  ∀ e ∈ history, e.call.token? e.answer ≠ some token

def Won (calls : κ → DbCall) (key : KeyType) (token : Bytes)
    (g : κ → Progress) (k : κ) : Prop :=
  (calls k).IsCas key token ∧ (g k).wrote = true

/-- Once the token has been found it is gone. -/
structure OneWinner (calls : κ → DbCall) (key : KeyType) (token : Bytes)
    (g : κ → Progress) (s : Store) : Prop where
  unique : ∀ j k, Won calls key token g j → Won calls key token g k → j = k
  gone : ∀ k, Won calls key token g k →
    ∀ v, s.contents key = some v → v.2.2 ≠ token

theorem contents_of_not_stored {i : Section} {r : i.Answer} {s s' : Store}
    (happly : i.apply env s = (r, s'))
    (hstored : ∀ valueStr, i.stored r ≠ some (key, valueStr)) :
    s'.contents key = s.contents key ∨ s'.contents key = none := by
  by_cases herases : i.Erases key s r
  · cases i with
    | deleteSection now other expiry =>
        obtain ⟨rfl, rfl⟩ := herases
        rcases deleteSection_cases happly with
          ⟨hmiss, -⟩ | ⟨it, -, -, -, rfl⟩ | ⟨it, hentry, -, -, rfl⟩
        · contradiction
        · exact .inr (by simp [Store.contents])
        · refine .inl ?_
          rw [contents_setEntry_self, Store.contents, hentry]
          rfl
    | _ =>
        refine .inr (contents_of_erased happly herases ?_)
        rintro now expiry ⟨⟩
  · exact .inl (contents_kept happly hstored herases)

theorem wrote_of_learn {g : Progress} {i : Section} {r : i.Answer}
    (h : (g.learn i r).wrote = true) :
    g.wrote = true ∨ ∃ other valueStr, i.stored r = some (other, valueStr) := by
  cases i with
  | insertSection now other casUniq expiry valueStr timestamp =>
      cases r with
      | overwritten old sizeDiff => exact .inr ⟨other, valueStr, rfl⟩
      | created => exact .inr ⟨other, valueStr, rfl⟩
      | _ => exact .inl h
  | addSection now other expiry valueStr timestamp =>
      cases r with
      | exist => exact .inl h
      | _ => exact .inr ⟨other, valueStr, rfl⟩
  | getSection now other timestamp => cases r <;> exact .inl h
  | _ => exact .inl h

theorem token_of_swap {g : Progress} {i : Section} {r : i.Answer}
    {other : KeyType} {valueStr : ValueStruct} {s s' : Store}
    (hcas : g.call.IsCas key token) (htoken : token ≠ [])
    (hallows : g.Allows i) (happly : i.apply env s = (r, s'))
    (hstored : i.stored r = some (other, valueStr)) :
    other = key ∧ ∃ v, s.contents key = some v ∧ v.2.2 = token := by
  cases i with
  | insertSection now other' casUniq expiry v timestamp =>
      obtain ⟨⟨fuel, clock, expiry', hcall⟩, -, -⟩ := hallows
      rw [hcall] at hcas
      obtain ⟨rfl, rfl⟩ := hcas
      rcases insertSection_cases happly with
        ⟨it, -, -, -, rfl, -⟩ | ⟨it, diff, hentry, hmatch, rfl, -⟩ |
          ⟨-, -, rfl, -⟩ | ⟨-, hnil, -, -⟩
      · cases hstored
      · cases hstored
        refine ⟨rfl, contents it.1, by simp [Store.contents, hentry], ?_⟩
        exact hmatch.resolve_left htoken
      · cases hstored
      · exact absurd hnil htoken
  | addSection now other' expiry v timestamp =>
      obtain ⟨⟨fuel, clock, casUniq, expiry', hcall⟩, -⟩ := hallows
      rw [hcall] at hcas
      exact absurd hcas not_false
  | _ => cases hstored

theorem drawn_of_stored {g : Progress} {i : Section} {r : i.Answer}
    {valueStr : ValueStruct} (hadd : ¬ g.call.IsAdd key)
    (hallows : g.Allows i) (hstored : i.stored r = some (key, valueStr)) :
    g.token = some valueStr.casUniq := by
  cases i with
  | insertSection now other casUniq expiry v timestamp =>
      cases r <;> cases hstored
      · exact hallows.2.1
      · exact hallows.2.1
  | addSection now other expiry v timestamp =>
      obtain ⟨⟨fuel, clock, casUniq, expiry', hcall⟩, -⟩ := hallows
      rw [hcall] at hadd
      cases r <;> cases hstored
      · exact absurd rfl hadd
      · exact absurd rfl hadd
  | _ => cases hstored

theorem oneWinner_step {i : Section} {k : κ} {r : i.Answer} {s s' : Store}
    (htoken : token ≠ []) (hadd : ¬ (calls k).IsAdd key)
    (htracks : Tracks calls history g) (hdrawn : NotDrawn token history)
    (h : OneWinner calls key token g s) (hallows : (g k).Allows i)
    (happly : i.apply env s = (r, s')) :
    OneWinner calls key token (Function.update g k ((g k).learn i r)) s' := by
  rw [← htracks.call k] at hadd
  have hfresh : ∀ valueStr, i.stored r = some (key, valueStr) →
      valueStr.casUniq ≠ token := by
    intro valueStr hstored heq
    obtain ⟨e, he, hanswer⟩ := htracks.token k _
      (drawn_of_stored hadd hallows hstored)
    exact hdrawn e he (heq ▸ hanswer)
  -- what the key holds after the section, if it is not what it held before
  have hnew : ∀ v, s'.contents key = some v →
      s.contents key = some v ∨ v.2.2 ≠ token := by
    intro v hv
    by_cases hstored : ∃ valueStr, i.stored r = some (key, valueStr)
    · obtain ⟨valueStr, hstored⟩ := hstored
      rw [contents_of_stored happly hstored] at hv
      cases hv
      exact .inr (hfresh valueStr hstored)
    · rw [not_exists] at hstored
      rcases contents_of_not_stored happly hstored with hsame | hnone
      · exact .inl (hsame ▸ hv)
      · rw [hnone] at hv
        contradiction
  have hbefore : ∀ j, j ≠ k → Won calls key token
      (Function.update g k ((g k).learn i r)) j → Won calls key token g j := by
    intro j hj hwon
    rw [Won, Function.update_of_ne hj] at hwon
    exact hwon
  by_cases hwins : Won calls key token
      (Function.update g k ((g k).learn i r)) k ∧ ¬ Won calls key token g k
  · obtain ⟨⟨hcas, hwrote⟩, hnot⟩ := hwins
    rw [Function.update_self] at hwrote
    rcases wrote_of_learn hwrote with hold | ⟨other, valueStr, hstored⟩
    · exact absurd ⟨hcas, hold⟩ hnot
    · obtain ⟨rfl, v, hv, htoken'⟩ := token_of_swap
        (by rw [htracks.call k]; exact hcas) htoken hallows happly hstored
      -- the token was there, so nobody had won
      have hfirst : ∀ j, ¬ Won calls other token g j := fun j hwon =>
        h.gone j hwon v hv htoken'
      refine ⟨fun j j' hj hj' => ?_, fun j hj v' hv' => ?_⟩
      · by_cases hjk : j = k
        · by_cases hjk' : j' = k
          · rw [hjk, hjk']
          · exact absurd (hbefore j' hjk' hj') (hfirst j')
        · exact absurd (hbefore j hjk hj) (hfirst j)
      · rw [contents_of_stored happly hstored] at hv'
        cases hv'
        exact hfresh valueStr hstored
  · have hwon : ∀ j, Won calls key token
        (Function.update g k ((g k).learn i r)) j → Won calls key token g j := by
      intro j hj
      by_cases hjk : j = k
      · subst hjk
        exact not_not.mp fun hnot => hwins ⟨hj, hnot⟩
      · exact hbefore j hjk hj
    refine ⟨fun j j' hj hj' => h.unique j j' (hwon j hj) (hwon j' hj'),
      fun j hj v hv => ?_⟩
    rcases hnew v hv with hold | hne
    · exact h.gone j (hwon j hj) v hold
    · exact hne

/-- Of the calls that ask for the same token at most one succeeds. -/
theorem cas_one_winner (htoken : token ≠ [])
    (hadd : ∀ k, ¬ (calls k).IsAdd key)
    (h : Interleaves env calls t₀ history pool t)
    (hdrawn : NotDrawn token history) {j k : κ}
    (hj : (calls j).IsCas key token) (hk : (calls k).IsCas key token)
    (hwonj : pool j = .done (.status .success))
    (hwonk : pool k = .done (.status .success)) : j = k := by
  obtain ⟨g, htracks, hinv, hends⟩ := h.invariant
    (fun history g s => NotDrawn token history → OneWinner calls key token g s)
    (fun _ => ⟨fun j k hj _ => absurd hj.2 (by simp [Progress.start]),
      fun j hj => absurd hj.2 (by simp [Progress.start])⟩)
    fun history g before s' l i r htracks hinv hallows happly hdrawn' => by
      have hprior : NotDrawn token history := fun e he =>
        hdrawn' e (List.mem_cons_of_mem _ he)
      exact oneWinner_step htoken (hadd l) htracks hprior (hinv hprior) hallows
        happly
  have hwrote : ∀ l, (calls l).IsCas key token →
      pool l = .done (.status .success) → (g l).wrote = true := by
    intro l hcas hret
    refine ((hends l _ hret).2.2.1 rfl).resolve_right fun hdelete => ?_
    rw [htracks.call l] at hdelete
    cases hcall : calls l <;> rw [hcall] at hcas hdelete
    all_goals first | exact absurd hcas not_false | exact absurd hdelete not_false
  exact (hinv hdrawn).unique j k ⟨hj, hwrote j hj hwonj⟩ ⟨hk, hwrote k hk hwonk⟩

end Winners

section Witness

def oneToken : Store where
  gTimestampToKeySet := fun h =>
    if h = getHashTblNbrFromKey (ascii "k") then
      OrderedSet.empty.insert ⟨0, ascii "k"⟩ else ∅
  gKeyToValueHashMap := fun h =>
    if h = getHashTblNbrFromKey (ascii "k") then
      (∅ : KeyToValueType).insert (ascii "k")
        (⟨wordMax, ascii "5", ascii "0", ascii "7"⟩, 0) else ∅
  gStoredSize := insertCharge (ascii "k") (ascii "0") (ascii "7") (ascii "5")
  gTimestamp := 1
  gFlushAllTimestamp := 0
  gFlushAllTime := 0
  gIsFlushAllSet := false
  generator := none

def casCall (token : Bytes) : DbCall :=
  .insert 1 (.const 1000) (ascii "k") (ascii "0") token (ascii "6") 60

def twoCas (token : Bytes) : Bool → DbCall := fun _ => casCall token

/-- Both have drawn their timestamps before either takes the mutex. -/
theorem cas_one_winner_twoCas :
    ∃ history pool t, Interleaves Env.x86 (twoCas (ascii "7"))
        ⟨oneToken, Locks.free⟩ history pool t ∧
      pool true = .done (.status .success) ∧
      pool false = .done (.status .exist) ∧
      ∀ k, pool k = .done (.status .success) → k = true := by
  obtain ⟨history, pool, t, h, hresult, hother, hdrawn⟩ :=
    Prog.exists_concurrent_of_turns
      (Section.exec Env.x86) (fun _ _ _ _ => True)
      (fun k => (twoCas (ascii "7") k).program Env.x86) ⟨oneToken, Locks.free⟩
      [false, false, true, true, false, true, true, false, true, true, true]
      (fun history pool _ =>
        (pool true).result? = some (.status .success) ∧
        (pool false).result? = some (.status .exist) ∧
        ∀ e ∈ history, e.call.token? e.answer ≠ some (ascii "7"))
      (by decide +kernel)
  have hwon := Prog.eq_done_of_result? hresult
  have hadd : ∀ k, ¬ (twoCas (ascii "7") k).IsAdd (ascii "k") := fun _ =>
    not_false
  exact ⟨history, pool, t, h, hwon, Prog.eq_done_of_result? hother,
    fun k hk => cas_one_winner (by decide) hadd h hdrawn
      ⟨rfl, rfl⟩ ⟨rfl, rfl⟩ hk hwon⟩

/-- An empty token is not compared. -/
theorem empty_token_wins_twice :
    ¬ ∀ (env : Env) (key token : Bytes) (calls : Bool → DbCall) (t₀ : State)
        (history : Turns Bool) (pool : Bool → Sections Returned) (t : State),
      (∀ k, (calls k).IsCas key token) →
      Interleaves env calls t₀ history pool t → NotDrawn token history →
      ∀ j k, pool j = .done (.status .success) →
        pool k = .done (.status .success) → j = k := by
  intro hall
  obtain ⟨history, pool, t, h, hresult, hother, hdrawn⟩ :=
    Prog.exists_concurrent_of_turns
      (Section.exec Env.x86) (fun _ _ _ _ => True)
      (fun k => (twoCas [] k).program Env.x86) ⟨oneToken, Locks.free⟩
      [false, false, false, false, false, false, false, true, true, true, true,
        true, true, true]
      (fun history pool _ =>
        (pool true).result? = some (.status .success) ∧
        (pool false).result? = some (.status .success) ∧
        ∀ e ∈ history, e.call.token? e.answer ≠ some [])
      (by decide +kernel)
  have hsame := hall Env.x86 (ascii "k") [] (twoCas []) ⟨oneToken, Locks.free⟩
    history pool t (fun _ => ⟨rfl, rfl⟩) h hdrawn true false
    (Prog.eq_done_of_result? hresult) (Prog.eq_done_of_result? hother)
  exact absurd hsame (by decide)

end Witness

end Memstashed.Dblru
