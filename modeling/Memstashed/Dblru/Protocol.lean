import Memstashed.Dblru.Threads

/-!
# How far a call has come

A call keeps some of the answers it was given, and they decide which section it
takes next.  With this much known of every thread, an invariant of the store is
shown one section at a time.
-/

namespace Memstashed.Dblru

open Memstashed.Foundation

inductive Phase where
  | started
  | drawn (timestamp : TimestampType)
  | overwriting (old timestamp : TimestampType)
  | inserting (timestamp : TimestampType)
  | restamping (old timestamp : TimestampType)
  | finished
  deriving DecidableEq, Repr

/-- The map has been changed and the timestamp set is still to follow. -/
def Phase.Pending : Phase → Prop
  | overwriting _ _ => True
  | inserting _ => True
  | restamping _ _ => True
  | _ => False

/-- The timestamp drawn and not yet in a set. -/
def Phase.held : Phase → Option TimestampType
  | drawn timestamp => some timestamp
  | overwriting _ timestamp => some timestamp
  | inserting timestamp => some timestamp
  | restamping _ timestamp => some timestamp
  | _ => none

def Phase.old : Phase → Option TimestampType
  | overwriting old _ => some old
  | restamping old _ => some old
  | _ => none

def Phase.erased : Phase → Phase
  | overwriting _ timestamp => inserting timestamp
  | phase => phase

def DbCall.key : DbCall → Option KeyType
  | insert _ _ key _ _ _ _ => some key
  | add _ _ key _ _ _ _ => some key
  | get _ key => some key
  | delete _ key _ => some key
  | _ => none

def DbCall.IsDelete : DbCall → Prop
  | delete _ _ _ => True
  | _ => False

structure Progress where
  call : DbCall
  phase : Phase
  token : Option Bytes
  wrote : Bool
  hit : Option Element

namespace Progress

def start (call : DbCall) : Progress := ⟨call, .started, none, false, none⟩

def Allows (g : Progress) : Section → Prop
  | .nextTimestamp => g.phase = .started
  | .getSection now key timestamp =>
      g.call = .get now key ∧ g.phase = .drawn timestamp
  | .deleteSection now key expiry => g.call = .delete now key expiry
  | .insertSection _ key casUniq _ valueStr timestamp =>
      (∃ fuel clock expiry, g.call = .insert fuel clock key valueStr.flags
        casUniq valueStr.value expiry) ∧
      g.token = some valueStr.casUniq ∧ g.phase = .drawn timestamp
  | .addSection _ key _ valueStr timestamp =>
      (∃ fuel clock casUniq expiry, g.call = .add fuel clock key valueStr.flags
        casUniq valueStr.value expiry) ∧
      g.phase = .drawn timestamp
  | .eraseStamp entry =>
      (∃ timestamp, g.phase = .overwriting entry.timestamp timestamp) ∧
      g.call.key = some entry.key
  | .insertStamp entry =>
      g.phase = .inserting entry.timestamp ∧ g.call.key = some entry.key
  | .restamp old entry =>
      g.phase = .restamping old entry.timestamp ∧ g.call.key = some entry.key
  | _ => True

def learn (g : Progress) : (i : Section) → i.Answer → Progress
  | .nextTimestamp, timestamp => { g with phase := .drawn timestamp }
  | .nextToken _, token => { g with token := some token }
  | .getSection _ _ timestamp, found =>
      match found with
      | some (element, old) =>
          { g with phase := .restamping old timestamp, hit := some element }
      | none => { g with phase := .finished }
  | .insertSection _ _ _ _ _ timestamp, outcome =>
      match outcome with
      | .overwritten old _ =>
          { g with phase := .overwriting old timestamp, wrote := true }
      | .created => { g with phase := .inserting timestamp, wrote := true }
      | _ => { g with phase := .finished }
  | .addSection _ _ _ _ timestamp, outcome =>
      match outcome with
      | .revived old =>
          { g with phase := .restamping old timestamp, wrote := true }
      | .created => { g with phase := .inserting timestamp, wrote := true }
      | .exist => { g with phase := .finished }
  | .eraseStamp _, _ => { g with phase := g.phase.erased }
  | .insertStamp _, _ => { g with phase := .finished }
  | .restamp _ _, _ => { g with phase := .finished }
  | _, _ => g

def Ends (g : Progress) : Option Returned → Prop
  | none => True
  | some ret =>
      ¬ g.phase.Pending ∧ (∀ e, ret = .element (some e) → g.hit = some e) ∧
      (ret = .status .success → g.wrote = true ∨ g.call.IsDelete) ∧
      (g.wrote = true → ret = .status .success)

@[simp] theorem learn_call (g : Progress) (i : Section) (r : i.Answer) :
    (g.learn i r).call = g.call := by
  cases i with
  | getSection now key timestamp => cases r <;> rfl
  | insertSection now key casUniq expiry valueStr timestamp => cases r <;> rfl
  | addSection now key expiry valueStr timestamp => cases r <;> rfl
  | _ => rfl

theorem learn_wrote {g : Progress} {i : Section} {r : i.Answer}
    (h : g.wrote = true) : (g.learn i r).wrote = true := by
  cases i with
  | getSection now key timestamp => cases r <;> exact h
  | insertSection now key casUniq expiry valueStr timestamp =>
      cases r with
      | overwritten old sizeDiff => rfl
      | created => rfl
      | _ => exact h
  | addSection now key expiry valueStr timestamp =>
      cases r with
      | exist => exact h
      | _ => rfl
  | _ => exact h

end Progress

/-! ## Every call keeps to it -/

abbrev Follows {α : Type} (f : α → Returned) (g : Progress) (p : Sections α) :
    Prop :=
  Prog.Obeys Progress.Allows Progress.learn
    (fun g' (a : Option α) => g'.Ends (a.map f)) g p

section Follows

variable {α : Type} {f : α → Returned} {g : Progress}

theorem follows_step {i : Section} {next : i.Answer → Sections α}
    (hallows : g.Allows i) (hnext : ∀ r, Follows f (g.learn i r) (next r)) :
    Follows f g (Sections.step i >>= next) :=
  .call hallows hnext

theorem follows_return {a : α} (h : g.Ends (some (f a))) :
    Follows f g (Prog.done a) :=
  .done h

theorem Follows.program {p : Sections α} (h : Follows f g p) :
    Follows id g (p >>= fun a => Prog.done (f a)) := by
  refine Prog.Obeys.bind h (fun _ _ => trivial) fun g' a hends => ?_
  exact follows_return hends

theorem follows_refused {a : α} (hphase : ¬ g.phase.Pending)
    (hwrote : g.wrote = false) (helement : ∀ e, f a ≠ .element (some e))
    (hstatus : f a ≠ .status .success) : Follows f g (Prog.done a) :=
  follows_return ⟨hphase, fun e he => absurd he (helement e),
    fun hret => absurd hret hstatus, by simp [hwrote]⟩

theorem follows_stored {f : RetStatus → Returned} (hphase : ¬ g.phase.Pending)
    (hwrote : g.wrote = true) (hstatus : f .success = .status .success) :
    Follows f g (Prog.done .success) :=
  follows_return ⟨hphase, by simp [hstatus], fun _ => .inl hwrote,
    fun _ => hstatus⟩

def LoopStep : Section → Prop
  | .storedSize => True
  | .setIsEmpty _ => True
  | .removeLRUElement _ _ => True
  | _ => False

theorem LoopStep.allows {i : Section} (h : LoopStep i) (g : Progress) :
    g.Allows i := by
  cases i with
  | storedSize => trivial
  | setIsEmpty h => trivial
  | removeLRUElement now h => trivial
  | _ => exact absurd h not_false

theorem LoopStep.learn {i : Section} (h : LoopStep i) (g : Progress)
    (r : i.Answer) : g.learn i r = g := by
  cases i with
  | storedSize => rfl
  | setIsEmpty h => rfl
  | removeLRUElement now h => rfl
  | _ => exact absurd h not_false

theorem calls_step {i : Section} {next : i.Answer → Sections α}
    (hi : LoopStep i) (hnext : ∀ r, Prog.Calls LoopStep (next r)) :
    Prog.Calls LoopStep (Sections.step i >>= next) :=
  .call hi hnext

theorem calls_insertMakeRoom (fits : Nat → Prop) [DecidablePred fits]
    (orig : HashTblNum) (fuel : Nat) (clock : Nat → Nat) (h : HashTblNum) :
    Prog.Calls LoopStep
      (Sections.insertMakeRoom fits orig fuel clock h) := by
  induction fuel generalizing clock h with
  | zero => exact .fail _
  | succ fuel ih =>
      refine calls_step trivial fun size => ?_
      split
      · exact .done true
      · refine calls_step trivial fun isEmpty => ?_
        cases isEmpty with
        | true =>
            simp only [if_true]
            split
            · exact .done false
            · exact ih clock (nextHashTblNum h)
        | false =>
            exact calls_step trivial fun _ => ih (fun i => clock (i + 1)) h

theorem calls_addMakeRoom (fits : Nat → Prop) [DecidablePred fits]
    (orig : HashTblNum) (fuel : Nat) (clock : Nat → Nat) (h : HashTblNum) :
    Prog.Calls LoopStep (Sections.addMakeRoom fits orig fuel clock h) := by
  induction fuel generalizing clock h with
  | zero => exact .fail _
  | succ fuel ih =>
      refine calls_step trivial fun size => ?_
      split
      · exact .done true
      · refine calls_step trivial fun isEmpty => ?_
        cases isEmpty with
        | true =>
            simp only [if_true]
            split
            · exact .done false
            · exact calls_step trivial fun _ =>
                ih (fun i => clock (i + 1)) (nextHashTblNum h)
        | false =>
            exact calls_step trivial fun _ => ih (fun i => clock (i + 1)) h

theorem follows_loop {p : Sections Bool} {next : Bool → Sections α}
    (hloop : Prog.Calls LoopStep p) (hnext : ∀ room, Follows f g (next room)) :
    Follows f g (p >>= next) := by
  have hobeys : Prog.Obeys Progress.Allows Progress.learn
      (fun g' (_ : Option Bool) => g' = g) g p :=
    Prog.Calls.obeys hloop (fun i hi => hi.allows g) fun i hi => hi.learn g
  refine hobeys.bind (fun _ _ => trivial) fun g' room hsame => ?_
  rw [hsame]
  exact hnext room

end Follows

section Calls

variable {env : Env} {timestamp : TimestampType}

theorem follows_insertTail {g : Progress} {fuel : Nat} {clock : Clock}
    {key flags casUniq value token : Bytes} {expiry : Nat}
    (hcall : g.call = .insert fuel clock key flags casUniq value expiry)
    (htoken : g.token = some token) (hwrote : g.wrote = false)
    (hphase : g.phase = .drawn timestamp) :
    Follows Returned.status g (Sections.insertTail clock.now key flags casUniq
      value expiry token timestamp) := by
  refine follows_step ⟨⟨_, _, _, hcall⟩, htoken, hphase⟩ fun outcome => ?_
  have hkey : g.call.key = some key := by rw [hcall]; rfl
  cases outcome with
  | exist => exact follows_refused not_false hwrote (by simp) (by simp)
  | notExist => exact follows_refused not_false hwrote (by simp) (by simp)
  | overwritten old sizeDiff =>
      refine follows_step ⟨⟨timestamp, rfl⟩, hkey⟩ fun _ => ?_
      refine follows_step trivial fun _ => ?_
      refine follows_step ⟨rfl, hkey⟩ fun _ => ?_
      exact follows_stored not_false rfl rfl
  | created =>
      refine follows_step trivial fun _ => ?_
      refine follows_step ⟨rfl, hkey⟩ fun _ => ?_
      exact follows_stored not_false rfl rfl

theorem follows_addTail {g : Progress} {fuel : Nat} {clock : Clock}
    {key flags casUniq value token : Bytes} {expiry : Nat}
    (hcall : g.call = .add fuel clock key flags casUniq value expiry)
    (hwrote : g.wrote = false) (hphase : g.phase = .drawn timestamp) :
    Follows Returned.status g (Sections.addTail clock.now key flags value expiry
      token timestamp) := by
  refine follows_step ⟨⟨_, _, _, _, hcall⟩, hphase⟩ fun outcome => ?_
  have hkey : g.call.key = some key := by rw [hcall]; rfl
  cases outcome with
  | exist => exact follows_refused not_false hwrote (by simp) (by simp)
  | revived old =>
      refine follows_step ⟨rfl, hkey⟩ fun _ => ?_
      exact follows_stored not_false rfl rfl
  | created =>
      refine follows_step trivial fun _ => ?_
      refine follows_step ⟨rfl, hkey⟩ fun _ => ?_
      exact follows_stored not_false rfl rfl

theorem follows_dbGetElement (now : Nat) (key : KeyType) :
    Follows Returned.element (.start (.get now key))
      (Sections.dbGetElement now key) := by
  refine follows_step rfl fun timestamp => ?_
  refine follows_step ⟨rfl, rfl⟩ fun found => ?_
  cases found with
  | none => exact follows_refused not_false rfl (by simp) (by simp)
  | some result =>
      refine follows_step ⟨rfl, rfl⟩ fun _ => ?_
      refine follows_return ⟨not_false, fun e he => ?_, by simp, nofun⟩
      cases he
      rfl

theorem follows_dbHandleFlushAll (now : Nat) :
    Follows (fun _ => Returned.nothing) (.start (.handleFlushAll now))
      (Sections.dbHandleFlushAll now) := by
  have hreturn : Follows (fun _ => Returned.nothing)
      (.start (.handleFlushAll now)) (Prog.done ()) :=
    follows_refused not_false rfl (by simp) (by simp)
  refine follows_step trivial fun set => ?_
  cases set with
  | false => exact hreturn
  | true =>
      refine follows_step trivial fun time => ?_
      split
      · exact follows_step trivial fun _ => follows_step trivial fun _ =>
          follows_step trivial fun _ => hreturn
      · exact hreturn

theorem follows_program (env : Env) (call : DbCall) :
    Follows id (.start call) (call.program env) := by
  cases call with
  | insert fuel clock key flags casUniq value expiry =>
      refine Follows.program (follows_step rfl fun timestamp => ?_)
      refine follows_step trivial fun token => ?_
      refine follows_loop (calls_insertMakeRoom ..) fun room => ?_
      cases room with
      | true => exact follows_insertTail rfl rfl rfl rfl
      | false => exact follows_refused not_false rfl (by simp) (by simp)
  | add fuel clock key flags casUniq value expiry =>
      refine Follows.program (follows_step rfl fun timestamp => ?_)
      refine follows_loop (calls_addMakeRoom ..) fun room => ?_
      cases room with
      | true => exact follows_addTail rfl rfl rfl
      | false => exact follows_refused not_false rfl (by simp) (by simp)
  | get now key => exact (follows_dbGetElement now key).program
  | delete now key expiry =>
      refine follows_step rfl fun ret => ?_
      exact follows_return ⟨not_false, by simp, fun _ => .inr trivial, nofun⟩
  | removeLRUElement now h =>
      refine follows_step trivial fun _ => ?_
      exact follows_refused not_false rfl (by simp) (by simp)
  | setFlushAll now expiry =>
      refine follows_step trivial fun _ => follows_step trivial fun _ => ?_
      exact follows_refused not_false rfl (by simp) (by simp)
  | handleFlushAll now => exact (follows_dbHandleFlushAll now).program

end Calls

/-! ## Invariants -/

section Invariants

variable {κ : Type} [DecidableEq κ] {env : Env} {calls : κ → DbCall}
  {t₀ t : State} {history : Turns κ} {pool : κ → Sections Returned}

def Section.token? : (i : Section) → i.Answer → Option Bytes
  | .nextToken _, token => some token
  | _, _ => none

/-- The progress of all threads in a run. -/
structure Tracks (calls : κ → DbCall) (history : Turns κ)
    (g : κ → Progress) : Prop where
  call : ∀ k, (g k).call = calls k
  idle : ∀ k, (∀ e ∈ history, e.client ≠ k) → g k = .start (calls k)
  token : ∀ k token, (g k).token = some token →
    ∃ e ∈ history, e.call.token? e.answer = some token

theorem Progress.learn_token {g : Progress} {i : Section} {r : i.Answer}
    {token : Bytes} (h : (g.learn i r).token = some token) :
    g.token = some token ∨ i.token? r = some token := by
  cases i with
  | nextToken now => exact .inr h
  | getSection now key timestamp => cases r <;> exact .inl h
  | insertSection now key casUniq expiry valueStr timestamp =>
      cases r <;> exact .inl h
  | addSection now key expiry valueStr timestamp => cases r <;> exact .inl h
  | _ => exact .inl h

theorem Tracks.step {g : κ → Progress} (h : Tracks calls history g) (k : κ)
    (i : Section) (before : State) (r : i.Answer) :
    Tracks calls (⟨k, i, before, r⟩ :: history)
      (Function.update g k ((g k).learn i r)) where
  call j := by
    by_cases hj : j = k
    · subst hj
      rw [Function.update_self, Progress.learn_call]
      exact h.call j
    · rw [Function.update_of_ne hj]
      exact h.call j
  idle j hidle := by
    have hj : j ≠ k := fun heq => hidle _ (List.mem_cons_self ..) heq.symm
    rw [Function.update_of_ne hj]
    exact h.idle j fun e he => hidle e (List.mem_cons_of_mem _ he)
  token j token htoken := by
    by_cases hj : j = k
    · subst hj
      rw [Function.update_self] at htoken
      rcases Progress.learn_token htoken with hold | hdrawn
      · obtain ⟨e, he, hanswer⟩ := h.token j token hold
        exact ⟨e, List.mem_cons_of_mem _ he, hanswer⟩
      · exact ⟨_, List.mem_cons_self .., hdrawn⟩
    · rw [Function.update_of_ne hj] at htoken
      obtain ⟨e, he, hanswer⟩ := h.token j token htoken
      exact ⟨e, List.mem_cons_of_mem _ he, hanswer⟩

theorem Interleaves.invariant
    (inv : Turns κ → (κ → Progress) → Store → Prop)
    (hstart : inv [] (fun k => .start (calls k)) t₀.store)
    (hstep : ∀ history g before s' k i r, Tracks calls history g →
      inv history g before.store → (g k).Allows i →
      i.apply env before.store = (r, s') →
      inv (⟨k, i, before, r⟩ :: history)
        (Function.update g k ((g k).learn i r)) s')
    (h : Interleaves env calls t₀ history pool t) :
    ∃ g, Tracks calls history g ∧ inv history g t.store ∧
      ∀ k ret, pool k = .done ret → (g k).Ends (some ret) := by
  obtain ⟨g, ⟨htracks, hinv⟩, hpool⟩ := Prog.Concurrent.invariant
    (fun history g t => Tracks calls history g ∧ inv history g t.store)
    (fun k => follows_program env (calls k))
    ⟨⟨fun _ => rfl, fun _ _ => rfl, by simp [Progress.start]⟩, hstart⟩
    (fun history g pool before k i r t' hboth _ hallows _ hexec =>
      ⟨hboth.1.step k i before r, hstep _ _ _ _ _ _ _ hboth.1 hboth.2 hallows
        (Section.apply_of_exec hexec)⟩) h
  refine ⟨g, htracks, hinv, fun k ret hret => ?_⟩
  have hdone := hpool k
  rw [hret] at hdone
  cases hdone with
  | done hends => exact hends

end Invariants

end Memstashed.Dblru
