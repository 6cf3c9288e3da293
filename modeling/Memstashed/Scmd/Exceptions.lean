import Memstashed.Dblru.Eviction
import Memstashed.Scmd.Commands
import Memstashed.Scmd.OneLine

/-!
# Exceptions that leave a command

No `substr` of the parsers throws.  A conversion throws `invalid_argument`,
which the parsers catch and the counters do not, or `out_of_range`, which nobody
catches.  So a request brings the server down exactly when a number it has
converted is too large, or when a counter meets a text that is not a number.
-/

namespace Memstashed.Scmd

open Memstashed.Foundation
open Memstashed.Dblru

/-! ## The texts that are converted -/

def bytesText : Parse (Bytes × Bytes × Bool) → List Bytes
  | .ok (bytesStr, _, _) => [bytesStr]
  | .error _ => []

def isNumber (text : Bytes) : Bool :=
  match stoul text with
  | .ok _ => true
  | .error _ => false

/-- What a full storage header has converted: the expiry field, and the byte
count if the expiry is a number and the line is complete.  An expiry field at
the end of the line runs on into the data. -/
def headerTexts (isCas : Bool) (line data : Bytes) : List Bytes :=
  match cut space line with
  | (_, none) => []
  | (_, some rest) =>
      match cut space rest with
      | (_, none) => []
      | (_, some rest) =>
          match cut space rest with
          | (_, none) => []
          | (_, some rest) =>
              match cut space rest with
              | (text, none) => [text ++ (crlf ++ (cut space data).1)]
              | (text, some rest) =>
                  text :: if isNumber text then
                    bytesText (bytesAndTokenOf isCas data rest) else []

def shortTexts (line data : Bytes) : List Bytes :=
  match cut space line with
  | (_, none) => []
  | (_, some rest) =>
      match cut space rest with
      | (_, none) => []
      | (_, some rest) => bytesText (shortEndingOf data rest)

def extendTexts (line data : Bytes) : List Bytes :=
  match shortOf line data with
  | .error (.reply _) => shortTexts line data ++ headerTexts false line data
  | _ => shortTexts line data

def argumentTexts (line : Bytes) : List Bytes :=
  match keyAndValueOf line with
  | .ok (_, text, _) => [text]
  | .error _ => []

def optionTexts (line : Bytes) : List Bytes :=
  match cut space line with
  | (_, none) => []
  | (_, some rest) => [(cut space rest).1]

def FitsWord (text : Bytes) : Prop := stoul text ≠ .error .outOfRange

instance (text : Bytes) : Decidable (FitsWord text) :=
  inferInstanceAs (Decidable (_ ≠ _))

/-! ## Parsers -/

/-- The parser lets no exception out. -/
def Quiet {α : Type} (request : Parse α) : Prop :=
  ∀ e, request ≠ .error (.exception e)

theorem quiet_ok {α : Type} (a : α) : Quiet (.ok a : Parse α) := by
  intro e h
  contradiction

theorem quiet_reply {α : Type} (output : String) :
    Quiet (reply output : Parse α) := by
  intro e h
  cases h

theorem quiet_stoulOr (output : String) (text : Bytes) :
    Quiet (stoulOr output text) ↔ FitsWord text := by
  unfold Quiet stoulOr FitsWord
  cases stoul text with
  | ok n => simp
  | error e => cases e <;> simp [reply]

theorem quiet_bind {α β : Type} (request : Parse α) (k : α → Parse β) :
    Quiet (request >>= k) ↔
      Quiet request ∧ ∀ a, request = .ok a → Quiet (k a) := by
  cases request with
  | ok a => simp [Quiet]
  | error stop => simp [Quiet]

theorem quiet_expiryField (now : Nat) (text : Bytes) :
    Quiet (expiryField now text) ↔ FitsWord text := by
  simp only [expiryField, quiet_bind, quiet_stoulOr, Parse.pure_eq, quiet_ok,
    implies_true, and_true]

theorem expiryField_isOk (now : Nat) (text : Bytes) :
    (∃ expTime, expiryField now text = .ok expTime) ↔ isNumber text = true := by
  unfold expiryField stoulOr isNumber
  cases stoul text with
  | ok n => simp
  | error e => cases e <;> simp [reply]

theorem quiet_noreplyOf (rest : Bytes) : Quiet (noreplyOf rest) := by
  unfold noreplyOf
  split
  · exact quiet_ok _
  · split
    · exact quiet_reply _
    · exact quiet_ok _

theorem quiet_bytesAndTokenOf (isCas : Bool) (data rest : Bytes) :
    Quiet (bytesAndTokenOf isCas data rest) := by
  unfold bytesAndTokenOf
  split
  · exact quiet_ok _
  · rw [quiet_bind]
    exact ⟨quiet_noreplyOf _, fun _ _ => quiet_ok _⟩
  · split
    · exact quiet_reply _
    · exact quiet_ok _
  · split
    · exact quiet_ok _
    · rw [quiet_bind]
      exact ⟨quiet_noreplyOf _, fun _ _ => quiet_ok _⟩

theorem quiet_shortEndingOf (data rest : Bytes) :
    Quiet (shortEndingOf data rest) := by
  cases rest with
  | nil => exact quiet_ok _
  | cons b rest => exact quiet_bytesAndTokenOf false data rest

theorem quiet_dataOf (data bytesStr : Bytes) :
    Quiet (dataOf data bytesStr) ↔ FitsWord bytesStr := by
  rw [dataOf, quiet_bind, quiet_stoulOr]
  constructor
  · intro h
    exact h.1
  · intro h
    refine ⟨h, fun bytes _ => ?_⟩
    split
    · exact quiet_ok _
    · exact quiet_ok _

private theorem quiet_ending {ending : Parse (Bytes × Bytes × Bool)}
    (hquiet : Quiet ending) (data : Bytes) {α : Type}
    (k : Bytes × Bytes × Bool → Int × Nat × Bytes → α) :
    Quiet (ending >>= fun last => dataOf data last.1 >>= fun r =>
        (.ok (k last r) : Parse α)) ↔
      ∀ t ∈ bytesText ending, FitsWord t := by
  cases ending with
  | error stop =>
      cases stop with
      | reply output => simp [bytesText, Quiet]
      | exception e => exact absurd rfl (hquiet e)
  | ok last =>
      simp only [Parse.ok_bind, quiet_bind, quiet_dataOf, quiet_ok,
        implies_true, and_true, bytesText, List.mem_singleton, forall_eq]

private theorem quiet_expiry (now : Nat) (text : Bytes) {α : Type}
    {k : Nat → Parse α} {P : Prop} (hk : ∀ expTime, Quiet (k expTime) ↔ P) :
    Quiet (expiryField now text >>= k) ↔
      FitsWord text ∧ (isNumber text = true → P) := by
  rw [quiet_bind, quiet_expiryField, ← expiryField_isOk now]
  constructor
  · rintro ⟨hfits, hrest⟩
    refine ⟨hfits, ?_⟩
    rintro ⟨expTime, hok⟩
    exact (hk expTime).mp (hrest expTime hok)
  · rintro ⟨hfits, hrest⟩
    exact ⟨hfits, fun expTime hok => (hk expTime).mpr (hrest ⟨expTime, hok⟩)⟩

theorem quiet_commonOf (now : Nat) (isCas : Bool) (line data : Bytes) :
    Quiet (commonOf now isCas line data) ↔
      ∀ t ∈ headerTexts isCas line data, FitsWord t := by
  unfold commonOf headerTexts
  cases cut space line with
  | mk word after =>
    cases after with
    | none => simp [quiet_reply]
    | some after =>
      simp only
      cases cut space after with
      | mk key after =>
        cases after with
        | none => simp [quiet_reply]
        | some after =>
          simp only [flagsAndExpiryOf]
          cases cut space after with
          | mk flags after =>
            cases after with
            | none => simp [reply, Quiet]
            | some after =>
              simp only
              cases cut space after with
              | mk text after =>
                cases after with
                | none =>
                    simp only [Parse.bind_bind, List.mem_singleton, forall_eq]
                    rw [quiet_expiry (P := True)]
                    · simp
                    · intro expTime
                      simp [reply, Quiet]
                | some after =>
                    simp only [Parse.bind_bind, Parse.pure_eq, Parse.ok_bind,
                      List.forall_mem_cons]
                    rw [quiet_expiry now text
                      fun expTime => quiet_ending
                        (quiet_bytesAndTokenOf isCas data after) data _]
                    cases isNumber text with
                    | true => simp
                    | false => simp

theorem quiet_shortOf (line data : Bytes) :
    Quiet (shortOf line data) ↔ ∀ t ∈ shortTexts line data, FitsWord t := by
  unfold shortOf shortTexts
  cases cut space line with
  | mk word after =>
    cases after with
    | none => simp [quiet_reply]
    | some after =>
      simp only
      cases cut space after with
      | mk key after =>
        cases after with
        | none => simp [quiet_reply]
        | some after =>
          exact quiet_ending (quiet_shortEndingOf data after) data _

theorem quiet_keysOf (line : Bytes) : Quiet (keysOf line) := by
  unfold keysOf
  split
  · exact quiet_reply _
  · exact quiet_ok _

theorem quiet_deleteOf (line : Bytes) : Quiet (deleteOf line) := by
  unfold deleteOf
  split
  · exact quiet_reply _
  · split
    · exact quiet_ok _
    · split
      · exact quiet_reply _
      · exact quiet_ok _

theorem quiet_keyAndValueOf (line : Bytes) : Quiet (keyAndValueOf line) := by
  unfold keyAndValueOf
  split
  · exact quiet_reply _
  · split
    · exact quiet_reply _
    · exact quiet_ok _

theorem quiet_counterOf (line : Bytes) : Quiet (counterOf line) := by
  rw [counterOf, quiet_bind]
  exact ⟨quiet_keyAndValueOf line, fun _ _ => quiet_ok _⟩

theorem quiet_touchOf (line : Bytes) :
    Quiet (touchOf line) ↔ ∀ t ∈ argumentTexts line, FitsWord t := by
  have hquiet := quiet_keyAndValueOf line
  unfold touchOf argumentTexts
  cases hfields : keyAndValueOf line with
  | error stop =>
      cases stop with
      | reply output => simp [Quiet]
      | exception e => exact absurd hfields (hquiet e)
  | ok fields =>
      simp only [Parse.ok_bind, quiet_bind, quiet_stoulOr, Parse.pure_eq,
        quiet_ok, implies_true, and_true, List.mem_singleton, forall_eq]

theorem quiet_verbosityOf (line : Bytes) :
    Quiet (verbosityOf line) ↔ ∀ t ∈ optionTexts line, FitsWord t := by
  unfold verbosityOf optionTexts
  cases cut space line with
  | mk word after =>
    cases after with
    | none => simp [quiet_reply]
    | some after =>
        simp only [quiet_bind, quiet_stoulOr, Parse.pure_eq, quiet_ok,
          implies_true, and_true, List.mem_singleton, forall_eq]

theorem quiet_flushAllOf (line : Bytes) :
    Quiet (flushAllOf line) ↔ ∀ t ∈ optionTexts line, FitsWord t := by
  unfold flushAllOf optionTexts
  cases cut space line with
  | mk word after =>
    cases after with
    | none => simp [quiet_ok]
    | some after =>
      simp only [List.mem_singleton, forall_eq]
      cases cut space after with
      | mk text after =>
        cases after with
        | none =>
            have hnoreply : FitsWord (ascii "noreply") := by decide
            by_cases htext : text = ascii "noreply"
            · simp [htext, quiet_ok, hnoreply]
            · simp only [htext, if_false, quiet_bind, quiet_stoulOr,
                Parse.pure_eq, quiet_ok, implies_true, and_true]
        | some after =>
            simp only [quiet_bind, quiet_stoulOr]
            constructor
            · intro h
              exact h.1
            · intro h
              refine ⟨h, fun _ _ => ?_⟩
              split
              · exact quiet_reply _
              · exact quiet_ok _

theorem quiet_extendRequest {input line data : Bytes}
    (f : Framed input line data) (now : Nat) :
    Quiet (extendRequest now input) ↔
      ∀ t ∈ extendTexts line data, FitsWord t := by
  have hshort := quiet_shortOf line data
  rw [extendRequest, cmdProcessCommon_short f, cmdProcessCommon_full f,
    extendTexts]
  cases hrequest : shortOf line data with
  | ok fields => rw [← hshort, hrequest]
  | error stop =>
      cases stop with
      | exception e => rw [← hshort, hrequest]
      | reply output =>
          have hfits : ∀ t ∈ shortTexts line data, FitsWord t := by
            rw [← hshort, hrequest]
            intro e h
            cases h
          simp only [List.forall_mem_append, quiet_commonOf]
          constructor
          · intro h
            exact ⟨hfits, h⟩
          · intro h
            exact h.2

/-! ## Handlers -/

section Handlers

variable {env : Env} {s : Store}

def Returns {α : Type} (env : Env) (p : Command α) (s : Store) : Prop :=
  ∀ e, p.run env ⟨s, Locks.free⟩ ≠ .error (.exception e)

theorem returns_of_safe {α : Type} {p : Command α} (hsafe : p.Safe) :
    Returns env p s := by
  intro e hrun
  refine Prog.Safe.run_error (Op.exec env) (fun t => t.locks = Locks.free)
    (fun e => ∃ e', e = .exception e') ?_ ?_ hsafe rfl hrun ⟨e, rfl⟩
  · intro op t a t' hfree hexec
    exact Op.exec_free hfree hexec
  · rintro op t e' hfree hexec ⟨e'', rfl⟩
    cases Op.exec_error hfree hexec

theorem returns_parsed {α : Type} {request : Parse α}
    {act : α → Command Response} (hsafe : ∀ a, (act a).Safe) :
    Returns env (parsed request act) s ↔ Quiet request := by
  cases request with
  | ok fields =>
      constructor
      · intro _
        exact quiet_ok _
      · intro _
        exact returns_of_safe (hsafe fields)
  | error stop =>
      cases stop with
      | reply output => simp [parsed, Returns, Quiet, Command.run]
      | exception e => simp [parsed, Returns, Quiet, Command.run]

theorem safe_insertAndAnswer (times : Times) (key flags value : Bytes)
    (expiry : Nat) (noreply : Bool) (output : Bytes) :
    (insertAndAnswer times key flags value expiry noreply output).Safe := by
  refine Prog.Safe.bind (.call fun _ => .done _) fun ret => ?_
  split
  · exact .done _
  · exact .done _

theorem returns_storage {request : Parse (Int × StorageStruct)}
    {act : StorageStruct → Command Response} (hsafe : ∀ a, (act a).Safe) :
    Returns env (storage request act) s ↔ Quiet request := by
  refine returns_parsed ?_
  rintro ⟨ret, store⟩
  simp only
  split
  · exact .done _
  · exact hsafe store

theorem safe_getLoop (withCas : Bool) (keys : List Bytes) :
    ∀ (clock : Nat → Nat) (output : Bytes),
      (getLoop withCas clock keys output).Safe := by
  induction keys with
  | nil =>
      intro clock output
      exact .done _
  | cons key keys ih =>
      intro clock output
      refine .call fun found => ?_
      cases found with
      | none => exact ih _ _
      | some element => exact ih _ _

theorem returns_set (times : Times) {input line data : Bytes}
    (f : Framed input line data) :
    Returns env (cmdProcessSet times input) s ↔
      ∀ t ∈ headerTexts false line data, FitsWord t := by
  rw [cmdProcessSet, returns_storage fun _ => safe_insertAndAnswer ..,
    cmdProcessCommon_full f, quiet_commonOf]

theorem returns_add (times : Times) {input line data : Bytes}
    (f : Framed input line data) :
    Returns env (cmdProcessAdd times input) s ↔
      ∀ t ∈ headerTexts false line data, FitsWord t := by
  rw [cmdProcessAdd, returns_storage, cmdProcessCommon_full f, quiet_commonOf]
  intro store
  refine Prog.Safe.bind (.call fun _ => .done _) fun ret => ?_
  split
  · exact .done _
  · split
    · exact .done _
    · exact .done _

theorem returns_replace (times : Times) {input line data : Bytes}
    (f : Framed input line data) :
    Returns env (cmdProcessReplace times input) s ↔
      ∀ t ∈ headerTexts false line data, FitsWord t := by
  rw [cmdProcessReplace, returns_storage, cmdProcessCommon_full f,
    quiet_commonOf]
  intro store
  refine .call fun found => ?_
  cases found with
  | none => exact .done _
  | some element => exact safe_insertAndAnswer ..

theorem returns_extend (join : Bytes → Bytes → Bytes) (times : Times)
    {input line data : Bytes} (f : Framed input line data) :
    Returns env (cmdProcessExtend join times input) s ↔
      ∀ t ∈ extendTexts line data, FitsWord t := by
  rw [cmdProcessExtend, returns_storage, quiet_extendRequest f]
  intro store
  refine .call fun found => ?_
  cases found with
  | none => exact .done _
  | some element => exact safe_insertAndAnswer ..

theorem returns_cas (times : Times) {input line data : Bytes}
    (f : Framed input line data) :
    Returns env (cmdProcessCas times input) s ↔
      ∀ t ∈ headerTexts true line data, FitsWord t := by
  rw [cmdProcessCas, returns_storage, cmdProcessCommon_full f, quiet_commonOf]
  intro store
  refine Prog.Safe.bind (.call fun _ => .done _) fun ret => ?_
  split
  · exact .done _
  · split
    · exact .done _
    · split
      · exact .done _
      · exact .done _

theorem returns_get (withCas : Bool) (times : Times) {input line data : Bytes}
    (f : Framed input line data) :
    Returns env (cmdProcessGetWith withCas times input) s := by
  rw [cmdProcessGetWith, returns_parsed, getKeys_eq f]
  · exact quiet_keysOf line
  · intro keys
    exact (safe_getLoop withCas keys _ _).bind fun _ => .done _

theorem returns_delete (times : Times) {input line data : Bytes}
    (f : Framed input line data) :
    Returns env (cmdProcessDelete times input) s := by
  rw [cmdProcessDelete, returns_parsed, deleteRequest_eq f]
  · exact quiet_deleteOf line
  · intro fields
    refine Prog.Safe.bind (.call fun _ => .done _) fun ret => ?_
    split
    · exact .done _
    · exact .done _

theorem returns_touch (times : Times) {input line data : Bytes}
    (f : Framed input line data) :
    Returns env (cmdProcessTouch times input) s ↔
      ∀ t ∈ argumentTexts line, FitsWord t := by
  rw [cmdProcessTouch, returns_parsed, touchRequest_eq f, quiet_touchOf]
  intro fields
  refine .call fun found => ?_
  cases found with
  | none => exact .done _
  | some element =>
      refine Prog.Safe.bind (.call fun _ => .done _) fun ret => ?_
      split
      · exact .done _
      · exact .done _

theorem returns_flushAll (times : Times) {input line data : Bytes}
    (f : Framed input line data) :
    Returns env (cmdProcessFlushAll times input) s ↔
      ∀ t ∈ optionTexts line, FitsWord t := by
  rw [cmdProcessFlushAll, returns_parsed, flushAllRequest_eq f,
    quiet_flushAllOf]
  intro fields
  exact .call fun _ => .done _

theorem returns_verbosity {input line data : Bytes}
    (f : Framed input line data) :
    Returns env (cmdProcessVerbosity input) s ↔
      ∀ t ∈ optionTexts line, FitsWord t := by
  rw [cmdProcessVerbosity, returns_parsed, verbosityRequest_eq f,
    quiet_verbosityOf]
  intro noreply
  exact .done _

/-- A counter meets numbers only: if its key is visible, both its argument and
the stored text convert. -/
def CountsNumbers (s : Store) (now : Nat) (line : Bytes) : Prop :=
  ∀ fields, counterOf line = .ok fields →
    ∀ it, (s.gKeyToValueHashMap (getHashTblNbrFromKey fields.1)).lookup
        fields.1 = some it →
      ¬ Dead s now it →
      isNumber fields.2.1 = true ∧ isNumber it.1.value = true

theorem uncaughtStoul_cases (text : Bytes) :
    (isNumber text = true ∧ ∃ n, uncaughtStoul text = .done n) ∨
      (isNumber text = false ∧
        ∃ e, uncaughtStoul text = .fail (.exception e)) := by
  unfold isNumber uncaughtStoul
  cases stoul text with
  | ok n => simp
  | error e => simp

private theorem returns_conversions (old value : Bytes)
    {k : Nat → Nat → Command Response} (hsafe : ∀ m n, (k m n).Safe) :
    Returns env (do
        let inputValue ← uncaughtStoul value
        let oldValue ← uncaughtStoul old
        k inputValue oldValue) s ↔
      isNumber value = true ∧ isNumber old = true := by
  rcases uncaughtStoul_cases value with ⟨hvalue, m, hm⟩ | ⟨hvalue, e, he⟩
  · rcases uncaughtStoul_cases old with ⟨hold, n, hn⟩ | ⟨hold, e, he⟩
    · simp only [hm, hn, Prog.done_bind, hvalue, hold, and_self, iff_true]
      exact returns_of_safe (hsafe m n)
    · simp [hm, he, hold, Returns, Command.run]
  · simp [he, hvalue, Returns, Command.run]

private theorem returns_counter_get (combine : Nat → Nat → Nat)
    (times : Times) (fields : Bytes × Bytes × Bool) :
    Returns env (parsed (.ok fields) fun (key, value, noreply) => do
        match ← Command.get (times.get 0) key with
        | none => return answer noreply (ascii "NOT_FOUND\r\n")
        | some element => do
            let inputValue ← uncaughtStoul value
            let oldValue ← uncaughtStoul element.value
            if inputValue = 0 ∧ noreply = false then
              return ⟨0, ascii "CLIENT_ERROR invalid format for value\r\n"⟩
            else do
              let storedValue := toDecimal (combine oldValue inputValue)
              insertAndAnswer times key element.flags storedValue
                element.expiry noreply (storedValue ++ crlf)) s ↔
      ∀ it, (s.gKeyToValueHashMap (getHashTblNbrFromKey fields.1)).lookup
          fields.1 = some it →
        ¬ Dead s (times.get 0) it →
        isNumber fields.2.1 = true ∧ isNumber it.1.value = true := by
  obtain ⟨key, value, noreply⟩ := fields
  simp only [parsed]
  unfold Returns
  simp only [run_get]
  cases hlookup :
      (s.gKeyToValueHashMap (getHashTblNbrFromKey key)).lookup key with
  | none => simp [getStep_absent hlookup, Command.run]
  | some it =>
      simp only [Option.some.injEq, forall_eq']
      by_cases hdead : Dead s (times.get 0) it
      · simp [getStep_dead hlookup hdead, hdead, Command.run]
      · simp only [getStep_live hlookup hdead, hdead, not_false_eq_true,
          forall_const]
        refine returns_conversions it.1.value value fun m n => ?_
        split
        · exact .done _
        · exact safe_insertAndAnswer ..

theorem returns_counter (combine : Nat → Nat → Nat) (times : Times)
    {input line data : Bytes} (f : Framed input line data) :
    Returns env (cmdProcessCounter combine times input) s ↔
      CountsNumbers s (times.get 0) line := by
  have hquiet := quiet_counterOf line
  rw [cmdProcessCounter, counterRequest_eq f]
  unfold CountsNumbers
  cases hfields : counterOf line with
  | error stop =>
      cases stop with
      | reply output => simp [parsed, Returns, Command.run]
      | exception e => exact absurd hfields (hquiet e)
  | ok fields =>
      simp only [Except.ok.injEq, forall_eq']
      exact returns_counter_get ..

end Handlers

/-! ## Commands -/

/-- Everything the request has converted is a number the code can take. -/
def Converts (s : Store) (now : Nat) (line data : Bytes) : Word → Prop
  | .set => ∀ t ∈ headerTexts false line data, FitsWord t
  | .add => ∀ t ∈ headerTexts false line data, FitsWord t
  | .replace => ∀ t ∈ headerTexts false line data, FitsWord t
  | .append => ∀ t ∈ extendTexts line data, FitsWord t
  | .prepend => ∀ t ∈ extendTexts line data, FitsWord t
  | .cas => ∀ t ∈ headerTexts true line data, FitsWord t
  | .incr => CountsNumbers s now line
  | .decr => CountsNumbers s now line
  | .touch => ∀ t ∈ argumentTexts line, FitsWord t
  | .flushAll => ∀ t ∈ optionTexts line, FitsWord t
  | .verbosity => ∀ t ∈ optionTexts line, FitsWord t
  | .get => True
  | .gets => True
  | .delete => True
  | .stats => True
  | .version => True
  | .quit => True

theorem returns_process {env : Env} {s : Store} (times : Times)
    {input line data : Bytes} (f : Framed input line data) (w : Word) :
    Returns env (w.process times input) s ↔
      Converts s (times.get 0) line data w := by
  cases w with
  | set => exact returns_set times f
  | add => exact returns_add times f
  | replace => exact returns_replace times f
  | append => exact returns_extend (fun value data => value ++ data) times f
  | prepend => exact returns_extend (fun value data => data ++ value) times f
  | cas => exact returns_cas times f
  | get => exact iff_true_intro (returns_get false times f)
  | gets => exact iff_true_intro (returns_get true times f)
  | delete => exact iff_true_intro (returns_delete times f)
  | incr => exact returns_counter _ times f
  | decr => exact returns_counter _ times f
  | touch => exact returns_touch times f
  | stats => exact iff_true_intro (returns_of_safe (.done _))
  | flushAll => exact returns_flushAll times f
  | version => exact iff_true_intro (returns_of_safe (.done _))
  | verbosity => exact returns_verbosity f
  | quit => exact iff_true_intro (returns_of_safe (.done _))

/-- A request that ends in CRLF lets no exception out exactly when its command
word is unknown or everything it has converted is a number that fits. -/
theorem cmdProcessCommand_returns_iff (env : Env) (times : Times) (s : Store)
    (input : Bytes) (hcrlf : crlf <:+ input)
    (hsize : input.length + 2 < wordSize) :
    (∀ e, (cmdProcessCommand times input).run env ⟨s, Locks.free⟩ ≠
        .error (.exception e)) ↔
      ∀ w, Word.ofBytes (commandWord input) = some w →
        Converts (handleFlush times.flush s) (times.get 0) (lineOf input)
          (afterLine input) w := by
  have f := framed_of_crlf hcrlf.isInfix hsize
  rw [cmdProcessCommand]
  simp only [run_handleFlushAll, dispatch]
  cases Word.ofBytes (commandWord input) with
  | none => simp [Command.run]
  | some w =>
      simp only [Option.some.injEq, forall_eq']
      exact returns_process times f w

/-- Adding to a counter that is not there lets no exception out, although the
argument is not a number. -/
theorem cmdProcessCommand_returns_missingCounter :
    crlf <:+ ascii "incr k x\r\n" ∧
    ∀ e, (cmdProcessCommand (.const 1000) (ascii "incr k x\r\n")).run Env.x86
      State.init ≠ .error (.exception e) := by
  refine ⟨⟨ascii "incr k x", by decide⟩, ?_⟩
  refine (cmdProcessCommand_returns_iff Env.x86 (.const 1000) Store.init
    (ascii "incr k x\r\n") ⟨ascii "incr k x", by decide⟩ (by decide)).mpr ?_
  intro w hw
  have hincr : Word.ofBytes (commandWord (ascii "incr k x\r\n")) =
      some .incr := by decide
  rw [hincr] at hw
  cases hw
  intro fields _ it hlookup
  simp [handleFlush, Store.init] at hlookup

/-- An expiry beyond 32 bits leaves `cmdProcessCommand` as an exception. -/
theorem cmdProcessCommand_throws_on_large_expiry :
    ¬ ∀ (env : Env) (times : Times) (s : Store) (input : Bytes),
      crlf <:+ input → input.length + 2 < wordSize →
        ∀ e, (cmdProcessCommand times input).run env ⟨s, Locks.free⟩ ≠
          .error (.exception e) := by
  intro hall
  have hthrown : ((cmdProcessCommand (.const 1000)
      (ascii "set k 0 99999999999 1\r\n")).run Env.x86 State.init).map
        Prod.fst = .error (.exception .outOfRange) := by decide +kernel
  cases hrun : (cmdProcessCommand (.const 1000)
      (ascii "set k 0 99999999999 1\r\n")).run Env.x86 State.init with
  | ok result =>
      rw [hrun] at hthrown
      contradiction
  | error e =>
      rw [hrun] at hthrown
      cases hthrown
      exact hall Env.x86 (.const 1000) Store.init _
        ⟨ascii "set k 0 99999999999 1", by decide⟩ (by decide) _ hrun

end Memstashed.Scmd
