import Memstashed.Scmd.Contents
import Memstashed.Scmd.Headers

/-!
# What a command answers

The commands as operations on a map from keys to values, flags and tokens.  Any
request, well formed or not, is answered as the map says, and the store is then
left with what the map has become, or with less.
-/

namespace Memstashed.Scmd

open Memstashed.Foundation
open Memstashed.Dblru

/-! ## The commands on the map -/

inductive Stores (store : StorageStruct) (c : Contents) :
    Word → Bytes → Contents → Prop
  | set {token : Bytes} :
      Stores store c .set (ascii "STORED\r\n")
        (c.put store.key (store.data, store.flags, token))
  | add {token : Bytes} :
      Stores store c .add (ascii "STORED\r\n")
        (c.put store.key (store.data, store.flags, token))
  | taken : c store.key ≠ none →
      Stores store c .add (ascii "NOT_STORED\r\n") c
  | replace {token : Bytes} : c store.key ≠ none →
      Stores store c .replace (ascii "STORED\r\n")
        (c.put store.key (store.data, store.flags, token))
  | append {value flags old token : Bytes} :
      c store.key = some (value, flags, old) →
      Stores store c .append (ascii "STORED\r\n")
        (c.put store.key (value ++ store.data, flags, token))
  | prepend {value flags old token : Bytes} :
      c store.key = some (value, flags, old) →
      Stores store c .prepend (ascii "STORED\r\n")
        (c.put store.key (store.data ++ value, flags, token))
  | missing {w : Word} : w = .replace ∨ w = .append ∨ w = .prepend →
      Stores store c w (ascii "NOT_STORED\r\n") (c.drop store.key)
  | cas {token : Bytes} :
      (store.casStr = [] ∨
        ∃ value flags, c store.key = some (value, flags, store.casStr)) →
      Stores store c .cas (ascii "STORED\r\n")
        (c.put store.key (store.data, store.flags, token))
  | changed {v : Bytes × Bytes × Bytes} : store.casStr ≠ [] →
      c store.key = some v → v.2.2 ≠ store.casStr →
      Stores store c .cas (ascii "EXISTS\r\n") c
  | absent : store.casStr ≠ [] →
      Stores store c .cas (ascii "NOT_FOUND\r\n") (c.drop store.key)
  | full (w : Word) : Stores store c w memoryFullText c

inductive Reads (withCas : Bool) :
    Contents → List Bytes → Bytes → Contents → Prop
  | nil (c : Contents) : Reads withCas c [] [] c
  | miss {c c' : Contents} {key : Bytes} {keys : List Bytes} {items : Bytes} :
      Reads withCas (c.drop key) keys items c' →
      Reads withCas c (key :: keys) items c'
  | hit {c c' : Contents} {key : Bytes} {keys : List Bytes} {items : Bytes}
      {element : Element} :
      c key = some (element.value, element.flags, element.cas) →
      Reads withCas c keys items c' →
      Reads withCas c (key :: keys) (valueItem withCas key element ++ items) c'

inductive Deletes (key : Bytes) (c : Contents) : Bytes → Contents → Prop
  | deleted : c key ≠ none →
      Deletes key c (ascii "DELETED\r\n") (c.drop key)
  | missing : Deletes key c (ascii "NOT_FOUND\r\n") c

inductive Counts (combine : Nat → Nat → Nat) (key value : Bytes)
    (noreply : Bool) (c : Contents) : Response → Contents → Prop
  | counted {old flags token token' : Bytes} {n m : Nat} :
      c key = some (old, flags, token) → stoul old = .ok n →
      stoul value = .ok m →
      Counts combine key value noreply c
        (answer noreply (toDecimal (combine n m) ++ crlf))
        (c.put key (toDecimal (combine n m), flags, token'))
  | missing :
      Counts combine key value noreply c
        (answer noreply (ascii "NOT_FOUND\r\n")) (c.drop key)
  | zero : c key ≠ none → stoul value = .ok 0 → noreply = false →
      Counts combine key value noreply c
        ⟨0, ascii "CLIENT_ERROR invalid format for value\r\n"⟩ c
  | full : c key ≠ none →
      Counts combine key value noreply c (answer noreply memoryFullText) c

inductive Touches (key : Bytes) (c : Contents) : Bytes → Contents → Prop
  | touched {value flags old token : Bytes} :
      c key = some (value, flags, old) →
      Touches key c (ascii "TOUCHED\r\n") (c.put key (value, flags, token))
  | lost : c key ≠ none →
      Touches key c (ascii "TOUCHED\r\n") (c.drop key)
  | missing : Touches key c (ascii "NOT_FOUND\r\n") (c.drop key)
  | full : c key ≠ none → Touches key c memoryFullText c

def Understood {α : Type} (request : Parse α) (c : Contents) (resp : Response)
    (c' : Contents) (act : α → Prop) : Prop :=
  match request with
  | .error (.reply output) => resp = ⟨0, output⟩ ∧ c' = c
  | .error (.exception _) => False
  | .ok fields => act fields

def Word.StorageAnswers (times : Times) (input : Bytes) (c : Contents)
    (resp : Response) (c' : Contents) (w : Word) : Prop :=
  Understood (w.storageRequest times.parse input) c resp c' fun (ret, store) =>
    if ret > 0 then resp = ⟨ret, []⟩ ∧ c' = c
    else ∃ output, Stores store c w output c' ∧
      resp = answer store.noreply output

def Word.Answers (times : Times) (input : Bytes) (c : Contents)
    (resp : Response) (c' : Contents) : Word → Prop
  | .get => Understood (getKeys input) c resp c' fun keys =>
      ∃ items, Reads false c keys items c' ∧
        resp = ⟨0, items ++ ascii "END\r\n"⟩
  | .gets => Understood (getKeys input) c resp c' fun keys =>
      ∃ items, Reads true c keys items c' ∧
        resp = ⟨0, items ++ ascii "END\r\n"⟩
  | .delete => Understood (deleteRequest input) c resp c' fun (key, noreply) =>
      ∃ output, Deletes key c output c' ∧ resp = answer noreply output
  | .incr => Understood (counterRequest input) c resp c'
      fun (key, value, noreply) =>
        Counts (fun oldValue inputValue => toWord (inputValue + oldValue)) key
          value noreply c resp c'
  | .decr => Understood (counterRequest input) c resp c'
      fun (key, value, noreply) =>
        Counts (fun oldValue inputValue =>
          if oldValue ≤ inputValue then 0 else oldValue - inputValue) key value
          noreply c resp c'
  | .touch => Understood (touchRequest input) c resp c'
      fun (key, _, noreply) =>
        ∃ output, Touches key c output c' ∧ resp = answer noreply output
  | .flushAll => Understood (flushAllRequest input) c resp c'
      fun (_, noreply) => c' = c ∧ resp = answer noreply (ascii "OK\r\n")
  | .verbosity => Understood (verbosityRequest input) c resp c' fun noreply =>
      c' = c ∧ resp = answer noreply (ascii "OK\r\n")
  | .version => c' = c ∧ resp = cmdProcessVersion input
  | .stats => c' = c ∧ resp = cmdProcessStats input
  | .quit => c' = c ∧ resp = cmdProcessQuit input
  | w => w.StorageAnswers times input c resp c'

theorem Word.answers_storage {w : Word} (hstores : w.stores = true)
    {times : Times} {input : Bytes} {c : Contents} {resp : Response}
    {c' : Contents} :
    w.Answers times input c resp c' =
      w.StorageAnswers times input c resp c' := by
  cases w with
  | set => rfl
  | add => rfl
  | replace => rfl
  | append => rfl
  | prepend => rfl
  | cas => rfl
  | _ => exact absurd hstores (by decide)

def Answers (times : Times) (input : Bytes) (c : Contents) (resp : Response)
    (c' : Contents) : Prop :=
  match Word.ofBytes (commandWord input) with
  | some w => w.Answers times input c resp c'
  | none => c' = c ∧ resp = ⟨0, ascii "ERROR\r\n"⟩

/-! ## The handlers -/

section Handlers

variable {c x c' : Contents} {resp : Response}

abbrev OnContents (p : Command Response) (c : Contents) (resp : Response)
    (c' : Contents) : Prop :=
  Prog.Over Contents.Steps p c resp c'

/-- The map does what `P` says, and then loses something. -/
def Amounts (P : Contents → Prop) (c' : Contents) : Prop :=
  ∃ y, P y ∧ Forgets y c'

theorem exists_does {op : Op} {f : op.Answer → Command Response}
    (hx : Forgets c x) (h : OnContents (.call op .done >>= f) x resp c') :
    ∃ a y z, Contents.Does c op a y ∧ Forgets y z ∧
      OnContents (f a) z resp c' := by
  obtain ⟨a, z, ⟨y, hdoes, hz⟩, hrest⟩ := h.of_call
  obtain ⟨y', hdoes', hy⟩ := hdoes.of_forgets hx
  exact ⟨a, y', z, hdoes', hy.trans hz, hrest⟩

theorem amounts_done {P : Contents → Prop} {resp' : Response}
    (hx : Forgets c x) (h : OnContents (.done resp') x resp c')
    (hP : resp = resp' → P c) : Amounts P c' := by
  obtain ⟨rfl, rfl⟩ := h.of_done
  exact ⟨c, hP rfl, hx⟩

theorem amounts_parsed {α : Type} {request : Parse α}
    {act : α → Command Response} {P : α → Contents → Prop}
    (hx : Forgets c x) (h : OnContents (parsed request act) x resp c')
    (hact : ∀ fields, OnContents (act fields) x resp c' →
      Amounts (P fields) c') :
    Amounts (fun y => Understood request c resp y fun fields => P fields y)
      c' := by
  cases request with
  | ok fields => exact hact fields h
  | error stop =>
      cases stop with
      | reply output => exact amounts_done hx h fun hresp => ⟨hresp, rfl⟩
      | exception e => contradiction

theorem amounts_insertAndAnswer {times : Times} {key flags value : Bytes}
    {expiry : Nat} {noreply : Bool} {output : Bytes} {P : Contents → Prop}
    (hx : Forgets c x)
    (h : OnContents (insertAndAnswer times key flags value expiry noreply output)
      x resp c')
    (hstored : ∀ token, resp = answer noreply output →
      P (c.put key (value, flags, token)))
    (hfull : resp = answer noreply memoryFullText → P c) : Amounts P c' := by
  obtain ⟨ret, y, z, hdoes, hz, hrest⟩ := exists_does hx h
  cases hdoes with
  | stored =>
      exact amounts_done hz hrest fun hresp => hstored _ hresp
  | changed htoken => exact absurd rfl htoken
  | absent htoken => exact absurd rfl htoken
  | full => exact amounts_done hz hrest hfull

theorem amounts_get {now : Nat} {key : Bytes}
    {f : Option Element → Command Response} {P : Contents → Prop}
    (hx : Forgets c x) (h : OnContents (Command.get now key >>= f) x resp c')
    (hmiss : ∀ z, Forgets (c.drop key) z → OnContents (f none) z resp c' →
      Amounts P c')
    (hhit : ∀ element z,
      c key = some (element.value, element.flags, element.cas) →
      Forgets c z → OnContents (f (some element)) z resp c' → Amounts P c') :
    Amounts P c' := by
  obtain ⟨found, y, z, hdoes, hz, hrest⟩ := exists_does hx h
  cases hdoes with
  | hit hfound => exact hhit _ z hfound hz hrest
  | miss => exact hmiss z hz hrest

/-! ### Storage commands -/

variable {store : StorageStruct} {times : Times}

abbrev AmountsToStore (store : StorageStruct) (c : Contents) (resp : Response)
    (w : Word) (c' : Contents) : Prop :=
  Amounts (fun y => ∃ output, Stores store c w output y ∧
    resp = answer store.noreply output) c'

theorem amounts_add (hx : Forgets c x)
    (h : OnContents (Word.add.storeStep times store) x resp c') :
    AmountsToStore store c resp .add c' := by
  obtain ⟨ret, y, z, hdoes, hz, hrest⟩ := exists_does hx h
  cases hdoes with
  | added => exact amounts_done hz hrest fun hresp => ⟨_, .add, hresp⟩
  | taken hthere =>
      exact amounts_done hz hrest fun hresp => ⟨_, .taken hthere, hresp⟩
  | noRoom => exact amounts_done hz hrest fun hresp => ⟨_, .full _, hresp⟩

theorem amounts_cas (hx : Forgets c x)
    (h : OnContents (Word.cas.storeStep times store) x resp c') :
    AmountsToStore store c resp .cas c' := by
  obtain ⟨ret, y, z, hdoes, hz, hrest⟩ := exists_does hx h
  cases hdoes with
  | stored htoken =>
      exact amounts_done hz hrest fun hresp => ⟨_, .cas htoken, hresp⟩
  | changed htoken hfound hne =>
      exact amounts_done hz hrest fun hresp =>
        ⟨_, .changed htoken hfound hne, hresp⟩
  | absent htoken =>
      exact amounts_done hz hrest fun hresp => ⟨_, .absent htoken, hresp⟩
  | full => exact amounts_done hz hrest fun hresp => ⟨_, .full _, hresp⟩

theorem amounts_replace (hx : Forgets c x)
    (h : OnContents (Word.replace.storeStep times store) x resp c') :
    AmountsToStore store c resp .replace c' := by
  refine amounts_get hx h (fun z hz hrest => ?_)
    fun element z hfound hz hrest => ?_
  · exact amounts_done hz hrest fun hresp => ⟨_, .missing (.inl rfl), hresp⟩
  · have hthere : c store.key ≠ none := by
      rw [hfound]
      exact Option.some_ne_none _
    exact amounts_insertAndAnswer hz hrest
      (fun token hresp => ⟨_, .replace hthere, hresp⟩)
      fun hresp => ⟨_, .full _, hresp⟩

theorem amounts_extend {w : Word} (join : Bytes → Bytes → Bytes)
    (hw : w = .replace ∨ w = .append ∨ w = .prepend)
    (hjoin : ∀ value flags old token,
      c store.key = some (value, flags, old) →
      Stores store c w (ascii "STORED\r\n")
        (c.put store.key (join value store.data, flags, token)))
    (hx : Forgets c x)
    (h : OnContents (Word.storeStep.extend times store join) x resp c') :
    AmountsToStore store c resp w c' := by
  refine amounts_get hx h (fun z hz hrest => ?_)
    fun element z hfound hz hrest => ?_
  · exact amounts_done hz hrest fun hresp => ⟨_, .missing hw, hresp⟩
  · exact amounts_insertAndAnswer hz hrest
      (fun token hresp => ⟨_, hjoin _ _ _ token hfound, hresp⟩)
      fun hresp => ⟨_, .full w, hresp⟩

theorem amounts_storeStep {w : Word} (hstores : w.stores = true)
    (hx : Forgets c x) (h : OnContents (w.storeStep times store) x resp c') :
    AmountsToStore store c resp w c' := by
  cases w with
  | set =>
      exact amounts_insertAndAnswer hx h
        (fun token hresp => ⟨_, .set, hresp⟩) fun hresp => ⟨_, .full _, hresp⟩
  | add => exact amounts_add hx h
  | replace => exact amounts_replace hx h
  | append =>
      exact amounts_extend (fun value data => value ++ data) (.inr (.inl rfl))
        (fun value flags old token hfound => .append hfound) hx h
  | prepend =>
      exact amounts_extend (fun value data => data ++ value) (.inr (.inr rfl))
        (fun value flags old token hfound => .prepend hfound) hx h
  | cas => exact amounts_cas hx h
  | _ => contradiction

/-! ### The other commands -/

theorem Reads.of_forgets {withCas : Bool} {keys : List Bytes} {items : Bytes}
    {y : Contents} (hx : Forgets c x) (h : Reads withCas x keys items y) :
    ∃ z, Reads withCas c keys items z ∧ Forgets z y := by
  induction h generalizing c with
  | nil => exact ⟨c, .nil c, hx⟩
  | miss _ ih =>
      obtain ⟨z, hreads, hz⟩ := ih (hx.update _ _)
      exact ⟨z, .miss hreads, hz⟩
  | hit hfound _ ih =>
      obtain ⟨z, hreads, hz⟩ := ih hx
      exact ⟨z, .hit (hx.eq_some hfound) hreads, hz⟩

theorem reads_getLoop {withCas : Bool} {keys : List Bytes} :
    ∀ {clock : Nat → Nat} {output result : Bytes} {x c' : Contents},
      Prog.Over Contents.Steps (getLoop withCas clock keys output) x result
        c' →
      ∃ items y, Reads withCas x keys items y ∧ Forgets y c' ∧
        result = output ++ items := by
  induction keys with
  | nil =>
      intro clock output result x c' h
      obtain ⟨hresult, rfl⟩ := h.of_done
      exact ⟨[], _, .nil _, .refl _, hresult.trans (List.append_nil _).symm⟩
  | cons key keys ih =>
      intro clock output result x c' h
      obtain ⟨found, z, ⟨y, hdoes, hz⟩, hrest⟩ := h.of_call
      cases hdoes with
      | hit hfound =>
          obtain ⟨items, y', hreads, hy', rfl⟩ := ih hrest
          obtain ⟨y'', hreads', hy''⟩ := hreads.of_forgets hz
          exact ⟨_, y'', .hit hfound hreads', hy''.trans hy',
            List.append_assoc _ _ _⟩
      | miss =>
          obtain ⟨items, y', hreads, hy', rfl⟩ := ih hrest
          obtain ⟨y'', hreads', hy''⟩ := hreads.of_forgets hz
          exact ⟨_, y'', .miss hreads', hy''.trans hy', rfl⟩

theorem amounts_getWith {withCas : Bool} {input : Bytes} (hx : Forgets c x)
    (h : OnContents (cmdProcessGetWith withCas times input) x resp c') :
    Amounts (fun y => Understood (getKeys input) c resp y fun keys =>
      ∃ items, Reads withCas c keys items y ∧
        resp = ⟨0, items ++ ascii "END\r\n"⟩) c' := by
  refine amounts_parsed hx h fun keys hkeys => ?_
  obtain ⟨output, z, hloop, hdone⟩ := hkeys.of_bind
  obtain ⟨rfl, rfl⟩ := hdone.of_done
  obtain ⟨items, y, hreads, hy, houtput⟩ := reads_getLoop hloop
  obtain ⟨y', hreads', hy'⟩ := hreads.of_forgets hx
  rw [houtput]
  exact ⟨y', ⟨items, hreads', rfl⟩, hy'.trans hy⟩

theorem amounts_delete {input : Bytes} (hx : Forgets c x)
    (h : OnContents (cmdProcessDelete times input) x resp c') :
    Amounts (fun y => Word.Answers times input c resp y .delete) c' := by
  refine amounts_parsed hx h fun fields hact => ?_
  obtain ⟨ret, y, z, hdoes, hz, hrest⟩ := exists_does hx hact
  cases hdoes with
  | deleted hthere =>
      exact amounts_done hz hrest fun hresp => ⟨_, .deleted hthere, hresp⟩
  | delayed _ hexpiry => exact absurd rfl hexpiry
  | notFound => exact amounts_done hz hrest fun hresp => ⟨_, .missing, hresp⟩

theorem over_uncaughtStoul {text : Bytes} {f : Nat → Command Response}
    (h : OnContents (uncaughtStoul text >>= f) x resp c') :
    ∃ n, stoul text = .ok n ∧ OnContents (f n) x resp c' := by
  unfold uncaughtStoul at h
  cases hstoul : stoul text with
  | ok n =>
      rw [hstoul] at h
      exact ⟨n, rfl, h⟩
  | error e =>
      rw [hstoul] at h
      contradiction

theorem amounts_counter {combine : Nat → Nat → Nat} {input : Bytes}
    (hx : Forgets c x)
    (h : OnContents (cmdProcessCounter combine times input) x resp c') :
    Amounts (fun y => Understood (counterRequest input) c resp y
      fun (key, value, noreply) =>
        Counts combine key value noreply c resp y) c' := by
  refine amounts_parsed hx h fun fields hact => ?_
  obtain ⟨key, value, noreply⟩ := fields
  refine amounts_get hx hact (fun z hz hrest => ?_)
    fun element z hfound hz hrest => ?_
  · exact amounts_done hz hrest fun hresp => hresp ▸ .missing
  · have hthere : c key ≠ none := by
      rw [hfound]
      exact Option.some_ne_none _
    obtain ⟨m, hvalue, hrest⟩ := over_uncaughtStoul hrest
    obtain ⟨n, hold, hrest⟩ := over_uncaughtStoul hrest
    by_cases hzero : m = 0 ∧ noreply = false
    · rw [if_pos hzero] at hrest
      refine amounts_done hz hrest fun hresp => hresp ▸ ?_
      exact .zero hthere (hzero.1 ▸ hvalue) hzero.2
    · rw [if_neg hzero] at hrest
      exact amounts_insertAndAnswer hz hrest
        (fun token hresp => hresp ▸ .counted hfound hold hvalue)
        fun hresp => hresp ▸ .full hthere

theorem amounts_touch {input : Bytes} (hx : Forgets c x)
    (h : OnContents (cmdProcessTouch times input) x resp c') :
    Amounts (fun y => Word.Answers times input c resp y .touch) c' := by
  refine amounts_parsed hx h fun fields hact => ?_
  obtain ⟨key, expTime, noreply⟩ := fields
  refine amounts_get hx hact (fun z hz hrest => ?_)
    fun element z hfound hz hrest => ?_
  · exact amounts_done hz hrest fun hresp => ⟨_, .missing, hresp⟩
  · have hthere : c key ≠ none := by
      rw [hfound]
      exact Option.some_ne_none _
    obtain ⟨ret, y, z', hdoes, hz', hrest⟩ := exists_does hz hrest
    cases hdoes with
    | stored =>
        exact amounts_done hz' hrest fun hresp => ⟨_, .touched hfound, hresp⟩
    | changed _ hfound' hne =>
        -- the token is the one that has just been read
        rw [hfound] at hfound'
        cases hfound'
        exact absurd rfl hne
    | absent =>
        exact amounts_done hz' hrest fun hresp => ⟨_, .lost hthere, hresp⟩
    | full =>
        exact amounts_done hz' hrest fun hresp => ⟨_, .full hthere, hresp⟩

theorem amounts_flushAll {input : Bytes} (hx : Forgets c x)
    (h : OnContents (cmdProcessFlushAll times input) x resp c') :
    Amounts (fun y => Word.Answers times input c resp y .flushAll) c' := by
  refine amounts_parsed hx h fun fields hact => ?_
  obtain ⟨ret, y, z, hdoes, hz, hrest⟩ := exists_does hx hact
  cases hdoes with
  | setFlushAll => exact amounts_done hz hrest fun hresp => ⟨rfl, hresp⟩

theorem amounts_process {w : Word} {input : Bytes} (hx : Forgets c x)
    (h : OnContents (w.process times input) x resp c') :
    Amounts (fun y => w.Answers times input c resp y) c' := by
  have hstorage : w.stores = true →
      Amounts (fun y => w.StorageAnswers times input c resp y) c' := by
    intro hstores
    rw [process_storage hstores] at h
    refine amounts_parsed hx h fun fields hact => ?_
    obtain ⟨ret, store⟩ := fields
    by_cases hret : ret > 0
    · simp only [hret, if_true] at hact ⊢
      exact amounts_done hx hact fun hresp => ⟨hresp, rfl⟩
    · simp only [hret, if_false] at hact ⊢
      exact amounts_storeStep hstores hx hact
  cases w with
  | get => exact amounts_getWith hx h
  | gets => exact amounts_getWith hx h
  | delete => exact amounts_delete hx h
  | incr => exact amounts_counter hx h
  | decr => exact amounts_counter hx h
  | touch => exact amounts_touch hx h
  | flushAll => exact amounts_flushAll hx h
  | verbosity =>
      exact amounts_parsed hx h fun fields hact =>
        amounts_done hx hact fun hresp => ⟨rfl, hresp⟩
  | version => exact amounts_done hx h fun hresp => ⟨rfl, hresp⟩
  | stats => exact amounts_done hx h fun hresp => ⟨rfl, hresp⟩
  | quit => exact amounts_done hx h fun hresp => ⟨rfl, hresp⟩
  | _ => exact hstorage rfl

end Handlers

/-! ## The commands on the store -/

theorem answers_of_over {times : Times} {input : Bytes} {c c' : Contents}
    {resp : Response}
    (h : OnContents (cmdProcessCommand times input) c resp c') :
    Amounts (Answers times input c resp) c' := by
  obtain ⟨a, y, z, hdoes, hz, hrest⟩ := exists_does (.refl _) h
  cases hdoes with
  | handleFlushAll =>
      unfold dispatch at hrest
      unfold Answers
      cases hword : Word.ofBytes (commandWord input) with
      | some w =>
          rw [hword] at hrest
          exact amounts_process hz hrest
      | none =>
          rw [hword] at hrest
          exact amounts_done hz hrest fun hresp => ⟨rfl, hresp⟩

/-- Whatever is sent and whatever is in the store, a command that returns has
answered as the map of keys says, and has left no more than the map has. -/
theorem answers_of_run {env : Env} {times : Times} {input : Bytes}
    {t t' : State} {resp : Response}
    (h : Command.run env (cmdProcessCommand times input) t = .ok (resp, t')) :
    Amounts (Answers times input t.store.contents resp) t'.store.contents :=
  answers_of_over (Prog.over_of_run (fun t => t.store.contents)
    (fun (op : Op) t a t' (hexec : op.exec env t = .ok (a, t')) =>
      steps_of_exec hexec) h)

/-! ## What a command leaves alone -/

def Word.Writes (input key : Bytes) : Word → Prop
  | .incr => ∃ value noreply, counterRequest input = .ok (key, value, noreply)
  | .decr => ∃ value noreply, counterRequest input = .ok (key, value, noreply)
  | w => w.stores = true ∧ ∃ now ret store,
      w.storageRequest now input = .ok (ret, store) ∧ store.key = key

def Writes (input key : Bytes) : Prop :=
  ∃ w, Word.ofBytes (commandWord input) = some w ∧ w.Writes input key

/-- What is there under the key has been there before, up to its token. -/
def Kept (c c' : Contents) (key : KeyType) : Prop :=
  ∀ value flags token, c' key = some (value, flags, token) →
    ∃ old, c key = some (value, flags, old)

section Kept

variable {c c' c'' : Contents} {key : KeyType} {times : Times} {input : Bytes}
  {resp : Response}

theorem Kept.trans (h : Kept c c' key) (h' : Kept c' c'' key) :
    Kept c c'' key := by
  intro value flags token hv
  obtain ⟨old, hold⟩ := h' value flags token hv
  exact h value flags old hold

theorem kept_of_forgets (h : Forgets c c') : Kept c c' key :=
  fun _ _ token hv => ⟨token, h.eq_some hv⟩

theorem kept_put_ne {other : KeyType} {v : Bytes × Bytes × Bytes}
    (hne : other ≠ key) : Kept c (c.put other v) key := by
  intro value flags token hv
  rw [Contents.put, Function.update_of_ne hne.symm] at hv
  exact ⟨token, hv⟩

theorem Stores.kept {store : StorageStruct} {w : Word} {output : Bytes}
    (h : Stores store c w output c') (hne : store.key ≠ key) :
    Kept c c' key := by
  cases h with
  | set => exact kept_put_ne hne
  | add => exact kept_put_ne hne
  | taken => exact kept_of_forgets (.refl c)
  | replace => exact kept_put_ne hne
  | append => exact kept_put_ne hne
  | prepend => exact kept_put_ne hne
  | missing => exact kept_of_forgets (forgets_drop c _)
  | cas => exact kept_put_ne hne
  | changed => exact kept_of_forgets (.refl c)
  | absent => exact kept_of_forgets (forgets_drop c _)
  | full => exact kept_of_forgets (.refl c)

theorem Reads.forgets {withCas : Bool} {keys : List Bytes} {items : Bytes}
    (h : Reads withCas c keys items c') : Forgets c c' := by
  induction h with
  | nil => exact .refl _
  | miss _ ih => exact (forgets_drop _ _).trans ih
  | hit _ _ ih => exact ih

theorem Deletes.forgets {other output : Bytes}
    (h : Deletes other c output c') : Forgets c c' := by
  cases h with
  | deleted => exact forgets_drop c other
  | missing => exact .refl c

theorem Counts.kept {combine : Nat → Nat → Nat} {other value : Bytes}
    {noreply : Bool} (h : Counts combine other value noreply c resp c')
    (hne : other ≠ key) : Kept c c' key := by
  cases h with
  | counted => exact kept_put_ne hne
  | missing => exact kept_of_forgets (forgets_drop c other)
  | zero => exact kept_of_forgets (.refl c)
  | full => exact kept_of_forgets (.refl c)

theorem Touches.kept {other output : Bytes}
    (h : Touches other c output c') : Kept c c' key := by
  cases h with
  | @touched value flags old token hfound =>
      by_cases hother : other = key
      · subst hother
        intro value' flags' token' hv
        rw [Contents.put, Function.update_self] at hv
        cases hv
        exact ⟨old, hfound⟩
      · exact kept_put_ne hother
  | lost => exact kept_of_forgets (forgets_drop c other)
  | missing => exact kept_of_forgets (forgets_drop c other)
  | full => exact kept_of_forgets (.refl c)

theorem kept_understood {α : Type} {request : Parse α} {act : α → Prop}
    (h : Understood request c resp c' act)
    (hact : ∀ fields, request = .ok fields → act fields → Kept c c' key) :
    Kept c c' key := by
  cases request with
  | ok fields => exact hact fields rfl h
  | error stop =>
      cases stop with
      | reply output => exact kept_of_forgets (h.2 ▸ .refl c)
      | exception e => exact h.elim

theorem Word.StorageAnswers.kept {w : Word}
    (h : w.StorageAnswers times input c resp c')
    (hwrites : ∀ now ret store,
      w.storageRequest now input = .ok (ret, store) → store.key ≠ key) :
    Kept c c' key := by
  refine kept_understood h fun fields hfields hact => ?_
  obtain ⟨ret, store⟩ := fields
  by_cases hret : ret > 0
  · simp only [hret, if_true] at hact
    exact kept_of_forgets (hact.2 ▸ .refl c)
  · simp only [hret, if_false] at hact
    obtain ⟨output, hstores, -⟩ := hact
    exact hstores.kept (hwrites _ ret store hfields)

theorem Word.Answers.kept {w : Word} (h : w.Answers times input c resp c')
    (hwrites : ¬ w.Writes input key) : Kept c c' key := by
  cases w with
  | get =>
      refine kept_understood h fun keys _ ⟨items, hreads, _⟩ => ?_
      exact kept_of_forgets hreads.forgets
  | gets =>
      refine kept_understood h fun keys _ ⟨items, hreads, _⟩ => ?_
      exact kept_of_forgets hreads.forgets
  | delete =>
      refine kept_understood h fun fields _ ⟨output, hdeletes, _⟩ => ?_
      exact kept_of_forgets hdeletes.forgets
  | incr =>
      refine kept_understood h fun fields hfields hcounts => ?_
      refine Counts.kept hcounts ?_
      rintro rfl
      exact hwrites ⟨_, _, hfields⟩
  | decr =>
      refine kept_understood h fun fields hfields hcounts => ?_
      refine Counts.kept hcounts ?_
      rintro rfl
      exact hwrites ⟨_, _, hfields⟩
  | touch =>
      exact kept_understood h fun fields _ ⟨output, htouches, _⟩ =>
        htouches.kept
  | flushAll =>
      exact kept_understood h fun fields _ hact =>
        kept_of_forgets (hact.1 ▸ .refl c)
  | verbosity =>
      exact kept_understood h fun fields _ hact =>
        kept_of_forgets (hact.1 ▸ .refl c)
  | version => exact kept_of_forgets (h.1 ▸ .refl c)
  | stats => exact kept_of_forgets (h.1 ▸ .refl c)
  | quit => exact kept_of_forgets (h.1 ▸ .refl c)
  | _ =>
      exact Word.StorageAnswers.kept h fun now ret store hstore hkey =>
        hwrites ⟨rfl, now, ret, store, hstore, hkey⟩

theorem Answers.kept (h : Answers times input c resp c')
    (hwrites : ¬ Writes input key) : Kept c c' key := by
  unfold Answers at h
  cases hword : Word.ofBytes (commandWord input) with
  | some w =>
      rw [hword] at h
      exact h.kept fun hkey => hwrites ⟨w, hword, hkey⟩
  | none =>
      rw [hword] at h
      exact kept_of_forgets (h.1 ▸ .refl c)

theorem kept_of_amounts (h : Amounts (Answers times input c resp) c')
    (hwrites : ¬ Writes input key) : Kept c c' key := by
  obtain ⟨y, hanswers, hforgets⟩ := h
  exact (hanswers.kept hwrites).trans (kept_of_forgets hforgets)

def HoldsOnly (c : Contents) (key value flags : Bytes) : Prop :=
  ∀ v, c key = some v → v.1 = value ∧ v.2.1 = flags

theorem HoldsOnly.of_kept {key value flags : Bytes}
    (h : HoldsOnly c key value flags) (hkept : Kept c c' key) :
    HoldsOnly c' key value flags := by
  rintro ⟨value', flags', token⟩ hv
  obtain ⟨old, hold⟩ := hkept value' flags' token hv
  exact h (value', flags', old) hold

theorem holdsOnly_put (c : Contents) (key value flags token : Bytes) :
    HoldsOnly (c.put key (value, flags, token)) key value flags := by
  intro v hv
  rw [Contents.put, Function.update_self] at hv
  cases hv
  exact ⟨rfl, rfl⟩

theorem Stores.holdsOnly {store : StorageStruct} {w : Word}
    (h : Stores store c w output c') (hstored : output = ascii "STORED\r\n")
    (happend : w ≠ .append) (hprepend : w ≠ .prepend) :
    HoldsOnly c' store.key store.data store.flags := by
  cases h with
  | set => exact holdsOnly_put c _ _ _ _
  | add => exact holdsOnly_put c _ _ _ _
  | replace => exact holdsOnly_put c _ _ _ _
  | cas => exact holdsOnly_put c _ _ _ _
  | append => exact absurd rfl happend
  | prepend => exact absurd rfl hprepend
  | taken => exact absurd hstored (by decide)
  | missing => exact absurd hstored (by decide)
  | changed => exact absurd hstored (by decide)
  | absent => exact absurd hstored (by decide)
  | full => exact absurd hstored (by decide)

end Kept

/-- Under a key that a command does not write, nothing comes up that was not
there, whatever is evicted, has expired or is flushed on the way. -/
theorem others_kept {env : Env} {times : Times} {input key : Bytes}
    {t t' : State} {resp : Response}
    (h : Command.run env (cmdProcessCommand times input) t = .ok (resp, t'))
    (hwrites : ¬ Writes input key) :
    Kept t.store.contents t'.store.contents key :=
  kept_of_amounts (answers_of_run h) hwrites

def counterStored : Store :=
  (Store.init.setEntry (getHashTblNbrFromKey (ascii "k")) (ascii "k")
    (⟨wordMax, ascii "x", ascii "0", ascii "42"⟩, 0)).setEntry
    (getHashTblNbrFromKey (ascii "j")) (ascii "j")
    (⟨wordMax, ascii "5", ascii "0", ascii "43"⟩, 1)

theorem others_kept_incr :
    ∃ resp t', Command.run Env.x86
        (cmdProcessCommand (.const 1000) (ascii "incr j 1\r\n"))
        ⟨counterStored, Locks.free⟩ = .ok (resp, t') ∧
      (resp.output, t'.store.contents (ascii "k")) =
        (ascii "6\r\n", some (ascii "x", ascii "0", ascii "42")) ∧
      Kept counterStored.contents t'.store.contents (ascii "k") := by
  have hwrites : ¬ Writes (ascii "incr j 1\r\n") (ascii "k") := by
    rintro ⟨w, hword, hkey⟩
    have hincr : Word.ofBytes (commandWord (ascii "incr j 1\r\n")) =
      some .incr := by decide
    have hread : counterRequest (ascii "incr j 1\r\n") =
      .ok (ascii "j", ascii "1", false) := by decide
    rw [hincr] at hword
    cases hword
    obtain ⟨value, noreply, hrequest⟩ := hkey
    rw [hread] at hrequest
    have hsame : ascii "j" = ascii "k" :=
      congrArg Prod.fst (Except.ok.inj hrequest)
    exact absurd hsame (by decide)
  have hobserve : (Command.run Env.x86
      (cmdProcessCommand (.const 1000) (ascii "incr j 1\r\n"))
      ⟨counterStored, Locks.free⟩).toOption.map
        (fun result => (result.1.output, result.2.store.contents (ascii "k"))) =
      some (ascii "6\r\n", some (ascii "x", ascii "0", ascii "42")) := by
    decide +kernel
  cases hrun : Command.run Env.x86
      (cmdProcessCommand (.const 1000) (ascii "incr j 1\r\n"))
      ⟨counterStored, Locks.free⟩ with
  | ok result =>
      obtain ⟨resp, t'⟩ := result
      rw [hrun] at hobserve
      exact ⟨resp, t', rfl, Option.some.inj hobserve, others_kept hrun hwrites⟩
  | error e =>
      rw [hrun] at hobserve
      contradiction

end Memstashed.Scmd
