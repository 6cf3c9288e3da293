import Memstashed.Scmd.Rewriting
import Memstashed.Scmd.Runs
import Memstashed.Scmd.Silence

/-!
# Counting

The value of an item is a text.  `incr` and `decr` read it as a number, and what
they store is a number written out again; so a sequence of them works on the
item as a fold does on the number.
-/

namespace Memstashed.Scmd

open Memstashed.Foundation
open Memstashed.Dblru

structure CounterRequest where
  up : Bool
  delta : Bytes
  noreply : Bool
  now : Nat
  deriving DecidableEq, Repr

namespace CounterRequest

def word (q : CounterRequest) : Word := if q.up then .incr else .decr

def line (q : CounterRequest) (key : Bytes) : Bytes :=
  ascii q.word.text ++ space :: (key ++ space :: q.delta)

def request (q : CounterRequest) (key : Bytes) : Request :=
  ⟨.const q.now, requestOf (q.line key) [] q.noreply⟩

/-- What the request is to do to the number: an `incr` wraps around, and a
`decr` stops at zero. -/
def apply (x : Nat) (q : CounterRequest) : Nat :=
  if q.up then (x + digitsValue q.delta) % 2 ^ 32 else x - digitsValue q.delta

structure WellFormed (q : CounterRequest) (key : Bytes) : Prop where
  delta : Digits q.delta
  pos : 1 ≤ digitsValue q.delta
  fits : digitsValue q.delta < 2 ^ 32
  small : (requestOf (q.line key) [] q.noreply).length + 2 < wordSize

end CounterRequest

structure Counter (s : Store) (key flags : Bytes) (x : Nat) : Prop where
  fits : x < 2 ^ 32
  item : ∃ it, s.entry key = some it ∧ Digits it.1.value ∧
    digitsValue it.1.value = x ∧ it.1.flags = flags

def serveEach (env : Env) :
    List Request → State → Except Fault (List (Response × State))
  | [], _ => .ok []
  | q :: qs, t => do
      let (resp, t') ← q.serve env t
      let rest ← serveEach env qs t'
      return (resp, t') :: rest

/-- Each request finds the item live, and there is room for the number that it
makes of `x` without an eviction. -/
def StaysLive (env : Env) (key : Bytes) :
    List CounterRequest → Nat → State → Prop
  | [], _, _ => True
  | q :: qs, x, t =>
      (∃ it ∈ (handleFlush q.now t.store).entry key,
        ¬ Dead (handleFlush q.now t.store) q.now it ∧
          insertFits env key it.1.flags
            (insertToken env q.now (handleFlush q.now t.store))
            (toDecimal (q.apply x)) (handleFlush q.now t.store)) ∧
        match (q.request key).serve env t with
        | .ok (_, t') => StaysLive env key qs (q.apply x) t'
        | .error _ => True

instance decidableStaysLive (env : Env) (key : Bytes) :
    ∀ qs x t, Decidable (StaysLive env key qs x t)
  | [], _, _ => .isTrue trivial
  | q :: qs, x, t =>
      @instDecidableAnd _ _ inferInstance
        (match (q.request key).serve env t with
        | .ok (_, t') => decidableStaysLive env key qs (q.apply x) t'
        | .error _ => .isTrue trivial)

section Requests

variable {env : Env} {s : Store} {key flags : Bytes} {x : Nat}
  {q : CounterRequest}

theorem CounterRequest.word_cases (q : CounterRequest) :
    q.word = .incr ∨ q.word = .decr ∨ q.word = .touch := by
  unfold word
  split
  · exact .inl rfl
  · exact .inr (.inl rfl)

theorem CounterRequest.plainLine (q : CounterRequest) (hkey : OneWord key)
    (hvalid : q.WellFormed key) : PlainLine q.word (q.line key) :=
  .keyed q.word_cases hkey (oneWord_of_digits hvalid.delta)

def CounterRequest.combine (q : CounterRequest) (oldValue inputValue : Nat) :
    Nat :=
  if q.up then toWord (inputValue + oldValue)
  else if oldValue ≤ inputValue then 0 else oldValue - inputValue

theorem CounterRequest.combine_eq (x : Nat) :
    q.combine x (digitsValue q.delta) = q.apply x := by
  have hword : (2 : Nat) ^ 32 = 4294967296 := by decide
  unfold combine apply
  split
  · rw [toWord, Nat.add_comm, hword]
  · split
    · omega
    · rfl

theorem CounterRequest.process_eq (q : CounterRequest) (times : Times)
    (input : Bytes) :
    q.word.process times input = cmdProcessCounter q.combine times input := by
  unfold word
  cases hup : q.up with
  | true =>
      have hcombine : q.combine = fun oldValue inputValue =>
          toWord (inputValue + oldValue) := by
        funext oldValue inputValue
        rw [combine, if_pos hup]
      rw [hcombine]
      rfl
  | false =>
      have hcombine : q.combine = fun oldValue inputValue =>
          if oldValue ≤ inputValue then 0 else oldValue - inputValue := by
        funext oldValue inputValue
        rw [combine, hup, if_neg Bool.false_ne_true]
      rw [hcombine]
      rfl

theorem CounterRequest.apply_lt (hx : x < 2 ^ 32) : q.apply x < 2 ^ 32 := by
  unfold apply
  split
  · omega
  · omega

theorem entry_handleFlush (now : Nat) (s : Store) (key : KeyType) :
    (handleFlush now s).entry key = s.entry key := by
  unfold handleFlush
  split
  · rfl
  · rfl

theorem run_counter (combine : Nat → Nat → Nat) (times : Times)
    {input text : Bytes} {noreply : Bool} {it : MapEntry} {d : Nat}
    (hparse : counterRequest input = .ok (key, text, noreply))
    (hdelta : stoul text = .ok d) (hpos : 1 ≤ d) (hit : s.entry key = some it)
    (hlive : ¬ Dead s (times.get 0) it) (hold : stoul it.1.value = .ok x)
    (hfits : insertFits env key it.1.flags (insertToken env times.write.now s)
      (toDecimal (combine x d)) s) :
    ∃ s', (cmdProcessCounter combine times input).run env ⟨s, Locks.free⟩ =
        .ok (answer noreply (toDecimal (combine x d) ++ crlf),
          ⟨s', Locks.free⟩) ∧
      Rewritten s s' key it (toDecimal (combine x d))
        (toWord (times.write.now + wordSub it.1.expiry (times.get 0))) := by
  have hnonzero : ¬ (d = 0 ∧ noreply = false) := by omega
  simp only [cmdProcessCounter, parsed, hparse]
  refine rewrite_run hit hlive ?_ hfits
  simp only [uncaughtStoul, hdelta, hold, Prog.done_bind, hnonzero, if_false]

theorem counter_step (hkey : OneWord key) (hvalid : q.WellFormed key)
    (hcounter : Counter s key flags x) {qs : List CounterRequest}
    (hlive : StaysLive env key (q :: qs) x ⟨s, Locks.free⟩) :
    ∃ s', (q.request key).serve env ⟨s, Locks.free⟩ =
        .ok (answer q.noreply (toDecimal (q.apply x) ++ crlf),
          ⟨s', Locks.free⟩) ∧
      ∃ it, s'.entry key = some it ∧ it.1.value = toDecimal (q.apply x) ∧
        it.1.flags = flags := by
  obtain ⟨it, hit, hdigits, hvalue, hflags⟩ := hcounter.item
  obtain ⟨⟨it', hit', hnotDead, hfits⟩, -⟩ := hlive
  have hthere : (handleFlush q.now s).entry key = some it := by
    rw [entry_handleFlush, hit]
  have hsame : it = it' := by
    rw [Option.mem_def, hthere] at hit'
    exact Option.some.inj hit'
  subst hsame
  have hword : wordMax = 2 ^ 32 - 1 := by decide
  have hold : stoul it.1.value = .ok x := by
    rw [← hvalue]
    apply stoul_of_digits hdigits
    have := hcounter.fits
    omega
  have hdelta : stoul q.delta = .ok (digitsValue q.delta) := by
    apply stoul_of_digits hvalid.delta
    have := hvalid.fits
    omega
  have hparse : counterRequest (requestOf (q.line key) [] q.noreply) =
      .ok (key, q.delta, q.noreply) :=
    counterRequest_requestOf q.word_cases hkey
      (oneWord_of_digits hvalid.delta) q.noreply hvalid.small
  have hserve : (q.request key).serve env ⟨s, Locks.free⟩ =
      (cmdProcessCounter q.combine (.const q.now)
        (requestOf (q.line key) [] q.noreply)).run env
          ⟨handleFlush q.now s, Locks.free⟩ := by
    rw [← q.process_eq, ← dispatch_requestOf (q.plainLine hkey hvalid)]
    exact run_handleFlushAll q.now _
  rw [hserve]
  rw [← q.combine_eq x] at hfits ⊢
  obtain ⟨s', hrun, hrewritten⟩ :=
    run_counter q.combine (.const q.now) hparse hdelta hvalid.pos hthere
      hnotDead hold hfits
  obtain ⟨it', hit', hvalue', hflags', -⟩ := hrewritten.entry
  exact ⟨s', hrun, it', hit', hvalue', hflags'.trans hflags⟩

theorem Counter.of_toDecimal (hx : x < 2 ^ 32)
    (hitem : ∃ it, s.entry key = some it ∧ it.1.value = toDecimal x ∧
      it.1.flags = flags) : Counter s key flags x := by
  obtain ⟨it, hit, hvalue, hflags⟩ := hitem
  refine ⟨hx, it, hit, ?_, ?_, hflags⟩
  · rw [hvalue]
    exact toDecimal_digits x
  · rw [hvalue]
    exact digitsValue_toDecimal x

end Requests

def shownItem (s : Store) (key : KeyType) : Option (Bytes × Bytes) :=
  (s.entry key).map fun it => (it.1.value, it.1.flags)

theorem serveEach_cons {env : Env} {q : Request} {qs : List Request}
    {t t' : State} {resp : Response} {rest : List (Response × State)}
    (hserve : q.serve env t = .ok (resp, t'))
    (hrest : serveEach env qs t' = .ok rest) :
    serveEach env (q :: qs) t = .ok ((resp, t') :: rest) := by
  unfold serveEach
  rw [hserve]
  change (serveEach env qs t' >>= fun rest => .ok ((resp, t') :: rest)) = _
  rw [hrest]
  rfl

private theorem scanl_eq_cons {α β : Type} (f : β → α → β) (b : β)
    (l : List α) : l.scanl f b = b :: (l.scanl f b).tail := by
  cases l with
  | nil => rfl
  | cons a l => rw [List.scanl_cons, List.tail_cons]

/-- Any number of `incr` and `decr` requests on a live item succeed.  The item
goes through the numbers of the fold, each written out, each reply is the number
just stored, and the flags stay. -/
theorem counters_fold (env : Env) (key flags : Bytes)
    (qs : List CounterRequest) (s : Store) (v : Nat) (hkey : OneWord key)
    (hvalid : ∀ q ∈ qs, q.WellFormed key) (hcounter : Counter s key flags v)
    (hlive : StaysLive env key qs v ⟨s, Locks.free⟩) :
    ∃ trace, serveEach env (qs.map fun q => q.request key) ⟨s, Locks.free⟩ =
        .ok trace ∧
      trace.map Prod.fst = List.zipWith
        (fun q x => answer q.noreply (toDecimal x ++ crlf)) qs
        (qs.scanl CounterRequest.apply v).tail ∧
      trace.map (fun served => shownItem served.2.store key) =
        (qs.scanl CounterRequest.apply v).tail.map
          fun x => some (toDecimal x, flags) := by
  induction qs generalizing s v with
  | nil => exact ⟨[], rfl, rfl, rfl⟩
  | cons q qs ih =>
      obtain ⟨s', hserve, hitem⟩ :=
        counter_step hkey (hvalid q List.mem_cons_self) hcounter hlive
      have hnext : Counter s' key flags (q.apply v) :=
        .of_toDecimal (q.apply_lt hcounter.fits) hitem
      have hrest := hlive.2
      rw [hserve] at hrest
      obtain ⟨trace, htrace, hreplies, hshown⟩ :=
        ih s' (q.apply v) (fun p hp => hvalid p (List.mem_cons_of_mem q hp))
          hnext hrest
      have hitemShown : shownItem s' key =
          some (toDecimal (q.apply v), flags) := by
        obtain ⟨it, hit, hvalue, hflags⟩ := hitem
        simp only [shownItem, hit, Option.map_some, hvalue, hflags]
      have hfold : ((q :: qs).scanl CounterRequest.apply v).tail =
          q.apply v :: (qs.scanl CounterRequest.apply (q.apply v)).tail := by
        rw [List.scanl_cons, List.tail_cons]
        exact scanl_eq_cons _ _ _
      refine ⟨(answer q.noreply (toDecimal (q.apply v) ++ crlf),
        ⟨s', Locks.free⟩) :: trace, ?_, ?_, ?_⟩
      · exact serveEach_cons hserve htrace
      · rw [hfold, List.zipWith_cons_cons, List.map_cons, hreplies]
      · rw [hfold, List.map_cons, List.map_cons, hitemShown, hshown]

def largestStored : Store :=
  Store.init.setEntry (getHashTblNbrFromKey (ascii "k")) (ascii "k")
    (⟨2000, ascii "4294967295", ascii "7", ascii "42"⟩, 0)

def upUpDown : List CounterRequest :=
  [⟨true, ascii "1", false, 1000⟩, ⟨true, ascii "2", true, 1000⟩,
    ⟨false, ascii "5", false, 1001⟩]

/-- It goes to 0, to 2, and to 0 again. -/
theorem counters_fold_wraps :
    ∃ trace, serveEach Env.x86
        (upUpDown.map fun q => q.request (ascii "k"))
        ⟨largestStored, Locks.free⟩ = .ok trace ∧
      trace.map Prod.fst = List.zipWith
        (fun q x => answer q.noreply (toDecimal x ++ crlf)) upUpDown
        (upUpDown.scanl CounterRequest.apply 4294967295).tail ∧
      trace.map (fun served => shownItem served.2.store (ascii "k")) =
        (upUpDown.scanl CounterRequest.apply 4294967295).tail.map
          fun x => some (toDecimal x, ascii "7") :=
  counters_fold Env.x86 (ascii "k") (ascii "7") upUpDown largestStored
    4294967295 (by decide)
    (by
      intro q hq
      simp only [upUpDown, List.mem_cons, List.not_mem_nil, or_false] at hq
      rcases hq with rfl | rfl | rfl
      · exact ⟨by decide, by decide, by decide, by decide⟩
      · exact ⟨by decide, by decide, by decide, by decide⟩
      · exact ⟨by decide, by decide, by decide, by decide⟩)
    ⟨by decide, _, rfl, by decide, rfl, rfl⟩ (by decide +kernel)

end Memstashed.Scmd
