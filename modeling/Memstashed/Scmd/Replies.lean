import Memstashed.Scmd.Flags
import Memstashed.Scmd.OneLine

/-!
# Reading an answer back

An answer to `get` or `gets` is a list of items and an end.  A client that goes
by the byte counts finds the items again, whatever the values contain, because
keys, flags and tokens are single words: the flags are a field of a request
line, the tokens are numbers.
-/

namespace Memstashed.Scmd

open Memstashed.Foundation
open Memstashed.Dblru

/-! ## The reader -/

structure Item where
  key : Bytes
  flags : Bytes
  value : Bytes
  cas : Option Bytes
  deriving DecidableEq, Repr

def readLine (s : Bytes) : Option (Bytes × Bytes) :=
  (find? crlf s).map fun i => (s.take i, s.drop (i + 2))

def readBlock (n : Nat) (s : Bytes) : Option (Bytes × Bytes) :=
  if crlf <+: s.drop n then some (s.take n, s.drop (n + 2)) else none

def readHeader (withCas : Bool) (line : Bytes) :
    Option (Bytes × Bytes × Nat × Option Bytes) :=
  match withCas, line.splitOn space with
  | false, [word, key, flags, len] =>
      if word = ascii "VALUE" ∧ Digits len then
        some (key, flags, digitsValue len, none)
      else none
  | true, [word, key, flags, len, cas] =>
      if word = ascii "VALUE" ∧ Digits len then
        some (key, flags, digitsValue len, some cas)
      else none
  | _, _ => none

/-- The items up to `END`, in at most so many turns; nothing may follow. -/
def readItems (withCas : Bool) : Nat → Bytes → Option (List Item)
  | 0, _ => none
  | turns + 1, s => do
      let (line, rest) ← readLine s
      if line = ascii "END" then
        if rest = [] then some [] else none
      else do
        let (key, flags, n, cas) ← readHeader withCas line
        let (value, rest) ← readBlock n rest
        let items ← readItems withCas turns rest
        return ⟨key, flags, value, cas⟩ :: items

def readAnswer (withCas : Bool) (output : Bytes) : Option (List Item) :=
  readItems withCas (output.length + 1) output

/-! ## The items of an answer -/

def hits : (Nat → Nat) → List Bytes → Store → List (Bytes × ValueStruct)
  | _, [], _ => []
  | clock, key :: keys, s =>
      let rest := hits (fun i => clock (i + 1)) keys (getStep (clock 0) key s).2
      match liveValue s (clock 0) key with
      | none => rest
      | some v => (key, v) :: rest

def itemOf (withCas : Bool) (hit : Bytes × ValueStruct) : Item where
  key := hit.1
  flags := hit.2.flags
  value := hit.2.value
  cas := if withCas then some hit.2.casUniq else none

def itemText (withCas : Bool) (hit : Bytes × ValueStruct) : Bytes :=
  valueItem withCas hit.1
    ⟨hit.2.flags, hit.2.casUniq, hit.2.value, hit.2.expiry⟩

def keysRequest (word : Bytes) (keys : List Bytes) : Bytes :=
  word ++ space :: ([space].intercalate keys ++ crlf)

/-! ## Reading one item -/

section Reading

variable {withCas : Bool} {turns : Nat}

theorem readLine_append {line : Bytes} (hline : ¬ crlf <:+: line)
    (rest : Bytes) : readLine (line ++ (crlf ++ rest)) = some (line, rest) := by
  have hdrop : (line ++ (crlf ++ rest)).drop (line.length + 2) = rest := by
    rw [← List.drop_drop, List.drop_left]
    rfl
  rw [readLine, find?_crlf hline, Option.map_some, List.take_left, hdrop]

theorem readBlock_append (value rest : Bytes) :
    readBlock value.length (value ++ (crlf ++ rest)) = some (value, rest) := by
  have hdrop : (value ++ (crlf ++ rest)).drop (value.length + 2) = rest := by
    rw [← List.drop_drop, List.drop_left]
    rfl
  rw [readBlock, List.drop_left, if_pos (List.prefix_append _ _),
    List.take_left, hdrop]

def itemLine (withCas : Bool) (hit : Bytes × ValueStruct) : Bytes :=
  ascii "VALUE" ++ space :: (hit.1 ++ space :: (hit.2.flags ++ space ::
    (toDecimal hit.2.value.length ++
      if withCas then space :: hit.2.casUniq else [])))

theorem itemText_eq (withCas : Bool) (hit : Bytes × ValueStruct) :
    itemText withCas hit =
      itemLine withCas hit ++ (crlf ++ (hit.2.value ++ crlf)) := by
  have hword : ascii "VALUE " = ascii "VALUE" ++ [space] := rfl
  have hspace : ascii " " = [space] := rfl
  cases withCas with
  | true => simp [itemText, itemLine, valueItem, hword, hspace]
  | false => simp [itemText, itemLine, valueItem, hword, hspace]

variable {hit : Bytes × ValueStruct} (hkey : OneWord hit.1)
  (hflags : OneWord hit.2.flags) (hcas : OneWord hit.2.casUniq)

include hkey hflags hcas

theorem oneLine_itemLine : ¬ crlf <:+: itemLine withCas hit := by
  have hlen := (oneWord_of_digits (toDecimal_digits hit.2.value.length)).2
  refine oneLine_append (by decide) (oneLine_append hkey.2
    (oneLine_append hflags.2 ?_))
  cases withCas with
  | true => exact oneLine_append hlen hcas.2
  | false =>
      rw [if_neg Bool.false_ne_true, List.append_nil]
      exact hlen

theorem readHeader_itemLine :
    readHeader withCas (itemLine withCas hit) =
      some (hit.1, hit.2.flags, hit.2.value.length,
        if withCas then some hit.2.casUniq else none) := by
  have hword : space ∉ ascii "VALUE" := by decide
  have hdigits := toDecimal_digits hit.2.value.length
  have hlen := hdigits.noSpace
  unfold readHeader itemLine
  cases withCas with
  | true =>
      simp only [if_true, List.splitOn_append_cons_self_of_not_mem hword,
        List.splitOn_append_cons_self_of_not_mem hkey.1,
        List.splitOn_append_cons_self_of_not_mem hflags.1,
        List.splitOn_append_cons_self_of_not_mem hlen,
        List.splitOn_eq_singleton hcas.1, hdigits, and_self,
        digitsValue_toDecimal]
  | false =>
      simp only [if_neg Bool.false_ne_true, List.append_nil,
        List.splitOn_append_cons_self_of_not_mem hword,
        List.splitOn_append_cons_self_of_not_mem hkey.1,
        List.splitOn_append_cons_self_of_not_mem hflags.1,
        List.splitOn_eq_singleton hlen, hdigits, and_self, if_true,
        digitsValue_toDecimal]

theorem readItems_itemText (rest : Bytes) :
    readItems withCas (turns + 1) (itemText withCas hit ++ rest) =
      (readItems withCas turns rest).map (itemOf withCas hit :: ·) := by
  have htext : itemText withCas hit ++ rest =
      itemLine withCas hit ++ (crlf ++ (hit.2.value ++ (crlf ++ rest))) := by
    rw [itemText_eq]
    simp only [List.append_assoc]
  have hnotEnd : itemLine withCas hit ≠ ascii "END" := by
    intro hend
    have hhead : some (86 : UInt8) = some 69 := congrArg List.head? hend
    contradiction
  rw [htext, readItems, readLine_append (oneLine_itemLine hkey hflags hcas)]
  simp only [Option.bind_eq_bind, Option.bind_some, hnotEnd, if_false,
    readHeader_itemLine hkey hflags hcas, readBlock_append]
  cases readItems withCas turns rest with
  | none => rfl
  | some items => rfl

end Reading

/-! ## Reading the whole answer -/

theorem readItems_items (withCas : Bool) :
    ∀ (found : List (Bytes × ValueStruct)) (turns : Nat),
      (∀ hit ∈ found, OneWord hit.1 ∧ OneWord hit.2.flags ∧
        OneWord hit.2.casUniq) → found.length < turns →
      readItems withCas turns
          (found.flatMap (itemText withCas) ++ ascii "END\r\n") =
        some (found.map (itemOf withCas)) := by
  intro found
  induction found with
  | nil =>
      intro turns _ hturns
      cases turns with
      | zero => contradiction
      | succ turns => rfl
  | cons hit found ih =>
      intro turns hwords hturns
      cases turns with
      | zero => contradiction
      | succ turns =>
          obtain ⟨hkey, hflags, hcas⟩ := hwords hit List.mem_cons_self
          have hrest := ih turns
            (fun other hmem => hwords other (List.mem_cons_of_mem _ hmem))
            (Nat.lt_of_succ_lt_succ hturns)
          rw [List.flatMap_cons, List.append_assoc,
            readItems_itemText hkey hflags hcas, hrest]
          rfl

theorem length_le_items (withCas : Bool) (found : List (Bytes × ValueStruct)) :
    found.length ≤ (found.flatMap (itemText withCas)).length := by
  induction found with
  | nil => exact Nat.le_refl 0
  | cons hit found ih =>
      have hpos : 1 ≤ (itemText withCas hit).length := by
        rw [itemText_eq]
        simp only [List.length_append, crlf, List.length_cons]
        omega
      simp only [List.flatMap_cons, List.length_append, List.length_cons]
      omega

theorem readAnswer_items (withCas : Bool) {found : List (Bytes × ValueStruct)}
    (hwords : ∀ hit ∈ found, OneWord hit.1 ∧ OneWord hit.2.flags ∧
      OneWord hit.2.casUniq) :
    readAnswer withCas (found.flatMap (itemText withCas) ++ ascii "END\r\n") =
      some (found.map (itemOf withCas)) := by
  have hlength := length_le_items withCas found
  refine readItems_items withCas found _ hwords ?_
  rw [List.length_append]
  omega

/-! ## The answers of the handlers -/

section Handlers

variable {env : Env}

theorem run_getLoop_cons (withCas : Bool) (clock : Nat → Nat) (key : Bytes)
    (keys : List Bytes) (output : Bytes) (s : Store) :
    (getLoop withCas clock (key :: keys) output).run env ⟨s, Locks.free⟩ =
      (getLoop withCas (fun i => clock (i + 1)) keys
        (match liveValue s (clock 0) key with
          | none => output
          | some v => output ++ itemText withCas (key, v))).run env
        ⟨(getStep (clock 0) key s).2, Locks.free⟩ := by
  refine (run_get (clock 0) key _).trans ?_
  rw [getStep_liveValue]
  cases liveValue s (clock 0) key with
  | none => rfl
  | some v => rfl

theorem run_getLoop (withCas : Bool) :
    ∀ (keys : List Bytes) (clock : Nat → Nat) (output : Bytes) (s : Store),
      ∃ s', (getLoop withCas clock keys output).run env ⟨s, Locks.free⟩ =
        .ok (output ++ (hits clock keys s).flatMap (itemText withCas),
          ⟨s', Locks.free⟩) := by
  intro keys
  induction keys with
  | nil =>
      intro clock output s
      refine ⟨s, ?_⟩
      rw [hits, List.flatMap_nil, List.append_nil]
      rfl
  | cons key keys ih =>
      intro clock output s
      rw [run_getLoop_cons, hits]
      cases liveValue s (clock 0) key with
      | none => exact ih _ output _
      | some v =>
          simp only [List.flatMap_cons, ← List.append_assoc]
          exact ih _ (output ++ itemText withCas (key, v)) _

def lookups (clock : Nat → Nat) (keys : List Bytes) : List Op :=
  keys.mapIdx fun i key => .get (clock i) key

theorem path_getLoop (withCas : Bool) :
    ∀ (keys : List Bytes) (clock : Nat → Nat) (output : Bytes)
      {es : List Event} {result : Bytes},
      Prog.Path (getLoop withCas clock keys output) es result →
      es.map Sigma.fst = lookups clock keys := by
  intro keys
  induction keys with
  | nil =>
      intro clock output es result h
      rw [(path_done h).1]
      rfl
  | cons key keys ih =>
      intro clock output es result h
      obtain ⟨found, es', rfl, hnext⟩ := path_call h
      rw [List.map_cons, lookups, List.mapIdx_cons]
      cases found with
      | none => rw [ih _ _ hnext, lookups]
      | some element => rw [ih _ _ hnext, lookups]

end Handlers

/-! ## The request -/

theorem keysRequest_eq (word : Bytes) (keys : List Bytes) :
    keysRequest word keys =
      (word ++ space :: [space].intercalate keys) ++ (crlf ++ []) := by
  simp [keysRequest]

theorem oneLine_intercalate {keys : List Bytes}
    (hwords : ∀ key ∈ keys, OneWord key) :
    ¬ crlf <:+: [space].intercalate keys := by
  induction keys with
  | nil => decide
  | cons key keys ih =>
      have hkey := (hwords key List.mem_cons_self).2
      have hrest := ih fun other hmem =>
        hwords other (List.mem_cons_of_mem _ hmem)
      cases keys with
      | nil =>
          rw [List.intercalate_singleton]
          exact hkey
      | cons other keys =>
          rw [List.intercalate_cons_cons, List.append_assoc]
          exact oneLine_append hkey hrest

theorem getKeys_keysRequest {word : Bytes} {keys : List Bytes}
    (hword : OneWord word) (hkeys : keys ≠ [])
    (hwords : ∀ key ∈ keys, OneWord key)
    (hsmall : (keysRequest word keys).length + 2 < wordSize) :
    getKeys (keysRequest word keys) = .ok keys := by
  have hline := oneLine_append hword.2 (oneLine_intercalate hwords)
  rw [keysRequest_eq] at hsmall ⊢
  have f : Framed _ (word ++ space :: [space].intercalate keys) [] :=
    ⟨rfl, find?_crlf hline [], hsmall⟩
  rw [getKeys_eq f]
  unfold keysOf
  simp only [cut_append_cons _ hword.1]
  rw [List.splitOn_intercalate space (fun key hmem => (hwords key hmem).1) hkeys]
  rfl

/-- The request is served with these calls and no others, and the answer is read
as these items. -/
def Decodes (env : Env) (withCas : Bool) (p : Command Response)
    (s : Store) (calls : List Op) (items : List Item) : Prop :=
  ∃ es resp s',
    p.run env ⟨s, Locks.free⟩ = .ok (resp, ⟨s', Locks.free⟩) ∧
    Prog.Path p es resp ∧
    Prog.Performs (Op.exec env) es ⟨s, Locks.free⟩ ⟨s', Locks.free⟩ ∧
    es.map Sigma.fst = calls ∧ resp.ret = 0 ∧
    readAnswer withCas resp.output = some items

section Answers

variable {env : Env} {s : Store}

theorem oneWord_hits (env : Env) :
    ∀ (keys : List Bytes) (clock : Nat → Nat) {s : Store}, Admissible s →
      (∀ key ∈ keys, OneWord key) →
      ∀ hit ∈ hits clock keys s, OneWord hit.1 ∧ OneWord hit.2.flags ∧
        OneWord hit.2.casUniq := by
  intro keys
  induction keys with
  | nil =>
      intro clock s _ _ hit hmem
      contradiction
  | cons key keys ih =>
      intro clock s hs hwords hit hmem
      have hnext : Admissible (getStep (clock 0) key s).2 :=
        admissible_step hs (fun w hw => by contradiction)
          (StoreStep.get (clock 0) key : StoreStep env s _ _ _)
      have hrest := ih (fun i => clock (i + 1)) hnext
        fun other hother => hwords other (List.mem_cons_of_mem _ hother)
      rw [hits] at hmem
      cases hvalue : liveValue s (clock 0) key with
      | none =>
          rw [hvalue] at hmem
          exact hrest hit hmem
      | some v =>
          rw [hvalue] at hmem
          rcases List.mem_cons.mp hmem with rfl | hmem
          · obtain ⟨it, hit, -, rfl⟩ := liveValue_eq_some.mp hvalue
            exact ⟨hwords key List.mem_cons_self, hs key it hit⟩
          · exact hrest hit hmem

theorem decodes_getWith (withCas : Bool) (times : Times) {input : Bytes}
    {keys : List Bytes} (hkeys : getKeys input = .ok keys)
    (hwords : ∀ key ∈ keys, OneWord key) (hs : Admissible s) :
    Decodes env withCas (cmdProcessGetWith withCas times input) s
      (lookups times.get keys)
      ((hits times.get keys s).map (itemOf withCas)) := by
  obtain ⟨s', hloop⟩ : ∃ s', (getLoop withCas times.get keys []).run env
      ⟨s, Locks.free⟩ = .ok (_, ⟨s', Locks.free⟩) :=
    run_getLoop withCas keys times.get [] s
  have hparsed : cmdProcessGetWith withCas times input =
      getLoop withCas times.get keys [] >>= fun output =>
        .done ⟨0, output ++ ascii "END\r\n"⟩ := by
    simp only [cmdProcessGetWith, parsed, hkeys]
    rfl
  have hrun : (cmdProcessGetWith withCas times input).run env
      ⟨s, Locks.free⟩ =
      .ok (⟨0, (hits times.get keys s).flatMap (itemText withCas) ++
        ascii "END\r\n"⟩, ⟨s', Locks.free⟩) := by
    unfold Command.run at hloop ⊢
    rw [hparsed, Prog.run_bind, Effect.bind_apply, hloop]
    rfl
  obtain ⟨es, hpath, hperforms⟩ := Prog.run_ok _ hrun
  have hread := readAnswer_items withCas
    (oneWord_hits env keys times.get hs hwords)
  refine ⟨es, _, s', hrun, hpath, hperforms, ?_, rfl, hread⟩
  rw [hparsed] at hpath
  obtain ⟨es₁, es₂, output, rfl, hcalls, hend⟩ := hpath.of_bind
  rw [(path_done hend).1, List.append_nil]
  exact path_getLoop withCas keys times.get [] hcalls

end Answers

/--
Whatever clients have sent, flags and tokens are single words; and as long as
they are, `get` and `gets` look up the keys they are asked for in their order,
and their answers are read as the keys that were found, in that order.
-/
theorem answers_read_back (env : Env) :
    (∀ t, Reached (Request.serve env) (fun _ q => q.input.length + 2 < wordSize)
      State.init t → Admissible t.store) ∧
    ∀ (times : Times) (keys : List Bytes) (s : Store), Admissible s →
      keys ≠ [] → (∀ key ∈ keys, OneWord key) →
      (keysRequest (ascii "gets") keys).length + 2 < wordSize →
      Decodes env false
          (cmdProcessGet times (keysRequest (ascii "get") keys)) s
          (lookups times.get keys)
          ((hits times.get keys s).map (itemOf false)) ∧
        Decodes env true
          (cmdProcessGets times (keysRequest (ascii "gets") keys)) s
          (lookups times.get keys)
          ((hits times.get keys s).map (itemOf true)) := by
  refine ⟨fun t h => (admissible_of_served h).2, ?_⟩
  intro times keys s hs hkeys hwords hsmall
  have hsmall' : (keysRequest (ascii "get") keys).length + 2 < wordSize := by
    have hlength : (keysRequest (ascii "get") keys).length + 1 =
        (keysRequest (ascii "gets") keys).length := by
      simp only [keysRequest, List.length_append, List.length_cons, ascii,
        List.length_map]
      change 3 + _ + 1 = 4 + _
      omega
    omega
  constructor
  · exact decodes_getWith false times
      (getKeys_keysRequest (by decide) hkeys hwords hsmall') hwords hs
  · exact decodes_getWith true times
      (getKeys_keysRequest (by decide) hkeys hwords hsmall) hwords hs

def endStored : Store :=
  Store.init.setEntry (getHashTblNbrFromKey (ascii "k")) (ascii "k")
    (⟨wordMax, ascii "\r\nEND\r\n", ascii "7", ascii "42"⟩, 0)

theorem answers_read_back_end :
    Decodes Env.x86 true
      (cmdProcessGets (.const 1000) (ascii "gets k  k\r\n")) endStored
      [.get 1000 (ascii "k"), .get 1000 [], .get 1000 (ascii "k")]
      [⟨ascii "k", ascii "7", ascii "\r\nEND\r\n", some (ascii "42")⟩,
        ⟨ascii "k", ascii "7", ascii "\r\nEND\r\n", some (ascii "42")⟩] := by
  have hadmissible : Admissible endStored := by
    intro key it hit
    by_cases hkey : key = ascii "k"
    · subst hkey
      rw [endStored, entry_setEntry_self] at hit
      cases hit
      decide
    · rw [endStored, entry_setEntry_ne _ _ hkey] at hit
      contradiction
  exact ((answers_read_back Env.x86).2 (.const 1000)
    [ascii "k", [], ascii "k"] endStored hadmissible (by decide) (by decide)
    (by decide)).2

end Memstashed.Scmd
