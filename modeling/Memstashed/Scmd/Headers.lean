import Memstashed.Scmd.Commands
import Memstashed.Scmd.Lines

/-!
# Storage requests and parts of them

A storage request is a header line, a block of data and a CRLF.  What the
handlers do with the header and the first part of the block: they ask for the
rest until the block is complete, and from then on look at nothing behind it.
-/

namespace Memstashed.Scmd

open Memstashed.Foundation
open Memstashed.Dblru

def Word.stores : Word → Bool
  | .set => true
  | .add => true
  | .replace => true
  | .append => true
  | .prepend => true
  | .cas => true
  | _ => false

def Word.storageRequest (now : Nat) (input : Bytes) :
    Word → Parse (Int × StorageStruct)
  | .append => extendRequest now input
  | .prepend => extendRequest now input
  | w => cmdProcessCommon now input (w = .cas) false

def Word.storeStep (times : Times) (store : StorageStruct) :
    Word → Command Response
  | .set =>
      insertAndAnswer times store.key store.flags store.data store.expTime
        store.noreply (ascii "STORED\r\n")
  | .add => do
      let ret ← Command.add times.write store.key store.flags store.casStr
        store.data store.expTime
      if ret = .memoryFull then return answer store.noreply memoryFullText
      else if ret = .exist then
        return answer store.noreply (ascii "NOT_STORED\r\n")
      else return answer store.noreply (ascii "STORED\r\n")
  | .replace => do
      match ← Command.get (times.get 0) store.key with
      | none => return answer store.noreply (ascii "NOT_STORED\r\n")
      | some _ =>
          insertAndAnswer times store.key store.flags store.data store.expTime
            store.noreply (ascii "STORED\r\n")
  | .append => extend fun value data => value ++ data
  | .prepend => extend fun value data => data ++ value
  | .cas => do
      let ret ← Command.insert times.write store.key store.flags store.casStr
        store.data store.expTime
      if ret = .memoryFull then return answer store.noreply memoryFullText
      else if ret = .exist then
        return answer store.noreply (ascii "EXISTS\r\n")
      else if ret = .notExist then
        return answer store.noreply (ascii "NOT_FOUND\r\n")
      else return answer store.noreply (ascii "STORED\r\n")
  | _ => .done ⟨0, []⟩
where
  extend (join : Bytes → Bytes → Bytes) : Command Response := do
    match ← Command.get (times.get 0) store.key with
    | none => return answer store.noreply (ascii "NOT_STORED\r\n")
    | some element =>
        insertAndAnswer times store.key element.flags
          (join element.value store.data) element.expiry store.noreply
          (ascii "STORED\r\n")

/-- The fields of a header line; the token is that of a `cas`. -/
structure Header where
  word : Word
  key : Bytes
  flags : Bytes
  expTime : Bytes
  bytes : Bytes
  token : Bytes := []
  noreply : Bool := false
  deriving DecidableEq, Repr

namespace Header

def options (h : Header) : Bytes :=
  if h.noreply then space :: ascii "noreply" else []

def ending (h : Header) : Bytes :=
  if h.word = .cas then h.bytes ++ space :: (h.token ++ h.options)
  else h.bytes ++ h.options

def line (h : Header) : Bytes :=
  ascii h.word.text ++ space :: (h.key ++ space :: (h.flags ++ space ::
    (h.expTime ++ space :: h.ending)))

def casStr (h : Header) : Bytes := if h.word = .cas then h.token else []

end Header

/-- The header of a request with `n` bytes of data. -/
structure Header.WellFormed (h : Header) (n : Nat) : Prop where
  stores : h.word.stores = true
  key : space ∉ h.key
  flags : space ∉ h.flags
  expTime : space ∉ h.expTime
  bytes : space ∉ h.bytes
  token : space ∉ h.token
  expiry : ∃ expTime, stoul h.expTime = .ok expTime
  count : stoul h.bytes = .ok n
  oneLine : ¬ crlf <:+: h.line

/-- The number of bytes asked for when `data` is there: the rest of the block
and a CRLF. -/
def missingBytes (n : Nat) (data : Bytes) : Int :=
  if data.length < n then n + 2 - data.length else 0

section Parsing

variable {h : Header} {n : Nat}

theorem noreplyOf_junk (rest : Bytes) (hne : rest ≠ [])
    (hfield : (cut space rest).1 ≠ ascii "noreply") :
    ∃ output, noreplyOf rest = .error (.reply output) := by
  have hjunk : rest ≠ ascii "noreply" ∧ rest ≠ ascii "noreply " := by
    constructor
    · rintro rfl
      exact hfield rfl
    · rintro rfl
      exact hfield rfl
  unfold noreplyOf
  rw [if_neg hne, if_pos hjunk]
  exact ⟨_, rfl⟩

theorem stoul_ne_noreply {text : Bytes} {m : Nat} (hstoul : stoul text = .ok m) :
    text ≠ [] ∧ text ≠ ascii "noreply" := by
  constructor
  · rintro rfl
    simp [stoul, splitSign] at hstoul
  · rintro rfl
    have hfails : stoul (ascii "noreply") = .error .invalidArgument := by decide
    simp [hfails] at hstoul

def optionsText (noreply : Bool) : Bytes :=
  if noreply then space :: ascii "noreply" else []

theorem cut_options {text : Bytes} (htext : space ∉ text) (noreply : Bool) :
    cut space (text ++ optionsText noreply) =
      (text, if noreply then some (ascii "noreply") else none) := by
  cases noreply with
  | true => exact cut_append_cons (ascii "noreply") htext
  | false =>
      change cut space (text ++ []) = _
      rw [List.append_nil]
      exact cut_of_notMem htext

theorem bytesAndTokenOf_plain {bytes : Bytes} (hbytes : space ∉ bytes)
    (noreply : Bool) (data : Bytes) :
    bytesAndTokenOf false data (bytes ++ optionsText noreply) =
      .ok (bytes, [], noreply) := by
  have hnoreply : noreplyOf (ascii "noreply") = .ok true := rfl
  simp only [bytesAndTokenOf, cut_options hbytes]
  cases noreply <;> simp [hnoreply]

theorem bytesAndTokenOf_token {bytes token : Bytes} (hbytes : space ∉ bytes)
    (htoken : space ∉ token) (noreply : Bool) (data : Bytes) :
    bytesAndTokenOf true data
        (bytes ++ space :: (token ++ optionsText noreply)) =
      .ok (bytes, token, noreply) := by
  have hcut := cut_append_cons (token ++ optionsText noreply) hbytes
  have hnoreply : noreplyOf (ascii "noreply") = .ok true := rfl
  simp only [bytesAndTokenOf, hcut, cut_options htoken]
  cases noreply <;> simp [hnoreply]

theorem bytesAndTokenOf_ending (wf : h.WellFormed n) (data : Bytes) :
    bytesAndTokenOf (h.word = .cas) data h.ending =
      .ok (h.bytes, h.casStr, h.noreply) := by
  unfold Header.ending Header.casStr
  by_cases hcas : h.word = .cas
  · rw [decide_eq_true hcas, if_pos hcas, if_pos hcas]
    exact bytesAndTokenOf_token wf.bytes wf.token h.noreply data
  · rw [decide_eq_false hcas, if_neg hcas, if_neg hcas]
    exact bytesAndTokenOf_plain wf.bytes h.noreply data

def Header.read (h : Header) (expTime n : Nat) (data : Bytes) : StorageStruct :=
  ⟨h.key, h.flags, expTime, n, h.casStr, h.noreply, data.take n⟩

theorem exists_dataOf {text : Bytes} (hstoul : stoul text = .ok n)
    (data : Bytes) :
    ∃ ret block, dataOf data text = .ok (ret, n, block) := by
  simp only [dataOf, stoulOr, hstoul, Parse.ok_bind, Parse.pure_eq]
  split
  · exact ⟨_, _, rfl⟩
  · exact ⟨_, _, rfl⟩

theorem dataOf_complete {text data : Bytes} (hstoul : stoul text = .ok n)
    (hcomplete : n ≤ data.length) :
    dataOf data text = .ok (0, n, data.take n) := by
  have htake : ¬ (data.take n).length < n := by
    rw [List.length_take]
    omega
  simp only [dataOf, stoulOr, hstoul, Parse.ok_bind, htake, if_false,
    Parse.pure_eq]

theorem dataOf_of_stoul {text : Bytes} (hstoul : stoul text = .ok n)
    (hsmall : n + 2 < 2147483648) (data : Bytes) :
    dataOf data text = .ok (missingBytes n data, n, data.take n) := by
  by_cases hshort : data.length < n
  · have hcount : stoulOr "CLIENT_ERROR invalid number of bytes\r\n" text =
        .ok n := by
      simp [stoulOr, hstoul]
    have htake : (data.take n).length = data.length := by
      rw [List.length_take]
      omega
    have hword : toWord (n + 2) = n + 2 := toWord_of_lt (by
      unfold wordSize
      omega)
    have hsub : wordSub (n + 2) data.length = n + 2 - data.length :=
      wordSub_of_le (by unfold wordSize; omega) (by omega)
    have hint : wordToInt (n + 2 - data.length) = n + 2 - data.length := by
      rw [wordToInt, if_pos (by omega)]
      omega
    unfold dataOf missingBytes
    simp only [hcount, Parse.ok_bind, htake, hshort, if_true, hword, hsub, hint,
      Parse.pure_eq]
  · rw [dataOf_complete hstoul (Nat.not_lt.mp hshort), missingBytes,
      if_neg hshort]

theorem exists_expiryField (wf : h.WellFormed n) (now : Nat) :
    ∃ expTime, expiryField now h.expTime = .ok expTime := by
  obtain ⟨e, he⟩ := wf.expiry
  simp [expiryField, stoulOr, he]

theorem commonOf_header_of (wf : h.WellFormed n) {now expTime : Nat} {ret : Int}
    {data block : Bytes} (hexpTime : expiryField now h.expTime = .ok expTime)
    (hdata : dataOf data h.bytes = .ok (ret, n, block)) :
    commonOf now (h.word = .cas) h.line data =
      .ok (ret, ⟨h.key, h.flags, expTime, n, h.casStr, h.noreply, block⟩) := by
  have hword : space ∉ ascii h.word.text := by
    cases h.word <;> decide
  unfold commonOf flagsAndExpiryOf Header.line
  simp only [cut_append_cons _ hword, cut_append_cons _ wf.key,
    cut_append_cons _ wf.flags, cut_append_cons _ wf.expTime, hexpTime,
    Parse.ok_bind, Parse.pure_eq, bytesAndTokenOf_ending wf data, hdata]

/-- A full header is not taken for a short one, whatever its numbers are. -/
theorem shortOf_fields (hcas : h.word ≠ .cas) (hkey : space ∉ h.key)
    (hflags : space ∉ h.flags) (hexpTime : space ∉ h.expTime)
    (hbytes : space ∉ h.bytes) (hexpTimeWord : h.expTime ≠ ascii "noreply")
    (hbytesWord : h.bytes ≠ [] ∧ h.bytes ≠ ascii "noreply") (data : Bytes) :
    ∃ output, shortOf h.line data = .error (.reply output) := by
  have hword : space ∉ ascii h.word.text := by
    cases h.word <;> decide
  have hjunk : ∃ output, shortEndingOf data (h.flags ++ space ::
      (h.expTime ++ space :: h.ending)) = .error (.reply output) := by
    cases htext : h.flags with
    | nil =>
        -- the space before the expiry is skipped
        have hcut := cut_append_cons h.ending hexpTime
        have hfield : (cut space h.ending).1 = h.bytes := by
          rw [Header.ending, if_neg hcas]
          exact congrArg Prod.fst (cut_options hbytes h.noreply)
        obtain ⟨output, houtput⟩ := noreplyOf_junk h.ending
          (by simp [Header.ending, hcas, hbytesWord.1])
          (by rw [hfield]; exact hbytesWord.2)
        refine ⟨output, ?_⟩
        simp only [List.nil_append, shortEndingOf, bytesAndTokenOf, hcut,
          houtput, Parse.error_bind]
    | cons f flags =>
        have hspace : space ∉ flags := by
          rw [htext] at hflags
          exact fun hmem => hflags (List.mem_cons_of_mem f hmem)
        have hcut := cut_append_cons (h.expTime ++ space :: h.ending) hspace
        have hfield : (cut space (h.expTime ++ space :: h.ending)).1 =
            h.expTime := by
          rw [cut_append_cons _ hexpTime]
        obtain ⟨output, houtput⟩ := noreplyOf_junk
          (h.expTime ++ space :: h.ending) (by simp)
          (by rw [hfield]; exact hexpTimeWord)
        refine ⟨output, ?_⟩
        simp only [List.cons_append, shortEndingOf, bytesAndTokenOf, hcut,
          houtput, Parse.error_bind]
  obtain ⟨output, houtput⟩ := hjunk
  refine ⟨output, ?_⟩
  unfold shortOf Header.line
  simp only [cut_append_cons _ hword, cut_append_cons _ hkey, houtput,
    Parse.error_bind]

theorem shortOf_header (wf : h.WellFormed n) (hcas : h.word ≠ .cas)
    (data : Bytes) :
    ∃ output, shortOf h.line data = .error (.reply output) := by
  obtain ⟨e, he⟩ := wf.expiry
  exact shortOf_fields hcas wf.key wf.flags wf.expTime wf.bytes
    (stoul_ne_noreply he).2 (stoul_ne_noreply wf.count) data

theorem shortOf_plain {w : Word} {key bytes : Bytes} (hkey : space ∉ key)
    (hbytes : space ∉ bytes) (b : UInt8) (noreply : Bool) (data : Bytes) :
    shortOf (ascii w.text ++ space :: (key ++ space :: b :: bytes) ++
        optionsText noreply) data =
      (do
        let (ret, n, block) ← dataOf data bytes
        return (ret, ⟨key, [], 0, n, [], noreply, block⟩)) := by
  have hword : space ∉ ascii w.text := by
    cases w <;> decide
  simp only [shortOf, List.append_assoc, List.cons_append,
    cut_append_cons _ hword, cut_append_cons _ hkey, shortEndingOf,
    bytesAndTokenOf_plain hbytes noreply data, Parse.ok_bind]

theorem framed_header (wf : h.WellFormed n) {data : Bytes}
    (hsmall : (h.line ++ (crlf ++ data)).length + 2 < wordSize) :
    Framed (h.line ++ (crlf ++ data)) h.line data :=
  ⟨rfl, find?_crlf wf.oneLine data, hsmall⟩

theorem storageRequest_header_of (wf : h.WellFormed n) {now expTime : Nat}
    {ret : Int} {data block : Bytes}
    (hexpTime : expiryField now h.expTime = .ok expTime)
    (hdata : dataOf data h.bytes = .ok (ret, n, block))
    (hsmall : (h.line ++ (crlf ++ data)).length + 2 < wordSize) :
    h.word.storageRequest now (h.line ++ (crlf ++ data)) =
      .ok (ret, ⟨h.key, h.flags, expTime, n, h.casStr, h.noreply, block⟩) := by
  have hframed := framed_header wf hsmall
  have hfull := cmdProcessCommon_full hframed now (h.word = .cas)
  rw [commonOf_header_of wf hexpTime hdata] at hfull
  have hextend (hcas : h.word ≠ .cas) :
      extendRequest now (h.line ++ (crlf ++ data)) =
        .ok (ret, ⟨h.key, h.flags, expTime, n, h.casStr, h.noreply, block⟩) := by
    obtain ⟨output, hshort⟩ := shortOf_header wf hcas data
    rw [decide_eq_false hcas] at hfull
    rw [extendRequest, cmdProcessCommon_short hframed now, hshort]
    exact hfull
  cases hword : h.word with
  | append => exact hextend (by simp [hword])
  | prepend => exact hextend (by simp [hword])
  | _ =>
      rw [hword] at hfull
      exact hfull

theorem storageRequest_header (wf : h.WellFormed n)
    (hcount : n + 2 < 2147483648) {now expTime : Nat}
    (hexpTime : expiryField now h.expTime = .ok expTime) {data : Bytes}
    (hsmall : (h.line ++ (crlf ++ data)).length + 2 < wordSize) :
    h.word.storageRequest now (h.line ++ (crlf ++ data)) =
      .ok (missingBytes n data, h.read expTime n data) :=
  storageRequest_header_of wf hexpTime
    (dataOf_of_stoul wf.count hcount data) hsmall

theorem yields_ite {P : Response → Prop} {c : Prop} [Decidable c]
    {p q : Command Response} (hp : Prog.Yields P p) (hq : Prog.Yields P q) :
    Prog.Yields P (if c then p else q) := by
  split
  · exact hp
  · exact hq

theorem process_storage {w : Word} (hstores : w.stores = true) (times : Times)
    (input : Bytes) :
    w.process times input =
      storage (w.storageRequest times.parse input) (w.storeStep times) := by
  cases w with
  | set => rfl
  | add => rfl
  | replace => rfl
  | append => rfl
  | prepend => rfl
  | cas => rfl
  | _ => contradiction

theorem yields_storeStep (w : Word) (times : Times) (store : StorageStruct) :
    Prog.Yields (fun resp => resp.ret = 0) (w.storeStep times store) := by
  have hinsert (key flags value : Bytes) (expiry : Nat) (noreply : Bool)
      (output : Bytes) : Prog.Yields (fun resp => resp.ret = 0)
        (insertAndAnswer times key flags value expiry noreply output) := by
    refine .bind _ fun r => ?_
    exact yields_ite (.done rfl) (.done rfl)
  have hextend (join : Bytes → Bytes → Bytes) :
      Prog.Yields (fun resp => resp.ret = 0)
        (Word.storeStep.extend times store join) := by
    refine .bind _ fun found => ?_
    cases found with
    | none => exact .done rfl
    | some element => exact hinsert ..
  cases w with
  | set => exact hinsert ..
  | add =>
      refine .bind _ fun r => ?_
      exact yields_ite (.done rfl) (yields_ite (.done rfl) (.done rfl))
  | replace =>
      refine .bind _ fun found => ?_
      cases found with
      | none => exact .done rfl
      | some element => exact hinsert ..
  | append => exact hextend fun value data => value ++ data
  | prepend => exact hextend fun value data => data ++ value
  | cas =>
      refine .bind _ fun r => ?_
      exact yields_ite (.done rfl)
        (yields_ite (.done rfl) (yields_ite (.done rfl) (.done rfl)))
  | _ => exact .done rfl

end Parsing

/-! ## Dispatch -/

section Dispatch

variable {h : Header} {n : Nat}

theorem ofBytes_text (w : Word) : Word.ofBytes (ascii w.text) = some w := by
  cases w <;> decide

theorem commandWord_text (w : Word) (rest : Bytes) :
    commandWord (ascii w.text ++ space :: rest) = ascii w.text := by
  have hspace : space ∉ ascii w.text := by
    cases w <;> decide
  have hshort : (ascii w.text).length ≠ npos := by
    cases w <;> decide
  have hfind : find (ascii w.text ++ space :: rest) [space] 0 =
      (ascii w.text).length := by
    rw [find, List.drop_zero, find?_append_cons rest hspace]
    exact Nat.zero_add _
  unfold commandWord
  simp only [hfind, hshort, if_false]
  exact List.take_left

theorem commandWord_header (h : Header) (rest : Bytes) :
    commandWord (h.line ++ rest) = ascii h.word.text := by
  rw [Header.line, List.append_assoc, List.cons_append]
  exact commandWord_text h.word _

theorem dispatch_header (wf : h.WellFormed n) (hcount : n + 2 < 2147483648)
    {times : Times} {expTime : Nat}
    (hexpTime : expiryField times.parse h.expTime = .ok expTime) {data : Bytes}
    (hsmall : (h.line ++ (crlf ++ data)).length + 2 < wordSize) :
    dispatch times (h.line ++ (crlf ++ data)) =
      if data.length < n then .done ⟨n + 2 - data.length, []⟩
      else h.word.storeStep times (h.read expTime n data) := by
  unfold dispatch
  simp only [commandWord_header, ofBytes_text, process_storage wf.stores,
    storageRequest_header wf hcount hexpTime hsmall, storage, parsed,
    missingBytes]
  by_cases hshort : data.length < n
  · have hpositive : (n : Int) + 2 - data.length > 0 := by omega
    simp only [hshort, hpositive, if_true]
  · simp only [hshort, if_false, gt_iff_lt, lt_irrefl]

theorem dispatch_storage (wf : h.WellFormed n) (hcount : n + 2 < 2147483648)
    (times : Times) : ∃ act : Bytes → Command Response,
      (∀ block, Prog.Yields (fun resp => resp.ret = 0) (act block)) ∧
      ∀ data, (h.line ++ (crlf ++ data)).length + 2 < wordSize →
        dispatch times (h.line ++ (crlf ++ data)) =
          if data.length < n then .done ⟨n + 2 - data.length, []⟩
          else act (data.take n) := by
  obtain ⟨expTime, hexpTime⟩ := exists_expiryField wf times.parse
  refine ⟨fun block => h.word.storeStep times (h.read expTime n block),
    fun block => yields_storeStep _ _ _, fun data hsmall => ?_⟩
  have hblock : h.read expTime n (data.take n) = h.read expTime n data := by
    simp [Header.read]
  simp only [dispatch_header wf hcount hexpTime hsmall, hblock]

theorem yields_parsed {P : Response → Prop} {α : Type} {request : Parse α}
    {act : α → Command Response} (hreply : ∀ output, P ⟨0, output⟩)
    (h : ∀ fields, Prog.Yields P (act fields)) :
    Prog.Yields P (parsed request act) := by
  cases request with
  | ok fields => exact h fields
  | error stop =>
      cases stop with
      | reply output => exact .done (hreply output)
      | exception e => exact .fail _

theorem dispatch_oneLine {input : Bytes}
    (hword : ∀ w, Word.ofBytes (commandWord input) = some w → w.stores = false)
    (times : Times) :
    Prog.Yields (fun resp => resp.ret ≤ 0) (dispatch times input) := by
  have hzero (output : Bytes) : (⟨0, output⟩ : Response).ret ≤ 0 := le_rfl
  have hcounter (combine : Nat → Nat → Nat) :
      Prog.Yields (fun resp => resp.ret ≤ 0)
        (cmdProcessCounter combine times input) := by
    refine yields_parsed hzero fun fields => .bind _ fun found => ?_
    cases found with
    | none => exact .done (hzero _)
    | some element =>
        refine .bind _ fun inputValue => .bind _ fun oldValue => ?_
        refine yields_ite (.done (hzero _)) (.bind _ fun r => ?_)
        exact yields_ite (.done (hzero _)) (.done (hzero _))
  have hget (withCas : Bool) : Prog.Yields (fun resp => resp.ret ≤ 0)
      (cmdProcessGetWith withCas times input) :=
    yields_parsed hzero fun keys => .bind _ fun output => .done (hzero _)
  unfold dispatch
  cases hof : Word.ofBytes (commandWord input) with
  | none => exact .done (hzero _)
  | some w =>
      have hstores := hword w hof
      cases w with
      | get => exact hget false
      | gets => exact hget true
      | delete =>
          refine yields_parsed hzero fun fields => .bind _ fun r => ?_
          exact yields_ite (.done (hzero _)) (.done (hzero _))
      | incr => exact hcounter _
      | decr => exact hcounter _
      | touch =>
          refine yields_parsed hzero fun fields => .bind _ fun found => ?_
          cases found with
          | none => exact .done (hzero _)
          | some element =>
              refine .bind _ fun r => ?_
              exact yields_ite (.done (hzero _)) (.done (hzero _))
      | stats =>
          refine .done ?_
          unfold cmdProcessStats
          split <;> simp
      | flushAll =>
          exact yields_parsed hzero fun fields =>
            .bind _ fun _ => .done (hzero _)
      | version =>
          refine .done ?_
          unfold cmdProcessVersion
          split <;> simp
      | verbosity => exact yields_parsed hzero fun noreply => .done (hzero _)
      | quit =>
          refine .done ?_
          unfold cmdProcessQuit
          split <;> simp
      | _ => contradiction

end Dispatch

end Memstashed.Scmd
