import Memstashed.Foundation.Numerals
import Memstashed.Scmd.Encoding
import Memstashed.Scmd.Rewriting

/-!
# Two parses into one struct

`append` and `prepend` parse their line for a short header and, when that fails,
for a full one, both times into the same `StorageStruct`.  Here the parser
assigns to the struct as it goes along, and what a failed parse has assigned
stays.  Nothing of it is left after the second parse.
-/

namespace Memstashed.Scmd

open Memstashed.Foundation
open Memstashed.Dblru

/-! ## The parser with its assignments -/

/-- A parser that is handed a `StorageStruct &` and may stop early. -/
abbrev Into (α : Type) := StorageStruct → Except Stop α × StorageStruct

namespace Into

variable {α β : Type}

instance : Monad Into where
  pure a := fun store => (.ok a, store)
  bind x f := fun store =>
    match x store with
    | (.ok a, store) => f a store
    | (.error stop, store) => (.error stop, store)

def read (p : Parse α) : Into α := fun store => (p, store)

def assign (f : StorageStruct → StorageStruct) : Into Unit := fun store =>
  (.ok (), f store)

end Into

def flagsAndExpiryInto (now : Nat) (input : Bytes) (isExistData : Bool)
    (nextEndl nextSpace : Nat) : Into Nat :=
  if isExistData then return next nextSpace
  else do
    let (flags, tempSpace) ← Into.read (field input [space] nextSpace)
    Into.assign fun store => { store with flags := flags }
    if Missing tempSpace nextEndl then
      Into.read (reply "CLIENT_ERROR expiry time not found\r\n")
    else do
      let (expTimeStr, tempSpace) ←
        Into.read (field input [space] (next tempSpace))
      let expTime ← Into.read (expiryField now expTimeStr)
      Into.assign fun store => { store with expTime := expTime }
      if Missing tempSpace nextEndl then
        Into.read (reply "CLIENT_ERROR bytes not found\r\n")
      else return next tempSpace

def casFieldInto (input : Bytes) (isCas : Bool)
    (nextEndl nextSpace tempSpace : Nat) : Into (Nat × Nat) :=
  if isCas = true ∧ tempSpace ≠ npos then
    if Missing tempSpace nextEndl then
      Into.read (reply "CLIENT_ERROR cas string not found\r\n")
    else do
      let (casStr, after) ← Into.read (field input [space] (next tempSpace))
      Into.assign fun store => { store with casStr := casStr }
      return (next tempSpace, after)
  else return (nextSpace, tempSpace)

def lastFieldsInto (input : Bytes) (isCas : Bool)
    (nextEndl nextSpace tempSpace : Nat) (bytesStr : Bytes) : Into Bytes :=
  if tempSpace > nextEndl then do
    let (text, _) ← Into.read (field input crlf nextSpace)
    if isCas then do
      Into.assign fun store => { store with casStr := text, noreply := false }
      return bytesStr
    else do
      Into.assign fun store => { store with noreply := false }
      return text
  else do
    let noreply ← Into.read (noreplyField input nextEndl (next tempSpace))
    Into.assign fun store => { store with noreply := noreply }
    return bytesStr

def bytesAndTokenInto (input : Bytes) (isCas : Bool)
    (nextEndl nextSpace : Nat) : Into Bytes := do
  let (bytesStr, tempSpace) ← Into.read (field input [space] nextSpace)
  let (nextSpace, tempSpace) ←
    casFieldInto input isCas nextEndl nextSpace tempSpace
  lastFieldsInto input isCas nextEndl nextSpace tempSpace bytesStr

def dataFieldInto (input : Bytes) (nextEndl bytes : Nat) : Into Int :=
  if (nextEndl = npos ∨ input.length < toWord (nextEndl + 2)) ∧ bytes ≠ 0 then
    return wordToInt (toWord (bytes + 2))
  else if bytes = 0 then return 0
  else
    match substr input (toWord (nextEndl + 2)) bytes with
    | .error e => Into.read (.error (.exception e))
    | .ok data => do
        Into.assign fun store => { store with data := data }
        if data.length < bytes then
          return wordToInt (wordSub (toWord (bytes + 2)) data.length)
        else return 0

def cmdProcessCommonInto (now : Nat) (input : Bytes) (isCas isExistData : Bool) :
    Into Int :=
  let nextSpace := find input [space] 0
  let nextEndl := find input crlf 0
  if Missing nextSpace nextEndl then
    Into.read (reply "CLIENT_ERROR key not found\r\n")
  else do
    let (key, tempSpace) ←
      Into.read (field input [space] (next nextSpace))
    Into.assign fun store => { store with key := key }
    if Missing tempSpace nextEndl then
      Into.read (reply "CLIENT_ERROR flags not found\r\n")
    else do
      let bytesStart ←
        flagsAndExpiryInto now input isExistData nextEndl (next tempSpace)
      let bytesStr ← bytesAndTokenInto input isCas nextEndl bytesStart
      let bytes ← Into.read
        (stoulOr "CLIENT_ERROR invalid number of bytes\r\n" bytesStr)
      Into.assign fun store => { store with bytes := bytes }
      dataFieldInto input nextEndl bytes

def extendRequestInto (now : Nat) (input : Bytes) : Into Int := fun store =>
  match cmdProcessCommonInto now input false true store with
  | (.error (.reply _), store) =>
      cmdProcessCommonInto now input false false store
  | result => result

def Into.result {α : Type} :
    Except Stop α × StorageStruct → Parse (α × StorageStruct)
  | (.ok a, store) => .ok (a, store)
  | (.error stop, _) => .error stop

def Into.fresh {α : Type} (x : Into α) : Parse (α × StorageStruct) :=
  Into.result (x {})

/-! ## What the struct ends up with -/

def Untouched (store : StorageStruct) : Prop :=
  store.casStr = [] ∧ store.data = []

/-- The parser that assigns to `old` goes as `p` does: `out` says what it
returns and leaves in the struct when it comes to its end. -/
def Follows {α β : Type} (x : Into α) (old : StorageStruct) (p : Parse β)
    (out : β → α × StorageStruct) : Prop :=
  match p with
  | .ok b => x old = (.ok (out b).1, (out b).2)
  | .error stop => ∃ left, x old = (.error stop, left) ∧ Untouched left

section Following

variable {α β γ δ : Type} {x : Into α} {old : StorageStruct} {p : Parse β}
  {out : β → α × StorageStruct}

theorem Follows.read (p : Parse α) (hold : Untouched old) :
    Follows (Into.read p) old p fun a => (a, old) := by
  cases p with
  | ok a => rfl
  | error stop => exact ⟨old, rfl, hold⟩

theorem Follows.pure (a : α) (b : β) (hout : out b = (a, old)) :
    Follows (pure a) old (.ok b) out := by
  simp only [Follows, hout]
  rfl

theorem Follows.bind {f : α → Into γ} {q : β → Parse δ}
    {last : δ → γ × StorageStruct} (h : Follows x old p out)
    (hrest : ∀ b, p = .ok b → Follows (f (out b).1) (out b).2 (q b) last) :
    Follows (x >>= f) old (p >>= q) last := by
  cases p with
  | ok b =>
      have hx : x old = (.ok (out b).1, (out b).2) := h
      have hturn : (x >>= f) old = f (out b).1 (out b).2 := by
        change (match x old with
          | (.ok a, store) => f a store
          | (.error stop, store) => (.error stop, store)) = _
        rw [hx]
      have hlast := hrest b rfl
      unfold Follows at hlast ⊢
      rw [hturn]
      exact hlast
  | error stop =>
      obtain ⟨left, hx, hleft⟩ := h
      refine ⟨left, ?_, hleft⟩
      change (match x old with
        | (.ok a, store) => f a store
        | (.error stop, store) => (.error stop, store)) = _
      rw [hx]

theorem Follows.map {g : β → γ} {last : γ → α × StorageStruct}
    (h : Follows x old p out) (hlast : ∀ b, last (g b) = out b) :
    Follows x old (p >>= fun b => .ok (g b)) last := by
  cases p with
  | ok b =>
      have hx : x old = (.ok (out b).1, (out b).2) := h
      rw [← hlast b] at hx
      exact hx
  | error stop => exact h

theorem Follows.result {p : Parse (α × StorageStruct)}
    (h : Follows x old p fun (a, store) => (a, store)) :
    Into.result (x old) = p := by
  cases p with
  | ok b =>
      have hx : x old = (.ok b.1, b.2) := h
      rw [hx]
      rfl
  | error stop =>
      obtain ⟨left, hx, -⟩ := h
      rw [hx]
      rfl

theorem Follows.assign {g : StorageStruct → StorageStruct} {f : Unit → Into α}
    (h : Follows (f ()) (g old) p out) :
    Follows (Into.assign g >>= f) old p out :=
  h

theorem Follows.ite {c : Prop} [Decidable c] {y : Into α} {q : Parse β}
    (hyes : Follows x old p out) (hno : Follows y old q out) :
    Follows (if c then x else y) old (if c then p else q) out := by
  by_cases hc : c
  · rw [if_pos hc, if_pos hc]
    exact hyes
  · rw [if_neg hc, if_neg hc]
    exact hno

theorem Follows.reply (output : String) (hold : Untouched old) :
    Follows (Into.read (Scmd.reply output) : Into α) old
      (Scmd.reply output : Parse β) out :=
  ⟨old, rfl, hold⟩

end Following

section Parsing

variable {now : Nat} {input : Bytes} {old : StorageStruct}

theorem flagsAndExpiryInto_follows (isExistData : Bool)
    (nextEndl nextSpace : Nat) (hold : Untouched old) :
    Follows (flagsAndExpiryInto now input isExistData nextEndl nextSpace) old
      (flagsAndExpiry now input isExistData nextEndl nextSpace)
      fun (flags, expTime, start) => (start, if isExistData then old
        else { old with flags := flags, expTime := expTime }) := by
  cases isExistData with
  | true => exact .pure _ _ rfl
  | false =>
      refine .bind (.read _ hold) ?_
      rintro ⟨flags, tempSpace⟩ -
      apply Follows.assign
      apply Follows.ite
      · exact .reply _ hold
      · refine .bind (.read _ hold) ?_
        rintro ⟨expTimeStr, tempSpace⟩ -
        refine .bind (.read _ hold) ?_
        intro expTime _
        apply Follows.assign
        apply Follows.ite
        · exact .reply _ hold
        · exact .pure _ _ rfl

theorem lastFieldsInto_follows (nextEndl nextSpace tempSpace : Nat)
    (bytesStr : Bytes) (hold : Untouched old) :
    Follows (lastFieldsInto input false nextEndl nextSpace tempSpace bytesStr)
      old (lastFields input false nextEndl nextSpace tempSpace bytesStr [])
      fun (bytesStr, casStr, noreply) =>
        (bytesStr, { old with casStr := casStr, noreply := noreply }) := by
  have hcas (noreply : Bool) : { old with casStr := [], noreply := noreply } =
      { old with noreply := noreply } := by
    rw [← hold.1]
  apply Follows.ite
  · refine .bind (.read _ hold) ?_
    rintro ⟨text, after⟩ -
    apply Follows.assign
    exact .pure _ _ (congrArg _ (hcas false))
  · refine .bind (.read _ hold) ?_
    intro noreply _
    apply Follows.assign
    exact .pure _ _ (congrArg _ (hcas noreply))

theorem bytesAndTokenInto_follows (nextEndl nextSpace : Nat)
    (hold : Untouched old) :
    Follows (bytesAndTokenInto input false nextEndl nextSpace) old
      (bytesAndToken input false nextEndl nextSpace)
      fun (bytesStr, casStr, noreply) =>
        (bytesStr, { old with casStr := casStr, noreply := noreply }) := by
  refine .bind (.read _ hold) ?_
  rintro ⟨bytesStr, tempSpace⟩ -
  exact lastFieldsInto_follows nextEndl nextSpace tempSpace bytesStr hold

theorem dataFieldInto_follows (nextEndl bytes : Nat) (hold : Untouched old) :
    Follows (dataFieldInto input nextEndl bytes) old
      (dataField input nextEndl bytes)
      fun (ret, data) => (ret, { old with data := data }) := by
  have hdata : { old with data := [] } = old := by
    rw [← hold.2]
  apply Follows.ite
  · exact .pure _ _ (congrArg _ hdata)
  · apply Follows.ite
    · exact .pure _ _ (congrArg _ hdata)
    · cases substr input (toWord (nextEndl + 2)) bytes with
      | error e => exact ⟨old, rfl, hold⟩
      | ok data =>
          apply Follows.assign
          apply Follows.ite
          · exact .pure _ _ rfl
          · exact .pure _ _ rfl

theorem bytesAndToken_casStr {nextEndl nextSpace : Nat}
    {bytesStr casStr : Bytes} {noreply : Bool}
    (h : bytesAndToken input false nextEndl nextSpace =
      .ok (bytesStr, casStr, noreply)) : casStr = [] := by
  simp only [bytesAndToken, casField, Bool.false_eq_true, false_and, if_false,
    Parse.bind_eq_ok, Parse.pure_eq] at h
  obtain ⟨⟨text, after⟩, -, ⟨start, none, stop⟩, hfield, hlast⟩ := h
  cases hfield
  unfold lastFields at hlast
  split at hlast
  · simp only [Parse.bind_eq_ok, Bool.false_eq_true, if_false, Parse.pure_eq,
      Except.ok.injEq, Prod.mk.injEq] at hlast
    obtain ⟨-, -, -, rfl, -⟩ := hlast
    rfl
  · simp only [Parse.bind_eq_ok, Parse.pure_eq, Except.ok.injEq,
      Prod.mk.injEq] at hlast
    obtain ⟨-, -, -, rfl, -⟩ := hlast
    rfl

theorem countInto_follows {flags : Bytes} {expTime : Nat}
    (nextEndl bytesStart : Nat) (hold : Untouched old)
    (hflags : old.flags = flags) (hexpTime : old.expTime = expTime) :
    Follows
      (do
        let bytesStr ← bytesAndTokenInto input false nextEndl bytesStart
        let bytes ← Into.read
          (stoulOr "CLIENT_ERROR invalid number of bytes\r\n" bytesStr)
        Into.assign fun store => { store with bytes := bytes }
        dataFieldInto input nextEndl bytes) old
      (do
        let (bytesStr, casStr, noreply) ←
          bytesAndToken input false nextEndl bytesStart
        let bytes ←
          stoulOr "CLIENT_ERROR invalid number of bytes\r\n" bytesStr
        let (ret, data) ← dataField input nextEndl bytes
        return (ret, ⟨old.key, flags, expTime, bytes, casStr, noreply, data⟩))
      fun (ret, store) => (ret, store) := by
  subst hflags hexpTime
  refine .bind (bytesAndTokenInto_follows _ _ hold) ?_
  rintro ⟨bytesStr, casStr, noreply⟩ hfields
  have hcas := bytesAndToken_casStr hfields
  have hkept : Untouched { old with casStr := casStr, noreply := noreply } :=
    ⟨hcas, hold.2⟩
  refine .bind (.read _ hkept) ?_
  intro bytes _
  apply Follows.assign
  refine .map (dataFieldInto_follows _ _ hkept) ?_
  rintro ⟨ret, data⟩
  rfl

/-- The parser that assigns reads what the other one reads, and that is what the
struct ends up with, if there was nothing in it that is not assigned. -/
theorem cmdProcessCommonInto_follows {isExistData : Bool}
    (hold : Untouched old)
    (hshort : isExistData = true → old.flags = [] ∧ old.expTime = 0) :
    Follows (cmdProcessCommonInto now input false isExistData) old
      (cmdProcessCommon now input false isExistData)
      fun (ret, store) => (ret, store) := by
  apply Follows.ite
  · exact .reply _ hold
  · refine .bind (.read _ hold) ?_
    rintro ⟨key, tempSpace⟩ -
    apply Follows.assign
    apply Follows.ite
    · exact .reply _ hold
    · refine .bind (flagsAndExpiryInto_follows isExistData _ _ hold) ?_
      rintro ⟨flags, expTime, bytesStart⟩ hfields
      cases isExistData with
      | true =>
          cases hfields
          have hkept : Untouched { old with key := key } := hold
          exact countInto_follows _ _ hkept (hshort rfl).1 (hshort rfl).2
      | false =>
          have hkept : Untouched
              { old with key := key, flags := flags, expTime := expTime } :=
            hold
          exact countInto_follows _ _ hkept rfl rfl

theorem cmdProcessCommonInto_error {isExistData : Bool} {stop : Stop}
    (h : cmdProcessCommon now input false isExistData = .error stop) :
    ∃ left, cmdProcessCommonInto now input false isExistData {} =
      (.error stop, left) := by
  have hfollows : Follows (cmdProcessCommonInto now input false isExistData) {}
      (cmdProcessCommon now input false isExistData)
      fun (ret, store) => (ret, store) :=
    cmdProcessCommonInto_follows ⟨rfl, rfl⟩ fun _ => ⟨rfl, rfl⟩
  rw [h] at hfollows
  obtain ⟨left, hleft, -⟩ := hfollows
  exact ⟨left, hleft⟩

theorem fresh_cmdProcessCommonInto (now : Nat) (input : Bytes)
    (isExistData : Bool) :
    (cmdProcessCommonInto now input false isExistData).fresh =
      cmdProcessCommon now input false isExistData :=
  (cmdProcessCommonInto_follows ⟨rfl, rfl⟩ fun _ => ⟨rfl, rfl⟩).result

/-- Nothing shows that the two parses share a struct. -/
theorem fresh_extendRequestInto (now : Nat) (input : Bytes) :
    (extendRequestInto now input).fresh = extendRequest now input := by
  have hshort : Follows (cmdProcessCommonInto now input false true) {}
      (cmdProcessCommon now input false true) fun (ret, store) => (ret, store) :=
    cmdProcessCommonInto_follows ⟨rfl, rfl⟩ fun _ => ⟨rfl, rfl⟩
  have hfresh := fresh_cmdProcessCommonInto now input true
  unfold Into.fresh at hfresh ⊢
  unfold extendRequestInto extendRequest
  cases hparse : cmdProcessCommon now input false true with
  | ok result =>
      rw [hparse] at hshort hfresh
      have hdone : cmdProcessCommonInto now input false true {} =
          (.ok result.1, result.2) := hshort
      rw [hdone] at hfresh ⊢
      exact hfresh
  | error stop =>
      rw [hparse] at hshort hfresh
      obtain ⟨left, hleft, huntouched⟩ := hshort
      rw [hleft] at hfresh ⊢
      cases stop with
      | reply output =>
          have hagain : Follows (cmdProcessCommonInto now input false false)
              left (cmdProcessCommon now input false false)
              fun (ret, store) => (ret, store) :=
            cmdProcessCommonInto_follows huntouched (by simp)
          exact hagain.result
      | exception e => exact hfresh

end Parsing

/-! ## What a parse is refused with -/

def ClientErrors {α : Type} (p : Parse α) : Prop :=
  ∀ output, p = .error (.reply output) → ascii "CLIENT_ERROR " <+: output

section Refusing

variable {α β : Type} {p : Parse α}

theorem ClientErrors.ok (a : α) : ClientErrors (.ok a) := by
  intro output h
  cases h

theorem ClientErrors.exception (e : StdException) :
    ClientErrors (.error (.exception e) : Parse α) := by
  intro output h
  cases h

theorem ClientErrors.reply {text : String}
    (htext : ascii "CLIENT_ERROR " <+: ascii text) :
    ClientErrors (Scmd.reply text : Parse α) := by
  intro output h
  cases h
  exact htext

theorem ClientErrors.bind {f : α → Parse β} (hp : ClientErrors p)
    (hf : ∀ a, ClientErrors (f a)) : ClientErrors (p >>= f) := by
  cases p with
  | ok a => exact hf a
  | error stop =>
      intro output h
      cases h
      exact hp output rfl

theorem ClientErrors.ite {c : Prop} [Decidable c] {q : Parse α}
    (hp : ClientErrors p) (hq : ClientErrors q) :
    ClientErrors (if c then p else q) := by
  split
  · exact hp
  · exact hq

theorem clientErrors_field (input delimiter : Bytes) (pos : Nat) :
    ClientErrors (field input delimiter pos) := by
  refine .bind ?_ fun _ => .ok _
  unfold between
  split
  · exact .ok _
  · exact .exception _

theorem clientErrors_stoulOr {output : String} (text : Bytes)
    (houtput : ascii "CLIENT_ERROR " <+: ascii output) :
    ClientErrors (stoulOr output text) := by
  unfold stoulOr
  split
  · exact .ok _
  · exact .reply houtput
  · exact .exception _

theorem clientErrors_flagsAndExpiry (now : Nat) (input : Bytes)
    (isExistData : Bool) (nextEndl nextSpace : Nat) :
    ClientErrors (flagsAndExpiry now input isExistData nextEndl nextSpace) := by
  refine .ite (.ok _) (.bind (clientErrors_field _ _ _) fun _ => ?_)
  refine .ite (.reply (by decide)) (.bind (clientErrors_field _ _ _) fun _ => ?_)
  refine .bind (.bind (clientErrors_stoulOr _ (by decide)) fun _ => .ok _)
    fun _ => ?_
  exact .ite (.reply (by decide)) (.ok _)

theorem clientErrors_bytesAndToken (input : Bytes) (isCas : Bool)
    (nextEndl nextSpace : Nat) :
    ClientErrors (bytesAndToken input isCas nextEndl nextSpace) := by
  have hcas (start stop : Nat) :
      ClientErrors (casField input isCas nextEndl start stop) :=
    .ite (.ite (.reply (by decide))
      (.bind (clientErrors_field _ _ _) fun _ => .ok _)) (.ok _)
  have hnoreply (start : Nat) :
      ClientErrors (noreplyField input nextEndl start) :=
    .ite (.ok _) (.bind (clientErrors_field _ _ _) fun _ =>
      .ite (.reply (by decide)) (.ok _))
  refine .bind (clientErrors_field _ _ _) fun _ => .bind (hcas _ _) fun _ => ?_
  exact .ite (.bind (clientErrors_field _ _ _) fun _ => .ok _)
    (.bind (hnoreply _) fun _ => .ok _)

theorem clientErrors_dataField (input : Bytes) (nextEndl bytes : Nat) :
    ClientErrors (dataField input nextEndl bytes) := by
  refine .ite (.ok _) (.ite (.ok _) ?_)
  split
  · exact .exception _
  · exact .ite (.ok _) (.ok _)

/-- So the test for an empty `output` tells a refused parse from one that came
to its end. -/
theorem cmdProcessCommon_clientErrors (now : Nat) (input : Bytes)
    (isCas isExistData : Bool) :
    ClientErrors (cmdProcessCommon now input isCas isExistData) := by
  refine .ite (.reply (by decide)) (.bind (clientErrors_field _ _ _) fun _ => ?_)
  refine .ite (.reply (by decide)) ?_
  refine .bind (clientErrors_flagsAndExpiry _ _ _ _ _) fun _ => ?_
  refine .bind (clientErrors_bytesAndToken _ _ _ _) fun _ => ?_
  refine .bind (clientErrors_stoulOr _ (by decide)) fun _ => ?_
  exact .bind (clientErrors_dataField _ _ _) fun _ => .ok _

end Refusing

/-! ## Full headers -/

structure FullForm (h : Header) : Prop where
  word : h.word = .append ∨ h.word = .prepend
  key : OneWord h.key
  flags : OneWord h.flags
  expTime : OneWord h.expTime
  bytes : OneWord h.bytes
  expiry : numberAt h.expTime ≠ none
  count : numberAt h.bytes ≠ none
  token : h.token = []

def Word.joined (w : Word) (old data : Bytes) : Bytes :=
  if w = .append then old ++ data else data ++ old

section FullForms

variable {h : Header} {n : Nat}

theorem ne_noreply_of_numberAt {text : Bytes} (hnumber : numberAt text ≠ none) :
    text ≠ [] ∧ text ≠ ascii "noreply" := by
  constructor
  · rintro rfl
    exact hnumber rfl
  · rintro rfl
    exact hnumber rfl

theorem FullForm.noCas (hfull : FullForm h) : h.word ≠ .cas := by
  rcases hfull.word with hword | hword
  · simp [hword]
  · simp [hword]

theorem FullForm.stores (hfull : FullForm h) : h.word.stores = true := by
  rcases hfull.word with hword | hword
  · rw [hword]
    rfl
  · rw [hword]
    rfl

theorem FullForm.storageRequest (hfull : FullForm h) (now : Nat)
    (input : Bytes) :
    h.word.storageRequest now input = Scmd.extendRequest now input := by
  rcases hfull.word with hword | hword
  · rw [hword]
    rfl
  · rw [hword]
    rfl

theorem FullForm.oneLine (hfull : FullForm h) : ¬ crlf <:+: h.line := by
  have hending : h.ending = h.bytes ++ optionsText h.noreply := by
    rw [Header.ending, if_neg hfull.noCas]
    rfl
  have hlast : ¬ crlf <:+: h.ending := by
    rw [hending]
    exact oneLine_options hfull.bytes.2 h.noreply
  have hword : ¬ crlf <:+: ascii h.word.text := by
    cases h.word <;> decide
  exact oneLine_append hword (oneLine_append hfull.key.2
    (oneLine_append hfull.flags.2 (oneLine_append hfull.expTime.2 hlast)))

theorem FullForm.wellFormed (hfull : FullForm h) {e : Nat}
    (hcount : stoul h.bytes = .ok n) (hexpiry : stoul h.expTime = .ok e) :
    h.WellFormed n where
  stores := hfull.stores
  key := hfull.key.1
  flags := hfull.flags.1
  expTime := hfull.expTime.1
  bytes := hfull.bytes.1
  token := by simp [hfull.token]
  expiry := ⟨e, hexpiry⟩
  count := hcount
  oneLine := hfull.oneLine

theorem FullForm.short (hfull : FullForm h) (now : Nat) {data : Bytes}
    (hsmall : (h.line ++ (crlf ++ data)).length + 2 < wordSize) :
    ∃ output, cmdProcessCommon now (h.line ++ (crlf ++ data)) false true =
      .error (.reply output) := by
  have hframed : Framed (h.line ++ (crlf ++ data)) h.line data :=
    ⟨rfl, find?_crlf hfull.oneLine data, hsmall⟩
  rw [cmdProcessCommon_short hframed now]
  exact shortOf_fields hfull.noCas hfull.key.1 hfull.flags.1 hfull.expTime.1
    hfull.bytes.1 (ne_noreply_of_numberAt hfull.expiry).2
    (ne_noreply_of_numberAt hfull.count) data

theorem FullForm.extendRequest (hfull : FullForm h) (now : Nat) {data : Bytes}
    (hsmall : (h.line ++ (crlf ++ data)).length + 2 < wordSize) :
    extendRequest now (h.line ++ (crlf ++ data)) =
      cmdProcessCommon now (h.line ++ (crlf ++ data)) false false := by
  obtain ⟨output, hshort⟩ := hfull.short now hsmall
  rw [Scmd.extendRequest, hshort]

theorem FullForm.dispatch_storage (hfull : FullForm h) (times : Times)
    {data : Bytes} (hsmall : (h.line ++ (crlf ++ data)).length + 2 < wordSize) :
    Scmd.dispatch times (h.line ++ (crlf ++ data)) =
      storage (cmdProcessCommon times.parse (h.line ++ (crlf ++ data)) false
        false) (h.word.storeStep times) := by
  unfold Scmd.dispatch
  rw [commandWord_header]
  simp only [ofBytes_text, process_storage hfull.stores, hfull.storageRequest,
    hfull.extendRequest times.parse hsmall]

theorem FullForm.dispatch (hfull : FullForm h) (times : Times) {e : Nat}
    {data : Bytes} (hcount : stoul h.bytes = .ok n)
    (hexpiry : stoul h.expTime = .ok e) (hcomplete : n ≤ data.length)
    (hsmall : (h.line ++ (crlf ++ data)).length + 2 < wordSize) :
    ∃ expTime, dispatch times (h.line ++ (crlf ++ data)) =
      h.word.storeStep times (h.read expTime n data) := by
  have wf := hfull.wellFormed hcount hexpiry
  obtain ⟨expTime, hexpTime⟩ := exists_expiryField wf times.parse
  have hread := storageRequest_header_of wf hexpTime
    (dataOf_complete hcount hcomplete) hsmall
  refine ⟨expTime, ?_⟩
  unfold Scmd.dispatch
  simp only [commandWord_header, ofBytes_text, process_storage wf.stores, hread,
    storage, parsed, gt_iff_lt, lt_irrefl, if_false]
  rfl

theorem storeStep_run {env : Env} {times : Times} {s : Store} {w : Word}
    (store : StorageStruct) {it : MapEntry}
    (hword : w = .append ∨ w = .prepend) (hit : s.entry store.key = some it)
    (hlive : ¬ Dead s (times.get 0) it)
    (hfits : insertFits env store.key it.1.flags
      (insertToken env times.write.now s) (w.joined it.1.value store.data) s) :
    ∃ s', (w.storeStep times store).run env ⟨s, Locks.free⟩ =
        .ok (answer store.noreply (ascii "STORED\r\n"), ⟨s', Locks.free⟩) ∧
      Rewritten s s' store.key it (w.joined it.1.value store.data)
        (toWord (times.write.now + wordSub it.1.expiry (times.get 0))) := by
  rcases hword with rfl | rfl
  · exact rewrite_run hit hlive rfl hfits
  · exact rewrite_run hit hlive rfl hfits

end FullForms

/-- The request is taken for what it is.  Of the parse for a short header nothing
is used but that it fails: what the handler goes on with is what the other parse
alone would have read into a new struct.  Once the block is there it is joined to
the value of a live key. -/
structure ReadAsFull (h : Header) (data : Bytes) : Prop where
  short : ∀ now, ∃ output left,
    cmdProcessCommon now (h.line ++ (crlf ++ data)) false true =
        .error (.reply output) ∧
      cmdProcessCommonInto now (h.line ++ (crlf ++ data)) false true {} =
        (.error (.reply output), left) ∧
      ascii "CLIENT_ERROR " <+: output
  full : ∀ now,
    extendRequest now (h.line ++ (crlf ++ data)) =
        cmdProcessCommon now (h.line ++ (crlf ++ data)) false false ∧
      (extendRequestInto now (h.line ++ (crlf ++ data))).fresh =
        cmdProcessCommon now (h.line ++ (crlf ++ data)) false false
  handler : ∀ times, dispatch times (h.line ++ (crlf ++ data)) =
    storage (cmdProcessCommon times.parse (h.line ++ (crlf ++ data)) false false)
      (h.word.storeStep times)
  stored : ∀ (env : Env) (times : Times) (s : Store) (n e : Nat)
    (it : MapEntry), stoul h.bytes = .ok n → stoul h.expTime = .ok e →
    n ≤ data.length → s.entry h.key = some it → ¬ Dead s (times.get 0) it →
    insertFits env h.key it.1.flags (insertToken env times.write.now s)
      (h.word.joined it.1.value (data.take n)) s →
    ∃ s', (dispatch times (h.line ++ (crlf ++ data))).run env ⟨s, Locks.free⟩ =
        .ok (answer h.noreply (ascii "STORED\r\n"), ⟨s', Locks.free⟩) ∧
      ∃ it', s'.entry h.key = some it' ∧
        it'.1.value = h.word.joined it.1.value (data.take n) ∧
        it'.1.flags = it.1.flags

/-- A full header of `append` or `prepend` is never misread. -/
theorem extend_reads_full (h : Header) (hfull : FullForm h) (data : Bytes)
    (hsmall : (h.line ++ (crlf ++ data)).length + 2 < wordSize) :
    ReadAsFull h data where
  short now := by
    obtain ⟨output, hshort⟩ := hfull.short now hsmall
    obtain ⟨left, hleft⟩ := cmdProcessCommonInto_error hshort
    have hreply := cmdProcessCommon_clientErrors now (h.line ++ (crlf ++ data))
      false true output hshort
    exact ⟨output, left, hshort, hleft, hreply⟩
  full now := by
    have hrequest := hfull.extendRequest now hsmall
    exact ⟨hrequest, (fresh_extendRequestInto now _).trans hrequest⟩
  handler times := hfull.dispatch_storage times hsmall
  stored := by
    intro env times s n e it hcount hexpiry hcomplete hit hlive hfits
    obtain ⟨expTime, hdispatch⟩ :=
      hfull.dispatch times hcount hexpiry hcomplete hsmall
    obtain ⟨s', hrun, hrewritten⟩ :=
      storeStep_run (h.read expTime n data) hfull.word hit hlive hfits
    obtain ⟨it', hit', hvalue, hflags, -⟩ := hrewritten.entry
    rw [hdispatch]
    exact ⟨s', hrun, it', hit', hvalue, hflags⟩

/-- Empty flags are the case in which the short parse comes closest: it takes the
exptime for the count. -/
theorem extend_reads_full_empty_flags :
    ReadAsFull ⟨.append, [107], [], [48], [53], [], true⟩ [1, 2, 3] :=
  extend_reads_full ⟨.append, [107], [], [48], [53], [], true⟩
    ⟨.inl rfl, by decide, by decide, by decide, by decide, by decide,
      by decide, rfl⟩ [1, 2, 3] (by decide)

end Memstashed.Scmd
