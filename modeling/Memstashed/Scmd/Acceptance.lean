import Memstashed.Foundation.Numerals
import Memstashed.Scmd.Unterminated
import Memstashed.Scmd.Exceptions

/-!
# What is taken for a storage header

The lines that the parser does not refuse, described by their fields.  A number
is whatever `stoul` finds at the start of a field; a line may end behind the last
field, behind a space, and behind `noreply` with or without a space.
-/

namespace Memstashed.Scmd

open Memstashed.Foundation
open Memstashed.Dblru

/-! ## Any input -/

def runOn (input : Bytes) : Bytes :=
  if crlf <:+: input then crlf ++ (cut space (afterLine input)).1 else []

def endingOf (input : Bytes) (isCas : Bool) (rest : Bytes) :
    Parse (Bytes × Bytes × Bool) :=
  if crlf <:+: input then bytesAndTokenOf isCas (afterLine input) rest
  else openEndingOf isCas rest

def shortEndingIn (input rest : Bytes) : Parse (Bytes × Bytes × Bool) :=
  if crlf <:+: input then shortEndingOf (afterLine input) rest
  else openShortEndingOf rest

theorem Framed.isInfix {input line data : Bytes} (f : Framed input line data) :
    crlf <:+: input :=
  ⟨line, data, by rw [f.eq, List.append_assoc]⟩

theorem Framed.lineOf_eq {input line data : Bytes} (f : Framed input line data) :
    lineOf input = line := by
  rw [lineOf, f.find_crlf, f.eq, List.take_left]

theorem Framed.afterLine_eq {input line data : Bytes}
    (f : Framed input line data) : afterLine input = data := by
  rw [afterLine, f.find_crlf, f.eq, ← List.drop_drop]
  simp [crlf]

section Any

variable {input : Bytes}

theorem cmdProcessCommon_eq (hsmall : input.length + 2 < wordSize) (now : Nat)
    (isCas : Bool) :
    cmdProcessCommon now input isCas false =
      fullOf now (runOn input) (endingOf input isCas) (afterLine input)
        (lineOf input) := by
  rcases framed_or_unended hsmall with f | u
  · have hrun : runOn input = crlf ++ (cut space (afterLine input)).1 :=
      if_pos f.isInfix
    have hending : endingOf input isCas =
        bytesAndTokenOf isCas (afterLine input) :=
      funext fun rest => if_pos f.isInfix
    rw [cmdProcessCommon_full f, commonOf_eq_fullOf, hrun, hending]
  · have hrun : runOn input = [] := if_neg u.noCrlf
    have hending : endingOf input isCas = openEndingOf isCas :=
      funext fun rest => if_neg u.noCrlf
    rw [cmdProcessCommon_open u, hrun, hending, u.lineOf_eq, u.afterLine_eq]

theorem cmdProcessCommon_short_eq (hsmall : input.length + 2 < wordSize)
    (now : Nat) :
    cmdProcessCommon now input false true =
      shortFormOf (shortEndingIn input) (afterLine input) (lineOf input) := by
  rcases framed_or_unended hsmall with f | u
  · have hending : shortEndingIn input = shortEndingOf (afterLine input) :=
      funext fun rest => if_pos f.isInfix
    rw [cmdProcessCommon_short f, shortOf_eq_shortFormOf, hending]
  · have hending : shortEndingIn input = openShortEndingOf :=
      funext fun rest => if_neg u.noCrlf
    rw [cmdProcessCommon_openShort u, hending, u.lineOf_eq, u.afterLine_eq]

end Any

/-! ## Endings -/

/-- The fields that may stand behind the last one.  Without a CRLF, something has
to. -/
def endings (input : Bytes) : List (List Bytes) :=
  if crlf <:+: input then
    [[], [[]], [ascii "noreply"], [ascii "noreply", []]]
  else [[ascii "noreply"], [ascii "noreply", []]]

/-- The end of a line: the field of the byte count, the fields behind it, and the
text that is converted to the byte count.  A `cas` may do without a token if no
space follows in the data, which are then converted as well. -/
inductive Ends (input : Bytes) : Bool → Bytes → List Bytes → Bytes → Prop
  | plain {bytes : Bytes} {more : List Bytes} (hmore : more ∈ endings input) :
      Ends input false bytes more bytes
  | token {bytes token : Bytes} {more : List Bytes}
      (hmore : more ∈ endings input) :
      Ends input true bytes (token :: more) bytes
  | noToken {bytes : Bytes} (hcrlf : crlf <:+: input)
      (hdata : space ∉ afterLine input) :
      Ends input true bytes [] (bytes ++ (crlf ++ afterLine input))

theorem splitOn_injective :
    Function.Injective fun s : Bytes => s.splitOn space := by
  intro s t h
  have hs : [space].intercalate (s.splitOn space) = s :=
    List.intercalate_splitOn space
  have ht : [space].intercalate (t.splitOn space) = t :=
    List.intercalate_splitOn space
  rw [← hs, ← ht]
  exact congrArg _ h

section Endings

variable {input rest bytes token bytesStr : Bytes} {more : List Bytes}

theorem ends_plain_iff :
    Ends input false bytes more bytesStr ↔
      more ∈ endings input ∧ bytes = bytesStr := by
  constructor
  · rintro ⟨hmore⟩
    exact ⟨hmore, rfl⟩
  · rintro ⟨hmore, rfl⟩
    exact .plain hmore

theorem ends_token_iff :
    Ends input true bytes (token :: more) bytesStr ↔
      more ∈ endings input ∧ bytes = bytesStr := by
  constructor
  · intro h
    cases h with
    | token hmore => exact ⟨hmore, rfl⟩
  · rintro ⟨hmore, rfl⟩
    exact .token hmore

theorem ends_noToken_iff :
    Ends input true bytes [] bytesStr ↔ crlf <:+: input ∧
      space ∉ afterLine input ∧ bytes ++ (crlf ++ afterLine input) = bytesStr := by
  constructor
  · intro h
    cases h with
    | noToken hcrlf hdata => exact ⟨hcrlf, hdata, rfl⟩
  · rintro ⟨hcrlf, hdata, rfl⟩
    exact .noToken hcrlf hdata

theorem nil_mem_endings : [] ∈ endings input ↔ crlf <:+: input := by
  unfold endings
  split <;> simp [*]

theorem mem_endings_of_crlf (h : crlf <:+: input) :
    rest.splitOn space ∈ endings input ↔ ∃ b, noreplyOf rest = .ok b := by
  have hends : endings input =
      [] :: [[], ascii "noreply", ascii "noreply "].map
        fun s => s.splitOn space := by
    rw [endings, if_pos h]
    decide
  rw [hends, List.mem_cons, or_iff_right (List.splitOn_ne_nil space rest),
    List.mem_map_of_injective splitOn_injective]
  unfold noreplyOf
  by_cases hempty : rest = []
  · simp [hempty]
  · by_cases hjunk : rest ≠ ascii "noreply" ∧ rest ≠ ascii "noreply "
    · simp [hempty, hjunk, reply]
    · simp only [hempty, hjunk, if_false, List.mem_cons, List.not_mem_nil,
        or_false, false_or, Parse.pure_eq, Except.ok.injEq, exists_eq', iff_true]
      tauto

theorem mem_endings_of_open (h : ¬ crlf <:+: input) :
    rest.splitOn space ∈ endings input ↔ ∃ b, openNoreplyOf rest = .ok b := by
  have hends : endings input =
      [ascii "noreply", ascii "noreply "].map fun s => s.splitOn space := by
    rw [endings, if_neg h]
    decide
  rw [hends, List.mem_map_of_injective splitOn_injective]
  unfold openNoreplyOf
  by_cases hjunk : rest ≠ ascii "noreply" ∧ rest ≠ ascii "noreply "
  · simp [hjunk, junk, reply]
  · simp only [hjunk, if_false, List.mem_cons, List.not_mem_nil, or_false,
      Parse.pure_eq, Except.ok.injEq, exists_eq', iff_true]
    tauto

theorem ok_of_noreply {flag : Parse Bool} (casStr : Bytes) :
    (∃ casStr' noreply, (do
        let noreply ← flag
        return (bytes, casStr, noreply)) =
      (.ok (bytesStr, casStr', noreply) : Parse (Bytes × Bytes × Bool))) ↔
      (∃ b, flag = .ok b) ∧ bytes = bytesStr := by
  cases flag with
  | ok b => simp
  | error e => simp

theorem exists_fields {fields : List Bytes} {isCas : Bool} (bytes : Bytes)
    (h : rest.splitOn space = bytes :: fields) :
    (∃ bytes more, rest.splitOn space = bytes :: more ∧
      Ends input isCas bytes more bytesStr) ↔
      Ends input isCas bytes fields bytesStr := by
  constructor
  · rintro ⟨bytes', more, hline, hends⟩
    rw [h] at hline
    cases hline
    exact hends
  · exact fun hends => ⟨bytes, fields, h, hends⟩

theorem bytesAndTokenOf_ok_iff (hcrlf : crlf <:+: input) (isCas : Bool) :
    (∃ casStr noreply, bytesAndTokenOf isCas (afterLine input) rest =
      .ok (bytesStr, casStr, noreply)) ↔
    ∃ bytes more, rest.splitOn space = bytes :: more ∧
      Ends input isCas bytes more bytesStr := by
  cases hcut : cut space rest with
  | mk bytes after =>
      cases after with
      | none =>
          rw [exists_fields bytes (splitOn_cut_none hcut)]
          cases isCas with
          | false =>
              simp [bytesAndTokenOf, hcut, ends_plain_iff, nil_mem_endings,
                hcrlf]
          | true =>
              obtain ⟨rfl, -⟩ := cut_of_none hcut
              by_cases hdata : space ∈ afterLine input
              · simp [bytesAndTokenOf, hcut, ends_noToken_iff, hdata, reply]
              · simp [bytesAndTokenOf, hcut, ends_noToken_iff, hdata, hcrlf]
      | some after =>
          rw [exists_fields bytes (splitOn_cut hcut)]
          cases isCas with
          | false =>
              rw [ends_plain_iff, mem_endings_of_crlf hcrlf, ← ok_of_noreply []]
              simp only [bytesAndTokenOf, hcut]
          | true =>
              cases hcut' : cut space after with
              | mk casStr last =>
                  cases last with
                  | none =>
                      rw [splitOn_cut_none hcut', ends_token_iff,
                        nil_mem_endings]
                      simp [bytesAndTokenOf, hcut, hcut', hcrlf]
                  | some last =>
                      rw [splitOn_cut hcut', ends_token_iff,
                        mem_endings_of_crlf hcrlf,
                        ← ok_of_noreply casStr]
                      simp only [bytesAndTokenOf, hcut, hcut']

theorem openEndingOf_ok_iff (hcrlf : ¬ crlf <:+: input) (isCas : Bool) :
    (∃ casStr noreply, openEndingOf isCas rest =
      .ok (bytesStr, casStr, noreply)) ↔
    ∃ bytes more, rest.splitOn space = bytes :: more ∧
      Ends input isCas bytes more bytesStr := by
  cases hcut : cut space rest with
  | mk bytes after =>
      cases after with
      | none =>
          rw [exists_fields bytes (splitOn_cut_none hcut)]
          cases isCas with
          | false =>
              simp [openEndingOf, hcut, ends_plain_iff, nil_mem_endings, hcrlf,
                junk, reply]
          | true =>
              simp [openEndingOf, hcut, ends_noToken_iff, hcrlf, junk, reply]
      | some after =>
          rw [exists_fields bytes (splitOn_cut hcut)]
          cases isCas with
          | false =>
              rw [ends_plain_iff, mem_endings_of_open hcrlf, ← ok_of_noreply []]
              simp only [openEndingOf, hcut]
          | true =>
              cases hcut' : cut space after with
              | mk casStr last =>
                  cases last with
                  | none =>
                      rw [splitOn_cut_none hcut', ends_token_iff,
                        nil_mem_endings]
                      simp [openEndingOf, hcut, hcut', hcrlf, junk, reply]
                  | some last =>
                      rw [splitOn_cut hcut', ends_token_iff,
                        mem_endings_of_open hcrlf,
                        ← ok_of_noreply casStr]
                      simp only [openEndingOf, hcut, hcut']

theorem endingOf_ok_iff (isCas : Bool) :
    (∃ casStr noreply, endingOf input isCas rest =
      .ok (bytesStr, casStr, noreply)) ↔
    ∃ bytes more, rest.splitOn space = bytes :: more ∧
      Ends input isCas bytes more bytesStr := by
  unfold endingOf
  by_cases hcrlf : crlf <:+: input
  · rw [if_pos hcrlf]
    exact bytesAndTokenOf_ok_iff hcrlf isCas
  · rw [if_neg hcrlf]
    exact openEndingOf_ok_iff hcrlf isCas

theorem quiet_openNoreplyOf (rest : Bytes) : Quiet (openNoreplyOf rest) := by
  unfold openNoreplyOf
  split
  · exact quiet_reply _
  · exact quiet_ok _

theorem quiet_openEndingOf (isCas : Bool) (rest : Bytes) :
    Quiet (openEndingOf isCas rest) := by
  unfold openEndingOf
  split
  · exact quiet_reply _
  · rw [quiet_bind]
    exact ⟨quiet_openNoreplyOf _, fun _ _ => quiet_ok _⟩
  · split
    · exact quiet_reply _
    · rw [quiet_bind]
      exact ⟨quiet_openNoreplyOf _, fun _ _ => quiet_ok _⟩

theorem quiet_endingOf (input : Bytes) (isCas : Bool) (rest : Bytes) :
    Quiet (endingOf input isCas rest) := by
  unfold endingOf
  split
  · exact quiet_bytesAndTokenOf isCas _ rest
  · exact quiet_openEndingOf isCas rest

end Endings

/-! ## Refusals -/

def Passed {α : Type} (request : Parse α) : Prop :=
  ∀ output, request ≠ .error (.reply output)

theorem passed_ok {α : Type} (a : α) : Passed (.ok a : Parse α) := by
  intro output h
  contradiction

theorem not_passed_reply {α : Type} (output : String) :
    ¬ Passed (reply output : Parse α) :=
  fun h => h _ rfl

theorem passed_bind {α β : Type} (request : Parse α) (k : α → Parse β) :
    Passed (request >>= k) ↔
      Passed request ∧ ∀ a, request = .ok a → Passed (k a) := by
  cases request with
  | ok a => simp [Passed]
  | error stop => simp [Passed]

theorem passed_stoulOr (output : String) (text : Bytes) :
    Passed (stoulOr output text) ↔ numberAt text ≠ none := by
  rw [ne_eq, ← stoul_eq_invalidArgument]
  unfold Passed stoulOr
  cases stoul text with
  | ok n => simp
  | error e => cases e <;> simp [reply]

theorem passed_expiryField (now : Nat) (text : Bytes) :
    Passed (expiryField now text) ↔ numberAt text ≠ none := by
  simp only [expiryField, passed_bind, passed_stoulOr, Parse.pure_eq, passed_ok,
    implies_true, and_true]

theorem passed_of_quiet {α : Type} {request : Parse α} (h : Quiet request) :
    Passed request ↔ ∃ a, request = .ok a := by
  cases request with
  | ok a => simp [passed_ok]
  | error stop =>
      cases stop with
      | reply output => simp [Passed]
      | exception e => exact absurd rfl (h e)

theorem expiryField_ok_iff {now : Nat} {text : Bytes} :
    (∃ expTime, expiryField now text = .ok expTime) ↔
      ∃ n, stoul text = .ok n := by
  unfold expiryField stoulOr
  cases stoul text with
  | ok n => simp
  | error e => cases e <;> simp [reply]

theorem stoul_cases (text : Bytes) :
    numberAt text = none ∧ stoul text = .error .invalidArgument ∨
    numberAt text ≠ none ∧ stoul text = .error .outOfRange ∨
    numberAt text ≠ none ∧ ∃ n, stoul text = .ok n := by
  have hinvalid := stoul_eq_invalidArgument (s := text)
  cases hstoul : stoul text with
  | ok n =>
      refine .inr (.inr ⟨fun hnone => ?_, n, rfl⟩)
      simp [hstoul, hnone] at hinvalid
  | error e =>
      cases e with
      | invalidArgument => exact .inl ⟨hinvalid.mp hstoul, rfl⟩
      | outOfRange =>
          refine .inr (.inl ⟨fun hnone => ?_, rfl⟩)
          simp [hstoul, hnone] at hinvalid

/-- The inputs that the parser does not refuse: the expiry field holds a number
that is too large, or both numbers can be read and the line ends as it may.  An
expiry field at the end of the line runs on. -/
inductive ReadAsHeader (isCas : Bool) (input : Bytes) : Prop
  | runsOn {word key flags text : Bytes}
      (hline : (lineOf input).splitOn space = [word, key, flags, text])
      (hexpiry : stoul (text ++ runOn input) = .error .outOfRange)
  | tooLarge {word key flags text bytes : Bytes} {more : List Bytes}
      (hline : (lineOf input).splitOn space =
        word :: key :: flags :: text :: bytes :: more)
      (hexpiry : stoul text = .error .outOfRange)
  | numbers {word key flags text bytes bytesStr : Bytes} {more : List Bytes}
      (hline : (lineOf input).splitOn space =
        word :: key :: flags :: text :: bytes :: more)
      (hexpiry : ∃ expTime, stoul text = .ok expTime)
      (hends : Ends input isCas bytes more bytesStr)
      (hbytes : numberAt bytesStr ≠ none)

theorem passed_dataOf (data bytesStr : Bytes) :
    Passed (dataOf data bytesStr) ↔ numberAt bytesStr ≠ none := by
  rw [dataOf, passed_bind, passed_stoulOr]
  constructor
  · intro h
    exact h.1
  · intro h
    refine ⟨h, fun bytes _ => ?_⟩
    split
    · exact passed_ok _
    · exact passed_ok _

theorem passed_expiry_then {α : Type} {now : Nat} {text : Bytes}
    {k : Nat → Parse α} {P : Prop} (hk : ∀ expTime, Passed (k expTime) ↔ P) :
    Passed (expiryField now text >>= k) ↔
      stoul text = .error .outOfRange ∨ (∃ n, stoul text = .ok n) ∧ P := by
  rw [passed_bind, passed_expiryField]
  simp only [hk]
  have hok : (∃ expTime, expiryField now text = .ok expTime) ↔
      ∃ n, stoul text = .ok n := expiryField_ok_iff
  obtain ⟨hnone, hinvalid⟩ | ⟨hnumber, hlarge⟩ | ⟨hnumber, n, hfits⟩ :=
    stoul_cases text
  · simp [hnone, hinvalid]
  · have hnot : ∀ expTime, expiryField now text ≠ .ok expTime := by
      intro expTime hexpTime
      simpa [hlarge] using hok.mp ⟨expTime, hexpTime⟩
    simp [hnumber, hlarge, hnot]
  · obtain ⟨expTime, hexpTime⟩ := hok.mpr ⟨n, hfits⟩
    simp [hnumber, hfits, hexpTime]

theorem passed_ending {ending : Parse (Bytes × Bytes × Bool)}
    (hquiet : Quiet ending) (data key flags : Bytes) (expTime : Nat) :
    Passed (do
        let (bytesStr, casStr, noreply) ← ending
        let (ret, bytes, data) ← dataOf data bytesStr
        return (ret, (⟨key, flags, expTime, bytes, casStr, noreply, data⟩ :
          StorageStruct))) ↔
      ∃ bytesStr, (∃ casStr noreply, ending = .ok (bytesStr, casStr, noreply)) ∧
        numberAt bytesStr ≠ none := by
  rw [passed_bind, passed_of_quiet hquiet]
  constructor
  · rintro ⟨⟨⟨bytesStr, casStr, noreply⟩, hending⟩, hrest⟩
    have hdata := ((passed_bind _ _).mp (hrest _ hending)).1
    exact ⟨bytesStr, ⟨casStr, noreply, hending⟩,
      (passed_dataOf data bytesStr).mp hdata⟩
  · rintro ⟨bytesStr, ⟨casStr, noreply, hending⟩, hnumber⟩
    refine ⟨⟨_, hending⟩, fun last hlast => ?_⟩
    rw [hending] at hlast
    cases hlast
    rw [passed_bind, passed_dataOf]
    exact ⟨hnumber, fun _ _ => passed_ok _⟩

theorem passed_iff_readAsHeader {input : Bytes}
    (hsmall : input.length + 2 < wordSize) (now : Nat) (isCas : Bool) :
    Passed (cmdProcessCommon now input isCas false) ↔
      ReadAsHeader isCas input := by
  rw [cmdProcessCommon_eq hsmall]
  obtain ⟨output, hshort, heq⟩ | ⟨word, key, flags, text, hline, heq⟩ |
    ⟨word, key, flags, text, rest, hline, heq⟩ := fullOf_cases (lineOf input)
  · rw [heq]
    constructor
    · exact fun h => absurd h (not_passed_reply output)
    · intro h
      cases h with
      | runsOn hline => simp [hline] at hshort
      | tooLarge hline =>
          simp only [hline, List.length_cons] at hshort
          omega
      | numbers hline =>
          simp only [hline, List.length_cons] at hshort
          omega
  · have hrefused : ∀ _ : Nat, Passed (reply
        "CLIENT_ERROR bytes not found\r\n" : Parse (Int × StorageStruct)) ↔
        False := fun _ => iff_of_false (not_passed_reply _) not_false
    rw [heq, passed_expiry_then hrefused]
    simp only [and_false, or_false]
    constructor
    · exact .runsOn hline
    · intro h
      cases h with
      | runsOn hline' hlarge =>
          rw [hline] at hline'
          cases hline'
          exact hlarge
      | tooLarge hline' => simp [hline] at hline'
      | numbers hline' => simp [hline] at hline'
  · have hends := fun expTime => passed_ending
      (quiet_endingOf input isCas rest) (afterLine input) key flags expTime
    rw [heq, passed_expiry_then hends]
    simp only [endingOf_ok_iff]
    constructor
    · rintro (hlarge | ⟨hfits, bytesStr, ⟨bytes, more, hrest, hends⟩, hnumber⟩)
      · obtain ⟨bytes, more, hrest⟩ :=
          List.exists_cons_of_ne_nil (List.splitOn_ne_nil space rest)
        rw [hrest] at hline
        exact .tooLarge hline hlarge
      · rw [hrest] at hline
        exact .numbers hline hfits hends hnumber
    · intro h
      cases h with
      | runsOn hline' =>
          simp only [hline, List.cons.injEq] at hline'
          exact absurd hline'.2.2.2.2 (List.splitOn_ne_nil space rest)
      | tooLarge hline' hlarge =>
          simp only [hline, List.cons.injEq] at hline'
          obtain ⟨-, -, -, rfl, -⟩ := hline'
          exact .inl hlarge
      | numbers hline' hfits hends hnumber =>
          simp only [hline, List.cons.injEq] at hline'
          obtain ⟨-, -, -, rfl, hrest⟩ := hline'
          exact .inr ⟨hfits, _, ⟨_, _, hrest, hends⟩, hnumber⟩

/-! ## Malformed headers -/

def lineEnds : List Bytes :=
  [[], [space], space :: ascii "noreply", space :: ascii "noreply "]

/-- The lines of the protocol, with the token that a `cas` has. -/
inductive HeaderForm : Bool → Bytes → Prop
  | plain {word key flags expTime bytes ending : Bytes}
      (hword : space ∉ word) (hkey : space ∉ key) (hflags : space ∉ flags)
      (hexpTime : Digits expTime) (hbytes : Digits bytes)
      (hending : ending ∈ lineEnds) :
      HeaderForm false (word ++ space :: (key ++ space :: (flags ++ space ::
        (expTime ++ space :: (bytes ++ ending)))))
  | cas {word key flags expTime bytes token ending : Bytes}
      (hword : space ∉ word) (hkey : space ∉ key) (hflags : space ∉ flags)
      (hexpTime : Digits expTime) (hbytes : Digits bytes)
      (htoken : token ≠ []) (hspace : space ∉ token)
      (hending : ending ∈ lineEnds) :
      HeaderForm true (word ++ space :: (key ++ space :: (flags ++ space ::
        (expTime ++ space :: (bytes ++ space :: (token ++ ending))))))

theorem splitOn_lineEnd {text ending : Bytes} (htext : space ∉ text)
    (hending : ending ∈ lineEnds) :
    ∃ more, (text ++ ending).splitOn space = text :: more := by
  have hcons : ∀ r : Bytes, ∃ more,
      (text ++ space :: r).splitOn space = text :: more :=
    fun r => ⟨_, List.splitOn_append_cons_self_of_not_mem htext r⟩
  simp only [lineEnds, List.mem_cons, List.not_mem_nil, or_false] at hending
  rcases hending with rfl | rfl | rfl | rfl
  · rw [List.append_nil]
    exact ⟨[], List.splitOn_eq_singleton htext⟩
  · exact hcons []
  · exact hcons _
  · exact hcons _

theorem HeaderForm.fields {isCas : Bool} {line : Bytes}
    (h : HeaderForm isCas line) :
    ∃ word key flags expTime bytes more,
      line.splitOn space = word :: key :: flags :: expTime :: bytes :: more ∧
      Digits expTime ∧ Digits bytes := by
  cases h with
  | plain hword hkey hflags hexpTime hbytes hending =>
      obtain ⟨more, hmore⟩ := splitOn_lineEnd hbytes.noSpace hending
      rw [List.splitOn_append_cons_self_of_not_mem hword,
        List.splitOn_append_cons_self_of_not_mem hkey,
        List.splitOn_append_cons_self_of_not_mem hflags,
        List.splitOn_append_cons_self_of_not_mem hexpTime.noSpace, hmore]
      exact ⟨_, _, _, _, _, more, rfl, hexpTime, hbytes⟩
  | cas hword hkey hflags hexpTime hbytes htoken hspace hending =>
      rw [List.splitOn_append_cons_self_of_not_mem hword,
        List.splitOn_append_cons_self_of_not_mem hkey,
        List.splitOn_append_cons_self_of_not_mem hflags,
        List.splitOn_append_cons_self_of_not_mem hexpTime.noSpace,
        List.splitOn_append_cons_self_of_not_mem hbytes.noSpace]
      exact ⟨_, _, _, _, _, _, rfl, hexpTime, hbytes⟩

/-- The slips: a number is read from the start of its field, and a number that is
too large is an exception and no error output. -/
theorem malformed_refused_iff (input : Bytes)
    (hsmall : input.length + 2 < wordSize) (now : Nat) (isCas : Bool) :
    (¬ HeaderForm isCas (lineOf input) → ∃ output,
      cmdProcessCommon now input isCas false = .error (.reply output)) ↔
    (ReadAsHeader isCas input → HeaderForm isCas (lineOf input)) := by
  rw [← passed_iff_readAsHeader hsmall now isCas]
  unfold Passed
  constructor
  · intro hrefused hpassed
    by_contra hform
    obtain ⟨output, houtput⟩ := hrefused hform
    exact hpassed output houtput
  · intro hform hmalformed
    by_contra hnot
    exact hmalformed (hform fun output houtput => hnot ⟨output, houtput⟩)

/-- An expiry field that is not a number. -/
theorem malformed_refused_word : ∃ output,
    cmdProcessCommon 1000 (ascii "set k 0 ten 1\r\na\r\n") false false =
      .error (.reply output) := by
  have hfields : (lineOf (ascii "set k 0 ten 1\r\na\r\n")).splitOn space =
      [ascii "set", ascii "k", ascii "0", ascii "ten", ascii "1"] := by decide
  have hstoul : stoul (ascii "ten") = .error .invalidArgument := by decide
  refine (malformed_refused_iff _ (by decide) 1000 false).mpr
    (fun hread => ?_) (fun hform => ?_)
  · cases hread with
    | runsOn hline => simp [hfields] at hline
    | tooLarge hline hexpiry =>
        simp only [hfields, List.cons.injEq] at hline
        rw [← hline.2.2.2.1, hstoul] at hexpiry
        contradiction
    | numbers hline hexpiry =>
        simp only [hfields, List.cons.injEq] at hline
        rw [← hline.2.2.2.1, hstoul] at hexpiry
        simp at hexpiry
  · obtain ⟨word, key, flags, expTime, bytes, more, hline, hdigits, -⟩ :=
      hform.fields
    simp only [hfields, List.cons.injEq] at hline
    rw [← hline.2.2.2.1] at hdigits
    revert hdigits
    decide

/-- A sign before one number and a letter behind the other. -/
theorem malformed_accepted :
    ¬ HeaderForm false (lineOf (ascii "set k 0 +0 1x\r\na\r\n")) ∧
    cmdProcessCommon 1000 (ascii "set k 0 +0 1x\r\na\r\n") false false =
      .ok (0, ⟨ascii "k", ascii "0", 0, 1, [], false, ascii "a"⟩) := by
  have hfields : (lineOf (ascii "set k 0 +0 1x\r\na\r\n")).splitOn space =
      [ascii "set", ascii "k", ascii "0", ascii "+0", ascii "1x"] := by decide
  refine ⟨fun hform => ?_, by decide⟩
  obtain ⟨word, key, flags, expTime, bytes, more, hline, hdigits, -⟩ :=
    hform.fields
  simp only [hfields, List.cons.injEq] at hline
  rw [← hline.2.2.2.1] at hdigits
  revert hdigits
  decide

end Memstashed.Scmd
