import Memstashed.Ssock.Calls
import Memstashed.Ssock.Sessions

/-!
# Requests on a connection among others

The program of a connection makes the calls of its requests, handed over one by
one, and nothing else but calls of `dbHandleFlushAll`, however `recv` cuts the
stream and whatever the calls answer.
-/

namespace Memstashed.Ssock

open Memstashed.Foundation
open Memstashed.Dblru
open Memstashed.Scmd

def requestsCalls (last : NoData) :
    List (Times × Bytes) → List Bytes → Command (List Bytes × Bool)
  | [], replies => .done (replies, last.waits)
  | (times, input) :: rest, replies =>
      cmdProcessCommand times input >>= fun resp =>
        if resp.ret < 0 then .done (replies, false)
        else requestsCalls last rest (replies ++ [resp.output])

/-- Each call of `cmdProcessCommand` makes one of these first. -/
def Polls : Op → Prop
  | .handleFlushAll _ => True
  | _ => False

def EndsAs : Option Parting → Command (List Bytes × Bool) → Prop
  | none, _ => True
  | some parting, q => ∃ replies, q = .done (replies, parting.waits) ∧
      parting.sent = replies.flatten

def Carries (clock : Nat → Times) (c : Conn)
    (q : Command (List Bytes × Bool)) : Prop :=
  ∀ fuel, Prog.Trails Polls EndsAs (loopCalls clock fuel c) q

def CarriesAt (clock : Nat → Times) (c : Conn)
    (q : Command (List Bytes × Bool)) : Prop :=
  ∀ fuel, Prog.Trails Polls EndsAs
    (processCalls clock c >>= goOn (loopCalls clock fuel)) q

/-! ## Reading -/

inductive Reads : Conn → Conn → Prop
  | line {c c₁ c' : Conn} : receive c = .ok c₁ → cutLine c₁ = (true, c') →
      Reads c c'
  | more {c c₁ c' : Conn} : receive c = .ok c₁ → cutLine c₁ = (false, c₁) →
      Reads c₁ c' → Reads c c'

section Reading

variable {clock : Nat → Times} {stream : Bytes} {limit : Nat} {c c' : Conn}
  {q : Command (List Bytes × Bool)}

theorem roundCalls_of_cut {c₁ : Conn} (hreceive : receive c = .ok c₁)
    (hcut : cutLine c₁ = (true, c')) :
    roundCalls clock c = processCalls clock c' := by
  simp only [roundCalls, hreceive, hcut]

theorem roundCalls_of_none {c₁ : Conn} (hreceive : receive c = .ok c₁)
    (hcut : cutLine c₁ = (false, c₁)) :
    roundCalls clock c = .done (.ok c₁) := by
  simp only [roundCalls, hreceive, hcut]

theorem carries_of_none {c₁ : Conn} (hreceive : receive c = .ok c₁)
    (hcut : cutLine c₁ = (false, c₁)) (h : Carries clock c₁ q) :
    Carries clock c q := by
  intro fuel
  cases fuel with
  | zero => exact .done trivial
  | succ fuel =>
      rw [loopCalls, roundCalls_of_none hreceive hcut]
      exact h fuel

theorem Reads.carries (h : Reads c c') (hq : CarriesAt clock c' q) :
    Carries clock c q := by
  induction h with
  | line hreceive hcut =>
      intro fuel
      cases fuel with
      | zero => exact .done trivial
      | succ fuel =>
          rw [loopCalls, roundCalls_of_cut hreceive hcut]
          exact hq fuel
  | more hreceive hcut _ ih => exact carries_of_none hreceive hcut (ih hq)

theorem Reads.set (h : Reads c c') (sent : Bytes) (t : State) :
    Reads (c.set sent t) (c'.set sent t) := by
  induction h with
  | line hreceive hcut =>
      refine .line (receive_set hreceive sent t) ?_
      rw [cutLine_set, hcut]
  | more hreceive hcut _ ih =>
      refine .more (receive_set hreceive sent t) ?_ ih
      rw [cutLine_set, hcut]

theorem Holds.reads (h : Holds stream limit c) (hclean : Clean c) {i : Nat}
    (hfind : find? crlf (stream.drop (c.pos + 2)) = some i)
    (hlimit : limit < intLimit)
    (hsmall : 2 * (c.pos + 2 + i + 100) < intLimit) :
    ∃ c', Reads c c' ∧ AtLine stream limit (c.pos + 2 + i) c' ∧
      SameWorld c c' := by
  -- the part of the stream that has not been read yet gets shorter
  induction hunread : stream.length - c.data.length using Nat.strong_induction_on
      generalizing c with
  | _ unread ih =>
      have hfits := find?_fits hfind
      simp only [List.length_drop, crlf, List.length_cons, List.length_nil]
        at hfits
      have hshort : c.data.length < c.pos + 2 + i + 2 := by
        by_contra hlong
        have hdata := h.find?_data hfind (by omega)
        rw [hclean] at hdata
        cases hdata
      have hupper := h.upper
      have hlower := h.lower
      have hintLimit : intLimit = 2147483648 := rfl
      have hwordSize : wordSize = 4294967296 := rfl
      obtain ⟨c₁, hreceive, hfetched⟩ :=
        exists_fetched h h.within (by omega) (fun hkept => by
          simp only [hkept, List.length_nil] at hlower
          omega) (by omega)
      have hpos := hfetched.pos
      have hlonger := hfetched.longer
      have hbounded := hfetched.bounded
      have hempty := hfetched.empty
      cases hnext : find? crlf (c₁.data.drop (c₁.pos + 2)) with
      | none =>
          have hnone : cutLine c₁ = (false, c₁) :=
            cutLine_none hnext (by omega)
          rw [← hpos] at hfind hsmall
          obtain ⟨c', hreads, hline, hworld⟩ :=
            ih _ (by omega) hfetched.holds hnext hfind hsmall rfl
          rw [hpos] at hline
          exact ⟨c', .more hreceive hnone hreads, hline,
            hfetched.world.trans hworld⟩
      | some j =>
          have hstream := hfetched.holds.find?_stream hnext
          rw [hpos, hfind] at hstream
          cases hstream
          have hfits' := find?_fits hnext
          simp only [List.length_drop, crlf, List.length_cons, List.length_nil]
            at hfits'
          have hupper₁ := hfetched.holds.upper
          have hlower₁ := hfetched.holds.lower
          simp only [hempty, List.length_nil] at hlower₁
          have hsome : cutLine c₁ = (true, cutAt c₁ i) :=
            cutLine_some hnext (fun _ => by omega) (by omega) (by omega)
          have hline : AtLine stream limit (c.pos + 2 + i) (cutAt c₁ i) := by
            rw [← hpos]
            exact atLine_cutAt hfetched.holds hempty (by omega) (by omega)
          exact ⟨cutAt c₁ i, .line hreceive hsome, hline,
            hfetched.world.trans ⟨rfl, rfl, rfl, rfl⟩⟩

theorem Holds.reads_out (h : Holds stream limit c) (hclean : Clean c)
    (hfind : find? crlf (stream.drop (c.pos + 2)) = none)
    (hlimit : limit < intLimit)
    (hsmall : stream.length + c.pos + 80 < intLimit) {replies : List Bytes}
    (hsent : c.sent = replies.flatten) :
    Carries clock c (.done (replies, c.last.waits)) := by
  induction hunread : stream.length - c.data.length using Nat.strong_induction_on
      generalizing c with
  | _ unread ih =>
      have hlength := congrArg List.length h.stream
      simp only [List.length_append] at hlength
      by_cases hread : c.data.length = stream.length
      · have hkept : c.persistentData = [] :=
          List.eq_nil_of_length_eq_zero (by omega)
        have hchunks : c.chunks = [] := by
          cases hchunks : c.chunks with
          | nil => rfl
          | cons chunk chunks =>
              have hpositive := List.length_pos_iff.mpr
                (h.chunks chunk (by simp [hchunks])).1
              rw [hchunks, List.flatten_cons, List.length_append] at hlength
              omega
        have hreceive : receive c = .error ⟨c.sent, c.last.outcome c.db⟩ := by
          simp only [receive, hkept, hchunks, ne_eq, not_true_eq_false,
            if_false]
        intro fuel
        cases fuel with
        | zero => exact .done trivial
        | succ fuel =>
            simp only [loopCalls, roundCalls, hreceive, Prog.done_bind, goOn]
            refine .done ⟨replies, ?_, ?_⟩
            · cases c.last <;> rfl
            · rw [← hsent]
              cases c.last <;> rfl
      · have hupper := h.upper
        have hlower := h.lower
        obtain ⟨c₁, hreceive, hfetched⟩ :=
          exists_fetched h h.within (by omega)
            (fun _ => by unfold intLimit at hsmall; omega)
            (by unfold intLimit at hlimit; omega)
        have hpos := hfetched.pos
        have hlonger := hfetched.longer
        have hlength' := congrArg List.length hfetched.holds.stream
        simp only [List.length_append] at hlength'
        cases hcut : find? crlf (c₁.data.drop (c₁.pos + 2)) with
        | none =>
            have hwordSize : intLimit < wordSize := by decide
            rw [← hpos] at hfind hsmall
            have hcarries := ih _ (by omega) hfetched.holds hcut hfind hsmall
              (hfetched.world.sent.trans hsent) rfl
            rw [hfetched.world.last] at hcarries
            exact carries_of_none hreceive (cutLine_none hcut (by omega))
              hcarries
        | some j =>
            have hstream := hfetched.holds.find?_stream hcut
            rw [hpos, hfind] at hstream
            contradiction

end Reading

/-! ## One request -/

def Conn.fresh (c : Conn) (output : Bytes) : Conn :=
  { c with
    data := []
    sent := c.sent ++ output
    pos := 0
    readMore := 0
    calls := c.calls + 1 }

def Conn.asking (c : Conn) (more : Int) : Conn :=
  { c with readMore := more, calls := c.calls + 1 }

/-- The request is handed over at call `i`, and the loop comes to the next one,
perhaps with a CRLF left over, whatever has been sent before. -/
structure HandsOver (clock : Nat → Times) (m : Message) (rest : Bytes)
    (c : Conn) (i : Nat) (c' : Conn) : Prop where
  calls : c'.calls = i
  last : c'.last = c.last
  next : ∃ left, (∀ output, Boundary (left ++ rest) (c'.fresh output)) ∧
    (left = [] ∨ left = crlf ∧ m.Blurred)
  carries : ∀ {sent : Bytes} {t : State} {replies : List Bytes}
      {q : Response → Command (List Bytes × Bool)}, sent = replies.flatten →
    (∀ resp, resp.ret < 0 → q resp = .done (replies, false)) →
    (∀ resp, resp.ret = 0 →
      Carries clock ((c'.set sent t).fresh resp.output) (q resp)) →
    Carries clock (c.set sent t) (cmdProcessCommand (clock i) m.bytes >>= q)

section Requests

variable {clock : Nat → Times} {stream rest : Bytes} {limit p i : Nat}
  {m : Message} {c c₁ c' : Conn} {q : Command (List Bytes × Bool)}

theorem AtLine.set (h : AtLine stream limit p c) (sent : Bytes) (t : State) :
    AtLine stream limit p (c.set sent t) :=
  ⟨⟨h.holds.stream, h.holds.chunks, h.holds.kept, h.holds.upper,
    h.holds.counted, h.holds.lower⟩, h.data, h.pos, h.flag⟩

theorem AtLine.fresh (h : AtLine stream limit p c) (output : Bytes) :
    Boundary (stream.drop (p + 2)) (c.fresh output) :=
  ⟨rfl, rfl, rfl, h.flag, h.rest, h.holds.chunks, h.holds.kept⟩

variable (clock) in
theorem AtLine.processCalls_eq (h : AtLine stream limit p c)
    (hcrlf : crlf <+: stream.drop p) (hmore : c.readMore ≤ 0) :
    processCalls clock c =
      cmdProcessCommand (clock c.calls) (stream.take (p + 2)) >>= fun resp =>
        .done (respond c (.ok (resp, c.db))) := by
  have hsuffix : crlf.isSuffixOf c.data = true := by
    rw [List.isSuffixOf_iff_suffix, h.data, take_crlf hcrlf]
    exact List.suffix_append _ _
  unfold processCalls
  rw [if_neg (by omega), if_pos hsuffix, h.data]
  rfl

theorem carriesAt_of_wait (hmore : 0 < c.readMore) (h : Carries clock c q) :
    CarriesAt clock c q := by
  intro fuel
  rw [processCalls, if_pos hmore]
  exact h fuel

theorem carriesAt_of_call {p : Command Response}
    (hprocess : processCalls clock c =
      p >>= fun resp => .done (respond c (.ok (resp, c.db))))
    (hyields : Prog.Yields (fun resp => resp.ret ≤ 0) p)
    {q : Response → Command (List Bytes × Bool)} {replies : List Bytes}
    (hsent : c.sent = replies.flatten)
    (hclosed : ∀ resp, resp.ret < 0 → q resp = .done (replies, false))
    (hnext : ∀ resp, resp.ret = 0 →
      Carries clock (c.fresh resp.output) (q resp)) :
    CarriesAt clock c (p >>= q) := by
  intro fuel
  rw [hprocess, Prog.bind_assoc]
  refine Prog.Trails.bind hyields fun resp hret => ?_
  rw [Prog.done_bind]
  by_cases hneg : resp.ret < 0
  · have hmore : ¬ resp.ret > 0 := by omega
    have hrespond : respond c (.ok (resp, c.db)) =
        .error ⟨c.sent, .closed c.db⟩ := by
      simp only [respond, hmore, hneg, if_true, if_false]
    rw [hrespond, hclosed resp hneg]
    exact .done ⟨replies, rfl, hsent⟩
  · have hzero : resp.ret = 0 := by omega
    have hrespond : respond c (.ok (resp, c.db)) =
        .ok (c.fresh resp.output) := by
      simp only [respond, hzero, gt_iff_lt, lt_irrefl, if_false]
      rfl
    rw [hrespond]
    exact hnext resp hzero fuel

theorem carriesAt_of_poll {now : Nat} {more : Int} (hmore : more > 0)
    (hprocess : processCalls clock c =
      (.call (.handleFlushAll now) fun _ => .done ⟨more, []⟩ :
        Command Response) >>= fun resp => .done (respond c (.ok (resp, c.db))))
    (h : Carries clock (c.asking more) q) : CarriesAt clock c q := by
  intro fuel
  rw [hprocess]
  refine .idle trivial fun r => ?_
  have hrespond : respond c (.ok (⟨more, []⟩, c.db)) = .ok (c.asking more) := by
    simp only [respond, hmore, if_true]
    rfl
  change Prog.Trails Polls EndsAs
    (goOn (loopCalls clock fuel) (respond c (.ok (⟨more, []⟩, c.db)))) q
  rw [hrespond]
  exact h fuel

theorem command_of_dispatch {times : Times} {input : Bytes}
    {p : Command Response} (h : dispatch times input = p) :
    cmdProcessCommand times input =
      .call (.handleFlushAll times.flush) fun _ => p := by
  rw [← h]
  rfl

theorem yields_command {times : Times} {input : Bytes} {P : Response → Prop}
    (h : Prog.Yields P (dispatch times input)) :
    Prog.Yields P (cmdProcessCommand times input) :=
  .call fun _ => h

theorem AtLine.handsOver (hat : AtLine stream limit p c')
    (hreads : Reads c c') (hworld : SameWorld c c')
    (hcrlf : crlf <+: stream.drop p) (hmore : c'.readMore ≤ 0)
    (hcommand : cmdProcessCommand (clock c.calls) (stream.take (p + 2)) =
      cmdProcessCommand (clock c.calls) m.bytes)
    (hyields : Prog.Yields (fun resp => resp.ret ≤ 0)
      (cmdProcessCommand (clock c.calls) m.bytes))
    {left : Bytes} (hrest : stream.drop (p + 2) = left ++ rest)
    (hleft : left = [] ∨ left = crlf ∧ m.Blurred) :
    HandsOver clock m rest c c.calls c' where
  calls := hworld.calls
  last := hworld.last
  next := ⟨left, fun output => hrest ▸ hat.fresh output, hleft⟩
  carries := by
    intro sent t replies q hsent hclosed hnext
    have hprocess := (hat.set sent t).processCalls_eq clock hcrlf hmore
    have hcalls : (c'.set sent t).calls = c.calls := hworld.calls
    rw [hcalls, hcommand] at hprocess
    exact (hreads.set sent t).carries
      (carriesAt_of_call hprocess hyields hsent hclosed hnext)

theorem HandsOver.later (h : HandsOver clock m rest c₁ i c')
    (hcarries : ∀ sent t q, Carries clock (c₁.set sent t) q →
      Carries clock (c.set sent t) q)
    (hlast : c₁.last = c.last) : HandsOver clock m rest c i c' where
  calls := h.calls
  last := h.last.trans hlast
  next := h.next
  carries := fun hsent hclosed hnext =>
    hcarries _ _ _ (h.carries hsent hclosed hnext)

theorem Boundary.reads_line {line : Bytes}
    (h : Boundary (line ++ (crlf ++ rest)) c) (hlong : 2 ≤ line.length)
    (hline : ¬ crlf <:+: line) (hsmall : line.length + 100 < 1073741824) :
    ∃ c', Reads c c' ∧
      AtLine (line ++ (crlf ++ rest)) 2 line.length c' ∧ SameWorld c c' := by
  have hfind := find?_crlf hline rest
  have hfrom := find?_drop hfind hlong
  have hpos : c.pos + 2 + (line.length - 2) = line.length := by
    rw [h.pos]
    omega
  have hreads := h.holds.reads h.clean (i := line.length - 2)
    (by rwa [h.pos]) (by decide) (by rw [hpos]; unfold intLimit; omega)
  rwa [hpos] at hreads

theorem handsOver_line {text : Bytes} (hwell : (Message.line text).WellFormed)
    (hsmall : text.length + 100 < 1073741824)
    (h : Boundary ((Message.line text).bytes ++ rest) c) :
    ∃ c', HandsOver clock (.line text) rest c c.calls c' := by
  obtain ⟨hlong, hline, hword⟩ := hwell
  rw [Message.bytes, List.append_assoc] at h
  obtain ⟨c', hreads, hat, hworld⟩ := h.reads_line hlong hline hsmall
  have hcrlf := find?_isPrefixOf (find?_crlf hline rest)
  have hupper := hat.holds.upper
  have htake : (text ++ (crlf ++ rest)).take (text.length + 2) =
      (Message.line text).bytes := by
    rw [take_crlf hcrlf, List.take_left]
    rfl
  have hdrop : (text ++ (crlf ++ rest)).drop (text.length + 2) =
      [] ++ rest := by
    rw [← List.append_assoc]
    exact List.drop_left' (by simp [crlf])
  exact ⟨c', hat.handsOver hreads hworld hcrlf (by omega) (by rw [htake])
    (yields_command (dispatch_oneLine hword _)) hdrop (.inl rfl)⟩

end Requests

/-! ## A block of data -/

structure Gathers (h : Header) (data rest : Bytes) (c : Conn) : Prop where
  holds : Holds (storageStream h data rest) (blockEnd h data + 2) c
  clean : Clean c
  started : h.line.length ≤ c.pos
  inside : c.pos + 2 ≤ blockEnd h data

section Storage

variable {clock : Nat → Times} {h : Header} {data rest : Bytes} {c c' : Conn}
  {limit p : Nat} (wf : h.WellFormed data.length)
  (hsmall : (Message.storage h data).bytes.length + 100 < 1073741824)
include wf hsmall

theorem command_partial {d : Bytes} (hshort : d.length < data.length)
    (times : Times) :
    cmdProcessCommand times (h.line ++ (crlf ++ d)) =
      .call (.handleFlushAll times.flush) fun _ =>
        .done ⟨(data.length + 2 - d.length : Nat), []⟩ := by
  simp only [Message.bytes, crlf, List.length_append, List.length_cons,
    List.length_nil] at hsmall
  obtain ⟨act, -, hdispatch⟩ := dispatch_storage wf (by omega) times
  have hd := hdispatch d (by
    simp only [crlf, List.length_append, List.length_cons, List.length_nil]
    unfold wordSize
    omega)
  have hcast : ((data.length + 2 - d.length : Nat) : Int) =
      data.length + 2 - d.length := by omega
  rw [if_pos hshort, ← hcast] at hd
  exact command_of_dispatch hd

theorem command_complete {d : Bytes} (htake : d.take data.length = data)
    (hlength : d.length ≤ data.length + 2) (times : Times) :
    cmdProcessCommand times (h.line ++ (crlf ++ d)) =
        cmdProcessCommand times (Message.storage h data).bytes ∧
      Prog.Yields (fun resp => resp.ret ≤ 0)
        (cmdProcessCommand times (Message.storage h data).bytes) := by
  simp only [Message.bytes, crlf, List.length_append, List.length_cons,
    List.length_nil] at hsmall
  obtain ⟨act, hyields, hdispatch⟩ := dispatch_storage wf (by omega) times
  have hlong : ¬ d.length < data.length := by
    have hle := congrArg List.length htake
    rw [List.length_take] at hle
    omega
  have hd := hdispatch d (by
    simp only [crlf, List.length_append, List.length_cons, List.length_nil]
    unfold wordSize
    omega)
  have hfull := hdispatch (data ++ crlf) (by
    simp only [crlf, List.length_append, List.length_cons, List.length_nil]
    unfold wordSize
    omega)
  rw [if_neg hlong, htake] at hd
  rw [if_neg (by simp), List.take_left] at hfull
  constructor
  · rw [command_of_dispatch hd, Message.bytes, command_of_dispatch hfull]
  · refine yields_command ?_
    rw [Message.bytes, hfull]
    exact (hyields data).mono fun resp hret => hret.le

section Steps

variable (hreads : Reads c c')
  (hat : AtLine (storageStream h data rest) limit p c')
  (hworld : SameWorld c c')
  (hcrlf : crlf <+: (storageStream h data rest).drop p)
  (hready : c'.readMore ≤ 0)
include hreads hat hworld hcrlf hready

theorem handsOver_of_complete {d left : Bytes}
    (htake : (storageStream h data rest).take (p + 2) =
      h.line ++ (crlf ++ d))
    (hdrop : (storageStream h data rest).drop (p + 2) = left ++ rest)
    (hd : d.take data.length = data) (hlength : d.length ≤ data.length + 2)
    (hleft : left = [] ∨ left = crlf ∧ (Message.storage h data).Blurred) :
    HandsOver clock (.storage h data) rest c c.calls c' := by
  obtain ⟨hcommand, hyields⟩ :=
    command_complete wf hsmall hd hlength (clock c.calls)
  exact hat.handsOver hreads hworld hcrlf hready (by rw [htake, hcommand])
    hyields hdrop hleft

theorem gathers_of_partial {m : Nat} (hp : p = h.line.length + m)
    (hm : m < data.length) (hinside : p + 2 ≤ blockEnd h data) :
    ∃ c₁, Gathers h data rest c₁ ∧ c₁.pos = p ∧ c₁.last = c.last ∧
      c₁.calls = c.calls + 1 ∧
      ∀ sent t q, Carries clock (c₁.set sent t) q →
        Carries clock (c.set sent t) q := by
  subst hp
  have hlen : (data.take m).length = m := List.length_take_of_le hm.le
  have hlength : c'.data.length ≤ h.line.length + m + 2 := by
    rw [hat.data, List.length_take]
    omega
  have hpos := hat.pos
  have hlimit : h.line.length + m + 2 + (data.length + 2 - m) =
      blockEnd h data + 2 := by
    unfold blockEnd
    omega
  refine ⟨c'.asking (data.length + 2 - m : Nat),
    ⟨⟨hat.holds.stream, hat.holds.chunks, hat.holds.kept, ?_, fun _ => ?_, ?_⟩,
      hat.clean, ?_, ?_⟩, hpos, hworld.last, ?_, fun sent t q hq => ?_⟩
  · simp only [Conn.asking]
    omega
  · simp only [Conn.asking]
    omega
  · simp only [Conn.asking]
    omega
  · simp only [Conn.asking]
    omega
  · simp only [Conn.asking]
    omega
  · simp only [Conn.asking, hworld.calls]
  · have hprocess := (hat.set sent t).processCalls_eq clock hcrlf hready
    rw [storageStream_take hm.le, command_partial wf hsmall (by omega), hlen]
      at hprocess
    exact (hreads.set sent t).carries
      (carriesAt_of_poll (by omega) hprocess hq)

end Steps

theorem Gathers.handsOver (hc : Gathers h data rest c) :
    ∃ i c', c.calls ≤ i ∧ HandsOver clock (.storage h data) rest c i c' := by
  -- the position moves towards the end of the block
  induction hleft : blockEnd h data - c.pos using Nat.strong_induction_on
      generalizing c with
  | _ left ih =>
      have hlength : (Message.storage h data).bytes.length =
          blockEnd h data + 2 := by
        simp only [Message.bytes, blockEnd, crlf, List.length_append,
          List.length_cons, List.length_nil]
        omega
      have hstarted := hc.started
      obtain ⟨i, hfind, hwhere⟩ := storageStream_next_crlf rest hc.inside
      obtain ⟨c', hreads, hat, hworld⟩ := hc.holds.reads hc.clean hfind
        (by unfold intLimit; omega) (by unfold intLimit; omega)
      have hcrlf := find?_isPrefixOf hfind
      rw [List.drop_drop] at hcrlf
      generalize hp : c.pos + 2 + i = p at hat hcrlf hwhere
      have hpos := hat.pos
      have hupper := hat.holds.upper
      rcases hwhere with rfl | hinside
      · exact ⟨c.calls, c', le_rfl, handsOver_of_complete wf hsmall hreads hat
          hworld hcrlf (by omega) storageStream_take_all storageStream_drop_all
          List.take_left (by simp [crlf]) (.inl rfl)⟩
      by_cases hmore : 0 < c'.readMore
      · have hnext : Gathers h data rest c' :=
          ⟨hat.holds, hat.clean, by omega, by omega⟩
        obtain ⟨j, c₁, hj, hover⟩ := ih _ (by omega) hnext rfl
        rw [hworld.calls] at hj
        refine ⟨j, c₁, hj, hover.later (fun sent t q hq => ?_) hworld.last⟩
        exact (hreads.set sent t).carries (carriesAt_of_wait hmore hq)
      obtain ⟨m, rfl⟩ : ∃ m, p = h.line.length + m :=
        ⟨p - h.line.length, by omega⟩
      have hm : m ≤ data.length := by
        unfold blockEnd at hinside
        omega
      rcases hm.lt_or_eq with hshort | rfl
      · obtain ⟨c₁, hnext, hpos₁, hlast, hcalls, hcarries⟩ :=
          gathers_of_partial wf hsmall hreads hat hworld hcrlf (by omega) rfl
            hshort hinside
        obtain ⟨j, c₂, hj, hover⟩ := ih _ (by omega) hnext rfl
        exact ⟨j, c₂, by omega, hover.later hcarries hlast⟩
      · -- the block ends in CRLF, which is taken for the one behind it
        have htake : (storageStream h data rest).take
            (h.line.length + data.length + 2) = _ := storageStream_take hm
        rw [List.take_length] at htake
        have hblock : h.line.length + data.length + 2 = blockEnd h data := by
          unfold blockEnd
          omega
        have hdrop : (storageStream h data rest).drop
            (h.line.length + data.length + 2) = crlf ++ rest := by
          rw [hblock, storageStream_drop_block]
        exact ⟨c.calls, c', le_rfl, handsOver_of_complete wf hsmall hreads hat
          hworld hcrlf (by omega) htake hdrop List.take_length (by omega)
          (.inr ⟨rfl, .inr (suffix_of_crlf hcrlf (by omega))⟩)⟩

theorem handsOver_storage
    (hc : Boundary ((Message.storage h data).bytes ++ rest) c) :
    ∃ i c', c.calls ≤ i ∧ HandsOver clock (.storage h data) rest c i c' := by
  have hlength : (Message.storage h data).bytes.length =
      blockEnd h data + 2 := by
    simp only [Message.bytes, blockEnd, crlf, List.length_append,
      List.length_cons, List.length_nil]
    omega
  have hblock : blockEnd h data = h.line.length + 2 + data.length := rfl
  rw [bytes_append_rest] at hc
  obtain ⟨c', hreads, hat, hworld⟩ := hc.reads_line (two_le_line_length h)
    wf.oneLine (by omega)
  have hcrlf := find?_isPrefixOf
    (find?_crlf wf.oneLine (data ++ (crlf ++ rest)))
  have hupper := hat.holds.upper
  rcases Nat.eq_zero_or_pos data.length with hempty | hpositive
  · obtain rfl : data = [] := List.eq_nil_of_length_eq_zero hempty
    have htake : (storageStream h [] rest).take (h.line.length + 0 + 2) = _ :=
      storageStream_take (Nat.zero_le _)
    have hdrop : (storageStream h [] rest).drop (blockEnd h []) =
        crlf ++ rest := storageStream_drop_block
    exact ⟨c.calls, c', le_rfl, handsOver_of_complete wf hsmall hreads hat
      hworld hcrlf (by omega) htake hdrop rfl (by simp)
      (.inr ⟨rfl, .inl rfl⟩)⟩
  · obtain ⟨c₁, hnext, -, hlast, hcalls, hcarries⟩ :=
      gathers_of_partial wf hsmall hreads hat hworld hcrlf (by omega)
        (Nat.add_zero _).symm hpositive (by omega)
    obtain ⟨i, c₂, hi, hover⟩ := hnext.handsOver wf hsmall
    exact ⟨i, c₂, by omega, hover.later hcarries hlast⟩

end Storage

/-! ## All requests -/

section Messages

variable {clock : Nat → Times} {c : Conn}

variable (clock) in
theorem Boundary.handsOver {m : Message} {rest : Bytes} (hwell : m.WellFormed)
    (hsmall : m.bytes.length + 100 < 1073741824)
    (h : Boundary (m.bytes ++ rest) c) :
    ∃ i c', c.calls ≤ i ∧ HandsOver clock m rest c i c' := by
  cases m with
  | line text =>
      rw [Message.bytes, List.length_append] at hsmall
      obtain ⟨c', hover⟩ := handsOver_line hwell (by omega) h
      exact ⟨c.calls, c', le_rfl, hover⟩
  | storage header data => exact handsOver_storage hwell hsmall h

theorem Boundary.carries_rest {left : Bytes} (h : Boundary left c)
    (hleft : left = [] ∨ left = crlf) {replies : List Bytes}
    (hsent : c.sent = replies.flatten) :
    Carries clock c (.done (replies, c.last.waits)) := by
  have hshort : left.length ≤ 2 := by
    rcases hleft with rfl | rfl <;> decide
  have hnone : find? crlf (left.drop (c.pos + 2)) = none := by
    rw [h.pos, List.drop_eq_nil_of_le hshort]
    rfl
  refine h.holds.reads_out h.clean hnone (by decide) ?_ hsent
  rw [h.pos]
  unfold intLimit
  omega

theorem Boundary.set {stream : Bytes} (h : Boundary stream c) (sent : Bytes)
    (t : State) : Boundary stream (c.set sent t) :=
  ⟨h.data, h.pos, h.readMore, h.flag, h.stream, h.chunks, h.kept⟩

theorem Boundary.carries_all (clock : Nat → Times) (messages : List Message) :
    ∀ {c : Conn}, (∀ m ∈ messages, m.WellFormed) →
      (∀ m ∈ messages, m.bytes.length + 100 < 1073741824) →
      (∀ m ∈ messages.dropLast, ¬ m.Blurred) →
      Boundary (messages.map Message.bytes).flatten c →
      ∃ calls : List Nat, calls.length = messages.length ∧
        calls.Pairwise (· < ·) ∧ (∀ i ∈ calls, c.calls ≤ i) ∧
        ∀ (sent : Bytes) (t : State) (replies : List Bytes),
          sent = replies.flatten →
          Carries clock (c.set sent t) (requestsCalls c.last
            ((calls.map clock).zip (messages.map Message.bytes)) replies) := by
  induction messages with
  | nil =>
      intro c _ _ _ h
      refine ⟨[], rfl, .nil, by simp, fun sent t replies hsent => ?_⟩
      exact (h.set sent t).carries_rest (.inl rfl) hsent
  | cons m messages ih =>
      intro c hwell hsmall hdistinct h
      rw [List.map_cons, List.flatten_cons] at h
      obtain ⟨i, c', hi, hover⟩ := h.handsOver clock (hwell m (by simp))
        (hsmall m (by simp))
      obtain ⟨left, hboundary, hleft⟩ := hover.next
      have hcalls' : (c'.fresh []).calls = i + 1 :=
        congrArg Nat.succ hover.calls
      have hnext : ∃ calls : List Nat, calls.length = messages.length ∧
          calls.Pairwise (· < ·) ∧ (∀ j ∈ calls, i + 1 ≤ j) ∧
          ∀ (sent : Bytes) (t : State) (replies : List Bytes),
            sent = replies.flatten →
            Carries clock ((c'.fresh []).set sent t) (requestsCalls c.last
              ((calls.map clock).zip (messages.map Message.bytes))
              replies) := by
        cases messages with
        | nil =>
            have hrest := hboundary []
            rw [List.map_nil, List.flatten_nil, List.append_nil] at hrest
            refine ⟨[], rfl, .nil, by simp, fun sent t replies hsent => ?_⟩
            have hend : Carries clock _ _ := (hrest.set sent t).carries_rest
              (hleft.imp_right And.left) hsent
            rwa [show ((c'.fresh []).set sent t).last = c.last from
              hover.last] at hend
        | cons m' messages =>
            obtain rfl : left = [] := hleft.resolve_right fun hblurred =>
              hdistinct m (by simp) hblurred.2
            obtain ⟨calls, hlength, hpairwise, hfrom, hcarries⟩ :=
              ih (fun m hm => hwell m (by simp [hm]))
                (fun m hm => hsmall m (by simp [hm]))
                (fun m hm => hdistinct m (by
                  rw [List.dropLast_cons_cons]
                  exact List.mem_cons_of_mem _ hm))
                (hboundary [])
            rw [hcalls'] at hfrom
            rw [show (c'.fresh []).last = c.last from hover.last] at hcarries
            exact ⟨calls, hlength, hpairwise, hfrom, hcarries⟩
      obtain ⟨calls, hlength, hpairwise, hfrom, hcarries⟩ := hnext
      refine ⟨i :: calls, by simp [hlength], ?_, ?_,
        fun sent t replies hsent => ?_⟩
      · exact List.pairwise_cons.mpr
          ⟨fun j hj => Nat.lt_of_succ_le (hfrom j hj), hpairwise⟩
      · rintro j (_ | ⟨_, hj⟩)
        · exact hi
        · have hij := hfrom j hj
          omega
      · refine hover.carries hsent (fun resp hneg => if_pos hneg)
          fun resp hzero => ?_
        have hgoes : ¬ resp.ret < 0 := by omega
        rw [if_neg hgoes]
        refine hcarries (sent ++ resp.output) t (replies ++ [resp.output]) ?_
        rw [hsent, List.flatten_append, List.flatten_singleton]

end Messages

end Memstashed.Ssock
