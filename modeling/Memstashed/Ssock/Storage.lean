import Memstashed.Dblru.Flush
import Memstashed.Ssock.Framing

/-!
# One storage request at the beginning of a connection

A storage request is carried out once, with the bytes of its block, and before
`recv` is asked for anything behind it.  The counter `readMore` is an `int`: the
header and the block have to be so short that it does not overflow.
-/

namespace Memstashed.Ssock

open Memstashed.Foundation
open Memstashed.Dblru
open Memstashed.Scmd

structure SameEntries (s s' : Store) : Prop where
  map : s'.gKeyToValueHashMap = s.gKeyToValueHashMap
  set : s'.gTimestampToKeySet = s.gTimestampToKeySet
  size : s'.gStoredSize = s.gStoredSize

theorem SameEntries.refl (s : Store) : SameEntries s s := ⟨rfl, rfl, rfl⟩

theorem SameEntries.handleFlush {s s' : Store} (h : SameEntries s s')
    (now : Nat) : SameEntries s (handleFlush now s') := by
  rcases handleFlush_cases now s' with ⟨-, -, heq⟩ | ⟨-, heq⟩
  · rw [heq]
    exact ⟨h.map, h.set, h.size⟩
  · rw [heq]
    exact h

/-- A call of `cmdProcessCommand` that asks for more data, carries nothing out
and leaves the entries of `s` as they are. -/
def Asks (env : Env) (s : Store) : Event → Prop
  | .recv _ => True
  | .call times input db => ∃ (more : Nat) (db' : State), 0 < more ∧
      dispatch times input = .done ⟨more, []⟩ ∧
      Command.run env (cmdProcessCommand times input) db =
        .ok (⟨more, []⟩, db') ∧
      SameEntries s db.store ∧ SameEntries s db'.store

structure CarriedOut (env : Env) (h : Header) (data rest : Bytes) (s : Store)
    (n : Nat) (log : List Event) (result : Except Ending Conn) : Prop where
  events : ∃ before times input db expTime,
    log = before ++ [.call times input db] ∧
    (∀ e ∈ before, Asks env s e) ∧
    Timely (Message.storage h data).bytes.length n before ∧
    SameEntries s db.store ∧
    expiryField times.parse h.expTime = .ok expTime ∧
    dispatch times input = h.word.storeStep times
      ⟨h.key, h.flags, expTime, data.length, h.casStr, h.noreply, data⟩
  between : ∀ c, result = .ok c → Boundary rest c ∨ Boundary (crlf ++ rest) c

section Storage

variable {env : Env} {clock : Nat → Times} {h : Header} {data rest : Bytes}
  {c c' : Conn} {s : Store}

theorem CarriedOut.prepend {n n' : Nat} {log log' : List Event}
    {result : Except Ending Conn}
    (hcarried : CarriedOut env h data rest s n' log' result)
    (hasks : ∀ e ∈ log, Asks env s e)
    (htimely : Timely (Message.storage h data).bytes.length n log)
    (hcount : n + received log = n') :
    CarriedOut env h data rest s n (log ++ log') result := by
  obtain ⟨⟨before, times, input, db, expTime, rfl, hbefore, hlate, hrest⟩,
    hbetween⟩ := hcarried
  refine ⟨⟨log ++ before, times, input, db, expTime, by simp, ?_, ?_, hrest⟩,
    hbetween⟩
  · intro e he
    rcases List.mem_append.mp he with he | he
    · exact hasks e he
    · exact hbefore e he
  · rw [timely_append, hcount]
    exact ⟨htimely, hlate⟩

structure Gathering (h : Header) (data rest : Bytes) (s : Store) (c : Conn) :
    Prop where
  holds : Holds (storageStream h data rest) (blockEnd h data + 2) c
  within : Within (blockEnd h data + 2 + h.line.length) (data.length + 2) c
  clean : Clean c
  started : h.line.length ≤ c.pos
  inside : c.pos + 2 ≤ blockEnd h data
  entries : ∃ s', c.db = ⟨s', Locks.free⟩ ∧ SameEntries s s'

variable (clock) in
theorem AtLine.callEvents_eq {stream : Bytes} {limit p : Nat}
    (hat : AtLine stream limit p c) (hcrlf : crlf <+: stream.drop p)
    (hready : c.readMore ≤ 0) :
    callEvents clock c =
      [.call (clock c.calls) (stream.take (p + 2)) c.db] := by
  have hsuffix : crlf.isSuffixOf c.data = true := by
    rw [List.isSuffixOf_iff_suffix, hat.data, take_crlf hcrlf]
    exact List.suffix_append _ _
  unfold callEvents
  rw [if_neg (by omega), if_pos hsuffix, hat.data]

theorem blockEnd_length (h : Header) (data : Bytes) :
    (Message.storage h data).bytes.length = blockEnd h data + 2 := by
  simp only [Message.bytes, blockEnd, crlf, List.length_append,
    List.length_cons, List.length_nil]
  omega

section Steps

variable {limit p : Nat} {base top : Int} {log : List Event}
  (wf : h.WellFormed data.length)
  (hline : h.line.length + 81 ≤ 2147483648)
  (hblock : data.length + 80 ≤ 2147483648)
  (hentries : ∃ s', c.db = ⟨s', Locks.free⟩ ∧ SameEntries s s')
  (harrived : Arrived env clock (storageStream h data rest) limit base top p c
    c' log)
  (hcrlf : crlf <+: (storageStream h data rest).drop p)
  (hready : c'.readMore ≤ 0) (hp : p ≤ blockEnd h data)
include wf hline hblock hentries harrived hcrlf hready hp

theorem carriedOut_of_complete {d left : Bytes}
    (htake : (storageStream h data rest).take (p + 2) =
      h.line ++ (crlf ++ d))
    (hdrop : (storageStream h data rest).drop (p + 2) = left ++ rest)
    (hd : d.take data.length = data) (hlength : d.length ≤ data.length + 2)
    (hleft : left = [] ∨ left = crlf) :
    ∃ log result, Passes (round env clock) (roundEvents clock) c log result ∧
      CarriedOut env h data rest s (c.data.length + c.persistentData.length)
        log result := by
  obtain ⟨s', hdb, hsame⟩ := hentries
  have hat := harrived.line
  have hevents := hat.callEvents_eq clock hcrlf hready
  have hprocess := hat.process_eq env clock hcrlf hready
  rw [htake, harrived.world.calls, harrived.world.db, hdb] at hevents hprocess
  obtain ⟨expTime, hexpTime⟩ :=
    exists_expiryField wf (clock c.calls).parse
  have hsmall : (h.line ++ (crlf ++ d)).length + 2 < wordSize := by
    simp only [crlf, List.length_append, List.length_cons, List.length_nil]
    unfold wordSize
    omega
  have hcomplete : ¬ d.length < data.length := by
    have hle := congrArg List.length hd
    rw [List.length_take] at hle
    omega
  have hdispatch := dispatch_header wf (by omega) hexpTime hsmall
  rw [if_neg hcomplete, Header.read, hd] at hdispatch
  refine ⟨_, _, harrived.passes, ⟨⟨log, clock c.calls, h.line ++ (crlf ++ d),
    ⟨s', Locks.free⟩, expTime, ?_, ?_, ?_, ?_, hexpTime, hdispatch⟩, ?_⟩⟩
  · rw [hevents]
  · intro e he
    obtain ⟨chunk, rfl⟩ := harrived.silent e he
    trivial
  · refine harrived.timely.mono ?_
    rw [blockEnd_length]
    omega
  · exact hsame
  · intro c₁ hc₁
    rw [hprocess] at hc₁
    cases hrun : Command.run env (cmdProcessCommand (clock c.calls)
        (h.line ++ (crlf ++ d))) ⟨s', Locks.free⟩ with
    | error e =>
        rw [hrun] at hc₁
        contradiction
    | ok result =>
        obtain ⟨resp, db⟩ := result
        have hzero : resp.ret = 0 := by
          rw [run_command, hdispatch] at hrun
          exact (yields_storeStep _ _ _).run _ hrun
        obtain ⟨c₂, hrespond, hboundary, -⟩ := hat.respond_reply db hzero
        rw [hrun, hrespond] at hc₁
        cases hc₁
        rw [hdrop] at hboundary
        rcases hleft with rfl | rfl
        · exact .inl hboundary
        · exact .inr hboundary

theorem gathering_of_partial {m : Nat} (hm : p = h.line.length + m)
    (hshort : m < data.length) (hinside : p + 2 ≤ blockEnd h data) :
    ∃ c₁ log₁, Passes (round env clock) (roundEvents clock) c log₁ (.ok c₁) ∧
      Gathering h data rest s c₁ ∧ c₁.pos = p ∧
      (∀ e ∈ log₁, Asks env s e) ∧
      Timely (Message.storage h data).bytes.length
        (c.data.length + c.persistentData.length) log₁ ∧
      c.data.length + c.persistentData.length + received log₁ =
        c₁.data.length + c₁.persistentData.length := by
  subst hm
  obtain ⟨s', hdb, hsame⟩ := hentries
  have hat := harrived.line
  have hlen : (data.take m).length = m := List.length_take_of_le hshort.le
  have hevents := hat.callEvents_eq clock hcrlf hready
  have hprocess := hat.process_eq env clock hcrlf hready
  rw [storageStream_take hshort.le, harrived.world.calls, harrived.world.db,
    hdb] at hevents hprocess
  obtain ⟨expTime, hexpTime⟩ :=
    exists_expiryField wf (clock c.calls).parse
  have hsmall : (h.line ++ (crlf ++ data.take m)).length + 2 < wordSize := by
    simp only [crlf, List.length_append, List.length_cons, List.length_nil,
      hlen]
    unfold wordSize
    omega
  have hdispatch := dispatch_header wf (by omega) hexpTime hsmall
  have hcast : (data.length : Int) + 2 - m = (data.length + 2 - m : Nat) := by
    omega
  rw [if_pos (by omega), hlen, hcast] at hdispatch
  have hrun : Command.run env (cmdProcessCommand (clock c.calls)
      (h.line ++ (crlf ++ data.take m))) ⟨s', Locks.free⟩ =
      .ok (⟨(data.length + 2 - m : Nat), []⟩,
        ⟨handleFlush (clock c.calls).flush s', Locks.free⟩) := by
    rw [run_command, hdispatch]
    rfl
  obtain ⟨c₁, hrespond, hholds, hclean, hpos, -, hdb₁, -, -, hmore, hdata,
    hkept, hflag⟩ := hat.respond_more
      (Nat.sub_pos_of_lt (by omega : m < data.length + 2))
      ⟨handleFlush (clock c.calls).flush s', Locks.free⟩
  have hend : h.line.length + m + 2 + (data.length + 2 - m) =
      blockEnd h data + 2 := by
    unfold blockEnd
    omega
  have hbytes := blockEnd_length h data
  have hlength : c'.data.length = h.line.length + m + 2 := by
    rw [hat.data, storageStream_take hshort.le]
    simp only [crlf, List.length_append, List.length_cons, List.length_nil,
      hlen]
    omega
  have hcount := harrived.count
  rw [hend] at hholds
  refine ⟨c₁, log ++ callEvents clock c', ?_, ⟨hholds, ⟨?_, ?_, ?_⟩, hclean,
    by omega, by omega, _, hdb₁, hsame.handleFlush _⟩, hpos, ?_, ?_, ?_⟩
  · have hpasses := harrived.passes
    rwa [hprocess, hrun, hrespond] at hpasses
  · omega
  · rw [hmore, hdata, hkept, hpos, hlength]
    unfold blockEnd
    omega
  · intro hagain
    have hpositive : 0 < c'.persistentData.length := by
      rw [hflag, hkept] at hagain
      exact List.length_pos_iff.mpr (hagain.resolve_left Bool.false_ne_true)
    rw [hmore, hdata, hkept, hpos, hlength]
    unfold blockEnd
    omega
  · intro e he
    rw [hevents] at he
    rcases List.mem_append.mp he with he | he
    · obtain ⟨chunk, rfl⟩ := harrived.silent e he
      trivial
    · rw [List.mem_singleton] at he
      subst he
      exact ⟨_, _, by omega, hdispatch, hrun, hsame, hsame.handleFlush _⟩
  · rw [hevents]
    refine timely_append.mpr ⟨harrived.timely.mono (by omega), ?_⟩
    trivial
  · rw [hevents, received_append, hdata, hkept]
    exact hcount

end Steps

variable (env clock) in
theorem Gathering.carriedOut (wf : h.WellFormed data.length)
    (hline : h.line.length + 81 ≤ 2147483648)
    (hblock : data.length + 80 ≤ 2147483648)
    (hc : Gathering h data rest s c) :
    ∃ log result, Passes (round env clock) (roundEvents clock) c log result ∧
      CarriedOut env h data rest s (c.data.length + c.persistentData.length)
        log result := by
  -- the position moves towards the end of the block
  induction hleft : blockEnd h data - c.pos using Nat.strong_induction_on
      generalizing c with
  | _ left ih =>
      have hstarted := hc.started
      have hentries := hc.entries
      have hend : blockEnd h data = h.line.length + 2 + data.length := rfl
      obtain ⟨i, hfind, hwhere⟩ := storageStream_next_crlf rest hc.inside
      have hcrlf := find?_isPrefixOf hfind
      rw [List.drop_drop] at hcrlf
      generalize hp : c.pos + 2 + i = p at hcrlf hwhere
      obtain ⟨c', log, harrived⟩ := hc.holds.arrives env clock hc.within
        hc.clean hp hfind (by omega) (by omega) (fun _ => by omega)
        (by unfold wordSize; omega)
      have hat := harrived.line
      have hpos := hat.pos
      have hupper := hat.holds.upper
      rcases hwhere with rfl | hinside
      · have hdrop : (storageStream h data rest).drop (blockEnd h data + 2) =
            [] ++ rest := storageStream_drop_all
        exact carriedOut_of_complete wf hline hblock hentries harrived hcrlf
          (by omega) le_rfl storageStream_take_all hdrop List.take_left
          (by simp [crlf]) (.inl rfl)
      by_cases hmore : 0 < c'.readMore
      · have hnext : Gathering h data rest s c' := by
          refine ⟨hat.holds, harrived.within, hat.clean, by omega, by omega, ?_⟩
          rwa [harrived.world.db]
        obtain ⟨log', result, hpasses, hcarried⟩ := ih _ (by omega) hnext rfl
        have hquiet : callEvents clock c' = [] := if_pos hmore
        have hfirst := harrived.passes
        rw [AtLine.process_wait hmore, hquiet, List.append_nil] at hfirst
        refine ⟨_, _, hfirst.trans hpasses, hcarried.prepend ?_ ?_
          harrived.count⟩
        · intro e he
          obtain ⟨chunk, rfl⟩ := harrived.silent e he
          trivial
        · refine harrived.timely.mono ?_
          rw [blockEnd_length]
          omega
      obtain ⟨m, rfl⟩ : ∃ m, p = h.line.length + m :=
        ⟨p - h.line.length, by omega⟩
      have hm : m ≤ data.length := by omega
      rcases hm.lt_or_eq with hshort | rfl
      · obtain ⟨c₁, log₁, hfirst, hnext, hpos₁, hasks, htimely, hcount⟩ :=
          gathering_of_partial wf hline hblock hentries harrived hcrlf
            (by omega) (by omega) rfl hshort hinside
        obtain ⟨log', result, hpasses, hcarried⟩ := ih _ (by omega) hnext rfl
        exact ⟨_, _, hfirst.trans hpasses,
          hcarried.prepend hasks htimely hcount⟩
      · -- the block ends in CRLF, which is taken for the one behind it
        have htake : (storageStream h data rest).take
            (h.line.length + data.length + 2) = _ := storageStream_take hm
        rw [List.take_length] at htake
        have hdrop : (storageStream h data rest).drop
            (h.line.length + data.length + 2) = crlf ++ rest := by
          rw [show h.line.length + data.length + 2 = blockEnd h data by omega,
            storageStream_drop_block]
        exact carriedOut_of_complete wf hline hblock hentries harrived hcrlf
          (by omega) (by omega) htake hdrop List.take_length (by omega)
          (.inr rfl)

end Storage

/--
However `recv` cuts the stream, a storage request at its beginning is carried out
once, with the bytes of its block.  The calls of `cmdProcessCommand` before only
ask for more data and leave the entries as they are; no `recv` is called once the
request has been received; and nothing of the request is left over for the calls
behind it, but perhaps its CRLF.
-/
theorem storage_carriedOut_once (env : Env) (clock : Nat → Times) (h : Header)
    (data rest : Bytes) (wf : h.WellFormed data.length)
    (hdata : 1 ≤ data.length) (hblock : data.length + 80 ≤ 2147483648)
    (hline : h.line.length + 81 ≤ 2147483648) (chunks : List Bytes)
    (hchunks : ∀ chunk ∈ chunks, chunk ≠ [] ∧ chunk.length ≤ 80)
    (hstream : chunks.flatten = (Message.storage h data).bytes ++ rest)
    (last : NoData) (s : Store) :
    ∃ rounds log result,
      roundsOf env clock rounds
        { chunks := chunks, last := last, db := ⟨s, Locks.free⟩ } =
          (log, result) ∧
      CarriedOut env h data rest s 0 log result := by
  have hstart : Boundary (storageStream h data rest)
      { chunks := chunks, last := last, db := ⟨s, Locks.free⟩ } := by
    refine ⟨rfl, rfl, rfl, rfl, ?_, hchunks, by simp⟩
    rw [List.nil_append, hstream, bytes_append_rest]
  generalize hc : ({ chunks := chunks, last := last, db := ⟨s, Locks.free⟩ } :
    Conn) = c at hstart ⊢
  have hpos := hstart.pos
  have hempty : c.persistentData = [] := by rw [← hc]
  have hnothing : c.data.length + c.persistentData.length = 0 := by
    simp [hstart.data, hempty]
  have hend : blockEnd h data = h.line.length + 2 + data.length := rfl
  have hlong := two_le_line_length h
  have hwithin : Within 0 2 c := by
    refine ⟨by simp [hstart.readMore], ?_, fun hagain => ?_⟩
    · simp [hstart.readMore, hstart.data, hempty, hpos]
    · simp [hstart.flag, hempty] at hagain
  have hfind := find?_crlf wf.oneLine (data ++ (crlf ++ rest))
  have hcrlf := find?_isPrefixOf hfind
  obtain ⟨c', log, harrived⟩ := hstart.holds.arrives env clock hwithin
    hstart.clean (i := h.line.length - 2) (p := h.line.length) (by omega)
    (by rw [hpos]; exact find?_drop hfind hlong) (by omega) (by omega)
    (fun hagain => by simp [hstart.flag, hempty] at hagain)
    (by unfold wordSize; omega)
  have hupper := harrived.line.holds.upper
  obtain ⟨c₁, log₁, hfirst, hnext, -, hasks, htimely, hcount⟩ :=
    gathering_of_partial wf hline hblock
      ⟨s, by rw [← hc], SameEntries.refl s⟩ harrived hcrlf
      (by have := harrived.line.pos; omega) (by omega) (Nat.add_zero _).symm
      hdata (by omega)
  obtain ⟨log', result, hpasses, hcarried⟩ :=
    hnext.carriedOut env clock wf hline hblock
  obtain ⟨rounds, hrounds⟩ := hfirst.trans hpasses
  refine ⟨rounds, _, result, hrounds, ?_⟩
  rw [hnothing] at htimely hcount
  exact hcarried.prepend hasks htimely hcount

/-- A block with a CRLF in it, which comes in parts. -/
theorem storage_carriedOut_once_parts :
    let chunks := [ascii "set k 0 0 5\r\na\r", ascii "\nb", ascii "c\r",
      ascii "\nget k\r\n"]
    ∃ rounds log result,
      roundsOf Env.x86 (fun _ => .const 1000) rounds
        { chunks := chunks, last := .wouldBlock, db := State.init } =
          (log, result) ∧
      CarriedOut Env.x86 (setHeader "5") (ascii "a\r\nbc") (ascii "get k\r\n")
        Store.init 0 log result := by
  intro chunks
  exact storage_carriedOut_once Env.x86 (fun _ => .const 1000) (setHeader "5")
    (ascii "a\r\nbc") (ascii "get k\r\n")
    (setHeader_wellFormed (by decide) (by decide) (by decide)) (by decide)
    (by decide) (by decide) chunks (by decide) (by decide) .wouldBlock Store.init

/-! ## A block that is too long for the counter -/

section Overflow

variable {env : Env} {clock : Nat → Times} {h : Header} {n : Nat} {s : Store}
  {chunks : List Bytes}

def overflowChunks (h : Header) (n : Nat) : List Bytes :=
  (h.line ++ (crlf ++ [120])) ::
    (List.replicate (n - 1) [120] ++ [crlf ++ List.replicate 78 120])

def keptByte (h : Header) (n : Nat) (s : Store) (chunks : List Bytes) : Conn :=
  { data := h.line ++ crlf
    persistentData := [120]
    pos := h.line.length
    readMore := n + 2
    chunks := chunks
    last := .wouldBlock
    calls := 1
    db := ⟨s, Locks.free⟩ }

def trickled (h : Header) (n : Nat) (s : Store) (m : Nat)
    (chunks : List Bytes) : Conn :=
  { data := h.line ++ (crlf ++ List.replicate m 120)
    persistFlag := true
    pos := h.line.length
    readMore := n + 3 - m
    chunks := chunks
    last := .wouldBlock
    calls := 1
    db := ⟨s, Locks.free⟩ }

theorem drop_header (line block : Bytes) :
    (line ++ (crlf ++ block)).drop (line.length + 2) = block := by
  rw [← List.append_assoc]
  exact List.drop_left' (by simp [crlf])

theorem notMem_replicate (m : Nat) : (13 : UInt8) ∉ List.replicate m 120 := by
  intro hmem
  exact absurd (List.eq_of_mem_replicate hmem) (by decide)

theorem clean_trickled {m : Nat} {c : Conn}
    (hdata : c.data = h.line ++ (crlf ++ List.replicate m 120))
    (hpos : c.pos = h.line.length) : Clean c := by
  rw [Clean, hdata, hpos, drop_header]
  exact find?_crlf_none (notMem_replicate m)

theorem overflow_first (wf : h.WellFormed n) (hline : h.line.length ≤ 77)
    (hn : n < 2147483646) (hpositive : 0 < n) :
    Passes (round env clock) (roundEvents clock)
      { chunks := (h.line ++ (crlf ++ [120])) :: chunks, last := .wouldBlock,
        db := ⟨s, Locks.free⟩ }
      [.recv (h.line ++ (crlf ++ [120])),
        .call (clock 0) (h.line ++ crlf) ⟨s, Locks.free⟩]
      (.ok (keptByte h n (handleFlush (clock 0).flush s) chunks)) := by
  have hlong := two_le_line_length h
  let c₁ : Conn :=
    { data := h.line ++ (crlf ++ [120])
      readMore := -(h.line.length + 3 : Nat)
      chunks := chunks
      last := .wouldBlock
      db := ⟨s, Locks.free⟩ }
  have hlength : (h.line ++ (crlf ++ [120])).length = h.line.length + 3 := by
    simp [crlf]
  have hreceive : receive
      { chunks := (h.line ++ (crlf ++ [120])) :: chunks, last := .wouldBlock,
        db := ⟨s, Locks.free⟩ } = .ok c₁ := by
    have hcount : toInt (0 - (h.line.length + 3 : Nat)) =
        -(h.line.length + 3 : Nat) := by
      rw [toInt_of_small (by omega) (by omega)]
      omega
    simp only [receive, ne_eq, not_true_eq_false, if_false, List.nil_append,
      hlength, hcount, c₁]
  have hfind : find? crlf (c₁.data.drop (c₁.pos + 2)) =
      some (h.line.length - 2) :=
    find?_drop (find?_crlf wf.oneLine [120]) hlong
  have hcut : cutLine c₁ = (true, cutAt c₁ (h.line.length - 2)) := by
    refine cutLine_some hfind (by simp [c₁]) ?_ ?_
    · simp only [c₁]
      omega
    · simp only [c₁]
      unfold wordSize
      omega
  have hat : cutAt c₁ (h.line.length - 2) =
      { c₁ with
        data := h.line ++ crlf
        persistentData := [120]
        pos := h.line.length } := by
    have hpos : 0 + 2 + (h.line.length - 2) = h.line.length := by omega
    have htake : (h.line ++ (crlf ++ [120])).take (h.line.length + 2) =
        h.line ++ crlf := by
      rw [← List.append_assoc]
      exact List.take_left' (by simp [crlf])
    simp only [cutAt, c₁, hpos, htake, drop_header, Bool.false_eq_true,
      if_false]
  have hsuffix : crlf.isSuffixOf (h.line ++ crlf) = true := by
    rw [List.isSuffixOf_iff_suffix]
    exact List.suffix_append _ _
  obtain ⟨expTime, hexpTime⟩ := exists_expiryField wf (clock 0).parse
  have hsmall : (h.line ++ (crlf ++ [])).length + 2 < wordSize := by
    simp only [crlf, List.length_append, List.length_cons, List.length_nil]
    unfold wordSize
    omega
  have hdispatch := dispatch_header wf (by omega) hexpTime hsmall
  rw [List.append_nil, List.length_nil, if_pos hpositive] at hdispatch
  have hrun : Command.run env (cmdProcessCommand (clock 0) (h.line ++ crlf))
      ⟨s, Locks.free⟩ = .ok (⟨n + 2, []⟩,
        ⟨handleFlush (clock 0).flush s, Locks.free⟩) := by
    rw [run_command, hdispatch]
    simp only [Nat.cast_zero, sub_zero]
    rfl
  have hready : ¬ (-(h.line.length + 3 : Nat) : Int) > 0 := by omega
  have hmore : (n : Int) + 2 > 0 := by omega
  have hpasses := Passes.round (round env clock)
    { chunks := (h.line ++ (crlf ++ [120])) :: chunks, last := .wouldBlock,
      db := ⟨s, Locks.free⟩ } (roundEvents clock)
  rw [round_of_cut env clock hreceive hcut,
    roundEvents_of_cut clock hreceive hcut, hat] at hpasses
  simpa only [process, callEvents, recvEvents, c₁, hready, if_false, hsuffix,
    if_true, hrun, respond, hmore, keptByte, ne_eq, not_true_eq_false,
    List.cons_append, List.nil_append, Nat.zero_add] using hpasses

theorem overflow_kept (hline : h.line.length ≤ 77) :
    Passes (round env clock) (roundEvents clock) (keptByte h n s chunks) []
      (.ok (trickled h n s 1 chunks)) := by
  have hreceive : receive (keptByte h n s chunks) =
      .ok (trickled h n s 1 chunks) := by
    have hmore : (n : Int) + 2 = n + 3 - (1 : Nat) := by omega
    simp [receive, keptByte, trickled, hmore]
  have hcut := cutLine_none
    (clean_trickled (c := trickled h n s 1 chunks) rfl rfl)
    (show h.line.length + 2 < wordSize by unfold wordSize; omega)
  have hpasses := Passes.round (round env clock) (keptByte h n s chunks)
    (roundEvents clock)
  rw [round_of_none env clock hreceive hcut,
    roundEvents_of_none clock hreceive hcut] at hpasses
  exact hpasses

theorem overflow_byte (hline : h.line.length ≤ 77) (hn : n < 2147483646)
    {m : Nat} (hm : m ≤ n) :
    Passes (round env clock) (roundEvents clock)
      (trickled h n s m ([120] :: chunks)) [.recv [120]]
      (.ok (trickled h n s (m + 1) chunks)) := by
  have hreceive : receive (trickled h n s m ([120] :: chunks)) =
      .ok (trickled h n s (m + 1) chunks) := by
    have hmore : toInt ((n : Int) + 3 - m - 1) = n + 3 - (m + 1) := by
      rw [toInt_of_small (by omega) (by omega)]
      omega
    simp [receive, trickled, hmore, List.replicate_succ']
  have hcut := cutLine_none
    (clean_trickled (c := trickled h n s (m + 1) chunks) rfl rfl)
    (show h.line.length + 2 < wordSize by unfold wordSize; omega)
  have hpasses := Passes.round (round env clock)
    (trickled h n s m ([120] :: chunks)) (roundEvents clock)
  rw [round_of_none env clock hreceive hcut,
    roundEvents_of_none clock hreceive hcut] at hpasses
  exact hpasses

variable (env clock s chunks) in
theorem overflow_bytes (hline : h.line.length ≤ 77) (hn : n < 2147483646)
    (k : Nat) : ∀ m, m + k ≤ n →
    Passes (round env clock) (roundEvents clock)
      (trickled h n s m (List.replicate k [120] ++ chunks))
      (List.replicate k (.recv [120])) (.ok (trickled h n s (m + k) chunks)) := by
  induction k with
  | zero => exact fun m _ => .refl
  | succ k ih =>
      intro m hm
      rw [List.replicate_succ, List.replicate_succ, List.cons_append,
        ← List.singleton_append (l := List.replicate k (Event.recv [120]))]
      have hrest := ih (m + 1) (by omega)
      rw [show m + 1 + k = m + (k + 1) by omega] at hrest
      exact (overflow_byte hline hn (by omega)).trans hrest

def completed (h : Header) (n : Nat) (s : Store) : Conn :=
  { trickled h n s n [] with
    data := h.line ++ (crlf ++ (List.replicate n 120 ++ crlf)) ++
      List.replicate 78 120
    readMore := -77 }

def overflowed (h : Header) (n : Nat) (s : Store) : Conn :=
  { trickled h n s n [] with
    data := h.line ++ (crlf ++ (List.replicate n 120 ++ crlf))
    persistentData := List.replicate 78 120
    persistFlag := false
    pos := h.line.length + 2 + n
    readMore := 4294967296 - (n + 79) }

theorem length_request : (h.line ++ (crlf ++ (List.replicate n 120 ++
    crlf))).length = h.line.length + 2 + n + 2 := by
  simp only [crlf, List.length_append, List.length_cons, List.length_nil,
    List.length_replicate]
  omega

theorem cutLine_completed (hline : h.line.length ≤ 77) (hn : n < 2147483646)
    (hlarge : 2147483648 < n + 79) :
    cutLine (completed h n s) = (true, overflowed h n s) := by
  have hpos : toWord (h.line.length + 2) = h.line.length + 2 :=
    toWord_of_lt (by unfold wordSize; omega)
  have hend : toWord (h.line.length + 2 + n + 2) =
      h.line.length + 2 + n + 2 := toWord_of_lt (by unfold wordSize; omega)
  have hfind : find (h.line ++ (crlf ++ (List.replicate n 120 ++ crlf)) ++
      List.replicate 78 120) crlf (h.line.length + 2) =
        h.line.length + 2 + n := by
    have hblock : ¬ crlf <:+: List.replicate n 120 := fun hinside =>
      notMem_replicate n (hinside.subset List.mem_cons_self)
    have hfirst := find?_crlf hblock (List.replicate 78 120)
    rw [List.length_replicate] at hfirst
    simp only [List.append_assoc, find, drop_header, hfirst]
  have hnpos : h.line.length + 2 + n ≠ npos := by
    unfold npos wordMax
    omega
  have hstep : toWord (wordSub (h.line.length + 2 + n) (h.line.length + 2) +
      2) = n + 2 := by
    rw [wordSub_of_le (by unfold wordSize; omega) (by omega),
      Nat.add_sub_cancel_left]
    exact toWord_of_lt (by unfold wordSize; omega)
  have hmore : toInt (-77 - (n + 2 : Nat)) = 4294967296 - (n + 79) := by
    unfold toInt
    rw [Int.bmod_def]
    omega
  simp only [cutLine, completed, trickled, hpos, hfind, hnpos, if_false, hend,
    hstep, if_true, hmore]
  rw [List.take_left' length_request, List.drop_left' length_request]
  rfl

variable (env clock h s) in
theorem overflow_last (hline : h.line.length ≤ 77) (hn : n < 2147483646)
    (hlarge : 2147483648 < n + 79) :
    ∃ log ending, Passes (round env clock) (roundEvents clock)
        (trickled h n s n [crlf ++ List.replicate 78 120]) log
        (.error ending) ∧ ∀ e ∈ log, ∃ chunk, e = .recv chunk := by
  let c₃ : Conn :=
    { overflowed h n s with
      persistentData := []
      data := h.line ++ (crlf ++ (List.replicate n 120 ++ crlf)) ++
        List.replicate 78 120
      persistFlag := true }
  have hreceive : receive (trickled h n s n [crlf ++ List.replicate 78 120]) =
      .ok (completed h n s) := by
    have hlength : (crlf ++ List.replicate 78 (120 : UInt8)).length = 80 := rfl
    have hmore : toInt ((n : Int) + 3 - n - (80 : Nat)) = -77 := by
      rw [toInt_of_small (by omega) (by omega)]
      omega
    simp only [receive, trickled, completed, ne_eq, not_true_eq_false, if_false,
      hlength, hmore, List.append_assoc]
  have hcut := cutLine_completed (s := s) hline hn hlarge
  have hwait : process env clock (overflowed h n s) = .ok (overflowed h n s) :=
    AtLine.process_wait (show (0 : Int) < 4294967296 - (n + 79) by omega)
  have hquiet : callEvents clock (overflowed h n s) = [] :=
    if_pos (show (4294967296 : Int) - (n + 79) > 0 by omega)
  have hkept : receive (overflowed h n s) = .ok c₃ :=
    if_pos (List.cons_ne_nil _ _)
  have hnone : cutLine c₃ = (false, c₃) := by
    refine cutLine_none ?_ ?_
    · simp only [Clean, c₃, overflowed]
      rw [List.drop_left' length_request]
      exact find?_crlf_none (notMem_replicate 78)
    · simp only [c₃, overflowed]
      unfold wordSize
      omega
  have hleft : round env clock c₃ =
      .error ⟨[], NoData.wouldBlock.outcome ⟨s, Locks.free⟩⟩ := rfl
  have hfirst := Passes.round (round env clock)
    (trickled h n s n [crlf ++ List.replicate 78 120]) (roundEvents clock)
  rw [round_of_cut env clock hreceive hcut, hwait,
    roundEvents_of_cut clock hreceive hcut, hquiet] at hfirst
  have hsecond := Passes.round (round env clock) (overflowed h n s)
    (roundEvents clock)
  rw [round_of_none env clock hkept hnone,
    roundEvents_of_none clock hkept hnone] at hsecond
  have hthird := Passes.round (round env clock) c₃ (roundEvents clock)
  rw [hleft] at hthird
  refine ⟨_, _, hfirst.trans (hsecond.trans hthird), ?_⟩
  intro e he
  rw [List.mem_singleton.mp he]
  exact ⟨_, rfl⟩

variable (env clock s) in
theorem overflow_run (wf : h.WellFormed n) (hline : h.line.length ≤ 77)
    (hn : n < 2147483646) (hlarge : 2147483648 < n + 79) :
    ∃ log ending, Passes (round env clock) (roundEvents clock)
        { chunks := overflowChunks h n, last := .wouldBlock,
          db := ⟨s, Locks.free⟩ } log (.error ending) ∧
      ∀ times input db, .call times input db ∈ log → input = h.line ++ crlf := by
  obtain ⟨log, ending, hlast, hsilent⟩ :=
    overflow_last env clock h (handleFlush (clock 0).flush s) hline hn hlarge
  have hbytes := overflow_bytes env clock (handleFlush (clock 0).flush s)
    [crlf ++ List.replicate 78 120] hline hn (n - 1) 1 (by omega)
  rw [Nat.add_sub_cancel' (by omega)] at hbytes
  refine ⟨_, ending, (overflow_first wf hline hn (by omega)).trans
    ((overflow_kept hline).trans (hbytes.trans hlast)), ?_⟩
  intro times input db hmem
  simp only [List.nil_append, List.cons_append, List.mem_cons, List.mem_append,
    reduceCtorEq, false_or, Event.call.injEq, List.mem_replicate, and_false]
    at hmem
  rcases hmem with ⟨-, hinput, -⟩ | hmem
  · exact hinput
  · obtain ⟨chunk, hchunk⟩ := hsilent _ hmem
    contradiction

theorem flatten_overflowChunks (hn : 0 < n) :
    (overflowChunks h n).flatten =
      (Message.storage h (List.replicate n 120)).bytes ++
        List.replicate 78 120 := by
  have hsingles (k : Nat) : (List.replicate k [(120 : UInt8)]).flatten =
      List.replicate k 120 := by
    induction k with
    | zero => rfl
    | succ k ih => rw [List.replicate_succ, List.flatten_cons, ih]; rfl
  obtain ⟨k, rfl⟩ : ∃ k, n = k + 1 := ⟨n - 1, by omega⟩
  simp only [overflowChunks, Nat.add_sub_cancel, List.flatten_cons,
    List.flatten_append, hsingles, List.flatten_nil, List.append_nil,
    Message.bytes, List.replicate_succ, List.append_assoc]
  rfl

end Overflow

/-- Near the largest block length that an `int` can ask for, the counter
overflows, and the request is not carried out when it is complete. -/
theorem storage_waits_after_overflow :
    ¬ ∀ (env : Env) (clock : Nat → Times) (h : Header) (data rest : Bytes),
      h.WellFormed data.length → 1 ≤ data.length →
      data.length < 2147483646 → ∀ chunks : List Bytes,
      (∀ chunk ∈ chunks, chunk ≠ [] ∧ chunk.length ≤ 80) →
      chunks.flatten = (Message.storage h data).bytes ++ rest →
      ∀ (last : NoData) (s : Store), ∃ rounds log result,
        roundsOf env clock rounds
          { chunks := chunks, last := last, db := ⟨s, Locks.free⟩ } =
            (log, result) ∧
        CarriedOut env h data rest s 0 log result := by
  intro hall
  -- the length is kept as a variable, so that nothing unfolds the block
  obtain ⟨n, hn⟩ : ∃ n, n = 2147483645 := ⟨_, rfl⟩
  have hlength : (List.replicate n (120 : UInt8)).length = n :=
    List.length_replicate
  have wf : (setHeader "2147483645").WellFormed n :=
    setHeader_wellFormed (by decide) (by rw [hn]; decide) (by decide)
  have hline : (setHeader "2147483645").line.length ≤ 77 := by decide
  obtain ⟨rounds, log, result, hrounds, ⟨⟨before, times, input, db, expTime,
    hlog, -, -, -, -, hdispatch⟩, -⟩⟩ := hall Env.x86 (fun _ => .const 1000)
      (setHeader "2147483645") (List.replicate n 120) (List.replicate 78 120)
      (by rwa [hlength]) (by omega) (by omega)
      (overflowChunks (setHeader "2147483645") n) (by
        intro chunk hchunk
        simp only [overflowChunks, List.mem_cons, List.mem_append,
          List.mem_replicate, List.not_mem_nil, or_false] at hchunk
        rcases hchunk with rfl | ⟨-, rfl⟩ | rfl
        · decide
        · decide
        · decide)
      (flatten_overflowChunks (by omega)) .wouldBlock Store.init
  obtain ⟨full, ending, hpasses, hcalls⟩ := overflow_run Env.x86
    (fun _ => .const 1000) Store.init wf hline (by omega) (by omega)
  have hmem : .call times input db ∈ full := by
    have hlast : .call times input db ∈ (log, result).1 := by simp [hlog]
    rw [← hrounds] at hlast
    exact hpasses.mem_of_left hlast
  obtain rfl := hcalls times input db hmem
  obtain ⟨e, he⟩ := exists_expiryField wf times.parse
  have hsmall : ((setHeader "2147483645").line ++ (crlf ++ [])).length + 2 <
      wordSize := by decide
  have hasks := dispatch_header wf (by omega) he hsmall
  rw [List.append_nil, hdispatch, List.length_nil, if_pos (by omega)] at hasks
  cases hasks

end Memstashed.Ssock
