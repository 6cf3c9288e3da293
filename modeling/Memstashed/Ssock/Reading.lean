import Memstashed.Foundation.Search
import Memstashed.Ssock.Connection

/-!
# From one CRLF to the next

However the stream is cut into chunks, the loop comes to the next CRLF behind
its position, with the data cut off there.  The counter `readMore` is known only
up to an upper bound: bytes may be counted twice, but none is left out.
-/

namespace Memstashed.Ssock

open Memstashed.Foundation
open Memstashed.Dblru
open Memstashed.Scmd

def intLimit : Nat := 2147483648

theorem toInt_of_small {n : Int} (hlow : -2147483648 ≤ n)
    (hhigh : n < 2147483648) : toInt n = n := by
  unfold toInt
  rw [Int.bmod_eq_of_le] <;> omega

/-- The data and what is still to come make up the stream, and `readMore` is no
more than what is missing up to `limit`. -/
structure Holds (stream : Bytes) (limit : Nat) (c : Conn) : Prop where
  stream : c.data ++ (c.persistentData ++ c.chunks.flatten) = stream
  chunks : ∀ chunk ∈ c.chunks, chunk ≠ [] ∧ chunk.length ≤ 80
  kept : c.persistentData.length ≤ 80
  upper : c.readMore + c.pos + 2 ≤ limit
  counted : c.persistFlag = false → c.readMore + c.data.length ≤ limit
  lower : 0 ≤ c.readMore + c.data.length + c.persistentData.length + c.pos

/-- Bounds of `readMore`: no more than `top` bytes are asked for, and bytes are
counted a second time only where data had been kept. -/
structure Within (base top : Int) (c : Conn) : Prop where
  high : c.readMore ≤ top
  low : base ≤
    c.readMore + c.data.length + c.persistentData.length + c.pos
  again : c.persistFlag = true ∨ c.persistentData ≠ [] → base <
    c.readMore + c.data.length + c.persistentData.length + c.pos

def Clean (c : Conn) : Prop := find? crlf (c.data.drop (c.pos + 2)) = none

structure SameWorld (c c' : Conn) : Prop where
  sent : c'.sent = c.sent
  db : c'.db = c.db
  calls : c'.calls = c.calls
  last : c'.last = c.last

theorem SameWorld.refl (c : Conn) : SameWorld c c := ⟨rfl, rfl, rfl, rfl⟩

theorem SameWorld.trans {c c' c'' : Conn} (h : SameWorld c c')
    (h' : SameWorld c' c'') : SameWorld c c'' :=
  ⟨h'.sent.trans h.sent, h'.db.trans h.db, h'.calls.trans h.calls,
    h'.last.trans h.last⟩

section Reading

variable {stream : Bytes} {limit : Nat} {base top : Int} {c c' : Conn}

theorem Holds.within (h : Holds stream limit c) : Within (-1) limit c := by
  have hupper := h.upper
  have hlower := h.lower
  exact ⟨by omega, by omega, fun _ => by omega⟩

structure Fetched (stream : Bytes) (limit : Nat) (base top : Int)
    (c c' : Conn) : Prop where
  holds : Holds stream limit c'
  within : Within base top c'
  empty : c'.persistentData = []
  pos : c'.pos = c.pos
  longer : c.data.length < c'.data.length
  bounded : c'.data.length ≤ c.data.length + 80
  flag : c'.persistFlag = true →
    c.persistFlag = true ∨ c.persistentData ≠ []
  timely : ∀ {n}, c.data.length < n →
    Timely n (c.data.length + c.persistentData.length) (recvEvents c)
  count : c.data.length + c.persistentData.length + received (recvEvents c) =
    c'.data.length
  silent : ∀ e ∈ recvEvents c, ∃ chunk, e = .recv chunk
  world : SameWorld c c'

theorem receive_kept (h : Holds stream limit c) (hw : Within base top c)
    (hkept : c.persistentData ≠ []) :
    ∃ c', receive c = .ok c' ∧ Fetched stream limit base top c c' := by
  have hpositive := List.length_pos_iff.mpr hkept
  have hle := h.kept
  have hlower := h.lower
  have hagain := hw.again (.inr hkept)
  have hevents : recvEvents c = [] := if_pos hkept
  refine ⟨_, if_pos hkept, ⟨?_, h.chunks, by simp, h.upper, by simp, ?_⟩,
    ⟨hw.high, ?_, fun _ => ?_⟩, rfl, rfl, ?_, ?_, fun _ => .inr hkept, ?_, ?_,
    by simp [hevents], ⟨rfl, rfl, rfl, rfl⟩⟩
  · rw [← h.stream, List.append_assoc]
    rfl
  · simp only [List.length_append, List.length_nil, Nat.cast_add]
    omega
  · simp only [List.length_append, List.length_nil, Nat.cast_add]
    omega
  · simp only [List.length_append, List.length_nil, Nat.cast_add]
    omega
  · simp only [List.length_append]
    omega
  · simp only [List.length_append]
    omega
  · intro n _
    rw [hevents]
    trivial
  · simp [hevents, received]

theorem receive_chunk (h : Holds stream limit c) (hw : Within base top c)
    (hkept : c.persistentData = []) {chunk : Bytes} {chunks : List Bytes}
    (hchunks : c.chunks = chunk :: chunks)
    (hlow : -2147483568 ≤ c.readMore) (hhigh : c.readMore < 2147483648) :
    ∃ c', receive c = .ok c' ∧ Fetched stream limit base top c c' := by
  obtain ⟨hchunk, hle⟩ := h.chunks chunk (by simp [hchunks])
  have hpositive := List.length_pos_iff.mpr hchunk
  have hlower := h.lower
  have hupper := h.upper
  have hcounted := h.counted
  have htop := hw.high
  have hbase := hw.low
  have hagain := hw.again
  simp only [hkept, List.length_nil] at hlower hbase hagain
  have hreadMore : toInt (c.readMore - chunk.length) =
      c.readMore - chunk.length := toInt_of_small (by omega) (by omega)
  have hevents : recvEvents c = [.recv chunk] := by
    simp [recvEvents, hkept, hchunks]
  refine ⟨{ c with
    data := c.data ++ chunk
    readMore := toInt (c.readMore - chunk.length)
    chunks := chunks }, ?_, ⟨?_, ?_, h.kept, ?_, ?_, ?_⟩, ⟨?_, ?_, ?_⟩, hkept,
    rfl, ?_, ?_, .inl, ?_, ?_, ?_, ⟨rfl, rfl, rfl, rfl⟩⟩
  · simp only [receive, hkept, hchunks, ne_eq, not_true_eq_false, if_false]
  · rw [← h.stream, hkept, hchunks]
    simp
  · intro other hother
    exact h.chunks other (by simp [hchunks, hother])
  · simp only [hreadMore]
    omega
  · intro hflag
    simp only [hreadMore, List.length_append, Nat.cast_add]
    have := hcounted hflag
    omega
  · simp only [hreadMore, hkept, List.length_append, List.length_nil,
      Nat.cast_add]
    omega
  · simp only [hreadMore]
    omega
  · simp only [hreadMore, hkept, List.length_append, List.length_nil,
      Nat.cast_add]
    omega
  · intro hflag
    have := hagain (hflag.imp_right fun hne => absurd hkept hne)
    simp only [hreadMore, hkept, List.length_append, List.length_nil,
      Nat.cast_add]
    omega
  · simp only [List.length_append]
    omega
  · simp only [List.length_append]
    omega
  · intro n hn
    simp only [hevents, hkept, Timely, List.length_nil, Nat.add_zero]
    exact ⟨hn, trivial⟩
  · simp [hevents, hkept, received]
  · simp [hevents]

theorem exists_fetched (h : Holds stream limit c) (hw : Within base top c)
    (hunread : c.data.length < stream.length)
    (hlow : c.persistentData = [] → -2147483568 ≤ c.readMore)
    (hhigh : c.readMore < 2147483648) :
    ∃ c', receive c = .ok c' ∧ Fetched stream limit base top c c' := by
  by_cases hkept : c.persistentData = []
  · cases hchunks : c.chunks with
    | nil =>
        have hstream := h.stream
        rw [hkept, hchunks] at hstream
        simp only [List.flatten_nil, List.append_nil] at hstream
        rw [hstream] at hunread
        omega
    | cons chunk chunks =>
        exact receive_chunk h hw hkept hchunks (hlow hkept) hhigh
  · exact receive_kept h hw hkept

/-! ## Cutting -/

theorem cutLine_none (hclean : Clean c) (hsmall : c.pos + 2 < wordSize) :
    cutLine c = (false, c) := by
  have hpos : wordSub (c.pos + 2) 2 = c.pos :=
    wordSub_of_le hsmall (by omega)
  have hfind : find c.data crlf (c.pos + 2) = npos := by
    unfold Clean at hclean
    simp [find, hclean]
  simp only [cutLine, toWord_of_lt hsmall, hfind, if_true, hpos]

def cutAt (c : Conn) (i : Nat) : Conn :=
  { c with
    pos := c.pos + 2 + i
    persistentData := c.data.drop (c.pos + 2 + i + 2)
    data := c.data.take (c.pos + 2 + i + 2)
    readMore := if c.persistFlag then c.readMore - (i + 2) else c.readMore
    persistFlag := false }

theorem cutLine_some {i : Nat}
    (hfind : find? crlf (c.data.drop (c.pos + 2)) = some i)
    (hlow : c.persistFlag = true → -2147483648 ≤ c.readMore - (i + 2))
    (hhigh : c.readMore < 2147483648) (hword : c.pos + 2 + i + 2 < wordSize) :
    cutLine c = (true, cutAt c i) := by
  have hpos : toWord (c.pos + 2) = c.pos + 2 := toWord_of_lt (by omega)
  have hp : toWord (c.pos + 2 + i + 2) = c.pos + 2 + i + 2 :=
    toWord_of_lt (by omega)
  have hfound : find c.data crlf (c.pos + 2) = c.pos + 2 + i := by
    simp [find, hfind]
  have hnpos : c.pos + 2 + i ≠ npos := by
    unfold npos wordMax
    unfold wordSize at hword
    omega
  have hstep : toWord (wordSub (c.pos + 2 + i) (c.pos + 2) + 2) = i + 2 := by
    rw [wordSub_of_le (by omega) (by omega), Nat.add_sub_cancel_left]
    exact toWord_of_lt (by omega)
  have hmore : c.persistFlag = true →
      toInt (c.readMore - (i + 2 : Nat)) = c.readMore - (i + 2) := by
    intro hflag
    have := hlow hflag
    exact toInt_of_small (by omega) (by omega)
  simp only [cutLine, hpos, hfound, hnpos, if_false, hp, hstep, cutAt]
  cases hflag : c.persistFlag with
  | true => simp only [if_true, hmore hflag]
  | false => simp only [Bool.false_eq_true, if_false]

structure AtLine (stream : Bytes) (limit p : Nat) (c : Conn) : Prop where
  holds : Holds stream limit c
  data : c.data = stream.take (p + 2)
  pos : c.pos = p
  flag : c.persistFlag = false

theorem atLine_cutAt (h : Holds stream limit c) (hempty : c.persistentData = [])
    {i : Nat} (hfits : c.pos + 2 + i + 2 ≤ c.data.length)
    (hkept : c.data.length ≤ c.pos + 2 + i + 2 + 80) :
    AtLine stream limit (c.pos + 2 + i) (cutAt c i) := by
  have hupper := h.upper
  have hlower := h.lower
  have hcounted := h.counted
  have hstream := h.stream
  simp only [hempty, List.length_nil, List.nil_append] at hlower hstream
  have hmore : (cutAt c i).readMore + (c.pos + 2 + i) + 2 ≤ limit := by
    unfold cutAt
    cases hflag : c.persistFlag with
    | true => simp only [if_true]; omega
    | false =>
        have := hcounted hflag
        simp only [Bool.false_eq_true, if_false]
        omega
  have hless : c.readMore - (i + 2) ≤ (cutAt c i).readMore := by
    unfold cutAt
    cases c.persistFlag <;> simp
    omega
  refine ⟨⟨?_, h.chunks, ?_, ?_, ?_, ?_⟩, ?_, rfl, rfl⟩
  · rw [← hstream, ← List.append_assoc]
    congr 1
    exact List.take_append_drop _ _
  · simp only [cutAt, List.length_drop]
    omega
  · have hpos : ((cutAt c i).pos : Int) = c.pos + 2 + i := by simp [cutAt]
    rw [hpos]
    exact hmore
  · intro _
    simp only [cutAt, List.length_take, Nat.min_eq_left hfits] at hmore ⊢
    omega
  · simp only [cutAt, List.length_take, List.length_drop,
      Nat.min_eq_left hfits] at hless ⊢
    omega
  · rw [← hstream, List.take_append_of_le_length hfits]
    rfl

theorem within_cutAt (hw : Within base top c) (hempty : c.persistentData = [])
    {i : Nat} (hfits : c.pos + 2 + i + 2 ≤ c.data.length) :
    Within base top (cutAt c i) := by
  have htop := hw.high
  have hbase := hw.low
  have hagain := hw.again
  simp only [hempty, List.length_nil] at hbase hagain
  have hlength : ((cutAt c i).data.length : Int) +
      (cutAt c i).persistentData.length = c.data.length := by
    simp only [cutAt, List.length_take, List.length_drop,
      Nat.min_eq_left hfits]
    omega
  have hpos : ((cutAt c i).pos : Int) = c.pos + 2 + i := by simp [cutAt]
  cases hflag : c.persistFlag with
  | true =>
      have hmore : (cutAt c i).readMore = c.readMore - (i + 2) := by
        simp [cutAt, hflag]
      have := hagain (.inl hflag)
      exact ⟨by omega, by omega, fun _ => by omega⟩
  | false =>
      have hmore : (cutAt c i).readMore = c.readMore := by
        simp [cutAt, hflag]
      exact ⟨by omega, by omega, fun _ => by omega⟩

/-! ## Going on until the next CRLF -/

theorem Holds.find?_stream (h : Holds stream limit c) {i : Nat}
    (hfind : find? crlf (c.data.drop (c.pos + 2)) = some i) :
    find? crlf (stream.drop (c.pos + 2)) = some i := by
  have hfits := find?_fits hfind
  simp only [List.length_drop, crlf, List.length_cons, List.length_nil] at hfits
  rw [← h.stream, List.drop_append_of_le_length (by omega)]
  exact find?_append _ hfind

theorem Holds.find?_data (h : Holds stream limit c) {i : Nat}
    (hfind : find? crlf (stream.drop (c.pos + 2)) = some i)
    (hreach : c.pos + 2 + i + 2 ≤ c.data.length) :
    find? crlf (c.data.drop (c.pos + 2)) = some i := by
  rw [← h.stream, List.drop_append_of_le_length (by omega)] at hfind
  refine (find?_append_iff ?_).mp hfind
  simp only [List.length_drop, crlf, List.length_cons, List.length_nil]
  omega

variable (env : Env) (clock : Nat → Times)

def Arrives (c c' : Conn) : Prop :=
  ∀ ending, EndsAfter (round env clock) (process env clock c') ending →
    Ends (round env clock) c ending

theorem round_of_cut {c₁ c₂ : Conn} (hreceive : receive c = .ok c₁)
    (hcut : cutLine c₁ = (true, c₂)) :
    round env clock c = process env clock c₂ := by
  simp only [round, hreceive, hcut, bind, Except.bind]

theorem round_of_none {c₁ : Conn} (hreceive : receive c = .ok c₁)
    (hcut : cutLine c₁ = (false, c₁)) : round env clock c = .ok c₁ := by
  simp only [round, hreceive, hcut, bind, Except.bind]

theorem roundEvents_of_cut {c₁ c₂ : Conn} (hreceive : receive c = .ok c₁)
    (hcut : cutLine c₁ = (true, c₂)) :
    roundEvents clock c = recvEvents c ++ callEvents clock c₂ := by
  simp only [roundEvents, hreceive, hcut]

theorem roundEvents_of_none {c₁ : Conn} (hreceive : receive c = .ok c₁)
    (hcut : cutLine c₁ = (false, c₁)) : roundEvents clock c = recvEvents c := by
  simp only [roundEvents, hreceive, hcut, List.append_nil]

structure Arrived (stream : Bytes) (limit : Nat) (base top : Int) (p : Nat)
    (c c' : Conn) (log : List Event) : Prop where
  passes : Passes (round env clock) (roundEvents clock) c
    (log ++ callEvents clock c') (process env clock c')
  line : AtLine stream limit p c'
  world : SameWorld c c'
  within : Within base top c'
  silent : ∀ e ∈ log, ∃ chunk, e = .recv chunk
  timely : Timely (p + 2) (c.data.length + c.persistentData.length) log
  count : c.data.length + c.persistentData.length + received log =
    c'.data.length + c'.persistentData.length

theorem Holds.arrives (h : Holds stream limit c) (hw : Within base top c)
    (hclean : Clean c) {i p : Nat} (hp : c.pos + 2 + i = p)
    (hfind : find? crlf (stream.drop (c.pos + 2)) = some i)
    (htop : top < 2147483648)
    (hrecv : -2147483648 ≤ base - (p + 81) - c.pos)
    (hcut : c.persistFlag = true ∨ c.persistentData ≠ [] →
      -2147483648 ≤ base - 2 * p - 80)
    (hword : p + 2 < wordSize) :
    ∃ c' log, Arrived env clock stream limit base top p c c' log := by
  -- the part of the stream that has not been read yet gets shorter
  induction hunread : stream.length - c.data.length using Nat.strong_induction_on
      generalizing c with
  | _ unread ih =>
      have hfits := find?_fits hfind
      simp only [List.length_drop, crlf, List.length_cons, List.length_nil]
        at hfits
      have hshort : c.data.length < p + 2 := by
        by_contra hlong
        have hdata := h.find?_data hfind (by omega)
        rw [hclean] at hdata
        contradiction
      have hreadMore := hw.high
      have hbase := hw.low
      obtain ⟨c₁, hreceive, hfetched⟩ :=
        exists_fetched h hw (by omega) (fun hkept => by
          simp only [hkept, List.length_nil] at hbase
          omega) (by omega)
      have hpos := hfetched.pos
      have hlonger := hfetched.longer
      have hbounded := hfetched.bounded
      have hcount := hfetched.count
      have hempty := hfetched.empty
      have hempty₁ : c₁.persistentData.length = 0 := by simp [hempty]
      cases hnext : find? crlf (c₁.data.drop (c₁.pos + 2)) with
      | none =>
          have hnone : cutLine c₁ = (false, c₁) :=
            cutLine_none hnext (by omega)
          have hround : round env clock c = .ok c₁ :=
            round_of_none env clock hreceive hnone
          have hevents : roundEvents clock c = recvEvents c :=
            roundEvents_of_none clock hreceive hnone
          obtain ⟨c', log, harrived⟩ :=
            ih _ (by omega) hfetched.holds hfetched.within hnext (by omega)
              (by rwa [hpos]) (by rwa [hpos])
              (fun hflag => hcut (hfetched.flag
                (hflag.resolve_right fun hne => hne hempty))) rfl
          have hcount' := harrived.count
          refine ⟨c', recvEvents c ++ log, ?_, harrived.line,
            hfetched.world.trans harrived.world, harrived.within, ?_, ?_, ?_⟩
          · have hfirst := Passes.round (round env clock) c
              (roundEvents clock)
            rw [hround, hevents] at hfirst
            rw [List.append_assoc]
            exact hfirst.trans harrived.passes
          · intro e he
            rcases List.mem_append.mp he with he | he
            · exact hfetched.silent e he
            · exact harrived.silent e he
          · refine timely_append.mpr ⟨hfetched.timely hshort, ?_⟩
            rw [hcount]
            have htimely := harrived.timely
            rwa [hempty₁] at htimely
          · rw [received_append]
            omega
      | some j =>
          have hstream := hfetched.holds.find?_stream hnext
          rw [hpos, hfind] at hstream
          cases hstream
          have hfits' := find?_fits hnext
          simp only [List.length_drop, crlf, List.length_cons, List.length_nil]
            at hfits'
          have htop₁ := hfetched.within.high
          have hagain₁ := hfetched.within.again
          have hsome : cutLine c₁ = (true, cutAt c₁ i) := by
            refine cutLine_some hnext (fun hflag => ?_) (by omega) (by omega)
            have hmore := hagain₁ (.inl hflag)
            have hlow := hcut (hfetched.flag hflag)
            omega
          have hline : AtLine stream limit p (cutAt c₁ i) := by
            rw [← hp, ← hpos]
            exact atLine_cutAt hfetched.holds hempty (by omega) (by omega)
          refine ⟨cutAt c₁ i, recvEvents c, ?_, hline,
            hfetched.world.trans ⟨rfl, rfl, rfl, rfl⟩,
            within_cutAt hfetched.within hempty (by omega), hfetched.silent,
            hfetched.timely hshort, ?_⟩
          · have hfirst := Passes.round (round env clock) c
              (roundEvents clock)
            rw [round_of_cut env clock hreceive hsome,
              roundEvents_of_cut clock hreceive hsome] at hfirst
            exact hfirst
          · simp only [cutAt, List.length_take, List.length_drop]
            omega

theorem Holds.next_line (h : Holds stream limit c) (hclean : Clean c) {i : Nat}
    (hfind : find? crlf (stream.drop (c.pos + 2)) = some i)
    (hlimit : limit < intLimit)
    (hsmall : 2 * (c.pos + 2 + i + 100) < intLimit) :
    ∃ c', Arrives env clock c c' ∧ AtLine stream limit (c.pos + 2 + i) c' ∧
      SameWorld c c' := by
  unfold intLimit at hlimit hsmall
  obtain ⟨c', log, harrived⟩ := h.arrives env clock h.within hclean rfl hfind
    (by omega) (by omega) (fun _ => by omega) (by unfold wordSize; omega)
  exact ⟨c', fun ending hending => harrived.passes.ends hending, harrived.line,
    harrived.world⟩

theorem Holds.no_line (h : Holds stream limit c) (hclean : Clean c)
    (hfind : find? crlf (stream.drop (c.pos + 2)) = none)
    (hlimit : limit < intLimit)
    (hsmall : stream.length + c.pos + 80 < intLimit) :
    Ends (round env clock) c ⟨c.sent, c.last.outcome c.db⟩ := by
  induction hunread : stream.length - c.data.length using Nat.strong_induction_on
      generalizing c with
  | _ unread ih =>
      have hlength := congrArg List.length h.stream
      simp only [List.length_append] at hlength
      by_cases hread : c.data.length = stream.length
      · have hkept : c.persistentData = [] :=
          List.eq_nil_of_length_eq_zero (by omega)
        have hchunks : c.chunks = [] := by
          cases hchunks : c.chunks with
          | nil => rfl
          | cons chunk chunks =>
              have hpositive := List.length_pos_iff.mpr
                (h.chunks chunk (by simp [hchunks])).1
              rw [hchunks, List.flatten_cons, List.length_append] at hlength
              omega
        refine .leave ?_
        simp only [round, receive, hkept, hchunks, ne_eq, not_true_eq_false,
          if_false]
        rfl
      · have hupper := h.upper
        have hlower := h.lower
        obtain ⟨c₁, hreceive, hfetched⟩ :=
          exists_fetched h h.within (by omega)
            (fun _ => by unfold intLimit at hsmall; omega)
            (by unfold intLimit at hlimit; omega)
        have hpos := hfetched.pos
        have hlonger := hfetched.longer
        have hlength' := congrArg List.length hfetched.holds.stream
        simp only [List.length_append] at hlength'
        cases hcut : find? crlf (c₁.data.drop (c₁.pos + 2)) with
        | none =>
            have hwordSize : intLimit < wordSize := by decide
            have hround : round env clock c = .ok c₁ :=
              round_of_none env clock hreceive (cutLine_none hcut (by omega))
            rw [← hpos] at hfind hsmall
            have hends := ih _ (by omega) hfetched.holds hcut hfind hsmall rfl
            rw [hfetched.world.sent, hfetched.world.last,
              hfetched.world.db] at hends
            exact .again hround hends
        | some j =>
            have hstream := hfetched.holds.find?_stream hcut
            rw [hpos, hfind] at hstream
            contradiction

end Reading

end Memstashed.Ssock
