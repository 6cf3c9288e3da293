import Memstashed.Scmd.Answers
import Memstashed.Scmd.Replies
import Memstashed.Ssock.Framing

/-!
# What a client reads

The requests on a connection are answered one after another as the map of keys
says, however `recv` cuts the stream.  So a client reads back what it has
written, or finds nothing; between its write and its lookup it may send what it
likes that does not write the key.
-/

namespace Memstashed.Ssock

open Memstashed.Foundation
open Memstashed.Dblru
open Memstashed.Scmd

/-! ## Requests one after another -/

inductive Replied : List Bytes → Contents → List Bytes → Contents → Prop
  | nil (c : Contents) : Replied [] c [] c
  | cons {times : Times} {input : Bytes} {inputs replies : List Bytes}
      {resp : Response} {c c' c'' : Contents} :
      Amounts (Answers times input c resp) c' →
      Replied inputs c' replies c'' →
      Replied (input :: inputs) c (resp.output :: replies) c''

def NoData.waits : NoData → Bool
  | .wouldBlock => true
  | .failed => false
  | .eof => false

/-- How the loop is left: with the socket open or closed and the map as it is
then, or not at all because the process has ended. -/
def Outcome.left : Outcome → Option (Bool × Contents)
  | .waiting db => some (true, db.store.contents)
  | .closed db => some (false, db.store.contents)
  | .terminated _ => none

/-- With these requests unanswered the loop is left: there are none, or the first
of them ends the process or closes the connection. -/
inductive Leaves (last : NoData) :
    List Bytes → Contents → Option (Bool × Contents) → Prop
  | waits (c : Contents) : Leaves last [] c (some (last.waits, c))
  | terminated (input : Bytes) (inputs : List Bytes) (c : Contents) :
      Leaves last (input :: inputs) c none
  | closed {times : Times} {input : Bytes} {inputs : List Bytes}
      {resp : Response} {c c' : Contents} :
      Amounts (Answers times input c resp) c' → resp.ret < 0 →
      Leaves last (input :: inputs) c (some (false, c'))

def Session (last : NoData) (inputs : List Bytes) (c : Contents)
    (replies : List Bytes) (left : Option (Bool × Contents)) : Prop :=
  ∃ front back c', inputs = front ++ back ∧ Replied front c replies c' ∧
    Leaves last back c' left

section Sessions

variable {env : Env} {last : NoData} {inputs replies : List Bytes}
  {c c' : Contents} {left : Option (Bool × Contents)}

theorem Replied.length_eq (h : Replied inputs c replies c') :
    replies.length = inputs.length := by
  induction h with
  | nil => rfl
  | cons _ _ ih => rw [List.length_cons, List.length_cons, ih]

theorem Replied.of_cons {input reply : Bytes}
    (h : Replied (input :: inputs) c (reply :: replies) c') :
    ∃ times resp x, Amounts (Answers times input c resp) x ∧
      resp.output = reply ∧ Replied inputs x replies c' := by
  cases h with
  | cons hanswers hrest => exact ⟨_, _, _, hanswers, rfl, hrest⟩

theorem Replied.of_append {front back : List Bytes}
    (h : Replied (front ++ back) c replies c') :
    ∃ first rest x, replies = first ++ rest ∧ Replied front c first x ∧
      Replied back x rest c' := by
  induction front generalizing c replies with
  | nil => exact ⟨[], replies, c, rfl, .nil c, h⟩
  | cons input front ih =>
      cases h with
      | cons hanswers hrest =>
          obtain ⟨first, rest, x, rfl, hfront, hback⟩ := ih hrest
          exact ⟨_ :: first, rest, x, rfl, .cons hanswers hfront, hback⟩

theorem session_cons {times : Times} {input : Bytes} {resp : Response}
    (hanswers : Amounts (Answers times input c resp) c')
    (h : Session last inputs c' replies left) :
    Session last (input :: inputs) c (resp.output :: replies) left := by
  obtain ⟨front, back, c'', rfl, hfront, hleaves⟩ := h
  exact ⟨input :: front, back, c'', rfl, .cons hanswers hfront, hleaves⟩

variable (env last) in
theorem session_oneByOne (requests : List (Times × Bytes)) (db : State) :
    ∃ replies, (oneByOne env last requests db).sent = replies.flatten ∧
      Session last (requests.map Prod.snd) db.store.contents replies
        (oneByOne env last requests db).outcome.left := by
  induction requests generalizing db with
  | nil =>
      have hleft : (last.outcome db).left =
          some (last.waits, db.store.contents) := by
        cases last <;> rfl
      refine ⟨[], rfl, [], [], _, rfl, .nil _, ?_⟩
      rw [oneByOne, hleft]
      exact .waits _
  | cons request requests ih =>
      obtain ⟨times, input⟩ := request
      simp only [oneByOne, List.map_cons]
      cases hrun : Command.run env (cmdProcessCommand times input) db with
      | error e => exact ⟨[], rfl, [], _, _, rfl, .nil _, .terminated _ _ _⟩
      | ok result =>
          obtain ⟨resp, db'⟩ := result
          have hanswers := answers_of_run hrun
          by_cases hret : resp.ret < 0
          · simp only [hret, if_true]
            exact ⟨[], rfl, [], _, _, rfl, .nil _, .closed hanswers hret⟩
          · simp only [hret, if_false]
            obtain ⟨replies, hsent, hsession⟩ := ih db'
            exact ⟨resp.output :: replies,
              by rw [hsent, List.flatten_cons],
              session_cons hanswers hsession⟩

variable (env) in
theorem exists_session {clock : Nat → Times}
    (hclock : ∀ i j, i ≤ j → (clock i).flush ≤ (clock j).flush)
    {messages : List Message} (hwell : ∀ m ∈ messages, m.WellFormed)
    (hsmall : ∀ m ∈ messages, m.bytes.length + 100 < 1073741824)
    (hdistinct : ∀ m ∈ messages.dropLast, ¬ m.Blurred) {chunks : List Bytes}
    (hchunks : ∀ chunk ∈ chunks, chunk ≠ [] ∧ chunk.length ≤ 80)
    (hstream : chunks.flatten = (messages.map Message.bytes).flatten)
    (last : NoData) (s : Store) :
    ∃ fuel ending replies,
      sockHandleIncomingConn env clock fuel chunks last ⟨s, Locks.free⟩ =
        some ending ∧
      ending.sent = replies.flatten ∧
      Session last (messages.map Message.bytes) s.contents replies
        ending.outcome.left := by
  have hstart : Boundary (messages.map Message.bytes).flatten
      { chunks := chunks, last := last, db := ⟨s, Locks.free⟩ } :=
    ⟨rfl, rfl, rfl, rfl, hstream, hchunks, by simp⟩
  obtain ⟨calls, hlength, -, -, hends⟩ :=
    Boundary.served_all last hclock messages hwell hsmall hdistinct hstart rfl
      rfl
  have hround : Ends (round env clock) _ _ := hends
  obtain ⟨fuel, hfuel⟩ := hround.exists_loopFor
  obtain ⟨replies, hsent, hsession⟩ := session_oneByOne env last
    ((calls.map clock).zip (messages.map Message.bytes)) ⟨s, Locks.free⟩
  rw [List.map_snd_zip (by simp [hlength])] at hsession
  exact ⟨fuel, _, replies, hfuel, hsent, hsession⟩

theorem Replied.kept {key : KeyType} (h : Replied inputs c replies c')
    (hwrites : ∀ input ∈ inputs, ¬ Writes input key) : Kept c c' key := by
  induction h with
  | nil c => exact kept_of_forgets (.refl c)
  | cons hanswers _ ih =>
      have hhead := hwrites _ List.mem_cons_self
      have htail := ih fun input hmem =>
        hwrites input (List.mem_cons_of_mem _ hmem)
      exact (kept_of_amounts hanswers hhead).trans htail

end Sessions

/-! ## Reading what was written -/

section Reading

variable {h : Header} {data output : Bytes} {c c' : Contents} {times : Times}
  {resp : Response}

theorem length_lt_wordSize {input : Bytes}
    (hsmall : input.length + 100 < 1073741824) :
    input.length + 2 < wordSize := by
  unfold wordSize
  omega

theorem ofBytes_storage (h : Header) (data : Bytes) :
    Word.ofBytes (commandWord (Message.storage h data).bytes) =
      some h.word := by
  rw [Message.bytes, commandWord_header, ofBytes_text]

theorem storageRequest_message (wf : h.WellFormed data.length)
    (hsmall : (Message.storage h data).bytes.length + 100 < 1073741824)
    (now : Nat) :
    ∃ expTime, h.word.storageRequest now (Message.storage h data).bytes =
      .ok (0, h.read expTime data.length (data ++ crlf)) := by
  obtain ⟨expTime, hexpTime⟩ := exists_expiryField wf now
  have hlength : data.length ≤ (Message.storage h data).bytes.length := by
    simp only [Message.bytes, List.length_append]
    omega
  have hnone : missingBytes data.length (data ++ crlf) = 0 := by
    rw [missingBytes, List.length_append, if_neg (by omega)]
  have hread := storageRequest_header wf (by omega) hexpTime
    (length_lt_wordSize hsmall)
  rw [hnone] at hread
  exact ⟨expTime, hread⟩

theorem holdsOnly_of_stored (wf : h.WellFormed data.length)
    (hsmall : (Message.storage h data).bytes.length + 100 < 1073741824)
    (happend : h.word ≠ .append) (hprepend : h.word ≠ .prepend)
    (hanswers : Amounts
      (Answers times (Message.storage h data).bytes c resp) c')
    (hstored : resp.output = ascii "STORED\r\n") :
    HoldsOnly c' h.key data h.flags := by
  obtain ⟨y, hanswers, hforgets⟩ := hanswers
  refine HoldsOnly.of_kept ?_ (kept_of_forgets hforgets)
  obtain ⟨expTime, hrequest⟩ := storageRequest_message wf hsmall times.parse
  have hstorage : h.word.StorageAnswers times (Message.storage h data).bytes c
      resp y := by
    unfold Answers at hanswers
    rw [ofBytes_storage] at hanswers
    rwa [← Word.answers_storage wf.stores]
  unfold Word.StorageAnswers at hstorage
  rw [hrequest] at hstorage
  obtain ⟨output, hstores, rfl⟩ := hstorage
  have houtput : output = ascii "STORED\r\n" := by
    cases hnoreply : h.noreply with
    | true =>
        simp only [answer, Header.read, hnoreply, if_true] at hstored
        exact absurd hstored (by decide)
    | false => simpa [answer, Header.read, hnoreply] using hstored
  have hholds := hstores.holdsOnly houtput happend hprepend
  simpa [Header.read] using hholds

def getMessage (key : Bytes) : Message :=
  .line (ascii "get" ++ space :: key)

def shownItem (h : Header) (data : Bytes) : Bytes :=
  valueItem false h.key ⟨h.flags, [], data, 0⟩

theorem ofBytes_getMessage (key : Bytes) :
    Word.ofBytes (commandWord (getMessage key).bytes) = some .get := by
  have htext : (getMessage key).bytes =
      ascii Word.get.text ++ space :: (key ++ crlf) := by
    simp [getMessage, Message.bytes, Word.text]
  rw [htext, commandWord_text, ofBytes_text]

theorem getKeys_getMessage {key : Bytes} (hkey : OneWord key)
    (hsmall : (getMessage key).bytes.length + 100 < 1073741824) :
    getKeys (getMessage key).bytes = .ok [key] := by
  have hbytes : (getMessage key).bytes = keysRequest (ascii "get") [key] := by
    simp [getMessage, Message.bytes, keysRequest]
  rw [hbytes] at hsmall ⊢
  refine getKeys_keysRequest (by decide) (by simp) ?_
    (length_lt_wordSize hsmall)
  simpa using hkey

theorem shown_of_holdsOnly (hkey : OneWord h.key)
    (hsmall : (getMessage h.key).bytes.length + 100 < 1073741824)
    (hholds : HoldsOnly c h.key data h.flags)
    (hanswers : Amounts (Answers times (getMessage h.key).bytes c resp) c') :
    resp.output = ascii "END\r\n" ∨
      resp.output = shownItem h data ++ ascii "END\r\n" := by
  obtain ⟨y, hanswers, -⟩ := hanswers
  unfold Answers at hanswers
  rw [ofBytes_getMessage] at hanswers
  simp only [Word.Answers, getKeys_getMessage hkey hsmall, Understood]
    at hanswers
  obtain ⟨items, hreads, rfl⟩ := hanswers
  cases hreads with
  | miss hrest =>
      cases hrest
      exact .inl rfl
  | @hit _ _ _ _ items element hfound hrest =>
      cases hrest
      obtain ⟨hvalue, hflags⟩ := hholds _ hfound
      refine .inr ?_
      simp only at hvalue hflags
      simp [shownItem, valueItem, hvalue, hflags]

theorem oneWord_key (wf : h.WellFormed data.length) : OneWord h.key := by
  refine ⟨wf.key, fun hcrlf => wf.oneLine (hcrlf.trans ?_)⟩
  unfold Header.line
  exact ⟨ascii h.word.text ++ [space], _, by simp; rfl⟩

theorem reply_of_session {last : NoData} {left : Option (Bool × Contents)}
    {before between after rs ss ts : List Bytes} {reply : Bytes}
    (wf : h.WellFormed data.length)
    (hsmall : (Message.storage h data).bytes.length + 100 < 1073741824)
    (hget : (getMessage h.key).bytes.length + 100 < 1073741824)
    (happend : h.word ≠ .append) (hprepend : h.word ≠ .prepend)
    (hbetween : ∀ input ∈ between, ¬ Writes input h.key)
    (hsession : Session last (before ++ (Message.storage h data).bytes ::
        (between ++ (getMessage h.key).bytes :: after)) c
      (rs ++ ascii "STORED\r\n" :: (ss ++ reply :: ts)) left)
    (hbefore : rs.length = before.length) (hss : ss.length = between.length) :
    reply = ascii "END\r\n" ∨
      reply = shownItem h data ++ ascii "END\r\n" := by
  obtain ⟨front, back, c', hinputs, hfront, -⟩ := hsession
  have hanswered : before ++ (Message.storage h data).bytes ::
      (between ++ [(getMessage h.key).bytes]) <+: front := by
    have hlength := hfront.length_eq
    have hwhole : before ++ (Message.storage h data).bytes ::
        (between ++ [(getMessage h.key).bytes]) <+: front ++ back :=
      ⟨after, by rw [← hinputs]; simp⟩
    refine List.prefix_of_prefix_length_le hwhole (List.prefix_append ..) ?_
    simp only [List.length_append, List.length_cons, List.length_nil]
      at hlength ⊢
    omega
  obtain ⟨tail, rfl⟩ := hanswered
  simp only [List.append_assoc, List.cons_append, List.nil_append] at hfront
  obtain ⟨first, rest, x, hsplit, hfirst, hrest⟩ := hfront.of_append
  obtain ⟨rfl, rfl⟩ := List.append_inj hsplit
    (hbefore.trans hfirst.length_eq.symm)
  obtain ⟨times, resp, y, hstore, hstored, hrest⟩ := hrest.of_cons
  have hholds := holdsOnly_of_stored wf hsmall happend hprepend hstore hstored
  obtain ⟨second, rest, z, hsplit, hsecond, hrest⟩ := hrest.of_append
  obtain ⟨rfl, rfl⟩ := List.append_inj hsplit
    (hss.trans hsecond.length_eq.symm)
  obtain ⟨times, resp, x', hlookup, rfl, -⟩ := hrest.of_cons
  exact shown_of_holdsOnly (oneWord_key wf) hget
    (hholds.of_kept (hsecond.kept hbetween)) hlookup

end Reading

def storeThenGet (before : List Message) (h : Header) (data : Bytes)
    (between after : List Message) : List Message :=
  before ++ .storage h data :: (between ++ getMessage h.key :: after)

/-- Where one of the requests is answered that it has stored a block and a later
one looks it up, the answer shows that block with its flags or nothing, unless a
request in between writes the key. -/
def ShowsOwnWrites (messages : List Message) (replies : List Bytes) : Prop :=
  ∀ before h data between after, messages =
      storeThenGet before h data between after →
    h.word ≠ .append → h.word ≠ .prepend →
    (∀ m ∈ between, ¬ Writes m.bytes h.key) →
    ∀ rs ss ts reply,
      replies = rs ++ ascii "STORED\r\n" :: (ss ++ reply :: ts) →
      rs.length = before.length → ss.length = between.length →
      reply = ascii "END\r\n" ∨
        reply = shownItem h data ++ ascii "END\r\n"

/-- Every request is answered as the map of keys says, so that a client finds
what it has stored or nothing. -/
theorem reads_own_write (env : Env) {clock : Nat → Times}
    (hclock : ∀ i j, i ≤ j → (clock i).flush ≤ (clock j).flush)
    {messages : List Message} (hwell : ∀ m ∈ messages, m.WellFormed)
    (hsmall : ∀ m ∈ messages, m.bytes.length + 100 < 1073741824)
    (hdistinct : ∀ m ∈ messages.dropLast, ¬ m.Blurred) {chunks : List Bytes}
    (hchunks : ∀ chunk ∈ chunks, chunk ≠ [] ∧ chunk.length ≤ 80)
    (hstream : chunks.flatten = (messages.map Message.bytes).flatten)
    (last : NoData) (s : Store) :
    ∃ fuel ending replies,
      sockHandleIncomingConn env clock fuel chunks last ⟨s, Locks.free⟩ =
        some ending ∧
      ending.sent = replies.flatten ∧
      Session last (messages.map Message.bytes) s.contents replies
        ending.outcome.left ∧
      ShowsOwnWrites messages replies := by
  obtain ⟨fuel, ending, replies, hrun, hsent, hsession⟩ :=
    exists_session env hclock hwell hsmall hdistinct hchunks hstream last s
  refine ⟨fuel, ending, replies, hrun, hsent, hsession, ?_⟩
  rintro before h data between after rfl happend hprepend hbetween rs ss ts
    reply rfl hbefore hss
  have hmem : Message.storage h data ∈
      storeThenGet before h data between after := by
    simp [storeThenGet]
  have hget : getMessage h.key ∈
      storeThenGet before h data between after := by
    simp [storeThenGet]
  have wf : h.WellFormed data.length := hwell _ hmem
  simp only [storeThenGet, List.map_append, List.map_cons] at hsession
  refine reply_of_session wf (hsmall _ hmem) (hsmall _ hget) happend hprepend
    (fun input hinput => ?_) hsession (by simpa using hbefore)
    (by simpa using hss)
  obtain ⟨m, hm, rfl⟩ := List.mem_map.mp hinput
  exact hbetween m hm

theorem touchLine_wellFormed :
    (Message.line (ascii "touch k 500")).WellFormed := by
  refine ⟨by decide, by decide, fun w hw => ?_⟩
  have htouch : Word.ofBytes (commandWord (ascii "touch k 500" ++ crlf)) =
      some .touch := by decide
  rw [htouch] at hw
  cases hw
  rfl

theorem not_writes_touch (key : Bytes) :
    ¬ Writes (Message.line (ascii "touch k 500")).bytes key := by
  rintro ⟨w, hw, hkey⟩
  have htouch : Word.ofBytes (commandWord (ascii "touch k 500" ++ crlf)) =
      some .touch := by decide
  rw [Message.bytes, htouch] at hw
  cases hw
  exact absurd hkey.1 (by decide)

/-- The key is touched between the two. -/
theorem reads_own_write_touch :
    let messages := storeThenGet [] (setHeader "5") (ascii "a\r\nbc")
      [.line (ascii "touch k 500")] []
    ∃ fuel ending replies,
      sockHandleIncomingConn Env.x86 (fun _ => .const 1000) fuel
          [ascii "set k 0 0 5\r\na\r", ascii "\nbc\r\ntouch k 5",
            ascii "00\r\nget k\r\n"] .wouldBlock State.init =
        some ending ∧
      ending.sent = replies.flatten ∧
      Session .wouldBlock (messages.map Message.bytes) Store.init.contents
        replies ending.outcome.left ∧
      ∀ touched reply, replies = [ascii "STORED\r\n", touched, reply] →
        reply = ascii "END\r\n" ∨
          reply = ascii "VALUE k 0 5\r\na\r\nbc\r\nEND\r\n" := by
  intro messages
  have hbetween : ∀ m ∈ [Message.line (ascii "touch k 500")],
      ¬ Writes m.bytes (setHeader "5").key := by
    intro m hm
    obtain rfl := List.mem_singleton.mp hm
    exact not_writes_touch _
  have hwell : ∀ m ∈ messages, m.WellFormed := by
    intro m hm
    simp only [messages, storeThenGet, List.nil_append, List.singleton_append,
      List.mem_cons, List.not_mem_nil, or_false] at hm
    rcases hm with rfl | rfl | rfl
    · exact setHeader_wellFormed (by decide) (by decide) (by decide)
    · exact touchLine_wellFormed
    · exact getLine_wellFormed
  have hdistinct : ∀ m ∈ messages.dropLast, ¬ m.Blurred := by
    intro m hm
    simp only [messages, storeThenGet, List.nil_append, List.singleton_append,
      List.dropLast_cons_cons, List.dropLast_singleton, List.mem_cons,
      List.not_mem_nil, or_false] at hm
    rcases hm with rfl | rfl
    · unfold Message.Blurred
      decide
    · exact id
  let clock : Nat → Times := fun _ => .const 1000
  have hclock : ∀ i j, i ≤ j → (clock i).flush ≤ (clock j).flush :=
    fun _ _ _ => le_rfl
  have hstream : [ascii "set k 0 0 5\r\na\r", ascii "\nbc\r\ntouch k 5",
      ascii "00\r\nget k\r\n"].flatten =
      (messages.map Message.bytes).flatten := by decide
  obtain ⟨fuel, ending, replies, hrun, hsent, hsession, hshows⟩ :=
    reads_own_write Env.x86 hclock hwell (by decide) hdistinct (by decide)
      hstream .wouldBlock Store.init
  refine ⟨fuel, ending, replies, hrun, hsent, hsession, ?_⟩
  intro touched reply hreplies
  exact hshows [] (setHeader "5") (ascii "a\r\nbc") _ [] rfl (by decide)
    (by decide) hbetween [] [touched] [] reply hreplies rfl rfl

end Memstashed.Ssock
