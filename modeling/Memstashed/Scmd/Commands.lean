import Memstashed.Dblru.Sequential
import Memstashed.Foundation.Prog
import Memstashed.Scmd.Parsing

/-!
# The commands of `scmd.cpp`

A handler is a program over the functions of `dblru.cpp`.  It returns what the
source returns together with the output string: a positive number asks for that
many further bytes, a negative one closes the connection.
-/

namespace Memstashed.Scmd

open Memstashed.Foundation
open Memstashed.Dblru

abbrev Command (α : Type) := Prog Op Op.Answer Fault α

def Command.run {α : Type} (env : Env) (p : Command α) : Db α :=
  Prog.run (Op.exec env) p

namespace Command

/-! The calls a handler can make. -/

def insert (clock : Clock) (key flags casUniq value : Bytes) (expiry : Nat) :
    Command RetStatus :=
  Prog.call (Op.insert clock key flags casUniq value expiry) .done

def add (clock : Clock) (key flags casUniq value : Bytes) (expiry : Nat) :
    Command RetStatus :=
  Prog.call (Op.add clock key flags casUniq value expiry) .done

def get (now : Nat) (key : KeyType) : Command (Option Element) :=
  Prog.call (Op.get now key) .done

def delete (now : Nat) (key : KeyType) (expiry : Nat) : Command RetStatus :=
  Prog.call (Op.delete now key expiry) .done

def setFlushAll (now expiry : Nat) : Command Unit :=
  Prog.call (Op.setFlushAll now expiry) .done

def handleFlushAll (now : Nat) : Command Unit :=
  Prog.call (Op.handleFlushAll now) .done

end Command

/-- The clock readings of one command: by `dbHandleFlushAll`, by
`cmdProcessCommon`, by each `dbGetElement`, and by the call that writes. -/
structure Times where
  flush : Nat
  parse : Nat
  get : Nat → Nat
  write : Clock

def Times.const (now : Nat) : Times := ⟨now, now, fun _ => now, .const now⟩

structure Response where
  ret : Int
  output : Bytes
  deriving DecidableEq, Repr

def answer (noreply : Bool) (output : Bytes) : Response :=
  ⟨0, if noreply then [] else output⟩

def memoryFullText : Bytes :=
  ascii "SERVER_ERROR not enough memory to store even single element\r\n"

def parsed {α : Type} (request : Parse α) (act : α → Command Response) :
    Command Response :=
  match request with
  | .error (.reply output) => .done ⟨0, output⟩
  | .error (.exception e) => .fail (.exception e)
  | .ok fields => act fields

/-! ## Storage commands -/

def storage (request : Parse (Int × StorageStruct))
    (act : StorageStruct → Command Response) : Command Response :=
  parsed request fun (ret, store) =>
    if ret > 0 then .done ⟨ret, []⟩ else act store

def insertAndAnswer (times : Times) (key flags value : Bytes) (expiry : Nat)
    (noreply : Bool) (output : Bytes) : Command Response := do
  let ret ← Command.insert times.write key flags [] value expiry
  if ret = .memoryFull then return answer noreply memoryFullText
  else return answer noreply output

def cmdProcessSet (times : Times) (input : Bytes) : Command Response :=
  storage (cmdProcessCommon times.parse input false false) fun store =>
    insertAndAnswer times store.key store.flags store.data store.expTime
      store.noreply (ascii "STORED\r\n")

def cmdProcessAdd (times : Times) (input : Bytes) : Command Response :=
  storage (cmdProcessCommon times.parse input false false) fun store => do
    let ret ← Command.add times.write store.key store.flags store.casStr
      store.data store.expTime
    if ret = .memoryFull then return answer store.noreply memoryFullText
    else if ret = .exist then
      return answer store.noreply (ascii "NOT_STORED\r\n")
    else return answer store.noreply (ascii "STORED\r\n")

def cmdProcessReplace (times : Times) (input : Bytes) : Command Response :=
  storage (cmdProcessCommon times.parse input false false) fun store => do
    match ← Command.get (times.get 0) store.key with
    | none => return answer store.noreply (ascii "NOT_STORED\r\n")
    | some _ =>
        insertAndAnswer times store.key store.flags store.data store.expTime
          store.noreply (ascii "STORED\r\n")

/-- `append` and `prepend` first try the short form of the header. -/
def extendRequest (now : Nat) (input : Bytes) : Parse (Int × StorageStruct) :=
  match cmdProcessCommon now input false true with
  | .error (.reply _) => cmdProcessCommon now input false false
  | request => request

def cmdProcessExtend (join : Bytes → Bytes → Bytes) (times : Times)
    (input : Bytes) : Command Response :=
  storage (extendRequest times.parse input) fun store => do
    match ← Command.get (times.get 0) store.key with
    | none => return answer store.noreply (ascii "NOT_STORED\r\n")
    | some element =>
        insertAndAnswer times store.key element.flags
          (join element.value store.data) element.expiry store.noreply
          (ascii "STORED\r\n")

def cmdProcessAppend : Times → Bytes → Command Response :=
  cmdProcessExtend fun value data => value ++ data

def cmdProcessPrepend : Times → Bytes → Command Response :=
  cmdProcessExtend fun value data => data ++ value

def cmdProcessCas (times : Times) (input : Bytes) : Command Response :=
  storage (cmdProcessCommon times.parse input true false) fun store => do
    let ret ← Command.insert times.write store.key store.flags store.casStr
      store.data store.expTime
    if ret = .memoryFull then return answer store.noreply memoryFullText
    else if ret = .exist then
      return answer store.noreply (ascii "EXISTS\r\n")
    else if ret = .notExist then
      return answer store.noreply (ascii "NOT_FOUND\r\n")
    else return answer store.noreply (ascii "STORED\r\n")

/-! ## Reading -/

def valueItem (withCas : Bool) (key : Bytes) (element : Element) : Bytes :=
  ascii "VALUE " ++ key ++ ascii " " ++ element.flags ++ ascii " " ++
    toDecimal element.value.length ++
    (if withCas then ascii " " ++ element.cas else []) ++ crlf ++
    element.value ++ crlf

def getLoop (withCas : Bool) (clock : Nat → Nat) :
    List Bytes → Bytes → Command Bytes
  | [], output => return output
  | key :: keys, output => do
      match ← Command.get (clock 0) key with
      | none => getLoop withCas (fun i => clock (i + 1)) keys output
      | some element =>
          getLoop withCas (fun i => clock (i + 1)) keys
            (output ++ valueItem withCas key element)

def cmdProcessGetWith (withCas : Bool) (times : Times) (input : Bytes) :
    Command Response :=
  parsed (getKeys input) fun keys => do
    let output ← getLoop withCas times.get keys []
    return ⟨0, output ++ ascii "END\r\n"⟩

def cmdProcessGet : Times → Bytes → Command Response := cmdProcessGetWith false

def cmdProcessGets : Times → Bytes → Command Response := cmdProcessGetWith true

/-! ## The other commands -/

def cmdProcessDelete (times : Times) (input : Bytes) : Command Response :=
  parsed (deleteRequest input) fun (key, noreply) => do
    let ret ← Command.delete times.write.now key 0
    if ret = .notExist then return answer noreply (ascii "NOT_FOUND\r\n")
    else return answer noreply (ascii "DELETED\r\n")

/-- A conversion outside any `try` block. -/
def uncaughtStoul (text : Bytes) : Command Nat :=
  match stoul text with
  | .ok n => .done n
  | .error e => .fail (.exception e)

/-- `incr` and `decr`.  A zero is refused only when there is a reply to say so,
and taken as an ordinary argument otherwise. -/
def cmdProcessCounter (combine : Nat → Nat → Nat) (times : Times)
    (input : Bytes) : Command Response :=
  parsed (counterRequest input) fun (key, value, noreply) => do
    match ← Command.get (times.get 0) key with
    | none => return answer noreply (ascii "NOT_FOUND\r\n")
    | some element => do
        let inputValue ← uncaughtStoul value
        let oldValue ← uncaughtStoul element.value
        if inputValue = 0 ∧ noreply = false then
          return ⟨0, ascii "CLIENT_ERROR invalid format for value\r\n"⟩
        else do
          let storedValue := toDecimal (combine oldValue inputValue)
          insertAndAnswer times key element.flags storedValue element.expiry
            noreply (storedValue ++ crlf)

def cmdProcessIncr : Times → Bytes → Command Response :=
  cmdProcessCounter fun oldValue inputValue => toWord (inputValue + oldValue)

def cmdProcessDecr : Times → Bytes → Command Response :=
  cmdProcessCounter fun oldValue inputValue =>
    if oldValue ≤ inputValue then 0 else oldValue - inputValue

/-- The token that was read is handed to `dbInsertElement`, and an answer other
than `MEMORY_FULL` is not looked at. -/
def cmdProcessTouch (times : Times) (input : Bytes) : Command Response :=
  parsed (touchRequest input) fun (key, expTime, noreply) => do
    match ← Command.get (times.get 0) key with
    | none => return answer noreply (ascii "NOT_FOUND\r\n")
    | some element => do
        let ret ← Command.insert times.write key element.flags element.cas
          element.value expTime
        if ret = .memoryFull then return answer noreply memoryFullText
        else return answer noreply (ascii "TOUCHED\r\n")

def cmdProcessFlushAll (times : Times) (input : Bytes) : Command Response :=
  parsed (flushAllRequest input) fun (expTime, noreply) => do
    Command.setFlushAll times.write.now expTime
    return answer noreply (ascii "OK\r\n")

def cmdProcessVersion (input : Bytes) : Response :=
  if input.length > 9 then
    ⟨0, ascii "CLIENT_ERROR version does not accept options\r\n"⟩
  else ⟨0, ascii "VERSION 1.0\r\n"⟩

def cmdProcessVerbosity (input : Bytes) : Command Response :=
  parsed (verbosityRequest input) fun noreply =>
    return answer noreply (ascii "OK\r\n")

def cmdProcessQuit (input : Bytes) : Response :=
  if input.length > 6 then ⟨0, ascii "CLIENT_ERROR quit has no options\r\n"⟩
  else ⟨-1, []⟩

/-- Every line of the statistics is assigned over the one before it; the last
one stays. -/
def cmdProcessStats (input : Bytes) : Response :=
  if input.length > 7 then ⟨0, ascii "CLIENT_ERROR quit has no options\r\n"⟩
  else ⟨0, ascii "END\r\n"⟩

/-! ## Dispatch -/

inductive Word where
  | set | add | replace | append | prepend | cas | get | gets | delete | incr
  | decr | touch | stats | flushAll | version | verbosity | quit
  deriving DecidableEq, Repr

def Word.text : Word → String
  | .set => "set"
  | .add => "add"
  | .replace => "replace"
  | .append => "append"
  | .prepend => "prepend"
  | .cas => "cas"
  | .get => "get"
  | .gets => "gets"
  | .delete => "delete"
  | .incr => "incr"
  | .decr => "decr"
  | .touch => "touch"
  | .stats => "stats"
  | .flushAll => "flush_all"
  | .version => "version"
  | .verbosity => "verbosity"
  | .quit => "quit"

def Word.all : List Word :=
  [.set, .add, .replace, .append, .prepend, .cas, .get, .gets, .delete, .incr,
    .decr, .touch, .stats, .flushAll, .version, .verbosity, .quit]

def Word.ofBytes (command : Bytes) : Option Word :=
  Word.all.find? fun w => command = ascii w.text

def Word.process (times : Times) (input : Bytes) : Word → Command Response
  | .set => cmdProcessSet times input
  | .add => cmdProcessAdd times input
  | .replace => cmdProcessReplace times input
  | .append => cmdProcessAppend times input
  | .prepend => cmdProcessPrepend times input
  | .cas => cmdProcessCas times input
  | .get => cmdProcessGet times input
  | .gets => cmdProcessGets times input
  | .delete => cmdProcessDelete times input
  | .incr => cmdProcessIncr times input
  | .decr => cmdProcessDecr times input
  | .touch => cmdProcessTouch times input
  | .stats => .done (cmdProcessStats input)
  | .flushAll => cmdProcessFlushAll times input
  | .version => .done (cmdProcessVersion input)
  | .verbosity => cmdProcessVerbosity input
  | .quit => .done (cmdProcessQuit input)

/-- The command word: the text before the first space of the whole input, or
before the end of the line if there is no space. -/
def commandWord (input : Bytes) : Bytes :=
  let nextSpace := find input [space] 0
  input.take (if nextSpace = npos then find input crlf 0 else nextSpace)

def dispatch (times : Times) (input : Bytes) : Command Response :=
  match Word.ofBytes (commandWord input) with
  | some w => w.process times input
  | none => .done ⟨0, ascii "ERROR\r\n"⟩

def cmdProcessCommand (times : Times) (input : Bytes) : Command Response := do
  Command.handleFlushAll times.flush
  dispatch times input

/-! ## Calls from a state with free mutexes -/

section Calls

variable {α : Type} {env : Env} {s : Store}

theorem run_get (now : Nat) (key : KeyType)
    (k : Option Element → Command α) :
    Command.run env (Command.get now key >>= k) ⟨s, Locks.free⟩ =
      Command.run env (k (getStep now key s).1)
        ⟨(getStep now key s).2, Locks.free⟩ := by
  have hexec : Op.exec env (.get now key) ⟨s, Locks.free⟩ = _ :=
    dbGetElement_free now key s
  unfold Command.run Command.get
  simp only [Prog.call_bind, Prog.done_bind, Prog.run_call, hexec]

theorem run_insert {clock : Clock} {key flags casUniq value : Bytes}
    {expiry : Nat} {r : RetStatus} {t t' : State}
    (hinsert : dbInsertElement env clock key flags casUniq value expiry t =
      .ok (r, t')) (k : RetStatus → Command α) :
    Command.run env
        (Command.insert clock key flags casUniq value expiry >>= k) t =
      Command.run env (k r) t' := by
  have hexec : Op.exec env (.insert clock key flags casUniq value expiry) t =
    _ := hinsert
  unfold Command.run Command.insert
  simp only [Prog.call_bind, Prog.done_bind, Prog.run_call, hexec]

theorem run_handleFlushAll (now : Nat) (k : Unit → Command α) :
    Command.run env (Command.handleFlushAll now >>= k) ⟨s, Locks.free⟩ =
      Command.run env (k ()) ⟨handleFlush now s, Locks.free⟩ := rfl

end Calls

end Memstashed.Scmd
