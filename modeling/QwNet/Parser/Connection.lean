/-
  QwNet.Parser.Connection

  The part of `struct qw_connection` that parsing a server message touches, and
  the message it is parsed from.

  The state also keeps the trace of what a run did to the world outside it: which
  bytes of the message were dereferenced, which command bytes were switched on,
  which files and reliable buffers were touched.  The code never reads the trace.
-/
import QwNet.Machine
import QwNet.Lib.RunM

namespace QwNet

/-- The server message: `msg_message->data` and `msg_message->cursize`.  `data` also
    answers for the memory around the message; `cursize` is an `int`. -/
structure Message where
  data : Nat → Byte
  cursize : Nat
  cursize_lt : cursize < 2 ^ 31

/-- The message that consists of `bytes`. -/
def Message.ofBytes (bytes : List Byte) (h : bytes.length < 2 ^ 31) : Message where
  data i := bytes.getD i 0
  cursize := bytes.length
  cursize_lt := h

/-- The C string at `mem + i`, cut off after `limit` bytes. -/
def cstring (mem : Nat → Byte) : Nat → Nat → List Byte
  | 0, _ => []
  | limit + 1, i => if mem i = 0 then [] else mem i :: cstring mem limit (i + 1)

/-- A file that `fopen` returned, by the number of the call; `none` is `NULL`. -/
abbrev File := Option Nat

/-- What parsing does to the world outside the connection. -/
inductive Event where
  /-- `msg_message->data[index]` is read by a `MSG_Read` function. -/
  | deref (index : Nat)
  /-- `msg_message->data[index]` is printed. -/
  | peek (index : Nat)
  /-- The command byte `cmd`, read at `pos`, is switched on. -/
  | dispatch (pos : Nat) (cmd : Byte)
  /-- `end of network message` at `pos`. -/
  | endOfMessage (pos : Nat)
  /-- `qwc->abort = 1`. -/
  | abort
  | fopen (name : List Byte) (file : File)
  | fclose (file : File)
  /-- `fwrite(data + start, 1, count, file)`. -/
  | fwrite (start count : Nat) (file : File)
  /-- `NetQW_AppendReliableBuffer`. -/
  | appendReliable (buffer : List Byte)
  /-- `NetQW_SetDeltaPoint`. -/
  | setDeltaPoint (sequence : BitVec 32)
  /-- `s[index]` of the string that `ParsePrint` is given. -/
  | argument (index : Int)
  deriving DecidableEq, Repr

/-- The sequence numbers of `struct netchan_s` that parsing reads. -/
structure Netchan where
  incomingSequence : BitVec 32
  incomingAcknowledged : BitVec 32
  outgoingSequence : BitVec 32

/-- `packet_entities_t`, an entity standing for its number. -/
structure PacketEntities where
  numEntities : BitVec 32
  entities : Nat → BitVec 32

/-- `struct frame_s`.  The times are the bit patterns of doubles. -/
structure Frame where
  senttime : BitVec 64
  deltaSequence : BitVec 32
  receivedtime : BitVec 64
  packetEntities : PacketEntities
  invalid : Bool

/-- `struct qw_connection`. -/
structure QwConnection where
  /-- `buffer` and `buffer_position`: the console line that is being printed. -/
  buffer : OutBuf
  bufferPosition : BitVec 32
  netchan : Netchan
  frames : Nat → Frame
  msgBadread : Bool
  msgReadcount : BitVec 32
  clParsecount : BitVec 32
  clOldparsecount : BitVec 32
  oldparsecountmod : BitVec 32
  parsecountmod : BitVec 32
  abort : Bool
  saveConsoleOutput : Bool
  consoleOutput : List (List Byte)
  parsecounttime : BitVec 64
  realtime : BitVec 64
  readstringBuffer : Nat → Byte
  /-- The byte in front of `readstring_buffer`. -/
  beforeReadstring : Byte
  packetCount : BitVec 32
  downloadFile : File
  downloadFilePercentage : BitVec 32
  servercount : BitVec 32
  protoversion : BitVec 32
  validsequence : BitVec 32
  oldvalidsequence : BitVec 32
  /-- `static int lp` of `ParseDownload`. -/
  lp : BitVec 32
  /-- How often `fopen` and the allocator were called. -/
  fopens : Nat
  allocs : Nat
  trace : List Event

/-- The connection that `QWC_Create` allocates, all zero, at the beginning of a message. -/
def QwConnection.fresh : QwConnection where
  buffer := ⟨fun _ => 0, []⟩
  bufferPosition := 0
  netchan := ⟨0, 0, 0⟩
  frames _ := ⟨0, 0, 0, ⟨0, fun _ => 0⟩, false⟩
  msgBadread := false
  msgReadcount := 0
  clParsecount := 0
  clOldparsecount := 0
  oldparsecountmod := 0
  parsecountmod := 0
  abort := false
  saveConsoleOutput := false
  consoleOutput := []
  parsecounttime := 0
  realtime := 0
  readstringBuffer _ := 0
  beforeReadstring := 0
  packetCount := 0
  downloadFile := none
  downloadFilePercentage := 0
  servercount := 0
  protoversion := 0
  validsequence := 0
  oldvalidsequence := 0
  lp := -1
  fopens := 0
  allocs := 0
  trace := []

/-- The outcomes of the library calls that can fail, by the number of the call. -/
structure Env where
  fopen : Nat → Bool
  alloc : Nat → Bool

/-- Code run on the connection. -/
abbrev Parser (α : Type) := RunM QwConnection α

namespace QwConnection

/-- Append `es` to the trace. -/
def log (es : List Event) (q : QwConnection) : QwConnection := { q with trace := q.trace ++ es }

@[simp] theorem log_trace (es : List Event) (q : QwConnection) :
    (q.log es).trace = q.trace ++ es := rfl

@[simp] theorem log_msgReadcount (es : List Event) (q : QwConnection) :
    (q.log es).msgReadcount = q.msgReadcount := rfl

@[simp] theorem log_msgBadread (es : List Event) (q : QwConnection) :
    (q.log es).msgBadread = q.msgBadread := rfl

@[simp] theorem log_protoversion (es : List Event) (q : QwConnection) :
    (q.log es).protoversion = q.protoversion := rfl

@[simp] theorem log_abort (es : List Event) (q : QwConnection) :
    (q.log es).abort = q.abort := rfl

/-- `qwc->frames[i]` is changed by `f`. -/
def setFrame (i : BitVec 32) (f : Frame → Frame) (q : QwConnection) : QwConnection :=
  { q with frames := Function.update q.frames i.toNat (f (q.frames i.toNat)) }

end QwConnection

/-- `qwc->abort = 1`. -/
def setAbort : Parser Unit := RunM.modify fun q => { q with abort := true }.log [.abort]

/-- `if (i < sizeof(buf)) NetQW_AppendReliableBuffer(qwc->netqw, buf, i + 1)`, where `text`
    is what `snprintf` had to print into the 128 bytes of `buf`. -/
def QwConnection.append (text : List Byte) (q : QwConnection) : QwConnection :=
  if text.length < 128 then q.log [.appendReliable (text ++ [0])] else q

/-- The text of a command is printed and appended. -/
def appendText (text : QwConnection → List Byte) : Parser Unit :=
  RunM.modify fun q => q.append (text q)

end QwNet
