/-
  QwNet.Worker

  The worker thread of a connection, beside the network thread.

  `ReadPackets` takes packets out of the client packet queue as long as there are any that
  are due.  `Get_Message` asks for the length of the first, then for its bytes, copies
  them and frees it; each of the three holds the mutex by itself, and reads the clock by
  itself.  Then the frames are copied, and the message is parsed; what the parser calls
  of the NetQW it calls one after the other.

  The sockets that `ReadPackets` looks at first are not those of the NetQW.  main.c has no
  prototype of `NetQW_GetPacketData`, so what it returns is an `int` there; pointers are
  taken to be as wide as that.
-/
import QwNet.Channel.Thread
import QwNet.Channel.Unread
import QwNet.Parser.Session

namespace QwNet

/-! ## Messages -/

/-- `sizeof(qwc->net_message_buffer)`. -/
def netMessageSize : Nat := 2 * 1450

/-- `size` of `Get_Message`, cut to the buffer. -/
def messageSize (length : Nat) : Fin (netMessageSize + 1) :=
  ⟨min length netMessageSize, Nat.lt_succ_of_le (Nat.min_le_right _ _)⟩

/-- The message in the buffer, of `size` bytes. -/
def Message.inBuffer (buffer : Nat → Byte) (size : Fin (netMessageSize + 1)) : Message where
  data := buffer
  cursize := size
  cursize_lt := Nat.lt_of_lt_of_le size.isLt (by decide)

/-- The bytes of the message. -/
def Message.bytes (msg : Message) : List Byte := (List.range msg.cursize).map msg.data

/-- What `ReadPackets` has parsed: neither connectionless nor a runt. -/
def InBand (bytes : List Byte) : Prop :=
  8 ≤ bytes.length ∧ readLong (fun i => bytes.getD i 0) 0 ≠ -1#32

instance (bytes : List Byte) : Decidable (InBand bytes) := inferInstanceAs (Decidable (_ ∧ _))

/-- `*(int *) qwc->net_message_buffer`. -/
def Message.firstLong (msg : Message) : BitVec 32 := readLong msg.data 0

/-- `ConnectionlessPacket`, which only prints. -/
def connectionlessPacket (msg : Message) : Parser Unit := do
  RunM.modify QwConnection.beginReading
  let _ ← msgReadLong msg
  let _ ← msgReadByte msg
  pure ()

/-! ## Frames -/

namespace NetQW

/-- The frames that `NetQW_CopyFrames` copies, and where to. -/
def copying (q : NetQW) : List (Slot × RingFrame) :=
  (List.range q.framestocopy.toNat).map fun i =>
    let s := slot (q.lastcopiedframe + 1#32 + BitVec.ofNat 32 i)
    (s, q.frames s)

end NetQW

/-- `frames[slot].senttime` and `frames[slot].delta_sequence` are written. -/
def copyFrameTo (frames : Nat → Frame) (f : Slot × RingFrame) : Nat → Frame :=
  Function.update frames f.1.toNat { frames f.1.toNat with
    senttime := f.2.senttime
    deltaSequence := f.2.deltaSequence }

/-! ## The worker thread -/

/-- Where the worker thread is in `ReadPackets`. -/
inductive WorkerPc where
  /-- Before `NetQW_GetPacketLength`. -/
  | length
  /-- Before `NetQW_GetPacketData`. -/
  | data (size : Fin (netMessageSize + 1))
  /-- Before `NetQW_FreePacket`. -/
  | free (msg : Message)
  /-- Before `NetQW_GenerateFrames`. -/
  | generate (msg : Message)
  /-- Before `NetQW_CopyFrames`. -/
  | copy (msg : Message)
  /-- `Get_Message` has returned. -/
  | message (msg : Message)
  /-- In `ParseServerMessage`, which has left its loop if there is no message any more; before the
      calls that the last command makes. -/
  | parse (calls : List Action) (msg : Option Message)
  /-- `NULL` was followed. -/
  | crashed

/-- The network thread, and the worker thread with its connection.  `now` is the last reading of
    the clock; `taken` are the packets that were freed, `parsed` the messages that were parsed. -/
structure Worker where
  thread : Thread
  conn : QwConnection
  pc : WorkerPc
  buffer : Nat → Byte
  now : BitVec 64
  taken : List (List Byte)
  parsed : List (List Byte)

/-- A step of one of the threads. -/
inductive WorkerAction where
  -- the network thread, and other calls of the application
  | thread (a : ThreadAction)
  -- `Get_Message`
  | length (now : BitVec 64)
  | data (now : BitVec 64)
  | free
  | generate (curtime : BitVec 64) (senttime : Nat → BitVec 64) (fuel : Nat)
  | copy
  -- `ReadPackets`
  | message
  | pass (fuel : Nat)
  | call
  | done

/-- A call that only the worker thread makes. -/
def Action.ofWorker : Action → Bool
  | .generate .. | .copyFrames | .setDeltaPoint _ | .freePacket => true
  | _ => false

/-- A step that is not one of the worker thread. -/
def ThreadAction.ofOthers : ThreadAction → Bool
  | .application a => !a.ofWorker
  | _ => true

/-- What the parser calls of the NetQW; the length of a buffer is an `unsigned int`. -/
def Event.call? : Event → Option Action
  | .appendReliable buffer =>
    if h : buffer.length < 2 ^ 32 then some (.append ⟨buffer, h⟩) else none
  | .setDeltaPoint sequence => some (.setDeltaPoint sequence)
  | _ => none

/-- What was called of the NetQW from `q` to `q'`. -/
def QwConnection.calls (q q' : QwConnection) : List Action :=
  (q'.trace.drop q.trace.length).filterMap Event.call?

namespace NetQW

/-- `NetQW_GetPacketLength`. -/
def getPacketLength (now : BitVec 64) (q : NetQW) : Nat :=
  match q.clientQueue with
  | [] => 0
  | n :: _ => if (q.netpackets n).delayuntil ≤ now then (q.netpackets n).data.length else 0

/-- `NetQW_GetPacketData`. -/
def getPacketData (now : BitVec 64) (q : NetQW) : Option (List Byte) :=
  match q.clientQueue with
  | [] => none
  | n :: _ => if (q.netpackets n).delayuntil ≤ now then some (q.netpackets n).data else none

end NetQW

namespace Worker

def netqw (w : Worker) : NetQW := w.thread.client.netqw

/-- A call of the NetQW. -/
def call (angle16 : BitVec 32 → BitVec 16) (a : Action) (pc : WorkerPc) (w : Worker) :
    Option Worker :=
  (Thread.step angle16 (.application a) w.thread).map fun thread => { w with
    thread := thread
    pc := pc }

/-- `NetQW_GetPacketLength`; with no packet `ReadPackets` returns, to be called again. -/
def length (now : BitVec 64) (w : Worker) : Option Worker :=
  match w.pc with
  | .length =>
    let length := w.netqw.getPacketLength now
    some { w with
      pc := if length = 0 then .length else .data (messageSize length)
      now := now }
  | _ => none

/-- `NetQW_GetPacketData`, and the bytes are copied. -/
def data (now : BitVec 64) (w : Worker) : Option Worker :=
  match w.pc with
  | .data size =>
    match w.netqw.getPacketData now with
    | none => some { w with
        pc := .crashed
        now := now }
    | some data =>
      let buffer := fun i : Nat => if i < size.val then data.getD i 0 else w.buffer i
      some { w with
        buffer := buffer
        pc := .free (.inBuffer buffer size)
        now := now }
  | _ => none

/-- `NetQW_FreePacket`, which follows the head of the queue. -/
def free (angle16 : BitVec 32 → BitVec 16) (w : Worker) : Option Worker :=
  match w.pc with
  | .free msg =>
    match w.netqw.unread with
    | [] => some { w with pc := .crashed }
    | packet :: _ =>
      (w.call angle16 .freePacket (.generate msg)).map fun w => { w with
        taken := w.taken ++ [packet.2] }
  | _ => none

/-- `NetQW_GenerateFrames` in `DoNetQWStuff`. -/
def generate (angle16 : BitVec 32 → BitVec 16) (curtime : BitVec 64) (senttime : Nat → BitVec 64)
    (fuel : Nat) (w : Worker) : Option Worker :=
  match w.pc with
  | .generate msg => w.call angle16 (.generate curtime senttime fuel) (.copy msg)
  | _ => none

/-- `NetQW_CopyFrames` in `DoNetQWStuff`. -/
def copy (angle16 : BitVec 32 → BitVec 16) (w : Worker) : Option Worker :=
  match w.pc with
  | .copy msg =>
    let frames := w.netqw.copying.foldl copyFrameTo w.conn.frames
    let outgoing := w.netqw.currentOutgoingSequenceNumber + w.netqw.framestosend
    (w.call angle16 .copyFrames (.message msg)).map fun w => { w with
      conn := w.conn.copyFrames frames outgoing }
  | _ => none

/-- `ReadPackets` with the message that it has got, up to the command loop. -/
def message (w : Worker) : Option Worker :=
  match w.pc with
  | .message msg =>
    if msg.firstLong = -1#32 then
      some { w with
        conn := (connectionlessPacket msg w.conn).2
        pc := .length }
    -- "Runt packet"
    else if msg.cursize < 8 then some { w with pc := .length }
    else some { w with
        conn := ((readSequences msg) w.conn).2.entered
        pc := .parse [] (some msg)
        parsed := w.parsed ++ [msg.bytes] }
  | _ => none

/-- One pass of the command loop, without its calls. -/
def pass (env : Env) (fuel : Nat) (w : Worker) : Option Worker :=
  match w.pc with
  | .parse [] (some msg) =>
    match serverMessagePass msg env fuel w.conn with
    | (some r, q) => some { w with
        conn := q
        pc := .parse (w.conn.calls q) (if r = none then some msg else none) }
    | (none, _) => none
  | _ => none

/-- The next of the calls. -/
def nextCall (angle16 : BitVec 32 → BitVec 16) (w : Worker) : Option Worker :=
  match w.pc with
  | .parse (a :: calls) msg => w.call angle16 a (.parse calls msg)
  | _ => none

/-- `ParseServerMessage` returns. -/
def done (w : Worker) : Option Worker :=
  match w.pc with
  | .parse [] none => some { w with pc := .length }
  | _ => none

end Worker

/-- What a step reads from the clock. -/
def WorkerAction.reading? : WorkerAction → Option (BitVec 64)
  | .thread a => a.reading?
  | .length now | .data now => some now
  | _ => none

namespace Worker

/-- What an action does; `none` where it is not possible, or never returns. -/
def step (angle16 : BitVec 32 → BitVec 16) (env : Env) (a : WorkerAction) (w : Worker) :
    Option Worker :=
  match a with
  | .thread a =>
    if a.ofOthers then
      (Thread.step angle16 a w.thread).map fun thread => { w with
        thread := thread
        now := a.reading?.getD w.now }
    else none
  | .length now => w.length now
  | .data now => w.data now
  | .free => w.free angle16
  | .generate curtime senttime fuel => w.generate angle16 curtime senttime fuel
  | .copy => w.copy angle16
  | .message => w.message
  | .pass fuel => w.pass env fuel
  | .call => w.nextCall angle16
  | .done => w.done

/-- The network thread enters its loop, and the worker thread calls `ReadPackets`. -/
def system (angle16 : BitVec 32 → BitVec 16) (env : Env) : Transitions Worker WorkerAction where
  Init w := (Thread.system angle16).Init w.thread ∧ w.conn = .fresh ∧ w.pc = .length ∧
    w.buffer = (fun _ => 0) ∧ w.now = 0#64 ∧ w.taken = [] ∧ w.parsed = []
  step := step angle16 env

end Worker

/-- The clock that the threads share does not go back, and is not near its end. -/
def ClocksOk (a : WorkerAction) (w : Worker) : Prop :=
  ∀ t ∈ a.reading?, w.now ≤ t ∧ t.toNat < 2 ^ 63

instance (a : WorkerAction) (w : Worker) : Decidable (ClocksOk a w) :=
  Option.decidableForallMem a.reading?

/-! ## The message in the buffer -/

theorem inBand_bytes {msg : Message} (hlong : 8 ≤ msg.cursize) :
    InBand msg.bytes ↔ msg.firstLong ≠ -1#32 := by
  have hlength : msg.bytes.length = msg.cursize := by
    rw [Message.bytes, List.length_map, List.length_range]
  have hget : ∀ i < 8, msg.bytes.getD i 0 = msg.data i := by
    intro i hi
    rw [Message.bytes, List.getD_eq_getElem?_getD, List.getElem?_map,
      List.getElem?_range (Nat.lt_of_lt_of_le hi hlong)]
    rfl
  have hlongs : readLong (fun i => msg.bytes.getD i 0) 0 = msg.firstLong := by
    unfold Message.firstLong readLong
    dsimp only
    rw [hget _ (by decide), hget _ (by decide), hget _ (by decide), hget _ (by decide)]
  unfold InBand
  rw [hlongs, hlength, and_iff_right hlong]

/-- A packet that is not longer than the size asked for is copied whole. -/
theorem bytes_inBuffer (data : List Byte) (old : Nat → Byte) :
    (Message.inBuffer (fun i => if i < (messageSize data.length).val then data.getD i 0 else old i)
      (messageSize data.length)).bytes = data.take netMessageSize := by
  apply List.ext_getElem?
  intro i
  show ((List.range (min data.length netMessageSize)).map fun i =>
    if i < min data.length netMessageSize then data.getD i 0 else old i)[i]? = _
  rw [List.getElem?_map, List.getElem?_take]
  by_cases hi : i < min data.length netMessageSize
  · obtain ⟨hdata, hsize⟩ := Nat.lt_min.mp hi
    rw [List.getElem?_range hi, if_pos hsize, Option.map_some, if_pos hi,
      List.getD_eq_getElem?_getD, List.getElem?_eq_getElem hdata]
    rfl
  · rw [List.getElem?_eq_none (by rw [List.length_range]; exact Nat.not_lt.mp hi), Option.map_none]
    split
    next hsize =>
      have hdata : data.length ≤ i := Nat.not_lt.mp fun hdata => hi (Nat.lt_min.mpr ⟨hdata, hsize⟩)
      exact (List.getElem?_eq_none hdata).symm
    next => rfl

/-! ## The queue between the threads -/

namespace Worker

def line (w : Worker) : DelayLine (List Byte) := w.netqw.unreadLine w.now w.taken

/-- What was freed, and is about to be looked at. -/
def fetched (w : Worker) : List (List Byte) :=
  match w.pc with
  | .generate msg | .copy msg | .message msg => [msg.bytes]
  | _ => []

/-- The first packet is due and the one whose size was asked for; then its bytes are in the
    buffer. -/
def FetchPlace (w : Worker) : Prop :=
  match w.pc with
  | .data size => ∃ p ∈ w.netqw.unread.head?, p.1 ≤ w.now.toNat ∧ size = messageSize p.2.length
  | .free msg => ∃ p ∈ w.netqw.unread.head?, p.1 ≤ w.now.toNat ∧
      msg.bytes = p.2.take netMessageSize
  | .parse calls _ => ∀ a ∈ calls, a ≠ .freePacket
  | .crashed => False
  | _ => True

/-- The packets that were taken, in order, are those that were parsed, and the one in the buffer. -/
structure Reading (angle16 : BitVec 32 → BitVec 16) (w : Worker) : Prop where
  thread : (Thread.system angle16).Reaches ClockOk w.thread
  clock : w.thread.clock ≤ w.now
  now : w.now.toNat < 2 ^ 63
  inOrder : w.line.InOrder
  bounded : w.line.Bounded receiveBound
  long : ∀ p ∈ w.netqw.unread, 8 ≤ p.2.length
  place : w.FetchPlace
  parsed : w.parsed ++ w.fetched.filter (InBand ·)
    = (w.taken.map (·.take netMessageSize)).filter (InBand ·)

/-- From `w` to `w'` the worker thread took no packet, and time went on. -/
structure Follows (angle16 : BitVec 32 → BitVec 16) (w w' : Worker) : Prop where
  thread : (Thread.system angle16).Reaches ClockOk w'.thread
  clock : w'.thread.clock ≤ w'.now
  now : w.now ≤ w'.now ∧ w'.now.toNat < 2 ^ 63
  comes : Comes w'.now w.netqw w'.netqw
  taken : w'.taken = w.taken

variable {angle16 : BitVec 32 → BitVec 16} {env : Env} {w w' : Worker}

theorem Follows.steps (h : Follows angle16 w w') : DelayLine.Steps receiveBound w.line w'.line := by
  have htick : DelayLine.Step receiveBound w.line (w.netqw.unreadLine w'.now w.taken) :=
    .tick w'.now.toNat (BitVec.le_def.mp h.now.1)
  have hcomes := h.comes.steps w.taken
  unfold line
  rw [h.taken]
  exact .head htick hcomes

/-- Only the place and what was parsed remain to be looked at. -/
theorem Reading.follow (h : w.Reading angle16) (hfollows : Follows angle16 w w')
    (hplace : w'.FetchPlace) (hparsed : w'.parsed ++ w'.fetched.filter (InBand ·)
      = w.parsed ++ w.fetched.filter (InBand ·)) : w'.Reading angle16 where
  thread := hfollows.thread
  clock := hfollows.clock
  now := hfollows.now.2
  inOrder := by
    have hin : (w.netqw.unreadLine w'.now w.taken).InOrder := h.inOrder
    unfold line
    rw [hfollows.taken]
    exact hfollows.comes.inOrder hin
  bounded := h.bounded.steps hfollows.steps
  long := hfollows.comes.long h.long
  place := hplace
  parsed := by
    rw [hparsed, hfollows.taken]
    exact h.parsed

/-- The clock, after a step. -/
theorem now_spec {a : Option (BitVec 64)} {now : BitVec 64}
    (hok : ∀ t ∈ a, now ≤ t ∧ t.toNat < 2 ^ 63) (hnow : now.toNat < 2 ^ 63) :
    (now ≤ a.getD now ∧ (a.getD now).toNat < 2 ^ 63) ∧ ∀ t ∈ a, t = a.getD now := by
  cases a with
  | none => exact ⟨⟨BitVec.le_refl _, hnow⟩, fun t ht => absurd ht (Option.not_mem_none t)⟩
  | some t => exact ⟨hok t rfl, fun t' ht => (Option.some.inj ht).symm⟩

/-- A step of a thread that frees no packet. -/
theorem Reading.follows_thread (h : w.Reading angle16) {a : ThreadAction}
    (hok : ∀ t ∈ a.reading?, w.now ≤ t ∧ t.toNat < 2 ^ 63)
    (hfree : a ≠ .application .freePacket)
    (hstep : Thread.step angle16 a w.thread = some w'.thread)
    (hnow : w'.now = a.reading?.getD w.now) (htaken : w'.taken = w.taken) :
    Follows angle16 w w' := by
  obtain ⟨hlater, hread⟩ := now_spec hok h.now
  rw [← hnow] at hlater hread
  have hclocks : ClockOk a w.thread := fun t ht =>
    ⟨BitVec.le_trans h.clock (hok t ht).1, (hok t ht).2⟩
  obtain ⟨htimed, hplace⟩ := Thread.timed_of_reaches h.thread
  have hkept : w.thread.clock ≤ w'.now := BitVec.le_trans h.clock hlater.1
  refine ⟨.step h.thread hclocks hstep, ?_, hlater, ?_, htaken⟩
  · rcases Thread.step_client hstep with ⟨-, -, hclock⟩ | ⟨b, pc, hperforms, hact⟩
    · rcases hclock with heq | hmem
      · rw [heq]
        exact hkept
      · exact BitVec.le_of_eq (hread _ hmem)
    · obtain ⟨c, -, heq⟩ := Thread.act_spec hact
      rw [heq]
      show b.clockAfter w.thread.clock ≤ w'.now
      unfold Action.clockAfter
      cases hreading : b.reading? with
      | none => exact hkept
      | some t => exact BitVec.le_of_eq (hread t (hperforms.reading t hreading))
  · rcases Thread.step_client hstep with ⟨hclient, -, -⟩ | ⟨b, pc, hperforms, hact⟩
    · unfold netqw
      rw [hclient]
      exact .nothing rfl rfl
    · obtain ⟨c, hc, heq⟩ := Thread.act_spec hact
      have hclient : w'.thread.client = c := by rw [heq]
      unfold netqw
      rw [hclient]
      refine Client.step_comes htimed.reachable (hperforms.timely hclocks hplace) htimed.clock
        htimed.receives hc (fun hb => hfree (hperforms.frees hb)) fun t ht => ?_
      exact BitVec.le_of_eq (hread t (hperforms.reading t ht))

/-- A step of the worker thread by itself. -/
theorem Reading.follows_self (h : w.Reading angle16) (hthread : w'.thread = w.thread)
    (hnow : w.now ≤ w'.now ∧ w'.now.toNat < 2 ^ 63) (htaken : w'.taken = w.taken) :
    Follows angle16 w w' := by
  refine ⟨hthread ▸ h.thread, ?_, hnow, ?_, htaken⟩
  · rw [hthread]
    exact BitVec.le_trans h.clock hnow.1
  · unfold netqw
    rw [hthread]
    exact .nothing rfl rfl

/-- A call that frees no packet. -/
theorem Reading.follows_call (h : w.Reading angle16) {a : Action} {pc : WorkerPc} {w₁ : Worker}
    (hfree : a ≠ .freePacket) (hcall : w.call angle16 a pc = some w₁)
    (hthread : w'.thread = w₁.thread) (hnow : w'.now = w₁.now) (htaken : w'.taken = w₁.taken) :
    Follows angle16 w w' := by
  obtain ⟨thread, hstep, rfl⟩ := Option.map_eq_some_iff.mp hcall
  refine h.follows_thread (a := .application a) (fun t ht => absurd ht (Option.not_mem_none t))
    (fun heq => hfree (ThreadAction.application.inj heq)) ?_ hnow htaken
  rw [hthread]
  exact hstep

/-- The place is kept while packets come. -/
theorem FetchPlace.mono (h : w.FetchPlace) (hpc : w'.pc = w.pc) (hnow : w.now ≤ w'.now)
    (hcomes : Comes w'.now w.netqw w'.netqw) : w'.FetchPlace := by
  have hle := BitVec.le_def.mp hnow
  unfold FetchPlace at h ⊢
  rw [hpc]
  split at h
  · obtain ⟨p, hp, hdue, hsize⟩ := h
    exact ⟨p, hcomes.head hp, Nat.le_trans hdue hle, hsize⟩
  · obtain ⟨p, hp, hdue, hbytes⟩ := h
    exact ⟨p, hcomes.head hp, Nat.le_trans hdue hle, hbytes⟩
  · exact h
  · exact h
  · trivial

theorem getPacketLength_spec {now : BitVec 64} {q : NetQW} (h : q.getPacketLength now ≠ 0) :
    ∃ p ∈ q.unread.head?, p.1 ≤ now.toNat ∧ q.getPacketLength now = p.2.length := by
  unfold NetQW.getPacketLength at h ⊢
  unfold NetQW.unread
  split at h
  next => exact absurd rfl h
  next n rest hqueue =>
    split at h
    next hdue =>
      rw [hqueue]
      exact ⟨_, rfl, BitVec.le_def.mp hdue, if_pos hdue⟩
    next => exact absurd rfl h

theorem getPacketData_spec {now : BitVec 64} {q : NetQW} {p : Nat × List Byte}
    (hp : p ∈ q.unread.head?) (hdue : p.1 ≤ now.toNat) : q.getPacketData now = some p.2 := by
  unfold NetQW.unread at hp
  unfold NetQW.getPacketData
  split
  next hqueue =>
    rw [hqueue] at hp
    exact absurd hp (Option.not_mem_none p)
  next n rest hqueue =>
    rw [hqueue] at hp
    obtain rfl := Option.some.inj hp
    exact if_pos (BitVec.le_def.mpr hdue)

/-- What a step of the worker thread keeps up. -/
theorem Reading.length (h : w.Reading angle16) {now : BitVec 64} (hok : ClocksOk (.length now) w)
    (hstep : w.length now = some w') : Follows angle16 w w' ∧ w'.Reading angle16 := by
  unfold Worker.length at hstep
  split at hstep
  next hpc =>
    have hfetched : w.fetched = [] := by rw [fetched, hpc]
    dsimp only at hstep
    split at hstep
    next hzero =>
      obtain rfl := Option.some.inj hstep
      have hfollows : Follows angle16 w { w with
          pc := .length
          now := now } := h.follows_self rfl (hok now rfl) rfl
      exact ⟨hfollows, h.follow hfollows trivial (by rw [hfetched]; rfl)⟩
    next hlength =>
      obtain rfl := Option.some.inj hstep
      have hfollows : Follows angle16 w { w with
          pc := .data (messageSize (w.netqw.getPacketLength now))
          now := now } := h.follows_self rfl (hok now rfl) rfl
      obtain ⟨p, hp, hdue, heq⟩ := getPacketLength_spec hlength
      refine ⟨hfollows, h.follow hfollows ⟨p, hp, hdue, ?_⟩ (by rw [hfetched]; rfl)⟩
      rw [heq]
  next => exact absurd hstep (Option.some_ne_none _).symm

theorem Reading.data (h : w.Reading angle16) {now : BitVec 64} (hok : ClocksOk (.data now) w)
    (hstep : w.data now = some w') : Follows angle16 w w' ∧ w'.Reading angle16 := by
  unfold Worker.data at hstep
  split at hstep
  next size hpc =>
    have hplace := h.place
    rw [FetchPlace, hpc] at hplace
    obtain ⟨p, hp, hdue, rfl⟩ := hplace
    have hlater : p.1 ≤ now.toNat := Nat.le_trans hdue (BitVec.le_def.mp (hok now rfl).1)
    rw [getPacketData_spec hp hlater] at hstep
    have hfetched : w.fetched = [] := by rw [fetched, hpc]
    obtain rfl := Option.some.inj hstep
    have hfollows : Follows angle16 w { w with
        buffer := fun i => if i < (messageSize p.2.length).val then p.2.getD i 0 else w.buffer i
        pc := .free (.inBuffer (fun i =>
          if i < (messageSize p.2.length).val then p.2.getD i 0 else w.buffer i)
            (messageSize p.2.length))
        now := now } := h.follows_self rfl (hok now rfl) rfl
    exact ⟨hfollows, h.follow hfollows ⟨p, hp, hlater, bytes_inBuffer p.2 w.buffer⟩
      (by rw [hfetched]; rfl)⟩
  next => exact absurd hstep (Option.some_ne_none _).symm

/-- What `NetQW_FreePacket` does to the first packet. -/
structure Frees (angle16 : BitVec 32 → BitVec 16) (p : Nat × List Byte) (msg : Message)
    (w w' : Worker) : Prop where
  step : Thread.step angle16 (.application .freePacket) w.thread = some w'.thread
  clock : w'.thread.clock = w.thread.clock
  unread : w.netqw.unread = p :: w'.netqw.unread
  accepted : accepted w'.netqw.trace = accepted w.netqw.trace
  pc : w'.pc = .generate msg
  now : w'.now = w.now
  taken : w'.taken = w.taken ++ [p.2]
  parsed : w'.parsed = w.parsed

theorem frees_of_free {msg : Message} (hpc : w.pc = .free msg) {p : Nat × List Byte}
    (hp : p ∈ w.netqw.unread.head?) (hstep : w.free angle16 = some w') :
    Frees angle16 p msg w w' := by
  unfold Worker.free at hstep
  rw [hpc] at hstep
  dsimp only at hstep
  split at hstep
  next hnil =>
    rw [hnil] at hp
    exact absurd hp (Option.not_mem_none p)
  next packet rest hunread =>
    rw [hunread] at hp
    obtain rfl := Option.some.inj hp
    obtain ⟨w₁, hcall, rfl⟩ := Option.map_eq_some_iff.mp hstep
    obtain ⟨thread, hthread, rfl⟩ := Option.map_eq_some_iff.mp hcall
    have hact : w.thread.act angle16 .freePacket (fun _ => w.thread.pc) = some thread := hthread
    obtain ⟨c, hc, hthread'⟩ := Thread.act_spec hact
    obtain ⟨q, hq, rfl⟩ := Option.map_eq_some_iff.mp hc
    obtain ⟨due, data, hfirst, haccepted, -⟩ := unread_freePacket hq
    have hnetqw : thread.client.netqw = q := by rw [hthread']
    obtain ⟨rfl, -⟩ := List.cons.inj (hunread.symm.trans hfirst)
    refine ⟨hthread, by rw [hthread']; rfl, ?_, ?_, rfl, rfl, rfl, rfl⟩
    · unfold netqw
      rw [hnetqw]
      exact hfirst
    · unfold netqw
      rw [hnetqw]
      exact haccepted

/-- The packet that is freed leaves the queue. -/
theorem Reading.free (h : w.Reading angle16) (hstep : w.free angle16 = some w') :
    DelayLine.Step receiveBound w.line w'.line ∧ w'.Reading angle16 := by
  cases hpc : w.pc with
  | free msg =>
    have hplace := h.place
    rw [FetchPlace, hpc] at hplace
    obtain ⟨p, hp, hdue, hbytes⟩ := hplace
    have hfrees := frees_of_free hpc hp hstep
    have hpop : w'.line = w.line.pop p.2 w'.netqw.unread := by
      unfold line NetQW.unreadLine
      rw [hfrees.now, hfrees.taken, hfrees.accepted]
      rfl
    have hline : DelayLine.Step receiveBound w.line w'.line := by
      rw [hpop]
      exact .pop p.1 p.2 w'.netqw.unread hfrees.unread hdue
    refine ⟨hline, ?_⟩
    have hlong := h.long
    rw [hfrees.unread] at hlong
    have hfetched : w.fetched = [] := by rw [fetched, hpc]
    have hfetched' : w'.fetched = [msg.bytes] := by rw [fetched, hfrees.pc]
    have hparsed := h.parsed
    rw [hfetched, List.filter_nil, List.append_nil] at hparsed
    have hclocks : ClockOk (.application .freePacket) w.thread :=
      fun t ht => absurd ht (Option.not_mem_none t)
    refine ⟨.step h.thread hclocks hfrees.step, ?_, ?_,
      h.inOrder.step hline fun hmore => absurd ?_ hmore, h.bounded.step hline,
      (List.forall_mem_cons.mp hlong).2, ?_, ?_⟩
    · rw [hfrees.clock, hfrees.now]
      exact h.clock
    · rw [hfrees.now]
      exact h.now
    · rw [hpop]
      rfl
    · rw [FetchPlace, hfrees.pc]
      trivial
    · rw [hfetched', hfrees.parsed, hparsed, hfrees.taken, List.map_append, List.filter_append,
        hbytes]
      rfl
  | _ =>
    unfold Worker.free at hstep
    rw [hpc] at hstep
    exact absurd hstep (Option.some_ne_none _).symm

/-- `ReadPackets` parses a message that is in band, and no other. -/
theorem Reading.message (h : w.Reading angle16) (hstep : w.message = some w') :
    Follows angle16 w w' ∧ w'.Reading angle16 := by
  unfold Worker.message at hstep
  split at hstep
  next msg hpc =>
    have hfetched : w.fetched = [msg.bytes] := by rw [fetched, hpc]
    have hself : ∀ w' : Worker, w'.thread = w.thread → w'.now = w.now → w'.taken = w.taken →
        Follows angle16 w w' := fun w' hthread hnow htaken =>
      h.follows_self hthread (by rw [hnow]; exact ⟨BitVec.le_refl _, h.now⟩) htaken
    have hskip : ¬InBand msg.bytes → w'.thread = w.thread → w'.now = w.now → w'.taken = w.taken →
        w'.parsed = w.parsed → w'.pc = .length → Follows angle16 w w' ∧ w'.Reading angle16 := by
      intro hout hthread hnow htaken hparsed hpc'
      refine ⟨hself w' hthread hnow htaken, h.follow (hself w' hthread hnow htaken) ?_ ?_⟩
      · rw [FetchPlace, hpc']
        trivial
      · have hfetched' : w'.fetched = [] := by rw [fetched, hpc']
        rw [hfetched, hfetched', hparsed, List.filter_singleton, decide_eq_false hout]
        rfl
    split at hstep
    next hfirst =>
      obtain rfl := Option.some.inj hstep
      refine hskip (fun hin => ?_) rfl rfl rfl rfl rfl
      have hlong : 8 ≤ msg.cursize := by
        have hlength := hin.1
        rw [Message.bytes, List.length_map, List.length_range] at hlength
        exact hlength
      exact (inBand_bytes hlong).mp hin hfirst
    next hfirst =>
      split at hstep
      next hrunt =>
        obtain rfl := Option.some.inj hstep
        refine hskip (fun hin => ?_) rfl rfl rfl rfl rfl
        have hlength := hin.1
        rw [Message.bytes, List.length_map, List.length_range] at hlength
        exact absurd hrunt (Nat.not_lt.mpr hlength)
      next hlong =>
        obtain rfl := Option.some.inj hstep
        have hin := (inBand_bytes (Nat.not_lt.mp hlong)).mpr hfirst
        refine ⟨hself _ rfl rfl rfl, h.follow (hself _ rfl rfl rfl) ?_ ?_⟩
        · exact fun a ha => absurd ha List.not_mem_nil
        · rw [hfetched, List.filter_singleton, decide_eq_true hin]
          exact List.append_nil _
  next => exact absurd hstep (Option.some_ne_none _).symm

/-- The parser frees no packet. -/
theorem calls_ne_freePacket (q q' : QwConnection) : ∀ a ∈ q.calls q', a ≠ .freePacket := by
  intro a ha
  obtain ⟨e, -, he⟩ := List.mem_filterMap.mp ha
  rintro rfl
  unfold Event.call? at he
  split at he
  · split at he
    · exact Action.noConfusion (Option.some.inj he)
    · exact absurd he (Option.some_ne_none _).symm
  · exact Action.noConfusion (Option.some.inj he)
  · exact absurd he (Option.some_ne_none _).symm

/-- A step of the worker thread in `ParseServerMessage`. -/
theorem Reading.parse (h : w.Reading angle16) {calls : List Action} {msg : Option Message}
    (hpc : w.pc = .parse calls msg) (hfollows : Follows angle16 w w')
    (hparsed : w'.parsed = w.parsed)
    (hpc' : w'.pc = .length ∨
      ∃ calls msg, w'.pc = .parse calls msg ∧ ∀ a ∈ calls, a ≠ .freePacket) :
    w'.Reading angle16 := by
  have hfetched : w.fetched = [] := by rw [fetched, hpc]
  rcases hpc' with hpc' | ⟨calls, msg, hpc', hcalls⟩
  · have hfetched' : w'.fetched = [] := by rw [fetched, hpc']
    refine h.follow hfollows ?_ (by rw [hfetched, hfetched', hparsed])
    rw [FetchPlace, hpc']
    trivial
  · have hfetched' : w'.fetched = [] := by rw [fetched, hpc']
    refine h.follow hfollows ?_ (by rw [hfetched, hfetched', hparsed])
    rw [FetchPlace, hpc']
    exact hcalls

theorem Reading.pass (h : w.Reading angle16) {fuel : Nat} (hstep : w.pass env fuel = some w') :
    Follows angle16 w w' ∧ w'.Reading angle16 := by
  unfold Worker.pass at hstep
  split at hstep
  next msg hpc =>
    split at hstep
    next r q hpass =>
      obtain rfl := Option.some.inj hstep
      have hfollows : Follows angle16 w { w with
          conn := q
          pc := .parse (w.conn.calls q) (if r = none then some msg else none) } :=
        h.follows_self rfl ⟨BitVec.le_refl _, h.now⟩ rfl
      exact ⟨hfollows, h.parse hpc hfollows rfl (.inr ⟨_, _, rfl, calls_ne_freePacket _ _⟩)⟩
    next => exact absurd hstep (Option.some_ne_none _).symm
  next => exact absurd hstep (Option.some_ne_none _).symm

theorem Reading.nextCall (h : w.Reading angle16) (hstep : w.nextCall angle16 = some w') :
    Follows angle16 w w' ∧ w'.Reading angle16 := by
  unfold Worker.nextCall at hstep
  split at hstep
  next a calls msg hpc =>
    have hplace := h.place
    rw [FetchPlace, hpc] at hplace
    obtain ⟨hfree, hcalls⟩ := List.forall_mem_cons.mp hplace
    have hfollows : Follows angle16 w w' := h.follows_call hfree hstep rfl rfl rfl
    obtain ⟨thread, -, rfl⟩ := Option.map_eq_some_iff.mp hstep
    exact ⟨hfollows, h.parse hpc hfollows rfl (.inr ⟨_, _, rfl, hcalls⟩)⟩
  next => exact absurd hstep (Option.some_ne_none _).symm

theorem Reading.done (h : w.Reading angle16) (hstep : w.done = some w') :
    Follows angle16 w w' ∧ w'.Reading angle16 := by
  unfold Worker.done at hstep
  split at hstep
  next hpc =>
    obtain rfl := Option.some.inj hstep
    have hfollows : Follows angle16 w { w with pc := .length } :=
      h.follows_self rfl ⟨BitVec.le_refl _, h.now⟩ rfl
    exact ⟨hfollows, h.parse hpc hfollows rfl (.inl rfl)⟩
  next => exact absurd hstep (Option.some_ne_none _).symm

theorem Reading.generate (h : w.Reading angle16) {curtime : BitVec 64}
    {senttime : Nat → BitVec 64} {fuel : Nat}
    (hstep : w.generate angle16 curtime senttime fuel = some w') :
    Follows angle16 w w' ∧ w'.Reading angle16 := by
  unfold Worker.generate at hstep
  split at hstep
  next msg hpc =>
    have hfetched : w.fetched = [msg.bytes] := by rw [fetched, hpc]
    have hfollows : Follows angle16 w w' := h.follows_call Action.noConfusion hstep rfl rfl rfl
    obtain ⟨thread, -, rfl⟩ := Option.map_eq_some_iff.mp hstep
    exact ⟨hfollows, h.follow hfollows trivial (by rw [hfetched]; rfl)⟩
  next => exact absurd hstep (Option.some_ne_none _).symm

theorem Reading.copy (h : w.Reading angle16) (hstep : w.copy angle16 = some w') :
    Follows angle16 w w' ∧ w'.Reading angle16 := by
  unfold Worker.copy at hstep
  split at hstep
  next msg hpc =>
    have hfetched : w.fetched = [msg.bytes] := by rw [fetched, hpc]
    obtain ⟨w₁, hcall, heq⟩ := Option.map_eq_some_iff.mp hstep
    have hfollows : Follows angle16 w w' := by
      rw [← heq]
      exact h.follows_call Action.noConfusion hcall rfl rfl rfl
    obtain ⟨thread, -, rfl⟩ := Option.map_eq_some_iff.mp hcall
    subst heq
    exact ⟨hfollows, h.follow hfollows trivial (by rw [hfetched]; rfl)⟩
  next => exact absurd hstep (Option.some_ne_none _).symm

theorem Reading.others (h : w.Reading angle16) {a : ThreadAction}
    (hok : ClocksOk (.thread a) w) (hstep : step angle16 env (.thread a) w = some w') :
    Follows angle16 w w' ∧ w'.Reading angle16 := by
  obtain ⟨ha, hstep⟩ := Option.ite_none_right_eq_some.mp hstep
  obtain ⟨thread, hthread, rfl⟩ := Option.map_eq_some_iff.mp hstep
  have hfree : a ≠ .application .freePacket := by
    rintro rfl
    exact Bool.noConfusion ha
  have hfollows : Follows angle16 w { w with
      thread := thread
      now := a.reading?.getD w.now } := h.follows_thread hok hfree hthread rfl rfl
  exact ⟨hfollows, h.follow hfollows (h.place.mono rfl hfollows.now.1 hfollows.comes) rfl⟩

theorem Reading.step (h : w.Reading angle16) {a : WorkerAction} (hok : ClocksOk a w)
    (hstep : Worker.step angle16 env a w = some w') :
    DelayLine.Steps receiveBound w.line w'.line ∧ w'.Reading angle16 := by
  have hfollows : Follows angle16 w w' ∧ w'.Reading angle16 →
      DelayLine.Steps receiveBound w.line w'.line ∧ w'.Reading angle16 :=
    fun ⟨hfollows, hreading⟩ => ⟨hfollows.steps, hreading⟩
  cases a with
  | thread a => exact hfollows (h.others hok hstep)
  | length now => exact hfollows (h.length hok hstep)
  | data now => exact hfollows (h.data hok hstep)
  | free =>
    obtain ⟨hline, hreading⟩ := h.free hstep
    exact ⟨.single hline, hreading⟩
  | generate curtime senttime fuel => exact hfollows (h.generate hstep)
  | copy => exact hfollows (h.copy hstep)
  | message => exact hfollows (h.message hstep)
  | pass fuel => exact hfollows (h.pass hstep)
  | call => exact hfollows (h.nextCall hstep)
  | done => exact hfollows (h.done hstep)

theorem reading_of_reaches (h : (system angle16 env).Reaches ClocksOk w) : w.Reading angle16 := by
  have hinit : ∀ w, (system angle16 env).Init w → w.Reading angle16 := by
    rintro ⟨thread, conn, pc, buffer, now, taken, parsed⟩ ⟨hinit, rfl, rfl, rfl, rfl, rfl, rfl⟩
    have hreaches : (Thread.system angle16).Reaches ClockOk thread := .init hinit
    obtain ⟨client, pc, quit, clock, submitted⟩ := thread
    obtain ⟨⟨garbage, qport, userinfo, addr, rfl⟩, rfl, rfl, rfl⟩ := hinit
    exact ⟨hreaches, BitVec.le_refl _, Nat.two_pow_pos 63, rfl,
      fun p hp => absurd hp List.not_mem_nil, fun p hp => absurd hp List.not_mem_nil, trivial, rfl⟩
  exact h.invariant hinit fun a w w' hw hok hstep => (hw.step hok hstep).2

theorem steps_of_run {as : List WorkerAction} (h : (system angle16 env).Reaches ClocksOk w)
    (hrun : (system angle16 env).runOk ClocksOk as w = some w') :
    DelayLine.Steps receiveBound w.line w'.line := by
  induction as generalizing w with
  | nil =>
    obtain rfl := Option.some.inj hrun
    exact .refl
  | cons a as ih =>
    obtain ⟨hok, w₁, hstep, hrest⟩ := Transitions.runOk_cons.mp hrun
    exact ((reading_of_reaches h).step hok hstep).1.trans (ih (.step h hok hstep) hrest)

/-- With no packet that is due nothing is left that is due. -/
theorem drained_of_getPacketLength {q : NetQW} {now : BitVec 64} {taken : List (List Byte)}
    (hlong : ∀ p ∈ q.unread, 8 ≤ p.2.length) (h : q.getPacketLength now = 0) :
    (q.unreadLine now taken).Drained := by
  intro p hp
  have hp : p ∈ q.unread.head? := hp
  have hmem : 8 ≤ p.2.length := hlong p (List.mem_of_mem_head? hp)
  show now.toNat < p.1
  by_contra hdue
  unfold NetQW.unread at hp
  unfold NetQW.getPacketLength at h
  split at h
  next hqueue =>
    rw [hqueue] at hp
    exact Option.not_mem_none p hp
  next n rest hqueue =>
    rw [hqueue] at hp
    obtain rfl := Option.some.inj hp
    rw [if_pos (BitVec.le_def.mpr (Nat.not_lt.mp hdue))] at h
    dsimp only at hmem
    omega

/-- When `Get_Message` finds no packet, nothing is left that is due. -/
theorem Reading.drained_of_length (h : w.Reading angle16) {now : BitVec 64}
    (hstep : w.length now = some w') (hnone : w'.pc = .length) :
    w'.now = now ∧ w'.line.Drained := by
  unfold Worker.length at hstep
  split at hstep
  next hpc =>
    obtain rfl := Option.some.inj hstep
    refine ⟨rfl, drained_of_getPacketLength h.long ?_⟩
    by_contra hlength
    exact WorkerPc.noConfusion ((if_neg hlength).symm.trans hnone)
  next => exact absurd hstep (Option.some_ne_none _).symm

end Worker

/-! ## What is parsed -/

/-- Whatever the threads do in between, `Get_Message` never copies from `NULL`, and the messages
    that are parsed are the packets accepted, in their order and each of them once, but for those
    that look connectionless. -/
theorem messages_in_order (angle16 : BitVec 32 → BitVec 16) (env : Env) {w : Worker}
    (h : (Worker.system angle16 env).Reaches ClocksOk w) : w.pc ≠ .crashed ∧
    w.taken ++ w.netqw.unread.map Prod.snd = accepted w.netqw.trace ∧
    w.parsed <+: (w.taken.map (·.take netMessageSize)).filter (InBand ·) ∧
    (w.pc = .length → w.parsed = (w.taken.map (·.take netMessageSize)).filter (InBand ·)) := by
  have hreading := Worker.reading_of_reaches h
  refine ⟨fun hpc => ?_, hreading.inOrder, ?_, fun hpc => ?_⟩
  · have hplace := hreading.place
    rw [Worker.FetchPlace, hpc] at hplace
    exact hplace
  · rw [← hreading.parsed]
    exact List.prefix_append _ _
  · have hfetched : w.fetched = [] := by rw [Worker.fetched, hpc]
    rw [← hreading.parsed, hfetched, List.filter_nil, List.append_nil]

instance (pc : WorkerPc) : Decidable (pc = .length) :=
  match pc with
  | .length => isTrue rfl
  | .data _ | .free _ | .generate _ | .copy _ | .message _ | .parse .. | .crashed =>
    isFalse WorkerPc.noConfusion

namespace Worker

/-- A new connection. -/
def fresh : Worker := ⟨.fresh, .fresh, .length, fun _ => 0, 0#64, [], []⟩

/-- One iteration of the network thread. -/
def iterates (now : BitVec 64) (datagrams : List (List Byte)) (n : Nat) : List WorkerAction :=
  (Thread.waits now 0 ++ Thread.exchanges now datagrams n).map .thread

/-- Two packets of the server, the second with a `svc_nop` more. -/
def nopPackets : List (List Byte) := [[1, 0, 0, 0, 0, 0, 0, 0, 1], [2, 0, 0, 0, 0, 0, 0, 0, 1, 1]]

/-- The client is connected, and then has both packets with a lag of a tenth of a second. -/
def packetRun : List WorkerAction :=
  iterates 14000#64 [NetQW.challengeDatagram (ascii "1"), NetQW.connectionDatagram] 1 ++
    [.thread (.application (.setLag 100000#32))] ++
    iterates 20000#64 nopPackets 0

/-- It takes a packet with `n` times `svc_nop` and parses it. -/
def readRun (now : BitVec 64) (n : Nat) : List WorkerAction :=
  [.length now, .data now, .free, .generate now (fun _ => 0) 30, .copy, .message] ++
    List.replicate (n + 1) (.pass 2) ++ [.done]

/-- It takes the two packets. -/
def readTwo (now : BitVec 64) : List WorkerAction := readRun now 1 ++ readRun now 2

end Worker

/-- The two packets are parsed in their order. -/
theorem messages_in_order_nops : ∃ w,
    (Worker.system (fun _ => 0) ⟨fun _ => true, fun _ => true⟩).runOk ClocksOk
      (Worker.packetRun ++ Worker.readTwo 70000#64) .fresh = some w ∧
    w.parsed = Worker.nopPackets ∧ w.pc ≠ .crashed ∧
    w.taken ++ w.netqw.unread.map Prod.snd = accepted w.netqw.trace ∧
    w.parsed <+: (w.taken.map (·.take netMessageSize)).filter (InBand ·) ∧
    (w.pc = .length → w.parsed = (w.taken.map (·.take netMessageSize)).filter (InBand ·)) := by
  have heq : ((Worker.system (fun _ => 0) ⟨fun _ => true, fun _ => true⟩).runOk ClocksOk
      (Worker.packetRun ++ Worker.readTwo 70000#64) .fresh).map (fun w => w.parsed)
        = some Worker.nopPackets := by
    decide +kernel
  obtain ⟨w, hrun, hparsed⟩ := Option.map_eq_some_iff.mp heq
  have hinit : (Worker.system (fun _ => 0) ⟨fun _ => true, fun _ => true⟩).Init .fresh :=
    ⟨⟨⟨_, _, _, _, rfl⟩, rfl, rfl, rfl⟩, rfl, rfl, rfl, rfl, rfl, rfl⟩
  exact ⟨w, hrun, hparsed, messages_in_order _ _ (.runOk (.init hinit) hrun)⟩

/-- When `Get_Message` finds no packet, all that were accepted a quarter of a second before were
    parsed. -/
theorem read_within (angle16 : BitVec 32 → BitVec 16) (env : Env) {w w' : Worker}
    (h : (Worker.system angle16 env).Reaches ClocksOk w) {as : List WorkerAction} {now : BitVec 64}
    (hrun : (Worker.system angle16 env).runOk ClocksOk (as ++ [.length now]) w = some w')
    (hnone : w'.pc = .length) (hlate : w.now.toNat + receiveBound ≤ now.toNat) :
    ((accepted w.netqw.trace).map (·.take netMessageSize)).filter (InBand ·) <+: w'.parsed := by
  have hreading := Worker.reading_of_reaches h
  have hreading' := Worker.reading_of_reaches (h.runOk hrun)
  have hsteps := Worker.steps_of_run h hrun
  rw [Transitions.runOk_append] at hrun
  obtain ⟨w₁, hrun₁, hrun₂⟩ := Option.bind_eq_some_iff.mp hrun
  obtain ⟨-, w₂, hlength, hlast⟩ := Transitions.runOk_cons.mp hrun₂
  obtain rfl := Option.some.inj hlast
  obtain ⟨rfl, hdrained⟩ :=
    (Worker.reading_of_reaches (h.runOk hrun₁)).drained_of_length hlength hnone
  have htaken : accepted w.netqw.trace <+: w₂.taken :=
    DelayLine.submitted_prefix_of_drained hreading.inOrder hreading'.inOrder hreading.bounded
      hsteps hdrained hlate
  have hfetched : w₂.fetched = [] := by rw [Worker.fetched, hnone]
  have hparsed := hreading'.parsed
  rw [hfetched, List.filter_nil, List.append_nil] at hparsed
  rw [hparsed]
  exact (htaken.map _).filter _

/-- A quarter of a second after the two packets were accepted both have been parsed. -/
theorem read_within_nops : ∃ w w', (Worker.system (fun _ => 0)
    ⟨fun _ => true, fun _ => true⟩).runOk ClocksOk Worker.packetRun .fresh = some w ∧
    (Worker.system (fun _ => 0) ⟨fun _ => true, fun _ => true⟩).runOk ClocksOk
      (Worker.readTwo 280000#64 ++ [.length 290000#64]) w = some w' ∧
    accepted w.netqw.trace = Worker.nopPackets ∧ w.parsed = [] ∧
    ((accepted w.netqw.trace).map (·.take netMessageSize)).filter (InBand ·) <+: w'.parsed := by
  have heq : ((Worker.system (fun _ => 0) ⟨fun _ => true, fun _ => true⟩).runOk ClocksOk
      Worker.packetRun .fresh >>= fun w =>
      ((Worker.system (fun _ => 0) ⟨fun _ => true, fun _ => true⟩).runOk ClocksOk
        (Worker.readTwo 280000#64 ++ [.length 290000#64]) w).map fun w' =>
        (accepted w.netqw.trace, w.parsed, decide (w'.pc = .length),
          decide (w.now.toNat + receiveBound ≤ 290000)))
        = some (Worker.nopPackets, [], true, true) := by
    decide +kernel
  obtain ⟨w, hrun, hread⟩ := Option.bind_eq_some_iff.mp heq
  obtain ⟨w', hrun', hread⟩ := Option.map_eq_some_iff.mp hread
  simp only [Prod.mk.injEq] at hread
  obtain ⟨haccepted, hparsed, hnone, hlate⟩ := hread
  have hinit : (Worker.system (fun _ => 0) ⟨fun _ => true, fun _ => true⟩).Init .fresh :=
    ⟨⟨⟨_, _, _, _, rfl⟩, rfl, rfl, rfl⟩, rfl, rfl, rfl, rfl, rfl, rfl⟩
  exact ⟨w, w', hrun, hrun', haccepted, hparsed, read_within _ _ (.runOk (.init hinit) hrun) hrun'
    (of_decide_eq_true hnone) (of_decide_eq_true hlate)⟩

end QwNet
