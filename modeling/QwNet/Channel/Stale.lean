/-
  QwNet.Channel.Stale

  Stale and duplicate packets, and the lag.

  A packet is fresh if its sequence number is above that of the last packet handled,
  and it is accepted before it is handled.  While packets wait for the lag to pass, a
  copy of one of them is still fresh.
-/
import QwNet.Channel.Connect
import QwNet.Channel.Effects
import QwNet.Lib.LagQueue

namespace QwNet

/-! ## Packets accepted and handled -/

/-- The sequence number of a packet. -/
def sequenceOf (data : List Byte) : BitVec 32 := number31 (fun i => data.getD i 0) 0

/-- The packet carries the reliable flag. -/
def isReliable (data : List Byte) : Bool := topBit (fun i => data.getD i 0) 3

@[simp] def NetEvent.accepted? : NetEvent → Option (List Byte)
  | .accept data => some data
  | _ => none

@[simp] def NetEvent.handled? : NetEvent → Option (List Byte)
  | .handle data => some data
  | _ => none

/-- The packets appended to the client packet queue, oldest first. -/
def accepted (trace : List NetEvent) : List (List Byte) := trace.filterMap NetEvent.accepted?

/-- The packets passed to `NetQW_Thread_HandleReceivedPacket`, oldest first. -/
def handled (trace : List NetEvent) : List (List Byte) := trace.filterMap NetEvent.handled?

/-- The bit that counts the reliable packets. -/
def reliableParity (packets : List (List Byte)) : BitVec 32 :=
  BitVec.ofNat 32 (packets.countP isReliable % 2)

/-- The freshness check and its queue. -/
def NetQW.lagQueue (q : NetQW) : LagQueue (List Byte) where
  last := q.lastIncomingSequenceNumber.toNat
  waiting := q.internalQueue.map fun n => (q.netpackets n).data
  accepted := accepted q.trace
  handled := handled q.trace

/-- The key of a packet. -/
def packetKey (data : List Byte) : Nat := (sequenceOf data).toNat

/-! ## What moves the queue -/

/-- What the queue is made of. -/
structure InboxView where
  last : BitVec 32
  xor : BitVec 32
  queue : List Nat
  data : Nat → List Byte
  count : Nat

def NetQW.inboxView (q : NetQW) : InboxView where
  last := q.lastIncomingSequenceNumber
  xor := q.outgoingReliableXor
  queue := q.internalQueue
  data := fun n => (q.netpackets n).data
  count := q.netpacketCount

/-- The packet is neither accepted nor handled by the event. -/
def NetEvent.offInbox (e : NetEvent) : Prop := e.accepted? = none ∧ e.handled? = none

/-- From `q` to `q'` no packet was accepted or handled. -/
abbrev InboxSilent (q q' : NetQW) : Prop := Keeps NetQW.inboxView NetEvent.offInbox q q'

namespace InboxSilent

variable {q q' : NetQW} (h : InboxSilent q q')
include h

theorem accepted_eq : accepted q'.trace = accepted q.trace := h.filterMap fun _ he => he.1

theorem handled_eq : handled q'.trace = handled q.trace := h.filterMap fun _ he => he.2

theorem lagQueue_eq : q'.lagQueue = q.lagQueue := by
  have hlast := congrArg InboxView.last h.view
  have hqueue := congrArg InboxView.queue h.view
  have hdata := congrArg InboxView.data h.view
  have hwaiting : q'.lagQueue.waiting = q.lagQueue.waiting := by
    show q'.internalQueue.map q'.inboxView.data = q.internalQueue.map q.inboxView.data
    rw [hdata]
    exact congrArg _ hqueue
  calc q'.lagQueue
      = ⟨q'.inboxView.last.toNat, q'.lagQueue.waiting, accepted q'.trace, handled q'.trace⟩ := rfl
    _ = ⟨q.inboxView.last.toNat, q.lagQueue.waiting, accepted q.trace, handled q.trace⟩ := by
      rw [hlast, hwaiting, h.accepted_eq, h.handled_eq]
    _ = q.lagQueue := rfl

end InboxSilent

/-- The invariants of the queue that hold in every run: packets waiting were received, and
    the reliable bit counts the packets handled. -/
structure InboxSound (q : NetQW) : Prop where
  lt_count : ∀ n ∈ q.internalQueue, n < q.netpacketCount
  xor : q.outgoingReliableXor = reliableParity (handled q.trace)

theorem InboxSound.congr {q q' : NetQW} (h : InboxSound q) (hs : InboxSilent q q') :
    InboxSound q' := by
  have hqueue : q'.internalQueue = q.internalQueue := congrArg InboxView.queue hs.view
  have hcount : q'.netpacketCount = q.netpacketCount := congrArg InboxView.count hs.view
  have hxor : q'.outgoingReliableXor = q.outgoingReliableXor := congrArg InboxView.xor hs.view
  constructor
  · rw [hqueue, hcount]
    exact h.lt_count
  · rw [hxor, hs.handled_eq]
    exact h.xor

/-! ## Handling a packet -/

section

variable (q : NetQW) (data : List Byte)

/-- What handling a packet does to the queue comes first. -/
theorem inboxSilent_handleReceivedPacket :
    InboxSilent ((q.log [.handle data]).noteSequence fun i => data.getD i 0)
      (q.handleReceivedPacket data) := by
  have hloss : ∀ (q : NetQW) n, InboxSilent q (q.notePacketloss n) :=
    fun q n => keeps_notePacketloss q (fun _ _ => rfl) (fun _ _ => rfl) n
  have hsettle : ∀ (q : NetQW) n bit, InboxSilent q (q.settleReliables n bit) := fun q n bit =>
    keeps_settleReliables q (fun _ _ => rfl) (fun _ => ⟨rfl, rfl⟩) (by exact ⟨rfl, rfl⟩)
      (fun _ => rfl) (fun _ _ => rfl) n bit
  exact (hloss _ _).trans (hsettle _ _ _)

theorem lagQueue_handleReceivedPacket :
    (q.handleReceivedPacket data).lagQueue = q.lagQueue.handle packetKey data := by
  rw [(inboxSilent_handleReceivedPacket q data).lagQueue_eq]
  have haccepted : accepted (q.trace ++ [.handle data]) = accepted q.trace := by
    simp [accepted]
  have hhandled : handled (q.trace ++ [.handle data]) = handled q.trace ++ [data] := by
    simp [handled]
  calc ((q.log [.handle data]).noteSequence fun i => data.getD i 0).lagQueue
      = ⟨packetKey data, q.lagQueue.waiting, accepted (q.trace ++ [.handle data]),
          handled (q.trace ++ [.handle data])⟩ := rfl
    _ = q.lagQueue.handle packetKey data := by
      rw [haccepted, hhandled]
      rfl

theorem reliableParity_concat (packets : List (List Byte)) :
    reliableParity (packets ++ [data]) = if isReliable data then reliableParity packets ^^^ 1#32
      else reliableParity packets := by
  rw [reliableParity, reliableParity, List.countP_append, List.countP_singleton]
  split
  · rcases Nat.mod_two_eq_zero_or_one (packets.countP isReliable) with hmod | hmod
    · rw [Nat.add_mod, hmod]
      decide
    · rw [Nat.add_mod, hmod]
      decide
  · rw [Nat.add_zero]

theorem InboxSound.handleReceivedPacket {q : NetQW} (h : InboxSound q) :
    InboxSound (q.handleReceivedPacket data) := by
  apply InboxSound.congr _ (inboxSilent_handleReceivedPacket q data)
  refine ⟨h.lt_count, ?_⟩
  have hhandled : handled (q.trace ++ [.handle data]) = handled q.trace ++ [data] := by
    simp [handled]
  show (if isReliable data then q.outgoingReliableXor ^^^ 1#32 else q.outgoingReliableXor)
    = reliableParity (handled (q.trace ++ [.handle data]))
  rw [hhandled, reliableParity_concat, h.xor]

end

section

/-- Packets may be written to as long as their contents stay. -/
theorem inboxView_setNetpackets (q : NetQW) (packets : Nat → NetPacket)
    (h : ∀ n, (packets n).data = (q.netpackets n).data) :
    (q.setNetpackets packets).inboxView = q.inboxView := by
  have hdata : (fun n => (packets n).data) = fun n => (q.netpackets n).data := funext h
  show (⟨_, _, _, fun n => (packets n).data, _⟩ : InboxView) = _
  rw [hdata]
  rfl

theorem inboxSilent_release (q : NetQW) (n : Nat) : InboxSilent q (q.release n) :=
  keeps_release q inboxView_setNetpackets (fun _ _ => rfl) (fun _ => ⟨rfl, rfl⟩) n

theorem inboxSilent_freePacket {q q' : NetQW} (h : q.freePacket = some q') : InboxSilent q q' :=
  keeps_freePacket q inboxView_setNetpackets (fun _ _ => rfl) (fun _ => ⟨rfl, rfl⟩)
    (fun _ _ => rfl) h

end

/-! ## Accepting a packet -/

/-- The packet that `NetQW_Thread_DoReceive` makes of a datagram and accepts, if any. -/
def NetQW.accepts? (env : NetQW.SendEnv) (source : NetAddr) (datagram : List Byte) (q : NetQW) :
    Option (List Byte) :=
  let r := q.receiveBuf env.stack datagram
  if (0 < r.1 ∧ source = q.addr) ∧ q.state ≠ .sendchallenge ∧ q.state ≠ .sendconnection ∧
      q.Acceptable r.1 r.2 ∧ env.alloc = true then
    some ((List.range r.1).map r.2)
  else none

section

variable {env : NetQW.SendEnv} {source : NetAddr} {datagram data : List Byte} {q : NetQW}

theorem sequenceOf_map_range {r : Nat} {buf : Nat → Byte} (hr : 8 ≤ r) :
    sequenceOf ((List.range r).map buf) = number31 buf 0 := by
  have hget : ∀ i < 8, ((List.range r).map buf).getD i 0 = buf i := by
    intro i hi
    rw [List.getD_eq_getElem?_getD, List.getElem?_map, List.getElem?_range (by omega)]
    rfl
  simp only [sequenceOf, number31, hget 0 (by decide), hget 1 (by decide), hget 2 (by decide),
    hget 3 (by decide), Nat.zero_add]

/-- An accepted packet is fresh, and is handled now or later. -/
theorem receive_of_accepts (h : q.accepts? env source datagram = some data) :
    q.lastIncomingSequenceNumber < sequenceOf data ∧
      q.receive env source datagram = ((if q.delayUntil env.now = 0#64 then q.handleNow data
        else q.handleLater (q.delayUntil env.now) data).queueForClient data) := by
  unfold NetQW.accepts? at h
  dsimp only at h
  split at h
  · rename_i hconds
    obtain ⟨hsource, hchallenge, hconnection, haccept, halloc⟩ := hconds
    obtain rfl := Option.some.inj h
    refine ⟨?_, ?_⟩
    · rw [sequenceOf_map_range haccept.1]
      exact haccept.2.1
    · unfold NetQW.receive
      dsimp only
      rw [if_pos hsource]
      split
      · exact absurd ‹_› hchallenge
      · exact absurd ‹_› hconnection
      · exact if_pos ⟨haccept, halloc⟩
  · exact nomatch h

/-- A datagram that is not accepted is ignored, or it is part of the handshake: it may connect the
    client, which then asks for `new` if it has the memory. -/
theorem receive_of_refused (h : q.accepts? env source datagram = none) :
    q.receive env source datagram = q ∨
    (∃ r buf, q.receive env source datagram = q.receiveChallenge r buf) ∨
    q.receive env source datagram = q.enterConnected env.now ∨
    q.receive env source datagram
      = (q.appendReliableBuffer NetQW.newCommand).enterConnected env.now := by
  unfold NetQW.receive
  dsimp only
  split
  · rename_i hsource
    split
    · exact .inr (.inl ⟨_, _, rfl⟩)
    · unfold NetQW.receiveConnection
      split
      · split
        · exact .inr (.inr (.inr rfl))
        · exact .inr (.inr (.inl rfl))
      · exact .inl rfl
    · -- a connected client: the packet would have been accepted
      rename_i hchallenge hconnection
      left
      unfold NetQW.receivePacket
      rw [if_neg]
      rintro ⟨haccept, halloc⟩
      unfold NetQW.accepts? at h
      dsimp only at h
      rw [if_pos ⟨hsource, hchallenge, hconnection, haccept, halloc⟩] at h
      exact absurd h (by simp)
  · exact .inl rfl

end

/-! ## What a step can do to the queue -/

/-- The view reads nothing but the packets and their queues, and maybe of the frames and the
    settings, and `P` allows the other events. -/
structure ReadsOnlyPackets {τ : Type} (V : NetQW → τ) (P : NetEvent → Prop) : Prop where
  sending : ReadsNoSending V P
  connection : ∀ (q : NetQW) challenge ht crc state resend last counter, V { q with
    challenge := challenge, huffcontext := ht, huffcrc := crc, state := state,
    resendtime := resend, lastmovesendtime := last, movetimecounter := counter } = V q
  reliables : ∀ (q : NetQW) queue sent number xor replies current last send, V { q with
    reliableQueue := queue, reliableBuffersSent := sent, reliableSequenceNumber := number,
    incomingReliableXor := xor, replyreceived := replies,
    currentOutgoingSequenceNumber := current, lastsentframe := last, framestosend := send } = V q
  allowed : ∀ e : NetEvent, e.ofPackets = false → e.handled? = none → P e

namespace ReadsOnlyPackets

variable {τ : Type} {V : NetQW → τ} {P : NetEvent → Prop} (hV : ReadsOnlyPackets V P)
include hV

theorem append (q : NetQW) (b : ReliableBuffer) : Keeps V P q (q.appendReliableBuffer b) :=
  ⟨(hV.sending.log _ _).trans (hV.reliables q _ _ _ _ _ _ _ _), [.append b], rfl,
    List.forall_mem_singleton.mpr (hV.allowed _ rfl rfl)⟩

/-- A datagram that is not accepted changes nothing about the queue. -/
theorem receive {env : NetQW.SendEnv} {source : NetAddr} {datagram : List Byte} {q : NetQW}
    (h : q.accepts? env source datagram = none) : Keeps V P q (q.receive env source datagram) := by
  have henter : ∀ q : NetQW, Keeps V P q (q.enterConnected env.now) := fun q =>
    keeps_enterConnected q (fun q _ _ _ => hV.connection q _ _ _ _ _ _ _) env.now
  rcases receive_of_refused h with heq | ⟨r, buf, heq⟩ | heq | heq
  · rw [heq]
    exact .refl q
  · rw [heq]
    exact keeps_receiveChallenge q (fun q _ _ _ _ _ => hV.connection q _ _ _ _ _ _ _) r buf
  · rw [heq]
    exact henter q
  · rw [heq]
    exact (hV.append q _).trans (henter _)

end ReadsOnlyPackets

theorem readsNoFrames_inboxView : ReadsNoFrames NetQW.inboxView NetEvent.offInbox := by
  refine ⟨fun _ _ => rfl, fun _ _ _ _ _ _ _ _ _ _ _ _ _ _ => rfl, fun e he => ?_⟩
  cases e
  case accept => exact absurd he (by simp [NetEvent.ofFrames])
  case handle => exact absurd he (by simp [NetEvent.ofFrames])
  all_goals exact ⟨rfl, rfl⟩

theorem readsOnlyPackets_inboxView : ReadsOnlyPackets NetQW.inboxView NetEvent.offInbox := by
  have hallowed : ∀ e : NetEvent, e.ofPackets = false → e.handled? = none → e.offInbox := by
    intro e he hhandled
    cases e
    case accept => exact nomatch he
    case handle => exact nomatch hhandled
    all_goals exact ⟨rfl, rfl⟩
  exact ⟨⟨fun _ _ => rfl, fun _ _ _ _ => rfl, fun _ => ⟨rfl, rfl⟩⟩,
    fun _ _ _ _ _ _ _ _ => rfl, fun _ _ _ _ _ _ _ _ _ => rfl, hallowed⟩

namespace Client

variable {c c' : Client}

/-- A step accepts a packet, or handles one that waited, or writes to the packets, or leaves alone
    what `V` looks at. -/
theorem step_packets {τ : Type} {V : NetQW → τ} {P : NetEvent → Prop} (hV : ReadsOnlyPackets V P)
    {angle16 : BitVec 32 → BitVec 16} {a : Action}
    (hframes : a.ofFrames = true → Keeps V P c.netqw c'.netqw) (h : step angle16 a c = some c') :
    Keeps V P c.netqw c'.netqw ∨
    (∃ env source datagram data, a = .receive env source datagram ∧
      c.netqw.accepts? env source datagram = some data ∧
      c'.netqw = c.netqw.acceptPacket env.now data) ∨
    (∃ curtime, a = .handleDelayed curtime ∧ c.netqw.handleDelayed curtime = some c'.netqw) ∨
    (∃ curtime, a = .clampDelays curtime ∧ c'.netqw = c.netqw.clampDelays curtime) ∨
    (a = .freePacket ∧ c.netqw.freePacket = some c'.netqw) := by
  cases a
  case receive env source datagram =>
    obtain ⟨-, rfl⟩ := outside_total (f := NetQW.receive env source datagram) h
    cases haccepts : c.netqw.accepts? env source datagram with
    | none => exact .inl (hV.receive haccepts)
    | some data =>
      exact .inr (.inl ⟨env, source, datagram, data, rfl, haccepts, (receive_of_accepts haccepts).2⟩)
  case handleDelayed curtime =>
    obtain ⟨-, q', hq', rfl⟩ := outside_spec h
    exact .inr (.inr (.inl ⟨curtime, rfl, hq'⟩))
  case clampDelays curtime =>
    obtain ⟨-, rfl⟩ := outside_total (f := NetQW.clampDelays curtime) h
    exact .inr (.inr (.inr (.inl ⟨curtime, rfl, rfl⟩)))
  case freePacket =>
    obtain ⟨q', hq', rfl⟩ := Option.map_eq_some_iff.mp h
    exact .inr (.inr (.inr (.inr ⟨rfl, hq'⟩)))
  all_goals left
  case append buffer =>
    obtain rfl := Option.some.inj h
    exact hV.append c.netqw buffer
  case clampSends | sendDelayed | beginSend => exact (hV.sending.step rfl h).1
  case addReliables =>
    obtain ⟨buf, -, rfl⟩ := addReliables_spec h
    exact keeps_rememberReliables _ (fun q _ _ _ => hV.reliables q _ _ _ _ _ _ _ _) _
  case submitPacket env =>
    exact hV.sending.submit (fun _ _ => hV.allowed _ rfl rfl)
      (fun q _ => hV.reliables q _ _ _ _ _ _ _ _) h
  case finishPacket =>
    obtain ⟨-, rfl⟩ := finishPacket_spec h
    exact ⟨(hV.sending.log _ _).trans (hV.reliables c.netqw _ _ _ _ _ _ _ _), [_], rfl,
      List.forall_mem_singleton.mpr (hV.allowed _ rfl rfl)⟩
  all_goals exact hframes rfl

/-- A step accepts a packet, or handles one that waited, or leaves the queue alone; here with the
    labels of the steps. -/
theorem step_inbox_labels {angle16 : BitVec 32 → BitVec 16} {a : Action}
    (h : step angle16 a c = some c') :
    InboxSilent c.netqw c'.netqw ∨
    (∃ env source datagram data, a = .receive env source datagram ∧
      c.netqw.accepts? env source datagram = some data ∧
      c'.netqw = c.netqw.acceptPacket env.now data) ∨
    ∃ curtime, a = .handleDelayed curtime ∧ c.netqw.handleDelayed curtime = some c'.netqw := by
  rcases step_packets readsOnlyPackets_inboxView
    (fun ha => (readsNoFrames_inboxView.step ha h).1) h with hsilent | haccept | hhandle |
    ⟨curtime, -, heq⟩ | ⟨-, hfree⟩
  · exact .inl hsilent
  · exact .inr (.inl haccept)
  · exact .inr (.inr hhandle)
  · rw [heq]
    exact .inl (keeps_clampDelays _ inboxView_setNetpackets curtime)
  · exact .inl (inboxSilent_freePacket hfree)

/-- A step accepts a packet, or handles one that waited, or leaves the queue alone. -/
theorem step_inbox {angle16 : BitVec 32 → BitVec 16} {a : Action} (h : step angle16 a c = some c') :
    InboxSilent c.netqw c'.netqw ∨
    (∃ env source datagram data, a = .receive env source datagram ∧
      c.netqw.accepts? env source datagram = some data ∧
      c'.netqw = c.netqw.acceptPacket env.now data) ∨
    ∃ curtime, c.netqw.handleDelayed curtime = some c'.netqw := by
  rcases step_inbox_labels h with hsilent | haccept | ⟨curtime, -, hhandle⟩
  · exact .inl hsilent
  · exact .inr (.inl haccept)
  · exact .inr (.inr ⟨curtime, hhandle⟩)

end Client

/-! ## Order while nothing overtakes -/

/-- The packet may join those that wait: it waits too, and it is newer than them. -/
def NetQW.MayJoin (now : BitVec 64) (data : List Byte) (q : NetQW) : Prop :=
  (q.internalQueue ≠ [] → q.delayUntil now ≠ 0#64) ∧
    ∀ n ∈ q.internalQueue, sequenceOf (q.netpackets n).data < sequenceOf data

instance (now : BitVec 64) (data : List Byte) (q : NetQW) : Decidable (q.MayJoin now data) :=
  inferInstanceAs (Decidable (_ ∧ _))

/-- The datagram that arrives. -/
def Action.arrival? : Action → Option (NetQW.SendEnv × NetAddr × List Byte)
  | .receive env source datagram => some (env, source, datagram)
  | _ => none

/-- A packet that is accepted may join those that wait. -/
def LagOk (a : Action) (c : Client) : Prop :=
  ∀ arrival ∈ a.arrival?, ∀ data ∈ c.netqw.accepts? arrival.1 arrival.2.1 arrival.2.2,
    c.netqw.MayJoin arrival.1.now data

instance (a : Action) (c : Client) : Decidable (LagOk a c) :=
  inferInstanceAs (Decidable (∀ arrival ∈ a.arrival?, ∀ data ∈ _, _))

/-- A packet that is accepted was handled, or waits at the end of the queue. -/
theorem lagQueue_acceptPacket {q : NetQW} {now : BitVec 64} {data : List Byte} (hs : InboxSound q) :
    (q.acceptPacket now data).lagQueue = (if q.delayUntil now = 0#64 then
      q.lagQueue.handle packetKey data else q.lagQueue.enqueue data).accept data := by
  -- Storing the new packet touches none that waits
  have hwaiting : ∀ packet : NetPacket,
      (q.internalQueue.map fun n => (Function.update q.netpackets q.netpacketCount packet n).data)
        = q.internalQueue.map fun n => (q.netpackets n).data := by
    intro packet
    apply List.map_congr_left
    intro n hn
    rw [Function.update_of_ne (Nat.ne_of_lt (hs.lt_count n hn))]
  have hstore : ∀ packet, (q.storePacket packet).lagQueue = q.lagQueue := by
    intro packet
    calc (q.storePacket packet).lagQueue
        = ⟨q.lagQueue.last,
            q.internalQueue.map fun n =>
              (Function.update q.netpackets q.netpacketCount packet n).data,
            q.lagQueue.accepted, q.lagQueue.handled⟩ := rfl
      _ = q.lagQueue := by
        rw [hwaiting]
        rfl
  have hnow : (q.handleNow data).lagQueue = q.lagQueue.handle packetKey data := by
    rw [NetQW.handleNow, lagQueue_handleReceivedPacket, hstore]
  -- held back, the packet joins the queue last
  have hlater : ∀ delayuntil, (q.handleLater delayuntil data).lagQueue = q.lagQueue.enqueue data := by
    intro delayuntil
    calc (q.handleLater delayuntil data).lagQueue
        = ⟨q.lagQueue.last,
            (q.internalQueue ++ [q.netpacketCount]).map fun n =>
              (Function.update q.netpackets q.netpacketCount ⟨delayuntil, 2, data⟩ n).data,
            q.lagQueue.accepted, q.lagQueue.handled⟩ := rfl
      _ = q.lagQueue.enqueue data := by
        rw [List.map_append, hwaiting, List.map_singleton, Function.update_self]
        rfl
  -- passing it to the client writes the history of accepted packets alone
  have haccept : ∀ q : NetQW, (q.queueForClient data).lagQueue = q.lagQueue.accept data := by
    intro q
    have haccepted : accepted (q.trace ++ [.accept data]) = accepted q.trace ++ [data] := by
      simp [accepted]
    have hhandled : handled (q.trace ++ [.accept data]) = handled q.trace := by simp [handled]
    show (⟨_, _, accepted (q.trace ++ [.accept data]), handled (q.trace ++ [.accept data])⟩ :
      LagQueue (List Byte)) = _
    rw [haccepted, hhandled]
    rfl
  unfold NetQW.acceptPacket
  rw [haccept]
  split
  · rw [hnow]
  · rw [hlater]

/-- A packet that was accepted is where the queue's step says. -/
theorem step_acceptPacket {q : NetQW} {now : BitVec 64} {data : List Byte} (hs : InboxSound q)
    (hfresh : q.lastIncomingSequenceNumber < sequenceOf data) (hjoin : q.MayJoin now data) :
    LagQueue.Step packetKey q.lagQueue (q.acceptPacket now data).lagQueue := by
  have hfresh' : q.lagQueue.last < packetKey data := hfresh
  rw [lagQueue_acceptPacket hs]
  split
  · rename_i hdelay
    have hempty : q.internalQueue = [] := not_not.mp fun hne => hjoin.1 hne hdelay
    exact .now data hfresh' (by rw [NetQW.lagQueue, hempty]; rfl)
  · refine .later data hfresh' fun y hy => ?_
    obtain ⟨n, hn, rfl⟩ := List.mem_map.mp hy
    exact hjoin.2 n hn

/-- Receiving keeps the invariants of the queue. -/
theorem InboxSound.acceptPacket {q : NetQW} {now : BitVec 64} {data : List Byte}
    (h : InboxSound q) : InboxSound (q.acceptPacket now data) := by
  -- the new number is one past all that wait, whichever way the packet goes
  have haccept : ∀ q : NetQW, (∀ n ∈ q.internalQueue, n < q.netpacketCount + 1) →
      q.outgoingReliableXor = reliableParity (handled q.trace) → InboxSound (q.queueForClient data) := by
    intro q hlt hxor
    refine ⟨hlt, ?_⟩
    have hhandled : handled (q.trace ++ [.accept data]) = handled q.trace := by simp [handled]
    show q.outgoingReliableXor = reliableParity (handled (q.trace ++ [.accept data]))
    rw [hhandled]
    exact hxor
  unfold NetQW.acceptPacket
  split
  · have hnow : InboxSound (q.handleNow data) :=
      InboxSound.handleReceivedPacket data (q := q.storePacket ⟨0, 1, data⟩) ⟨h.lt_count, h.xor⟩
    exact haccept _ (fun n hn => Nat.lt_succ_of_lt (hnow.lt_count n hn)) hnow.xor
  · refine haccept _ ?_ h.xor
    intro n hn
    rcases List.mem_append.mp hn with hn | hn
    · exact Nat.lt_succ_of_lt (h.lt_count n hn)
    · rw [List.mem_singleton.mp hn]
      exact Nat.lt_succ_self _

section

variable {q q' : NetQW} {curtime : BitVec 64}

theorem handleDelayed_spec (h : q.handleDelayed curtime = some q') :
    ∃ n rest, q.internalQueue = n :: rest ∧
      q' = ((q.handleReceivedPacket (q.netpackets n).data).setInternalQueue rest).release n := by
  unfold NetQW.handleDelayed at h
  split at h
  · exact nomatch h
  · split at h
    · exact ⟨_, _, ‹_›, (Option.some.inj h).symm⟩
    · exact nomatch h

/-- What handling a packet leaves alone of the queue. -/
theorem handleReceivedPacket_queue (q : NetQW) (data : List Byte) :
    (q.handleReceivedPacket data).internalQueue = q.internalQueue ∧
      (fun n => ((q.handleReceivedPacket data).netpackets n).data) = fun n => (q.netpackets n).data := by
  have hview := (inboxSilent_handleReceivedPacket q data).view
  generalize q.handleReceivedPacket data = q₁ at hview ⊢
  exact ⟨congrArg InboxView.queue hview, congrArg InboxView.data hview⟩

/-- The first packet that waits is handled. -/
theorem lagQueue_handleDelayed (h : q.handleDelayed curtime = some q') :
    ∃ data rest, q.lagQueue.waiting = data :: rest ∧
      q'.lagQueue = { q.lagQueue.handle packetKey data with waiting := rest } := by
  obtain ⟨n, rest, hqueue, rfl⟩ := handleDelayed_spec h
  have hhandle := lagQueue_handleReceivedPacket q (q.netpackets n).data
  obtain ⟨-, hdata⟩ := handleReceivedPacket_queue q (q.netpackets n).data
  refine ⟨(q.netpackets n).data, rest.map fun m => (q.netpackets m).data,
    by rw [NetQW.lagQueue, hqueue]; rfl, ?_⟩
  rw [(inboxSilent_release _ n).lagQueue_eq]
  generalize q.handleReceivedPacket (q.netpackets n).data = q₁ at hhandle hdata ⊢
  rw [← hhandle, ← hdata]
  rfl

theorem step_handleDelayed (h : q.handleDelayed curtime = some q') :
    LagQueue.Step packetKey q.lagQueue q'.lagQueue := by
  obtain ⟨data, rest, hwaiting, heq⟩ := lagQueue_handleDelayed h
  rw [heq]
  exact .handle data rest hwaiting

theorem InboxSound.handleDelayed (hs : InboxSound q) (h : q.handleDelayed curtime = some q') :
    InboxSound q' := by
  obtain ⟨n, rest, hqueue, rfl⟩ := handleDelayed_spec h
  have hhandle := InboxSound.handleReceivedPacket (q.netpackets n).data hs
  obtain ⟨hsame, -⟩ := handleReceivedPacket_queue q (q.netpackets n).data
  apply InboxSound.congr _ (inboxSilent_release _ n)
  generalize q.handleReceivedPacket (q.netpackets n).data = q₁ at hhandle hsame ⊢
  have hlt : ∀ m ∈ rest, m < q₁.netpacketCount := by
    intro m hm
    apply hhandle.lt_count m
    rw [hsame, hqueue]
    exact List.mem_cons_of_mem _ hm
  exact ⟨hlt, hhandle.xor⟩

end

/-! ## Every run -/

namespace Client

variable {angle16 : BitVec 32 → BitVec 16} {c c' : Client}

theorem inboxSound_initial (h : c.Init) : InboxSound c.netqw := by
  obtain ⟨garbage, qport, userinfo, addr, rfl⟩ := h
  exact ⟨fun n hn => (nomatch hn), rfl⟩

theorem inboxSound_step {a : Action} (hs : InboxSound c.netqw) (h : step angle16 a c = some c') :
    InboxSound c'.netqw := by
  rcases step_inbox h with hsilent | ⟨env, source, datagram, data, -, -, heq⟩ | ⟨curtime, heq⟩
  · exact hs.congr hsilent
  · rw [heq]
    exact hs.acceptPacket
  · exact hs.handleDelayed heq

theorem inboxSound (h : (system angle16).Reachable c) : InboxSound c.netqw := by
  have hstep : ∀ a c c', InboxSound c.netqw → True → step angle16 a c = some c' →
      InboxSound c'.netqw := fun a c c' hs _ hstep => inboxSound_step hs hstep
  exact h.invariant (fun c => inboxSound_initial) hstep

/-- A step that lets nothing overtake keeps the order. -/
theorem step_lagQueue {a : Action} (hs : InboxSound c.netqw) (hok : LagOk a c)
    (h : step angle16 a c = some c') : c'.netqw.lagQueue = c.netqw.lagQueue ∨
      LagQueue.Step packetKey c.netqw.lagQueue c'.netqw.lagQueue := by
  rcases step_inbox h with hsilent | ⟨env, source, datagram, data, rfl, haccepts, heq⟩ |
    ⟨curtime, heq⟩
  · exact .inl hsilent.lagQueue_eq
  · rw [heq]
    exact .inr (step_acceptPacket hs (receive_of_accepts haccepts).1 (hok _ rfl data haccepts))
  · exact .inr (step_handleDelayed heq)

/-- What is true of the packets that are accepted is true of those that wait, and of those that
    are handled. -/
theorem items_step {P : List Byte → Prop} {a : Action} (h : c.netqw.lagQueue.Items P)
    (hs : InboxSound c.netqw)
    (haccepts : ∀ env source datagram, a = .receive env source datagram →
      ∀ data ∈ c.netqw.accepts? env source datagram, P data)
    (hstep : step angle16 a c = some c') : c'.netqw.lagQueue.Items P := by
  rcases step_inbox hstep with hsilent | ⟨env, source, datagram, data, ha, hdata, heq⟩ |
    ⟨curtime, heq⟩
  · rw [hsilent.lagQueue_eq]
    exact h
  · have hP := haccepts env source datagram ha data hdata
    rw [heq, lagQueue_acceptPacket hs]
    split
    · exact (LagQueue.Items.handle h hP).accept
    · exact (LagQueue.Items.enqueue h hP).accept
  · obtain ⟨data, rest, hwaiting, hlag⟩ := lagQueue_handleDelayed heq
    rw [hlag]
    exact LagQueue.Items.next h hwaiting

end Client

/-- No stale or duplicate packet was accepted. -/
structure NoneStale (q : NetQW) : Prop where
  accepted : ((accepted q.trace).map sequenceOf).Pairwise (· < ·)
  handled : ((handled q.trace).map sequenceOf).Pairwise (· < ·)
  parity : q.outgoingReliableXor = reliableParity (QwNet.handled q.trace)

/-- In every run in which nothing overtakes the packets that wait, no stale or duplicate
    packet is accepted, and `last_incoming_sequence_number` never decreases. -/
theorem none_stale (angle16 : BitVec 32 → BitVec 16) {c : Client}
    (h : (Client.system angle16).Reaches LagOk c) : NoneStale c.netqw ∧
      ∀ a c', LagOk a c → Client.step angle16 a c = some c' →
        c.netqw.lastIncomingSequenceNumber ≤ c'.netqw.lastIncomingSequenceNumber := by
  have hinit : ∀ c, Client.Init c → c.netqw.lagQueue.Ordered packetKey := by
    rintro c ⟨garbage, qport, userinfo, addr, rfl⟩
    exact ⟨rfl, List.Pairwise.nil, fun x hx => (nomatch hx), fun x hx => (nomatch hx)⟩
  -- in bounds of the lag each step is one of the queue's, and those keep its order
  have hstep : ∀ a c c', InboxSound c.netqw → c.netqw.lagQueue.Ordered packetKey → LagOk a c →
      Client.step angle16 a c = some c' → c'.netqw.lagQueue.Ordered packetKey := by
    intro a c c' hs ho hok hstep
    rcases Client.step_lagQueue hs hok hstep with heq | hstep
    · rw [heq]
      exact ho
    · exact ho.step hstep
  have hsound := Client.inboxSound h.reachable
  have hordered : c.netqw.lagQueue.Ordered packetKey :=
    h.invariant_of (fun _ => Client.inboxSound) hinit hstep
  -- The keys are the sequence numbers
  have hkey : ∀ {xs : List (List Byte)}, (xs.map packetKey).Pairwise (· < ·) →
      (xs.map sequenceOf).Pairwise (· < ·) := by
    intro xs hxs
    rw [List.pairwise_map] at hxs ⊢
    exact hxs
  refine ⟨⟨hkey hordered.increasing, hkey hordered.handled_increasing, hsound.xor⟩, ?_⟩
  intro a c' hok hstep
  rcases Client.step_lagQueue hsound hok hstep with heq | hstep
  · exact Nat.le_of_eq (congrArg LagQueue.last heq).symm
  · exact hordered.last_le hstep

/-- The server's packet `sequence` in answer to none, with the reliable flag or without. -/
def serverPacket (sequence flag : Byte) : List Byte := [sequence, 0, 0, flag, 0, 0, 0, 0]

namespace Client

/-- A packet arrives after `now` microseconds. -/
def arrives (now : BitVec 64) (packet : List Byte) : Action :=
  .receive ⟨now, true, fun _ => 0⟩ .loopback packet

/-- With a lag of a tenth of a second two packets arrive, and wait; without it a third. -/
def lagRun : List Action :=
  [.setLag 100000#32, arrives 20000#64 (serverPacket 1 0), arrives 30000#64 (serverPacket 2 0x80),
    .handleDelayed 90000#64, .handleDelayed 90000#64, .setLag 0#32,
    arrives 100000#64 (serverPacket 3 0)]

/-- With a lag of a tenth of a second a packet arrives twice. -/
def duplicateRun : List Action :=
  [.setLag 100000#32, arrives 20000#64 (serverPacket 1 0x80),
    arrives 20000#64 (serverPacket 1 0x80), .handleDelayed 70000#64, .handleDelayed 70000#64]

end Client

/-- Packets in order are accepted in order. -/
theorem none_stale_lag : ∃ c, (Client.system fun _ => 0).runOk LagOk
    (Client.handshake ++ Client.lagRun) Client.fresh = some c ∧
    (accepted c.netqw.trace).map sequenceOf = [1#32, 2#32, 3#32] ∧ NoneStale c.netqw ∧
    ∀ a c', LagOk a c → Client.step (fun _ => 0) a c = some c' →
      c.netqw.lastIncomingSequenceNumber ≤ c'.netqw.lastIncomingSequenceNumber := by
  have heq : ((Client.system fun _ => 0).runOk LagOk (Client.handshake ++ Client.lagRun)
      Client.fresh).map (fun c => (accepted c.netqw.trace).map sequenceOf)
        = some [1#32, 2#32, 3#32] := by
    decide +kernel
  obtain ⟨c, hrun, haccepted⟩ := Option.map_eq_some_iff.mp heq
  exact ⟨c, hrun, haccepted,
    none_stale _ (Transitions.Reaches.runOk (.init ⟨_, _, _, _, rfl⟩) hrun)⟩

/-- A packet that arrives twice within the lag is accepted and handled twice, and the
    reliable bit, which it flips, is as if it had never come. -/
theorem none_stale_not_duplicate : ∃ c, (Client.system fun _ => 0).run
    (Client.handshake ++ Client.duplicateRun) Client.fresh = some c ∧
    (accepted c.netqw.trace).map sequenceOf = [1#32, 1#32] ∧
    (handled c.netqw.trace).map sequenceOf = [1#32, 1#32] ∧
    c.netqw.outgoingReliableXor = 0#32 ∧ ¬ NoneStale c.netqw := by
  have heq : ((Client.system fun _ => 0).run (Client.handshake ++ Client.duplicateRun)
      Client.fresh).map (fun c => ((accepted c.netqw.trace).map sequenceOf,
        (handled c.netqw.trace).map sequenceOf, c.netqw.outgoingReliableXor))
        = some ([1#32, 1#32], [1#32, 1#32], 0#32) := by
    decide +kernel
  obtain ⟨c, hrun, hread⟩ := Option.map_eq_some_iff.mp heq
  simp only [Prod.mk.injEq] at hread
  obtain ⟨haccepted, hhandled, hxor⟩ := hread
  refine ⟨c, hrun, haccepted, hhandled, hxor, ?_⟩
  intro hstale
  have hincreasing := hstale.accepted
  rw [haccepted] at hincreasing
  exact absurd hincreasing (by decide)

end QwNet
