/-
  QwNet.Channel.Delivery

  The client and a server, and a network that loses, repeats and reorders.

  A packet may arrive at any time after it was handed to `NetQW_Thread_SendPacket`, as
  often as the network wants: the lag is one more delay.  The server does what
  `Netchan_Process` does for its side, and its packets arrive at the client as any
  datagram does.  In the runs of the end other threads step in between the turns of the
  loop that frees commands.
-/
import Mathlib.Data.List.Infix
import QwNet.Channel.FreeingLoop
import QwNet.Lib.AlternatingBit

namespace QwNet

open AlternatingBit

/-! ## The server -/

/-- The server's side of the channel: `incoming_sequence`, `incoming_reliable_sequence`, and the
    bytes of the commands it was given. -/
structure Server where
  incomingSequence : BitVec 32
  incomingReliableSequence : Bool
  delivered : List Byte

namespace Server

/-- `Netchan_Process`: stale and duplicate packets are dropped, and a packet with the reliable
    flag flips the bit.  Its commands are what is behind the other parts of the packet. -/
def process (packet : List Byte) (s : Server) : Server :=
  if sequenceOf packet ≤ s.incomingSequence then s
  else
    { incomingSequence := sequenceOf packet
      incomingReliableSequence :=
        if isReliable packet then !s.incomingReliableSequence else s.incomingReliableSequence
      delivered := if isReliable packet then s.delivered ++ commandBytes packet else s.delivered }

/-- The server may send `data`: it acknowledges the last packet that was accepted, with the bit,
    and does not run ahead of the client. -/
def MaySend (data : List Byte) (s : Server) : Prop :=
  acknowledgeOf data = s.incomingSequence ∧ acknowledgeBit data = s.incomingReliableSequence ∧
    sequenceOf data ≤ acknowledgeOf data

instance (data : List Byte) (s : Server) : Decidable (s.MaySend data) :=
  inferInstanceAs (Decidable (_ ∧ _ ∧ _))

end Server

/-! ## The parties and the network -/

/-- The parties, and the packets the server ever sent.  Those of the client are in its trace. -/
structure Exchange where
  client : Client
  server : Server
  replies : List (List Byte)

/-- A step of the client, the arrival of its packet `n` at the server, or a packet of the server. -/
inductive ExchangeAction where
  | client (a : Action)
  | process (n : Nat)
  | reply (data : List Byte)

namespace Exchange

/-- What the client takes for a packet of the server is one. -/
def FromServer (a : Action) (e : Exchange) : Prop :=
  ∀ arrival ∈ a.arrival?, ∀ data ∈ e.client.netqw.accepts? arrival.1 arrival.2.1 arrival.2.2,
    data ∈ e.replies

instance (a : Action) (e : Exchange) : Decidable (e.FromServer a) :=
  inferInstanceAs (Decidable (∀ arrival ∈ a.arrival?, ∀ data ∈ _, _))

/-- What an action does; `none` where it is not possible. -/
def step (angle16 : BitVec 32 → BitVec 16) (a : ExchangeAction) (e : Exchange) : Option Exchange :=
  match a with
  | .client a =>
    if e.FromServer a then (Client.step angle16 a e.client).map fun c => { e with client := c }
    else none
  | .process n =>
    (departures e.client.netqw.trace)[n]?.map fun p => { e with server := e.server.process p.1 }
  | .reply data =>
    if e.server.MaySend data then some { e with replies := e.replies ++ [data] } else none

/-- A client that was just created, and a server that has heard nothing from it. -/
def system (angle16 : BitVec 32 → BitVec 16) : Transitions Exchange ExchangeAction where
  Init e := e.client.Init ∧ e.server = ⟨0#32, false, []⟩ ∧ e.replies = []
  step := step angle16

end Exchange

/-- The command that another thread of the client appends. -/
def ExchangeAction.appended? : ExchangeAction → Option ReliableBuffer
  | .client a => a.appended?
  | .process _ | .reply _ => none

/-- Appended commands are ordinary. -/
def AppendsOrdinary (a : ExchangeAction) (_ : Exchange) : Prop := ∀ b ∈ a.appended?, b.Ordinary

instance (a : ExchangeAction) (e : Exchange) : Decidable (AppendsOrdinary a e) :=
  Option.decidableForallMem a.appended?

/-! ## The packets of the client -/

/-- Every command takes up some of the room. -/
theorem length_fitting_le {i : Nat} (hi : i < 1450) {queue : List ReliableBuffer}
    (hqueue : ∀ b ∈ queue, b.Ordinary) : (NetQW.fitting i queue).length + i ≤ 1450 := by
  induction queue generalizing i with
  | nil => exact Nat.le_of_lt (by simpa only [NetQW.fitting, List.length_nil, Nat.zero_add] using hi)
  | cons b rest ih =>
    obtain ⟨hb, hrest⟩ := List.forall_mem_cons.mp hqueue
    have hpos := hb.pos
    have hlt := hb.2
    have hmod : (i + b.data.length) % 2 ^ 32 = i + b.data.length := Nat.mod_eq_of_lt (by omega)
    rw [NetQW.fitting, hmod]
    split
    · rename_i hfits
      have hrec := ih hfits hrest
      rw [List.length_cons]
      omega
    · rw [List.length_nil]
      omega

/-- So the commands in a packet can be counted. -/
theorem length_fitting_lt (i : Nat) {queue : List ReliableBuffer}
    (hqueue : ∀ b ∈ queue, b.Ordinary) : (NetQW.fitting i queue).length < 2 ^ 32 := by
  cases queue with
  | nil => exact Nat.two_pow_pos 32
  | cons b rest =>
    rw [NetQW.fitting]
    split
    · rename_i hfits
      have hrec := length_fitting_le hfits (List.forall_mem_cons.mp hqueue).2
      rw [List.length_cons]
      omega
    · exact Nat.two_pow_pos 32

theorem topBit_writeLong (n : BitVec 32) (rest : List Byte) :
    topBit (fun i => (writeLong n ++ rest).getD i 0) 3 = n.msb := by
  have hflag : ∀ b : Byte, decide (b &&& 0x80#8 ≠ 0#8) = b.getLsbD 7 := by decide
  show decide ((n >>> 24).setWidth 8 &&& 0x80#8 ≠ 0#8) = n.msb
  rw [hflag, BitVec.msb_eq_getLsbD_last, BitVec.getLsbD_setWidth, BitVec.getLsbD_ushiftRight]
  rfl

/-- What the client puts into a packet that begins with its number. -/
theorem appendReliables_spec {q : NetQW} {rest : List Byte}
    (hqueue : ∀ b ∈ q.reliableQueue, b.Ordinary) (n : BitVec 32) :
    sequenceOf (q.appendReliables (writeLong n ++ rest)) = n &&& 0x7fffffff#32 ∧
      (q.reliables (writeLong n ++ rest).length ≠ [] →
        isReliable (q.appendReliables (writeLong n ++ rest)) = true) ∧
      (q.reliables (writeLong n ++ rest).length = [] →
        isReliable (q.appendReliables (writeLong n ++ rest)) = n.msb) := by
  refine ⟨number31_appendReliables q n rest, fun hne => ?_, fun hnil => ?_⟩
  · have hcount : q.reliableCount (writeLong n ++ rest).length ≠ 0#32 := by
      intro hzero
      -- what fits in a packet cannot wrap the count of buffers
      have hlt : (q.reliables (writeLong n ++ rest).length).length < 2 ^ 32 := by
        rw [NetQW.reliables]
        split
        · exact length_fitting_lt _ hqueue
        · exact Nat.two_pow_pos 32
      have hlength := congrArg BitVec.toNat hzero
      rw [NetQW.reliableCount, BitVec.toNat_ofNat, Nat.mod_eq_of_lt hlt] at hlength
      exact hne (List.length_eq_zero_iff.mp hlength)
    unfold NetQW.appendReliables
    dsimp only
    rw [if_pos hcount, List.append_assoc]
    exact topBit_orAt n _
  · unfold NetQW.appendReliables NetQW.reliableCount
    dsimp only
    rw [hnil]
    exact (congrArg isReliable (List.append_nil _)).trans (topBit_writeLong n rest)

/-- A number of 31 bits is what the header shows. -/
theorem and_mask_of_lt {n : BitVec 32} (h : n.toNat < 2 ^ 31) : n &&& 0x7fffffff#32 = n := by
  apply BitVec.eq_of_toNat_eq
  rw [BitVec.toNat_and]
  exact (Nat.and_two_pow_sub_one_eq_mod _ 31).trans (Nat.mod_eq_of_lt h)

/-! ## The client as the sender of the protocol -/

theorem Client.Elsewhere.same {c c' : Client} (h : c.Elsewhere c') :
    c'.pc.pending = c.pc.pending ∧ c'.pc.departed = c.pc.departed ∧
      ∀ buf reliable, c'.pc = .submit buf reliable → c.pc = .submit buf reliable := by
  rcases h with hpc | ⟨hsending, hsending'⟩
  · rw [hpc]
    exact ⟨rfl, rfl, fun _ _ => id⟩
  · have hpending : ∀ p : SendPc, p.sending = false → p.pending = [] ∧ p.departed = false := by
      intro p hp
      cases p <;> first | exact ⟨rfl, rfl⟩ | exact nomatch hp
    obtain ⟨hnone, hstill⟩ := hpending _ hsending
    obtain ⟨hnone', hstill'⟩ := hpending _ hsending'
    refine ⟨hnone'.trans hnone.symm, hstill'.trans hstill.symm, fun buf reliable heq => ?_⟩
    rw [heq] at hsending'
    exact nomatch hsending'

/-- A packet of the client, as the protocol has it. -/
def protocolPacket (p : List Byte × List ReliableBuffer) : Packet ReliableBuffer :=
  ⟨(sequenceOf p.1).toNat, p.2⟩

/-- A packet of the server, as the protocol has it. -/
def protocolReply (data : List Byte) : Reply :=
  ⟨(sequenceOf data).toNat, (acknowledgeOf data).toNat, acknowledgeBit data⟩

/-- Nothing happened to the receiver, and no reply was sent. -/
structure SameReceiver (t t' : Protocol ReliableBuffer) : Prop where
  high : t'.high = t.high
  bit : t'.remoteBit = t.remoteBit
  delivered : t'.delivered = t.delivered
  replies : t'.replies = t.replies

theorem sameReceiver_settle (t : Protocol ReliableBuffer) (r : Reply) :
    SameReceiver t (t.settle r) := by
  unfold Protocol.settle
  split
  · split
    all_goals exact ⟨rfl, rfl, rfl, rfl⟩
  · exact ⟨rfl, rfl, rfl, rfl⟩

/-- The fields of the client are those of the sender.  The packet is one of the protocol as soon as
    the commands are remembered, a while before it leaves. -/
structure SenderOf (c : Client) (t : Protocol ReliableBuffer) : Prop where
  queue : c.netqw.reliableQueue = t.queue
  sent : c.netqw.reliableBuffersSent.toNat = t.outstanding
  number : c.netqw.reliableSequenceNumber.toNat = t.number
  xor : c.netqw.incomingReliableXor = if t.bit then 1#32 else 0#32
  next : t.next = (departures c.netqw.trace).length + c.pc.pending.length + 1
  current : c.netqw.currentOutgoingSequenceNumber.toNat + (if c.pc.departed then 1 else 0)
    = (departures c.netqw.trace).length + 1
  appended : appendedBuffers c.netqw.trace = t.appended
  freed : freedBuffers c.netqw.trace = t.freed
  departures : ∀ p ∈ departures c.netqw.trace, protocolPacket p ∈ t.packets ∧
    (isReliable p.1 = true ↔ p.2 ≠ []) ∧ ∀ b ∈ p.2, b.Ordinary
  pending : ∀ buf reliable, c.pc = .submit buf reliable →
    ⟨c.netqw.currentOutgoingSequenceNumber.toNat, reliable⟩ ∈ t.packets ∧
    sequenceOf buf = c.netqw.currentOutgoingSequenceNumber &&& 0x7fffffff#32 ∧
    (reliable ≠ [] → isReliable buf = true) ∧
    (reliable = [] → isReliable buf = c.netqw.currentOutgoingSequenceNumber.msb) ∧
    ∀ b ∈ reliable, b.Ordinary
  ordinary : ∀ b ∈ c.netqw.reliableQueue, b.Ordinary

namespace SenderOf

variable {c c' : Client} {t : Protocol ReliableBuffer}

/-- Nothing happens to the commands. -/
theorem silent (h : SenderOf c t) (hkeeps : ReliableSilent c.netqw c'.netqw)
    (hpc : c.Elsewhere c') : SenderOf c' t := by
  have hfield : ∀ {α : Type} (f : Reliability → α), f c'.netqw.reliability = f c.netqw.reliability :=
    fun f => congrArg f hkeeps.view
  have hqueue : c'.netqw.reliableQueue = c.netqw.reliableQueue := hfield Reliability.queue
  have hcurrent : c'.netqw.currentOutgoingSequenceNumber = c.netqw.currentOutgoingSequenceNumber :=
    hfield Reliability.current
  have happended : appendedBuffers c'.netqw.trace = appendedBuffers c.netqw.trace :=
    hkeeps.filterMap fun _ => NetEvent.appendBuffer?_silent
  have hfreed : freedBuffers c'.netqw.trace = freedBuffers c.netqw.trace :=
    hkeeps.filterMap fun _ => NetEvent.freeBuffer?_silent
  have hdepartures : QwNet.departures c'.netqw.trace = QwNet.departures c.netqw.trace :=
    departures_of_silent hkeeps
  -- neither the fields nor the history have moved, so each clause carries over
  obtain ⟨hpending, hdeparted, hsubmit⟩ := hpc.same
  constructor
  · exact hqueue.trans h.queue
  · exact (congrArg BitVec.toNat (hfield Reliability.sent)).trans h.sent
  · exact (congrArg BitVec.toNat (hfield Reliability.number)).trans h.number
  · exact (hfield Reliability.xor).trans h.xor
  · rw [hdepartures, hpending]
    exact h.next
  · rw [hdepartures, hcurrent, hdeparted]
    exact h.current
  · exact happended.trans h.appended
  · exact hfreed.trans h.freed
  · rw [hdepartures]
    exact h.departures
  · intro buf reliable heq
    rw [hcurrent]
    exact h.pending buf reliable (hsubmit buf reliable heq)
  · rw [hqueue]
    exact h.ordinary

theorem append (h : SenderOf c t) {b : ReliableBuffer} (hb : b.Ordinary)
    (hview : c'.netqw.reliability = c.netqw.reliability.append b)
    (htrace : c'.netqw.trace = c.netqw.trace ++ [.append b]) (hpc : c'.pc = c.pc) :
    SenderOf c' (t.append b) := by
  have hfield : ∀ {α : Type} (f : Reliability → α),
      f c'.netqw.reliability = f (c.netqw.reliability.append b) := fun f => congrArg f hview
  have hqueue : c'.netqw.reliableQueue = c.netqw.reliableQueue ++ [b] := hfield Reliability.queue
  have hcurrent : c'.netqw.currentOutgoingSequenceNumber = c.netqw.currentOutgoingSequenceNumber :=
    hfield Reliability.current
  -- an append shows in the history of appends and in no other
  have happended : appendedBuffers c'.netqw.trace = appendedBuffers c.netqw.trace ++ [b] := by
    rw [htrace, appendedBuffers_concat]
    rfl
  have hfreed : freedBuffers c'.netqw.trace = freedBuffers c.netqw.trace := by
    rw [htrace, freedBuffers_log _ rfl]
  have hdepartures : QwNet.departures c'.netqw.trace = QwNet.departures c.netqw.trace := by
    rw [htrace, departures_concat]
    exact List.append_nil _
  constructor
  · rw [hqueue, h.queue]
    rfl
  · exact (congrArg BitVec.toNat (hfield Reliability.sent)).trans h.sent
  · exact (congrArg BitVec.toNat (hfield Reliability.number)).trans h.number
  · exact (hfield Reliability.xor).trans h.xor
  · rw [hdepartures, hpc]
    exact h.next
  · rw [hdepartures, hcurrent, hpc]
    exact h.current
  · rw [happended, h.appended]
    rfl
  · exact hfreed.trans h.freed
  · rw [hdepartures]
    exact h.departures
  · intro buf reliable heq
    rw [hcurrent]
    exact h.pending buf reliable (hpc ▸ heq)
  · rw [hqueue]
    exact List.forall_mem_append.mpr ⟨h.ordinary, List.forall_mem_singleton.mpr hb⟩

/-- The bit as the field that is or is not zero. -/
theorem xor_flip (bit : Bool) :
    (if bit then 1#32 else 0#32) ^^^ 1#32 = if (!bit) then 1#32 else 0#32 := by
  cases bit <;> rfl

theorem answered_iff (h : SenderOf c t) (data : List Byte) : c.netqw.reliability.Answered data ↔
    t.outstanding ≠ 0 ∧ t.number ≤ (protocolReply data).number := by
  have hsent : c.netqw.reliableBuffersSent ≠ 0#32 ↔ t.outstanding ≠ 0 := by
    rw [← h.sent, ne_eq, BitVec.toNat_eq]
    rfl
  have hnumber : c.netqw.reliableSequenceNumber ≤ sequenceOf data ↔
      t.number ≤ (sequenceOf data).toNat := by
    rw [← h.number]
    exact BitVec.le_def
  exact and_congr hsent hnumber

theorem lost_iff (h : SenderOf c t) (data : List Byte) : c.netqw.reliability.Lost data ↔
    t.bit ≠ (protocolReply data).bit := by
  have hbit : c.netqw.incomingReliableXor ≠ 0#32 ↔ t.bit = true := by
    rw [h.xor]
    cases t.bit <;> decide
  show (c.netqw.incomingReliableXor ≠ 0#32) ≠ (acknowledgeBit data = true) ↔
    t.bit ≠ acknowledgeBit data
  rw [propext hbit]
  cases t.bit <;> cases acknowledgeBit data <;> simp

/-- What follows from the fields, when a packet of the server is handled. -/
theorem handled {t' : Protocol ReliableBuffer} {data : List Byte} {r : Reliability}
    {fs : List ReliableBuffer} (h : SenderOf c t) (hhandles : Handles data c.netqw c'.netqw)
    (hpc : c.pc = .idle) (hpc' : c'.pc = .idle) (hr : c.netqw.reliability.settle data = r)
    (hfs : (c.netqw.reliability.settleEvents data).filterMap NetEvent.freeBuffer? = fs)
    (hqueue : r.queue = t'.queue) (hmem : ∀ b ∈ t'.queue, b ∈ t.queue)
    (hsent : r.sent.toNat = t'.outstanding) (hnumber : r.number.toNat = t'.number)
    (hxor : r.xor = if t'.bit then 1#32 else 0#32) (hfreed : t.freed ++ fs = t'.freed)
    (hsame : t'.next = t.next ∧ t'.appended = t.appended ∧ t'.packets = t.packets) :
    SenderOf c' t' := by
  obtain ⟨hnext, happended, hpackets⟩ := hsame
  have hfield : ∀ {α : Type} (f : Reliability → α), f c'.netqw.reliability = f r := fun f =>
    congrArg f (hhandles.view.trans hr)
  have hcurrent : c'.netqw.currentOutgoingSequenceNumber = c.netqw.currentOutgoingSequenceNumber :=
    (congrArg Reliability.current hhandles.view).trans (Reliability.current_settle data _)
  -- only commands are freed
  have hevents : ∀ {α : Type} (f : NetEvent → Option α), (∀ e, e.ofReliables = false → f e = none) →
      f (.handle data) = none → (∀ b, f (.free b) = none) → f .fault = none →
        c'.netqw.trace.filterMap f = c.netqw.trace.filterMap f := by
    intro α f hf hdata hfree hfault
    have hnone : (c.netqw.reliability.settleEvents data).filterMap f = [] := by
      refine List.filterMap_eq_nil_iff.mpr fun e he => ?_
      rcases c.netqw.reliability.settleEvents_free data e he with ⟨b, rfl⟩ | rfl
      · exact hfree b
      · exact hfault
    rw [hhandles.filterMap hf hdata, hnone, List.append_nil]
  have happended' : appendedBuffers c'.netqw.trace = appendedBuffers c.netqw.trace :=
    hevents _ (fun _ => NetEvent.appendBuffer?_silent) rfl (fun _ => rfl) rfl
  have hdepartures : QwNet.departures c'.netqw.trace = QwNet.departures c.netqw.trace :=
    hevents _ (fun _ => NetEvent.departure?_silent) rfl (fun _ => rfl) rfl
  have hfreed' : freedBuffers c'.netqw.trace = freedBuffers c.netqw.trace ++ fs :=
    (hhandles.filterMap (fun _ => NetEvent.freeBuffer?_silent) rfl).trans
      (congrArg _ hfs)
  have hqueue' : c'.netqw.reliableQueue = t'.queue := (hfield Reliability.queue).trans hqueue
  constructor
  · exact hqueue'
  · exact (congrArg BitVec.toNat (hfield Reliability.sent)).trans hsent
  · exact (congrArg BitVec.toNat (hfield Reliability.number)).trans hnumber
  · exact (hfield Reliability.xor).trans hxor
  · rw [hdepartures, hpc', hnext, ← hpc]
    exact h.next
  · rw [hdepartures, hcurrent, hpc', ← hpc]
    exact h.current
  · exact (happended'.trans h.appended).trans happended.symm
  · rw [hfreed', h.freed]
    exact hfreed
  · rw [hdepartures, hpackets]
    exact h.departures
  · intro buf reliable heq
    rw [hpc'] at heq
    exact nomatch heq
  · rw [hqueue']
    exact fun b hb => h.ordinary b (h.queue ▸ hmem b hb)

/-- A packet of the server is handled. -/
theorem settle (h : SenderOf c t) {data : List Byte} (hhandles : Handles data c.netqw c'.netqw)
    (hpc : c.pc = .idle) (hpc' : c'.pc = .idle) : SenderOf c' (t.settle (protocolReply data)) := by
  unfold Protocol.settle
  rcases c.netqw.reliability.settle_cases data with ⟨ha, hl, hview, hevents⟩ |
    ⟨ha, hl, hview, hevents⟩ | ⟨ha, hview, hevents⟩
  · -- lost
    rw [if_pos ((h.answered_iff data).mp ha), if_pos ((h.lost_iff data).mp hl)]
    refine h.handled hhandles hpc hpc' hview (congrArg _ hevents) h.queue (fun _ => id) rfl
      h.number ?_ (List.append_nil _) ⟨rfl, rfl, rfl⟩
    exact (congrArg (· ^^^ 1#32) h.xor).trans (xor_flip t.bit)
  · -- delivered
    rw [if_pos ((h.answered_iff data).mp ha), if_neg (mt (h.lost_iff data).mpr hl)]
    have hbatch : c.netqw.reliability.queue.take c.netqw.reliability.sent.toNat = t.batch := by
      show c.netqw.reliableQueue.take c.netqw.reliableBuffersSent.toNat = _
      rw [h.queue, h.sent]
      rfl
    have hfs : (c.netqw.reliability.settleEvents data).filterMap NetEvent.freeBuffer? = t.batch := by
      have hfault : (if c.netqw.reliability.queue.length < c.netqw.reliability.sent.toNat then
          [NetEvent.fault] else []).filterMap NetEvent.freeBuffer? = [] := by
        split <;> rfl
      rw [hevents, List.filterMap_append, hfault, List.append_nil, List.filterMap_map, hbatch]
      exact List.filterMap_some
    refine h.handled hhandles hpc hpc' hview hfs ?_ (fun _ => List.mem_of_mem_drop) rfl h.number
      h.xor rfl ⟨rfl, rfl, rfl⟩
    show c.netqw.reliableQueue.drop c.netqw.reliableBuffersSent.toNat = t.queue.drop t.outstanding
    rw [h.queue, h.sent]
  · rw [if_neg (mt (h.answered_iff data).mpr ha)]
    exact h.handled hhandles hpc hpc' hview (congrArg _ hevents) h.queue (fun _ => id) h.sent
      h.number h.xor (List.append_nil _) ⟨rfl, rfl, rfl⟩

/-- The packet is complete, and it is the next one of the protocol. -/
theorem complete {t' : Protocol ReliableBuffer} {q : NetQW} {buf : List Byte} (h : SenderOf c t)
    (hnumbered : c.Numbered) (hpc : c.pc = .reliable buf)
    (hq : q = { c.netqw with
      reliableBuffersSent := q.reliableBuffersSent
      reliableSequenceNumber := q.reliableSequenceNumber
      incomingReliableXor := q.incomingReliableXor })
    (hqueue : t.queue = t'.queue) (hsent : q.reliableBuffersSent.toNat = t'.outstanding)
    (hnumber : q.reliableSequenceNumber.toNat = t'.number)
    (hxor : q.incomingReliableXor = if t'.bit then 1#32 else 0#32)
    (hpackets : t'.packets = t.packets ++ [⟨t.next, c.netqw.reliables buf.length⟩])
    (hsame : t'.next = t.next + 1 ∧ t'.appended = t.appended ∧ t'.freed = t.freed) :
    SenderOf ⟨q, .submit (c.netqw.appendReliables buf) (c.netqw.reliables buf.length)⟩ t' := by
  obtain ⟨hnext, happended, hfreed⟩ := hsame
  obtain ⟨rest, hbuf⟩ := hnumbered buf (by rw [hpc]; rfl)
  have hspec := @appendReliables_spec _ rest h.ordinary c.netqw.currentOutgoingSequenceNumber
  rw [← hbuf] at hspec
  have hbefore := h.next
  have hcurrent := h.current
  rw [hpc] at hbefore hcurrent
  -- the number in the header is the protocol's next, as a machine word
  have htoNat : c.netqw.currentOutgoingSequenceNumber.toNat = t.next := hcurrent.trans hbefore.symm
  rw [hq]
  constructor
  · exact h.queue.trans hqueue
  · exact hsent
  · exact hnumber
  · exact hxor
  · exact hnext.trans (congrArg (· + 1) hbefore)
  · exact hcurrent
  · exact h.appended.trans happended.symm
  · exact h.freed.trans hfreed.symm
  · intro p hp
    obtain ⟨hmem, hflag⟩ := h.departures p hp
    rw [hpackets]
    exact ⟨List.mem_append_left _ hmem, hflag⟩
  · intro buf' reliable heq
    obtain ⟨rfl, rfl⟩ := SendPc.submit.inj heq
    refine ⟨?_, hspec.1, hspec.2.1, hspec.2.2, fun b hb =>
      h.ordinary b ((reliables_prefix_queue c.netqw buf.length).subset hb)⟩
    show (⟨c.netqw.currentOutgoingSequenceNumber.toNat, _⟩ : Packet ReliableBuffer) ∈ t'.packets
    rw [hpackets, htoNat]
    exact List.mem_append_right _ (List.mem_singleton.mpr rfl)
  · exact h.ordinary

/-- Commands are copied into the packet, or none are. -/
theorem remember (h : SenderOf c t) (hnumbered : c.Numbered) {buf : List Byte}
    (hpc : c.pc = .reliable buf) : ∃ a t', t.step a = some t' ∧ SameReceiver t t' ∧
      SenderOf ⟨c.netqw.rememberReliables buf.length,
        .submit (c.netqw.appendReliables buf) (c.netqw.reliables buf.length)⟩ t' := by
  -- the count does not wrap: ordinary commands are too long for that many to fit
  have hcount : (c.netqw.reliableCount buf.length).toNat
      = (c.netqw.reliables buf.length).length := by
    rw [NetQW.reliableCount, BitVec.toNat_ofNat, NetQW.reliables]
    split
    · exact Nat.mod_eq_of_lt (length_fitting_lt _ h.ordinary)
    · rfl
  unfold NetQW.rememberReliables
  -- a packet without commands leaves the outstanding ones as they are
  by_cases hnone : c.netqw.reliables buf.length = []
  · have hzero : ¬c.netqw.reliableCount buf.length ≠ 0#32 := by
      rw [NetQW.reliableCount, hnone]
      exact not_not.mpr rfl
    rw [if_neg hzero]
    refine ⟨.send 0, t.sendNone, rfl, ⟨rfl, rfl, rfl, rfl⟩, ?_⟩
    refine h.complete hnumbered hpc rfl rfl h.sent h.number h.xor ?_ ⟨rfl, rfl, rfl⟩
    rw [hnone]
    rfl
  · have hsent : c.netqw.reliableBuffersSent = 0#32 := by
      by_contra hsent
      exact hnone (if_neg hsent)
    -- commands are added only to a sender that waits for nothing
    have hidle : t.outstanding = 0 := by
      rw [← h.sent, hsent]
      rfl
    have hprefix : c.netqw.reliables buf.length <+: t.queue := by
      rw [NetQW.reliables, if_pos hsent, h.queue]
      exact fitting_prefix _ _
    obtain ⟨k, hk⟩ := Nat.exists_eq_succ_of_ne_zero (mt List.length_eq_zero_iff.mp hnone)
    have hroom : k < t.queue.length := by
      have hle := hprefix.length_le
      omega
    have hpositive : c.netqw.reliableCount buf.length ≠ 0#32 := by
      intro hzero
      rw [hzero, hk] at hcount
      exact absurd hcount.symm (Nat.succ_ne_zero k)
    rw [if_pos hpositive]
    refine ⟨.send (k + 1), t.sendItems (k + 1), if_pos ⟨hidle, hroom⟩, ⟨rfl, rfl, rfl, rfl⟩, ?_⟩
    have hbefore := h.next
    have hcurrent := h.current
    rw [hpc] at hbefore hcurrent
    refine h.complete hnumbered hpc rfl rfl (hcount.trans hk) (hcurrent.trans hbefore.symm) ?_ ?_
      ⟨rfl, rfl, rfl⟩
    · exact (congrArg (· ^^^ 1#32) h.xor).trans (xor_flip t.bit)
    · show t.packets ++ [⟨t.next, t.queue.take (k + 1)⟩] = _
      rw [← Nat.succ_eq_add_one, ← hk, ← List.prefix_iff_eq_take.mp hprefix]

/-- The packet leaves; its number fits into the header. -/
theorem submit (h : SenderOf c t) {buf : List Byte} {reliable : List ReliableBuffer}
    (hpc : c.pc = .submit buf reliable) (hpc' : c'.pc = .finish)
    (hkeeps : ReliableSilent (c.netqw.log [.sendPacket buf reliable]) c'.netqw)
    (hfew : (QwNet.departures c'.netqw.trace).length < 2 ^ 31) : SenderOf c' t := by
  have hlog : QwNet.departures (c.netqw.log [.sendPacket buf reliable]).trace
      = QwNet.departures c.netqw.trace ++ [(buf, reliable)] := by
    rw [NetQW.log_trace, departures_concat]
    rfl
  have hdepartures : QwNet.departures c'.netqw.trace
      = QwNet.departures (c.netqw.log [.sendPacket buf reliable]).trace :=
    departures_of_silent hkeeps
  have hcurrent := h.current
  have hnext := h.next
  rw [hpc] at hcurrent hnext
  have hcurrent' : c.netqw.currentOutgoingSequenceNumber.toNat
      = (QwNet.departures c.netqw.trace).length + 1 := hcurrent
  -- below 2³¹ packets the top bit of the number is free to carry the flag
  have hlt : c.netqw.currentOutgoingSequenceNumber.toNat < 2 ^ 31 := by
    rw [hdepartures, hlog, List.length_append, List.length_singleton] at hfew
    omega
  obtain ⟨hmem, hsequence, hitems, hempty, hordinary⟩ := h.pending buf reliable hpc
  -- read back from its bytes, the packet is the one the protocol has sent
  have hpacket : protocolPacket (buf, reliable) ∈ t.packets ∧
      (isReliable buf = true ↔ reliable ≠ []) ∧ ∀ b ∈ reliable, b.Ordinary := by
    refine ⟨?_, ⟨fun hflag hnone => ?_, hitems⟩, hordinary⟩
    · rw [protocolPacket, hsequence, and_mask_of_lt hlt]
      exact hmem
    · rw [hempty hnone] at hflag
      rw [BitVec.msb_eq_false_iff_two_mul_lt.mpr (by omega)] at hflag
      exact Bool.noConfusion hflag
  have hsent : SenderOf ⟨c.netqw.log [.sendPacket buf reliable], .finish⟩ t := by
    constructor
    · exact h.queue
    · exact h.sent
    · exact h.number
    · exact h.xor
    · rw [hlog, hnext, List.length_append]
      rfl
    · rw [hlog, List.length_append]
      exact congrArg (· + 1) hcurrent'
    · rw [NetQW.log_trace, appendedBuffers_concat]
      exact (List.append_nil _).trans h.appended
    · rw [NetQW.log_trace, freedBuffers_log _ rfl]
      exact h.freed
    · rw [hlog]
      exact List.forall_mem_append.mpr ⟨h.departures, List.forall_mem_singleton.mpr hpacket⟩
    · exact fun _ _ heq => SendPc.noConfusion heq
    · exact h.ordinary
  exact hsent.silent hkeeps (.inl hpc')

/-- The number moves on. -/
theorem finish (h : SenderOf c t) (hpc : c.pc = .finish)
    (hfew : (QwNet.departures c.netqw.trace).length < 2 ^ 31) :
    SenderOf ⟨c.netqw.finishPacket, .loop⟩ t := by
  have htrace : c.netqw.finishPacket.trace
      = c.netqw.trace ++ [.sent c.netqw.currentOutgoingSequenceNumber] := rfl
  have hdepartures : QwNet.departures c.netqw.finishPacket.trace = QwNet.departures c.netqw.trace := by
    rw [htrace, departures_concat]
    exact List.append_nil _
  have hcurrent := h.current
  have hnext := h.next
  rw [hpc] at hcurrent hnext
  constructor
  · exact h.queue
  · exact h.sent
  · exact h.number
  · exact h.xor
  · rw [hdepartures]
    exact hnext
  · rw [hdepartures]
    -- so few packets have left that the number does not wrap
    have hmoved : (c.netqw.currentOutgoingSequenceNumber + 1#32).toNat
        = c.netqw.currentOutgoingSequenceNumber.toNat + 1 := by
      rw [BitVec.toNat_add]
      exact Nat.mod_eq_of_lt (by
        have hsum : c.netqw.currentOutgoingSequenceNumber.toNat + 1 = _ := hcurrent
        show c.netqw.currentOutgoingSequenceNumber.toNat + 1 < _
        omega)
    exact hmoved.trans hcurrent
  · rw [htrace, appendedBuffers_concat]
    exact (List.append_nil _).trans h.appended
  · rw [htrace, freedBuffers_log _ rfl]
    exact h.freed
  · rw [hdepartures]
    exact h.departures
  · exact fun _ _ heq => SendPc.noConfusion heq
  · exact h.ordinary

/-- What the receiver does is nothing to the sender. -/
theorem accept (h : SenderOf c t) (p : Packet ReliableBuffer) : SenderOf c (t.accept p) := by
  unfold Protocol.accept
  split
  · exact { h with }
  · exact h

end SenderOf

/-! ## The exchange as the protocol -/

/-- The client and the server are the parties of the protocol, and all that waits for the lag was
    sent by the server. -/
structure ExchangeOf (angle16 : BitVec 32 → BitVec 16) (e : Exchange) (t : Protocol ReliableBuffer) :
    Prop where
  reachable : (Client.system angle16).Reachable e.client
  sender : SenderOf e.client t
  high : e.server.incomingSequence.toNat = t.high
  bit : e.server.incomingReliableSequence = t.remoteBit
  delivered : e.server.delivered = t.delivered.flatMap ReliableBuffer.data
  replies : ∀ data ∈ e.replies, protocolReply data ∈ t.replies
  waiting : e.client.netqw.lagQueue.Items (· ∈ e.replies)

/-- Fewer than `2 ^ 31` packets were sent. -/
def Exchange.Few (e : Exchange) : Prop := (departures e.client.netqw.trace).length < 2 ^ 31

namespace ExchangeOf

variable {angle16 : BitVec 32 → BitVec 16} {e e' : Exchange} {t t' : Protocol ReliableBuffer}

/-- The client moves, and the receiver stays as it is. -/
theorem of_sender (h : ExchangeOf angle16 e t) {c' : Client}
    (hreachable : (Client.system angle16).Reachable c')
    (hwaiting : c'.netqw.lagQueue.Items (· ∈ e.replies)) (hsender : SenderOf c' t')
    (hsame : SameReceiver t t') : ExchangeOf angle16 { e with client := c' } t' where
  reachable := hreachable
  sender := hsender
  high := h.high.trans hsame.high.symm
  bit := h.bit.trans hsame.bit.symm
  delivered := by
    rw [hsame.delivered]
    exact h.delivered
  replies := by
    rw [hsame.replies]
    exact h.replies
  waiting := hwaiting

theorem client (h : ExchangeOf angle16 e t) {a : Action} {c' : Client}
    (hok : AppendsOrdinary (.client a) e) (hfrom : e.FromServer a)
    (hstep : Client.step angle16 a e.client = some c')
    (hfew : (departures c'.netqw.trace).length < 2 ^ 31) :
    ExchangeOf angle16 { e with client := c' } t ∨
      ∃ b t', t.step b = some t' ∧ ExchangeOf angle16 { e with client := c' } t' := by
  have haccepts : ∀ env source datagram, a = .receive env source datagram →
      ∀ data ∈ e.client.netqw.accepts? env source datagram, data ∈ e.replies := by
    rintro env source datagram rfl
    exact hfrom _ rfl
  have hreachable : (Client.system angle16).Reachable c' := .step h.reachable trivial hstep
  have hwaiting := Client.items_step h.waiting (Client.inboxSound h.reachable) haccepts hstep
  have hmoved : ∀ {t'}, SenderOf c' t' → SameReceiver t t' →
      ExchangeOf angle16 { e with client := c' } t' := h.of_sender hreachable hwaiting
  have hself : SameReceiver t t := ⟨rfl, rfl, rfl, rfl⟩
  -- each kind of step is one of the protocol's, or moves nothing in it
  cases Client.step_reliable hstep with
  | silent hkeeps hpc => exact .inl (hmoved (h.sender.silent hkeeps hpc) hself)
  | append b hview htrace hpc hb =>
    have hordinary : b.Ordinary := by
      rcases hb with rfl | ⟨-, rfl⟩
      · exact (hok b rfl)
      · exact ⟨by decide, by decide⟩
    exact .inr ⟨.append b, _, rfl,
      hmoved (h.sender.append hordinary hview htrace hpc) ⟨rfl, rfl, rfl, rfl⟩⟩
  | handle data hdata hpc hpc' hhandles =>
    -- whatever is handled was put on the wire by the server
    have hmem := h.replies data (Client.handling_items h.waiting haccepts hdata)
    obtain ⟨n, hn⟩ := List.mem_iff_getElem?.mp hmem
    refine .inr ⟨.settle n, t.settle (protocolReply data), ?_, ?_⟩
    · exact congrArg (Option.map _) hn
    · exact hmoved (h.sender.settle hhandles hpc hpc') (sameReceiver_settle t _)
  | remember buf hpc heq =>
    obtain ⟨b, t', hstep', hsame, hsender⟩ :=
      h.sender.remember (Client.numbered h.reachable) hpc
    exact .inr ⟨b, t', hstep', hmoved (heq ▸ hsender) hsame⟩
  | submit buf reliable hpc hpc' hkeeps =>
    exact .inl (hmoved (h.sender.submit hpc hpc' hkeeps hfew) hself)
  | finish hpc heq =>
    have hbefore : (departures e.client.netqw.trace).length < 2 ^ 31 := by
      have htrace : e.client.netqw.finishPacket.trace
          = e.client.netqw.trace ++ [.sent e.client.netqw.currentOutgoingSequenceNumber] := rfl
      rw [heq] at hfew
      rw [htrace, departures_concat, List.length_append] at hfew
      exact Nat.lt_of_le_of_lt (Nat.le_add_right _ _) hfew
    exact .inl (hmoved (heq ▸ h.sender.finish hpc hbefore) hself)

/-- A packet arrives at the server. -/
theorem process (h : ExchangeOf angle16 e t) {p : List Byte × List ReliableBuffer}
    (hp : p ∈ departures e.client.netqw.trace) : ∃ b t', t.step b = some t' ∧
      ExchangeOf angle16 { e with server := e.server.process p.1 } t' := by
  obtain ⟨hmem, hflag, hordinary⟩ := h.sender.departures p hp
  obtain ⟨n, hn⟩ := List.mem_iff_getElem?.mp hmem
  refine ⟨.accept n, t.accept (protocolPacket p), congrArg (Option.map _) hn, ?_⟩
  have hsender := h.sender.accept (protocolPacket p)
  unfold Protocol.accept at hsender ⊢
  -- the server drops by machine words what the protocol drops by numbers
  have hstale : sequenceOf p.1 ≤ e.server.incomingSequence ↔ ¬t.high < (protocolPacket p).number := by
    rw [← h.high, Nat.not_lt]
    exact BitVec.le_def
  unfold Server.process
  by_cases hle : sequenceOf p.1 ≤ e.server.incomingSequence
  · rw [if_neg (hstale.mp hle)] at hsender ⊢
    rw [if_pos hle]
    exact h
  · rw [if_pos (not_not.mp (mt hstale.mpr hle))] at hsender ⊢
    rw [if_neg hle]
    refine ⟨h.reachable, hsender, rfl, ?_, ?_, h.replies, h.waiting⟩
    · show (if isReliable p.1 then !e.server.incomingReliableSequence
        else e.server.incomingReliableSequence) = if p.2 = [] then t.remoteBit else !t.remoteBit
      rw [h.bit]
      by_cases hnone : p.2 = []
      · rw [if_pos hnone, if_neg fun hreliable => hflag.mp hreliable hnone]
      · rw [if_neg hnone, if_pos (hflag.mpr hnone)]
    · -- what the server reads in the packet are the commands that were copied into it
      have hcommands := Client.commandBytes_departure h.reachable hp hordinary
      show (if isReliable p.1 then e.server.delivered ++ commandBytes p.1 else e.server.delivered)
        = (t.delivered ++ p.2).flatMap ReliableBuffer.data
      rw [h.delivered, hcommands, List.flatMap_append]
      by_cases hnone : p.2 = []
      · rw [if_neg fun hreliable => hflag.mp hreliable hnone, hnone, List.flatMap_nil,
          List.append_nil]
      · rw [if_pos (hflag.mpr hnone)]

/-- The server sends a packet. -/
theorem reply (h : ExchangeOf angle16 e t) {data : List Byte} (hdata : e.server.MaySend data) :
    ∃ b t', t.step b = some t' ∧
      ExchangeOf angle16 { e with replies := e.replies ++ [data] } t' := by
  obtain ⟨hacknowledge, hbit, hle⟩ := hdata
  have hnumber : (sequenceOf data).toNat ≤ t.high := by
    rw [← h.high, ← hacknowledge]
    exact BitVec.le_def.mp hle
  refine ⟨.reply (sequenceOf data).toNat, t.reply (sequenceOf data).toNat, if_pos hnumber, ?_⟩
  refine ⟨h.reachable, { h.sender with }, h.high, h.bit, h.delivered, ?_, ?_⟩
  · show ∀ x ∈ e.replies ++ [data], protocolReply x ∈ t.replies ++
      [⟨(sequenceOf data).toNat, t.high, t.remoteBit⟩]
    refine List.forall_mem_append.mpr ⟨fun x hx => List.mem_append_left _ (h.replies x hx), ?_⟩
    refine List.forall_mem_singleton.mpr (List.mem_append_right _ (List.mem_singleton.mpr ?_))
    rw [protocolReply, hacknowledge, h.high, hbit, h.bit]
  · exact ⟨fun x hx => List.mem_append_left _ (h.waiting.waiting x hx),
      fun x hx => List.mem_append_left _ (h.waiting.handled x hx)⟩

/-- Every step of the exchange is a step of the protocol, or none. -/
theorem step (h : ExchangeOf angle16 e t) {a : ExchangeAction} (hok : AppendsOrdinary a e)
    (hstep : Exchange.step angle16 a e = some e') (hfew : e'.Few) :
    ExchangeOf angle16 e' t ∨ ∃ b t', t.step b = some t' ∧ ExchangeOf angle16 e' t' := by
  cases a with
  | client a =>
    obtain ⟨hfrom, hstep⟩ := Option.ite_none_right_eq_some.mp hstep
    obtain ⟨c', hc', rfl⟩ := Option.map_eq_some_iff.mp hstep
    exact h.client hok hfrom hc' hfew
  | process n =>
    obtain ⟨p, hp, rfl⟩ := Option.map_eq_some_iff.mp hstep
    exact .inr (h.process (List.mem_of_getElem? hp))
  | reply data =>
    obtain ⟨hdata, hstep⟩ := Option.ite_none_right_eq_some.mp hstep
    obtain rfl := Option.some.inj hstep
    exact .inr (h.reply hdata)

end ExchangeOf

/-! ## The commands that arrive -/

/-- Packets that were sent stay sent. -/
theorem Exchange.few_of_step {angle16 : BitVec 32 → BitVec 16} {a : ExchangeAction} {e e' : Exchange}
    (h : Exchange.step angle16 a e = some e') (hfew : e'.Few) : e.Few := by
  cases a with
  | client a =>
    obtain ⟨-, hstep⟩ := Option.ite_none_right_eq_some.mp h
    obtain ⟨c', hc', rfl⟩ := Option.map_eq_some_iff.mp hstep
    have hprefix := Client.departures_grow hc'
    exact Nat.lt_of_le_of_lt hprefix.length_le hfew
  | process n =>
    obtain ⟨p, -, rfl⟩ := Option.map_eq_some_iff.mp h
    exact hfew
  | reply data =>
    obtain ⟨-, hstep⟩ := Option.ite_none_right_eq_some.mp h
    obtain rfl := Option.some.inj hstep
    exact hfew

/-- Both sides begin as those of the protocol do. -/
theorem exchangeOf_init {angle16 : BitVec 32 → BitVec 16} {e : Exchange}
    (h : (Exchange.system angle16).Init e) : ∃ t, (AlternatingBit.system ReliableBuffer).Init t ∧
      ExchangeOf angle16 e t := by
  obtain ⟨client, server, replies⟩ := e
  obtain ⟨hinit, rfl, rfl⟩ := h
  have hreachable : (Client.system angle16).Reachable client := .init hinit
  obtain ⟨garbage, qport, userinfo, addr, rfl⟩ := hinit
  refine ⟨_, ⟨garbage.reliableSequenceNumber.toNat, rfl⟩, hreachable, ?_, rfl, rfl, rfl, nofun, ?_⟩
  · exact ⟨rfl, rfl, rfl, rfl, rfl, rfl, rfl, rfl, nofun, nofun, nofun⟩
  · exact ⟨nofun, nofun⟩

/-- The bytes are those of the first commands appended, in order and each once, with all that were
    freed among them. -/
def Delivers (bytes : List Byte) (freed appended : List ReliableBuffer) : Prop :=
  ∃ bs : List ReliableBuffer, bytes = bs.flatMap ReliableBuffer.data ∧ freed <+: bs ∧ bs <+: appended

/-- What was delivered to the server. -/
theorem ExchangeOf.delivers {angle16 : BitVec 32 → BitVec 16} {e : Exchange}
    {t : Protocol ReliableBuffer} (h : ExchangeOf angle16 e t)
    (ht : (AlternatingBit.system ReliableBuffer).Reachable t) :
    Delivers e.server.delivered (freedBuffers e.client.netqw.trace)
        (appendedBuffers e.client.netqw.trace) ∧
      appendedBuffers e.client.netqw.trace
        = freedBuffers e.client.netqw.trace ++ e.client.netqw.reliableQueue := by
  obtain ⟨hfreed, happended, horder⟩ := AlternatingBit.delivered_of_reachable ht
  rw [h.sender.freed, h.sender.appended, h.sender.queue]
  exact ⟨⟨t.delivered, h.delivered, hfreed, happended⟩, horder⟩

/-- The server has the commands in the order they were appended in, each of them once, and only
    what it has is freed. -/
theorem exchange_delivered (angle16 : BitVec 32 → BitVec 16) {e : Exchange}
    (h : (Exchange.system angle16).Reaches AppendsOrdinary e) (hfew : e.Few) :
    Delivers e.server.delivered (freedBuffers e.client.netqw.trace)
        (appendedBuffers e.client.netqw.trace) ∧
      appendedBuffers e.client.netqw.trace
        = freedBuffers e.client.netqw.trace ++ e.client.netqw.reliableQueue := by
  have halways := h.always (P := Exchange.Few) (fun _ _ _ => Exchange.few_of_step) hfew
  obtain ⟨t, ht, hof⟩ := Transitions.Reaches.simulated (fun _ => exchangeOf_init)
    (fun _ _ s' _ hof hok hstep => hof.step hok.1 hstep (hok.2 s' hstep)) halways
  exact hof.delivers ht

/-! ## The loop that frees commands -/

/-- The client is part of the exchange. -/
def Exchange.host (angle16 : BitVec 32 → BitVec 16) : Host angle16 Exchange ExchangeAction where
  system := Exchange.system angle16
  client := Exchange.client
  update f e := { e with client := e.client.update f }
  ofNetworkThread
    | .client a => a.ofNetworkThread
    | .process _ | .reply _ => false
  appended? a _ := a.appended?
  init _ h := h.1
  client_update _ _ := rfl
  step := by
    intro a e e' hstep
    cases a with
    | client a =>
      obtain ⟨-, hstep⟩ := Option.ite_none_right_eq_some.mp hstep
      obtain ⟨c', hc', rfl⟩ := Option.map_eq_some_iff.mp hstep
      exact .inr ⟨a, hc', rfl, id⟩
    | process n =>
      obtain ⟨p, -, rfl⟩ := Option.map_eq_some_iff.mp hstep
      exact .inl ⟨rfl, rfl⟩
    | reply data =>
      obtain ⟨-, hstep⟩ := Option.ite_none_right_eq_some.mp hstep
      obtain rfl := Option.some.inj hstep
      exact .inl ⟨rfl, rfl⟩

/-- What is still to be freed may be left out. -/
theorem Delivers.of_freed {bytes : List Byte} {freed freed' unfreed appended : List ReliableBuffer}
    (h : Delivers bytes freed appended) (hfreed : freed = freed' ++ unfreed) :
    Delivers bytes freed' appended := by
  obtain ⟨bs, hbytes, hprefix, happended⟩ := h
  exact ⟨bs, hbytes, (hfreed ▸ List.prefix_append _ _ : freed' <+: freed).trans hprefix, happended⟩

/-- In every run in which no command is appended while the tail is dangling, the server has the
    commands in the order they were appended in, each of them once, and only what it has is
    freed. -/
theorem reliables_delivered (angle16 : BitVec 32 → BitVec 16) {s : Racing Exchange}
    (h : (Racing.system (Exchange.host angle16)).Reaches
      (RacingOk (Exchange.host angle16) AppendsOrdinary) s) (hfew : s.base.Few) :
    Delivers s.base.server.delivered s.freed (appendedBuffers s.base.client.netqw.trace) ∧
      appendedBuffers s.base.client.netqw.trace = s.freed ++ s.queue (Exchange.host angle16) := by
  obtain ⟨hbase, hfreed⟩ := Racing.base_of_reaches h
  obtain ⟨hdelivers, horder⟩ := exchange_delivered angle16 hbase hfew
  exact ⟨hdelivers.of_freed hfreed, Racing.order_of_freed hfreed horder⟩

namespace Exchange

/-- A client that was just created, and a server that has heard nothing. -/
def fresh : Racing Exchange := ⟨⟨Client.fresh, ⟨0#32, false, []⟩, []⟩, .outside, []⟩

/-- A string command of one letter. -/
def command (letter : Byte) : ReliableBuffer :=
  ⟨[4, letter, 0], Nat.lt_trans (Nat.lt_succ_self 3) (by decide)⟩

/-- The client sends `n` packets. -/
def sends (now : BitVec 64) (n : Nat) : List (RacingAction ExchangeAction) :=
  (Client.sendRun now n).map fun a => .base (.client a)

/-- The packet with `new` arrives twice, and then the server's answer arrives. -/
def answeredRun (before : List (RacingAction ExchangeAction)) :
    List (RacingAction ExchangeAction) :=
  (Client.handshake.map fun a => .base (.client a)) ++ sends 14000#64 1 ++
    [.base (.process 0), .base (.process 0), .base (.reply [1, 0, 0, 0, 1, 0, 0, 0x80])] ++
    before ++ [.base (.client (Client.arrives 60000#64 [1, 0, 0, 0, 1, 0, 0, 0x80]))]

/-- One command is appended before the answer arrives and another before `new` is freed.  The next
    packet brings both to the server. -/
def appendedRun : List (RacingAction ExchangeAction) :=
  answeredRun [.base (.client (.append (command 97)))] ++
    [.base (.client (.append (command 98))), .free, .repair] ++ sends 28000#64 1 ++
    [.base (.process 1)]

/-- The only command has been freed when another is appended, and one more is appended behind the
    repair of the tail. -/
def lostRun : List (RacingAction ExchangeAction) :=
  answeredRun [] ++
    [.free, .base (.client (.append (command 97))), .repair,
      .base (.client (.append (command 98)))] ++ sends 28000#64 1 ++ [.base (.process 1)]

end Exchange

/-- Both commands reach the server behind `new`. -/
theorem reliables_delivered_appended : ∃ s, (Racing.system (Exchange.host fun _ => 0)).runOk
      (RacingOk (Exchange.host fun _ => 0) AppendsOrdinary) Exchange.appendedRun Exchange.fresh
        = some s ∧
    s.base.server.delivered = NetQW.newCommand.data ++ [4, 97, 0] ++ [4, 98, 0] ∧
    s.freed.map (·.data) = [NetQW.newCommand.data] ∧
    Delivers s.base.server.delivered s.freed (appendedBuffers s.base.client.netqw.trace) ∧
    appendedBuffers s.base.client.netqw.trace
      = s.freed ++ s.queue (Exchange.host fun _ => 0) := by
  have heq : ((Racing.system (Exchange.host fun _ => 0)).runOk
      (RacingOk (Exchange.host fun _ => 0) AppendsOrdinary) Exchange.appendedRun
      Exchange.fresh).map (fun s => (s.base.server.delivered, s.freed.map (·.data),
        (departures s.base.client.netqw.trace).length))
        = some (NetQW.newCommand.data ++ [4, 97, 0] ++ [4, 98, 0], [NetQW.newCommand.data], 2) := by
    decide +kernel
  obtain ⟨s, hrun, hread⟩ := Option.map_eq_some_iff.mp heq
  simp only [Prod.mk.injEq] at hread
  obtain ⟨hdelivered, hfreed, hsent⟩ := hread
  have hfew : s.base.Few := by
    rw [Exchange.Few, hsent]
    decide
  have hinit : (Racing.system (Exchange.host fun _ => 0)).Init Exchange.fresh :=
    ⟨⟨⟨_, _, _, _, rfl⟩, rfl, rfl⟩, rfl, rfl⟩
  have hreaches := Transitions.Reaches.runOk (.init hinit) hrun
  exact ⟨s, hrun, hdelivered, hfreed, reliables_delivered _ hreaches hfew⟩

/-- A command that is appended while the tail is dangling never reaches the server, and one behind
    it does. -/
theorem reliables_not_delivered : ∃ s, (Racing.system (Exchange.host fun _ => 0)).run
      Exchange.lostRun Exchange.fresh = some s ∧ s.base.Few ∧
    (∀ b ∈ appendedBuffers s.base.client.netqw.trace, b.Ordinary) ∧
    s.base.server.delivered = NetQW.newCommand.data ++ [4, 98, 0] ∧
    (appendedBuffers s.base.client.netqw.trace).map (·.data)
      = [NetQW.newCommand.data, [4, 97, 0], [4, 98, 0]] ∧
    ¬Delivers s.base.server.delivered s.freed (appendedBuffers s.base.client.netqw.trace) := by
  have heq : ((Racing.system (Exchange.host fun _ => 0)).run Exchange.lostRun
      Exchange.fresh).map (fun s => (s.base.server.delivered,
        (appendedBuffers s.base.client.netqw.trace).map (·.data),
        (departures s.base.client.netqw.trace).length))
        = some (NetQW.newCommand.data ++ [4, 98, 0],
          [NetQW.newCommand.data, [4, 97, 0], [4, 98, 0]], 2) := by
    decide +kernel
  obtain ⟨s, hrun, hread⟩ := Option.map_eq_some_iff.mp heq
  simp only [Prod.mk.injEq] at hread
  obtain ⟨hdelivered, happended, hsent⟩ := hread
  refine ⟨s, hrun, ?_, fun b hb => ?_, hdelivered, happended, ?_⟩
  · rw [Exchange.Few, hsent]
    decide
  · have hdata : b.data ∈ [NetQW.newCommand.data, [4, 97, 0], [4, 98, 0]] :=
      happended ▸ List.mem_map_of_mem hb
    have hall : ∀ data ∈ [NetQW.newCommand.data, [4, 97, 0], [4, 98, 0]],
        data.head? = some 4#8 ∧ data.length < 2 ^ 31 := by
      decide
    exact hall b.data hdata
  · rintro ⟨bs, hbytes, -, hprefix⟩
    have hdata : bs.map (·.data) ∈ [NetQW.newCommand.data, [4, 97, 0], [4, 98, 0]].inits :=
      (List.mem_inits _ _).mpr (happended ▸ hprefix.map _)
    have hnever : ∀ datas ∈ [NetQW.newCommand.data, [4, 97, 0], [4, 98, 0]].inits,
        NetQW.newCommand.data ++ [4, 98, 0] ≠ datas.flatten := by
      decide
    exact hnever _ hdata (hdelivered.symm.trans (hbytes.trans List.flatMap_def))

end QwNet
