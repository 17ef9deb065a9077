/-
  QwNet.Channel.Downlink

  What the server sends reliably, over a network that loses, repeats and reorders.

  The server is a channel of net_chan.c.  It writes a stream of bytes to its reliable
  message; the network may bring its packets to the client, and those of the client to
  it, at any time and as often as it wants.  The client does not look at the reliable
  bytes: it counts the packets that have some, and appends every packet that it accepts
  to the client packet queue.
-/
import QwNet.Channel.Netchan
import QwNet.Channel.Header
import QwNet.Lib.StopAndWait

namespace QwNet

open StopAndWait

/-! ## The parties and the network -/

/-- The parties, the packets the server ever sent with the reliable bytes in them, and what was
    written to its reliable message.  The packets of the client are in its trace. -/
structure Downlink where
  client : Client
  server : ServerNetchan
  packets : List (List Byte × List Byte)
  written : List Byte

/-- A step of the client, or of the server: bytes are written to the reliable message, a packet
    is sent, and packet `n` of the client arrives. -/
inductive DownlinkAction where
  | client (a : Action)
  | write (data : List Byte)
  | transmit (data : List Byte)
  | process (n : Nat)

/-- A step of the network thread of the client. -/
def DownlinkAction.ofNetworkThread : DownlinkAction → Bool
  | .client a => a.ofNetworkThread
  | .write _ | .transmit _ | .process _ => false

/-- The command that another thread of the client appends. -/
def DownlinkAction.appended? : DownlinkAction → Option ReliableBuffer
  | .client a => a.appended?
  | .write _ | .transmit _ | .process _ => none

namespace Downlink

/-- What the client takes for a packet of the server is one. -/
def FromServer (a : Action) (e : Downlink) : Prop :=
  ∀ arrival ∈ a.arrival?, ∀ data ∈ e.client.netqw.accepts? arrival.1 arrival.2.1 arrival.2.2,
    data ∈ e.packets.map Prod.fst

instance (a : Action) (e : Downlink) : Decidable (e.FromServer a) :=
  inferInstanceAs (Decidable (∀ arrival ∈ a.arrival?, ∀ data ∈ _, _))

/-- What an action does; `none` where it is not possible.  A server that writes more than
    fits into its message has given up the channel. -/
def step (angle16 : BitVec 32 → BitVec 16) (io : SizebufOps) (a : DownlinkAction) (e : Downlink) :
    Option Downlink :=
  match a with
  | .client a =>
    if e.FromServer a then (Client.step angle16 a e.client).map fun c => { e with client := c }
    else none
  | .write data =>
    if e.server.messageBuf.length + data.length ≤ 1450 then
      some { e with server := e.server.writeMessage data, written := e.written ++ data }
    else none
  | .transmit data =>
    let r := e.server.transmit io data
    some { e with server := r.1, packets := e.packets ++ r.2.toList }
  | .process n =>
    (departures e.client.netqw.trace)[n]?.map fun p => { e with server := e.server.process p.1 }

/-- A client that was just created, and a channel that was just set up. -/
def system (angle16 : BitVec 32 → BitVec 16) (io : SizebufOps) :
    Transitions Downlink DownlinkAction where
  Init e := e.client.Init ∧ e.server = .setup ∧ e.packets = [] ∧ e.written = []
  step := step angle16 io

/-- The packets that the client accepted are the server's, with their reliable bytes right behind
    the header.  These are the bytes that were written, in order and each once, without those at
    the end that the server still has. -/
def Arrived (e : Downlink) : Prop :=
  ∃ qs : List (List Byte × List Byte), accepted e.client.netqw.trace = qs.map Prod.fst ∧
    (∀ q ∈ qs, q ∈ e.packets ∧ q.2 <+: q.1.drop 8) ∧ qs.flatMap Prod.snd <+: e.written ∧
    ∃ settled, settled <+: qs.flatMap Prod.snd ∧
      e.written = settled ++ e.server.reliableBuf ++ e.server.messageBuf

/-- A step is one of the client, or leaves it alone. -/
theorem step_client {angle16 : BitVec 32 → BitVec 16} {io : SizebufOps} {a : DownlinkAction}
    {e e' : Downlink} (h : step angle16 io a e = some e') :
    (e'.client = e.client ∧ a.appended? = none) ∨
    ∃ b, Client.step angle16 b e.client = some e'.client ∧ b.appended? = a.appended? ∧
      (b.ofNetworkThread = true → a.ofNetworkThread = true) := by
  cases a with
  | client a =>
    obtain ⟨-, h⟩ := Option.ite_none_right_eq_some.mp h
    obtain ⟨c', hc', rfl⟩ := Option.map_eq_some_iff.mp h
    exact .inr ⟨a, hc', rfl, id⟩
  | write data =>
    obtain ⟨-, h⟩ := Option.ite_none_right_eq_some.mp h
    obtain rfl := Option.some.inj h
    exact .inl ⟨rfl, rfl⟩
  | transmit data =>
    obtain rfl := Option.some.inj h
    exact .inl ⟨rfl, rfl⟩
  | process n =>
    obtain ⟨p, -, rfl⟩ := Option.map_eq_some_iff.mp h
    exact .inl ⟨rfl, rfl⟩

/-- Fewer than `2 ^ 31` packets were sent by either side. -/
def Few (e : Downlink) : Prop :=
  (departures e.client.netqw.trace).length < 2 ^ 31 ∧ e.packets.length < 2 ^ 31

end Downlink

/-- Nothing overtakes the packets that wait for the lag. -/
def DownlinkOk (a : DownlinkAction) (e : Downlink) : Prop :=
  match a with
  | .client a => LagOk a e.client
  | .write _ | .transmit _ | .process _ => True

instance (a : DownlinkAction) (e : Downlink) : Decidable (DownlinkOk a e) :=
  match a with
  | .client a => inferInstanceAs (Decidable (LagOk a e.client))
  | .write _ | .transmit _ | .process _ => instDecidableTrue

/-! ## The parties of the protocol -/

/-- A packet of the server, as the protocol has it. -/
def portionPacket (p : List Byte × List Byte) : Packet Byte :=
  ⟨(sequenceOf p.1).toNat, isReliable p.1, p.2⟩

/-- The bit that counts portions. -/
def countBit (n : Nat) : BitVec 32 := BitVec.ofNat 32 (n % 2)

theorem countBit_succ (n : Nat) : countBit n ^^^ 1#32 = countBit (n + 1) := by
  unfold countBit
  rcases Nat.mod_two_eq_zero_or_one n with hmod | hmod
  · rw [Nat.add_mod, hmod]
    decide
  · rw [Nat.add_mod, hmod]
    decide

theorem countBit_eq_iff (m n : Nat) : countBit m = countBit n ↔ m % 2 = n % 2 := by
  have hlt : ∀ n, n % 2 < 2 ^ 32 := fun n => Nat.lt_trans (Nat.mod_lt n (by decide)) (by decide)
  unfold countBit
  rw [BitVec.toNat_eq, BitVec.toNat_ofNat, BitVec.toNat_ofNat, Nat.mod_eq_of_lt (hlt m),
    Nat.mod_eq_of_lt (hlt n)]

/-- A packet of the server has its header, and the reliable bytes behind it. -/
structure Framed (p : List Byte × List Byte) : Prop where
  long : 8 ≤ p.1.length
  short : p.1.length ≤ sendMaxsize
  portion : p.2 <+: p.1.drop 8

/-- `Netchan_Transmit` builds such packets. -/
theorem ServerNetchan.framed_packet {io : SizebufOps} (hio : io.Lawful) {chan : ServerNetchan}
    (hfits : chan.reliableBuf.length ≤ 1450) (reliable : Bool) (data : List Byte) :
    Framed (chan.packet io reliable data, if reliable then chan.reliableBuf else []) := by
  obtain ⟨bytes, bytes', rest, heq, hlength, -, hlength', -, hshort⟩ :=
    chan.packet_eq hio hfits reliable data
  refine ⟨?_, hshort, ?_⟩
  · show 8 ≤ (chan.packet io reliable data).length
    rw [heq, List.length_append, List.length_append]
    omega
  · show _ <+: (chan.packet io reliable data).drop 8
    rw [heq, ← List.append_assoc, List.drop_append_of_le_length (by rw [List.length_append]; omega),
      List.drop_eq_nil_of_le (by rw [List.length_append]; omega), List.nil_append]
    exact List.prefix_append _ _

/-- The channel of the server is the sender of the protocol. -/
structure SenderChannel (chan : ServerNetchan) (t : Channel Byte) : Prop where
  message : chan.messageBuf = t.message
  portion : chan.reliableBuf = t.portion
  message_le : chan.messageBuf.length ≤ 1450
  portion_le : chan.reliableBuf.length ≤ 1450
  overflowed : chan.overflowed = false
  bit : chan.reliableSequence = countBit t.count
  last : chan.lastReliableSequence.toNat = t.lastReliable
  last_le : t.lastReliable ≤ t.next
  next : chan.outgoingSequence.toNat = t.next
  seen : chan.incomingSequence.toNat = t.seen
  acknowledged : chan.incomingAcknowledged.toNat = t.acknowledged
  acknowledgedBit : chan.incomingReliableAcknowledged = countBit t.acknowledgedCount

namespace SenderChannel

variable {chan : ServerNetchan} {t : Channel Byte}

/-- The resend test compares machine words as it should. -/
theorem dropped_iff (h : SenderChannel chan t) (hsound : Sound t) (hfew : t.next < 2 ^ 31) :
    chan.Dropped ↔ t.Lost := by
  have hacknowledged : t.acknowledged < 2 ^ 31 :=
    Nat.lt_of_le_of_lt (Nat.le_trans hsound.stored.1 hsound.high_le) hfew
  have hlast : t.lastReliable < 2 ^ 31 := Nat.lt_of_le_of_lt h.last_le hfew
  have hslt : chan.lastReliableSequence.slt chan.incomingAcknowledged = true ↔
      t.lastReliable < t.acknowledged := by
    have hsmall : ∀ {x : BitVec 32} {n : Nat}, x.toNat = n → n < 2 ^ 31 → x.toInt = n := by
      intro x n hx hn
      rw [BitVec.toInt_eq_toNat_of_lt (by omega), hx]
    rw [BitVec.slt_iff_toInt_lt, hsmall h.last hlast, hsmall h.acknowledged hacknowledged]
    omega
  unfold ServerNetchan.Dropped Channel.Lost
  rw [hslt, h.acknowledgedBit, h.bit, ne_eq, countBit_eq_iff]

theorem pending_iff (h : SenderChannel chan t) : chan.Pending ↔ t.Ready := by
  unfold ServerNetchan.Pending Channel.Ready
  rw [h.message, h.portion]

/-- The message is copied out as the next portion begins. -/
theorem copyMessage (h : SenderChannel chan t) :
    SenderChannel chan.copyMessage (if t.Ready then t.begin else t) := by
  unfold ServerNetchan.copyMessage
  by_cases hready : t.Ready
  · rw [if_pos (h.pending_iff.mpr hready), if_pos hready]
    refine { h with
      message := rfl
      portion := h.message
      message_le := Nat.zero_le _
      portion_le := h.message_le
      bit := ?_ }
    show chan.reliableSequence ^^^ 1#32 = countBit (t.count + 1)
    rw [h.bit, countBit_succ]
  · rw [if_neg (mt h.pending_iff.mp hready), if_neg hready]
    exact h

/-- A packet is sent. -/
theorem advance (h : SenderChannel chan t) (hfew : t.next + 1 < 2 ^ 32) (reliable : Bool) :
    SenderChannel (chan.advance reliable) (t.send reliable) := by
  have hnext : (chan.outgoingSequence + 1#32).toNat = t.next + 1 := by
    rw [BitVec.toNat_add, h.next]
    exact Nat.mod_eq_of_lt hfew
  refine { h with next := hnext, last := ?_, last_le := ?_ }
  · show (if reliable then chan.outgoingSequence + 1#32 else chan.lastReliableSequence).toNat
      = if reliable then t.next + 1 else t.lastReliable
    cases reliable with
    | true => exact hnext
    | false => exact h.last
  · show (if reliable then t.next + 1 else t.lastReliable) ≤ t.next + 1
    split
    · exact Nat.le_refl _
    · exact Nat.le_succ_of_le h.last_le

/-- `Netchan_Transmit` sends what the protocol sends. -/
theorem transmit {io : SizebufOps} (hio : io.Lawful) (h : SenderChannel chan t)
    (hsound : Sound t) (hfew : t.next + 1 < 2 ^ 31) (data : List Byte) : ∃ chan' p,
      chan.transmit io data = (chan', some p) ∧ SenderChannel chan' t.transmit ∧
      t.transmit.packets = t.packets ++ [portionPacket p] ∧
      (sequenceOf p.1).toNat = t.next ∧ (isReliable p.1 = false → p.2 = []) ∧ Framed p := by
  have hcopy := h.copyMessage
  have hreliable : chan.sendReliable = (decide t.Ready || decide t.Lost) := by
    unfold ServerNetchan.sendReliable
    rw [decide_eq_decide.mpr (h.dropped_iff hsound (by omega)), decide_eq_decide.mpr h.pending_iff,
      Bool.or_comm]
  have hsend : t.transmit = (if t.Ready then t.begin else t).send chan.sendReliable := by
    unfold Channel.transmit
    rw [hreliable]
    by_cases hready : t.Ready
    · rw [if_pos hready, if_pos hready, decide_eq_true hready, Bool.true_or]
    · rw [if_neg hready, if_neg hready, decide_eq_false hready, Bool.false_or]
  have hsame : (if t.Ready then t.begin else t).next = t.next ∧
      (if t.Ready then t.begin else t).packets = t.packets := by
    split
    · exact ⟨rfl, rfl⟩
    · exact ⟨rfl, rfl⟩
  have hnumber : chan.copyMessage.outgoingSequence.toNat = t.next := hcopy.next.trans hsame.1
  obtain ⟨hsequence, hflag⟩ := ServerNetchan.packet_spec hio hcopy.portion_le (by omega)
    chan.sendReliable data
  refine ⟨_, _, if_neg (by rw [h.overflowed]; exact Bool.false_ne_true), ?_, ?_, ?_, ?_,
    ServerNetchan.framed_packet hio hcopy.portion_le _ _⟩
  · rw [hsend]
    exact hcopy.advance (by rw [hsame.1]; omega) _
  · rw [hsend]
    show (if t.Ready then t.begin else t).packets ++ [_] = _
    rw [hsame.2, portionPacket, hsequence, hflag, hnumber, hsame.1, hcopy.portion]
  · rw [hsequence, hnumber]
  · rw [hflag]
    intro hfalse
    rw [hfalse]
    rfl

/-- A packet of the client says what the reply of the protocol does. -/
structure Acknowledges (data : List Byte) (r : Reply) : Prop where
  long : 8 ≤ data.length
  number : (sequenceOf data).toNat = r.number
  acknowledge : (acknowledgeOf data).toNat = r.acknowledge
  bit : acknowledgeBit data = decide (r.count % 2 = 1)

/-- `Netchan_Process` hears what the protocol does. -/
theorem process (h : SenderChannel chan t) {data : List Byte} {r : Reply}
    (hdata : Acknowledges data r) : SenderChannel (chan.process data) (t.process r) := by
  have hread : ∀ i, i + 4 ≤ 8 → serverReadLong data i = readLong (fun i => data.getD i 0) i :=
    fun i hi => if_neg (Nat.not_lt.mpr (Nat.le_trans hi hdata.long))
  have hsequence : serverReadLong data 0 &&& 0x7fffffff#32 = sequenceOf data := by
    rw [hread 0 (by decide), ← number31_eq]
    rfl
  have hacknowledge : serverReadLong data 4 &&& 0x7fffffff#32 = acknowledgeOf data := by
    rw [hread 4 (by decide), ← number31_eq]
    rfl
  have hbit : serverReadLong data 4 >>> 31 = countBit r.count := by
    rw [hread 4 (by decide), ushiftRight_31, ← topBit_eq]
    show (if acknowledgeBit data = true then 1#32 else 0#32) = countBit r.count
    rw [hdata.bit, countBit]
    rcases Nat.mod_two_eq_zero_or_one r.count with hmod | hmod
    · rw [hmod]
      rfl
    · rw [hmod]
      rfl
  have hstale : sequenceOf data ≤ chan.incomingSequence ↔ ¬t.seen < r.number := by
    rw [← h.seen, ← hdata.number, Nat.not_lt]
    exact BitVec.le_def
  have hright : countBit r.count = chan.reliableSequence ↔ r.count % 2 = t.count % 2 := by
    rw [h.bit, countBit_eq_iff]
  unfold ServerNetchan.process Channel.process
  dsimp only
  rw [hsequence, hacknowledge, hbit]
  by_cases hle : sequenceOf data ≤ chan.incomingSequence
  · rw [if_pos hle, if_neg (hstale.mp hle)]
    exact h
  · rw [if_neg hle, if_pos (not_not.mp (mt hstale.mpr hle))]
    refine { h with
      portion := ?_
      portion_le := ?_
      seen := hdata.number
      acknowledged := hdata.acknowledge
      acknowledgedBit := rfl }
    · show (if countBit r.count = chan.reliableSequence then [] else chan.reliableBuf)
        = if r.count % 2 = t.count % 2 then [] else t.portion
      rw [if_congr hright rfl h.portion]
    · show (if countBit r.count = chan.reliableSequence then [] else chan.reliableBuf).length ≤ 1450
      split
      · exact Nat.zero_le _
      · exact h.portion_le

end SenderChannel

/-! ## The client as the receiver -/

/-- The packets of the server are numbered, and have reliable bytes if they say so. -/
structure NumberedPackets (packets : List (List Byte × List Byte)) : Prop where
  number : ∀ n p, packets[n]? = some p → (sequenceOf p.1).toNat = n
  plain : ∀ p ∈ packets, isReliable p.1 = false → p.2 = []

section

variable {packets : List (List Byte × List Byte)} {p : List Byte × List Byte}

theorem NumberedPackets.concat (h : NumberedPackets packets)
    (hnumber : (sequenceOf p.1).toNat = packets.length)
    (hplain : isReliable p.1 = false → p.2 = []) : NumberedPackets (packets ++ [p]) := by
  refine ⟨fun n p' hp' => ?_, List.forall_mem_append.mpr ⟨h.plain, ?_⟩⟩
  · rcases Nat.lt_or_ge n packets.length with hlt | hge
    · rw [List.getElem?_append_left hlt] at hp'
      exact h.number n p' hp'
    · rw [List.getElem?_append_right hge, List.getElem?_singleton] at hp'
      obtain ⟨hzero, heq⟩ := Option.ite_none_right_eq_some.mp hp'
      obtain rfl := Option.some.inj heq
      omega
  · exact List.forall_mem_singleton.mpr hplain

/-- The reliable bytes that were noted with a packet of the server.  They are in the packet
    (`Framed`), whose bytes do not say where they end. -/
def reliableOf (packets : List (List Byte × List Byte)) (data : List Byte) : List Byte :=
  ((packets.find? fun p => p.1 = data).map Prod.snd).getD []

theorem find_packet {data : List Byte} (hdata : data ∈ packets.map Prod.fst) :
    ∃ p, packets.find? (fun p => p.1 = data) = some p ∧ p ∈ packets ∧ p.1 = data := by
  obtain ⟨p, hp, rfl⟩ := List.mem_map.mp hdata
  have hfound : (packets.find? fun p' => p'.1 = p.1).isSome := by
    rw [List.find?_isSome]
    exact ⟨p, hp, decide_eq_true rfl⟩
  obtain ⟨p', hp'⟩ := Option.isSome_iff_exists.mp hfound
  have hsame := List.find?_some hp'
  exact ⟨p', hp', List.mem_of_find?_eq_some hp', of_decide_eq_true hsame⟩

/-- So the bytes that went out with a packet are known from the packet. -/
theorem NumberedPackets.reliableOf_eq (h : NumberedPackets packets) (hp : p ∈ packets) :
    reliableOf packets p.1 = p.2 := by
  obtain ⟨p', hfind, hp', hsame⟩ := find_packet (List.mem_map_of_mem hp)
  obtain ⟨n, hn⟩ := List.mem_iff_getElem?.mp hp
  obtain ⟨n', hn'⟩ := List.mem_iff_getElem?.mp hp'
  -- both have the number of their place
  have hindex : n' = n := by
    rw [← h.number n' p' hn', ← h.number n p hn, hsame]
  rw [hindex, hn] at hn'
  obtain rfl := Option.some.inj hn'
  rw [reliableOf, hfind]
  rfl

/-- Packets that are sent later do not change it. -/
theorem reliableOf_append {data : List Byte} (hdata : data ∈ packets.map Prod.fst)
    (more : List (List Byte × List Byte)) :
    reliableOf (packets ++ more) data = reliableOf packets data := by
  obtain ⟨p, hfind, -, -⟩ := find_packet hdata
  rw [reliableOf, reliableOf, List.find?_append, hfind]
  rfl

end

/-- What the client handled is what the receiver took. -/
structure ReceiverOf (packets : List (List Byte × List Byte)) (s : LagQueue (List Byte))
    (t : Channel Byte) : Prop where
  high : s.last = t.high
  received : s.handled.countP isReliable = t.received
  delivered : s.handled.flatMap (reliableOf packets) = t.delivered

/-- A packet is handled. -/
theorem ReceiverOf.handle {packets : List (List Byte × List Byte)} {s : LagQueue (List Byte)}
    {t : Channel Byte} (h : ReceiverOf packets s t) (hnumbered : NumberedPackets packets)
    {p : List Byte × List Byte} (hp : p ∈ packets) (hfresh : s.last < packetKey p.1) :
    ReceiverOf packets (s.handle packetKey p.1) (t.accept (portionPacket p)) := by
  have hlt : t.high < (portionPacket p).number := h.high ▸ hfresh
  have hreliable := hnumbered.reliableOf_eq hp
  unfold Channel.accept
  rw [if_pos hlt]
  refine ⟨rfl, ?_, ?_⟩
  · show (s.handled ++ [p.1]).countP isReliable
      = if isReliable p.1 then t.received + 1 else t.received
    rw [List.countP_append, List.countP_singleton, h.received]
    split
    · rfl
    · rfl
  · show (s.handled ++ [p.1]).flatMap (reliableOf packets)
      = if isReliable p.1 then t.delivered ++ p.2 else t.delivered
    rw [List.flatMap_append, List.flatMap_singleton, h.delivered, hreliable]
    split
    next => rfl
    next hplain =>
      rw [hnumbered.plain p hp (Bool.eq_false_iff.mpr hplain), List.append_nil]

/-! ## The client as the one that replies -/

/-- The number of the next packet of the client, as long as it does not wrap. -/
def Client.NextDeparture (c : Client) : Prop :=
  c.netqw.currentOutgoingSequenceNumber.toNat + (if c.pc.departed then 1 else 0)
    = (departures c.netqw.trace).length + 1

namespace Client

variable {angle16 : BitVec 32 → BitVec 16} {a : Action} {c c' : Client}

theorem NextDeparture.step (hc : c.NextDeparture) (h : step angle16 a c = some c')
    (hfew : (departures c'.netqw.trace).length < 2 ^ 31) : c'.NextDeparture := by
  unfold NextDeparture at hc ⊢
  cases step_departure h with
  | leaves buf reliable hpc hpc' htrace hcurrent =>
    rw [hpc] at hc
    rw [htrace, hcurrent, hpc', List.length_append]
    exact congrArg (· + 1) hc
  | moves hpc hpc' htrace hcurrent =>
    rw [htrace] at hfew
    rw [hpc] at hc
    have hsum : c.netqw.currentOutgoingSequenceNumber.toNat + 1
      = (departures c.netqw.trace).length + 1 := hc
    have hlt : c.netqw.currentOutgoingSequenceNumber.toNat + 1 < 2 ^ 32 := by omega
    rw [htrace, hcurrent, hpc', BitVec.toNat_add, ← hsum]
    exact Nat.mod_eq_of_lt hlt
  | stays hpc htrace hcurrent =>
    rw [htrace, hcurrent, hpc]
    exact hc

end Client

/-- The packets of the client are replies of the receiver. -/
structure RepliesOf (c : Client) (t : Channel Byte) : Prop where
  counted : c.NextDeparture
  next : t.replyNext = (departures c.netqw.trace).length + 1
  replies : ∀ p ∈ departures c.netqw.trace, ∃ r ∈ t.replies, SenderChannel.Acknowledges p.1 r

namespace RepliesOf

variable {angle16 : BitVec 32 → BitVec 16} {a : Action} {c c' : Client} {t : Channel Byte}

/-- A header says how far the receiver is. -/
theorem acknowledges (h : RepliesOf c t) {packets : List (List Byte × List Byte)}
    (hreceiver : ReceiverOf packets c.netqw.lagQueue t) (hsound : InboxSound c.netqw)
    (hhigh : t.high < 2 ^ 31) (hpc : c.pc.departed = false)
    (hfew : (departures c.netqw.trace).length + 1 < 2 ^ 31) {buf : List Byte}
    (hsaid : c.netqw.headerView.Says buf) :
    SenderChannel.Acknowledges buf ⟨t.replyNext, t.high, t.received⟩ := by
  have hcurrent : c.netqw.currentOutgoingSequenceNumber.toNat
      = (departures c.netqw.trace).length + 1 := by
    have hcounted := h.counted
    rw [Client.NextDeparture, hpc] at hcounted
    exact hcounted
  have hlast : c.netqw.lastIncomingSequenceNumber.toNat = t.high := hreceiver.high
  have hparity : c.netqw.outgoingReliableXor.getLsbD 0 = decide (t.received % 2 = 1) := by
    have hcount : (handled c.netqw.trace).countP isReliable = t.received := hreceiver.received
    rw [hsound.xor, reliableParity, hcount]
    rcases Nat.mod_two_eq_zero_or_one t.received with hmod | hmod
    · rw [hmod]
      rfl
    · rw [hmod]
      rfl
  refine ⟨hsaid.long, ?_, ?_, ?_⟩
  · have hlt : c.netqw.currentOutgoingSequenceNumber.toNat < 2 ^ 31 := hcurrent ▸ hfew
    rw [hsaid.sequence, h.next, ← hcurrent]
    exact congrArg BitVec.toNat (and_mask_of_lt hlt)
  · rw [hsaid.acknowledge, ← hlast]
    exact congrArg BitVec.toNat (and_mask_of_lt (hlast ▸ hhigh))
  · have hmsb : c.netqw.lastIncomingSequenceNumber.msb = false :=
      BitVec.msb_eq_false_iff_two_mul_lt.mpr (by omega)
    rw [hsaid.bit, ← hparity]
    show (c.netqw.lastIncomingSequenceNumber.msb || _) = _
    rw [hmsb]
    exact Bool.false_or _

/-- A step of the client is a reply, while nothing is received, or none. -/
theorem step (h : RepliesOf c t) {packets : List (List Byte × List Byte)}
    (hreceiver : ReceiverOf packets c.netqw.lagQueue t) (hsound : InboxSound c.netqw)
    (hheaded : c.Headed) (hhigh : t.high < 2 ^ 31) (hstep : Client.step angle16 a c = some c')
    (hfew : (departures c'.netqw.trace).length < 2 ^ 31) :
    RepliesOf c' t ∨ InboxSilent c.netqw c'.netqw ∧ RepliesOf c' t.reply := by
  have hcounted := h.counted.step hstep hfew
  cases Client.step_departure hstep with
  | leaves buf reliable hpc hpc' htrace hcurrent =>
    refine .inr ⟨Client.inboxSilent_of_sending hstep (by rw [hpc]; exact nofun), hcounted, ?_, ?_⟩
    · show t.replyNext + 1 = (departures c'.netqw.trace).length + 1
      rw [htrace, h.next, List.length_append]
      rfl
    · rw [htrace, List.length_append] at hfew
      rw [Client.Headed, hpc] at hheaded
      have hnew := h.acknowledges hreceiver hsound hhigh (by rw [hpc]; rfl) hfew hheaded
      rw [htrace]
      refine List.forall_mem_append.mpr ⟨fun p hp => ?_, List.forall_mem_singleton.mpr ?_⟩
      · obtain ⟨r, hr, hp⟩ := h.replies p hp
        exact ⟨r, List.mem_append_left _ hr, hp⟩
      · exact ⟨_, List.mem_append_right _ (List.mem_singleton.mpr rfl), hnew⟩
  | moves hpc hpc' htrace hcurrent =>
    refine .inl ⟨hcounted, ?_, ?_⟩
    · rw [htrace]
      exact h.next
    · rw [htrace]
      exact h.replies
  | stays hpc htrace hcurrent =>
    refine .inl ⟨hcounted, ?_, ?_⟩
    · rw [htrace]
      exact h.next
    · rw [htrace]
      exact h.replies

end RepliesOf

/-! ## The exchange as the protocol -/

/-- The server and the client are the parties of the protocol, and all that the client has was
    sent by the server. -/
structure DownlinkOf (angle16 : BitVec 32 → BitVec 16) (e : Downlink) (t : Channel Byte) :
    Prop where
  reachable : (Client.system angle16).Reachable e.client
  sound : Sound t
  sender : SenderChannel e.server t
  receiver : ReceiverOf e.packets e.client.netqw.lagQueue t
  replies : RepliesOf e.client t
  packets : t.packets = e.packets.map portionPacket
  numbered : NumberedPackets e.packets
  framed : ∀ p ∈ e.packets, Framed p
  next : t.next = e.packets.length
  written : t.written = e.written
  ordered : e.client.netqw.lagQueue.Ordered packetKey
  items : e.client.netqw.lagQueue.Items (· ∈ e.packets.map Prod.fst)

namespace DownlinkOf

variable {angle16 : BitVec 32 → BitVec 16} {io : SizebufOps} {e e' : Downlink} {t : Channel Byte}

/-- The client moves: it sends a packet, or it handles one, or neither. -/
theorem client (h : DownlinkOf angle16 e t) {a : Action} {c' : Client} (hok : LagOk a e.client)
    (hfrom : e.FromServer a) (hstep : Client.step angle16 a e.client = some c')
    (hfew : Downlink.Few { e with client := c' }) : DownlinkOf angle16 { e with client := c' } t ∨
      ∃ b t', t.step b = some t' ∧ DownlinkOf angle16 { e with client := c' } t' := by
  have haccepts : ∀ env source datagram, a = .receive env source datagram →
      ∀ data ∈ e.client.netqw.accepts? env source datagram, data ∈ e.packets.map Prod.fst := by
    rintro env source datagram rfl
    exact hfrom _ rfl
  have hsound := Client.inboxSound h.reachable
  have hreachable : (Client.system angle16).Reachable c' := .step h.reachable trivial hstep
  have hitems := Client.items_step h.items hsound haccepts hstep
  have hordered : c'.netqw.lagQueue.Ordered packetKey := by
    rcases Client.step_lagQueue hsound hok hstep with heq | hlag
    · rw [heq]
      exact h.ordered
    · exact h.ordered.step hlag
  have hhigh : t.high < 2 ^ 31 := by
    have hle := h.sound.high_le
    rw [h.next] at hle
    exact Nat.lt_of_le_of_lt hle hfew.2
  have hreplies := h.replies.step h.receiver hsound (Client.headed h.reachable) hhigh hstep hfew.1
  -- a packet that is above all before is one that the protocol may take
  have htake : ∀ {data}, data ∈ e.packets.map Prod.fst →
      e.client.netqw.lagQueue.last < packetKey data → RepliesOf c' t →
      (∀ {t'}, ReceiverOf e.packets (e.client.netqw.lagQueue.handle packetKey data) t' →
        ReceiverOf e.packets c'.netqw.lagQueue t') →
      ∃ b t', t.step b = some t' ∧ DownlinkOf angle16 { e with client := c' } t' := by
    intro data hdata hfresh hreplies hsame
    obtain ⟨p, hp, rfl⟩ := List.mem_map.mp hdata
    have hmem : portionPacket p ∈ t.packets := by
      rw [h.packets]
      exact List.mem_map_of_mem hp
    obtain ⟨n, hn⟩ := List.mem_iff_getElem?.mp hmem
    have hreceiver := h.receiver.handle h.numbered hp hfresh
    have haccept := h.sound.accept hmem
    have hlt : t.high < (portionPacket p).number := h.receiver.high ▸ hfresh
    refine ⟨.accept n, t.accept (portionPacket p), congrArg (Option.map _) hn, ?_⟩
    unfold Channel.accept at haccept hreceiver ⊢
    rw [if_pos hlt] at haccept hreceiver ⊢
    exact { h with
      reachable := hreachable
      sound := haccept
      sender := { h.sender with }
      receiver := hsame hreceiver
      replies := { hreplies with }
      ordered := hordered
      items := hitems }
  -- nothing is handled
  have hidle : RepliesOf c' t → ReceiverOf e.packets c'.netqw.lagQueue t →
      DownlinkOf angle16 { e with client := c' } t := by
    intro hreplies hreceiver
    exact { h with
      reachable := hreachable
      receiver := hreceiver
      replies := hreplies
      ordered := hordered
      items := hitems }
  rcases hreplies with hreplies | ⟨hsilent, hreplies⟩
  · rcases Client.step_inbox hstep with hsilent | ⟨env, source, datagram, data, ha, hdata, heq⟩ |
      ⟨curtime, heq⟩
    · exact .inl (hidle hreplies (hsilent.lagQueue_eq ▸ h.receiver))
    · have hlag : (e.client.netqw.acceptPacket env.now data).lagQueue = _ :=
        lagQueue_acceptPacket hsound
      rw [← heq] at hlag
      by_cases hdelay : e.client.netqw.delayUntil env.now = 0#64
      · rw [if_pos hdelay] at hlag
        refine .inr (htake (haccepts env source datagram ha data hdata)
          (receive_of_accepts hdata).1 hreplies fun hreceiver => ?_)
        rw [hlag]
        exact { hreceiver with }
      · rw [if_neg hdelay] at hlag
        refine .inl (hidle hreplies ?_)
        rw [hlag]
        exact { h.receiver with }
    · obtain ⟨data, rest, hwaiting, hlag⟩ := lagQueue_handleDelayed heq
      have hfirst : data ∈ e.client.netqw.lagQueue.waiting := hwaiting ▸ List.mem_cons_self
      refine .inr (htake (h.items.waiting data hfirst) (h.ordered.lt_waiting data hfirst) hreplies
        fun hreceiver => ?_)
      rw [hlag]
      exact { hreceiver with }
  · have hlag := hsilent.lagQueue_eq
    refine .inr ⟨.reply, t.reply, rfl, ?_⟩
    exact { h with
      reachable := hreachable
      sound := h.sound.reply
      sender := { h.sender with }
      receiver := by
        show ReceiverOf e.packets c'.netqw.lagQueue t.reply
        rw [hlag]
        exact { h.receiver with }
      replies := hreplies
      ordered := hordered
      items := hitems }

/-- The server sends a packet. -/
theorem transmit (h : DownlinkOf angle16 e t) (hio : io.Lawful) (data : List Byte)
    (hfew : e.packets.length + 1 < 2 ^ 31) : DownlinkOf angle16
      { e with
        server := (e.server.transmit io data).1
        packets := e.packets ++ (e.server.transmit io data).2.toList } t.transmit := by
  obtain ⟨chan', p, htransmit, hsender, hpackets, hnumber, hplain, hframed⟩ :=
    h.sender.transmit hio h.sound (h.next ▸ hfew) data
  have hsound := h.sound.transmit
  have heq := t.transmit_eq
  rw [h.next] at hnumber
  rw [htransmit]
  have hmem : ∀ data ∈ e.packets.map Prod.fst, data ∈ (e.packets ++ [p]).map Prod.fst := by
    intro data hdata
    rw [List.map_append]
    exact List.mem_append_left _ hdata
  have hreliable : (e.client.netqw.lagQueue.handled).flatMap (reliableOf (e.packets ++ [p]))
      = (e.client.netqw.lagQueue.handled).flatMap (reliableOf e.packets) :=
    List.flatMap_congr fun data hdata => reliableOf_append (h.items.handled data hdata) [p]
  rw [heq] at hsender hsound hpackets ⊢
  exact {
    reachable := h.reachable
    sound := hsound
    sender := hsender
    receiver := ⟨h.receiver.high, h.receiver.received, hreliable.trans h.receiver.delivered⟩
    replies := { h.replies with }
    packets := by
      rw [hpackets, h.packets, ← List.map_singleton, ← List.map_append]
      rfl
    numbered := h.numbered.concat hnumber hplain
    framed := List.forall_mem_append.mpr ⟨h.framed, List.forall_mem_singleton.mpr hframed⟩
    next := by
      show t.next + 1 = (e.packets ++ [p]).length
      rw [h.next, List.length_append]
      rfl
    written := h.written
    ordered := h.ordered
    items := ⟨fun x hx => hmem x (h.items.waiting x hx),
      fun x hx => hmem x (h.items.handled x hx)⟩ }

/-- A packet of the client arrives at the server. -/
theorem process (h : DownlinkOf angle16 e t) {p : List Byte × List ReliableBuffer}
    (hp : p ∈ departures e.client.netqw.trace) : ∃ b t', t.step b = some t' ∧
      DownlinkOf angle16 { e with server := e.server.process p.1 } t' := by
  obtain ⟨r, hr, hacknowledges⟩ := h.replies.replies p hp
  obtain ⟨n, hn⟩ := List.mem_iff_getElem?.mp hr
  have hsender := h.sender.process hacknowledges
  have hsound := h.sound.process hr
  refine ⟨.process n, t.process r, congrArg (Option.map _) hn, ?_⟩
  rw [t.process_eq r] at hsender hsound ⊢
  exact { h with
    sound := hsound
    sender := hsender
    receiver := { h.receiver with }
    replies := { h.replies with } }

/-- Every step is a step of the protocol, or none. -/
theorem step (h : DownlinkOf angle16 e t) (hio : io.Lawful) {a : DownlinkAction}
    (hok : DownlinkOk a e) (hstep : Downlink.step angle16 io a e = some e') (hfew : e'.Few) :
    DownlinkOf angle16 e' t ∨ ∃ b t', t.step b = some t' ∧ DownlinkOf angle16 e' t' := by
  cases a with
  | client a =>
    obtain ⟨hfrom, hstep⟩ := Option.ite_none_right_eq_some.mp hstep
    obtain ⟨c', hc', rfl⟩ := Option.map_eq_some_iff.mp hstep
    exact h.client hok hfrom hc' hfew
  | write data =>
    obtain ⟨hroom, hstep⟩ := Option.ite_none_right_eq_some.mp hstep
    obtain rfl := Option.some.inj hstep
    refine .inr ⟨.write data, t.write data, rfl, ?_⟩
    exact { h with
      sound := h.sound.write data
      sender := { h.sender with
        message := congrArg (· ++ data) h.sender.message
        message_le := List.length_append ▸ hroom }
      receiver := { h.receiver with }
      replies := { h.replies with }
      written := congrArg (· ++ data) h.written }
  | transmit data =>
    obtain rfl := Option.some.inj hstep
    have hroom : e.packets.length + 1 < 2 ^ 31 := by
      have hlength := hfew.2
      rw [ServerNetchan.transmit, h.sender.overflowed, List.length_append] at hlength
      exact hlength
    exact .inr ⟨.transmit, t.transmit, rfl, h.transmit hio data hroom⟩
  | process n =>
    obtain ⟨p, hp, rfl⟩ := Option.map_eq_some_iff.mp hstep
    exact .inr (h.process (List.mem_of_getElem? hp))

end DownlinkOf

/-! ## The bytes that arrive -/

/-- No packet is taken back. -/
theorem Downlink.few_of_step {angle16 : BitVec 32 → BitVec 16} {io : SizebufOps}
    {a : DownlinkAction} {e e' : Downlink} (h : Downlink.step angle16 io a e = some e')
    (hfew : e'.Few) : e.Few := by
  cases a with
  | client a =>
    obtain ⟨-, hstep⟩ := Option.ite_none_right_eq_some.mp h
    obtain ⟨c', hc', rfl⟩ := Option.map_eq_some_iff.mp hstep
    have hprefix := Client.departures_grow hc'
    exact ⟨Nat.lt_of_le_of_lt hprefix.length_le hfew.1, hfew.2⟩
  | write data =>
    obtain ⟨-, hstep⟩ := Option.ite_none_right_eq_some.mp h
    obtain rfl := Option.some.inj hstep
    exact hfew
  | transmit data =>
    obtain rfl := Option.some.inj h
    have hprefix : e.packets <+: e.packets ++ (e.server.transmit io data).2.toList :=
      List.prefix_append _ _
    exact ⟨hfew.1, Nat.lt_of_le_of_lt hprefix.length_le hfew.2⟩
  | process n =>
    obtain ⟨p, -, rfl⟩ := Option.map_eq_some_iff.mp h
    exact hfew

/-- Both sides begin as those of the protocol do. -/
theorem downlinkOf_init {angle16 : BitVec 32 → BitVec 16} {io : SizebufOps} {e : Downlink}
    (h : (Downlink.system angle16 io).Init e) : ∃ t, (StopAndWait.system Byte).Init t ∧
      DownlinkOf angle16 e t := by
  obtain ⟨client, server, packets, written⟩ := e
  obtain ⟨hinit, rfl, rfl, rfl⟩ := h
  have hreachable : (Client.system angle16).Reachable client := .init hinit
  obtain ⟨garbage, qport, userinfo, addr, rfl⟩ := hinit
  refine ⟨.initial 0 1, ⟨0, 1, rfl⟩, ?_⟩
  exact {
    reachable := hreachable
    sound := sound_initial 0 1
    sender := ⟨rfl, rfl, Nat.zero_le _, Nat.zero_le _, rfl, rfl, rfl, Nat.le_refl _, rfl, rfl, rfl,
      rfl⟩
    receiver := ⟨rfl, rfl, rfl⟩
    replies := ⟨rfl, rfl, nofun⟩
    packets := rfl
    numbered := ⟨nofun, nofun⟩
    framed := nofun
    next := rfl
    written := rfl
    ordered := ⟨rfl, List.Pairwise.nil, nofun, nofun⟩
    items := ⟨nofun, nofun⟩ }

/-- Every packet that the client accepted is one of the server. -/
theorem DownlinkOf.accepted_mem {angle16 : BitVec 32 → BitVec 16} {e : Downlink} {t : Channel Byte}
    (h : DownlinkOf angle16 e t) :
    ∀ data ∈ accepted e.client.netqw.trace, data ∈ e.packets.map Prod.fst := by
  have haccepted : accepted e.client.netqw.trace
      = e.client.netqw.lagQueue.handled ++ e.client.netqw.lagQueue.waiting := h.ordered.accepted
  rw [haccepted]
  exact List.forall_mem_append.mpr ⟨h.items.handled, h.items.waiting⟩

/-- The packets that the client accepted, with the reliable bytes in them. -/
theorem DownlinkOf.accepted_packets {angle16 : BitVec 32 → BitVec 16} {e : Downlink}
    {t : Channel Byte} (h : DownlinkOf angle16 e t) : ∀ data ∈ accepted e.client.netqw.trace,
      (data, reliableOf e.packets data) ∈ e.packets ∧
        reliableOf e.packets data <+: data.drop 8 := by
  intro data hdata
  obtain ⟨p, hp, rfl⟩ := List.mem_map.mp (h.accepted_mem data hdata)
  rw [h.numbered.reliableOf_eq hp]
  exact ⟨hp, (h.framed p hp).portion⟩

/-- What the client has or is about to handle is what was written, from its beginning. -/
theorem DownlinkOf.received {angle16 : BitVec 32 → BitVec 16} {e : Downlink} {t : Channel Byte}
    (h : DownlinkOf angle16 e t) :
    t.settled <+: (accepted e.client.netqw.trace).flatMap (reliableOf e.packets) ∧
      (accepted e.client.netqw.trace).flatMap (reliableOf e.packets) <+: e.written := by
  have haccepted : accepted e.client.netqw.trace
      = e.client.netqw.lagQueue.handled ++ e.client.netqw.lagQueue.waiting := h.ordered.accepted
  have hreceived : (accepted e.client.netqw.trace).flatMap (reliableOf e.packets) = t.delivered
      ++ e.client.netqw.lagQueue.waiting.flatMap (reliableOf e.packets) := by
    rw [haccepted, List.flatMap_append, h.receiver.delivered]
  -- each packet that waits is one that the protocol may still take
  have hpacket : ∀ data ∈ e.client.netqw.lagQueue.waiting, ∃ p ∈ e.packets,
      portionPacket p = ⟨packetKey data, isReliable data, reliableOf e.packets data⟩ ∧
      (isReliable data = false → reliableOf e.packets data = []) := by
    intro data hdata
    obtain ⟨p, hp, rfl⟩ := List.mem_map.mp (h.items.waiting data hdata)
    have hreliable := h.numbered.reliableOf_eq hp
    rw [hreliable]
    exact ⟨p, hp, rfl, h.numbered.plain p hp⟩
  have hflat : e.client.netqw.lagQueue.waiting.flatMap (reliableOf e.packets)
      = (e.client.netqw.lagQueue.waiting.map fun data =>
          (⟨packetKey data, isReliable data, reliableOf e.packets data⟩ : Packet Byte)).flatMap
        fun p => if p.reliable then p.portion else [] := by
    rw [List.flatMap_map]
    refine List.flatMap_congr fun data hdata => ?_
    obtain ⟨p, -, -, hplain⟩ := hpacket data hdata
    dsimp only
    split
    next => rfl
    next hflag => exact hplain (Bool.eq_false_iff.mpr hflag)
  have hincreasing := h.ordered.increasing
  rw [h.ordered.accepted, List.map_append] at hincreasing
  refine ⟨h.sound.delivered.1.trans (hreceived ▸ List.prefix_append _ _), ?_⟩
  rw [hreceived, hflat, ← h.written]
  refine h.sound.take_all (List.forall_mem_map.mpr fun data hdata => ?_) ?_
    (List.forall_mem_map.mpr fun data hdata => ?_)
  · obtain ⟨p, hp, heq, -⟩ := hpacket data hdata
    rw [h.packets, ← heq]
    exact List.mem_map_of_mem hp
  · rw [List.map_map]
    exact (List.pairwise_append.mp hincreasing).2.1
  · rw [← h.receiver.high]
    exact h.ordered.lt_waiting data hdata

/-- Whatever happens, the parties stay those of the protocol. -/
theorem downlinkOf_of_reaches {angle16 : BitVec 32 → BitVec 16} {io : SizebufOps}
    (hio : io.Lawful) {e : Downlink} (h : (Downlink.system angle16 io).Reaches DownlinkOk e)
    (hfew : e.Few) : ∃ t, DownlinkOf angle16 e t := by
  have halways := h.always (P := Downlink.Few) (fun _ _ _ => Downlink.few_of_step) hfew
  obtain ⟨t, -, hof⟩ := Transitions.Reaches.simulated (fun _ => downlinkOf_init)
    (fun _ _ s' _ hof hok hstep => hof.step hio hok.1 hstep (hok.2 s' hstep)) halways
  exact ⟨t, hof⟩

/-- The bytes that the client has, and those that the server keeps, make up what was written. -/
theorem DownlinkOf.arrived {angle16 : BitVec 32 → BitVec 16} {e : Downlink} {t : Channel Byte}
    (h : DownlinkOf angle16 e t) : e.Arrived := by
  obtain ⟨hsettled, hreceived⟩ := h.received
  refine ⟨(accepted e.client.netqw.trace).map fun data => (data, reliableOf e.packets data), ?_,
    List.forall_mem_map.mpr h.accepted_packets, ?_, t.settled, ?_, ?_⟩
  · rw [List.map_map]
    exact (List.map_id _).symm
  · rw [List.flatMap_map]
    exact hreceived
  · rw [List.flatMap_map]
    exact hsettled
  · rw [h.sender.portion, h.sender.message, ← h.written]
    exact h.sound.order

/-- The reliable bytes that the client has are those that were written to the server's message,
    in order and each once, and the server is done with no others. -/
theorem downlink_delivered (angle16 : BitVec 32 → BitVec 16) {io : SizebufOps} (hio : io.Lawful)
    {e : Downlink} (h : (Downlink.system angle16 io).Reaches DownlinkOk e) (hfew : e.Few) :
    e.Arrived := by
  obtain ⟨t, hof⟩ := downlinkOf_of_reaches hio h hfew
  exact hof.arrived

/-- `MSG_WriteLong` and `SZ_Write`, where there is room. -/
def SizebufOps.appending : SizebufOps :=
  ⟨fun buf n => buf ++ writeLong n, fun buf data => buf ++ data⟩

theorem SizebufOps.appending_lawful : SizebufOps.appending.Lawful :=
  ⟨fun _ n _ => ⟨writeLong n, rfl, rfl, readLong_writeLong n⟩, fun _ _ _ => rfl⟩

/-- A client that was just created, and a channel that was just set up. -/
def Downlink.fresh : Downlink := ⟨Client.fresh, .setup, [], []⟩

/-- The first packet of the server is lost; the client acknowledges a later one, and the bytes are
    sent again.  This packet arrives twice. -/
def Downlink.resentRun : List DownlinkAction :=
  Client.handshake.map .client ++
    [.write [7, 8], .transmit [], .transmit [], .transmit [],
      .client (Client.arrives 60000#64 (serverPacket 2 0))] ++
    (Client.sendRun 14000#64 1).map .client ++
    [.process 0, .write [9], .transmit [],
      .client (Client.arrives 70000#64 [3, 0, 0, 0x80, 1, 0, 0, 0x80, 7, 8]),
      .client (Client.arrives 70000#64 [3, 0, 0, 0x80, 1, 0, 0, 0x80, 7, 8])]

/-- The client has the bytes once. -/
theorem downlink_delivered_resent : ∃ e, (Downlink.system (fun _ => 0) .appending).runOk DownlinkOk
    Downlink.resentRun Downlink.fresh = some e ∧ e.packets.map Prod.snd = [[7, 8], [], [], [7, 8]] ∧
    accepted e.client.netqw.trace
      = [[2, 0, 0, 0, 0, 0, 0, 0], [3, 0, 0, 0x80, 1, 0, 0, 0x80, 7, 8]] ∧ e.Arrived := by
  have heq : ((Downlink.system (fun _ => 0) .appending).runOk DownlinkOk Downlink.resentRun
      Downlink.fresh).map (fun e => (e.packets.map Prod.snd, accepted e.client.netqw.trace,
        (departures e.client.netqw.trace).length))
        = some ([[7, 8], [], [], [7, 8]],
          [[2, 0, 0, 0, 0, 0, 0, 0], [3, 0, 0, 0x80, 1, 0, 0, 0x80, 7, 8]], 1) := by
    decide +kernel
  obtain ⟨e, hrun, hread⟩ := Option.map_eq_some_iff.mp heq
  simp only [Prod.mk.injEq] at hread
  obtain ⟨hpackets, haccepted, hdepartures⟩ := hread
  have hlength : e.packets.length = 4 := by
    rw [← List.length_map (f := Prod.snd), hpackets]
    rfl
  have hfew : e.Few := by
    rw [Downlink.Few, hdepartures, hlength]
    decide
  have hinit : (Downlink.system (fun _ => 0) .appending).Init Downlink.fresh :=
    ⟨⟨_, _, _, _, rfl⟩, rfl, rfl, rfl⟩
  have hreaches := Transitions.Reaches.runOk (.init hinit) hrun
  exact ⟨e, hrun, hpackets, haccepted,
    downlink_delivered _ SizebufOps.appending_lawful hreaches hfew⟩

end QwNet
