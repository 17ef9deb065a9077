/-
  QwNet.Channel.Duplex

  Both directions at once.

  The server of the exchange is what `Netchan_Process` and `Netchan_Transmit` of
  net_chan.c make of it, if it does not run ahead of the client.  So the commands of the
  client and the reliable bytes of the server travel over one channel, in the same
  packets.  What either side is given it finds in the bytes of these.
-/
import QwNet.Channel.Downlink

namespace QwNet

open StopAndWait

/-- The exchange, and the bytes of the commands that the server was given. -/
structure Duplex where
  link : Downlink
  delivered : List Byte

/-- The commands in a packet of the client that `Netchan_Process` lets through. -/
def ServerNetchan.takes (packet : List Byte) (chan : ServerNetchan) : List Byte :=
  if serverReadLong packet 0 &&& 0x7fffffff#32 ≤ chan.incomingSequence then []
  else if serverReadLong packet 0 >>> 31 ≠ 0#32 then commandBytes packet else []

namespace Duplex

/-- The commands that the server is given with an action. -/
def takes (a : DownlinkAction) (d : Duplex) : List Byte :=
  match a with
  | .process n =>
    ((departures d.link.client.netqw.trace)[n]?.map fun p => d.link.server.takes p.1).getD []
  | _ => []

/-- What an action does; `none` where it is not possible. -/
def step (angle16 : BitVec 32 → BitVec 16) (io : SizebufOps) (a : DownlinkAction) (d : Duplex) :
    Option Duplex :=
  (Downlink.step angle16 io a d.link).map fun link => ⟨link, d.delivered ++ d.takes a⟩

/-- Nothing was sent, and nothing was delivered. -/
def system (angle16 : BitVec 32 → BitVec 16) (io : SizebufOps) :
    Transitions Duplex DownlinkAction where
  Init d := (Downlink.system angle16 io).Init d.link ∧ d.delivered = []
  step := step angle16 io

end Duplex

/-- Commands are ordinary, nothing overtakes the packets that wait for the lag, and the server
    sends a packet only in answer to one. -/
def DuplexOk (a : DownlinkAction) (d : Duplex) : Prop :=
  match a with
  | .client a => (∀ b ∈ a.appended?, b.Ordinary) ∧ LagOk a d.link.client
  | .transmit _ => d.link.server.outgoingSequence ≤ d.link.server.incomingSequence
  | .write _ | .process _ => True

instance (a : DownlinkAction) (d : Duplex) : Decidable (DuplexOk a d) :=
  match a with
  | .client a => inferInstanceAs (Decidable ((∀ b ∈ a.appended?, b.Ordinary) ∧ LagOk a _))
  | .transmit _ => inferInstanceAs (Decidable (d.link.server.outgoingSequence ≤ _))
  | .write _ | .process _ => instDecidableTrue

theorem DuplexOk.downlinkOk {a : DownlinkAction} {d : Duplex} (h : DuplexOk a d) :
    DownlinkOk a d.link := by
  cases a with
  | client a => exact h.2
  | write | transmit | process => trivial

/-! ## The server of the exchange -/

/-- The server as the exchange has it. -/
def ServerNetchan.server (delivered : List Byte) (chan : ServerNetchan) : Server where
  incomingSequence := chan.incomingSequence
  incomingReliableSequence := decide (chan.incomingReliableSequence = 1#32)
  delivered := delivered

/-- The server as the header of its next packet shows it. -/
structure ServerNetchan.Heard (chan : ServerNetchan) : Prop where
  sequence : chan.incomingSequence.toNat < 2 ^ 31
  bit : ∃ bit : Bool, chan.incomingReliableSequence = if bit then 1#32 else 0#32

/-- The number and the flag in the first word of a packet. -/
theorem serverReadLong_spec {data : List Byte} (hlong : 8 ≤ data.length) :
    serverReadLong data 0 &&& 0x7fffffff#32 = sequenceOf data ∧
      (serverReadLong data 0 >>> 31 ≠ 0#32 ↔ isReliable data = true) := by
  have hread : serverReadLong data 0 = readLong (fun i => data.getD i 0) 0 := if_neg (by omega)
  refine ⟨?_, ?_⟩
  · rw [hread, ← number31_eq]
    rfl
  · rw [hread, ushiftRight_31, ← topBit_eq]
    show (if isReliable data = true then 1#32 else 0#32) ≠ 0#32 ↔ isReliable data = true
    cases isReliable data with
    | true => exact iff_of_true (by decide) rfl
    | false => exact iff_of_false (by decide) nofun

namespace ServerNetchan

variable {chan : ServerNetchan}

/-- `Netchan_Process` does what the server of the exchange does. -/
theorem server_process (h : chan.Heard) (delivered : List Byte) {packet : List Byte}
    (hlong : 8 ≤ packet.length) : (chan.server delivered).process packet
        = (chan.process packet).server (delivered ++ chan.takes packet) ∧
      (chan.process packet).Heard := by
  obtain ⟨hsequence, hflag⟩ := serverReadLong_spec hlong
  obtain ⟨bit, hbit⟩ := h.bit
  unfold Server.process process takes
  dsimp only
  rw [hsequence]
  by_cases hstale : sequenceOf packet ≤ chan.incomingSequence
  · rw [if_pos hstale, if_pos hstale, List.append_nil]
    exact ⟨if_pos hstale, h⟩
  · rw [if_neg hstale, if_neg hstale]
    generalize serverReadLong packet 0 >>> 31 = flag at hflag ⊢
    have hflip : decide ((if flag ≠ 0#32 then chan.incomingReliableSequence ^^^ 1#32
        else chan.incomingReliableSequence) = 1#32) = if isReliable packet then
          !decide (chan.incomingReliableSequence = 1#32)
        else decide (chan.incomingReliableSequence = 1#32) := by
      rw [if_congr hflag rfl rfl, hbit]
      cases isReliable packet <;> cases bit <;> rfl
    have htaken : delivered ++ (if flag ≠ 0#32 then commandBytes packet else [])
        = if isReliable packet then delivered ++ commandBytes packet else delivered := by
      rw [if_congr hflag rfl rfl, apply_ite (delivered ++ ·), List.append_nil]
    refine ⟨(if_neg hstale).trans ?_, ?_, ?_⟩
    · unfold server
      rw [hflip, htaken]
    · show (sequenceOf packet).toNat < 2 ^ 31
      exact number31_lt _ 0
    · dsimp only
      split
      · exact ⟨!bit, by rw [hbit]; cases bit <;> rfl⟩
      · exact ⟨bit, hbit⟩

/-- Sending leaves alone what was heard. -/
theorem server_transmit (h : chan.Heard) (io : SizebufOps) (data : List Byte)
    (delivered : List Byte) :
    (chan.transmit io data).1.server delivered = chan.server delivered ∧
      (chan.transmit io data).1.Heard := by
  have hkept : (chan.transmit io data).1.incomingSequence = chan.incomingSequence ∧
      (chan.transmit io data).1.incomingReliableSequence = chan.incomingReliableSequence := by
    unfold transmit copyMessage
    split
    · exact ⟨rfl, rfl⟩
    · split
      · exact ⟨rfl, rfl⟩
      · exact ⟨rfl, rfl⟩
  obtain ⟨hsequence, hbit⟩ := hkept
  refine ⟨?_, ?_, ?_⟩
  · unfold server
    rw [hsequence, hbit]
  · rw [hsequence]
    exact h.sequence
  · rw [hbit]
    exact h.bit

end ServerNetchan

/-! ## Both protocols -/

/-- The exchange that the parties have, as far as the commands go. -/
def Duplex.exchange (d : Duplex) : Exchange where
  client := d.link.client
  server := d.link.server.server d.delivered
  replies := d.link.packets.map Prod.fst

/-- The parties are those of one protocol in each direction. -/
structure DuplexOf (angle16 : BitVec 32 → BitVec 16) (d : Duplex)
    (t : AlternatingBit.Protocol ReliableBuffer) : Prop where
  down : ∃ t, DownlinkOf angle16 d.link t
  up : ExchangeOf angle16 d.exchange t
  heard : d.link.server.Heard

namespace DuplexOf

variable {angle16 : BitVec 32 → BitVec 16} {io : SizebufOps} {d d' : Duplex}
  {t : AlternatingBit.Protocol ReliableBuffer}

/-- A packet of the server answers the client. -/
theorem maySend (h : DuplexOf angle16 d t) (hio : io.Lawful)
    (hok : d.link.server.outgoingSequence ≤ d.link.server.incomingSequence) (data : List Byte) :
    ∃ p chan, d.link.server.transmit io data = (chan, some p) ∧
      (d.link.server.server d.delivered).MaySend p.1 := by
  obtain ⟨t', hdown⟩ := h.down
  obtain ⟨bit, hbit⟩ := h.heard.bit
  have hcopy := hdown.sender.copyMessage
  have hkept : d.link.server.copyMessage.incomingSequence = d.link.server.incomingSequence ∧
      d.link.server.copyMessage.incomingReliableSequence = d.link.server.incomingReliableSequence ∧
      d.link.server.copyMessage.outgoingSequence = d.link.server.outgoingSequence := by
    unfold ServerNetchan.copyMessage
    split
    · exact ⟨rfl, rfl, rfl⟩
    · exact ⟨rfl, rfl, rfl⟩
  obtain ⟨hincoming, hreliable, houtgoing⟩ := hkept
  obtain ⟨hacknowledge, hacknowledgeBit⟩ := ServerNetchan.packet_acknowledges hio hcopy.portion_le
    (hincoming ▸ h.heard.sequence) (hreliable.trans hbit) d.link.server.sendReliable data
  have hlt : d.link.server.copyMessage.outgoingSequence.toNat < 2 ^ 31 := by
    rw [houtgoing]
    exact Nat.lt_of_le_of_lt (BitVec.le_def.mp hok) h.heard.sequence
  obtain ⟨hsequence, -⟩ := ServerNetchan.packet_spec hio hcopy.portion_le hlt
    d.link.server.sendReliable data
  refine ⟨_, _, if_neg (by rw [hdown.sender.overflowed]; exact Bool.false_ne_true), ?_, ?_, ?_⟩
  · exact hacknowledge.trans hincoming
  · refine hacknowledgeBit.trans ?_
    show bit = decide (d.link.server.incomingReliableSequence = 1#32)
    rw [hbit]
    cases bit <;> rfl
  · show sequenceOf _ ≤ acknowledgeOf _
    rw [hsequence, hacknowledge, houtgoing, hincoming]
    exact hok

/-- Every step is one of the protocol of the commands, or none. -/
theorem step (h : DuplexOf angle16 d t) (hio : io.Lawful) {a : DownlinkAction}
    (hok : DuplexOk a d) (hstep : Duplex.step angle16 io a d = some d') (hfew : d'.link.Few) :
    DuplexOf angle16 d' t ∨ ∃ b t', t.step b = some t' ∧ DuplexOf angle16 d' t' := by
  obtain ⟨link, hlink, rfl⟩ := Option.map_eq_some_iff.mp hstep
  have hdown : ∃ t, DownlinkOf angle16 link t := by
    obtain ⟨t', hdown⟩ := h.down
    rcases hdown.step hio hok.downlinkOk hlink hfew with hdown | ⟨b, t'', -, hdown⟩
    · exact ⟨t', hdown⟩
    · exact ⟨t'', hdown⟩
  cases a with
  | client a =>
    obtain ⟨hfrom, hstep⟩ := Option.ite_none_right_eq_some.mp hlink
    obtain ⟨c', hc', rfl⟩ := Option.map_eq_some_iff.mp hstep
    have hup := h.up.client hok.1 hfrom hc' hfew.1
    have hsame : Duplex.exchange ⟨{ d.link with client := c' }, d.delivered ++ []⟩
        = { d.exchange with client := c' } := by
      rw [List.append_nil]
      rfl
    refine hup.imp (fun hup => ⟨hdown, hsame ▸ hup, h.heard⟩) ?_
    rintro ⟨b, t', ht', hup⟩
    exact ⟨b, t', ht', hdown, hsame ▸ hup, h.heard⟩
  | write data =>
    obtain ⟨-, hstep⟩ := Option.ite_none_right_eq_some.mp hlink
    obtain rfl := Option.some.inj hstep
    refine .inl ⟨hdown, ?_, { h.heard with }⟩
    show ExchangeOf angle16 ⟨_, ServerNetchan.server (d.delivered ++ []) _, _⟩ t
    rw [List.append_nil]
    exact h.up
  | transmit data =>
    obtain ⟨p, chan, htransmit, hmay⟩ := h.maySend hio hok data
    obtain rfl := Option.some.inj hlink
    obtain ⟨hserver, hheard⟩ := ServerNetchan.server_transmit h.heard io data d.delivered
    obtain ⟨b, t', ht', hup⟩ := h.up.reply hmay
    refine .inr ⟨b, t', ht', hdown, ?_, hheard⟩
    have hreplies : (d.link.packets ++ (d.link.server.transmit io data).2.toList).map Prod.fst
        = d.link.packets.map Prod.fst ++ [p.1] := by
      rw [htransmit, List.map_append]
      rfl
    show ExchangeOf angle16 ⟨_, ServerNetchan.server (d.delivered ++ []) _, List.map _ _⟩ t'
    rw [List.append_nil, hserver, hreplies]
    exact hup
  | process n =>
    obtain ⟨p, hp, rfl⟩ := Option.map_eq_some_iff.mp hlink
    obtain ⟨t₂, hlong⟩ := h.down
    obtain ⟨r, -, hacknowledges⟩ := hlong.replies.replies p (List.mem_of_getElem? hp)
    obtain ⟨hserver, hheard⟩ :=
      ServerNetchan.server_process h.heard d.delivered hacknowledges.long
    obtain ⟨b, t', ht', hup⟩ := h.up.process (List.mem_of_getElem? hp)
    refine .inr ⟨b, t', ht', hdown, ?_, hheard⟩
    have htakes : d.takes (.process n) = d.link.server.takes p.1 := by
      rw [Duplex.takes, hp]
      rfl
    show ExchangeOf angle16 ⟨_, ServerNetchan.server (d.delivered ++ d.takes (.process n)) _, _⟩ t'
    rw [htakes, ← hserver]
    exact hup

end DuplexOf

theorem duplexOf_init {angle16 : BitVec 32 → BitVec 16} {io : SizebufOps} {d : Duplex}
    (h : (Duplex.system angle16 io).Init d) :
    ∃ t, (AlternatingBit.system ReliableBuffer).Init t ∧ DuplexOf angle16 d t := by
  obtain ⟨link, delivered⟩ := d
  obtain ⟨hlink, rfl⟩ := h
  obtain ⟨t', -, hdown⟩ := downlinkOf_init hlink
  obtain ⟨client, server, packets, written⟩ := link
  obtain ⟨hinit, rfl, rfl, rfl⟩ := hlink
  obtain ⟨t, ht, hup⟩ := exchangeOf_init (e := ⟨client, ⟨0#32, false, []⟩, []⟩) ⟨hinit, rfl, rfl⟩
  exact ⟨t, ht, ⟨t', hdown⟩, hup, Nat.two_pow_pos 31, false, rfl⟩

/-- No packet is taken back. -/
theorem Duplex.few_of_step {angle16 : BitVec 32 → BitVec 16} {io : SizebufOps} {a : DownlinkAction}
    {d d' : Duplex} (h : Duplex.step angle16 io a d = some d') (hfew : d'.link.Few) :
    d.link.Few := by
  obtain ⟨link, hlink, rfl⟩ := Option.map_eq_some_iff.mp h
  exact Downlink.few_of_step hlink hfew

/-- Whatever happens, both directions stay those of their protocols. -/
theorem duplexOf_of_reaches {angle16 : BitVec 32 → BitVec 16} {io : SizebufOps} (hio : io.Lawful)
    {d : Duplex} (h : (Duplex.system angle16 io).Reaches DuplexOk d) (hfew : d.link.Few) :
    ∃ t, (AlternatingBit.system ReliableBuffer).Reachable t ∧ DuplexOf angle16 d t := by
  have halways := h.always (P := fun d => d.link.Few) (fun _ _ _ => Duplex.few_of_step) hfew
  exact Transitions.Reaches.simulated (fun _ => duplexOf_init)
    (fun _ _ d' _ hof hok hstep => hof.step hio hok.1 hstep (hok.2 d' hstep)) halways

/-- What was delivered to the server. -/
theorem DuplexOf.delivers {angle16 : BitVec 32 → BitVec 16} {d : Duplex}
    {t : AlternatingBit.Protocol ReliableBuffer} (h : DuplexOf angle16 d t)
    (ht : (AlternatingBit.system ReliableBuffer).Reachable t) :
    Delivers d.delivered (freedBuffers d.link.client.netqw.trace)
        (appendedBuffers d.link.client.netqw.trace) ∧
      appendedBuffers d.link.client.netqw.trace
        = freedBuffers d.link.client.netqw.trace ++ d.link.client.netqw.reliableQueue :=
  h.up.delivers ht

/-- The client is part of both. -/
def Duplex.host (angle16 : BitVec 32 → BitVec 16) (io : SizebufOps) :
    Host angle16 Duplex DownlinkAction where
  system := Duplex.system angle16 io
  client d := d.link.client
  update f d := { d with link := { d.link with client := d.link.client.update f } }
  ofNetworkThread := DownlinkAction.ofNetworkThread
  appended? a _ := a.appended?
  init _ h := h.1.1
  client_update _ _ := rfl
  step := by
    intro a d d' hstep
    obtain ⟨link, hlink, rfl⟩ := Option.map_eq_some_iff.mp hstep
    exact Downlink.step_client hlink

/-- Over the one channel the server has the commands of the client, if none is appended while the
    tail is dangling, and the client the reliable bytes of the server; in order and each of them
    once. -/
theorem duplex_delivered (angle16 : BitVec 32 → BitVec 16) {io : SizebufOps} (hio : io.Lawful)
    {s : Racing Duplex} (h : (Racing.system (Duplex.host angle16 io)).Reaches
      (RacingOk (Duplex.host angle16 io) DuplexOk) s) (hfew : s.base.link.Few) :
    Delivers s.base.delivered s.freed (appendedBuffers s.base.link.client.netqw.trace) ∧
      appendedBuffers s.base.link.client.netqw.trace
        = s.freed ++ s.queue (Duplex.host angle16 io) ∧
      s.base.link.Arrived := by
  obtain ⟨hbase, hfreed⟩ := Racing.base_of_reaches h
  obtain ⟨t, ht, hof⟩ := duplexOf_of_reaches hio hbase hfew
  obtain ⟨t', hdown⟩ := hof.down
  obtain ⟨hdelivers, horder⟩ := hof.delivers ht
  exact ⟨hdelivers.of_freed hfreed, Racing.order_of_freed hfreed horder, hdown.arrived⟩

/-- Nothing was sent yet. -/
def Duplex.fresh : Racing Duplex := ⟨⟨.fresh, []⟩, .outside, []⟩

/-- The client sends a packet. -/
def Duplex.sends (now : BitVec 64) : List DownlinkAction := (Client.sendRun now 1).map .client

/-- A packet of the server arrives at the client. -/
def Duplex.arrives (now : BitVec 64) (packet : List Byte) : DownlinkAction :=
  .client (Client.arrives now packet)

/-- The server answers the first packet of the client twice, and the first answer is lost; it learns
    of that from the third packet.  The client appends a command before it frees `new`, and frees
    that one too. -/
def Duplex.resentRun : List (RacingAction DownlinkAction) :=
  (Client.handshake.map DownlinkAction.client ++ sends 14000#64 ++
    [.process 0, .write [7, 8], .transmit [], .transmit [],
      arrives 60000#64 [1, 0, 0, 0, 1, 0, 0, 0x80],
      .client (.append (Exchange.command 97))]).map .base ++ [.free, .repair] ++
    (sends 28000#64 ++
      [.process 1, .transmit [], arrives 70000#64 [2, 0, 0, 0, 2, 0, 0, 0]]).map .base ++
    [.free, .repair] ++
    (sends 42000#64 ++
      [.process 2, .transmit [], arrives 80000#64 [3, 0, 0, 0x80, 3, 0, 0, 0, 7, 8]]).map .base

/-- The server has both commands, and the client the bytes. -/
theorem duplex_delivered_resent : ∃ s, (Racing.system (Duplex.host (fun _ => 0) .appending)).runOk
      (RacingOk (Duplex.host (fun _ => 0) .appending) DuplexOk) Duplex.resentRun Duplex.fresh
        = some s ∧
    s.base.delivered = NetQW.newCommand.data ++ [4, 97, 0] ∧
    s.freed.map (·.data) = [NetQW.newCommand.data, [4, 97, 0]] ∧
    accepted s.base.link.client.netqw.trace
      = [[1, 0, 0, 0, 1, 0, 0, 0x80], [2, 0, 0, 0, 2, 0, 0, 0],
        [3, 0, 0, 0x80, 3, 0, 0, 0, 7, 8]] ∧
    Delivers s.base.delivered s.freed (appendedBuffers s.base.link.client.netqw.trace) ∧
    appendedBuffers s.base.link.client.netqw.trace
      = s.freed ++ s.queue (Duplex.host (fun _ => 0) .appending) ∧
    s.base.link.Arrived := by
  have heq : ((Racing.system (Duplex.host (fun _ => 0) .appending)).runOk
      (RacingOk (Duplex.host (fun _ => 0) .appending) DuplexOk) Duplex.resentRun
      Duplex.fresh).map (fun s => (s.base.delivered, s.freed.map (·.data),
        accepted s.base.link.client.netqw.trace,
        (departures s.base.link.client.netqw.trace).length, s.base.link.packets.length))
        = some (NetQW.newCommand.data ++ [4, 97, 0], [NetQW.newCommand.data, [4, 97, 0]],
          [[1, 0, 0, 0, 1, 0, 0, 0x80], [2, 0, 0, 0, 2, 0, 0, 0],
            [3, 0, 0, 0x80, 3, 0, 0, 0, 7, 8]], 3, 4) := by
    decide +kernel
  obtain ⟨s, hrun, hread⟩ := Option.map_eq_some_iff.mp heq
  simp only [Prod.mk.injEq] at hread
  obtain ⟨hdelivered, hfreed, haccepted, hdepartures, hpackets⟩ := hread
  have hfew : s.base.link.Few := by
    rw [Downlink.Few, hdepartures, hpackets]
    decide
  have hinit : (Racing.system (Duplex.host (fun _ => 0) .appending)).Init Duplex.fresh :=
    ⟨⟨⟨⟨_, _, _, _, rfl⟩, rfl, rfl, rfl⟩, rfl⟩, rfl, rfl⟩
  have hreaches := Transitions.Reaches.runOk (.init hinit) hrun
  exact ⟨s, hrun, hdelivered, hfreed, haccepted,
    duplex_delivered _ SizebufOps.appending_lawful hreaches hfew⟩

end QwNet
