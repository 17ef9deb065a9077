/-
  QwNet.Channel.Disconnect

  How a client leaves.

  `NetQW_Thread_Disconnect` sends the same message three times, past the packets that
  wait for the lag, with the next three numbers.  A server that is behind them takes the
  message with the first of the three that reaches it, and from then on nothing else of
  this client.
-/
import QwNet.Channel.Wire

namespace QwNet

namespace NetQW

/-- `disconnectmessage`: a header without the reliable bits, `clc_stringcmd`, and `drop`. -/
def disconnectmessage (q : NetQW) : List Byte :=
  writeLong q.currentOutgoingSequenceNumber ++ writeLong q.lastIncomingSequenceNumber ++
    writeShort q.qport ++ 4#8 :: (ascii "drop" ++ [0])

/-- One turn of the loop of `NetQW_Thread_Disconnect`. -/
def sendDisconnect (env : SendEnv) (q : NetQW) : NetQW :=
  let q := q.sendPacket env q.disconnectmessage true
  { q with currentOutgoingSequenceNumber := q.currentOutgoingSequenceNumber + 1#32 }

/-- `NetQW_Thread_Disconnect`. -/
def disconnect (env : Nat → SendEnv) (q : NetQW) : NetQW :=
  if q.state = .connected then (List.range 3).foldl (fun q i => q.sendDisconnect (env i)) q else q

/-- The message of turn `k`. -/
def farewell (q : NetQW) (k : Nat) : List Byte :=
  { q with currentOutgoingSequenceNumber :=
    q.currentOutgoingSequenceNumber + BitVec.ofNat 32 k }.disconnectmessage

/-! ## What is sent -/

section

variable {q : NetQW}

theorem length_disconnectmessage (q : NetQW) : q.disconnectmessage.length = 16 := rfl

/-- The message behind the header. -/
theorem drop_farewell (q : NetQW) (k : Nat) :
    (q.farewell k).drop 10 = 4#8 :: (ascii "drop" ++ [0]) := rfl

/-- With `force` a packet goes out at once. -/
theorem sendPacket_forced (hsound : ∀ ht ∈ q.huffcontext, ht.Sound) {packet : List Byte}
    (hlong : 10 ≤ packet.length) (hshort : packet.length < 1450) (env : SendEnv) :
    ∃ data, TravelsFor q.huffcontext 10 packet data ∧
      q.sendPacket env packet true = q.log [.netSend data] := by
  have hsend : ∀ data, q.sendOrQueue env data true = q.log [.netSend data] :=
    fun data => if_neg fun h => Bool.noConfusion h.2
  have hdatagram : ∃ data, q.datagram? ⟨env.now, true, env.stack⟩ packet = some data ∧
      q.sendPacket env packet true = q.log [.netSend data] := by
    unfold datagram? sendPacket
    rw [if_neg (by rintro (h | ⟨-, h⟩); exacts [by omega, Bool.noConfusion h]), if_neg (by omega)]
    cases hcontext : q.huffcontext with
    | none => exact ⟨packet, rfl, hsend packet⟩
    | some ht =>
      have hpos : (compress env.stack ht packet).1 ≠ 0 := by
        have hdrop : (packet.drop 10).length = packet.length - 10 := List.length_drop
        obtain ⟨hpos, -⟩ := huffCompressPacket_decompresses (hsound ht hcontext) (packet.drop 10)
          ((⟨env.stack, []⟩ : OutBuf).memcpy 0 (fun i => packet.getD i 0) 10) 10 (1500 - 10)
          (by unfold maxMsglen; omega) (by omega)
        exact Nat.ne_of_gt hpos
      dsimp only
      rw [if_neg hpos, if_neg hpos]
      exact ⟨_, rfl, hsend _⟩
  obtain ⟨data, hdata, hforced⟩ := hdatagram
  exact ⟨data, travelsFor_datagram hsound hlong hshort hdata, hforced⟩

/-- The turns of the loop. -/
theorem sendDisconnect_turns (hsound : ∀ ht ∈ q.huffcontext, ht.Sound) (env : Nat → SendEnv)
    (n : Nat) : ∃ farewells : List (List Byte), farewells.length = n ∧
      (∀ k data, farewells[k]? = some data → TravelsFor q.huffcontext 10 (q.farewell k) data) ∧
      (List.range n).foldl (fun q i => q.sendDisconnect (env i)) q = { q with
        currentOutgoingSequenceNumber := q.currentOutgoingSequenceNumber + BitVec.ofNat 32 n
        trace := q.trace ++ farewells.map .netSend } := by
  induction n with
  | zero =>
    refine ⟨[], rfl, fun k data h => absurd h.symm (Option.some_ne_none _), ?_⟩
    rw [List.range_zero, List.foldl_nil, List.map_nil, List.append_nil, BitVec.add_zero]
  | succ n ih =>
    obtain ⟨farewells, hlength, htravels, heq⟩ := ih
    rw [List.range_succ, List.foldl_append, heq, List.foldl_cons, List.foldl_nil]
    generalize hbefore : ({ q with
      currentOutgoingSequenceNumber := q.currentOutgoingSequenceNumber + BitVec.ofNat 32 n
      trace := q.trace ++ farewells.map .netSend } : NetQW) = before
    have hcontext : before.huffcontext = q.huffcontext := by rw [← hbefore]
    have hmessage : before.disconnectmessage = q.farewell n := by
      rw [← hbefore]
      rfl
    have hlength' := before.length_disconnectmessage
    obtain ⟨data, hdata, hforced⟩ := before.sendPacket_forced (hcontext ▸ hsound)
      (show 10 ≤ before.disconnectmessage.length by omega) (by omega) (env n)
    rw [hcontext, hmessage] at hdata
    refine ⟨farewells ++ [data], by rw [List.length_append, hlength]; rfl, fun k data' hk => ?_, ?_⟩
    · rcases Nat.lt_or_ge k n with hlt | hge
      · rw [List.getElem?_append_left (by omega)] at hk
        exact htravels k data' hk
      · rw [List.getElem?_append_right (by omega), hlength] at hk
        obtain ⟨hzero, rfl⟩ : k - n = 0 ∧ data = data' := by
          cases hkn : k - n with
          | zero =>
            rw [hkn] at hk
            exact ⟨rfl, Option.some.inj hk⟩
          | succ =>
            rw [hkn] at hk
            exact absurd hk.symm (Option.some_ne_none _)
        obtain rfl : k = n := by omega
        exact hdata
    · unfold sendDisconnect
      dsimp only
      rw [hforced, ← hbefore]
      have hnext : q.currentOutgoingSequenceNumber + BitVec.ofNat 32 n + 1#32
          = q.currentOutgoingSequenceNumber + BitVec.ofNat 32 (n + 1) := by
        rw [BitVec.add_assoc, BitVec.ofNat_add]
      unfold log
      dsimp only
      rw [hnext, List.map_append, ← List.append_assoc]
      rfl

end

end NetQW

/-- The number in the message of turn `k`. -/
theorem sequenceOf_farewell {q : NetQW} {k : Nat}
    (hfew : q.currentOutgoingSequenceNumber.toNat + k < 2 ^ 31) :
    (sequenceOf (q.farewell k)).toNat = q.currentOutgoingSequenceNumber.toNat + k ∧
      serverReadLong (q.farewell k) 0 ≠ -1#32 := by
  have hnumber : (q.currentOutgoingSequenceNumber + BitVec.ofNat 32 k).toNat
      = q.currentOutgoingSequenceNumber.toNat + k := by
    rw [BitVec.toNat_add, BitVec.toNat_ofNat]
    omega
  have hsequence : sequenceOf (q.farewell k)
      = (q.currentOutgoingSequenceNumber + BitVec.ofNat 32 k) &&& 0x7fffffff#32 := by
    unfold NetQW.farewell NetQW.disconnectmessage
    rw [List.append_assoc, List.append_assoc]
    exact number31_writeLong _ _
  have hread : serverReadLong (q.farewell k) 0
      = q.currentOutgoingSequenceNumber + BitVec.ofNat 32 k := readLong_writeLong _
  refine ⟨?_, fun heq => ?_⟩
  · rw [hsequence, and_mask_of_lt (hnumber ▸ hfew), hnumber]
  · rw [hread] at heq
    rw [heq] at hnumber
    exact absurd (hnumber ▸ hfew) (by decide)

/-! ## The wire behind a client that has left -/

/-- The client leaves; `none` while it is sending. -/
def Wire.leave (env : Nat → NetQW.SendEnv) (w : Wire) : Option Wire :=
  (w.link.client.outside fun q => some (q.disconnect env)).map fun c =>
    { w with link := { w.link with client := c } }

/-- Datagram `n` of the client or a later one arrives. -/
def WireAction.Brings (n : Nat) : WireAction → Prop
  | .process m _ _ => n ≤ m
  | .client _ | .write _ | .transmit .. => False

/-- All that the client has sent when it has left: the datagrams of its packets, and the last
    three. -/
structure Parting (huff : Option HuffTables) (q : NetQW) (farewells : List (List Byte)) : Prop where
  length : farewells.length = 3
  farewell : ∀ k data, farewells[k]? = some data → TravelsFor huff 10 (q.farewell k) data
  packet : ∀ data ∈ sent q.trace, serverReadLong data 0 = -1#32 ∨ ∃ p ∈ departures q.trace,
    10 ≤ p.1.length ∧ p.1.length < 1450 ∧ TravelsFor huff 10 p.1 data
  below : ∀ p ∈ departures q.trace,
    (sequenceOf p.1).toNat < q.currentOutgoingSequenceNumber.toNat
  few : q.currentOutgoingSequenceNumber.toNat + 2 < 2 ^ 31

/-- The server has let through packets of the client, and then `drops`; `k` is one more than the
    turn of the last of them. -/
structure Parted (q : NetQW) (farewells messages : List (List Byte)) (w : Wire) (k : Nat)
    (drops : List (List Byte)) : Prop where
  sent : sent w.link.client.netqw.trace = sent q.trace ++ farewells
  messages : ∃ ms, w.messages = messages ++ ms ++ drops ∧
    ∀ m ∈ ms, m ∈ (departures q.trace).map Prod.fst
  turns : drops.Sublist ((List.range k).map q.farewell)
  le : k ≤ 3
  heard : k = 0 ∧ drops = [] ∧
      w.link.server.incomingSequence.toNat < q.currentOutgoingSequenceNumber.toNat ∨
    0 < k ∧ drops ≠ [] ∧ w.link.server.incomingSequence.toNat + 1
      = q.currentOutgoingSequenceNumber.toNat + k

namespace Parted

variable {s : WireServer} {q : NetQW} {farewells messages : List (List Byte)} {w : Wire} {k : Nat}
  {drops : List (List Byte)}

/-- A datagram of a packet arrives. -/
theorem process_packet (h : Parted q farewells messages w k drops)
    (hparting : Parting s.huffcontext q farewells) (hmaxsize : 1450 ≤ s.maxsize)
    {p : List Byte × List ReliableBuffer} (hp : p ∈ departures q.trace) (hlong : 10 ≤ p.1.length)
    (hshort : p.1.length < 1450) {data : List Byte}
    (htravels : TravelsFor s.huffcontext 10 p.1 data) (stack behind : Nat → Byte) :
    Parted q farewells messages { w with
      link := { w.link with server := w.link.server.process data }
      messages := w.messages ++ w.link.server.messageOf s stack behind data } k drops := by
  obtain ⟨hprocess, -⟩ := ServerNetchan.process_travelsFor htravels w.link.server
  obtain ⟨hstale, hfresh⟩ := w.link.server.process_sequence (show 8 ≤ p.1.length by omega)
  have hbelow := hparting.below p hp
  rw [hprocess, WireOf.messageOf_eq hmaxsize hlong hshort htravels]
  by_cases hle : sequenceOf p.1 ≤ w.link.server.incomingSequence
  · rw [hstale hle, if_pos hle, List.append_nil]
    exact ⟨h.sent, h.messages, h.turns, h.le, h.heard⟩
  · -- only a server that has not heard the client leave lets it through
    have hlt := BitVec.lt_def.mp (BitVec.not_le.mp hle)
    rw [if_neg hle]
    rcases h.heard with ⟨rfl, rfl, -⟩ | ⟨hpos, -, hincoming⟩
    · obtain ⟨ms, hmessages, hms⟩ := h.messages
      refine ⟨h.sent, ⟨ms ++ [p.1], ?_, ?_⟩, h.turns, h.le, .inl ⟨rfl, rfl, ?_⟩⟩
      · show w.messages ++ [p.1] = _
        rw [hmessages, List.append_nil, List.append_nil, List.append_assoc]
      · exact List.forall_mem_append.mpr
          ⟨hms, List.forall_mem_singleton.mpr (List.mem_map_of_mem hp)⟩
      · show (w.link.server.process p.1).incomingSequence.toNat < _
        rw [hfresh hle]
        exact hbelow
    · omega

/-- The datagram of turn `j` arrives. -/
theorem process_farewell (h : Parted q farewells messages w k drops)
    (hparting : Parting s.huffcontext q farewells) (hmaxsize : 1450 ≤ s.maxsize) {j : Nat}
    (hj : j < 3) {data : List Byte} (htravels : TravelsFor s.huffcontext 10 (q.farewell j) data)
    (stack behind : Nat → Byte) :
    ∃ k' drops', drops' ≠ [] ∧ Parted q farewells messages { w with
      link := { w.link with server := w.link.server.process data }
      messages := w.messages ++ w.link.server.messageOf s stack behind data } k' drops' := by
  have hfew := hparting.few
  obtain ⟨hprocess, -⟩ := ServerNetchan.process_travelsFor htravels w.link.server
  obtain ⟨hsequence, -⟩ := sequenceOf_farewell (q := q) (k := j) (by omega)
  obtain ⟨hstale, hfresh⟩ :=
    w.link.server.process_sequence (show 8 ≤ (q.farewell j).length from Nat.le_add_right 8 8)
  have hlength : (q.farewell j).length = 16 := NetQW.length_disconnectmessage _
  rw [hprocess, WireOf.messageOf_eq hmaxsize (by omega) (by omega) htravels]
  by_cases hle : sequenceOf (q.farewell j) ≤ w.link.server.incomingSequence
  · -- the server has heard a later one
    have hle' := BitVec.le_def.mp hle
    rw [hstale hle, if_pos hle, List.append_nil]
    rcases h.heard with ⟨-, -, hlt⟩ | ⟨hpos, hdrops, hincoming⟩
    · omega
    · exact ⟨k, drops, hdrops, h.sent, h.messages, h.turns, h.le, .inr ⟨hpos, hdrops, hincoming⟩⟩
  · have hlt := BitVec.lt_def.mp (BitVec.not_le.mp hle)
    have hkj : k ≤ j := by
      rcases h.heard with ⟨rfl, -, -⟩ | ⟨-, -, hincoming⟩
      · exact Nat.zero_le j
      · omega
    rw [if_neg hle]
    obtain ⟨ms, hmessages, hms⟩ := h.messages
    refine ⟨j + 1, drops ++ [q.farewell j], List.concat_ne_nil _ _, h.sent, ⟨ms, ?_, hms⟩, ?_, hj,
      .inr ⟨Nat.succ_pos j, List.concat_ne_nil _ _, ?_⟩⟩
    · show w.messages ++ [q.farewell j] = _
      rw [hmessages, List.append_assoc]
    · rw [List.range_succ, List.map_append]
      exact (h.turns.trans ((List.range_sublist.mpr hkj).map _)).append (.refl _)
    · show (w.link.server.process (q.farewell j)).incomingSequence.toNat + 1 = _
      rw [hfresh hle, hsequence, Nat.add_assoc]

/-- A step without the client. -/
theorem step (h : Parted q farewells messages w k drops)
    (hparting : Parting s.huffcontext q farewells) (hmaxsize : 1450 ≤ s.maxsize)
    {angle16 : BitVec 32 → BitVec 16} {a : WireAction} (ha : a.WithoutClient) {w' : Wire}
    (hstep : Wire.step angle16 s a w = some w') :
    ∃ k' drops', Parted q farewells messages w' k' drops' ∧
      (drops' ≠ [] ↔ drops ≠ [] ∨ a.Brings (QwNet.sent q.trace).length) := by
  have hsame : ∀ {b : Prop}, ¬b → (drops ≠ [] ↔ drops ≠ [] ∨ b) := fun hb => (or_iff_left hb).symm
  cases a with
  | client => exact ha.elim
  | write data =>
    obtain ⟨link, hlink, rfl⟩ := Option.map_eq_some_iff.mp hstep
    obtain ⟨-, hlink⟩ := Option.ite_none_right_eq_some.mp hlink
    obtain rfl := Option.some.inj hlink
    exact ⟨k, drops, ⟨h.sent, h.messages, h.turns, h.le, h.heard⟩, hsame id⟩
  | transmit stack data =>
    obtain rfl := Option.some.inj hstep
    have hincoming : (w.link.server.transmit s.io data).1.incomingSequence
        = w.link.server.incomingSequence := by
      unfold ServerNetchan.transmit ServerNetchan.copyMessage
      split
      · rfl
      · split
        · rfl
        · rfl
    have hheard := h.heard
    rw [← hincoming] at hheard
    exact ⟨k, drops, ⟨h.sent, h.messages, h.turns, h.le, hheard⟩, hsame id⟩
  | process n stack behind =>
    obtain ⟨data, hdata, rfl⟩ := Option.map_eq_some_iff.mp hstep
    rw [h.sent] at hdata
    have hlength := hparting.length
    rcases Nat.lt_or_ge n (QwNet.sent q.trace).length with hlt | hge
    · -- one from before it left
      rw [List.getElem?_append_left hlt] at hdata
      refine ⟨k, drops, ?_, hsame (Nat.not_le.mpr hlt)⟩
      split
      · exact h
      · rename_i hchannel
        obtain ⟨p, hp, hlong, hshort, htravels⟩ :=
          (hparting.packet data (List.mem_of_getElem? hdata)).resolve_left hchannel
        exact h.process_packet hparting hmaxsize hp hlong hshort htravels stack behind
    · rw [List.getElem?_append_right hge] at hdata
      have hj : n - (QwNet.sent q.trace).length < 3 := by
        obtain ⟨hj, -⟩ := List.getElem?_eq_some_iff.mp hdata
        omega
      have htravels := hparting.farewell _ _ hdata
      have hfew := hparting.few
      obtain ⟨-, hchannel⟩ := sequenceOf_farewell (q := q)
        (k := n - (QwNet.sent q.trace).length) (by omega)
      obtain ⟨-, hread⟩ := ServerNetchan.process_travelsFor htravels w.link.server
      rw [if_neg (hread ▸ hchannel)]
      obtain ⟨k', drops', hdrops, hparted⟩ :=
        h.process_farewell hparting hmaxsize hj htravels stack behind
      exact ⟨k', drops', hparted, iff_of_true hdrops (.inr hge)⟩

/-- A run without the client. -/
theorem run (hparting : Parting s.huffcontext q farewells) (hmaxsize : 1450 ≤ s.maxsize)
    {angle16 : BitVec 32 → BitVec 16} {as : List WireAction} (has : ∀ a ∈ as, a.WithoutClient)
    {w w' : Wire} {k : Nat} {drops : List (List Byte)} (h : Parted q farewells messages w k drops)
    (hrun : (Wire.system angle16 s).run as w = some w') :
    ∃ k' drops', Parted q farewells messages w' k' drops' ∧
      (drops' ≠ [] ↔ drops ≠ [] ∨ ∃ a ∈ as, a.Brings (QwNet.sent q.trace).length) := by
  induction as generalizing w k drops with
  | nil =>
    obtain rfl := Option.some.inj hrun
    refine ⟨k, drops, h, (or_iff_left ?_).symm⟩
    rintro ⟨a, ha, -⟩
    exact absurd ha List.not_mem_nil
  | cons a as ih =>
    obtain ⟨hfirst, hrest⟩ := List.forall_mem_cons.mp has
    obtain ⟨w₁, hstep, hrun⟩ := Transitions.run_cons.mp hrun
    obtain ⟨k₁, drops₁, h₁, hdrops₁⟩ := h.step hparting hmaxsize hfirst hstep
    obtain ⟨k₂, drops₂, h₂, hdrops₂⟩ := ih hrest h₁ hrun
    refine ⟨k₂, drops₂, h₂, hdrops₂.trans ?_⟩
    rw [hdrops₁, or_assoc]
    simp only [List.mem_cons, exists_eq_or_imp]

end Parted

/-- A connected client leaves, and the server has not heard of it. -/
theorem WireOf.leave {angle16 : BitVec 32 → BitVec 16} {s : WireServer} {w : Wire} {d : Duplex}
    (h : WireOf angle16 s w d) (hio : s.io.Lawful) (hfew : w.link.Few)
    (hmore : (departures w.link.client.netqw.trace).length + 3 < 2 ^ 31)
    (hstate : w.link.client.netqw.state = .connected) {env : Nat → NetQW.SendEnv} {w' : Wire}
    (hleave : w.leave env = some w') : ∃ farewells,
      Parting s.huffcontext w.link.client.netqw farewells ∧
      Parted w.link.client.netqw farewells w.messages w' 0 [] := by
  obtain ⟨c, hc, rfl⟩ := Option.map_eq_some_iff.mp hleave
  obtain ⟨hpc, rfl⟩ := Client.outside_total (f := NetQW.disconnect env) hc
  have hcontext : w.link.client.netqw.huffcontext = s.huffcontext :=
    h.agreed.context (by rw [hstate]; exact ConnState.noConfusion)
  obtain ⟨farewells, hlength, hfarewell, heq⟩ :=
    w.link.client.netqw.sendDisconnect_turns (hcontext ▸ s.sound) env 3
  rw [hcontext] at hfarewell
  rw [← h.link] at hfew
  obtain ⟨t, ht, hof⟩ := duplexOf_of_reaches hio h.duplex hfew
  have hsender : SenderOf w.link.client t := by
    rw [← h.link]
    exact hof.up.sender
  have hhigh : w.link.server.incomingSequence.toNat = t.high := by
    rw [← h.link]
    exact hof.up.high
  -- the next number of the client is that of the protocol
  have hsound := AlternatingBit.sound ht
  have hnext := hsender.next
  have hcurrent := hsender.current
  rw [hpc] at hnext hcurrent
  have hsame : w.link.client.netqw.currentOutgoingSequenceNumber.toNat = t.next :=
    hcurrent.trans hnext.symm
  have hsent : sent (w.link.client.netqw.disconnect env).trace
      = sent w.link.client.netqw.trace ++ farewells := by
    unfold NetQW.disconnect
    rw [if_pos hstate, heq]
    show sent (w.link.client.netqw.trace ++ _) = _
    rw [sent, List.filterMap_append, List.filterMap_map]
    exact congrArg _ (List.filterMap_some ..)
  refine ⟨farewells, ⟨hlength, hfarewell, fun data hdata => ?_, fun p hp => ?_, ?_⟩, hsent,
    ⟨[], ?_, fun m hm => absurd hm List.not_mem_nil⟩, .refl _, Nat.zero_le 3,
    .inl ⟨rfl, rfl, ?_⟩⟩
  · exact h.outgoing data (List.mem_append_left _ hdata)
  · rw [hsame]
    exact hsound.lt_next _ (hsender.departures p hp).1
  · have hnext' : t.next = (departures w.link.client.netqw.trace).length + 1 := hnext
    omega
  · rw [List.append_nil, List.append_nil]
  · rw [hsame]
    exact hhigh ▸ hsound.high_lt

/-- A connected client that leaves sends three datagrams at once.  Whatever the network does with
    all that was ever sent, the server is given `drop` if and only if one of the three arrives;
    before it, packets of the client, and after it, nothing but `drop`. -/
theorem wire_dropped (angle16 : BitVec 32 → BitVec 16) {server : WireServer}
    (hio : server.io.Lawful) (hmaxsize : 1450 ≤ server.maxsize) {s : Racing Wire}
    (h : (Racing.system (Wire.host angle16 server)).Reaches
      (RacingOk (Wire.host angle16 server) (WireOk server)) s) (hfew : s.base.link.Few)
    (hmore : (departures s.base.link.client.netqw.trace).length + 3 < 2 ^ 31)
    (hstate : s.base.link.client.netqw.state = .connected) {env : Nat → NetQW.SendEnv} {w : Wire}
    (hleave : s.base.leave env = some w) {as : List WireAction} (has : ∀ a ∈ as, a.WithoutClient)
    {w' : Wire} (hrun : (Wire.system angle16 server).run as w = some w') :
    (sent w'.link.client.netqw.trace).length
      = (sent s.base.link.client.netqw.trace).length + 3 ∧
    ∃ ms drops, w'.messages = s.base.messages ++ ms ++ drops ∧
      (∀ m ∈ ms, m ∈ (departures s.base.link.client.netqw.trace).map Prod.fst) ∧
      (∀ m ∈ drops, m.drop 10 = 4#8 :: (ascii "drop" ++ [0])) ∧ drops.length ≤ 3 ∧
      (drops ≠ [] ↔ ∃ a ∈ as, a.Brings (sent s.base.link.client.netqw.trace).length) := by
  obtain ⟨d, hof⟩ := wireOf_of_reaches hio hmaxsize (Racing.base_of_reaches h).1 hfew
  obtain ⟨farewells, hparting, hparted⟩ := hof.leave hio hfew hmore hstate hleave
  obtain ⟨k, drops, hparted', hdrops⟩ := Parted.run hparting hmaxsize has hparted hrun
  obtain ⟨ms, hmessages, hms⟩ := hparted'.messages
  refine ⟨?_, ms, drops, hmessages, hms, fun m hm => ?_, ?_, ?_⟩
  · rw [hparted'.sent, List.length_append, hparting.length]
  · obtain ⟨j, -, rfl⟩ := List.mem_map.mp (hparted'.turns.subset hm)
    exact NetQW.drop_farewell _ j
  · have hle := hparted'.turns.length_le
    rw [List.length_map, List.length_range] at hle
    exact Nat.le_trans hle hparted'.le
  · rw [hdrops]
    exact or_iff_right fun hne => hne rfl

/-- The second of the three datagrams arrives, then the packets from before, which were let through
    already, then the third and the first. -/
def Wire.leavingRun : List WireAction :=
  [3, 0, 1, 4, 2].map fun n => .process n (fun _ => 0) fun _ => 0

/-- The server is given `drop` twice. -/
theorem wire_dropped_huffman : ∃ s w w', (Racing.system (Wire.host (fun _ => 0) .huffman)).runOk
      (RacingOk (Wire.host (fun _ => 0) .huffman) (WireOk .huffman)) Wire.huffmanRun Wire.fresh
        = some s ∧
    s.base.leave (fun _ => ⟨14000#64, true, fun _ => 0⟩) = some w ∧
    (Wire.system (fun _ => 0) .huffman).run Wire.leavingRun w = some w' ∧
    w'.messages.map List.length = [24, 22, 16, 16] ∧
    (sent w'.link.client.netqw.trace).length
      = (sent s.base.link.client.netqw.trace).length + 3 ∧
    ∃ ms drops, w'.messages = s.base.messages ++ ms ++ drops ∧
      (∀ m ∈ ms, m ∈ (departures s.base.link.client.netqw.trace).map Prod.fst) ∧
      (∀ m ∈ drops, m.drop 10 = 4#8 :: (ascii "drop" ++ [0])) ∧ drops.length ≤ 3 ∧
      (drops ≠ [] ↔
        ∃ a ∈ Wire.leavingRun, a.Brings (sent s.base.link.client.netqw.trace).length) := by
  have heq : (((Racing.system (Wire.host (fun _ => 0) .huffman)).runOk
      (RacingOk (Wire.host (fun _ => 0) .huffman) (WireOk .huffman)) Wire.huffmanRun
      Wire.fresh).bind fun s => (s.base.leave fun _ => ⟨14000#64, true, fun _ => 0⟩).bind fun w =>
        ((Wire.system (fun _ => 0) .huffman).run Wire.leavingRun w).map fun w' =>
          (w'.messages.map List.length, s.base.link.client.netqw.state,
            (departures s.base.link.client.netqw.trace).length, s.base.link.packets.length))
      = some ([24, 22, 16, 16], .connected, 2, 2) := by
    decide +kernel
  obtain ⟨s, hrun, heq⟩ := Option.bind_eq_some_iff.mp heq
  obtain ⟨w, hleave, heq⟩ := Option.bind_eq_some_iff.mp heq
  obtain ⟨w', hrun', hread⟩ := Option.map_eq_some_iff.mp heq
  simp only [Prod.mk.injEq] at hread
  obtain ⟨hmessages, hstate, hdepartures, hpackets⟩ := hread
  have hfew : s.base.link.Few := by
    rw [Downlink.Few, hdepartures, hpackets]
    decide
  have hinit : (Racing.system (Wire.host (fun _ => 0) .huffman)).Init Wire.fresh :=
    ⟨⟨⟨⟨_, _, _, _, rfl⟩, rfl, rfl, rfl⟩, rfl, rfl⟩, rfl, rfl⟩
  have hreaches := Transitions.Reaches.runOk (.init hinit) hrun
  have has : ∀ a ∈ Wire.leavingRun, a.WithoutClient := by
    intro a ha
    obtain ⟨n, -, rfl⟩ := List.mem_map.mp ha
    trivial
  exact ⟨s, w, w', hrun, hleave, hrun', hmessages, wire_dropped _ SizebufOps.appending_lawful
    (Nat.le_refl _) hreaches hfew (by rw [hdepartures]; decide) hstate hleave has hrun'⟩

end QwNet
