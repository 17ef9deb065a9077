/-
  QwNet.Channel.Wire

  The two ends of the channel, with what is between them.

  What travels are datagrams: those that the client gives to `Sys_Net_Send`, and those
  that `Netchan_Transmit` sends.  If the handshake has agreed on compression they are not
  the packets.  Still every run of the two ends is one that exchanges the packets
  themselves.
-/
import QwNet.Channel.Datagram
import QwNet.Channel.Duplex
import QwNet.Channel.Handshake

namespace QwNet

/-! ## The ends and the network -/

/-- The server: what is not in the repository, the checksum of the table that it has offered and
    uses, and the size of the buffer for its messages. -/
structure WireServer where
  io : SizebufOps
  huffcrc : Option (BitVec 32)
  maxsize : Nat

/-- `chan->huffcontext`. -/
def WireServer.huffcontext (s : WireServer) : Option HuffTables := s.huffcrc.bind huffInit

/-- The parties with the packets of the server, the datagrams that it has sent for them, and the
    messages that `Netchan_Process` has let through. -/
structure Wire where
  link : Downlink
  datagrams : List (List Byte)
  messages : List (List Byte)

/-- A step of the client, or of the server: bytes are written to the reliable message, a packet
    is sent, and datagram `n` of the client arrives. -/
inductive WireAction where
  | client (a : Action)
  | write (data : List Byte)
  | transmit (stack : Nat → Byte) (data : List Byte)
  | process (n : Nat) (stack behind : Nat → Byte)

/-- A step of the server, or of the network. -/
def WireAction.WithoutClient : WireAction → Prop
  | .client _ => False
  | .write _ | .transmit .. | .process .. => True

instance (a : WireAction) : Decidable a.WithoutClient :=
  match a with
  | .client _ => instDecidableFalse
  | .write _ | .transmit .. | .process .. => instDecidableTrue

/-- Whether a step is one of the network thread. -/
def WireAction.ofNetworkThread : WireAction → Bool
  | .client a => a.ofNetworkThread
  | .write _ | .transmit .. | .process .. => false

/-- The command that another thread of the client appends. -/
def WireAction.appended? : WireAction → Option ReliableBuffer
  | .client a => a.appended?
  | .write _ | .transmit .. | .process .. => none

/-- The message that `Netchan_Process` lets through. -/
def ServerNetchan.messageOf (s : WireServer) (stack behind : Nat → Byte) (data : List Byte)
    (chan : ServerNetchan) : List (List Byte) :=
  if serverReadLong data 0 &&& 0x7fffffff#32 ≤ chan.incomingSequence then []
  else
    match s.huffcontext with
    | some ht => [huffDecompressPacketSizebuf ht stack behind data s.maxsize 10]
    | none => [data]

namespace Wire

/-- What the client accepts is a datagram of the server, and the challenge that it takes up offers
    what the server uses. -/
def FromWire (s : WireServer) (a : Action) (w : Wire) : Prop :=
  ∀ arrival ∈ a.arrival?,
    (∀ data ∈ w.link.client.netqw.accepts? arrival.1 arrival.2.1 arrival.2.2,
      arrival.2.2 ∈ w.datagrams) ∧
    (arrival.2.1 = w.link.client.netqw.addr → w.link.client.netqw.state = .sendchallenge →
      ∀ p ∈ Challenge.ofDatagram arrival.2.2, p.huffman = s.huffcrc)

instance (s : WireServer) (a : Action) (w : Wire) : Decidable (w.FromWire s a) :=
  inferInstanceAs (Decidable (∀ arrival ∈ a.arrival?, (∀ data ∈ _, _) ∧ _))

/-- What an action does; `none` where it is not possible.  Connectionless datagrams are none of the
    channel's. -/
def step (angle16 : BitVec 32 → BitVec 16) (s : WireServer) (a : WireAction) (w : Wire) :
    Option Wire :=
  match a with
  | .client a =>
    if w.FromWire s a then
      (Client.step angle16 a w.link.client).map fun c => { w with
        link := { w.link with client := c } }
    else none
  | .write data =>
    (Downlink.step angle16 s.io (.write data) w.link).map fun link => { w with link := link }
  | .transmit stack data =>
    let r := w.link.server.transmit s.io data
    some { w with
      link := { w.link with
        server := r.1
        packets := w.link.packets ++ r.2.toList }
      datagrams := w.datagrams ++
        (r.2.map fun p => ServerNetchan.datagram s.huffcontext stack p.1).toList }
  | .process n stack behind =>
    (sent w.link.client.netqw.trace)[n]?.map fun data =>
      if serverReadLong data 0 = -1#32 then w
      else { w with
        link := { w.link with server := w.link.server.process data }
        messages := w.messages ++ w.link.server.messageOf s stack behind data }

/-- Nothing was sent yet. -/
def system (angle16 : BitVec 32 → BitVec 16) (s : WireServer) : Transitions Wire WireAction where
  Init w := (Downlink.system angle16 s.io).Init w.link ∧ w.datagrams = [] ∧ w.messages = []
  step := step angle16 s

end Wire

/-- As for the packets themselves; if the server compresses it leaves three bytes of its buffer to
    spare. -/
def WireOk (s : WireServer) (a : WireAction) (w : Wire) : Prop :=
  match a with
  | .client a => (∀ b ∈ a.appended?, b.Ordinary) ∧ LagOk a w.link.client
  | .transmit _ data => w.link.server.outgoingSequence ≤ w.link.server.incomingSequence ∧
    (s.huffcrc.isSome → ∀ p ∈ (w.link.server.transmit s.io data).2, p.1.length + 3 ≤ sendMaxsize)
  | .write _ | .process .. => True

instance (s : WireServer) (a : WireAction) (w : Wire) : Decidable (WireOk s a w) :=
  match a with
  | .client a => inferInstanceAs (Decidable ((∀ b ∈ a.appended?, b.Ordinary) ∧ LagOk a _))
  | .transmit _ _ => inferInstanceAs (Decidable ((_ : BitVec 32) ≤ _ ∧ (_ → ∀ p ∈ _, _)))
  | .write _ | .process .. => instDecidableTrue

/-! ## What the handshake has agreed on -/

/-- Both ends use the same table, from the challenge on. -/
structure Agreed (huff : Option HuffTables) (c : Client) : Prop where
  known : c.netqw.state ≠ .uninitialised
  fresh : c.netqw.state = .sendchallenge → c.netqw.huffcontext = none
  context : c.netqw.state ≠ .sendchallenge → c.netqw.huffcontext = huff
  sending : c.pc ≠ .idle → c.netqw.state = .connected

/-- What the ends have to agree on. -/
def NetQW.agreementView (q : NetQW) : ConnState × Option HuffTables := (q.state, q.huffcontext)

/-- Nothing but a datagram changes it. -/
abbrev AgreementKept (q q' : NetQW) : Prop := Keeps NetQW.agreementView (fun _ => True) q q'

theorem readsNoReplies_agreement : ReadsNoReplies NetQW.agreementView fun _ => True :=
  ⟨fun _ _ => rfl, fun _ _ _ _ _ _ _ _ => rfl, fun _ _ => trivial⟩

theorem readsNoPackets_agreement : ReadsNoPackets NetQW.agreementView fun _ => True :=
  ⟨fun _ _ => rfl, fun _ _ _ _ _ => rfl, fun _ _ => trivial⟩

namespace Client

variable {angle16 : BitVec 32 → BitVec 16} {a : Action} {c c' : Client}

/-- A step agrees on nothing, and begins to send only if the client is connected; or it is a
    datagram that arrives. -/
theorem step_agreement (h : step angle16 a c = some c') :
    (AgreementKept c.netqw c'.netqw ∧
      (c.pc = .idle → c'.pc = .idle ∨ c'.netqw.state = .connected)) ∨
    ∃ env source datagram, a = .receive env source datagram ∧ c.pc = .idle ∧
      c' = ⟨c.netqw.receive env source datagram, .idle⟩ := by
  have hframes : ReadsNoFrames NetQW.agreementView fun _ => True :=
    ⟨fun _ _ => rfl, fun _ _ _ _ _ _ _ _ _ _ _ _ _ _ => rfl, fun _ _ => trivial⟩
  have hsending : ReadsNoSending NetQW.agreementView fun _ => True :=
    ⟨fun _ _ => rfl, fun _ _ _ _ => rfl, fun _ => trivial⟩
  cases a
  case receive env source datagram =>
    obtain ⟨hpc, rfl⟩ := outside_total (f := NetQW.receive env source datagram) h
    exact .inr ⟨env, source, datagram, rfl, hpc, rfl⟩
  all_goals left
  case append buffer =>
    obtain rfl := Option.some.inj h
    exact ⟨⟨rfl, [.append buffer], rfl, List.forall_mem_singleton.mpr trivial⟩, .inl⟩
  case freePacket =>
    obtain ⟨q', hq', rfl⟩ := Option.map_eq_some_iff.mp h
    exact ⟨readsNoPackets_agreement.freePacket hq', .inl⟩
  case clampDelays curtime =>
    obtain ⟨-, rfl⟩ := outside_total (f := NetQW.clampDelays curtime) h
    exact ⟨readsNoPackets_agreement.clampDelays curtime, fun _ => .inl rfl⟩
  case handleDelayed curtime =>
    obtain ⟨-, q', hq', rfl⟩ := outside_spec h
    exact ⟨readsNoPackets_agreement.handleDelayed readsNoReplies_agreement hq', fun _ => .inl rfl⟩
  case addReliables =>
    obtain ⟨buf, hpc, rfl⟩ := addReliables_spec h
    exact ⟨keeps_rememberReliables _ (fun _ _ _ _ => rfl) _, fun hidle =>
      SendPc.noConfusion (hpc.symm.trans hidle)⟩
  case finishPacket =>
    obtain ⟨hpc, rfl⟩ := finishPacket_spec h
    exact ⟨⟨rfl, [_], rfl, List.forall_mem_singleton.mpr trivial⟩, fun hidle =>
      SendPc.noConfusion (hpc.symm.trans hidle)⟩
  case submitPacket env =>
    obtain ⟨buf, reliable, hpc, -⟩ := submitPacket_spec h
    exact ⟨hsending.submit (fun _ _ => trivial) (fun _ _ => rfl) h, fun hidle =>
      SendPc.noConfusion (hpc.symm.trans hidle)⟩
  case clampSends =>
    obtain ⟨-, rfl⟩ := outside_total (f := NetQW.clampSends _) h
    exact ⟨(hsending.step rfl h).1, fun _ => .inl rfl⟩
  case sendDelayed =>
    obtain ⟨-, q', -, rfl⟩ := outside_spec h
    exact ⟨(hsending.step rfl h).1, fun _ => .inl rfl⟩
  case beginSend curtime stack =>
    refine ⟨(hsending.step rfl h).1, fun _ => ?_⟩
    obtain ⟨-, rfl⟩ := beginSend_spec h
    split
    · rename_i hstate
      exact .inr hstate
    · exact .inl rfl
  all_goals
    obtain ⟨hkeeps, hpc⟩ := hframes.step rfl h
    exact ⟨hkeeps, fun hidle => .inl (hpc hidle)⟩

end Client

namespace Agreed

variable {huff : Option HuffTables} {c c' : Client}

/-- What is agreed on stays. -/
theorem kept (h : Agreed huff c) (hkept : AgreementKept c.netqw c'.netqw)
    (hpc : c.pc = .idle → c'.pc = .idle ∨ c'.netqw.state = .connected) : Agreed huff c' := by
  have hstate : c'.netqw.state = c.netqw.state := congrArg Prod.fst hkept.view
  have hcontext : c'.netqw.huffcontext = c.netqw.huffcontext := congrArg Prod.snd hkept.view
  refine ⟨fun hs => h.known (hstate.symm.trans hs), fun hs => ?_, fun hs => ?_, fun hne => ?_⟩
  · rw [hcontext]
    exact h.fresh (hstate.symm.trans hs)
  · rw [hcontext]
    exact h.context fun heq => hs (hstate.trans heq)
  · by_cases hidle : c.pc = .idle
    · exact (hpc hidle).resolve_left hne
    · rw [hstate]
      exact h.sending hidle

/-- A datagram arrives. -/
theorem receive {s : WireServer} (h : Agreed s.huffcontext c) {env : NetQW.SendEnv}
    {source : NetAddr} {datagram : List Byte}
    (hoffer : source = c.netqw.addr → c.netqw.state = .sendchallenge →
      ∀ p ∈ Challenge.ofDatagram datagram, p.huffman = s.huffcrc) :
    Agreed s.huffcontext ⟨c.netqw.receive env source datagram, .idle⟩ := by
  have hsame : ∀ q : NetQW, AgreementKept c.netqw q → Agreed s.huffcontext ⟨q, .idle⟩ :=
    fun q hkept => h.kept hkept fun _ => .inl rfl
  by_cases hsource : source = c.netqw.addr
  · cases hstate : c.netqw.state with
    | uninitialised => exact absurd hstate h.known
    | sendchallenge =>
      rw [receive_asking hstate hsource]
      rcases receiveChallenge_cases c.netqw env.stack datagram with ⟨-, heq⟩ |
        ⟨text, data, hsome, heq⟩
      · rw [heq]
        exact hsame _ (.refl _)
      · -- the challenge is taken up, and with it the table of the server
        have hholding := holding_noteExtensions (h.fresh hstate) (atoi text) data
        have hoffered := hoffer hsource hstate _ hsome
        rw [heq]
        refine ⟨ConnState.noConfusion, ConnState.noConfusion, fun _ => ?_,
          fun hne => absurd rfl hne⟩
        rw [hholding.context, hoffered]
        rfl
    | sendconnection =>
      rw [receive_answering hstate hsource, NetQW.receiveConnection]
      have hcontext : c.netqw.huffcontext = s.huffcontext :=
        h.context (by rw [hstate]; exact ConnState.noConfusion)
      split
      · split
        · exact ⟨ConnState.noConfusion, ConnState.noConfusion, fun _ => hcontext,
            fun hne => absurd rfl hne⟩
        · exact ⟨ConnState.noConfusion, ConnState.noConfusion, fun _ => hcontext,
            fun hne => absurd rfl hne⟩
      · exact hsame _ (.refl _)
    | connected =>
      refine hsame _ ?_
      rw [NetQW.receive, hstate]
      dsimp only
      split
      · exact readsNoPackets_agreement.receivePacket readsNoReplies_agreement _ _ _ _
      · exact .refl _
  · have hignored : c.netqw.receive env source datagram = c.netqw :=
      if_neg fun hboth => hsource hboth.2
    rw [hignored]
    exact hsame _ (.refl _)

/-- A step of the client. -/
theorem step {s : WireServer} {angle16 : BitVec 32 → BitVec 16} {a : Action} {w : Wire}
    (h : Agreed s.huffcontext w.link.client) (hfrom : w.FromWire s a)
    (hstep : Client.step angle16 a w.link.client = some c') : Agreed s.huffcontext c' := by
  rcases Client.step_agreement hstep with ⟨hkept, hpc⟩ | ⟨env, source, datagram, rfl, -, rfl⟩
  · exact h.kept hkept hpc
  · exact h.receive (hfrom _ rfl).2

end Agreed

/-! ## What the client sends -/

/-- The packet is longer than its header, and stays below the limit. -/
def SendPc.Fits : SendPc → Prop
  | .delta buf => 13 ≤ buf.length ∧ buf.length ≤ 61
  | .tmove buf => 13 ≤ buf.length ∧ buf.length ≤ 63
  | .reliable buf => 13 ≤ buf.length ∧ buf.length ≤ 70
  | .submit buf _ => 13 ≤ buf.length ∧ buf.length < 1450
  | .idle | .generate | .loop | .finish => True

theorem SendPc.Away.fits {pc : SendPc} (h : pc.Away) : pc.Fits := by
  cases pc
  case idle | generate | loop | finish => trivial
  all_goals exact h.elim

theorem length_appendReliables_fits {q : NetQW} {base : List Byte} (hlong : 13 ≤ base.length)
    (hshort : base.length ≤ 70) (hqueue : ∀ b ∈ q.reliableQueue, b.Ordinary) :
    13 ≤ (q.appendReliables base).length ∧ (q.appendReliables base).length < 1450 := by
  have hlength := length_appendReliables q (show 3 < base.length by omega)
  have hfits : Fitting.total ReliableBuffer.length (q.reliables base.length) + base.length
      < 1450 := by
    unfold NetQW.reliables
    split
    · have hlongest := longest_fitting (i := base.length) (by omega) fun b hb => (hqueue b hb).2
      have hfits := hlongest.fits
      omega
    · rw [Fitting.total_nil]
      omega
  omega

namespace Client

variable {angle16 : BitVec 32 → BitVec 16} {a : Action} {c c' : Client}

theorem fits_step (hc : c.pc.Fits) (hqueue : ∀ b ∈ c.netqw.reliableQueue, b.Ordinary)
    (h : step angle16 a c = some c') : c'.pc.Fits := by
  cases step_build h with
  | same hpc =>
    rw [hpc]
    exact hc
  | away _ haway => exact haway.fits
  | begun _ hpc =>
    rw [hpc]
    exact length_beginPacket angle16 c.netqw
  | delta buf hpc hpc' =>
    rw [hpc] at hc
    rw [hpc']
    obtain ⟨hlong, hshort⟩ := hc
    have hdelta := length_deltaBytes c.netqw
    show 13 ≤ (buf ++ c.netqw.deltaBytes).length ∧ (buf ++ c.netqw.deltaBytes).length ≤ 63
    rw [List.length_append]
    omega
  | tmove buf hpc hpc' =>
    rw [hpc] at hc
    rw [hpc']
    obtain ⟨hlong, hshort⟩ := hc
    have htmove := length_tmoveBytes c.netqw
    show 13 ≤ (buf ++ c.netqw.tmoveBytes).length ∧ (buf ++ c.netqw.tmoveBytes).length ≤ 70
    rw [List.length_append]
    omega
  | reliable buf hpc hpc' =>
    rw [hpc] at hc
    rw [hpc']
    exact length_appendReliables_fits hc.1 hc.2 hqueue
  | sent _ _ _ hpc =>
    rw [hpc]
    trivial

end Client

/-- The datagrams that were sent, and those that wait to be. -/
def NetQW.outgoing (q : NetQW) : List (List Byte) := sent q.trace ++ q.sendQueue.map SendPacket.data

section

variable {q q' : NetQW} {data : List Byte}

theorem outgoing_netSend (q : NetQW) (data : List Byte) :
    (q.log [.netSend data]).outgoing
      = sent q.trace ++ [data] ++ q.sendQueue.map SendPacket.data := by
  show sent (q.trace ++ [.netSend data]) ++ _ = _
  rw [sent, List.filterMap_append]
  rfl

theorem mem_outgoing_netSend {data' : List Byte} (h : data' ∈ (q.log [.netSend data]).outgoing) :
    data' ∈ q.outgoing ∨ data' = data := by
  rw [outgoing_netSend] at h
  simp only [List.mem_append, List.mem_singleton] at h
  unfold NetQW.outgoing
  rw [List.mem_append]
  tauto

/-- `NetQW_Thread_SendPacket` sends its datagram now or later. -/
theorem mem_outgoing_passOn {now : BitVec 64} {datagram : Option (List Byte)}
    (h : data ∈ (q.passOn now datagram).outgoing) : data ∈ q.outgoing ∨ data ∈ datagram.toList := by
  cases datagram with
  | none => exact .inl h
  | some sent =>
    unfold NetQW.passOn at h
    dsimp only at h
    split at h
    · -- it waits at the end of the queue
      have hqueue : (q.queuePacket now sent).outgoing = q.outgoing ++ [sent] := by
        unfold NetQW.outgoing NetQW.queuePacket
        dsimp only
        rw [List.map_append, ← List.append_assoc]
        rfl
      rw [hqueue] at h
      exact List.mem_append.mp h
    · exact (mem_outgoing_netSend h).imp_right fun heq => List.mem_singleton.mpr heq

theorem mem_outgoing_resend {curtime : BitVec 64} {stack : Nat → Byte}
    (h : data ∈ (q.resend curtime stack).outgoing) :
    data ∈ q.outgoing ∨ data ∈ q.requests curtime stack := by
  have hset : ∀ (q : NetQW) time, (q.setResendtime time).outgoing = q.outgoing := fun _ _ => rfl
  unfold NetQW.resend at h
  unfold NetQW.requests
  split at h
  · rename_i htime
    rw [hset] at h
    rw [if_pos htime]
    split at h
    · rename_i hstate
      rw [if_pos hstate]
      exact (mem_outgoing_netSend h).imp_right fun heq => List.mem_singleton.mpr heq
    · rename_i hstate
      rw [if_neg hstate]
      unfold NetQW.sendConnectRequest at h
      dsimp only at h ⊢
      split at h
      · rename_i hfits
        rw [if_pos hfits]
        exact (mem_outgoing_netSend h).imp_right fun heq => List.mem_singleton.mpr heq
      · exact .inl h
  · exact .inl h

theorem SendSilent.outgoing_eq (h : SendSilent q q') : q'.outgoing = q.outgoing := by
  have hsent : sent q'.trace = sent q.trace := h.filterMap fun _ he => he
  unfold NetQW.outgoing
  rw [h.view, hsent]

/-- What asks for a connection is connectionless. -/
theorem requests_connectionless {curtime : BitVec 64} {stack : Nat → Byte}
    (h : data ∈ q.requests curtime stack) : serverReadLong data 0 = -1#32 := by
  have hhead : ∀ rest : List Byte, serverReadLong (List.replicate 4 0xff#8 ++ rest) 0 = -1#32 := by
    intro rest
    unfold serverReadLong
    rw [if_neg (by rw [List.length_append, List.length_replicate]; omega),
      readLong_append List.length_replicate]
    decide
  unfold NetQW.requests at h
  split at h
  · split at h
    · rw [List.mem_singleton.mp h]
      exact hhead _
    · dsimp only at h
      split at h
      · rename_i hfits
        rw [List.mem_singleton.mp h, connectRequest_eq hfits, NetQW.connectLine]
        simp only [List.append_assoc]
        exact hhead _
      · exact absurd h List.not_mem_nil
  · exact absurd h List.not_mem_nil

end

namespace Client

variable {angle16 : BitVec 32 → BitVec 16} {a : Action} {c c' : Client}

/-- Only what a step hands over is new. -/
theorem step_outgoing (h : step angle16 a c = some c') :
    ∀ data ∈ c'.netqw.outgoing, data ∈ c.netqw.outgoing ∨ data ∈ c.submits a := by
  intro data hdata
  rcases step_sendSilent h with ⟨hsilent, -⟩ | ⟨curtime, rfl, heq⟩ | ⟨curtime, rfl, hsend⟩ |
    ⟨curtime, stack, rfl⟩ | ⟨env, rfl⟩
  · rw [hsilent.outgoing_eq] at hdata
    exact .inl hdata
  · -- the sanity check moves times only
    left
    have hsame : (c.netqw.clampSends curtime).outgoing = c.netqw.outgoing := by
      unfold NetQW.clampSends
      split
      · rfl
      · split
        · unfold NetQW.outgoing
          dsimp only
          rw [List.map_map]
          rfl
        · rfl
    rw [heq, hsame] at hdata
    exact hdata
  · left
    unfold NetQW.sendDelayed at hsend
    split at hsend
    · exact absurd hsend (Option.some_ne_none _).symm
    next packet rest hqueue =>
      obtain ⟨-, hsend⟩ := Option.ite_none_right_eq_some.mp hsend
      rw [← Option.some.inj hsend, outgoing_netSend] at hdata
      unfold NetQW.outgoing
      rw [hqueue, List.map_cons, List.append_cons]
      exact hdata
  · obtain ⟨-, rfl⟩ := beginSend_spec h
    have hclamp : SendSilent c.netqw (c.netqw.clampMoveTime curtime) :=
      keeps_clampMoveTime _ (fun _ _ => rfl) curtime
    obtain ⟨hrequests, hstate⟩ := requests_clampMoveTime c.netqw curtime stack
    show data ∈ c.netqw.outgoing ∨
      data ∈ if c.netqw.state = .connected then [] else c.netqw.requests curtime stack
    rw [hstate] at hdata
    split at hdata
    · rw [hclamp.outgoing_eq] at hdata
      exact .inl hdata
    · rename_i hconnected
      rw [if_neg hconnected, ← hrequests, ← hclamp.outgoing_eq]
      exact mem_outgoing_resend hdata
  · obtain ⟨buf, reliable, hpc, rfl⟩ := submitPacket_spec h
    have hlog : SendSilent c.netqw (c.netqw.log [.sendPacket buf reliable]) :=
      .log_one (fun _ _ => rfl) rfl
    have hpassed : data ∈ ((c.netqw.log [.sendPacket buf reliable]).passOn env.now
        ((c.netqw.log [.sendPacket buf reliable]).datagram? env buf)).outgoing := by
      rw [← sendPacket_eq]
      exact hdata
    have hsubmits : c.submits (.submitPacket env)
        = ((c.netqw.log [.sendPacket buf reliable]).datagram? env buf).toList := by
      unfold submits
      rw [hpc]
      rfl
    rw [hsubmits, ← hlog.outgoing_eq]
    exact mem_outgoing_passOn hpassed

end Client

/-- The datagram asks for a connection, or travels for a packet. -/
def InFlight (huff : Option HuffTables) (c : Client) (data : List Byte) : Prop :=
  serverReadLong data 0 = -1#32 ∨ ∃ p ∈ departures c.netqw.trace,
    10 ≤ p.1.length ∧ p.1.length < 1450 ∧ TravelsFor huff 10 p.1 data

theorem InFlight.grow {huff : Option HuffTables} {c c' : Client} {data : List Byte}
    (h : InFlight huff c data)
    (hgrow : departures c.netqw.trace <+: departures c'.netqw.trace) : InFlight huff c' data :=
  h.imp_right fun ⟨p, hp, hrest⟩ => ⟨p, hgrow.subset hp, hrest⟩

/-- What the client hands over travels for the packet that it has built. -/
theorem Client.inFlight_submits {angle16 : BitVec 32 → BitVec 16} {huff : Option HuffTables}
    {a : Action} {c c' : Client} (hsound : ∀ ht ∈ huff, ht.Sound) (hagreed : Agreed huff c)
    (hfits : c.pc.Fits) (h : step angle16 a c = some c') :
    ∀ data ∈ c.submits a, InFlight huff c' data := by
  intro data hdata
  cases a
  case beginSend curtime stack =>
    obtain ⟨-, hdata⟩ : ¬c.netqw.state = .connected ∧ data ∈ c.netqw.requests curtime stack := by
      unfold submits at hdata
      dsimp only at hdata
      split at hdata
      · exact absurd hdata List.not_mem_nil
      · exact ⟨‹_›, hdata⟩
    exact .inl (requests_connectionless hdata)
  case submitPacket env =>
    obtain ⟨buf, reliable, hpc, -⟩ := submitPacket_spec h
    have hconnected : c.netqw.state = .connected :=
      hagreed.sending (by rw [hpc]; exact SendPc.noConfusion)
    have hcontext : c.netqw.huffcontext = huff :=
      hagreed.context (by rw [hconnected]; exact ConnState.noConfusion)
    rw [hpc] at hfits
    obtain ⟨hlong, hshort⟩ := hfits
    unfold submits at hdata
    rw [hpc] at hdata
    have htravels := travelsFor_datagram (hcontext ▸ hsound) (by omega) hshort
      (Option.mem_toList.mp hdata)
    rw [hcontext] at htravels
    have hdeparted : (buf, reliable) ∈ departures c'.netqw.trace := by
      cases step_departure h with
      | leaves buf' reliable' hpc' _ htrace =>
        obtain ⟨rfl, rfl⟩ := SendPc.submit.inj (hpc.symm.trans hpc')
        rw [htrace]
        exact List.mem_append_right _ (List.mem_singleton.mpr rfl)
      | moves hpc' => exact SendPc.noConfusion (hpc.symm.trans hpc')
      | stays hsame =>
        obtain ⟨_, _, -, heq⟩ := submitPacket_spec h
        rw [heq, hpc] at hsame
        exact Bool.noConfusion hsame
    exact .inr ⟨(buf, reliable), hdeparted, Nat.le_trans (by decide) hlong, hshort, htravels⟩
  all_goals exact absurd hdata List.not_mem_nil

/-! ## The runs of the two ends -/

/-- The bytes of the commands in a message, which has them only with the reliable flag. -/
def messageCommands (message : List Byte) : List Byte :=
  if isReliable message then commandBytes message else []

/-- The run is one of the exchange of packets. -/
structure WireOf (angle16 : BitVec 32 → BitVec 16) (s : WireServer) (w : Wire) (d : Duplex) :
    Prop where
  duplex : (Duplex.system angle16 s.io).Reaches DuplexOk d
  link : d.link = w.link
  agreed : Agreed s.huffcontext w.link.client
  fits : w.link.client.pc.Fits
  outgoing : ∀ data ∈ w.link.client.netqw.outgoing, InFlight s.huffcontext w.link.client data
  datagrams : ∀ sent ∈ w.datagrams, ∃ data ∈ w.link.packets.map Prod.fst,
    TravelsFor s.huffcontext 8 data sent
  delivered : d.delivered = w.messages.flatMap messageCommands
  departed : ∀ m ∈ w.messages, m ∈ (departures w.link.client.netqw.trace).map Prod.fst
  increasing : w.messages.Pairwise fun m m' => sequenceOf m < sequenceOf m'
  heard : ∀ m ∈ w.messages, sequenceOf m ≤ w.link.server.incomingSequence

/-- The server lets a packet through if its number is above all before, and notes the number. -/
theorem ServerNetchan.process_sequence {data : List Byte} (hlong : 8 ≤ data.length)
    (chan : ServerNetchan) :
    (sequenceOf data ≤ chan.incomingSequence → chan.process data = chan) ∧
      (¬sequenceOf data ≤ chan.incomingSequence →
        (chan.process data).incomingSequence = sequenceOf data) := by
  obtain ⟨hsequence, -⟩ := serverReadLong_spec hlong
  unfold process
  dsimp only
  rw [hsequence]
  exact ⟨fun hstale => if_pos hstale, fun hfresh => by rw [if_neg hfresh]⟩

theorem WireServer.sound (s : WireServer) : ∀ ht ∈ s.huffcontext, ht.Sound := by
  intro ht hht
  obtain ⟨crc, -, hinit⟩ := Option.bind_eq_some_iff.mp hht
  exact huffInit_sound hinit

namespace WireOf

variable {angle16 : BitVec 32 → BitVec 16} {s : WireServer} {w w' : Wire} {d : Duplex}

/-- What the client accepts is a packet of the server. -/
theorem fromServer (h : WireOf angle16 s w d) {a : Action} (hfrom : w.FromWire s a) :
    w.link.FromServer a := by
  intro arrival harrival data hdata
  obtain ⟨packet, hpacket, htravels⟩ :=
    h.datagrams _ ((hfrom arrival harrival).1 data hdata)
  have hstate : w.link.client.netqw.state ≠ .sendchallenge := by
    intro hstate
    unfold NetQW.accepts? at hdata
    exact (Option.ite_none_right_eq_some.mp hdata).1.2.1 hstate
  rw [← h.agreed.context hstate] at htravels
  obtain rfl := accepts_travelsFor h.agreed.known htravels hdata
  exact hpacket

/-- The commands that wait are ordinary. -/
theorem ordinary (h : WireOf angle16 s w d) (hio : s.io.Lawful) (hfew : w.link.Few) :
    ∀ b ∈ w.link.client.netqw.reliableQueue, b.Ordinary := by
  rw [← h.link] at hfew ⊢
  obtain ⟨t, -, hof⟩ := duplexOf_of_reaches hio h.duplex hfew
  exact hof.up.sender.ordinary

theorem client (h : WireOf angle16 s w d) (hio : s.io.Lawful) (hfew : w.link.Few) {a : Action}
    (hok : (∀ b ∈ a.appended?, b.Ordinary) ∧ LagOk a w.link.client) (hfrom : w.FromWire s a)
    {c : Client} (hstep : Client.step angle16 a w.link.client = some c) :
    ∃ d, WireOf angle16 s { w with link := { w.link with client := c } } d := by
  have hgrow := Client.departures_grow hstep
  have hduplex : (Duplex.system angle16 s.io).step (.client a) d
      = some ⟨{ w.link with client := c }, d.delivered ++ []⟩ := by
    have hlink : Downlink.step angle16 s.io (.client a) w.link
        = some { w.link with client := c } := by
      show (if w.link.FromServer a then _ else none) = _
      rw [if_pos (h.fromServer hfrom), hstep]
      rfl
    show (Downlink.step angle16 s.io (.client a) d.link).map _ = _
    rw [h.link, hlink]
    rfl
  rw [List.append_nil] at hduplex
  refine ⟨_, .step h.duplex ?_ hduplex, rfl, h.agreed.step hfrom hstep,
    Client.fits_step h.fits (h.ordinary hio hfew) hstep, fun data hdata => ?_, h.datagrams,
    h.delivered, fun m hm => (hgrow.map Prod.fst).subset (h.departed m hm), h.increasing, h.heard⟩
  · show (∀ b ∈ a.appended?, b.Ordinary) ∧ LagOk a d.link.client
    rw [h.link]
    exact hok
  · rcases Client.step_outgoing hstep data hdata with hdata | hdata
    · exact (h.outgoing data hdata).grow hgrow
    · exact Client.inFlight_submits s.sound h.agreed h.fits hstep data hdata

/-- Bytes are written to the reliable message. -/
theorem write (h : WireOf angle16 s w d) {data : List Byte} {link : Downlink}
    (hstep : Downlink.step angle16 s.io (.write data) w.link = some link) :
    ∃ d, WireOf angle16 s { w with link := link } d := by
  have hduplex : (Duplex.system angle16 s.io).step (.write data) d
      = some ⟨link, d.delivered ++ []⟩ := by
    show (Downlink.step angle16 s.io (.write data) d.link).map _ = _
    rw [h.link, hstep]
    rfl
  rw [List.append_nil] at hduplex
  obtain ⟨-, hstep⟩ := Option.ite_none_right_eq_some.mp hstep
  obtain rfl := Option.some.inj hstep
  have hok : DuplexOk (.write data) d := trivial
  exact ⟨_, .step h.duplex hok hduplex, rfl, h.agreed, h.fits, h.outgoing, h.datagrams,
    h.delivered, h.departed, h.increasing, h.heard⟩

/-- The server's packets have their header. -/
theorem framed (h : WireOf angle16 s w d) (hio : s.io.Lawful) (hfew : w.link.Few) :
    ∀ p ∈ w.link.packets, Framed p := by
  rw [← h.link] at hfew ⊢
  obtain ⟨t, -, hof⟩ := duplexOf_of_reaches hio h.duplex hfew
  obtain ⟨t', hdown⟩ := hof.down
  exact hdown.framed

/-- The server sends a packet. -/
theorem transmit (h : WireOf angle16 s w d) (hio : s.io.Lawful) {data : List Byte}
    (hok : w.link.server.outgoingSequence ≤ w.link.server.incomingSequence)
    (hroom : s.huffcrc.isSome → ∀ p ∈ (w.link.server.transmit s.io data).2,
      p.1.length + 3 ≤ sendMaxsize) (stack : Nat → Byte)
    (hfew : Downlink.Few { w.link with
      server := (w.link.server.transmit s.io data).1
      packets := w.link.packets ++ (w.link.server.transmit s.io data).2.toList }) :
    ∃ d, WireOf angle16 s { w with
      link := { w.link with
        server := (w.link.server.transmit s.io data).1
        packets := w.link.packets ++ (w.link.server.transmit s.io data).2.toList }
      datagrams := w.datagrams ++ ((w.link.server.transmit s.io data).2.map fun p =>
        ServerNetchan.datagram s.huffcontext stack p.1).toList } d := by
  have hduplex : (Duplex.system angle16 s.io).step (.transmit data) d
      = some ⟨{ w.link with
        server := (w.link.server.transmit s.io data).1
        packets := w.link.packets ++ (w.link.server.transmit s.io data).2.toList },
          d.delivered ++ []⟩ := by
    rw [← h.link]
    rfl
  rw [List.append_nil] at hduplex
  have hincoming : (w.link.server.transmit s.io data).1.incomingSequence
      = w.link.server.incomingSequence := by
    unfold ServerNetchan.transmit ServerNetchan.copyMessage
    split
    · rfl
    · split
      · rfl
      · rfl
  have hok' : DuplexOk (.transmit data) d := by
    show d.link.server.outgoingSequence ≤ d.link.server.incomingSequence
    rw [h.link]
    exact hok
  -- the new packet is framed as those before
  have hframed : ∀ p ∈ (w.link.server.transmit s.io data).2, Framed p := by
    obtain ⟨t, -, hof⟩ := duplexOf_of_reaches hio (h.duplex.step hok' hduplex) hfew
    obtain ⟨t', hdown⟩ := hof.down
    exact fun p hp => hdown.framed p (List.mem_append_right _ (Option.mem_toList.mpr hp))
  refine ⟨_, .step h.duplex hok' hduplex, rfl, h.agreed, h.fits, h.outgoing, ?_,
    h.delivered, h.departed, h.increasing, fun m hm => ?_⟩
  · intro sent hsent
    show ∃ data ∈ (w.link.packets ++ _).map Prod.fst, _
    rw [List.map_append]
    rcases List.mem_append.mp hsent with hsent | hsent
    · obtain ⟨packet, hpacket, htravels⟩ := h.datagrams sent hsent
      exact ⟨packet, List.mem_append_left _ hpacket, htravels⟩
    · -- the new datagram travels for the new packet
      obtain ⟨p, hp, rfl⟩ := Option.map_eq_some_iff.mp (Option.mem_toList.mp hsent)
      refine ⟨p.1, List.mem_append_right _ (List.mem_map_of_mem (Option.mem_toList.mpr hp)), ?_⟩
      refine ServerNetchan.travelsFor_datagram s.sound stack (hframed p hp).long ?_
      intro hsome
      obtain ⟨ht, hht⟩ := Option.isSome_iff_exists.mp hsome
      obtain ⟨crc, hcrc, -⟩ := Option.bind_eq_some_iff.mp hht
      exact hroom (by rw [hcrc]; rfl) p hp
  · rw [hincoming]
    exact h.heard m hm

/-- What the server lets through is the packet. -/
theorem messageOf_eq (hmaxsize : 1450 ≤ s.maxsize) {packet data : List Byte}
    (hlong : 10 ≤ packet.length) (hshort : packet.length < 1450)
    (htravels : TravelsFor s.huffcontext 10 packet data) (stack behind : Nat → Byte)
    (chan : ServerNetchan) : chan.messageOf s stack behind data
      = if sequenceOf packet ≤ chan.incomingSequence then [] else [packet] := by
  obtain ⟨-, hread⟩ := ServerNetchan.process_travelsFor htravels chan
  obtain ⟨hsequence, -⟩ := serverReadLong_spec (show 8 ≤ packet.length by omega)
  unfold ServerNetchan.messageOf
  rw [hread, hsequence]
  split
  · rfl
  · cases hcontext : s.huffcontext with
    | none =>
      rw [hcontext] at htravels
      exact congrArg (fun data => [data]) htravels
    | some ht =>
      rw [hcontext] at htravels
      exact congrArg (fun data => [data]) (htravels.huffDecompressPacketSizebuf
        (Nat.le_of_lt hshort) stack behind (Nat.lt_of_lt_of_le hshort hmaxsize))

/-- A datagram of the client arrives. -/
theorem process (h : WireOf angle16 s w d) (hmaxsize : 1450 ≤ s.maxsize) {data : List Byte}
    (hdata : data ∈ sent w.link.client.netqw.trace) (hchannel : serverReadLong data 0 ≠ -1#32)
    (stack behind : Nat → Byte) : ∃ d, WireOf angle16 s { w with
      link := { w.link with server := w.link.server.process data }
      messages := w.messages ++ w.link.server.messageOf s stack behind data } d := by
  obtain ⟨p, hp, hlong, hshort, htravels⟩ :=
    (h.outgoing data (List.mem_append_left _ hdata)).resolve_left hchannel
  obtain ⟨n, hn⟩ := List.mem_iff_getElem?.mp hp
  have hdeparted := List.mem_map_of_mem (f := Prod.fst) hp
  -- the commands are those that the packet holds, whatever was remembered of it
  obtain ⟨packet, reliable⟩ := p
  dsimp only at hlong hshort htravels hdeparted
  obtain ⟨hprocess, -⟩ := ServerNetchan.process_travelsFor htravels w.link.server
  obtain ⟨hsequence, hflag⟩ := serverReadLong_spec (show 8 ≤ packet.length by omega)
  have hduplex : (Duplex.system angle16 s.io).step (.process n) d
      = some ⟨{ w.link with server := w.link.server.process packet },
          d.delivered ++ w.link.server.takes packet⟩ := by
    rw [← h.link] at hn ⊢
    show (Downlink.step angle16 s.io (.process n) d.link).map _ = _
    unfold Downlink.step Duplex.takes
    dsimp only
    rw [hn]
    rfl
  have hok : DuplexOk (.process n) d := trivial
  rw [hprocess, messageOf_eq hmaxsize hlong hshort htravels]
  have htakes : w.link.server.takes packet
      = if sequenceOf packet ≤ w.link.server.incomingSequence then []
        else messageCommands packet := by
    unfold ServerNetchan.takes messageCommands
    rw [hsequence, if_congr hflag rfl rfl]
  obtain ⟨hsame, hincoming⟩ :=
    w.link.server.process_sequence (show 8 ≤ packet.length by omega)
  by_cases hstale : sequenceOf packet ≤ w.link.server.incomingSequence
  · -- nothing comes of it
    rw [hsame hstale, htakes, if_pos hstale, List.append_nil] at hduplex
    rw [hsame hstale, if_pos hstale, List.append_nil]
    exact ⟨_, .step h.duplex hok hduplex, rfl, h.agreed, h.fits, h.outgoing, h.datagrams,
      h.delivered, h.departed, h.increasing, h.heard⟩
  · rw [htakes, if_neg hstale] at hduplex
    rw [if_neg hstale]
    have hbefore : ∀ m ∈ w.messages, sequenceOf m < sequenceOf packet := fun m hm =>
      BitVec.lt_def.mpr (Nat.lt_of_le_of_lt (BitVec.le_def.mp (h.heard m hm))
        (BitVec.lt_def.mp (BitVec.not_le.mp hstale)))
    refine ⟨_, .step h.duplex hok hduplex, rfl, h.agreed, h.fits, h.outgoing, h.datagrams,
      ?_, ?_, ?_, ?_⟩
    · show d.delivered ++ messageCommands packet = _
      rw [h.delivered, List.flatMap_append, List.flatMap_singleton]
    · exact List.forall_mem_append.mpr
        ⟨h.departed, List.forall_mem_singleton.mpr hdeparted⟩
    · refine List.pairwise_append.mpr ⟨h.increasing, List.pairwise_singleton _ _, ?_⟩
      intro m hm m' hm'
      obtain rfl := List.mem_singleton.mp hm'
      exact hbefore m hm
    · show ∀ m ∈ w.messages ++ [packet],
        sequenceOf m ≤ (w.link.server.process packet).incomingSequence
      rw [hincoming hstale]
      exact List.forall_mem_append.mpr ⟨fun m hm => BitVec.le_of_lt (hbefore m hm),
        List.forall_mem_singleton.mpr (BitVec.le_refl _)⟩

end WireOf

/-- Nothing was sent yet. -/
theorem wireOf_init {angle16 : BitVec 32 → BitVec 16} {s : WireServer} {w : Wire}
    (h : (Wire.system angle16 s).Init w) : WireOf angle16 s w ⟨w.link, []⟩ := by
  obtain ⟨link, datagrams, messages⟩ := w
  obtain ⟨hlink, rfl, rfl⟩ := h
  have hduplex : (Duplex.system angle16 s.io).Reaches DuplexOk ⟨link, []⟩ := .init ⟨hlink, rfl⟩
  obtain ⟨client, server, packets, written⟩ := link
  obtain ⟨⟨_, _, _, _, rfl⟩, rfl, rfl, rfl⟩ := hlink
  refine ⟨hduplex, rfl, ⟨ConnState.noConfusion, fun _ => rfl, fun hne => absurd rfl hne,
    fun hne => absurd rfl hne⟩, trivial, ?_, ?_, rfl, ?_, .nil, ?_⟩
  all_goals exact fun _ hmem => absurd hmem List.not_mem_nil

/-- No packet is taken back. -/
theorem Wire.few_of_step {angle16 : BitVec 32 → BitVec 16} {s : WireServer} {a : WireAction}
    {w w' : Wire} (h : Wire.step angle16 s a w = some w') (hfew : w'.link.Few) : w.link.Few := by
  cases a with
  | client a =>
    obtain ⟨-, h⟩ := Option.ite_none_right_eq_some.mp h
    obtain ⟨c, hc, rfl⟩ := Option.map_eq_some_iff.mp h
    exact ⟨Nat.lt_of_le_of_lt (Client.departures_grow hc).length_le hfew.1, hfew.2⟩
  | write data =>
    obtain ⟨link, hlink, rfl⟩ := Option.map_eq_some_iff.mp h
    exact Downlink.few_of_step hlink hfew
  | transmit stack data =>
    obtain rfl := Option.some.inj h
    exact ⟨hfew.1, Nat.lt_of_le_of_lt (List.prefix_append ..).length_le hfew.2⟩
  | process n stack behind =>
    obtain ⟨data, -, rfl⟩ := Option.map_eq_some_iff.mp h
    split at hfew
    · exact hfew
    · exact hfew

/-- Every step of the wire is one of the exchange of packets, or none. -/
theorem WireOf.step {angle16 : BitVec 32 → BitVec 16} {s : WireServer} {w w' : Wire} {d : Duplex}
    (h : WireOf angle16 s w d) (hio : s.io.Lawful) (hmaxsize : 1450 ≤ s.maxsize) {a : WireAction}
    (hok : WireOk s a w) (hstep : Wire.step angle16 s a w = some w') (hfew : w'.link.Few) :
    ∃ d, WireOf angle16 s w' d := by
  have hbefore : w.link.Few := Wire.few_of_step hstep hfew
  cases a with
  | client a =>
    obtain ⟨hfrom, hstep⟩ := Option.ite_none_right_eq_some.mp hstep
    obtain ⟨c, hc, rfl⟩ := Option.map_eq_some_iff.mp hstep
    exact h.client hio hbefore hok hfrom hc
  | write data =>
    obtain ⟨link, hlink, rfl⟩ := Option.map_eq_some_iff.mp hstep
    exact h.write hlink
  | transmit stack data =>
    obtain rfl := Option.some.inj hstep
    exact h.transmit hio hok.1 hok.2 stack hfew
  | process n stack behind =>
    obtain ⟨data, hdata, rfl⟩ := Option.map_eq_some_iff.mp hstep
    split
    · exact ⟨d, h⟩
    · rename_i hchannel
      exact h.process hmaxsize (List.mem_of_getElem? hdata) hchannel stack behind

theorem wireOf_of_reaches {angle16 : BitVec 32 → BitVec 16} {s : WireServer} (hio : s.io.Lawful)
    (hmaxsize : 1450 ≤ s.maxsize) {w : Wire}
    (h : (Wire.system angle16 s).Reaches (WireOk s) w) (hfew : w.link.Few) :
    ∃ d, WireOf angle16 s w d := by
  induction h with
  | init hinit => exact ⟨_, wireOf_init hinit⟩
  | step _ hok hstep ih =>
    obtain ⟨d, hof⟩ := ih (Wire.few_of_step hstep hfew)
    exact hof.step hio hmaxsize hok hstep hfew

/-- What came through, in both directions. -/
theorem WireOf.delivers {angle16 : BitVec 32 → BitVec 16} {s : WireServer} {w : Wire} {d : Duplex}
    (h : WireOf angle16 s w d) (hio : s.io.Lawful) (hfew : w.link.Few) :
    Delivers (w.messages.flatMap messageCommands) (freedBuffers w.link.client.netqw.trace)
        (appendedBuffers w.link.client.netqw.trace) ∧
      appendedBuffers w.link.client.netqw.trace
        = freedBuffers w.link.client.netqw.trace ++ w.link.client.netqw.reliableQueue ∧
      ∃ t, DownlinkOf angle16 w.link t := by
  rw [← h.link] at hfew ⊢
  obtain ⟨t, ht, hduplex⟩ := duplexOf_of_reaches hio h.duplex hfew
  obtain ⟨hdelivers, horder⟩ := hduplex.delivers ht
  rw [h.delivered] at hdelivers
  exact ⟨hdelivers, horder, hduplex.down⟩

/-- The client is part of it. -/
def Wire.host (angle16 : BitVec 32 → BitVec 16) (s : WireServer) :
    Host angle16 Wire WireAction where
  system := Wire.system angle16 s
  client w := w.link.client
  update f w := { w with link := { w.link with client := w.link.client.update f } }
  ofNetworkThread := WireAction.ofNetworkThread
  appended? a _ := a.appended?
  init _ h := h.1.1
  client_update _ _ := rfl
  step := by
    intro a w w' hstep
    cases a with
    | client a =>
      obtain ⟨-, hstep⟩ := Option.ite_none_right_eq_some.mp hstep
      obtain ⟨c, hc, rfl⟩ := Option.map_eq_some_iff.mp hstep
      exact .inr ⟨a, hc, rfl, id⟩
    | write data =>
      obtain ⟨link, hlink, rfl⟩ := Option.map_eq_some_iff.mp hstep
      obtain ⟨-, hlink⟩ := Option.ite_none_right_eq_some.mp hlink
      obtain rfl := Option.some.inj hlink
      exact .inl ⟨rfl, rfl⟩
    | transmit stack data =>
      obtain rfl := Option.some.inj hstep
      exact .inl ⟨rfl, rfl⟩
    | process n stack behind =>
      obtain ⟨data, -, rfl⟩ := Option.map_eq_some_iff.mp hstep
      split
      · exact .inl ⟨rfl, rfl⟩
      · exact .inl ⟨rfl, rfl⟩

/-- Whether the datagrams are compressed or not, the server lets through packets that the client
    has built, in their order, and the client accepts packets of the server; over them the
    commands, if none is appended while the tail is dangling, and the reliable bytes come through
    in order and once. -/
theorem wire_delivered (angle16 : BitVec 32 → BitVec 16) {server : WireServer}
    (hio : server.io.Lawful) (hmaxsize : 1450 ≤ server.maxsize) {s : Racing Wire}
    (h : (Racing.system (Wire.host angle16 server)).Reaches
      (RacingOk (Wire.host angle16 server) (WireOk server)) s) (hfew : s.base.link.Few) :
    (∀ m ∈ s.base.messages, m ∈ (departures s.base.link.client.netqw.trace).map Prod.fst) ∧
      (s.base.messages.Pairwise fun m m' => sequenceOf m < sequenceOf m') ∧
      Delivers (s.base.messages.flatMap messageCommands) s.freed
        (appendedBuffers s.base.link.client.netqw.trace) ∧
      appendedBuffers s.base.link.client.netqw.trace
        = s.freed ++ s.queue (Wire.host angle16 server) ∧
      s.base.link.Arrived := by
  obtain ⟨hbase, hfreed⟩ := Racing.base_of_reaches h
  obtain ⟨d, hof⟩ := wireOf_of_reaches hio hmaxsize hbase hfew
  obtain ⟨hdelivers, horder, t, hdown⟩ := hof.delivers hio hfew
  exact ⟨hof.departed, hof.increasing, hdelivers.of_freed hfreed,
    Racing.order_of_freed hfreed horder, hdown.arrived⟩

/-- Nothing was sent yet. -/
def Wire.fresh : Racing Wire := ⟨⟨.fresh, [], []⟩, .outside, []⟩

/-- A server that compresses. -/
def WireServer.huffman : WireServer := ⟨.appending, some 0x286f2e8d#32, 1450⟩

/-- A datagram of the server arrives at the client. -/
def Wire.arrives (datagram : List Byte) : WireAction :=
  .client (.receive ⟨14000#64, true, fun _ => 0⟩ .loopback datagram)

/-- The client takes up the offer and sends its first packet, and the server answers twice.  The
    first answer, which would be number 0, is lost.  The other one frees `new`, and a command is
    appended meanwhile. -/
def Wire.huffmanRun : List (RacingAction WireAction) :=
  ([arrives huffmanDatagram, arrives NetQW.connectionDatagram] ++
    (Client.sendRun 14000#64 1).map WireAction.client ++
    [.process 0 (fun _ => 0) (fun _ => 0), .transmit (fun _ => 0) [], .write [7, 8],
      .transmit (fun _ => 0) [], arrives [1, 0, 0, 0x80, 1, 0, 0, 0x80, 5, 127, 5],
      .client (.append (Exchange.command 97))]).map .base ++ [.free, .repair] ++
    ((Client.sendRun 28000#64 1).map WireAction.client ++
      [WireAction.process 1 (fun _ => 0) (fun _ => 0)]).map .base

set_option synthInstance.maxSize 1000 in
/-- The server reads 24 and 22 bytes where it was sent 20 and 19, and the client 10 where it was
    sent 11. -/
theorem wire_delivered_huffman : ∃ s, (Racing.system (Wire.host (fun _ => 0) .huffman)).runOk
      (RacingOk (Wire.host (fun _ => 0) .huffman) (WireOk .huffman)) Wire.huffmanRun Wire.fresh
        = some s ∧
    (sent s.base.link.client.netqw.trace).map List.length = [20, 19] ∧
    (s.base.messages.map fun m => (m.length, messageCommands m))
      = [(24, NetQW.newCommand.data), (22, [4, 97, 0])] ∧
    s.freed.map (·.data) = [NetQW.newCommand.data] ∧
    accepted s.base.link.client.netqw.trace = [[1, 0, 0, 0x80, 1, 0, 0, 0x80, 7, 8]] ∧
    (∀ m ∈ s.base.messages, m ∈ (departures s.base.link.client.netqw.trace).map Prod.fst) ∧
    (s.base.messages.Pairwise fun m m' => sequenceOf m < sequenceOf m') ∧
    Delivers (s.base.messages.flatMap messageCommands) s.freed
      (appendedBuffers s.base.link.client.netqw.trace) ∧
    appendedBuffers s.base.link.client.netqw.trace
      = s.freed ++ s.queue (Wire.host (fun _ => 0) .huffman) ∧
    s.base.link.Arrived := by
  have heq : ((Racing.system (Wire.host (fun _ => 0) .huffman)).runOk
      (RacingOk (Wire.host (fun _ => 0) .huffman) (WireOk .huffman)) Wire.huffmanRun
      Wire.fresh).map (fun s => ((sent s.base.link.client.netqw.trace).map List.length,
        s.base.messages.map fun m => (m.length, messageCommands m), s.freed.map (·.data),
        accepted s.base.link.client.netqw.trace,
        (departures s.base.link.client.netqw.trace).length, s.base.link.packets.length))
        = some ([20, 19], [(24, NetQW.newCommand.data), (22, [4, 97, 0])],
          [NetQW.newCommand.data], [[1, 0, 0, 0x80, 1, 0, 0, 0x80, 7, 8]], 2, 2) := by
    decide +kernel
  obtain ⟨s, hrun, hread⟩ := Option.map_eq_some_iff.mp heq
  simp only [Prod.mk.injEq] at hread
  obtain ⟨hsent, hmessages, hfreed, haccepted, hdepartures, hpackets⟩ := hread
  have hfew : s.base.link.Few := by
    rw [Downlink.Few, hdepartures, hpackets]
    decide
  have hinit : (Racing.system (Wire.host (fun _ => 0) .huffman)).Init Wire.fresh :=
    ⟨⟨⟨⟨_, _, _, _, rfl⟩, rfl, rfl, rfl⟩, rfl, rfl⟩, rfl, rfl⟩
  have hreaches := Transitions.Reaches.runOk (.init hinit) hrun
  exact ⟨s, hrun, hsent, hmessages, hfreed, haccepted,
    wire_delivered _ SizebufOps.appending_lawful (Nat.le_refl _) hreaches hfew⟩

end QwNet
