/-
  QwNet.Channel.Fate

  Who decides the fate of the reliable packet.

  A packet of the server says whether the reliable packet arrived if the server had
  seen it, or a later one, when it answered: if it acknowledges that number or a later
  one.  `NetQW_Thread_HandleReceivedPacket` compares another number, the packet's own.
-/
import QwNet.Channel.Reliable
import QwNet.Lib.History

namespace QwNet

open History

/-- The fate of the reliable packet stays as open as it was. -/
structure Spared (q q' : NetQW) : Prop where
  queue : q'.reliableQueue = q.reliableQueue
  sent : q'.reliableBuffersSent = q.reliableBuffersSent
  xor : q'.incomingReliableXor = q.incomingReliableXor

/-- The packet is an answer to a packet before the reliable one, which is outstanding. -/
def Early (data : List Byte) (q : NetQW) : Prop :=
  q.reliableBuffersSent ≠ 0#32 ∧ acknowledgeOf data < q.reliableSequenceNumber

instance (data : List Byte) (q : NetQW) : Decidable (Early data q) :=
  inferInstanceAs (Decidable (_ ∧ _))

/-- If the packet that is handled is early, then its own number is below that of the
    reliable packet too. -/
def InStep (a : Action) (c : Client) : Prop :=
  ∀ data ∈ c.handling a, Early data c.netqw → sequenceOf data < c.netqw.reliableSequenceNumber

instance (a : Action) (c : Client) : Decidable (InStep a c) :=
  inferInstanceAs (Decidable (∀ data ∈ _, _ → _))

/-- An early packet decides nothing exactly if its own number is below that of the reliable
    packet. -/
theorem Handles.spared_iff {data : List Byte} {q q' : NetQW} (h : Handles data q q')
    (hearly : Early data q) : Spared q q' ↔ sequenceOf data < q.reliableSequenceNumber := by
  have hanswered : q.reliability.Answered data ↔ ¬sequenceOf data < q.reliableSequenceNumber := by
    rw [BitVec.not_lt]
    exact and_iff_right hearly.1
  constructor
  · intro hspared
    by_contra hlate
    -- both branches forget that commands were sent
    have hsent : q'.reliableBuffersSent = 0#32 := by
      have hview := congrArg Reliability.sent h.view
      unfold Reliability.settle at hview
      rw [if_pos (hanswered.mpr hlate)] at hview
      split at hview
      · exact hview
      · exact hview
    exact hearly.1 (hspared.sent.symm.trans hsent)
  · intro hless
    have hview := h.view
    unfold Reliability.settle at hview
    rw [if_neg fun ha => hanswered.mp ha hless] at hview
    exact ⟨congrArg Reliability.queue hview, congrArg Reliability.sent hview,
      congrArg Reliability.xor hview⟩

/-! ## Acknowledged first -/

/-- The packet carries reliable commands, as `j` of `NetQW_Thread_DoSend` counts them. -/
def CarriesReliables (reliable : List ReliableBuffer) : Prop :=
  BitVec.ofNat 32 reliable.length ≠ 0#32

instance (reliable : List ReliableBuffer) : Decidable (CarriesReliables reliable) :=
  inferInstanceAs (Decidable (_ ≠ _))

/-- The number in the header of a packet. -/
def packetNumber (buf : List Byte) : BitVec 32 := number31 (fun i => buf.getD i 0) 0

/-- If the event is a packet with reliable commands, then a packet that acknowledges it was
    handled since, or its number is one of those left out. -/
def AnsweredBut (left : BitVec 32 → Prop) (e : NetEvent) (since : List NetEvent) : Prop :=
  ∀ buf reliable, e = .sendPacket buf reliable → CarriesReliables reliable →
    (∃ data, .handle data ∈ since ∧ packetNumber buf ≤ acknowledgeOf data) ∨
      left (packetNumber buf)

/-- Every packet with reliable commands was acknowledged after it was sent. -/
def Acknowledged (trace : List NetEvent) : Prop := SinceEvery (AnsweredBut fun _ => False) trace

/-- The event ends the wait for an acknowledgement: a command is freed, or commands are sent
    once more. -/
def NetEvent.Settles : NetEvent → Prop
  | .free _ => True
  | .sendPacket _ reliable => CarriesReliables reliable
  | _ => False

/-- Nothing is settled before it is acknowledged. -/
def AcknowledgedFirst (trace : List NetEvent) : Prop :=
  AtEvery (fun before e => e.Settles → Acknowledged before) trace

section

variable {left left' : BitVec 32 → Prop} {t : List NetEvent} {e : NetEvent}

theorem AnsweredBut.grow {since more : List NetEvent} (h : AnsweredBut left e since)
    (himp : ∀ n, left n → left' n ∨ ∃ data, .handle data ∈ more ∧ n ≤ acknowledgeOf data) :
    AnsweredBut left' e (since ++ more) := by
  intro buf reliable heq hcarries
  rcases h buf reliable heq hcarries with ⟨data, hmem, hle⟩ | hleft
  · exact .inl ⟨data, List.mem_append_left _ hmem, hle⟩
  · rcases himp _ hleft with hleft' | ⟨data, hmem, hle⟩
    · exact .inr hleft'
    · exact .inl ⟨data, List.mem_append_right _ hmem, hle⟩

/-- The event is no packet, or one without reliable commands. -/
def NetEvent.Bare (e : NetEvent) : Prop :=
  ∀ buf reliable, e = .sendPacket buf reliable → ¬CarriesReliables reliable

theorem bare_of_not_settles (h : ¬e.Settles) : e.Bare := by
  rintro buf reliable rfl
  exact h

theorem answeredBut_of_bare (h : e.Bare) (since : List NetEvent) : AnsweredBut left e since :=
  fun buf reliable heq hcarries => absurd hcarries (h buf reliable heq)

/-- Events that are no packets with reliable commands. -/
theorem sinceEvery_append (h : SinceEvery (AnsweredBut left) t) {es : List NetEvent}
    (hes : ∀ e ∈ es, e.Bare) : SinceEvery (AnsweredBut left) (t ++ es) :=
  h.append (fun _ _ _ hx => hx.grow fun _ => .inl) fun e he => answeredBut_of_bare (hes e he) []

/-- A packet that acknowledges the numbers left out. -/
theorem acknowledged_of_handle (h : SinceEvery (AnsweredBut left) t) {data : List Byte}
    (hdata : ∀ n, left n → n ≤ acknowledgeOf data) : Acknowledged (t ++ [.handle data]) := by
  have hbare : (NetEvent.handle data).Bare := bare_of_not_settles id
  exact h.concat (fun _ _ hx => hx.grow fun n hn => .inr ⟨data, List.mem_cons_self, hdata n hn⟩)
    (answeredBut_of_bare hbare [])

theorem Acknowledged.but (h : Acknowledged t) : SinceEvery (AnsweredBut left) t :=
  fun before e since heq buf reliable hpacket hcarries =>
    (h before e since heq buf reliable hpacket hcarries).imp id False.elim

theorem AcknowledgedFirst.silent (h : AcknowledgedFirst t) {es : List NetEvent}
    (hes : ∀ e ∈ es, ¬e.Settles) : AcknowledgedFirst (t ++ es) :=
  h.append fun _ e he hsettles => absurd hsettles (hes e he)

/-- Once everything is acknowledged commands may be freed. -/
theorem AcknowledgedFirst.settle (h : AcknowledgedFirst t) (ht : Acknowledged t)
    {es : List NetEvent} (hes : ∀ e ∈ es, e.Bare) : AcknowledgedFirst (t ++ es) := by
  induction es generalizing t with
  | nil => rwa [List.append_nil]
  | cons e es ih =>
    rw [List.append_cons]
    refine ih (h.concat fun _ => ht) ?_ fun e' he' => hes e' (List.mem_cons_of_mem e he')
    exact sinceEvery_append ht (List.forall_mem_singleton.mpr (hes e List.mem_cons_self))

theorem not_settles_of_off (h : e.ofReliables = false) : ¬e.Settles := by
  cases e <;> first | exact id | exact nomatch h

theorem bare_of_mem_settleEvents {data : List Byte} {r : Reliability}
    (h : e ∈ r.settleEvents data) : e.Bare := by
  unfold Reliability.settleEvents at h
  rintro buf reliable rfl
  split at h
  · split at h
    · exact nomatch h
    · rcases List.mem_append.mp h with h | h
      · obtain ⟨b, -, hb⟩ := List.mem_map.mp h
        exact nomatch hb
      · split at h
        · exact nomatch List.mem_singleton.mp h
        · exact nomatch h
  · exact nomatch h

end

/-! ## Every run in step -/

/-- The invariant: what was sent last and is still outstanding is all that may lack its
    acknowledgement; a packet about to be sent waits for nothing. -/
structure Awaiting (c : Client) : Prop where
  first : AcknowledgedFirst c.netqw.trace
  but : SinceEvery (AnsweredBut fun n => c.netqw.reliableBuffersSent ≠ 0#32 ∧
    n ≤ c.netqw.reliableSequenceNumber) c.netqw.trace
  submit : ∀ buf reliable, c.pc = .submit buf reliable → CarriesReliables reliable →
    Acknowledged c.netqw.trace ∧ c.netqw.reliableBuffersSent ≠ 0#32 ∧
      packetNumber buf ≤ c.netqw.reliableSequenceNumber

namespace Awaiting

variable {angle16 : BitVec 32 → BitVec 16} {c c' : Client} (h : Awaiting c)
include h

/-- Nothing is outstanding. -/
theorem acknowledged (hsent : c.netqw.reliableBuffersSent = 0#32) : Acknowledged c.netqw.trace := by
  intro before e since heq buf reliable hpacket hcarries
  exact (h.but before e since heq buf reliable hpacket hcarries).imp id fun hleft => hleft.1 hsent

/-- The counters and the packet about to be sent stay, and nothing is settled. -/
theorem silent {es : List NetEvent} (htrace : c'.netqw.trace = c.netqw.trace ++ es)
    (hes : ∀ e ∈ es, ¬e.Settles)
    (hsent : c'.netqw.reliableBuffersSent = c.netqw.reliableBuffersSent)
    (hnumber : c'.netqw.reliableSequenceNumber = c.netqw.reliableSequenceNumber)
    (hpc : c'.pc = c.pc ∨ c'.pc.sending = false) : Awaiting c' := by
  constructor
  · rw [htrace]
    exact h.first.silent hes
  · rw [htrace, hsent, hnumber]
    exact sinceEvery_append h.but fun e he => bare_of_not_settles (hes e he)
  · intro buf reliable hsubmit hcarries
    rcases hpc with hpc | hsending
    · obtain ⟨hacknowledged, houtstanding, hle⟩ := h.submit buf reliable (hpc ▸ hsubmit) hcarries
      rw [htrace, hsent, hnumber]
      refine ⟨sinceEvery_append hacknowledged fun e he => ?_, houtstanding, hle⟩
      exact bare_of_not_settles (hes e he)
    · rw [hsubmit] at hsending
      exact nomatch hsending

/-- A packet of the server is handled. -/
theorem handle {a : Action} {data : List Byte} (hstep : InStep a c)
    (hdata : c.handling a = some data) (hhandles : Handles data c.netqw c'.netqw)
    (hpc : c.pc = .idle) (hpc' : c'.pc = .idle) : Awaiting c' := by
  obtain ⟨es, es', htrace, hoff⟩ := hhandles.trace
  by_cases hanswered : c.netqw.reliability.Answered data
  · -- the packet acknowledges all that may be outstanding
    have hle : ∀ n, c.netqw.reliableBuffersSent ≠ 0#32 ∧ n ≤ c.netqw.reliableSequenceNumber →
        n ≤ acknowledgeOf data := by
      rintro n ⟨hsent, hn⟩
      refine BitVec.le_trans hn (BitVec.not_lt.mp fun hearly => ?_)
      exact BitVec.not_lt.mpr hanswered.2 (hstep data hdata ⟨hsent, hearly⟩)
    have hacknowledged := acknowledged_of_handle h.but hle
    have hfirst : AcknowledgedFirst (c.netqw.trace ++ [.handle data]) :=
      h.first.silent (List.forall_mem_singleton.mpr id)
    have hbare : ∀ e ∈ es ++ c.netqw.reliability.settleEvents data ++ es', e.Bare := by
      intro e he
      rcases List.mem_append.mp he with he | he
      · rcases List.mem_append.mp he with he | he
        · exact bare_of_not_settles (not_settles_of_off (hoff e (List.mem_append_left _ he)))
        · exact bare_of_mem_settleEvents he
      · exact bare_of_not_settles (not_settles_of_off (hoff e (List.mem_append_right _ he)))
    have heq : c'.netqw.trace = (c.netqw.trace ++ [.handle data])
        ++ (es ++ c.netqw.reliability.settleEvents data ++ es') := by
      rw [htrace]
      simp only [List.append_assoc, List.cons_append, List.nil_append]
    have hafter : Acknowledged c'.netqw.trace := by
      rw [heq]
      exact sinceEvery_append hacknowledged hbare
    refine ⟨heq ▸ hfirst.settle hacknowledged hbare, hafter.but, fun buf reliable hsubmit => ?_⟩
    exact nomatch hpc'.symm.trans hsubmit
  · -- it concerns nothing that was sent
    have hview : c'.netqw.reliability = c.netqw.reliability :=
      hhandles.view.trans (if_neg hanswered)
    have hnone : c.netqw.reliability.settleEvents data = [] := if_neg hanswered
    rw [hnone] at htrace
    refine h.silent (htrace.trans (List.append_assoc _ _ _)) ?_ (congrArg Reliability.sent hview)
      (congrArg Reliability.number hview) (.inl (hpc'.trans hpc.symm))
    intro e he
    rcases List.mem_cons.mp he with rfl | he
    · exact id
    · rw [List.append_nil] at he
      exact not_settles_of_off (hoff e he)

/-- Reliable commands are copied into the packet. -/
theorem remember {buf : List Byte} (hnumbered : c.Numbered) (hpc : c.pc = .reliable buf) :
    Awaiting ⟨c.netqw.rememberReliables buf.length,
      .submit (c.netqw.appendReliables buf) (c.netqw.reliables buf.length)⟩ := by
  by_cases hcount : c.netqw.reliableCount buf.length = 0#32
  · have hsame : c.netqw.rememberReliables buf.length = c.netqw := if_neg (not_not.mpr hcount)
    -- a packet that carries nothing promises nothing
    rw [hsame]
    refine ⟨h.first, h.but, fun buf' reliable hsubmit hcarries => ?_⟩
    obtain ⟨-, rfl⟩ := SendPc.submit.inj hsubmit
    exact absurd hcount hcarries
  · -- they are taken from the queue only if nothing is outstanding
    have hsent : c.netqw.reliableBuffersSent = 0#32 := by
      by_contra hsent
      refine hcount ?_
      rw [NetQW.reliableCount, NetQW.reliables, if_neg hsent]
      rfl
    have hacknowledged := h.acknowledged hsent
    have hremember : c.netqw.rememberReliables buf.length = { c.netqw with
        reliableBuffersSent := c.netqw.reliableCount buf.length
        reliableSequenceNumber := c.netqw.currentOutgoingSequenceNumber
        incomingReliableXor := c.netqw.incomingReliableXor ^^^ 1#32 } := if_pos hcount
    rw [hremember]
    refine ⟨h.first, hacknowledged.but, fun buf' reliable hsubmit _ => ?_⟩
    obtain ⟨rfl, rfl⟩ := SendPc.submit.inj hsubmit
    obtain ⟨rest, hbuf⟩ := hnumbered buf (by rw [hpc]; rfl)
    refine ⟨hacknowledged, hcount, ?_⟩
    show packetNumber (c.netqw.appendReliables buf) ≤ c.netqw.currentOutgoingSequenceNumber
    rw [hbuf, packetNumber, number31_appendReliables, BitVec.le_def, BitVec.toNat_and]
    exact Nat.and_le_left

/-- The packet is sent. -/
theorem send {buf : List Byte} {reliable : List ReliableBuffer} (hpc : c.pc = .submit buf reliable)
    (hkeeps : ReliableSilent (c.netqw.log [.sendPacket buf reliable]) c'.netqw)
    (hpc' : c'.pc = .finish) : Awaiting c' := by
  obtain ⟨hview, es, htrace, hoff⟩ := hkeeps
  have hquiet : ∀ e ∈ es, ¬e.Settles := fun e he => not_settles_of_off (hoff e he)
  have hsent : c'.netqw.reliableBuffersSent = c.netqw.reliableBuffersSent :=
    congrArg Reliability.sent hview
  have hnumber : c'.netqw.reliableSequenceNumber = c.netqw.reliableSequenceNumber :=
    congrArg Reliability.number hview
  have hfirst : AcknowledgedFirst (c.netqw.trace ++ [.sendPacket buf reliable]) :=
    h.first.concat fun hcarries => (h.submit buf reliable hpc hcarries).1
  -- the packet sent is the outstanding one, so it is among those let off
  have hbut : SinceEvery (AnsweredBut fun n => c.netqw.reliableBuffersSent ≠ 0#32 ∧
      n ≤ c.netqw.reliableSequenceNumber) (c.netqw.trace ++ [.sendPacket buf reliable]) := by
    refine h.but.concat (fun _ _ hx => hx.grow fun _ => .inl) ?_
    intro buf' reliable' heq hcarries
    obtain ⟨rfl, rfl⟩ := NetEvent.sendPacket.inj heq
    exact .inr (h.submit buf reliable hpc hcarries).2
  rw [NetQW.log_trace] at htrace
  constructor
  · rw [htrace]
    exact hfirst.silent hquiet
  · rw [htrace, hsent, hnumber]
    exact sinceEvery_append hbut fun e he => bare_of_not_settles (hquiet e he)
  · intro buf' reliable' hsubmit
    exact nomatch hpc'.symm.trans hsubmit

end Awaiting

theorem Awaiting.step {angle16 : BitVec 32 → BitVec 16} {a : Action} {c c' : Client}
    (h : Awaiting c) (hnumbered : c.Numbered) (hstep : InStep a c)
    (hc : Client.step angle16 a c = some c') : Awaiting c' := by
  cases Client.step_reliable hc with
  | silent hkeeps hpc =>
    obtain ⟨hview, es, htrace, hoff⟩ := hkeeps
    exact h.silent htrace (fun e he => not_settles_of_off (hoff e he))
      (congrArg Reliability.sent hview) (congrArg Reliability.number hview) (hpc.imp id And.right)
  | append b hview htrace hpc _ =>
    exact h.silent htrace (List.forall_mem_singleton.mpr id) (congrArg Reliability.sent hview)
      (congrArg Reliability.number hview) (.inl hpc)
  | handle data hdata hpc hpc' hhandles => exact h.handle hstep hdata hhandles hpc hpc'
  | remember buf hpc heq =>
    rw [heq]
    exact h.remember hnumbered hpc
  | submit buf reliable hpc hpc' hkeeps => exact h.send hpc hkeeps hpc'
  | finish _ heq =>
    rw [heq]
    exact h.silent rfl (List.forall_mem_singleton.mpr id) rfl rfl (.inr rfl)

/-- Packets of the server that answer an earlier packet leave the fate of the reliable packet
    open exactly if their own number is below its number too.  In every run in which all are so,
    nothing is freed or sent again before the server acknowledged it. -/
theorem fate_acknowledged_iff (angle16 : BitVec 32 → BitVec 16) :
    (∀ c, (Client.system angle16).Reaches InStep c → AcknowledgedFirst c.netqw.trace) ∧
    ∀ c, (Client.system angle16).Reachable c → ∀ a c' data, Client.step angle16 a c = some c' →
      c.handling a = some data → Early data c.netqw →
        (Spared c.netqw c'.netqw ↔ sequenceOf data < c.netqw.reliableSequenceNumber) := by
  constructor
  · intro c hreaches
    have hinit : ∀ c, Client.Init c → Awaiting c := by
      rintro c ⟨garbage, qport, userinfo, addr, rfl⟩
      exact ⟨atEvery_nil _, sinceEvery_nil _, fun _ _ hsubmit => nomatch hsubmit⟩
    have hawaiting : Awaiting c := hreaches.invariant_of (fun _ => Client.numbered) hinit
      fun a c c' hnumbered h hstep hc => h.step hnumbered hstep hc
    exact hawaiting.first
  · intro c _ a c' data hc hdata hearly
    obtain ⟨-, -, hhandles⟩ := Client.handles_of_handling hc hdata
    exact hhandles.spared_iff hearly

/-- The server's packet in answer to the client's packet `acknowledge`. -/
def replyPacket (sequence acknowledge flag : Byte) : List Byte :=
  [sequence, 0, 0, 0, acknowledge, 0, 0, flag]

/-- Four packets are sent, of which the first carries `new`.  The server answers the first one,
    and a command goes with the fifth. -/
def Client.answeredRun : List Action :=
  sendRun 56000#64 4 ++ arrives 60000#64 (replyPacket 1 1 0x80) :: .append NetQW.newCommand
    :: sendRun 70000#64 1

/-- The server's answer to the fourth packet says nothing about the command. -/
theorem fate_acknowledged_iff_early : ∃ c c', (Client.system fun _ => 0).runOk InStep
    (Client.handshake ++ Client.answeredRun) Client.fresh = some c ∧
    Client.step (fun _ => 0) (Client.arrives 80000#64 (replyPacket 2 4 0x80)) c = some c' ∧
    c.netqw.reliableBuffersSent = 1#32 ∧ AcknowledgedFirst c.netqw.trace ∧
    Spared c.netqw c'.netqw := by
  have heq : ((Client.system fun _ => 0).runOk InStep (Client.handshake ++ Client.answeredRun)
      Client.fresh >>= fun c =>
        (Client.step (fun _ => 0) (Client.arrives 80000#64 (replyPacket 2 4 0x80)) c).map fun _ =>
          (c.handling (Client.arrives 80000#64 (replyPacket 2 4 0x80)),
            c.netqw.reliableBuffersSent, c.netqw.reliableSequenceNumber))
        = some (some (replyPacket 2 4 0x80), 1#32, 5#32) := by
    decide +kernel
  obtain ⟨c, hrun, hnext⟩ := Option.bind_eq_some_iff.mp heq
  obtain ⟨c', hstep, hread⟩ := Option.map_eq_some_iff.mp hnext
  simp only [Prod.mk.injEq] at hread
  obtain ⟨hhandling, hsent, hnumber⟩ := hread
  have hreaches : (Client.system fun _ => 0).Reaches InStep c :=
    Transitions.Reaches.runOk (.init ⟨_, _, _, _, rfl⟩) hrun
  obtain ⟨hfirst, hspared⟩ := fate_acknowledged_iff fun _ => 0
  refine ⟨c, c', hrun, hstep, hsent, hfirst c hreaches, ?_⟩
  have hearly : Early (replyPacket 2 4 0x80) c.netqw := by
    rw [Early, hsent, hnumber]
    decide
  apply (hspared c hreaches.reachable _ c' _ hstep hhandling hearly).mpr
  rw [hnumber]
  decide

/-- The first packet carries `new`.  The server's packet 5, sent before it can have seen the
    first one, makes the client send `new` once more. -/
theorem fate_not_acknowledged_resend : ∃ c c', (Client.system fun _ => 0).Reachable c ∧
    c.netqw.state = .connected ∧
    Client.step (fun _ => 0) (Client.arrives 20000#64 (serverPacket 5 0)) c = some c' ∧
    c.handling (Client.arrives 20000#64 (serverPacket 5 0)) = some (serverPacket 5 0) ∧
    Early (serverPacket 5 0) c.netqw ∧ ¬Spared c.netqw c'.netqw := by
  have heq : ((Client.system fun _ => 0).run (Client.handshake ++ Client.sendRun 14000#64 1)
      Client.fresh >>= fun c =>
        (Client.step (fun _ => 0) (Client.arrives 20000#64 (serverPacket 5 0)) c).map fun c' =>
          (c.netqw.state, c.handling (Client.arrives 20000#64 (serverPacket 5 0)),
            c.netqw.reliableBuffersSent, c.netqw.reliableSequenceNumber,
            c'.netqw.reliableBuffersSent))
        = some (.connected, some (serverPacket 5 0), 1#32, 1#32, 0#32) := by
    decide +kernel
  obtain ⟨c, hrun, hnext⟩ := Option.bind_eq_some_iff.mp heq
  obtain ⟨c', hstep, hread⟩ := Option.map_eq_some_iff.mp hnext
  simp only [Prod.mk.injEq] at hread
  obtain ⟨hstate, hhandling, hsent, hnumber, hsent'⟩ := hread
  refine ⟨c, c', Transitions.Reachable.run (.init ⟨_, _, _, _, rfl⟩) hrun, hstate, hstep, hhandling,
    ?_, fun hspared => ?_⟩
  · rw [Early, hsent, hnumber]
    decide
  · have hsame := hspared.sent
    rw [hsent, hsent'] at hsame
    exact absurd hsame (by decide)

end QwNet
