/-
  QwNet.Channel.Reliable

  What the steps of the client do to its reliable commands.

  Few of the fields take part, and they change in four places only: a command is
  appended, a packet of the server is handled, commands are copied into a packet, and
  the packet is sent.
-/
import QwNet.Channel.Stale

namespace QwNet

/-- The acknowledge number of a packet. -/
def acknowledgeOf (data : List Byte) : BitVec 32 := number31 (fun i => data.getD i 0) 4

/-- The acknowledge bit of a packet. -/
def acknowledgeBit (data : List Byte) : Bool := topBit (fun i => data.getD i 0) 7

/-- Numbers in a header have 31 bits. -/
theorem number31_lt (buf : Nat → Byte) (i : Nat) : (number31 buf i).toNat < 2 ^ 31 := by
  have hmask : ∀ b : Byte, (b &&& 0x7f#8).msb = false := by decide
  have hmsb : (number31 buf i).msb = false := by
    unfold number31
    rw [BitVec.msb_append, BitVec.msb_append, BitVec.msb_append]
    exact hmask _
  have hless := BitVec.msb_eq_false_iff_two_mul_lt.mp hmsb
  omega

/-! ## The fields -/

/-- The fields that the reliable commands rest on. -/
structure Reliability where
  queue : List ReliableBuffer
  sent : BitVec 32
  number : BitVec 32
  xor : BitVec 32
  current : BitVec 32

namespace Reliability

/-- A command is appended. -/
def append (b : ReliableBuffer) (r : Reliability) : Reliability := { r with queue := r.queue ++ [b] }

/-- The reliable packet should have arrived when this one of the server was sent. -/
def Answered (data : List Byte) (r : Reliability) : Prop :=
  r.sent ≠ 0#32 ∧ r.number ≤ sequenceOf data

instance (data : List Byte) (r : Reliability) : Decidable (r.Answered data) :=
  inferInstanceAs (Decidable (_ ∧ _))

/-- The server's bit is not the client's. -/
def Lost (data : List Byte) (r : Reliability) : Prop :=
  (r.xor ≠ 0#32) ≠ (acknowledgeBit data = true)

instance (data : List Byte) (r : Reliability) : Decidable (r.Lost data) :=
  inferInstanceAs (Decidable (_ ≠ _))

/-- A packet of the server is handled. -/
def settle (data : List Byte) (r : Reliability) : Reliability :=
  if r.Answered data then
    if r.Lost data then { r with sent := 0, xor := r.xor ^^^ 1#32 }
    else { r with queue := r.queue.drop r.sent.toNat, sent := 0 }
  else r

theorem current_settle (data : List Byte) (r : Reliability) :
    (r.settle data).current = r.current := by
  unfold settle
  split
  · split <;> rfl
  · rfl

/-- What happens then: the commands sent are freed; a queue that is too short ends in a
    `NULL` pointer. -/
def settleEvents (data : List Byte) (r : Reliability) : List NetEvent :=
  if r.Answered data then
    if r.Lost data then []
    else (r.queue.take r.sent.toNat).map NetEvent.free
      ++ if r.queue.length < r.sent.toNat then [.fault] else []
  else []

/-- The three things that can happen to the commands. -/
theorem settle_cases (data : List Byte) (r : Reliability) :
    (r.Answered data ∧ r.Lost data ∧ r.settle data = { r with sent := 0, xor := r.xor ^^^ 1#32 } ∧
      r.settleEvents data = []) ∨
    (r.Answered data ∧ ¬r.Lost data ∧
      r.settle data = { r with queue := r.queue.drop r.sent.toNat, sent := 0 } ∧
      r.settleEvents data = (r.queue.take r.sent.toNat).map NetEvent.free
        ++ if r.queue.length < r.sent.toNat then [.fault] else []) ∨
    (¬r.Answered data ∧ r.settle data = r ∧ r.settleEvents data = []) := by
  unfold settle settleEvents
  -- two tests: whether the packet answers the outstanding send, and how its bit compares
  by_cases hanswered : r.Answered data
  · rw [if_pos hanswered, if_pos hanswered]
    by_cases hlost : r.Lost data
    · rw [if_pos hlost, if_pos hlost]
      exact .inl ⟨hanswered, hlost, rfl, rfl⟩
    · rw [if_neg hlost, if_neg hlost]
      exact .inr (.inl ⟨hanswered, hlost, rfl, rfl⟩)
  · rw [if_neg hanswered, if_neg hanswered]
    exact .inr (.inr ⟨hanswered, rfl, rfl⟩)

/-- Commands are freed, or a null pointer is followed. -/
theorem settleEvents_free (data : List Byte) (r : Reliability) :
    ∀ e ∈ r.settleEvents data, (∃ b, e = .free b) ∨ e = .fault := by
  intro e he
  rcases r.settle_cases data with ⟨-, -, -, hevents⟩ | ⟨-, -, -, hevents⟩ | ⟨-, -, hevents⟩
  · rw [hevents] at he
    exact nomatch he
  · rw [hevents] at he
    rcases List.mem_append.mp he with he | he
    · obtain ⟨b, -, rfl⟩ := List.mem_map.mp he
      exact .inl ⟨b, rfl⟩
    · split at he
      · exact .inr (List.mem_singleton.mp he)
      · exact nomatch he
  · rw [hevents] at he
    exact nomatch he

end Reliability

def NetQW.reliability (q : NetQW) : Reliability where
  queue := q.reliableQueue
  sent := q.reliableBuffersSent
  number := q.reliableSequenceNumber
  xor := q.incomingReliableXor
  current := q.currentOutgoingSequenceNumber

/-- Events that have to do with reliable commands. -/
def NetEvent.ofReliables : NetEvent → Bool
  | .sendPacket .. | .append _ | .free _ | .handle _ | .fault => true
  | _ => false

/-- From `q` to `q'` nothing happened to the reliable commands. -/
abbrev ReliableSilent (q q' : NetQW) : Prop :=
  Keeps NetQW.reliability (fun e => e.ofReliables = false) q q'

/-! ## Handling a packet -/

section

variable (q : NetQW) (data : List Byte)

/-- What comes before the reliable commands leaves them alone. -/
theorem reliableSilent_note :
    ReliableSilent (q.log [.handle data]) (((q.log [.handle data]).noteSequence fun i =>
      data.getD i 0).notePacketloss (sequenceOf data)) := by
  have hnote : ReliableSilent (q.log [.handle data])
      ((q.log [.handle data]).noteSequence fun i => data.getD i 0) := .of_eq rfl rfl
  exact hnote.trans (keeps_notePacketloss _ (fun _ _ => rfl) (fun _ _ => rfl) _)

theorem settleReliables_eq : q.settleReliables (sequenceOf data) (acknowledgeBit data)
    = if q.reliability.Answered data then
        if q.reliability.Lost data then q.resendReliables else q.freeReliables
      else q := rfl

/-- The reliable commands are settled as their fields say. -/
theorem settleReliables_spec :
    (q.settleReliables (sequenceOf data) (acknowledgeBit data)).reliability
      = q.reliability.settle data ∧
    (q.settleReliables (sequenceOf data) (acknowledgeBit data)).trace
      = q.trace ++ q.reliability.settleEvents data := by
  rw [settleReliables_eq]
  unfold Reliability.settle Reliability.settleEvents
  by_cases hanswered : q.reliability.Answered data
  · rw [if_pos hanswered, if_pos hanswered, if_pos hanswered]
    by_cases hlost : q.reliability.Lost data
    · rw [if_pos hlost, if_pos hlost, if_pos hlost]
      exact ⟨rfl, (List.append_nil _).symm⟩
    · rw [if_neg hlost, if_neg hlost, if_neg hlost]
      exact ⟨rfl, rfl⟩
  · rw [if_neg hanswered, if_neg hanswered, if_neg hanswered]
    exact ⟨rfl, (List.append_nil _).symm⟩

theorem handleReceivedPacket_reliability :
    (q.handleReceivedPacket data).reliability = q.reliability.settle data ∧
      ∃ es, (q.handleReceivedPacket data).trace
        = q.trace ++ .handle data :: (es ++ q.reliability.settleEvents data) ∧
          ∀ e ∈ es, e.ofReliables = false := by
  obtain ⟨hview, es, htrace, hall⟩ := reliableSilent_note q data
  have hspec := settleReliables_spec (((q.log [.handle data]).noteSequence fun i =>
    data.getD i 0).notePacketloss (sequenceOf data)) data
  rw [hview, htrace] at hspec
  refine ⟨hspec.1, es, hspec.2.trans ?_, hall⟩
  rw [NetQW.log_trace, List.append_assoc, List.append_assoc]
  rfl

end

/-! ## Steps that handle a packet -/

namespace Client

/-- The packet that the step passes to `NetQW_Thread_HandleReceivedPacket`. -/
def handling (a : Action) (c : Client) : Option (List Byte) :=
  match a with
  | .receive env source datagram =>
    if c.netqw.delayUntil env.now = 0#64 then c.netqw.accepts? env source datagram else none
  | .handleDelayed _ => c.netqw.internalQueue.head?.map fun n => (c.netqw.netpackets n).data
  | _ => none

end Client

/-- From `q` to `q'` the packet `data` was handled. -/
structure Handles (data : List Byte) (q q' : NetQW) : Prop where
  view : q'.reliability = q.reliability.settle data
  trace : ∃ es es', q'.trace
      = q.trace ++ .handle data :: (es ++ q.reliability.settleEvents data) ++ es' ∧
    ∀ e ∈ es ++ es', e.ofReliables = false

section

variable {q q₁ q₂ : NetQW} {data : List Byte}

theorem handles_handleReceivedPacket (q : NetQW) (data : List Byte) :
    Handles data q (q.handleReceivedPacket data) := by
  obtain ⟨hview, es, htrace, hall⟩ := handleReceivedPacket_reliability q data
  refine ⟨hview, es, [], htrace.trans (List.append_nil _).symm, ?_⟩
  rw [List.append_nil]
  exact hall

theorem Handles.then (h : Handles data q q₁) (hs : ReliableSilent q₁ q₂) : Handles data q q₂ := by
  obtain ⟨es, es', htrace, hall⟩ := h.trace
  obtain ⟨es'', htrace', hall'⟩ := hs.trace
  refine ⟨hs.view.trans h.view, es, es' ++ es'', ?_, ?_⟩
  · rw [htrace', htrace, List.append_assoc]
  · rw [← List.append_assoc]
    exact List.forall_mem_append.mpr ⟨hall, hall'⟩

/-- Other histories than those of the commands that are freed stay the same. -/
theorem Handles.filterMap {α : Type} {f : NetEvent → Option α} (h : Handles data q q₁)
    (hf : ∀ e : NetEvent, e.ofReliables = false → f e = none) (hdata : f (.handle data) = none) :
    q₁.trace.filterMap f
      = q.trace.filterMap f ++ (q.reliability.settleEvents data).filterMap f := by
  obtain ⟨es, es', htrace, hoff⟩ := h.trace
  have hnone : ∀ es₁ : List NetEvent, (∀ e ∈ es₁, e ∈ es ++ es') → es₁.filterMap f = [] :=
    fun es₁ hes₁ => List.filterMap_eq_nil_iff.mpr fun e he => hf e (hoff e (hes₁ e he))
  rw [htrace, List.filterMap_append, List.filterMap_append, List.filterMap_cons_none hdata,
    List.filterMap_append, hnone es fun e => List.mem_append_left es',
    hnone es' fun e => List.mem_append_right es, List.nil_append, List.append_nil]

theorem reliableSilent_release (q : NetQW) (n : Nat) : ReliableSilent q (q.release n) :=
  keeps_release q (fun _ _ _ => rfl) (fun _ _ => rfl) (fun _ => rfl) n

/-- An accepted packet is handled now, or nothing happens to the reliable commands yet. -/
theorem reliable_acceptPacket (now : BitVec 64) (data : List Byte) (q : NetQW) :
    if q.delayUntil now = 0#64 then Handles data q (q.acceptPacket now data)
    else ReliableSilent q (q.acceptPacket now data) := by
  have hqueue : ∀ q : NetQW, ReliableSilent q (q.queueForClient data) := fun q =>
    ⟨rfl, [.accept data], rfl, List.forall_mem_singleton.mpr rfl⟩
  unfold NetQW.acceptPacket
  by_cases hdelay : q.delayUntil now = 0#64
  · rw [if_pos hdelay, if_pos hdelay]
    have hnow : Handles data q (q.handleNow data) := by
      obtain ⟨hview, htrace⟩ := handles_handleReceivedPacket (q.storePacket ⟨0, 1, data⟩) data
      exact ⟨hview, htrace⟩
    exact hnow.then (hqueue _)
  · rw [if_neg hdelay, if_neg hdelay]
    have hlater : ReliableSilent q (q.handleLater (q.delayUntil now) data) := .of_eq rfl rfl
    exact hlater.trans (hqueue _)

theorem handles_handleDelayed {curtime : BitVec 64} (h : q.handleDelayed curtime = some q₁) :
    ∃ n rest, q.internalQueue = n :: rest ∧ Handles (q.netpackets n).data q q₁ := by
  obtain ⟨n, rest, hqueue, rfl⟩ := handleDelayed_spec h
  have hhandle := handles_handleReceivedPacket q (q.netpackets n).data
  have hset : ∀ q : NetQW, ReliableSilent q (q.setInternalQueue rest) := fun _ => .of_eq rfl rfl
  exact ⟨n, rest, hqueue, (hhandle.then (hset _)).then (reliableSilent_release _ n)⟩

/-- A datagram that is not accepted may connect the client, which then asks for `new`. -/
theorem reliable_receive {env : NetQW.SendEnv} {source : NetAddr} {datagram : List Byte}
    (h : q.accepts? env source datagram = none) :
    ReliableSilent q (q.receive env source datagram) ∨
      ((q.receive env source datagram).reliability = q.reliability.append NetQW.newCommand ∧
        (q.receive env source datagram).trace = q.trace ++ [.append NetQW.newCommand]) := by
  rcases receive_of_refused h with heq | ⟨r, buf, heq⟩ | heq | heq
  · rw [heq]
    exact .inl (.refl q)
  · rw [heq]
    exact .inl (keeps_receiveChallenge q (fun _ _ _ _ _ _ => rfl) r buf)
  · rw [heq]
    exact .inl (keeps_enterConnected q (fun _ _ _ _ => rfl) env.now)
  · rw [heq]
    exact .inr ⟨rfl, rfl⟩

end

namespace Client

variable {angle16 : BitVec 32 → BitVec 16} {a : Action} {c c' : Client} {data : List Byte}

/-- A packet that is accepted but not handled waits for the lag. -/
theorem waits_of_handling {env : NetQW.SendEnv} {source : NetAddr} {datagram : List Byte}
    (hdata : c.handling (.receive env source datagram) = none)
    (haccepts : c.netqw.accepts? env source datagram = some data) :
    c.netqw.delayUntil env.now ≠ 0#64 := by
  intro hdelay
  rw [handling, if_pos hdelay, haccepts] at hdata
  exact absurd hdata (Option.some_ne_none data)

/-- Handling is what the step does to the reliable commands. -/
theorem handles_of_handling (h : step angle16 a c = some c') (hdata : c.handling a = some data) :
    c.pc = .idle ∧ c'.pc = .idle ∧ Handles data c.netqw c'.netqw := by
  -- a packet is handled on receipt, or later from the delay queue
  cases a
  case receive env source datagram =>
    obtain ⟨hpc, rfl⟩ := outside_total (f := NetQW.receive env source datagram) h
    rw [handling] at hdata
    split at hdata
    · rename_i hdelay
      have haccept := reliable_acceptPacket env.now data c.netqw
      rw [if_pos hdelay] at haccept
      refine ⟨hpc, rfl, ?_⟩
      show Handles data c.netqw (c.netqw.receive env source datagram)
      rw [(receive_of_accepts hdata).2]
      exact haccept
    · exact nomatch hdata
  case handleDelayed curtime =>
    obtain ⟨hpc, q', hq', rfl⟩ := outside_spec h
    obtain ⟨n, rest, hqueue, hhandles⟩ := handles_handleDelayed hq'
    rw [handling, hqueue] at hdata
    obtain rfl := Option.some.inj hdata
    exact ⟨hpc, rfl, hhandles⟩
  all_goals exact nomatch hdata

/-- What is handled was received now, or it waited. -/
theorem handling_items {P : List Byte → Prop} (h : c.netqw.lagQueue.Items P)
    (haccepts : ∀ env source datagram, a = .receive env source datagram →
      ∀ data ∈ c.netqw.accepts? env source datagram, P data)
    (hdata : c.handling a = some data) : P data := by
  cases a
  case receive env source datagram =>
    rw [handling] at hdata
    split at hdata
    · exact haccepts env source datagram rfl data hdata
    · exact nomatch hdata
  case handleDelayed curtime =>
    obtain ⟨n, hn, rfl⟩ := Option.map_eq_some_iff.mp hdata
    exact h.waiting _ (List.mem_map.mpr ⟨n, List.mem_of_mem_head? hn, rfl⟩)
  all_goals exact nomatch hdata

end Client

/-! ## What a step can do -/

/-- A step of the network thread. -/
def Action.ofNetworkThread : Action → Bool
  | .clampDelays _ | .handleDelayed _ | .clampSends _ | .sendDelayed _ | .receive .. => true
  | .beginSend .. | .netGenerate .. | .endSend | .buildPacket | .addDelta | .addTmove => true
  | .addReliables | .submitPacket _ | .finishPacket => true
  | .setFPS _ | .append _ | .generate .. | .copyFrames | .setDeltaPoint _ | .setTeleport _ => false
  | .setMovementLocked _ | .setLag _ | .setLagEzcheat _ | .freePacket => false

/-- The command that another thread appends. -/
def Action.appended? : Action → Option ReliableBuffer
  | .append b => some b
  | _ => none

/-- The network thread is about to send a packet that is complete, or has just sent it. -/
def SendPc.sending : SendPc → Bool
  | .submit .. | .finish => true
  | _ => false

namespace Client

variable {angle16 : BitVec 32 → BitVec 16} {a : Action} {c c' : Client}

/-- The network thread does not move, or it is neither before nor after complete with a packet. -/
def Elsewhere (c c' : Client) : Prop :=
  c'.pc = c.pc ∨ c.pc.sending = false ∧ c'.pc.sending = false

theorem elsewhere_of_ofFrames (ha : a.ofFrames = true) (h : step angle16 a c = some c') :
    c.Elsewhere c' := by
  have hboth : ∀ {p p' : SendPc}, c.pc = p → c'.pc = p' → p.sending = false →
      p'.sending = false → c.Elsewhere c' := by
    rintro p p' rfl rfl hp hp'
    exact .inr ⟨hp, hp'⟩
  -- these actions leave the counter alone or move it among places before the header is written
  cases a
  case generate curtime senttime fuel =>
    obtain ⟨q, hq, rfl⟩ := Option.map_eq_some_iff.mp h
    exact .inl rfl
  case netGenerate curtime senttime fuel =>
    obtain ⟨hpc, q, hq, rfl⟩ := netGenerate_spec h
    exact hboth hpc rfl rfl rfl
  case endSend =>
    obtain ⟨hpc, -, rfl⟩ := endSend_spec h
    exact hboth hpc rfl rfl rfl
  case buildPacket =>
    obtain ⟨hpc, -, rfl⟩ := buildPacket_spec h
    exact hboth hpc rfl rfl rfl
  case addDelta =>
    obtain ⟨buf, hpc, rfl⟩ := addDelta_spec h
    exact hboth hpc rfl rfl rfl
  case addTmove =>
    obtain ⟨buf, hpc, rfl⟩ := addTmove_spec h
    exact hboth hpc rfl rfl rfl
  all_goals first
    | exact .inl (Option.some.inj h ▸ rfl)
    | exact nomatch ha

/-- All that a step can do to the reliable commands. -/
inductive ReliableStep (a : Action) (c c' : Client) : Prop where
  | silent (hkeeps : ReliableSilent c.netqw c'.netqw) (hpc : c.Elsewhere c')
  | append (b : ReliableBuffer) (hview : c'.netqw.reliability = c.netqw.reliability.append b)
      (htrace : c'.netqw.trace = c.netqw.trace ++ [.append b]) (hpc : c'.pc = c.pc)
      (hb : a = .append b ∨ a.ofNetworkThread = true ∧ b = NetQW.newCommand)
  | handle (data : List Byte) (hdata : c.handling a = some data) (hpc : c.pc = .idle)
      (hpc' : c'.pc = .idle) (hhandles : Handles data c.netqw c'.netqw)
  | remember (buf : List Byte) (hpc : c.pc = .reliable buf)
      (heq : c' = ⟨c.netqw.rememberReliables buf.length,
        .submit (c.netqw.appendReliables buf) (c.netqw.reliables buf.length)⟩)
  | submit (buf : List Byte) (reliable : List ReliableBuffer) (hpc : c.pc = .submit buf reliable)
      (hpc' : c'.pc = .finish)
      (hkeeps : ReliableSilent (c.netqw.log [.sendPacket buf reliable]) c'.netqw)
  | finish (hpc : c.pc = .finish) (heq : c' = ⟨c.netqw.finishPacket, .loop⟩)

/-- The network thread stays outside `NetQW_Thread_DoSend`, and nothing happens. -/
theorem ReliableStep.outside (hpc : c.pc = .idle) (hpc' : c'.pc = .idle)
    (hkeeps : ReliableSilent c.netqw c'.netqw) : ReliableStep a c c' :=
  .silent hkeeps (.inl (hpc'.trans hpc.symm))

theorem step_reliable (h : step angle16 a c = some c') : ReliableStep a c c' := by
  have hframes : ReadsNoFrames NetQW.reliability (fun e => e.ofReliables = false) := by
    refine ⟨fun _ _ => rfl, fun _ _ _ _ _ _ _ _ _ _ _ _ _ _ => rfl, fun e he => ?_⟩
    cases e <;> first | rfl | exact nomatch he
  have hpackets : ReadsNoPackets NetQW.reliability (fun e => e.ofReliables = false) := by
    refine ⟨fun _ _ => rfl, fun _ _ _ _ _ => rfl, fun e he => ?_⟩
    cases e <;> first | rfl | exact nomatch he
  have hsending : ReadsNoSending NetQW.reliability (fun e => e.ofReliables = false) :=
    ⟨fun _ _ => rfl, fun _ _ _ _ => rfl, fun _ => rfl⟩
  -- most actions never touch the reliables; the others have a constructor each
  cases a
  case append buffer =>
    obtain rfl := Option.some.inj h
    exact .append buffer rfl rfl rfl (.inl rfl)
  case freePacket =>
    obtain ⟨q', hq', rfl⟩ := Option.map_eq_some_iff.mp h
    exact .silent (hpackets.freePacket hq') (.inl rfl)
  case clampDelays curtime =>
    obtain ⟨hpc, rfl⟩ := outside_total (f := NetQW.clampDelays curtime) h
    exact .outside hpc rfl (hpackets.clampDelays curtime)
  case handleDelayed curtime =>
    obtain ⟨-, q', hq', -⟩ := outside_spec h
    obtain ⟨n, rest, hqueue, -⟩ := handles_handleDelayed hq'
    have hdata : c.handling (.handleDelayed curtime) = some (c.netqw.netpackets n).data := by
      rw [handling, hqueue]
      rfl
    obtain ⟨hpc, hpc', hhandles⟩ := handles_of_handling h hdata
    exact .handle _ hdata hpc hpc' hhandles
  case clampSends | sendDelayed | beginSend =>
    obtain ⟨hkeeps, hpc, hpc'⟩ := hsending.step rfl h
    have hbefore : c.pc.sending = false := by
      rw [hpc]
      rfl
    have hafter : c'.pc.sending = false := by
      rcases hpc' with hidle | hgenerate
      · rw [hidle]
        rfl
      · rw [hgenerate]
        rfl
    exact .silent hkeeps (.inr ⟨hbefore, hafter⟩)
  case receive env source datagram =>
    cases hdata : c.handling (.receive env source datagram) with
    | some data =>
      obtain ⟨hpc, hpc', hhandles⟩ := handles_of_handling h hdata
      exact .handle data hdata hpc hpc' hhandles
    | none =>
      obtain ⟨hpc, rfl⟩ := outside_total (f := NetQW.receive env source datagram) h
      cases haccepts : c.netqw.accepts? env source datagram with
      | none =>
        rcases reliable_receive haccepts with hsilent | ⟨hview, htrace⟩
        · exact .outside hpc rfl hsilent
        · exact .append _ hview htrace hpc.symm (.inr ⟨rfl, rfl⟩)
      | some data =>
        -- accepted and held back: it is linked into the delay queue, unread
        have hdelay := waits_of_handling hdata haccepts
        have haccept := reliable_acceptPacket env.now data c.netqw
        rw [if_neg hdelay] at haccept
        refine .outside hpc rfl ?_
        show ReliableSilent c.netqw (c.netqw.receive env source datagram)
        rw [(receive_of_accepts haccepts).2]
        exact haccept
  case addReliables =>
    obtain ⟨buf, hpc, heq⟩ := addReliables_spec h
    exact .remember buf hpc heq
  -- sending and waiting for a reply read the frames only
  case submitPacket env =>
    obtain ⟨buf, reliable, hpc, rfl⟩ := submitPacket_spec h
    refine .submit buf reliable hpc rfl ?_
    have hsend : ∀ q : NetQW, ReliableSilent q (q.sendPacket env buf false) := fun q =>
      keeps_sendPacket q (fun _ _ => rfl) (fun _ => rfl) (fun _ _ => rfl) env buf false
    have hawait : ∀ q : NetQW, ReliableSilent q q.awaitReply := fun _ => .of_eq rfl rfl
    exact (hsend _).trans (hawait _)
  case finishPacket =>
    obtain ⟨hpc, heq⟩ := finishPacket_spec h
    exact .finish hpc heq
  all_goals exact .silent (hframes.step rfl h).1 (elsewhere_of_ofFrames rfl h)

end Client

/-! ## The packet under construction -/

/-- The packet under construction, as long as it has no reliable commands. -/
def SendPc.base? : SendPc → Option (List Byte)
  | .delta buf | .tmove buf | .reliable buf => some buf
  | _ => none

/-- It begins with its number. -/
def Client.Numbered (c : Client) : Prop :=
  ∀ buf ∈ c.pc.base?, ∃ rest, buf = writeLong c.netqw.currentOutgoingSequenceNumber ++ rest

/-- The number of a packet is read back from its header, but for the top bit. -/
theorem number31_writeLong (n : BitVec 32) (rest : List Byte) :
    number31 (fun i => (writeLong n ++ rest).getD i 0) 0 = n &&& 0x7fffffff#32 := by
  show (((n >>> 24).setWidth 8 &&& 0x7f#8) ++ (n >>> 16).setWidth 8 ++ (n >>> 8).setWidth 8
    ++ n.setWidth 8 : BitVec 32) = _
  have hmask : ∀ i < 32, (0x7fffffff#32).getLsbD i = decide (i < 31) := by decide
  have hmask' : ∀ i < 8, (0x7f#8).getLsbD i = decide (i < 7) := by decide
  apply BitVec.eq_of_getLsbD_eq
  intro i hi
  simp only [BitVec.getLsbD_append, BitVec.getLsbD_and, BitVec.getLsbD_setWidth,
    BitVec.getLsbD_ushiftRight, hmask i hi]
  -- one byte after the other, the lowest first
  by_cases h₀ : i < 8
  · simp [h₀, show i < 31 by omega]
  by_cases h₁ : i - 8 < 8
  · simp [h₀, h₁, show i < 31 by omega, show 8 + (i - 8) = i by omega]
  by_cases h₂ : i - 8 - 8 < 8
  · simp [h₀, h₁, h₂, show i < 31 by omega, show 16 + (i - 8 - 8) = i by omega]
  · have h₃ : i - 8 - 8 - 8 < 8 := by omega
    have hflag : i - 8 - 8 - 8 < 7 ↔ i < 31 := by omega
    rw [hmask' _ h₃]
    simp [h₀, h₁, h₂, h₃, hflag, show 24 + (i - 8 - 8 - 8) = i by omega]

/-- The flag of reliable commands is the bit that the number leaves out. -/
theorem number31_orAt (n : BitVec 32) (rest : List Byte) :
    number31 (fun i => (orAt (writeLong n ++ rest) 3 0x80#8).getD i 0) 0 = n &&& 0x7fffffff#32 := by
  have hmask : ∀ b : Byte, (b ||| 0x80#8) &&& 0x7f#8 = b &&& 0x7f#8 := by decide
  rw [← number31_writeLong n rest]
  have hbyte := hmask ((n >>> 24).setWidth 8)
  exact congrArg (fun b : Byte => b ++ (n >>> 16).setWidth 8 ++ (n >>> 8).setWidth 8
    ++ n.setWidth 8) hbyte

theorem topBit_orAt (n : BitVec 32) (rest : List Byte) :
    topBit (fun i => (orAt (writeLong n ++ rest) 3 0x80#8).getD i 0) 3 = true := by
  have hflag : ∀ b : Byte, (b ||| 0x80#8) &&& 0x80#8 ≠ 0#8 := by decide
  exact decide_eq_true (hflag _)

theorem orAt_append {base : List Byte} {i : Nat} (hi : i < base.length) (more : List Byte)
    (bits : Byte) : orAt (base ++ more) i bits = orAt base i bits ++ more := by
  rw [orAt, orAt, List.set_append_left _ _ hi, List.getD_append _ _ _ _ hi]

/-- Commands go behind the number, which stays readable. -/
theorem number31_appendReliables (q : NetQW) (n : BitVec 32) (rest : List Byte) :
    number31 (fun i => (q.appendReliables (writeLong n ++ rest)).getD i 0) 0
      = n &&& 0x7fffffff#32 := by
  unfold NetQW.appendReliables
  dsimp only
  rw [List.append_assoc]
  split
  · exact number31_orAt n _
  · exact number31_writeLong n _

namespace Client

variable {angle16 : BitVec 32 → BitVec 16} {a : Action} {c c' : Client}

theorem numbered_of_none (h : c.pc.base? = none) : c.Numbered := by
  intro buf hbuf
  rw [h] at hbuf
  exact nomatch hbuf

theorem Numbered.congr (h : c.Numbered) (hpc : c'.pc = c.pc)
    (hcurrent : c'.netqw.currentOutgoingSequenceNumber = c.netqw.currentOutgoingSequenceNumber) :
    c'.Numbered := by
  unfold Numbered
  rw [hpc, hcurrent]
  exact h

/-- Only after a packet the numbers move on. -/
theorem ReliableStep.current_eq (h : ReliableStep a c c') : c'.pc.base? = none ∨
    c'.netqw.currentOutgoingSequenceNumber = c.netqw.currentOutgoingSequenceNumber := by
  have hfield : ∀ {r : Reliability}, c'.netqw.reliability = r →
      c'.netqw.currentOutgoingSequenceNumber = r.current := fun heq =>
      congrArg Reliability.current heq
  cases h with
  | silent hkeeps => exact .inr (hfield hkeeps.view)
  | append b hview => exact .inr (hfield hview)
  | handle data _ _ _ hhandles => 
    exact .inr ((hfield hhandles.view).trans (Reliability.current_settle data _))
  | remember buf _ heq => exact .inl (heq ▸ rfl)
  | submit buf reliable _ hpc' => exact .inl (hpc' ▸ rfl)
  | finish _ heq => exact .inl (heq ▸ rfl)

/-- Every step begins a packet with its number, or goes on with it, or leaves it. -/
theorem Numbered.step (hn : c.Numbered) (h : step angle16 a c = some c') : c'.Numbered := by
  have hlonger : ∀ {q : NetQW} {buf more : List Byte} {pc : SendPc},
      q.currentOutgoingSequenceNumber = c.netqw.currentOutgoingSequenceNumber →
      c.pc.base? = some buf → pc.base? = some (buf ++ more) → Numbered ⟨q, pc⟩ := by
    intro q buf more pc hcurrent hbase hbase' buf' hbuf'
    obtain rfl := Option.some.inj (hbase'.symm.trans hbuf')
    obtain ⟨rest, rfl⟩ := hn buf hbase
    exact ⟨rest ++ more, by rw [hcurrent, List.append_assoc]⟩
  have hstay : c'.pc = c.pc ∨ c'.pc.base? = none → c'.Numbered := by
    rintro (hpc | hnone)
    · rcases (step_reliable h).current_eq with hnone | hcurrent
      · exact numbered_of_none hnone
      · exact hn.congr hpc hcurrent
    · exact numbered_of_none hnone
  have houtside : ∀ {f : NetQW → Option NetQW}, c.outside f = some c' → c'.Numbered := by
    intro f hf
    obtain ⟨-, q, -, rfl⟩ := outside_spec hf
    exact numbered_of_none rfl
  -- the header is written once, and what follows only appends to it
  cases a
  case buildPacket =>
    obtain ⟨-, -, rfl⟩ := buildPacket_spec h
    intro buf hbuf
    obtain rfl := Option.some.inj hbuf
    exact ⟨_, List.append_assoc (writeLong _) _ _⟩
  case addDelta =>
    obtain ⟨buf, hpc, rfl⟩ := addDelta_spec h
    exact hlonger rfl (by rw [hpc]; rfl) rfl
  case addTmove =>
    obtain ⟨buf, hpc, rfl⟩ := addTmove_spec h
    exact hlonger rfl (by rw [hpc]; rfl) rfl
  case generate curtime senttime fuel =>
    obtain ⟨q, -, rfl⟩ := Option.map_eq_some_iff.mp h
    exact hstay (.inl rfl)
  case freePacket =>
    obtain ⟨q, -, rfl⟩ := Option.map_eq_some_iff.mp h
    exact hstay (.inl rfl)
  case beginSend curtime stack =>
    obtain ⟨-, rfl⟩ := beginSend_spec h
    split
    · exact numbered_of_none rfl
    · exact numbered_of_none rfl
  case netGenerate curtime senttime fuel =>
    obtain ⟨-, q, -, rfl⟩ := netGenerate_spec h
    exact numbered_of_none rfl
  case endSend =>
    obtain ⟨-, -, rfl⟩ := endSend_spec h
    exact numbered_of_none rfl
  case addReliables =>
    obtain ⟨buf, -, rfl⟩ := addReliables_spec h
    exact numbered_of_none rfl
  case submitPacket env =>
    obtain ⟨buf, reliable, -, rfl⟩ := submitPacket_spec h
    exact numbered_of_none rfl
  case finishPacket =>
    obtain ⟨-, rfl⟩ := finishPacket_spec h
    exact numbered_of_none rfl
  case clampDelays curtime => exact houtside (f := fun q => some (q.clampDelays curtime)) h
  case clampSends curtime => exact houtside (f := fun q => some (q.clampSends curtime)) h
  case receive env source datagram =>
    exact houtside (f := fun q => some (q.receive env source datagram)) h
  case handleDelayed curtime => exact houtside h
  case sendDelayed curtime => exact houtside h
  all_goals exact hstay (.inl (Option.some.inj h ▸ rfl))

theorem numbered (h : (system angle16).Reachable c) : c.Numbered := by
  have hinit : ∀ c, Init c → c.Numbered := by
    rintro c ⟨garbage, qport, userinfo, addr, rfl⟩
    exact numbered_of_none rfl
  exact h.invariant hinit fun a c c' hn _ hstep => hn.step hstep

end Client

end QwNet
