/-
  QwNet.Channel.Effects

  What the operations leave alone.

  A view is what an argument looks at: some of the fields of the object.  An
  operation keeps a view that reads none of the fields it writes.  There is one lemma
  for each operation, for any view, and the fields are those its hypotheses name.
-/
import QwNet.Channel.System

namespace QwNet

variable {τ : Type}

/-- From `q` to `q'` the view `V` stays the same, and only events of the kind `P` happen. -/
structure Keeps (V : NetQW → τ) (P : NetEvent → Prop) (q q' : NetQW) : Prop where
  view : V q' = V q
  trace : ∃ es, q'.trace = q.trace ++ es ∧ ∀ e ∈ es, P e

namespace Keeps

variable {V : NetQW → τ} {P : NetEvent → Prop} {q q₁ q₂ q₃ : NetQW}

/-- A field is written that the view does not read. -/
theorem of_eq {q' : NetQW} (hview : V q' = V q) (htrace : q'.trace = q.trace) : Keeps V P q q' :=
  ⟨hview, [], by rw [htrace, List.append_nil], fun e he => nomatch he⟩

theorem refl (q : NetQW) : Keeps V P q q := of_eq rfl rfl

theorem trans (h₁ : Keeps V P q₁ q₂) (h₂ : Keeps V P q₂ q₃) : Keeps V P q₁ q₃ := by
  obtain ⟨es₁, heq₁, hall₁⟩ := h₁.trace
  obtain ⟨es₂, heq₂, hall₂⟩ := h₂.trace
  refine ⟨h₂.view.trans h₁.view, es₁ ++ es₂, ?_, List.forall_mem_append.mpr ⟨hall₁, hall₂⟩⟩
  rw [heq₂, heq₁, List.append_assoc]

theorem log (hlog : ∀ q es, V (q.log es) = V q) {es : List NetEvent} (h : ∀ e ∈ es, P e) :
    Keeps V P q (q.log es) := ⟨hlog q es, es, rfl, h⟩

theorem log_one (hlog : ∀ q es, V (q.log es) = V q) {e : NetEvent} (h : P e) :
    Keeps V P q (q.log [e]) := log hlog (List.forall_mem_singleton.mpr h)

/-- Histories of other kinds of events stay the same. -/
theorem filterMap {α : Type} {f : NetEvent → Option α} {q' : NetQW} (h : Keeps V P q q')
    (hf : ∀ e, P e → f e = none) : q'.trace.filterMap f = q.trace.filterMap f := by
  obtain ⟨es, htrace, hall⟩ := h.trace
  have hnone : es.filterMap f = [] :=
    List.filterMap_eq_nil_iff.mpr fun e he => hf e (hall e he)
  rw [htrace, List.filterMap_append, hnone, List.append_nil]

end Keeps

section

variable {V : NetQW → τ} {P : NetEvent → Prop} (q : NetQW)
  (hlog : ∀ q es, V (q.log es) = V q) (hsend : ∀ data, P (.netSend data))

/-! ## Sending -/

section

variable (hqueue : ∀ q queue, V (NetQW.setSendQueue queue q) = V q)
include hlog hsend hqueue

theorem keeps_sendOrQueue (env : NetQW.SendEnv) (buf : List Byte) (force : Bool) :
    Keeps V P q (q.sendOrQueue env buf force) := by
  unfold NetQW.sendOrQueue
  split
  · split
    · exact .of_eq (hqueue q _) rfl
    · exact .refl q
  · exact .log_one hlog (hsend _)

theorem keeps_sendPacket (env : NetQW.SendEnv) (buf : List Byte) (force : Bool) :
    Keeps V P q (q.sendPacket env buf force) := by
  unfold NetQW.sendPacket
  split
  · exact .refl q
  · split
    · dsimp only
      split
      · exact .refl q
      · exact keeps_sendOrQueue q hlog hsend hqueue env _ force
    · exact keeps_sendOrQueue q hlog hsend hqueue env buf force

theorem keeps_sendDelayed {curtime : BitVec 64} {q' : NetQW}
    (h : q.sendDelayed curtime = some q') : Keeps V P q q' := by
  have hset : ∀ queue, Keeps V P q (q.setSendQueue queue) := fun queue => .of_eq (hqueue q queue) rfl
  unfold NetQW.sendDelayed at h
  split at h
  · exact nomatch h
  · split at h
    · obtain rfl := Option.some.inj h
      exact (hset _).trans (.log_one hlog (hsend _))
    · exact nomatch h

end

theorem keeps_clampSends
    (hqueue : ∀ q queue, V (NetQW.setSendQueue queue q) = V q) (curtime : BitVec 64) :
    Keeps V P q (q.clampSends curtime) := by
  unfold NetQW.clampSends
  split
  · exact .refl q
  · split
    · exact .of_eq (hqueue q _) rfl
    · exact .refl q

/-- The requests of a client that is not connected yet. -/
theorem keeps_resend (hlog : ∀ q es, V (q.log es) = V q) (hsend : ∀ data, P (.netSend data))
    (htime : ∀ q time, V (NetQW.setResendtime time q) = V q) (curtime : BitVec 64)
    (stack : Nat → Byte) : Keeps V P q (q.resend curtime stack) := by
  have hconnect : Keeps V P q (q.sendConnectRequest stack) := by
    unfold NetQW.sendConnectRequest
    generalize q.connectRequest stack = r
    dsimp only
    split
    · exact .log_one hlog (hsend _)
    · exact .refl q
  have hset : ∀ (q : NetQW) time, Keeps V P q (q.setResendtime time) :=
    fun q time => .of_eq (htime q time) rfl
  unfold NetQW.resend
  split
  · refine Keeps.trans ?_ (hset _ _)
    split
    · exact .log_one hlog (hsend _)
    · exact hconnect
  · exact .refl q

theorem keeps_clampMoveTime (htime : ∀ q time, V { q with lastmovesendtime := time } = V q)
    (curtime : BitVec 64) : Keeps V P q (q.clampMoveTime curtime) := by
  unfold NetQW.clampMoveTime
  split
  · exact .of_eq (htime q _) rfl
  · exact .refl q

theorem keeps_rememberReliables
    (hsent : ∀ q n s x, V { q with
      reliableBuffersSent := n, reliableSequenceNumber := s, incomingReliableXor := x } = V q)
    (i : Nat) : Keeps V P q (q.rememberReliables i) := by
  unfold NetQW.rememberReliables
  split
  · exact .of_eq (hsent q _ _ _) rfl
  · exact .refl q

/-! ## Frames -/

theorem keeps_setFPS (hperiod : ∀ q period, V (NetQW.setPeriod period q) = V q) (fps : BitVec 32) :
    Keeps V P q (q.setFPS fps) := by
  have hset : ∀ period, Keeps V P q (q.setPeriod period) := fun p => .of_eq (hperiod q p) rfl
  unfold NetQW.setFPS
  split
  · exact hset _
  · exact .refl q

/-- A view that reads nothing of the frames and their clocks. -/
theorem keeps_generateFrames {q' : NetQW} {curtime : BitVec 64} {senttime : Nat → BitVec 64}
    {fuel : Nat} (hlog : ∀ q es, V (q.log es) = V q)
    (hgenerate : ∀ slot cmd senttime, P (.generate slot cmd senttime))
    (hframes : ∀ q last counter frames send copy, V { q with
      lastmovesendtime := last, movetimecounter := counter, frames := frames,
      framestosend := send, framestocopy := copy } = V q)
    (h : (generateFrames curtime senttime fuel).exec q = some q') : Keeps V P q q' := by
  have hone : ∀ (q : NetQW) time, Keeps V P q (q.generateFrame time) := by
    intro q time
    unfold NetQW.generateFrame NetQW.requestDelta
    dsimp only
    refine Keeps.trans (.log_one hlog (hgenerate q.framenum q.tick.lockedCmd time)) ?_
    split
    · exact .of_eq (hframes (q.log _) _ _ _ _ _) rfl
    · exact .of_eq (hframes (q.log _) _ _ _ _ _) rfl
  have htrans : ∀ q₁ q₂ q₃ : NetQW, Keeps V P q₁ q₂ → Keeps V P q₂ q₃ → Keeps V P q₁ q₃ :=
    fun _ _ _ => Keeps.trans
  have hpass : RunM.Steps (Keeps V P) (generatePass curtime senttime) :=
    RunM.steps_get_bind fun _ => RunM.steps_ite
      (RunM.steps_bind htrans (RunM.steps_modify fun q => hone q _) fun _ =>
        RunM.steps_pure Keeps.refl _)
      (RunM.steps_pure Keeps.refl _)
  have hall : RunM.Steps (Keeps V P) (generateFrames curtime senttime fuel) :=
    RunM.steps_get_bind fun _ => RunM.steps_ite (RunM.steps_pure Keeps.refl _)
      (RunM.steps_loop Keeps.refl htrans hpass fuel)
  exact hall.exec h

theorem keeps_copyFrames (hlog : ∀ q es, V (q.log es) = V q)
    (hcopy : ∀ slot frame, P (.copy slot frame)) (hcopied : ∀ new start num, P (.copied new start num))
    (hlast : ∀ q last copy, V { q with lastcopiedframe := last, framestocopy := copy } = V q) :
    Keeps V P q q.copyFrames := by
  have hone : ∀ q : NetQW, Keeps V P q q.copyFrame := by
    intro q
    refine Keeps.trans (.log_one hlog (hcopy _ _)) (.of_eq (hlast (q.log _) _ _) rfl)
  have hall : ∀ n (q : NetQW), Keeps V P q (NetQW.copyFrame^[n] q) := by
    intro n
    induction n with
    | zero => exact fun q => .refl q
    | succ n ih => exact fun q => (hone q).trans (ih q.copyFrame)
  exact (hall _ q).trans (.log_one hlog (hcopied _ _ _))

/-! ## Receiving -/

theorem keeps_receiveChallenge
    (hset : ∀ q challenge ht crc state time, V { q with
      challenge := challenge, huffcontext := ht, huffcrc := crc, state := state,
      resendtime := time } = V q)
    (r : Nat) (buf : Nat → Byte) : Keeps V P q (q.receiveChallenge r buf) := by
  have hextension : ∀ (q : NetQW) extension value,
      Keeps V P q (q.noteExtension extension value) := by
    intro q extension value
    unfold NetQW.noteExtension
    split
    · split
      · exact .of_eq (hset q _ _ _ _ _) rfl
      · exact .of_eq (hset q _ _ _ _ _) rfl
    · exact .refl q
  have hextensions : ∀ data (q : NetQW), Keeps V P q (NetQW.noteExtensions data q) := by
    intro data q
    fun_induction NetQW.noteExtensions data q with
    | case1 p₀ p₁ p₂ p₃ p₄ p₅ p₆ p₇ rest q ih => exact (hextension q _ _).trans ih
    | case2 => exact .refl _
  have hchallenge : ∀ c, Keeps V P q (q.setChallenge c) := fun c => .of_eq (hset q c _ _ _ _) rfl
  have henter : ∀ q : NetQW, Keeps V P q q.enterSendconnection :=
    fun q => .of_eq (hset q _ _ _ _ _) rfl
  unfold NetQW.receiveChallenge
  split
  · dsimp only
    split
    · exact ((hchallenge _).trans (hextensions _ _)).trans (henter _)
    · exact .refl q
  · exact .refl q

theorem keeps_enterConnected
    (hset : ∀ q last counter state, V { q with
      lastmovesendtime := last, movetimecounter := counter, state := state } = V q)
    (now : BitVec 64) : Keeps V P q (q.enterConnected now) := .of_eq (hset q _ _ _) rfl

theorem keeps_notePacketloss (hreply : ∀ q n, V (NetQW.noteReply n q) = V q)
    (hloss : ∀ q n, V (NetQW.setPacketloss n q) = V q) (sequenceNumber : BitVec 32) :
    Keeps V P q (q.notePacketloss sequenceNumber) := by
  have hset : ∀ (q : NetQW) n, Keeps V P q (q.setPacketloss n) := fun q n => .of_eq (hloss q n) rfl
  have hnote : Keeps V P q (q.noteReply sequenceNumber) := .of_eq (hreply q _) rfl
  unfold NetQW.notePacketloss
  split
  · exact hnote.trans (hset _ _)
  · exact .refl q

theorem keeps_settleReliables (hlog : ∀ q es, V (q.log es) = V q) (hfree : ∀ b, P (.free b))
    (hfault : P .fault) (hresend : ∀ q, V (NetQW.resendReliables q) = V q)
    (hdrop : ∀ q n, V (NetQW.dropReliables n q) = V q) (sequenceNumber : BitVec 32)
    (ackbit : Bool) : Keeps V P q (q.settleReliables sequenceNumber ackbit) := by
  have hset : ∀ n, Keeps V P q (q.dropReliables n) := fun n => .of_eq (hdrop q n) rfl
  unfold NetQW.settleReliables
  split
  · split
    · exact .of_eq (hresend q) rfl
    · refine (hset _).trans (.log hlog ?_)
      intro e he
      rcases List.mem_append.mp he with he | he
      · obtain ⟨b, -, rfl⟩ := List.mem_map.mp he
        exact hfree b
      · split at he
        · exact List.mem_singleton.mp he ▸ hfault
        · exact nomatch he
  · exact .refl q

section

variable (hpackets : ∀ (q : NetQW) packets, (∀ n, (packets n).data = (q.netpackets n).data) →
  V (q.setNetpackets packets) = V q)
include hpackets

theorem keeps_clampDelays (curtime : BitVec 64) : Keeps V P q (q.clampDelays curtime) := by
  unfold NetQW.clampDelays
  split
  · exact .refl q
  · split
    · refine .of_eq (hpackets q _ fun n => ?_) rfl
      split <;> rfl
    · exact .refl q

theorem keeps_release (hlog : ∀ q es, V (q.log es) = V q) (hfree : ∀ n, P (.freePacket n))
    (n : Nat) : Keeps V P q (q.release n) := by
  have hset : ∀ packet : NetPacket, packet.data = (q.netpackets n).data →
      Keeps V P q (q.setNetpackets (Function.update q.netpackets n packet)) := by
    intro packet hdata
    refine .of_eq (hpackets q _ fun m => ?_) rfl
    rcases eq_or_ne m n with rfl | hne
    · rw [Function.update_self, hdata]
    · rw [Function.update_of_ne hne]
  refine (hset ⟨_, (q.netpackets n).usecount - 1#32, _⟩ rfl).trans (.log hlog ?_)
  intro e he
  split at he
  · exact List.mem_singleton.mp he ▸ hfree n
  · exact nomatch he

theorem keeps_freePacket (hlog : ∀ q es, V (q.log es) = V q) (hfree : ∀ n, P (.freePacket n))
    (hclient : ∀ (q : NetQW) queue, V { q with clientQueue := queue } = V q) {q' : NetQW}
    (h : q.freePacket = some q') : Keeps V P q q' := by
  unfold NetQW.freePacket at h
  split at h
  · exact absurd h (by simp)
  · rename_i n rest hqueue
    obtain rfl := Option.some.inj h
    have hset : Keeps V P q { q with clientQueue := rest } := .of_eq (hclient q _) rfl
    exact hset.trans (keeps_release _ hpackets hlog hfree n)

end

end

/-! ## Steps about frames -/

/-- A step outside `NetQW_Thread_DoSend` that is always enabled there. -/
theorem Client.outside_total {f : NetQW → NetQW} {c c' : Client}
    (h : c.outside (fun q => some (f q)) = some c') : c.pc = .idle ∧ c' = ⟨f c.netqw, .idle⟩ := by
  obtain ⟨hpc, q, hq, rfl⟩ := Client.outside_spec h
  obtain rfl := Option.some.inj hq
  exact ⟨hpc, rfl⟩

/-- A step that has to do with frames, the application's settings, or the packet under
    construction up to its reliable buffers. -/
def Action.ofFrames : Action → Bool
  | .setFPS _ | .generate .. | .copyFrames | .setDeltaPoint _ | .setTeleport _ => true
  | .setMovementLocked _ | .setLag _ | .setLagEzcheat _ => true
  | .netGenerate .. | .endSend | .buildPacket | .addDelta | .addTmove => true
  | _ => false

/-- The events of such steps. -/
def NetEvent.ofFrames : NetEvent → Bool
  | .generate .. | .copy .. | .copied .. | .build .. | .delta .. => true
  | _ => false

/-- The view reads nothing of the frames and the settings, and `P` allows the events. -/
structure ReadsNoFrames (V : NetQW → τ) (P : NetEvent → Prop) : Prop where
  log : ∀ q es, V (NetQW.log es q) = V q
  write : ∀ (q : NetQW) period last counter frames send copy copied delta tmove buffer locked lag
    ezcheat, V { q with
      microsecondsperframe := period, lastmovesendtime := last, movetimecounter := counter,
      frames := frames, framestosend := send, framestocopy := copy, lastcopiedframe := copied,
      lastReceivedEntityUpdateFrame := delta, sendTmove := tmove, tmoveBuffer := buffer,
      movementLocked := locked, lag := lag, lagEzcheat := ezcheat } = V q
  allowed : ∀ e : NetEvent, e.ofFrames = true → P e

/-- The one lemma about all these steps; outside `NetQW_Thread_DoSend` the network thread
    stays there. -/
theorem ReadsNoFrames.step {V : NetQW → τ} {P : NetEvent → Prop} (hV : ReadsNoFrames V P)
    {angle16 : BitVec 32 → BitVec 16} {a : Action} {c c' : Client} (ha : a.ofFrames = true)
    (h : Client.step angle16 a c = some c') :
    Keeps V P c.netqw c'.netqw ∧ (c.pc = .idle → c'.pc = .idle) := by
  have hwrite : ∀ {q q' : NetQW}, V q' = V q → q'.trace = q.trace → Keeps V P q q' :=
    fun hview htrace => .of_eq hview htrace
  have hgenerate : ∀ {curtime senttime fuel} {q q' : NetQW},
      (generateFrames curtime senttime fuel).exec q = some q' → Keeps V P q q' := fun hexec =>
    keeps_generateFrames _ hV.log (fun _ _ _ => hV.allowed _ rfl)
      (fun q _ _ _ _ _ => hV.write q _ _ _ _ _ _ _ _ _ _ _ _ _) hexec
  have hlog : ∀ (q : NetQW) e, e.ofFrames = true → Keeps V P q (q.log [e]) :=
    fun q e he => .log_one hV.log (hV.allowed e he)
  cases a
  case setFPS fps =>
    obtain rfl := Option.some.inj h
    exact ⟨keeps_setFPS _ (fun q _ => hV.write q _ _ _ _ _ _ _ _ _ _ _ _ _) fps, id⟩
  case generate curtime senttime fuel =>
    obtain ⟨q, hq, rfl⟩ := Option.map_eq_some_iff.mp h
    exact ⟨hgenerate hq, id⟩
  case copyFrames =>
    obtain rfl := Option.some.inj h
    exact ⟨keeps_copyFrames _ hV.log (fun _ _ => hV.allowed _ rfl) (fun _ _ _ => hV.allowed _ rfl)
      (fun q _ _ => hV.write q _ _ _ _ _ _ _ _ _ _ _ _ _), id⟩
  case setDeltaPoint n =>
    obtain rfl := Option.some.inj h
    exact ⟨hwrite (hV.write c.netqw _ _ _ _ _ _ _ _ _ _ _ _ _) rfl, id⟩
  case setTeleport position =>
    obtain rfl := Option.some.inj h
    exact ⟨hwrite (hV.write c.netqw _ _ _ _ _ _ _ _ _ _ _ _ _) rfl, id⟩
  case setMovementLocked locked =>
    obtain rfl := Option.some.inj h
    exact ⟨hwrite (hV.write c.netqw _ _ _ _ _ _ _ _ _ _ _ _ _) rfl, id⟩
  case setLag microseconds =>
    obtain rfl := Option.some.inj h
    exact ⟨hwrite (hV.write c.netqw _ _ _ _ _ _ _ _ _ _ _ _ _) rfl, id⟩
  case setLagEzcheat enabled =>
    obtain rfl := Option.some.inj h
    exact ⟨hwrite (hV.write c.netqw _ _ _ _ _ _ _ _ _ _ _ _ _) rfl, id⟩
  -- the steps of the network thread come from inside `NetQW_Thread_DoSend`
  case netGenerate curtime senttime fuel =>
    obtain ⟨hpc, q, hq, rfl⟩ := Client.netGenerate_spec h
    exact ⟨hgenerate hq, fun hidle => nomatch hpc.symm.trans hidle⟩
  case endSend =>
    obtain ⟨-, -, rfl⟩ := Client.endSend_spec h
    exact ⟨.refl _, fun _ => rfl⟩
  case buildPacket =>
    obtain ⟨hpc, -, rfl⟩ := Client.buildPacket_spec h
    exact ⟨hlog _ _ rfl, fun hidle => nomatch hpc.symm.trans hidle⟩
  case addDelta =>
    obtain ⟨buf, hpc, rfl⟩ := Client.addDelta_spec h
    exact ⟨hlog _ _ rfl, fun hidle => nomatch hpc.symm.trans hidle⟩
  case addTmove =>
    obtain ⟨buf, hpc, rfl⟩ := Client.addTmove_spec h
    refine ⟨hwrite ?_ rfl, fun hidle => nomatch hpc.symm.trans hidle⟩
    exact hV.write c.netqw _ _ _ _ _ _ _ _ _ _ _ _ _
  all_goals exact nomatch ha

/-! ## Steps about packets -/

/-- The events of `NetQW_Thread_HandleReceivedPacket`. -/
def NetEvent.ofReplies : NetEvent → Bool
  | .handle _ | .free _ | .fault => true
  | _ => false

/-- The view reads nothing that handling a packet writes. -/
structure ReadsNoReplies (V : NetQW → τ) (P : NetEvent → Prop) : Prop where
  log : ∀ q es, V (NetQW.log es q) = V q
  write : ∀ (q : NetQW) last outgoing replies loss queue sent incoming, V { q with
    lastIncomingSequenceNumber := last, outgoingReliableXor := outgoing,
    replyreceived := replies, packetloss := loss, reliableQueue := queue,
    reliableBuffersSent := sent, incomingReliableXor := incoming } = V q
  allowed : ∀ e : NetEvent, e.ofReplies = true → P e

theorem ReadsNoReplies.handleReceivedPacket {V : NetQW → τ} {P : NetEvent → Prop}
    (hV : ReadsNoReplies V P) (data : List Byte) (q : NetQW) :
    Keeps V P q (q.handleReceivedPacket data) := by
  have hlog : Keeps V P q (q.log [.handle data]) := .log_one hV.log (hV.allowed _ rfl)
  have hnote : ∀ (q : NetQW) buf, Keeps V P q (q.noteSequence buf) := fun q _ =>
    .of_eq (hV.write q _ _ _ _ _ _ _) rfl
  have hloss : ∀ (q : NetQW) n, Keeps V P q (q.notePacketloss n) := fun q n =>
    keeps_notePacketloss q (fun q _ => hV.write q _ _ _ _ _ _ _)
      (fun q _ => hV.write q _ _ _ _ _ _ _) n
  have hsettle : ∀ (q : NetQW) n bit, Keeps V P q (q.settleReliables n bit) := fun q n bit =>
    keeps_settleReliables q hV.log (fun _ => hV.allowed _ rfl) (hV.allowed _ rfl)
      (fun q => hV.write q _ _ _ _ _ _ _) (fun q _ => hV.write q _ _ _ _ _ _ _) n bit
  exact ((hlog.trans (hnote _ _)).trans (hloss _ _)).trans (hsettle _ _ _)

/-- The events of the packets and their queues. -/
def NetEvent.ofPackets : NetEvent → Bool
  | .accept _ | .freePacket _ => true
  | _ => false

/-- The view reads nothing of the packets and their queues. -/
structure ReadsNoPackets (V : NetQW → τ) (P : NetEvent → Prop) : Prop where
  log : ∀ q es, V (NetQW.log es q) = V q
  write : ∀ (q : NetQW) packets count internal client, V { q with
    netpackets := packets, netpacketCount := count, internalQueue := internal,
    clientQueue := client } = V q
  allowed : ∀ e : NetEvent, e.ofPackets = true → P e

namespace ReadsNoPackets

variable {V : NetQW → τ} {P : NetEvent → Prop} {q q' : NetQW} (hV : ReadsNoPackets V P)
include hV

theorem clampDelays (curtime : BitVec 64) : Keeps V P q (q.clampDelays curtime) :=
  keeps_clampDelays q (fun q _ _ => hV.write q _ _ _ _) curtime

theorem release (q : NetQW) (n : Nat) : Keeps V P q (q.release n) :=
  keeps_release q (fun q _ _ => hV.write q _ _ _ _) hV.log (fun _ => hV.allowed _ rfl) n

theorem freePacket (h : q.freePacket = some q') : Keeps V P q q' :=
  keeps_freePacket q (fun q _ _ => hV.write q _ _ _ _) hV.log (fun _ => hV.allowed _ rfl)
    (fun q _ => hV.write q _ _ _ _) h

theorem handleDelayed (hreplies : ReadsNoReplies V P) {curtime : BitVec 64}
    (h : q.handleDelayed curtime = some q') : Keeps V P q q' := by
  have hset : ∀ (q : NetQW) queue, Keeps V P q (q.setInternalQueue queue) := fun q _ =>
    .of_eq (hV.write q _ _ _ _) rfl
  unfold NetQW.handleDelayed at h
  split at h
  · exact absurd h (by simp)
  · split at h
    · obtain rfl := Option.some.inj h
      exact ((hreplies.handleReceivedPacket _ _).trans (hset _ _)).trans (hV.release _ _)
    · exact absurd h (by simp)

/-- A connected client receives. -/
theorem receivePacket (hreplies : ReadsNoReplies V P) (now : BitVec 64) (alloc : Bool) (r : Nat)
    (buf : Nat → Byte) : Keeps V P q (q.receivePacket now alloc r buf) := by
  have hstore : ∀ packet, Keeps V P q (q.storePacket packet) := fun _ =>
    .of_eq (hV.write q _ _ _ _) rfl
  have hlater : ∀ time data, Keeps V P q (q.handleLater time data) := fun _ _ =>
    .of_eq (hV.write q _ _ _ _) rfl
  have hqueue : ∀ (q : NetQW) data, Keeps V P q (q.queueForClient data) := by
    intro q data
    have hset : ∀ queue n, Keeps V P q { q with clientQueue := queue, netpacketCount := n } :=
      fun _ _ => .of_eq (hV.write q _ _ _ _) rfl
    exact (hset _ _).trans (.log_one hV.log (hV.allowed _ rfl))
  unfold NetQW.receivePacket
  split
  · refine Keeps.trans ?_ (hqueue _ _)
    split
    · exact (hstore _).trans (hreplies.handleReceivedPacket _ _)
    · exact hlater _ _
  · exact .refl q

end ReadsNoPackets

/-! ## Steps that send -/

/-- A step of the network thread that looks at the packets to be sent, or enters
    `NetQW_Thread_DoSend`. -/
def Action.ofSending : Action → Bool
  | .clampSends _ | .sendDelayed _ | .beginSend .. => true
  | _ => false

/-- The view reads nothing of what waits to be sent, nor when something was sent. -/
structure ReadsNoSending (V : NetQW → τ) (P : NetEvent → Prop) : Prop where
  log : ∀ q es, V (NetQW.log es q) = V q
  write : ∀ (q : NetQW) queue resend last, V { q with
    sendQueue := queue, resendtime := resend, lastmovesendtime := last } = V q
  allowed : ∀ data, P (.netSend data)

namespace ReadsNoSending

variable {V : NetQW → τ} {P : NetEvent → Prop} {c c' : Client} (hV : ReadsNoSending V P)
include hV

theorem step {angle16 : BitVec 32 → BitVec 16} {a : Action} (ha : a.ofSending = true)
    (h : Client.step angle16 a c = some c') :
    Keeps V P c.netqw c'.netqw ∧ c.pc = .idle ∧ (c'.pc = .idle ∨ c'.pc = .generate) := by
  cases a
  case clampSends curtime =>
    obtain ⟨hpc, rfl⟩ := Client.outside_total (f := NetQW.clampSends curtime) h
    exact ⟨keeps_clampSends _ (fun q _ => hV.write q _ _ _) curtime, hpc, .inl rfl⟩
  case sendDelayed curtime =>
    obtain ⟨hpc, q', hq', rfl⟩ := Client.outside_spec h
    exact ⟨keeps_sendDelayed _ hV.log hV.allowed (fun q _ => hV.write q _ _ _) hq', hpc, .inl rfl⟩
  case beginSend curtime stack =>
    obtain ⟨hpc, rfl⟩ := Client.beginSend_spec h
    have hclamp : Keeps V P c.netqw (c.netqw.clampMoveTime curtime) :=
      keeps_clampMoveTime _ (fun q _ => hV.write q _ _ _) curtime
    split
    · exact ⟨hclamp, hpc, .inr rfl⟩
    · -- the client is not connected yet
      exact ⟨hclamp.trans (keeps_resend _ hV.log hV.allowed (fun q _ => hV.write q _ _ _) curtime
        stack), hpc, .inl rfl⟩
  all_goals exact absurd ha (by simp [Action.ofSending])

/-- A packet is submitted, and its reply is awaited. -/
theorem submit {env : NetQW.SendEnv} (hsubmit : ∀ buf reliable, P (.sendPacket buf reliable))
    (hawait : ∀ (q : NetQW) replies, V { q with replyreceived := replies } = V q)
    (h : c.submitPacket env = some c') : Keeps V P c.netqw c'.netqw := by
  obtain ⟨buf, reliable, -, rfl⟩ := Client.submitPacket_spec h
  have hlog : Keeps V P c.netqw (c.netqw.log [.sendPacket buf reliable]) :=
    .log_one hV.log (hsubmit _ _)
  have hsend : ∀ q : NetQW, Keeps V P q (q.sendPacket env buf false) := fun q =>
    keeps_sendPacket q hV.log hV.allowed (fun q _ => hV.write q _ _ _) env buf false
  have hreply : ∀ q : NetQW, Keeps V P q q.awaitReply := fun q => .of_eq (hawait q _) rfl
  exact (hlog.trans (hsend _)).trans (hreply _)

end ReadsNoSending

end QwNet
