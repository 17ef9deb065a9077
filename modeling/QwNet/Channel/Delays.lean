/-
  QwNet.Channel.Delays

  The lag on both ways, as queues that hold packets back until they are due.

  A packet that is received waits for half of the lag at most, one that is sent for all
  of it.  The lag is at most half a second, and the times at which packets are due are
  compared with the reading of the clock at the head of the loop of `NetQW_Thread`.
-/
import QwNet.Channel.Delivery
import QwNet.Lib.DelayLine

namespace QwNet

/-! ## The queues -/

/-- The datagram passed to `Sys_Net_Send`. -/
@[simp] def NetEvent.sentData? : NetEvent → Option (List Byte)
  | .netSend data => some data
  | _ => none

/-- The datagrams passed to `Sys_Net_Send`, oldest first. -/
def sent (trace : List NetEvent) : List (List Byte) := trace.filterMap NetEvent.sentData?

namespace NetQW

/-- The packets that wait to be handled, with the times they are due. -/
def waiting (q : NetQW) : List (Nat × List Byte) :=
  q.internalQueue.map fun n => ((q.netpackets n).delayuntil.toNat, (q.netpackets n).data)

/-- The packets that were received, behind the lag. -/
def receiveLine (clock : BitVec 64) (q : NetQW) : DelayLine (List Byte) where
  clock := clock.toNat
  queue := q.waiting
  out := handled q.trace
  submitted := accepted q.trace

/-- The packets that are sent, behind the lag. -/
def sendLine (clock : BitVec 64) (submitted : List (List Byte)) (q : NetQW) :
    DelayLine (List Byte) where
  clock := clock.toNat
  queue := q.sendQueue.map fun p => (p.delayuntil.toNat, p.data)
  out := sent q.trace
  submitted := submitted

end NetQW

/-- Half of the greatest lag. -/
def receiveBound : Nat := 250000

/-- The greatest lag. -/
def sendBound : Nat := 500000

/-! ## What waits to be handled -/

/-- What the delays are made of. -/
def NetQW.delayView (q : NetQW) : List Nat × (Nat → BitVec 64 × List Byte) × Nat :=
  (q.internalQueue, fun n => ((q.netpackets n).delayuntil, (q.netpackets n).data), q.netpacketCount)

/-- From `q` to `q'` no packet was accepted, handled or given another time. -/
abbrev DelaySilent (q q' : NetQW) : Prop := Keeps NetQW.delayView NetEvent.offInbox q q'

section

variable {q q' : NetQW}

theorem waiting_eq (hview : q'.delayView = q.delayView) : q'.waiting = q.waiting := by
  have hqueue : q'.internalQueue = q.internalQueue := congrArg Prod.fst hview
  have hpackets := congrArg (fun v => v.2.1) hview
  unfold NetQW.waiting
  rw [hqueue]
  refine List.map_congr_left fun n _ => ?_
  exact congrArg (fun p : BitVec 64 × List Byte => (p.1.toNat, p.2)) (congrFun hpackets n)

theorem DelaySilent.receiveLine_eq (h : DelaySilent q q') (clock : BitVec 64) :
    q'.receiveLine clock = q.receiveLine clock := by
  have haccepted : accepted q'.trace = accepted q.trace := h.filterMap fun _ he => he.1
  have hhandled : handled q'.trace = handled q.trace := h.filterMap fun _ he => he.2
  unfold NetQW.receiveLine
  rw [waiting_eq h.view, haccepted, hhandled]

/-- What is released keeps its time and its bytes. -/
theorem keeps_release_times {τ : Type} {V : NetQW → τ} {P : NetEvent → Prop} (q : NetQW)
    (hV : ∀ packets : Nat → NetPacket,
      (∀ m, ((packets m).delayuntil, (packets m).data)
        = ((q.netpackets m).delayuntil, (q.netpackets m).data)) → V (q.setNetpackets packets) = V q)
    (hlog : ∀ q es, V (NetQW.log es q) = V q) (hfree : ∀ n, P (.freePacket n)) (n : Nat) :
    Keeps V P q (q.release n) := by
  have hset : Keeps V P q (q.setNetpackets (Function.update q.netpackets n
      { q.netpackets n with usecount := (q.netpackets n).usecount - 1#32 })) := by
    refine .of_eq (hV _ fun m => ?_) rfl
    rcases eq_or_ne m n with rfl | hne
    · rw [Function.update_self]
    · rw [Function.update_of_ne hne]
  refine hset.trans (.log hlog fun e he => ?_)
  split at he
  · exact List.mem_singleton.mp he ▸ hfree n
  · exact absurd he List.not_mem_nil

theorem delaySilent_release (q : NetQW) (n : Nat) : DelaySilent q (q.release n) :=
  keeps_release_times q
    (fun _ hsame => congrArg (fun f => (q.internalQueue, f, q.netpacketCount)) (funext hsame))
    (fun _ _ => rfl) (fun _ => ⟨rfl, rfl⟩) n

theorem delaySilent_freePacket (h : q.freePacket = some q') : DelaySilent q q' := by
  unfold NetQW.freePacket at h
  split at h
  · exact nomatch h
  · have hclient : ∀ queue, DelaySilent q { q with clientQueue := queue } := fun _ => .of_eq rfl rfl
    obtain rfl := Option.some.inj h
    exact (hclient _).trans (delaySilent_release _ _)

theorem readsNoFrames_delayView : ReadsNoFrames NetQW.delayView NetEvent.offInbox :=
  ⟨fun _ _ => rfl, fun _ _ _ _ _ _ _ _ _ _ _ _ _ _ => rfl, readsNoFrames_inboxView.allowed⟩

theorem readsOnlyPackets_delayView : ReadsOnlyPackets NetQW.delayView NetEvent.offInbox :=
  ⟨⟨fun _ _ => rfl, fun _ _ _ _ => rfl, readsOnlyPackets_inboxView.sending.allowed⟩,
    fun _ _ _ _ _ _ _ _ => rfl, fun _ _ _ _ _ _ _ _ _ => rfl, readsOnlyPackets_inboxView.allowed⟩

theorem readsNoReplies_delayView : ReadsNoReplies NetQW.delayView fun _ => True :=
  ⟨fun _ _ => rfl, fun _ _ _ _ _ _ _ _ => rfl, fun _ _ => trivial⟩

/-- Storing a packet touches none that waits. -/
theorem waiting_storePacket (hs : InboxSound q) (packet : NetPacket) :
    (q.storePacket packet).waiting = q.waiting := by
  refine List.map_congr_left fun n hn => ?_
  have hne : n ≠ q.netpacketCount := Nat.ne_of_lt (hs.lt_count n hn)
  show ((Function.update q.netpackets q.netpacketCount packet n).delayuntil.toNat,
    (Function.update q.netpackets q.netpacketCount packet n).data) = _
  rw [Function.update_of_ne hne]

/-- A packet that is accepted is handled, or waits until it is due. -/
theorem waiting_acceptPacket {now : BitVec 64} {data : List Byte} (hs : InboxSound q) :
    (q.acceptPacket now data).waiting = if q.delayUntil now = 0#64 then q.waiting
      else q.waiting ++ [((q.delayUntil now).toNat, data)] := by
  have hqueue : ∀ q : NetQW, (q.queueForClient data).waiting = q.waiting := fun _ => rfl
  unfold NetQW.acceptPacket
  rw [hqueue]
  split
  · have hview := (readsNoReplies_delayView.handleReceivedPacket data
      (q.storePacket ⟨0, 1, data⟩)).view
    exact (waiting_eq hview).trans (waiting_storePacket hs _)
  · have hstore := waiting_storePacket hs ⟨q.delayUntil now, 2, data⟩
    have happend : (q.handleLater (q.delayUntil now) data).waiting
        = (q.storePacket ⟨q.delayUntil now, 2, data⟩).waiting ++ [((Function.update q.netpackets
            q.netpacketCount ⟨q.delayUntil now, 2, data⟩ q.netpacketCount).delayuntil.toNat,
          (Function.update q.netpackets q.netpacketCount ⟨q.delayUntil now, 2, data⟩
            q.netpacketCount).data)] := List.map_append
    rw [happend, hstore, Function.update_self]

theorem receiveLine_acceptPacket {now : BitVec 64} {data : List Byte} (hs : InboxSound q) :
    (q.acceptPacket now data).receiveLine now = if q.delayUntil now = 0#64 then
        (q.receiveLine now).pass data
      else (q.receiveLine now).push (q.delayUntil now).toNat data := by
  have hlag : (q.acceptPacket now data).lagQueue = _ := lagQueue_acceptPacket hs
  have hwaiting : (q.acceptPacket now data).waiting = _ := waiting_acceptPacket hs
  have hhandled : handled (q.acceptPacket now data).trace
      = (q.acceptPacket now data).lagQueue.handled := rfl
  have haccepted : accepted (q.acceptPacket now data).trace
      = (q.acceptPacket now data).lagQueue.accepted := rfl
  unfold NetQW.receiveLine
  rw [hwaiting, hhandled, haccepted, hlag]
  split
  · rfl
  · rfl

/-- The first packet that waits is handled, if it is due. -/
theorem receiveLine_handleDelayed {curtime : BitVec 64} (h : q.handleDelayed curtime = some q')
    (clock : BitVec 64) : ∃ due data rest, q.waiting = (due, data) :: rest ∧ due ≤ curtime.toNat ∧
      q'.receiveLine clock = (q.receiveLine clock).pop data rest := by
  unfold NetQW.handleDelayed at h
  split at h
  · exact nomatch h
  next n rest hqueue =>
    obtain ⟨hdue, h⟩ := Option.ite_none_right_eq_some.mp h
    obtain rfl := Option.some.inj h
    have hhandle := readsNoReplies_delayView.handleReceivedPacket (q.netpackets n).data q
    have hlag := lagQueue_handleReceivedPacket q (q.netpackets n).data
    refine ⟨(q.netpackets n).delayuntil.toNat, (q.netpackets n).data, rest.map fun m =>
      ((q.netpackets m).delayuntil.toNat, (q.netpackets m).data), ?_, BitVec.le_def.mp hdue, ?_⟩
    · rw [NetQW.waiting, hqueue]
      rfl
    · rw [(delaySilent_release _ n).receiveLine_eq]
      have hview := hhandle.view
      generalize q.handleReceivedPacket (q.netpackets n).data = q₁ at hlag hview ⊢
      have hpackets := congrArg (fun v => v.2.1) hview
      have hrest : (q₁.setInternalQueue rest).waiting
          = rest.map fun m => ((q.netpackets m).delayuntil.toNat, (q.netpackets m).data) := by
        refine List.map_congr_left fun m _ => ?_
        exact congrArg (fun p : BitVec 64 × List Byte => (p.1.toNat, p.2)) (congrFun hpackets m)
      have hhandled : handled (q₁.setInternalQueue rest).trace
          = handled q.trace ++ [(q.netpackets n).data] := congrArg LagQueue.handled hlag
      have haccepted : accepted (q₁.setInternalQueue rest).trace = accepted q.trace :=
        congrArg LagQueue.accepted hlag
      unfold NetQW.receiveLine
      rw [hrest, hhandled, haccepted]
      rfl

theorem toNat_add_second {curtime : BitVec 64} (hcurtime : curtime.toNat < 2 ^ 63) :
    (curtime + 1000000#64).toNat = curtime.toNat + 1000000 := by
  rw [BitVec.toNat_add]
  exact Nat.mod_eq_of_lt (by show curtime.toNat + 1000000 < 2 ^ 64; omega)

/-- "Sanity checks" come to nothing as long as the clock does not go back. -/
theorem clampDelays_eq {curtime : BitVec 64} (hcurtime : curtime.toNat < 2 ^ 63)
    (h : ∀ p ∈ q.waiting, p.1 ≤ curtime.toNat + 1000000) : q.clampDelays curtime = q := by
  unfold NetQW.clampDelays
  split
  · rfl
  next n rest hqueue =>
    refine if_neg fun hlt => ?_
    have hfirst : ((q.netpackets n).delayuntil.toNat, (q.netpackets n).data) ∈ q.waiting := by
      rw [NetQW.waiting, hqueue]
      exact List.mem_cons_self
    have hle := h _ hfirst
    rw [BitVec.lt_def, toNat_add_second hcurtime] at hlt
    exact absurd hlt (Nat.not_lt.mpr hle)

end

/-! ## The lag -/

/-- Half of the lag is at most a quarter of a second. -/
theorem delayUntil_le {q : NetQW} (hlag : q.lag ≤ 500000#32) (now : BitVec 64) :
    (q.delayUntil now).toNat ≤ now.toNat + receiveBound := by
  unfold NetQW.delayUntil receiveBound
  split
  · have hhalf : (q.lag / 2#32).toNat ≤ 250000 := by
      rw [BitVec.toNat_udiv]
      exact Nat.div_le_div_right (c := 2) (BitVec.le_def.mp hlag)
    rw [BitVec.toNat_add, BitVec.toNat_setWidth, Nat.mod_eq_of_lt (a := (q.lag / 2#32).toNat)
      (by omega)]
    exact Nat.le_trans (Nat.mod_le _ _) (Nat.add_le_add_left hhalf _)
  · exact Nat.zero_le _

namespace Client

variable {angle16 : BitVec 32 → BitVec 16} {a : Action} {c c' : Client}

/-- Only `NetQW_SetLag` writes to the lag, and it limits it. -/
theorem lag_step (h : step angle16 a c = some c') :
    c'.netqw.lag = c.netqw.lag ∨ c'.netqw.lag ≤ 500000#32 := by
  have hgenerate : ∀ {curtime senttime fuel} {q q' : NetQW},
      (generateFrames curtime senttime fuel).exec q = some q' → q'.lag = q.lag := fun hexec =>
    (keeps_generateFrames (V := NetQW.lag) (P := fun _ => True) _ (fun _ _ => rfl)
      (fun _ _ _ => trivial) (fun _ _ _ _ _ _ => rfl) hexec).view
  have hV : ReadsOnlyPackets NetQW.lag fun _ => True :=
    ⟨⟨fun _ _ => rfl, fun _ _ _ _ => rfl, fun _ => trivial⟩, fun _ _ _ _ _ _ _ _ => rfl,
      fun _ _ _ _ _ _ _ _ _ => rfl, fun _ _ _ => trivial⟩
  have hreplies : ReadsNoReplies NetQW.lag fun _ => True :=
    ⟨fun _ _ => rfl, fun _ _ _ _ _ _ _ _ => rfl, fun _ _ => trivial⟩
  have hpackets : ReadsNoPackets NetQW.lag fun _ => True :=
    ⟨fun _ _ => rfl, fun _ _ _ _ _ => rfl, fun _ _ => trivial⟩
  by_cases ha : a.ofFrames = true
  · cases a
    case setLag microseconds =>
      obtain rfl := Option.some.inj h
      refine .inr ?_
      show (if 500000#32 < microseconds then 500000#32 else microseconds) ≤ 500000#32
      split
      · exact BitVec.le_refl _
      · exact BitVec.not_lt.mp ‹_›
    all_goals left
    case setFPS fps =>
      obtain rfl := Option.some.inj h
      exact (keeps_setFPS (V := NetQW.lag) (P := fun _ => True) _ (fun _ _ => rfl) fps).view
    case generate curtime senttime fuel =>
      obtain ⟨q, hq, rfl⟩ := Option.map_eq_some_iff.mp h
      exact hgenerate hq
    case netGenerate curtime senttime fuel =>
      obtain ⟨-, q, hq, rfl⟩ := netGenerate_spec h
      exact hgenerate hq
    case copyFrames =>
      obtain rfl := Option.some.inj h
      exact (keeps_copyFrames (V := NetQW.lag) (P := fun _ => True) _ (fun _ _ => rfl)
        (fun _ _ => trivial) (fun _ _ _ => trivial) (fun _ _ _ => rfl)).view
    case endSend =>
      obtain ⟨-, -, rfl⟩ := endSend_spec h
      rfl
    case buildPacket =>
      obtain ⟨-, -, rfl⟩ := buildPacket_spec h
      rfl
    case addDelta =>
      obtain ⟨buf, -, rfl⟩ := addDelta_spec h
      rfl
    case addTmove =>
      obtain ⟨buf, -, rfl⟩ := addTmove_spec h
      rfl
    case setDeltaPoint | setTeleport | setMovementLocked | setLagEzcheat =>
      exact Option.some.inj h ▸ rfl
    all_goals exact nomatch ha
  · left
    rcases step_packets hV (fun hframes => absurd hframes ha) h with hkeeps |
      ⟨env, source, datagram, data, -, -, heq⟩ | ⟨curtime, -, heq⟩ | ⟨curtime, -, heq⟩ | ⟨-, heq⟩
    · exact hkeeps.view
    · have hqueue : ∀ q : NetQW, (q.queueForClient data).lag = q.lag := fun _ => rfl
      rw [heq, NetQW.acceptPacket, hqueue]
      split
      · exact (hreplies.handleReceivedPacket data (c.netqw.storePacket ⟨0, 1, data⟩)).view
      · rfl
    · exact (hpackets.handleDelayed hreplies heq).view
    · rw [heq]
      exact (hpackets.clampDelays curtime).view
    · exact (hpackets.freePacket heq).view

theorem lag_le (h : (system angle16).Reachable c) : c.netqw.lag ≤ 500000#32 := by
  have hinit : ∀ c, Init c → c.netqw.lag ≤ 500000#32 := by
    rintro c ⟨garbage, qport, userinfo, addr, rfl⟩
    exact BitVec.le_def.mpr (Nat.zero_le _)
  refine h.invariant hinit fun a c c' hle _ hstep => ?_
  rcases lag_step hstep with heq | hle'
  · rw [heq]
    exact hle
  · exact hle'

end Client

/-! ## Time -/

/-- What the network thread reads from the clock, except at the head of its loop. -/
def Action.reading? : Action → Option (BitVec 64)
  | .receive env _ _ => some env.now
  | .beginSend curtime _ => some curtime
  | .netGenerate curtime _ _ => some curtime
  | .submitPacket env => some env.now
  | _ => none

/-- `curtime` of `NetQW_Thread`. -/
def Action.curtime? : Action → Option (BitVec 64)
  | .clampDelays curtime | .handleDelayed curtime => some curtime
  | .clampSends curtime | .sendDelayed curtime => some curtime
  | _ => none

/-- A step that has to do with the packets received. -/
def Action.ofReceiving : Action → Bool
  | .receive .. | .clampDelays _ | .handleDelayed _ => true
  | _ => false

/-- The last reading, after the action. -/
def Action.clockAfter (a : Action) (clock : BitVec 64) : BitVec 64 := a.reading?.getD clock

/-- The clock does not go back, and is not near its end; `curtime` is the last reading. -/
structure Timely (clock : BitVec 64) (a : Action) : Prop where
  reading : ∀ t ∈ a.reading?, clock ≤ t ∧ t.toNat < 2 ^ 63
  curtime : ∀ t ∈ a.curtime?, t = clock

theorem Timely.le {clock : BitVec 64} {a : Action} (h : Timely clock a) :
    clock ≤ a.clockAfter clock := by
  unfold Action.clockAfter
  cases hreading : a.reading? with
  | none => exact BitVec.le_refl _
  | some t => exact (h.reading t hreading).1

theorem Timely.tick {clock : BitVec 64} {a : Action} (h : Timely clock a) (q : NetQW) :
    DelayLine.Step receiveBound (q.receiveLine clock) (q.receiveLine (a.clockAfter clock)) :=
  .tick (a.clockAfter clock).toNat (BitVec.le_def.mp h.le)

theorem Timely.tick_send {clock : BitVec 64} {a : Action} (h : Timely clock a)
    (submitted : List (List Byte)) (q : NetQW) : DelayLine.Step sendBound
      (q.sendLine clock submitted) (q.sendLine (a.clockAfter clock) submitted) :=
  .tick (a.clockAfter clock).toNat (BitVec.le_def.mp h.le)

/-- As long as the clock does not go back, nothing is due later than the bound. -/
theorem due_le_second {bound : Nat} (hbound : bound ≤ 1000000) {s : DelayLine (List Byte)}
    (h : s.Bounded bound) : ∀ p ∈ s.queue, p.1 ≤ s.clock + 1000000 :=
  fun p hp => Nat.le_trans (h p hp) (Nat.add_le_add_left hbound _)

namespace Client

variable {angle16 : BitVec 32 → BitVec 16} {a : Action} {c c' : Client} {clock : BitVec 64}

/-- After the clock was read, a step of the client is one of the line of the packets received, or
    none. -/
theorem step_receiveLine (hs : InboxSound c.netqw) (hlag : c.netqw.lag ≤ 500000#32)
    (htimely : Timely clock a) (hclock : clock.toNat < 2 ^ 63)
    (hb : (c.netqw.receiveLine clock).Bounded receiveBound) (h : step angle16 a c = some c') :
    c'.netqw.receiveLine (a.clockAfter clock) = c.netqw.receiveLine (a.clockAfter clock) ∨
      DelayLine.Step receiveBound (c.netqw.receiveLine (a.clockAfter clock))
        (c'.netqw.receiveLine (a.clockAfter clock)) := by
  rcases step_packets readsOnlyPackets_delayView
    (fun ha => (readsNoFrames_delayView.step ha h).1) h with hsilent |
      ⟨env, source, datagram, data, rfl, -, heq⟩ | ⟨curtime, rfl, hhandle⟩ |
      ⟨curtime, rfl, heq⟩ | ⟨-, hfree⟩
  · have hsame : DelaySilent c.netqw c'.netqw := hsilent
    exact .inl (hsame.receiveLine_eq _)
  · right
    show DelayLine.Step _ (c.netqw.receiveLine env.now) (c'.netqw.receiveLine env.now)
    rw [heq, receiveLine_acceptPacket hs]
    split
    · exact .pass data
    · exact .push _ data (delayUntil_le hlag env.now)
  · obtain rfl := htimely.curtime curtime rfl
    obtain ⟨due, data, rest, hfirst, hdue, hline⟩ := receiveLine_handleDelayed hhandle curtime
    right
    show DelayLine.Step _ (c.netqw.receiveLine curtime) (c'.netqw.receiveLine curtime)
    rw [hline]
    exact .pop due data rest hfirst hdue
  · obtain rfl := htimely.curtime curtime rfl
    rw [heq, clampDelays_eq hclock (due_le_second (by decide) hb)]
    exact .inl rfl
  · exact .inl ((delaySilent_freePacket hfree).receiveLine_eq _)

/-- Other steps leave what was received alone. -/
theorem step_receiveLine_eq (ha : a.ofReceiving = false) (h : step angle16 a c = some c')
    (clock : BitVec 64) : c'.netqw.receiveLine clock = c.netqw.receiveLine clock := by
  rcases step_packets readsOnlyPackets_delayView
    (fun ha => (readsNoFrames_delayView.step ha h).1) h with hsilent |
      ⟨env, source, datagram, data, rfl, -, -⟩ | ⟨curtime, rfl, -⟩ | ⟨curtime, rfl, -⟩ | ⟨-, hfree⟩
  · have hsame : DelaySilent c.netqw c'.netqw := hsilent
    exact hsame.receiveLine_eq _
  · exact nomatch ha
  · exact nomatch ha
  · exact nomatch ha
  · exact (delaySilent_freePacket hfree).receiveLine_eq _

end Client

/-! ## What waits to be sent -/

namespace NetQW

/-- The datagram that `NetQW_Thread_SendPacket` makes of `buf`, unless it is lost here. -/
def datagram? (env : SendEnv) (buf : List Byte) (q : NetQW) : Option (List Byte) :=
  if 1500 ≤ buf.length ∨ q.lag ≠ 0#32 ∧ env.alloc = false then none
  else
    match q.huffcontext with
    | some ht =>
      let r := compress env.stack ht buf
      if r.1 = 0 then none else some ((List.range (r.1 + 10)).map r.2.mem)
    | none => some buf

/-- What a client that is not connected asks for. -/
def requests (curtime : BitVec 64) (stack : Nat → Byte) (q : NetQW) : List (List Byte) :=
  if q.resendtime ≤ curtime then
    if q.state = .sendchallenge then [getchallenge]
    else
      let r := q.connectRequest stack
      if r.1 < 1500 then [(List.range r.1).map r.2.mem] else []
  else []

end NetQW

/-- The datagrams that a step hands over to be sent, now or later. -/
def Client.submits (a : Action) (c : Client) : List (List Byte) :=
  match a with
  | .submitPacket env =>
    match c.pc with
    | .submit buf _ => (c.netqw.datagram? env buf).toList
    | _ => []
  | .beginSend curtime stack =>
    if c.netqw.state = .connected then [] else c.netqw.requests curtime stack
  | _ => []

/-- What the packets to be sent are made of. -/
abbrev SendSilent (q q' : NetQW) : Prop := Keeps NetQW.sendQueue (fun e => e.sentData? = none) q q'

section

variable {q q' : NetQW} {submitted : List (List Byte)}

theorem SendSilent.sendLine_eq (h : SendSilent q q') (clock : BitVec 64) :
    q'.sendLine clock submitted = q.sendLine clock submitted := by
  have hsent : sent q'.trace = sent q.trace := h.filterMap fun _ he => he
  unfold NetQW.sendLine
  rw [h.view, hsent]

/-- A datagram goes out at once. -/
theorem sendLine_netSend (q : NetQW) (data : List Byte) (clock : BitVec 64) :
    (q.log [.netSend data]).sendLine clock (submitted ++ [data])
      = (q.sendLine clock submitted).pass data := by
  have hsent : sent (q.trace ++ [.netSend data]) = sent q.trace ++ [data] := by
    simp [sent]
  show (⟨_, _, sent (q.trace ++ [.netSend data]), _⟩ : DelayLine (List Byte)) = _
  rw [hsent]
  rfl

/-- A datagram is held back. -/
theorem sendLine_queuePacket (q : NetQW) (data : List Byte) (now clock : BitVec 64) :
    (q.queuePacket now data).sendLine clock (submitted ++ [data])
      = (q.sendLine clock submitted).push
      (now + (if q.lagEzcheat then q.lag else q.lag / 2#32).setWidth 64).toNat data := by
  unfold NetQW.sendLine NetQW.queuePacket DelayLine.push
  dsimp only
  rw [List.map_append]
  rfl

/-- The first datagram that is held back goes out, if it is due. -/
theorem sendLine_sendDelayed {curtime : BitVec 64} (h : q.sendDelayed curtime = some q')
    (clock : BitVec 64) : ∃ due data rest,
      (q.sendLine clock submitted).queue = (due, data) :: rest ∧
      due ≤ curtime.toNat ∧
      q'.sendLine clock submitted = (q.sendLine clock submitted).pop data rest := by
  unfold NetQW.sendDelayed at h
  split at h
  · exact nomatch h
  next packet rest hqueue =>
    obtain ⟨hdue, h⟩ := Option.ite_none_right_eq_some.mp h
    obtain rfl := Option.some.inj h
    refine ⟨packet.delayuntil.toNat, packet.data, rest.map fun p => (p.delayuntil.toNat, p.data),
      ?_, BitVec.le_def.mp hdue, ?_⟩
    · unfold NetQW.sendLine
      rw [hqueue]
      rfl
    · have hsent : sent (q.trace ++ [.netSend packet.data]) = sent q.trace ++ [packet.data] := by
        simp [sent]
      show (⟨_, _, sent (q.trace ++ [.netSend packet.data]), _⟩ : DelayLine (List Byte)) = _
      rw [hsent]
      rfl

theorem clampSends_eq {curtime : BitVec 64} (hcurtime : curtime.toNat < 2 ^ 63)
    (h : ∀ p ∈ (q.sendLine curtime submitted).queue, p.1 ≤ curtime.toNat + 1000000) :
    q.clampSends curtime = q := by
  unfold NetQW.clampSends
  split
  · rfl
  next packet rest hqueue =>
    refine if_neg fun hlt => ?_
    have hfirst :
        (packet.delayuntil.toNat, packet.data) ∈ (q.sendLine curtime submitted).queue := by
      unfold NetQW.sendLine
      rw [hqueue]
      exact List.mem_cons_self
    have hle := h _ hfirst
    rw [BitVec.lt_def, toNat_add_second hcurtime] at hlt
    exact absurd hlt (Nat.not_lt.mpr hle)

end

/-! ## Sending -/

section

variable {q : NetQW} {submitted : List (List Byte)}

/-- All of the lag is at most half a second. -/
theorem sendDelay_le (hlag : q.lag ≤ 500000#32) (now : BitVec 64) :
    (now + (if q.lagEzcheat then q.lag else q.lag / 2#32).setWidth 64).toNat
      ≤ now.toNat + sendBound := by
  have hle := BitVec.le_def.mp hlag
  have hdelay : (if q.lagEzcheat then q.lag else q.lag / 2#32).toNat ≤ sendBound := by
    split
    · exact hle
    · rw [BitVec.toNat_udiv]
      exact Nat.le_trans (Nat.div_le_self _ _) hle
  rw [BitVec.toNat_add, BitVec.toNat_setWidth]
  exact Nat.le_trans (Nat.mod_le _ _)
    (Nat.add_le_add_left (Nat.le_trans (Nat.mod_le _ _) hdelay) _)

/-- What `NetQW_Thread_SendPacket` does with its datagram. -/
def NetQW.passOn (now : BitVec 64) (datagram : Option (List Byte)) (q : NetQW) : NetQW :=
  match datagram with
  | none => q
  | some data => if q.lag ≠ 0#32 then q.queuePacket now data else q.log [.netSend data]

theorem sendPacket_eq (q : NetQW) (env : NetQW.SendEnv) (buf : List Byte) :
    q.sendPacket env buf false = q.passOn env.now (q.datagram? env buf) := by
  have hsend : ∀ data, q.sendOrQueue env data false = q.passOn env.now
      (if q.lag ≠ 0#32 ∧ env.alloc = false then none else some data) := by
    intro data
    unfold NetQW.sendOrQueue NetQW.passOn
    by_cases hzero : q.lag ≠ 0#32
    · rw [if_pos ⟨hzero, rfl⟩]
      cases halloc : env.alloc with
      | true =>
        rw [if_pos rfl, if_neg fun h => Bool.true_eq_false.mp h.2]
        exact (if_pos hzero).symm
      | false =>
        rw [if_neg Bool.false_ne_true, if_pos ⟨hzero, rfl⟩]
    · rw [if_neg fun h => hzero h.1, if_neg fun h => hzero h.1]
      exact (if_neg hzero).symm
  unfold NetQW.sendPacket NetQW.datagram?
  by_cases hlong : 1500 ≤ buf.length
  · rw [if_pos hlong, if_pos (.inl hlong)]
    rfl
  · rw [if_neg hlong, if_congr (or_iff_right hlong) rfl rfl]
    cases q.huffcontext with
    | some ht =>
      dsimp only
      by_cases hfailed : (NetQW.compress env.stack ht buf).1 = 0
      · -- "Huffman coding failed"
        rw [if_pos hfailed, if_pos hfailed, ite_self]
        rfl
      · rw [if_neg hfailed, if_neg hfailed]
        exact hsend _
    | none => exact hsend buf

/-- The datagram goes out or is held back, unless it is lost here. -/
theorem sendLine_passOn (hlag : q.lag ≤ 500000#32) (now : BitVec 64)
    (datagram : Option (List Byte)) :
    (q.passOn now datagram).sendLine now (submitted ++ datagram.toList) = q.sendLine now submitted ∨
      DelayLine.Step sendBound (q.sendLine now submitted)
        ((q.passOn now datagram).sendLine now (submitted ++ datagram.toList)) := by
  cases datagram with
  | none =>
    show q.sendLine now (submitted ++ []) = _ ∨ _
    rw [List.append_nil]
    exact .inl rfl
  | some data =>
    right
    show DelayLine.Step _ _ ((if q.lag ≠ 0#32 then q.queuePacket now data
      else q.log [.netSend data]).sendLine now (submitted ++ [data]))
    split
    · rw [sendLine_queuePacket]
      exact .push _ data (sendDelay_le hlag now)
    · rw [sendLine_netSend]
      exact .pass data

/-- A client that is not connected sends one datagram at most. -/
theorem sendLine_resend (q : NetQW) (curtime : BitVec 64) (stack : Nat → Byte) (clock : BitVec 64) :
    (q.resend curtime stack).sendLine clock (submitted ++ q.requests curtime stack)
        = q.sendLine clock submitted ∨
      DelayLine.Step sendBound (q.sendLine clock submitted)
        ((q.resend curtime stack).sendLine clock (submitted ++ q.requests curtime stack)) := by
  have hnone : q.sendLine clock (submitted ++ []) = q.sendLine clock submitted :=
    congrArg (fun l => q.sendLine clock l) (List.append_nil _)
  have hset : ∀ (q : NetQW) time l, (q.setResendtime time).sendLine clock l = q.sendLine clock l :=
    fun _ _ _ => rfl
  unfold NetQW.resend NetQW.requests
  split
  · rw [hset]
    split
    · rw [sendLine_netSend]
      exact .inr (.pass _)
    · unfold NetQW.sendConnectRequest
      dsimp only
      split
      · rw [sendLine_netSend]
        exact .inr (.pass _)
      · exact .inl hnone
  · exact .inl hnone

/-- Asking does not depend on when the last movement was sent. -/
theorem requests_clampMoveTime (q : NetQW) (curtime : BitVec 64) (stack : Nat → Byte) :
    (q.clampMoveTime curtime).requests curtime stack = q.requests curtime stack ∧
      (q.clampMoveTime curtime).state = q.state := by
  unfold NetQW.clampMoveTime
  split
  · exact ⟨rfl, rfl⟩
  · exact ⟨rfl, rfl⟩

/-- Receiving sends nothing. -/
theorem sendSilent_receive (q : NetQW) (env : NetQW.SendEnv) (source : NetAddr)
    (datagram : List Byte) : SendSilent q (q.receive env source datagram) := by
  have hreplies : ReadsNoReplies NetQW.sendQueue fun e => e.sentData? = none := by
    refine ⟨fun _ _ => rfl, fun _ _ _ _ _ _ _ _ => rfl, fun e he => ?_⟩
    cases e <;> first | rfl | exact nomatch he
  have hpackets : ReadsNoPackets NetQW.sendQueue fun e => e.sentData? = none := by
    refine ⟨fun _ _ => rfl, fun _ _ _ _ _ => rfl, fun e he => ?_⟩
    cases e <;> first | rfl | exact nomatch he
  have happend : ∀ q : NetQW, SendSilent q (q.appendReliableBuffer NetQW.newCommand) := fun q =>
    ⟨rfl, [.append NetQW.newCommand], rfl, List.forall_mem_singleton.mpr rfl⟩
  have henter : ∀ q : NetQW, SendSilent q (q.enterConnected env.now) := fun q =>
    keeps_enterConnected q (fun _ _ _ _ => rfl) env.now
  unfold NetQW.receive
  dsimp only
  split
  · split
    · exact keeps_receiveChallenge q (fun _ _ _ _ _ _ => rfl) _ _
    · unfold NetQW.receiveConnection
      split
      · split
        · exact (happend q).trans (henter _)
        · exact henter q
      · exact .refl q
    · exact hpackets.receivePacket hreplies _ _ _ _
  · exact .refl q

end

namespace Client

variable {angle16 : BitVec 32 → BitVec 16} {a : Action} {c c' : Client} {clock : BitVec 64}
  {submitted : List (List Byte)}

/-- A step hands nothing over to be sent, and takes nothing out of the queue. -/
theorem step_sendSilent (h : step angle16 a c = some c') :
    (SendSilent c.netqw c'.netqw ∧ c.submits a = []) ∨
    (∃ curtime, a = .clampSends curtime ∧ c'.netqw = c.netqw.clampSends curtime) ∨
    (∃ curtime, a = .sendDelayed curtime ∧ c.netqw.sendDelayed curtime = some c'.netqw) ∨
    (∃ curtime stack, a = .beginSend curtime stack) ∨ ∃ env, a = .submitPacket env := by
  have hframes : ReadsNoFrames NetQW.sendQueue fun e => e.sentData? = none := by
    refine ⟨fun _ _ => rfl, fun _ _ _ _ _ _ _ _ _ _ _ _ _ _ => rfl, fun e he => ?_⟩
    cases e <;> first | rfl | exact nomatch he
  have hreplies : ReadsNoReplies NetQW.sendQueue fun e => e.sentData? = none := by
    refine ⟨fun _ _ => rfl, fun _ _ _ _ _ _ _ _ => rfl, fun e he => ?_⟩
    cases e <;> first | rfl | exact nomatch he
  have hpackets : ReadsNoPackets NetQW.sendQueue fun e => e.sentData? = none := by
    refine ⟨fun _ _ => rfl, fun _ _ _ _ _ => rfl, fun e he => ?_⟩
    cases e <;> first | rfl | exact nomatch he
  cases a
  case clampSends curtime =>
    obtain ⟨-, rfl⟩ := outside_total (f := NetQW.clampSends curtime) h
    exact .inr (.inl ⟨curtime, rfl, rfl⟩)
  case sendDelayed curtime =>
    obtain ⟨-, q', hq', rfl⟩ := outside_spec h
    exact .inr (.inr (.inl ⟨curtime, rfl, hq'⟩))
  case beginSend curtime stack => exact .inr (.inr (.inr (.inl ⟨curtime, stack, rfl⟩)))
  case submitPacket env => exact .inr (.inr (.inr (.inr ⟨env, rfl⟩)))
  all_goals refine .inl ⟨?_, rfl⟩
  case append buffer =>
    obtain rfl := Option.some.inj h
    exact ⟨rfl, [.append buffer], rfl, List.forall_mem_singleton.mpr rfl⟩
  case freePacket =>
    obtain ⟨q', hq', rfl⟩ := Option.map_eq_some_iff.mp h
    exact hpackets.freePacket hq'
  case clampDelays curtime =>
    obtain ⟨-, rfl⟩ := outside_total (f := NetQW.clampDelays curtime) h
    exact hpackets.clampDelays curtime
  case handleDelayed curtime =>
    obtain ⟨-, q', hq', rfl⟩ := outside_spec h
    exact hpackets.handleDelayed hreplies hq'
  case receive env source datagram =>
    obtain ⟨-, rfl⟩ := outside_total (f := NetQW.receive env source datagram) h
    exact sendSilent_receive _ env source datagram
  case addReliables =>
    obtain ⟨buf, -, rfl⟩ := addReliables_spec h
    exact keeps_rememberReliables _ (fun _ _ _ _ => rfl) _
  case finishPacket =>
    obtain ⟨-, rfl⟩ := finishPacket_spec h
    exact ⟨rfl, [_], rfl, List.forall_mem_singleton.mpr rfl⟩
  all_goals exact (hframes.step rfl h).1

/-- After the clock was read, a step of the client is one of the line of the packets to be sent, or
    none; a sanity check has nothing to do. -/
theorem step_sendLine (submitted : List (List Byte)) (hlag : c.netqw.lag ≤ 500000#32)
    (hcurtime : ∀ t ∈ a.curtime?, t = clock)
    (hclamp : ∀ t, a = .clampSends t → c.netqw.clampSends t = c.netqw)
    (h : step angle16 a c = some c') :
    c'.netqw.sendLine (a.clockAfter clock) (submitted ++ c.submits a)
        = c.netqw.sendLine (a.clockAfter clock) submitted ∨
      DelayLine.Step sendBound (c.netqw.sendLine (a.clockAfter clock) submitted)
        (c'.netqw.sendLine (a.clockAfter clock) (submitted ++ c.submits a)) := by
  have hnone : ∀ (q : NetQW) t, q.sendLine t (submitted ++ []) = q.sendLine t submitted :=
    fun q t => congrArg (fun l => q.sendLine t l) (List.append_nil _)
  rcases step_sendSilent h with ⟨hsilent, hsubmits⟩ | ⟨curtime, rfl, heq⟩ | ⟨curtime, rfl, hsend⟩ |
    ⟨curtime, stack, rfl⟩ | ⟨env, rfl⟩
  · rw [hsubmits, hnone, hsilent.sendLine_eq]
    exact .inl rfl
  · rw [heq, hclamp curtime rfl]
    exact .inl (hnone _ _)
  · obtain rfl := hcurtime curtime rfl
    obtain ⟨due, data, rest, hfirst, hdue, hline⟩ := sendLine_sendDelayed hsend curtime
    right
    show DelayLine.Step _ (c.netqw.sendLine curtime submitted)
      (c'.netqw.sendLine curtime (submitted ++ []))
    rw [hnone, hline]
    exact .pop due data rest hfirst hdue
  · obtain ⟨-, rfl⟩ := beginSend_spec h
    have hclamp : SendSilent c.netqw (c.netqw.clampMoveTime curtime) :=
      keeps_clampMoveTime _ (fun _ _ => rfl) curtime
    obtain ⟨hrequests, hstate⟩ := requests_clampMoveTime c.netqw curtime stack
    show _ = c.netqw.sendLine curtime submitted ∨
      DelayLine.Step _ (c.netqw.sendLine curtime submitted) _
    unfold submits
    dsimp only
    rw [hstate, ← hrequests, ← hclamp.sendLine_eq curtime]
    split
    · exact .inl (hnone _ _)
    · exact sendLine_resend _ curtime stack curtime
  · obtain ⟨buf, reliable, hpc, rfl⟩ := submitPacket_spec h
    have hlog : SendSilent c.netqw (c.netqw.log [.sendPacket buf reliable]) :=
      .log_one (fun _ _ => rfl) rfl
    have hawait : ∀ (q : NetQW) t l, q.awaitReply.sendLine t l = q.sendLine t l := fun _ _ _ => rfl
    have hsubmits : c.submits (.submitPacket env)
        = ((c.netqw.log [.sendPacket buf reliable]).datagram? env buf).toList := by
      unfold submits
      rw [hpc]
      rfl
    show _ = c.netqw.sendLine env.now submitted ∨
      DelayLine.Step _ (c.netqw.sendLine env.now submitted) _
    unfold NetQW.submitPacket
    rw [hawait, hsubmits, sendPacket_eq, ← hlog.sendLine_eq env.now]
    have hlag' : (c.netqw.log [.sendPacket buf reliable]).lag ≤ 500000#32 := hlag
    exact sendLine_passOn hlag' env.now _

end Client

end QwNet
