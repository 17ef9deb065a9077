/-
  QwNet.Channel.Unread

  The client packet queue, as a queue that holds packets back until they are due.

  A packet joins it when it is accepted, whether it is handled then or later, and leaves it
  when the client thread frees it.  The client thread looks at the same times as the
  network thread.
-/
import QwNet.Channel.Delays

namespace QwNet

namespace NetQW

/-- The packets that the client thread has not freed, with the times they are due. -/
def unread (q : NetQW) : List (Nat × List Byte) :=
  q.clientQueue.map fun n => ((q.netpackets n).delayuntil.toNat, (q.netpackets n).data)

/-- The client packet queue; `taken` are the packets that were freed. -/
def unreadLine (clock : BitVec 64) (taken : List (List Byte)) (q : NetQW) :
    DelayLine (List Byte) where
  clock := clock.toNat
  queue := q.unread
  out := taken
  submitted := accepted q.trace

/-- What the client packet queue is made of. -/
def unreadView (q : NetQW) : List Nat × (Nat → BitVec 64 × List Byte) × Nat :=
  (q.clientQueue, fun n => ((q.netpackets n).delayuntil, (q.netpackets n).data), q.netpacketCount)

end NetQW

/-- From `q` to `q'` no packet was accepted, freed or given another time. -/
abbrev UnreadSilent (q q' : NetQW) : Prop :=
  Keeps NetQW.unreadView (fun e => e.accepted? = none) q q'

/-- Packets in the client packet queue were received. -/
def NetQW.UnreadSound (q : NetQW) : Prop := ∀ n ∈ q.clientQueue, n < q.netpacketCount

section

variable {q q' : NetQW}

theorem UnreadSilent.queue_eq (h : UnreadSilent q q') : q'.clientQueue = q.clientQueue :=
  congrArg Prod.fst h.view

theorem UnreadSilent.accepted_eq (h : UnreadSilent q q') : accepted q'.trace = accepted q.trace :=
  h.filterMap fun _ he => he

theorem UnreadSilent.unread_eq (h : UnreadSilent q q') : q'.unread = q.unread := by
  have hpackets := congrArg (fun v => v.2.1) h.view
  unfold NetQW.unread
  rw [h.queue_eq]
  refine List.map_congr_left fun n _ => ?_
  exact congrArg (fun p : BitVec 64 × List Byte => (p.1.toNat, p.2)) (congrFun hpackets n)

theorem UnreadSilent.sound (h : UnreadSilent q q') (hs : q.UnreadSound) : q'.UnreadSound := by
  have hcount : q'.netpacketCount = q.netpacketCount := congrArg (fun v => v.2.2) h.view
  unfold NetQW.UnreadSound
  rw [h.queue_eq, hcount]
  exact hs

theorem readsNoFrames_unreadView : ReadsNoFrames NetQW.unreadView fun e => e.accepted? = none :=
  ⟨fun _ _ => rfl, fun _ _ _ _ _ _ _ _ _ _ _ _ _ _ => rfl,
    fun e he => (readsNoFrames_inboxView.allowed e he).1⟩

theorem readsNoReplies_unreadView :
    ReadsNoReplies NetQW.unreadView fun e => e.accepted? = none := by
  refine ⟨fun _ _ => rfl, fun _ _ _ _ _ _ _ _ => rfl, fun e he => ?_⟩
  cases e
  case accept => exact Bool.noConfusion he
  all_goals rfl

theorem readsOnlyPackets_unreadView :
    ReadsOnlyPackets NetQW.unreadView fun e => e.accepted? = none :=
  ⟨⟨fun _ _ => rfl, fun _ _ _ _ => rfl, fun data =>
      (readsOnlyPackets_inboxView.sending.allowed data).1⟩,
    fun _ _ _ _ _ _ _ _ => rfl, fun _ _ _ _ _ _ _ _ _ => rfl,
    fun e he hhandled => (readsOnlyPackets_inboxView.allowed e he hhandled).1⟩

theorem unreadSilent_release (q : NetQW) (n : Nat) : UnreadSilent q (q.release n) :=
  keeps_release_times q
    (fun _ hsame => congrArg (fun f => (q.clientQueue, f, q.netpacketCount)) (funext hsame))
    (fun _ _ => rfl) (fun _ => rfl) n

theorem unreadSilent_handleDelayed {curtime : BitVec 64} (h : q.handleDelayed curtime = some q') :
    UnreadSilent q q' := by
  have hset : ∀ (q : NetQW) queue, UnreadSilent q (q.setInternalQueue queue) :=
    fun _ _ => .of_eq rfl rfl
  obtain ⟨n, rest, -, rfl⟩ := handleDelayed_spec h
  have hhandle := readsNoReplies_unreadView.handleReceivedPacket (q.netpackets n).data q
  exact (hhandle.trans (hset _ rest)).trans (unreadSilent_release _ n)

/-- Storing a packet touches none that was received. -/
theorem unread_storePacket (hs : q.UnreadSound) (packet : NetPacket) :
    (q.storePacket packet).unread = q.unread := by
  refine List.map_congr_left fun n hn => ?_
  show ((Function.update q.netpackets q.netpacketCount packet n).delayuntil.toNat,
    (Function.update q.netpackets q.netpacketCount packet n).data) = _
  rw [Function.update_of_ne (Nat.ne_of_lt (hs n hn))]

theorem unread_queueForClient (data : List Byte) (q : NetQW) :
    (q.queueForClient data).unread = q.unread ++ [((q.netpackets q.netpacketCount).delayuntil.toNat,
      (q.netpackets q.netpacketCount).data)] := List.map_append

/-- A packet that is accepted joins the queue. -/
theorem unread_acceptPacket {now : BitVec 64} {data : List Byte} (hs : q.UnreadSound) :
    (q.acceptPacket now data).unread = q.unread ++ [((q.delayUntil now).toNat, data)] := by
  unfold NetQW.acceptPacket
  rw [unread_queueForClient]
  split
  next hnow =>
    have hhandle := readsNoReplies_unreadView.handleReceivedPacket data (q.storePacket ⟨0, 1, data⟩)
    have hsilent : UnreadSilent (q.storePacket ⟨0, 1, data⟩) (q.handleNow data) := hhandle
    have hcount : (q.handleNow data).netpacketCount = q.netpacketCount :=
      congrArg (fun v => v.2.2) hsilent.view
    have hpacket := congrFun (congrArg (fun v => v.2.1) hsilent.view) q.netpacketCount
    have hstored : (q.storePacket ⟨0, 1, data⟩).netpackets q.netpacketCount = ⟨0, 1, data⟩ :=
      Function.update_self q.netpacketCount _ _
    rw [hsilent.unread_eq, unread_storePacket hs, hcount, hnow]
    refine congrArg (fun p => q.unread ++ [p]) ?_
    exact (congrArg (fun p : BitVec 64 × List Byte => (p.1.toNat, p.2)) hpacket).trans
      (congrArg (fun p : NetPacket => (p.delayuntil.toNat, p.data)) hstored)
  next =>
    have hstore := unread_storePacket hs ⟨q.delayUntil now, 2, data⟩
    have hstored : (q.handleLater (q.delayUntil now) data).netpackets q.netpacketCount
        = ⟨q.delayUntil now, 2, data⟩ := Function.update_self q.netpacketCount _ _
    have hsame : (q.handleLater (q.delayUntil now) data).unread
        = (q.storePacket ⟨q.delayUntil now, 2, data⟩).unread := rfl
    rw [hsame, hstore]
    exact congrArg (fun p : NetPacket => q.unread ++ [(p.delayuntil.toNat, p.data)]) hstored

theorem accepted_acceptPacket (hs : InboxSound q) (now : BitVec 64) (data : List Byte) :
    accepted (q.acceptPacket now data).trace = accepted q.trace ++ [data] := by
  have hlag : (q.acceptPacket now data).lagQueue = _ := lagQueue_acceptPacket hs
  have haccepted : accepted (q.acceptPacket now data).trace
      = (q.acceptPacket now data).lagQueue.accepted := rfl
  rw [haccepted, hlag]
  split
  · rfl
  · rfl

theorem unreadSound_acceptPacket (hs : q.UnreadSound) (now : BitVec 64) (data : List Byte) :
    (q.acceptPacket now data).UnreadSound := by
  have hqueue : ∀ q₁ : NetQW, q₁.clientQueue = q.clientQueue →
      q₁.netpacketCount = q.netpacketCount → (q₁.queueForClient data).UnreadSound := by
    intro q₁ hclient hcount n hn
    show n < q₁.netpacketCount + 1
    rcases List.mem_append.mp hn with hn | hn
    · rw [hclient] at hn
      rw [hcount]
      exact Nat.lt_succ_of_lt (hs n hn)
    · rw [List.mem_singleton.mp hn]
      exact Nat.lt_succ_self _
  unfold NetQW.acceptPacket
  split
  · have hhandle := readsNoReplies_unreadView.handleReceivedPacket data (q.storePacket ⟨0, 1, data⟩)
    have hsilent : UnreadSilent (q.storePacket ⟨0, 1, data⟩) (q.handleNow data) := hhandle
    exact hqueue _ hsilent.queue_eq (congrArg (fun v => v.2.2) hsilent.view)
  · exact hqueue _ rfl rfl

/-- The first packet of the queue is freed. -/
theorem unread_freePacket (h : q.freePacket = some q') : ∃ due data,
    q.unread = (due, data) :: q'.unread ∧ accepted q'.trace = accepted q.trace ∧
      (q.UnreadSound → q'.UnreadSound) := by
  unfold NetQW.freePacket at h
  split at h
  next => exact absurd h (Option.some_ne_none _).symm
  next n rest hqueue =>
    obtain rfl := Option.some.inj h
    have hsilent := unreadSilent_release { q with clientQueue := rest } n
    refine ⟨(q.netpackets n).delayuntil.toNat, (q.netpackets n).data, ?_, ?_, fun hs => ?_⟩
    · rw [hsilent.unread_eq]
      unfold NetQW.unread
      rw [hqueue]
      rfl
    · rw [hsilent.accepted_eq]
    · refine hsilent.sound fun m hm => hs m ?_
      rw [hqueue]
      exact List.mem_cons_of_mem n hm

end

/-- A packet joins the queue, or none does. -/
inductive Comes (now : BitVec 64) (q q' : NetQW) : Prop where
  | nothing (hunread : q'.unread = q.unread) (haccepted : accepted q'.trace = accepted q.trace)
  | packet (due : Nat) (data : List Byte) (hdue : due ≤ now.toNat + receiveBound)
      (hlong : 8 ≤ data.length) (hunread : q'.unread = q.unread ++ [(due, data)])
      (haccepted : accepted q'.trace = accepted q.trace ++ [data])

/-- This is a step of the queue. -/
theorem Comes.steps {now : BitVec 64} {q q' : NetQW} (h : Comes now q q')
    (taken : List (List Byte)) :
    DelayLine.Steps receiveBound (q.unreadLine now taken) (q'.unreadLine now taken) := by
  cases h with
  | nothing hunread haccepted =>
    unfold NetQW.unreadLine
    rw [hunread, haccepted]
  | packet due data hdue hlong hunread haccepted =>
    have hline : q'.unreadLine now taken = (q.unreadLine now taken).push due data := by
      unfold NetQW.unreadLine
      rw [hunread, haccepted]
      rfl
    rw [hline]
    exact .single (.push due data hdue)

theorem Comes.inOrder {now : BitVec 64} {q q' : NetQW} (h : Comes now q q')
    {taken : List (List Byte)} (hq : (q.unreadLine now taken).InOrder) :
    (q'.unreadLine now taken).InOrder := by
  unfold DelayLine.InOrder NetQW.unreadLine at hq ⊢
  dsimp only at hq ⊢
  cases h with
  | nothing hunread haccepted =>
    rw [hunread, haccepted]
    exact hq
  | packet due data hdue hlong hunread haccepted =>
    rw [hunread, haccepted, List.map_append, ← List.append_assoc, hq]
    rfl

/-- The packet that was first stays first. -/
theorem Comes.head {now : BitVec 64} {q q' : NetQW} (h : Comes now q q') {p : Nat × List Byte}
    (hp : p ∈ q.unread.head?) : p ∈ q'.unread.head? := by
  cases h with
  | nothing hunread haccepted =>
    rw [hunread]
    exact hp
  | packet due data hdue hlong hunread haccepted =>
    rw [hunread, List.head?_append, Option.mem_def.mp hp]
    rfl

/-- No packet is empty. -/
theorem Comes.long {now : BitVec 64} {q q' : NetQW} (h : Comes now q q')
    (hq : ∀ p ∈ q.unread, 8 ≤ p.2.length) : ∀ p ∈ q'.unread, 8 ≤ p.2.length := by
  cases h with
  | nothing hunread haccepted =>
    rw [hunread]
    exact hq
  | packet due data hdue hlong hunread haccepted =>
    rw [hunread]
    exact List.forall_mem_append.mpr ⟨hq, List.forall_mem_singleton.mpr hlong⟩

theorem length_of_accepts {q : NetQW} {env : NetQW.SendEnv} {source : NetAddr}
    {datagram data : List Byte} (h : q.accepts? env source datagram = some data) :
    8 ≤ data.length := by
  unfold NetQW.accepts? at h
  obtain ⟨hconds, h⟩ := Option.ite_none_right_eq_some.mp h
  obtain rfl := Option.some.inj h
  rw [List.length_map, List.length_range]
  exact hconds.2.2.2.1.1

namespace Client

variable {angle16 : BitVec 32 → BitVec 16} {a : Action} {c c' : Client}

/-- A step accepts a packet, writes to the times, frees a packet, or leaves the queue alone. -/
theorem step_unread (h : step angle16 a c = some c') : UnreadSilent c.netqw c'.netqw ∨
    (∃ env source datagram data, a = .receive env source datagram ∧
      c.netqw.accepts? env source datagram = some data ∧
      c'.netqw = c.netqw.acceptPacket env.now data) ∨
    (∃ curtime, a = .clampDelays curtime ∧ c'.netqw = c.netqw.clampDelays curtime) ∨
    (a = .freePacket ∧ c.netqw.freePacket = some c'.netqw) := by
  rcases step_packets readsOnlyPackets_unreadView
    (fun ha => (readsNoFrames_unreadView.step ha h).1) h with hsilent | haccept |
      ⟨curtime, -, hhandle⟩ | hclamp | hfree
  · exact .inl hsilent
  · exact .inr (.inl haccept)
  · exact .inl (unreadSilent_handleDelayed hhandle)
  · exact .inr (.inr (.inl hclamp))
  · exact .inr (.inr (.inr hfree))

theorem unreadSound (h : (system angle16).Reachable c) : c.netqw.UnreadSound := by
  have hinit : ∀ c, Init c → c.netqw.UnreadSound := by
    rintro c ⟨garbage, qport, userinfo, addr, rfl⟩
    exact fun n hn => absurd hn List.not_mem_nil
  refine h.invariant hinit fun a c c' hs _ hstep => ?_
  rcases step_unread hstep with hsilent | ⟨env, source, datagram, data, -, -, heq⟩ |
    ⟨curtime, -, heq⟩ | ⟨-, hfree⟩
  · exact hsilent.sound hs
  · rw [heq]
    exact unreadSound_acceptPacket hs env.now data
  · have hkeeps : Keeps (fun q => (q.clientQueue, q.netpacketCount)) (fun _ => True) c.netqw
        (c.netqw.clampDelays curtime) := keeps_clampDelays _ (fun _ _ _ => rfl) curtime
    have hqueue : (c.netqw.clampDelays curtime).clientQueue = c.netqw.clientQueue :=
      congrArg Prod.fst hkeeps.view
    have hcount : (c.netqw.clampDelays curtime).netpacketCount = c.netqw.netpacketCount :=
      congrArg Prod.snd hkeeps.view
    unfold NetQW.UnreadSound
    rw [heq, hqueue, hcount]
    exact hs
  · exact (unread_freePacket hfree).choose_spec.choose_spec.2.2 hs

/-- As long as the clock does not go back, a step of another thread puts a packet at the end of the
    queue, or it leaves it alone. -/
theorem step_comes (hreachable : (system angle16).Reachable c) {clock : BitVec 64}
    (htimely : Timely clock a) (hclock : clock.toNat < 2 ^ 63)
    (hb : (c.netqw.receiveLine clock).Bounded receiveBound) (h : step angle16 a c = some c')
    (hfree : a ≠ .freePacket) {now : BitVec 64} (hnow : ∀ t ∈ a.reading?, t ≤ now) :
    Comes now c.netqw c'.netqw := by
  rcases step_unread h with hsilent | ⟨env, source, datagram, data, rfl, haccepts, heq⟩ |
    ⟨curtime, rfl, heq⟩ | ⟨ha, -⟩
  · exact .nothing hsilent.unread_eq hsilent.accepted_eq
  · have hdue := delayUntil_le (lag_le hreachable) env.now
    have hle := BitVec.le_def.mp (hnow env.now rfl)
    rw [heq]
    exact .packet _ data (Nat.le_trans hdue (Nat.add_le_add_right hle _))
      (length_of_accepts haccepts) (unread_acceptPacket (unreadSound hreachable))
      (accepted_acceptPacket (inboxSound hreachable) env.now data)
  · obtain rfl := htimely.curtime curtime rfl
    rw [heq, clampDelays_eq hclock (due_le_second (by decide) hb)]
    exact .nothing rfl rfl
  · exact absurd ha hfree

end Client

end QwNet
