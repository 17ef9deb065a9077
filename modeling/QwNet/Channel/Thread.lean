/-
  QwNet.Channel.Thread

  The loop of `NetQW_Thread`.

  Once in each iteration the network thread handles the packets whose lag has passed and
  sends those whose lag has passed, waits for a datagram, receives all there are, and
  calls `NetQW_Thread_DoSend`.  Between any two of its steps the client thread may take
  one of its own.
-/
import QwNet.Channel.Delays
import QwNet.Channel.Connect

namespace QwNet

/-! ## The loop -/

namespace NetQW

/-- `waittime` from the next frame, or from the next request: an `unsigned int`. -/
def waitTime (curtime : BitVec 64) (q : NetQW) : BitVec 32 :=
  if q.state = .connected then
    let due := q.lastmovesendtime + q.microsecondsperframe.setWidth 64
    if curtime < due then (due - curtime).setWidth 32 else 0#32
  else
    if curtime < q.resendtime then (q.resendtime - curtime).setWidth 32 else 0#32

/-- The wait ends when a packet is due. -/
def shorten (delayuntil curtime : BitVec 64) (waittime : BitVec 32) : BitVec 32 :=
  if delayuntil - curtime < waittime.setWidth 64 then (delayuntil - curtime).setWidth 32
  else waittime

/-- `waittime` as it is passed to `Sys_Net_Wait`; there is no call if it is zero. -/
def netWait (curtime : BitVec 64) (waittime : BitVec 32) (q : NetQW) : BitVec 32 :=
  let waittime := match q.internalQueue with
    | [] => waittime
    | n :: _ => shorten (q.netpackets n).delayuntil curtime waittime
  let waittime := match q.sendQueue with
    | [] => waittime
    | packet :: _ => shorten packet.delayuntil curtime waittime
  if 50000#32 < waittime then 50000#32 else waittime

end NetQW

/-- Where `NetQW_Thread` is, with its variables `curtime` and `waittime`. -/
inductive ThreadPc where
  /-- At the head of the loop. -/
  | head
  /-- Before the first sanity check. -/
  | clampDelays (curtime : BitVec 64) (waittime : BitVec 32)
  /-- In the loop over the packets received. -/
  | delays (curtime : BitVec 64) (waittime : BitVec 32)
  /-- Before the second sanity check. -/
  | clampSends (curtime : BitVec 64) (waittime : BitVec 32)
  /-- In the loop over the packets to be sent. -/
  | sends (curtime : BitVec 64) (waittime : BitVec 32)
  /-- Before `Sys_Net_Wait`. -/
  | wait (curtime : BitVec 64) (waittime : BitVec 32)
  /-- In `NetQW_Thread_DoReceive`. -/
  | receive
  /-- Before `NetQW_Thread_DoSend`. -/
  | beginSend
  /-- In `NetQW_Thread_DoSend`. -/
  | send
  /-- Behind the loop. -/
  | ended
deriving DecidableEq

/-- The client, the place of the network thread and what it last read from the clock; `submitted`
    are the datagrams that were handed over to be sent. -/
structure Thread where
  client : Client
  pc : ThreadPc
  quit : Bool
  clock : BitVec 64
  submitted : List (List Byte)

/-- A step of one of the threads. -/
inductive ThreadAction where
  -- the client thread
  | application (a : Action)
  | quit
  -- the network thread
  | begin (curtime : BitVec 64)
  | next
  | receive (env : NetQW.SendEnv) (source : NetAddr) (datagram : List Byte)
  | received
  | send (a : Action)
  | exit

/-- A call of the client thread. -/
def Action.ofApplication : Action → Bool
  | .setFPS _ | .append _ | .generate .. | .copyFrames | .setDeltaPoint _ | .setTeleport _ => true
  | .setMovementLocked _ | .setLag _ | .setLagEzcheat _ | .freePacket => true
  | _ => false

/-- The call of `NetQW_Thread_DoSend`. -/
def Action.ofCall : Action → Bool
  | .beginSend .. => true
  | _ => false

/-- A step of the loop before `Sys_Net_Wait`. -/
def Action.ofLoop : Action → Bool
  | .clampDelays _ | .handleDelayed _ | .clampSends _ | .sendDelayed _ => true
  | _ => false

/-- The step of the client that a step of a thread names. -/
def ThreadAction.action? : ThreadAction → Option Action
  | .application a | .send a => some a
  | .receive env source datagram => some (.receive env source datagram)
  | _ => none

/-- Whether a step is one of the network thread. -/
def ThreadAction.ofNetworkThread : ThreadAction → Bool
  | .application _ | .quit => false
  | .begin _ | .next | .receive .. | .received | .send _ | .exit => true

/-- A step inside `NetQW_Thread_DoSend`. -/
def Action.ofDoSend : Action → Bool
  | .netGenerate .. | .endSend | .buildPacket | .addDelta | .addTmove | .addReliables => true
  | .submitPacket _ | .finishPacket => true
  | _ => false

namespace Thread

/-- A step of the client, and the place of the network thread behind it. -/
def act (angle16 : BitVec 32 → BitVec 16) (a : Action) (pc : Client → ThreadPc) (s : Thread) :
    Option Thread :=
  (Client.step angle16 a s.client).map fun c => { s with
    client := c
    pc := pc c
    clock := a.clockAfter s.clock
    submitted := s.submitted ++ s.client.submits a }

/-- The network thread is still in `NetQW_Thread_DoSend`, or it is done. -/
def afterSend (c : Client) : ThreadPc :=
  match c.pc with
  | .idle => .head
  | _ => .send

/-- What comes next, up to `Sys_Net_Wait`. -/
def next (angle16 : BitVec 32 → BitVec 16) (s : Thread) : Option Thread :=
  match s.pc with
  | .clampDelays curtime waittime =>
    s.act angle16 (.clampDelays curtime) fun _ => .delays curtime waittime
  | .delays curtime waittime =>
    match s.client.netqw.handleDelayed curtime with
    | some _ => s.act angle16 (.handleDelayed curtime) fun _ => .delays curtime waittime
    | none => some { s with pc := .clampSends curtime waittime }
  | .clampSends curtime waittime =>
    s.act angle16 (.clampSends curtime) fun _ => .sends curtime waittime
  | .sends curtime waittime =>
    match s.client.netqw.sendDelayed curtime with
    | some _ => s.act angle16 (.sendDelayed curtime) fun _ => .sends curtime waittime
    | none => some { s with pc := .wait curtime waittime }
  | .wait _ _ => some { s with pc := .receive }
  | _ => none

/-- What an action does; `none` where it is not possible. -/
def step (angle16 : BitVec 32 → BitVec 16) (a : ThreadAction) (s : Thread) : Option Thread :=
  match a with
  | .application a => if a.ofApplication then s.act angle16 a fun _ => s.pc else none
  | .quit => some { s with quit := true }
  | .begin curtime =>
    match s.pc with
    | .head =>
      if s.quit then none
      else some { s with
        pc := .clampDelays curtime (s.client.netqw.waitTime curtime)
        clock := curtime }
    | _ => none
  | .next => s.next angle16
  | .receive env source datagram =>
    match s.pc with
    | .receive => s.act angle16 (.receive env source datagram) fun _ => .receive
    | _ => none
  | .received =>
    match s.pc with
    | .receive => some { s with pc := .beginSend }
    | _ => none
  | .send a =>
    match s.pc with
    | .beginSend => if a.ofCall then s.act angle16 a afterSend else none
    | .send => if a.ofDoSend then s.act angle16 a afterSend else none
    | _ => none
  | .exit =>
    match s.pc with
    | .head => if s.quit then some { s with pc := .ended } else none
    | _ => none

/-- The network thread enters its loop. -/
def system (angle16 : BitVec 32 → BitVec 16) : Transitions Thread ThreadAction where
  Init s := s.client.Init ∧ s.pc = .head ∧ s.clock = 0#64 ∧ s.submitted = []
  step := step angle16

end Thread

/-- What the network thread reads from the clock. -/
def ThreadAction.reading? : ThreadAction → Option (BitVec 64)
  | .begin curtime => some curtime
  | .receive env _ _ => some env.now
  | .send a => a.reading?
  | _ => none

/-- The clock does not go back, and is not near its end. -/
def ClockOk (a : ThreadAction) (s : Thread) : Prop :=
  ∀ t ∈ a.reading?, s.clock ≤ t ∧ t.toNat < 2 ^ 63

instance (a : ThreadAction) (s : Thread) : Decidable (ClockOk a s) :=
  -- not the instance that tries every clock value
  Option.decidableForallMem a.reading?

/-! ## The queues in the loop -/

namespace Thread

def receiveLine (s : Thread) : DelayLine (List Byte) := s.client.netqw.receiveLine s.clock

def sendLine (s : Thread) : DelayLine (List Byte) := s.client.netqw.sendLine s.clock s.submitted

/-- What holds wherever the network thread is. -/
structure Timed (angle16 : BitVec 32 → BitVec 16) (s : Thread) : Prop where
  reachable : (Client.system angle16).Reachable s.client
  clock : s.clock.toNat < 2 ^ 63
  receives : s.receiveLine.Bounded receiveBound
  sends : s.sendLine.Bounded sendBound

/-- `curtime` is what was last read, and behind each of the two loops nothing is left that was
    due. -/
def Place (s : Thread) : Prop :=
  match s.pc with
  | .clampDelays curtime _ | .delays curtime _ => curtime = s.clock
  | .clampSends curtime _ | .sends curtime _ => curtime = s.clock ∧ s.receiveLine.Drained
  | .wait curtime _ => curtime = s.clock ∧ s.receiveLine.Drained ∧ s.sendLine.Drained
  | _ => True

/-- From `s` to `s'` packets went into the queues and out of them, as time went on. -/
structure Lines (s s' : Thread) : Prop where
  receives : DelayLine.Steps receiveBound s.receiveLine s'.receiveLine
  sends : DelayLine.Steps sendBound s.sendLine s'.sendLine

variable {angle16 : BitVec 32 → BitVec 16} {s s' : Thread}

theorem Lines.refl (s : Thread) : Lines s s := ⟨.refl, .refl⟩

theorem Lines.trans {s₁ s₂ s₃ : Thread} (h₁ : Lines s₁ s₂) (h₂ : Lines s₂ s₃) : Lines s₁ s₃ :=
  ⟨h₁.receives.trans h₂.receives, h₁.sends.trans h₂.sends⟩

theorem Timed.of_lines (h : s.Timed angle16) (hlines : Lines s s')
    (hreachable : (Client.system angle16).Reachable s'.client) (hclock : s'.clock.toNat < 2 ^ 63) :
    s'.Timed angle16 :=
  ⟨hreachable, hclock, h.receives.steps hlines.receives, h.sends.steps hlines.sends⟩

theorem act_spec {a : Action} {pc : Client → ThreadPc} (h : s.act angle16 a pc = some s') :
    ∃ c, Client.step angle16 a s.client = some c ∧ s' = { s with
      client := c
      pc := pc c
      clock := a.clockAfter s.clock
      submitted := s.submitted ++ s.client.submits a } := by
  obtain ⟨c, hc, rfl⟩ := Option.map_eq_some_iff.mp h
  exact ⟨c, hc, rfl⟩

/-- A step of the client moves the queues. -/
theorem Timed.act (h : s.Timed angle16) {a : Action} {pc : Client → ThreadPc}
    (htimely : Timely s.clock a) (hact : s.act angle16 a pc = some s') :
    Lines s s' ∧ s'.Timed angle16 := by
  obtain ⟨c, hc, rfl⟩ := act_spec hact
  have hlag := Client.lag_le h.reachable
  have hlines : Lines s { s with
      client := c
      pc := pc c
      clock := a.clockAfter s.clock
      submitted := s.submitted ++ s.client.submits a } := by
    constructor
    · have htick := htimely.tick s.client.netqw
      rcases Client.step_receiveLine (Client.inboxSound h.reachable) hlag htimely h.clock h.receives
        hc with heq | hstep
      · refine .single ?_
        show DelayLine.Step _ _ (c.netqw.receiveLine (a.clockAfter s.clock))
        rw [heq]
        exact htick
      · exact (Relation.ReflTransGen.single htick).tail hstep
    · have htick := htimely.tick_send s.submitted s.client.netqw
      have hclamp : ∀ t, a = .clampSends t → s.client.netqw.clampSends t = s.client.netqw := by
        rintro t rfl
        obtain rfl := htimely.curtime t rfl
        exact clampSends_eq h.clock (due_le_second (by decide) h.sends)
      rcases Client.step_sendLine s.submitted hlag htimely.curtime hclamp hc with heq | hstep
      · refine .single ?_
        show DelayLine.Step _ _
          (c.netqw.sendLine (a.clockAfter s.clock) (s.submitted ++ s.client.submits a))
        rw [heq]
        exact htick
      · exact (Relation.ReflTransGen.single htick).tail hstep
  refine ⟨hlines, h.of_lines hlines (.step h.reachable trivial hc) ?_⟩
  show (a.clockAfter s.clock).toNat < 2 ^ 63
  unfold Action.clockAfter
  cases hreading : a.reading? with
  | none => exact h.clock
  | some t => exact (htimely.reading t hreading).2

/-- What a step of a thread has the client do. -/
structure Performs (a : ThreadAction) (s : Thread) (b : Action) : Prop where
  named : a.action? = some b ∨ a.action? = none ∧ b.ofLoop = true
  network : b.ofNetworkThread = true → a.ofNetworkThread = true
  submits : a = .send b ∨ s.client.submits b = []
  reading : ∀ t ∈ b.reading?, t ∈ a.reading?
  curtime : s.Place → ∀ t ∈ b.curtime?, t = s.clock
  frees : b = .freePacket → a = .application .freePacket

/-- A step of the loop that reads nothing and sends nothing. -/
theorem performs_next {b : Action} {curtime : BitVec 64} (hloop : b.ofLoop = true)
    (hsubmits : s.client.submits b = []) (hreading : b.reading? = none) (hcurtime : b.curtime? = some curtime)
    (hplace : s.Place → curtime = s.clock) : Performs .next s b := by
  refine ⟨.inr ⟨rfl, hloop⟩, fun _ => rfl, .inr hsubmits, fun t ht => ?_, fun h t ht => ?_,
    fun hb => ?_⟩
  · rw [hreading] at ht
    exact absurd ht (Option.not_mem_none t)
  · rw [hcurtime] at ht
    obtain rfl := Option.some.inj ht
    exact hplace h
  · subst hb
    exact absurd hcurtime (Option.some_ne_none _).symm

/-- A step that does not look at `curtime`. -/
theorem performs_of_none {a : ThreadAction} {b : Action} (hnamed : a.action? = some b)
    (hnetwork : b.ofNetworkThread = true → a.ofNetworkThread = true)
    (hsubmits : a = .send b ∨ s.client.submits b = []) (hreading : ∀ t ∈ b.reading?, t ∈ a.reading?)
    (hcurtime : b.curtime? = none) (hfrees : b = .freePacket → a = .application .freePacket) :
    Performs a s b := by
  refine ⟨.inl hnamed, hnetwork, hsubmits, hreading, fun _ t ht => ?_, hfrees⟩
  rw [hcurtime] at ht
  exact absurd ht (Option.not_mem_none t)

theorem ofNetworkThread_of_ofApplication {b : Action} (hb : b.ofApplication = true) :
    b.ofNetworkThread = false := by
  cases b <;> first | rfl | exact Bool.noConfusion hb

theorem performs_application {b : Action} (hb : b.ofApplication = true) :
    Performs (.application b) s b := by
  have hnone : s.client.submits b = [] ∧ b.reading? = none ∧ b.curtime? = none := by
    cases b <;> first | exact ⟨rfl, rfl, rfl⟩ | exact Bool.noConfusion hb
  obtain ⟨hsubmits, hreading, hcurtime⟩ := hnone
  refine performs_of_none rfl (fun hnetwork => ?_) (.inr hsubmits) (fun t ht => ?_) hcurtime
    fun h => congrArg _ h
  · rw [ofNetworkThread_of_ofApplication hb] at hnetwork
    exact Bool.noConfusion hnetwork
  · rw [hreading] at ht
    exact absurd ht (Option.not_mem_none t)

theorem performs_send {b : Action} (hb : b.ofCall = true ∨ b.ofDoSend = true) :
    Performs (.send b) s b := by
  have hnone : b.curtime? = none ∧ b ≠ .freePacket := by
    rcases hb with hb | hb
    · cases b <;> first | exact ⟨rfl, Action.noConfusion⟩ | exact Bool.noConfusion hb
    · cases b <;> first | exact ⟨rfl, Action.noConfusion⟩ | exact Bool.noConfusion hb
  exact performs_of_none rfl (fun _ => rfl) (.inl rfl) (fun _ ht => ht) hnone.1
    fun h => absurd h hnone.2

/-- A step moves the network thread only, which may read the clock. -/
structure Moves (a : ThreadAction) (s s' : Thread) : Prop where
  client : s'.client = s.client
  submitted : s'.submitted = s.submitted
  clock : s'.clock = s.clock ∨ s'.clock ∈ a.reading?
  unnamed : a.action? = none

/-- A step of a thread is a step of the client, or it moves the network thread only. -/
theorem step_client {a : ThreadAction} (h : step angle16 a s = some s') :
    Moves a s s' ∨ ∃ b pc, Performs a s b ∧ s.act angle16 b pc = some s' := by
  cases a with
  | application a =>
    obtain ⟨ha, h⟩ := Option.ite_none_right_eq_some.mp h
    exact .inr ⟨a, _, performs_application ha, h⟩
  | quit =>
    obtain rfl := Option.some.inj h
    exact .inl ⟨rfl, rfl, .inl rfl, rfl⟩
  | begin curtime =>
    unfold step at h
    dsimp only at h
    split at h
    · obtain ⟨-, h⟩ := Option.ite_none_left_eq_some.mp h
      obtain rfl := Option.some.inj h
      exact .inl ⟨rfl, rfl, .inr rfl, rfl⟩
    · exact absurd h (Option.some_ne_none _).symm
  | next =>
    unfold step next at h
    dsimp only at h
    split at h
    next hpc =>
      refine .inr ⟨_, _, performs_next rfl rfl rfl rfl fun hplace => ?_, h⟩
      rw [Place, hpc] at hplace
      exact hplace
    next hpc =>
      split at h
      · refine .inr ⟨_, _, performs_next rfl rfl rfl rfl fun hplace => ?_, h⟩
        rw [Place, hpc] at hplace
        exact hplace
      · obtain rfl := Option.some.inj h
        exact .inl ⟨rfl, rfl, .inl rfl, rfl⟩
    next hpc =>
      refine .inr ⟨_, _, performs_next rfl rfl rfl rfl fun hplace => ?_, h⟩
      rw [Place, hpc] at hplace
      exact hplace.1
    next hpc =>
      split at h
      · refine .inr ⟨_, _, performs_next rfl rfl rfl rfl fun hplace => ?_, h⟩
        rw [Place, hpc] at hplace
        exact hplace.1
      · obtain rfl := Option.some.inj h
        exact .inl ⟨rfl, rfl, .inl rfl, rfl⟩
    next =>
      obtain rfl := Option.some.inj h
      exact .inl ⟨rfl, rfl, .inl rfl, rfl⟩
    next => exact absurd h (Option.some_ne_none _).symm
  | receive env source datagram =>
    unfold step at h
    dsimp only at h
    split at h
    · have hperforms : Performs (.receive env source datagram) s (.receive env source datagram) :=
        performs_of_none rfl (fun _ => rfl) (.inr rfl) (fun _ ht => ht) rfl Action.noConfusion
      exact .inr ⟨_, _, hperforms, h⟩
    · exact absurd h (Option.some_ne_none _).symm
  | received =>
    unfold step at h
    dsimp only at h
    split at h
    · obtain rfl := Option.some.inj h
      exact .inl ⟨rfl, rfl, .inl rfl, rfl⟩
    · exact absurd h (Option.some_ne_none _).symm
  | send b =>
    unfold step at h
    dsimp only at h
    split at h
    · obtain ⟨hb, h⟩ := Option.ite_none_right_eq_some.mp h
      exact .inr ⟨b, _, performs_send (.inl hb), h⟩
    · obtain ⟨hb, h⟩ := Option.ite_none_right_eq_some.mp h
      exact .inr ⟨b, _, performs_send (.inr hb), h⟩
    · exact absurd h (Option.some_ne_none _).symm
  | exit =>
    unfold step at h
    dsimp only at h
    split at h
    · obtain ⟨-, h⟩ := Option.ite_none_right_eq_some.mp h
      obtain rfl := Option.some.inj h
      exact .inl ⟨rfl, rfl, .inl rfl, rfl⟩
    · exact absurd h (Option.some_ne_none _).symm

/-- As long as the clock does not go back, the client's step is timely. -/
theorem Performs.timely {a : ThreadAction} {b : Action} (h : Performs a s b) (hok : ClockOk a s)
    (hplace : s.Place) : Timely s.clock b :=
  ⟨fun t ht => hok t (h.reading t ht), h.curtime hplace⟩

/-- Every step moves the queues as time goes on. -/
theorem Timed.step (h : s.Timed angle16) (hplace : s.Place) {a : ThreadAction} (hok : ClockOk a s)
    (hstep : Thread.step angle16 a s = some s') : Lines s s' ∧ s'.Timed angle16 := by
  rcases step_client hstep with ⟨hclient, hsubmitted, hclock, -⟩ | ⟨b, pc, hperforms, hact⟩
  · have hlater : s.clock ≤ s'.clock ∧ s'.clock.toNat < 2 ^ 63 := by
      rcases hclock with heq | hread
      · rw [heq]
        exact ⟨BitVec.le_refl _, h.clock⟩
      · exact hok _ hread
    have hle := BitVec.le_def.mp hlater.1
    have hlines : Lines s s' := by
      refine ⟨.single ?_, .single ?_⟩
      · unfold receiveLine
        rw [hclient]
        exact .tick s'.clock.toNat hle
      · unfold sendLine
        rw [hclient, hsubmitted]
        exact .tick s'.clock.toNat hle
    exact ⟨hlines, h.of_lines hlines (hclient ▸ h.reachable) hlater.2⟩
  · exact h.act (hperforms.timely hok hplace) hact

/-- Nothing is due when the loop over the packets received is left. -/
theorem drained_of_handleDelayed {q : NetQW} {curtime : BitVec 64}
    (h : q.handleDelayed curtime = none) : (q.receiveLine curtime).Drained := by
  intro p hp
  unfold NetQW.handleDelayed at h
  split at h
  next hqueue =>
    have hhead : (q.receiveLine curtime).queue.head? = none := by
      show q.waiting.head? = none
      rw [NetQW.waiting, hqueue]
      rfl
    rw [hhead] at hp
    exact absurd hp (Option.not_mem_none p)
  next n rest hqueue =>
    have hhead : (q.receiveLine curtime).queue.head?
        = some ((q.netpackets n).delayuntil.toNat, (q.netpackets n).data) := by
      show q.waiting.head? = _
      rw [NetQW.waiting, hqueue]
      rfl
    rw [hhead] at hp
    obtain rfl := Option.some.inj hp
    exact BitVec.lt_def.mp (BitVec.not_le.mp fun hle =>
      Option.some_ne_none _ ((if_pos hle).symm.trans h))

/-- Nothing is due when the loop over the packets to be sent is left. -/
theorem drained_of_sendDelayed {q : NetQW} {curtime : BitVec 64} {submitted : List (List Byte)}
    (h : q.sendDelayed curtime = none) : (q.sendLine curtime submitted).Drained := by
  intro p hp
  unfold NetQW.sendDelayed at h
  split at h
  next hqueue =>
    have hhead : (q.sendLine curtime submitted).queue.head? = none := by
      unfold NetQW.sendLine
      rw [hqueue]
      rfl
    rw [hhead] at hp
    exact absurd hp (Option.not_mem_none p)
  next packet rest hqueue =>
    have hhead : (q.sendLine curtime submitted).queue.head?
        = some (packet.delayuntil.toNat, packet.data) := by
      unfold NetQW.sendLine
      rw [hqueue]
      rfl
    rw [hhead] at hp
    obtain rfl := Option.some.inj hp
    exact BitVec.lt_def.mp (BitVec.not_le.mp fun hle =>
      Option.some_ne_none _ ((if_pos hle).symm.trans h))

/-- The next step of the loop leads to the next place. -/
theorem Place.next (hplace : s.Place) (hnext : s.next angle16 = some s') : s'.Place := by
  unfold Thread.next at hnext
  unfold Place at hplace
  split at hnext
  case h_1 curtime waittime hpc =>
    rw [hpc] at hplace
    obtain rfl : curtime = s.clock := hplace
    obtain ⟨c, -, rfl⟩ := act_spec hnext
    exact rfl
  case h_2 curtime waittime hpc =>
    rw [hpc] at hplace
    obtain rfl : curtime = s.clock := hplace
    split at hnext
    · obtain ⟨c, -, rfl⟩ := act_spec hnext
      exact rfl
    next hnone =>
      obtain rfl := Option.some.inj hnext
      exact ⟨rfl, drained_of_handleDelayed hnone⟩
  case h_3 curtime waittime hpc =>
    rw [hpc] at hplace
    obtain ⟨rfl, hdrained⟩ : curtime = s.clock ∧ s.receiveLine.Drained := hplace
    obtain ⟨c, hc, rfl⟩ := act_spec hnext
    refine ⟨rfl, ?_⟩
    show (c.netqw.receiveLine s.clock).Drained
    rw [Client.step_receiveLine_eq rfl hc]
    exact hdrained
  case h_4 curtime waittime hpc =>
    rw [hpc] at hplace
    obtain ⟨rfl, hdrained⟩ : curtime = s.clock ∧ s.receiveLine.Drained := hplace
    split at hnext
    · obtain ⟨c, hc, rfl⟩ := act_spec hnext
      refine ⟨rfl, ?_⟩
      show (c.netqw.receiveLine s.clock).Drained
      rw [Client.step_receiveLine_eq rfl hc]
      exact hdrained
    next hnone =>
      obtain rfl := Option.some.inj hnext
      exact ⟨rfl, hdrained, drained_of_sendDelayed hnone⟩
  case h_5 =>
    obtain rfl := Option.some.inj hnext
    trivial
  case h_6 => exact absurd hnext (Option.some_ne_none _).symm

/-- A call of the client thread leaves the queues alone. -/
theorem Place.application (hplace : s.Place) {a : Action} (ha : a.ofApplication = true)
    (hact : s.act angle16 a (fun _ => s.pc) = some s') : s'.Place := by
  have hnone : a.reading? = none ∧ a.ofReceiving = false := by
    cases a <;> first | exact ⟨rfl, rfl⟩ | exact Bool.noConfusion ha
  obtain ⟨hreading, hreceiving⟩ := hnone
  obtain ⟨c, hc, rfl⟩ := act_spec hact
  have hclock : a.clockAfter s.clock = s.clock := by
    rw [Action.clockAfter, hreading]
    rfl
  have hreceive := Client.step_receiveLine_eq hreceiving hc s.clock
  have hsend : c.netqw.sendLine s.clock (s.submitted ++ s.client.submits a) = s.sendLine := by
    rcases Client.step_sendSilent hc with ⟨hsilent, hsubmits⟩ | ⟨curtime, rfl, -⟩ |
      ⟨curtime, rfl, -⟩ | ⟨curtime, stack, rfl⟩ | ⟨env, rfl⟩
    · rw [hsubmits, List.append_nil]
      exact hsilent.sendLine_eq _
    all_goals exact Bool.noConfusion ha
  unfold Place receiveLine sendLine at hplace ⊢
  dsimp only
  rw [hclock, hreceive, hsend]
  exact hplace

theorem Place.step (hplace : s.Place) {a : ThreadAction}
    (hstep : Thread.step angle16 a s = some s') : s'.Place := by
  have hsend : ∀ {b : Action}, s.act angle16 b afterSend = some s' → s'.Place := by
    intro b hb
    obtain ⟨c, -, rfl⟩ := act_spec hb
    unfold Place afterSend
    dsimp only
    cases c.pc <;> trivial
  cases a with
  | application a =>
    obtain ⟨ha, hstep⟩ := Option.ite_none_right_eq_some.mp hstep
    exact hplace.application ha hstep
  | next => exact hplace.next hstep
  | quit =>
    obtain rfl := Option.some.inj hstep
    exact hplace
  | begin curtime =>
    unfold Thread.step at hstep
    dsimp only at hstep
    split at hstep
    · obtain ⟨-, hstep⟩ := Option.ite_none_left_eq_some.mp hstep
      obtain rfl := Option.some.inj hstep
      exact rfl
    · exact absurd hstep (Option.some_ne_none _).symm
  | receive env source datagram =>
    unfold Thread.step at hstep
    dsimp only at hstep
    split at hstep
    · obtain ⟨c, -, rfl⟩ := act_spec hstep
      trivial
    · exact absurd hstep (Option.some_ne_none _).symm
  | received =>
    unfold Thread.step at hstep
    dsimp only at hstep
    split at hstep
    · obtain rfl := Option.some.inj hstep
      trivial
    · exact absurd hstep (Option.some_ne_none _).symm
  | send b =>
    unfold Thread.step at hstep
    dsimp only at hstep
    split at hstep
    · exact hsend (Option.ite_none_right_eq_some.mp hstep).2
    · exact hsend (Option.ite_none_right_eq_some.mp hstep).2
    · exact absurd hstep (Option.some_ne_none _).symm
  | exit =>
    unfold Thread.step at hstep
    dsimp only at hstep
    split at hstep
    · obtain ⟨-, hstep⟩ := Option.ite_none_right_eq_some.mp hstep
      obtain rfl := Option.some.inj hstep
      trivial
    · exact absurd hstep (Option.some_ne_none _).symm

/-! ## Runs -/

/-- The loop does nothing but what the client can do. -/
theorem refines (angle16 : BitVec 32 → BitVec 16) :
    (system angle16).Refines (Client.system angle16) fun s c => s.client = c where
  init s h := ⟨s.client, h.1, rfl⟩
  step a s s' c heq hstep := by
    subst heq
    rcases step_client hstep with hmoves | ⟨b, pc, -, hact⟩
    · exact .inl hmoves.client
    · obtain ⟨c, hc, rfl⟩ := act_spec hact
      exact .inr ⟨b, c, hc, rfl⟩

theorem client_reachable (h : (system angle16).Reachable s) :
    (Client.system angle16).Reachable s.client := by
  obtain ⟨c, hc, rfl⟩ := (refines angle16).reachable h
  exact hc

theorem timed_of_reaches (h : (system angle16).Reaches ClockOk s) :
    s.Timed angle16 ∧ s.Place := by
  have hinit : ∀ s, (system angle16).Init s → s.Timed angle16 ∧ s.Place := by
    rintro ⟨client, pc, quit, clock, submitted⟩ ⟨hinit, rfl, rfl, rfl⟩
    refine ⟨⟨.init hinit, Nat.two_pow_pos 63, ?_, ?_⟩, trivial⟩
    · obtain ⟨garbage, qport, userinfo, addr, rfl⟩ := hinit
      exact fun p hp => nomatch hp
    · obtain ⟨garbage, qport, userinfo, addr, rfl⟩ := hinit
      exact fun p hp => nomatch hp
  exact h.invariant hinit fun a s s' hs hok hstep =>
    ⟨(hs.1.step hs.2 hok hstep).2, hs.2.step hstep⟩

/-- What a step does to the queues, a run does. -/
theorem lines_of_run {as : List ThreadAction} (h : (system angle16).Reaches ClockOk s)
    (hrun : (system angle16).runOk ClockOk as s = some s') : Lines s s' := by
  induction as generalizing s with
  | nil =>
    obtain rfl := Option.some.inj hrun
    exact .refl s
  | cons a as ih =>
    obtain ⟨hok, s₁, hstep, hrest⟩ := Transitions.runOk_cons.mp hrun
    obtain ⟨htimed, hplace⟩ := timed_of_reaches h
    exact (htimed.step hplace hok hstep).1.trans (ih (.step h hok hstep) hrest)

end Thread

/-! ## The lag passes -/

/-- Whatever waited for the lag when the clock was last read at a time `t` is handled by the time
    the network thread waits for a datagram and has begun the iteration a quarter of a second after
    `t`; what waited to be sent is sent half a second after `t`.  Both happen in order. -/
theorem lag_bounded (angle16 : BitVec 32 → BitVec 16) {s s' : Thread} {as : List ThreadAction}
    (h : (Thread.system angle16).Reaches ClockOk s)
    (hrun : (Thread.system angle16).runOk ClockOk as s = some s') {curtime : BitVec 64}
    {waittime : BitVec 32} (hpc : s'.pc = .wait curtime waittime) :
    (s.clock.toNat + receiveBound ≤ curtime.toNat → ∃ new, handled s'.client.netqw.trace
      = handled s.client.netqw.trace ++ new ∧
        (s.client.netqw.waiting.map Prod.snd).Sublist new) ∧
    (s.clock.toNat + sendBound ≤ curtime.toNat → ∃ new, sent s'.client.netqw.trace
      = sent s.client.netqw.trace ++ new ∧
        (s.client.netqw.sendQueue.map SendPacket.data).Sublist new) := by
  obtain ⟨htimed, -⟩ := Thread.timed_of_reaches h
  obtain ⟨-, hplace⟩ := Thread.timed_of_reaches (h.runOk hrun)
  have hlines := Thread.lines_of_run h hrun
  unfold Thread.Place at hplace
  rw [hpc] at hplace
  obtain ⟨rfl, hreceived, hsent⟩ :
    curtime = s'.clock ∧ s'.receiveLine.Drained ∧ s'.sendLine.Drained := hplace
  refine ⟨DelayLine.out_of_drained htimed.receives hlines.receives hreceived, fun hlate => ?_⟩
  obtain ⟨new, hout, hsub⟩ := DelayLine.out_of_drained htimed.sends hlines.sends hsent hlate
  have hdata : s.sendLine.queue.map Prod.snd = s.client.netqw.sendQueue.map SendPacket.data := by
    show (s.client.netqw.sendQueue.map fun p => (p.delayuntil.toNat, p.data)).map Prod.snd = _
    rw [List.map_map]
    rfl
  exact ⟨new, hout, hdata ▸ hsub⟩

/-- A new client, whose network thread enters the loop. -/
def Thread.fresh : Thread := ⟨.fresh, .head, false, 0#64, []⟩

/-- The loop up to `Sys_Net_Wait`; `n` packets are handled or sent. -/
def Thread.waits (curtime : BitVec 64) (n : Nat) : List ThreadAction :=
  .begin curtime :: List.replicate (n + 4) .next

/-- The rest of it: the datagrams that have arrived are received, and `n` packets are sent. -/
def Thread.exchanges (now : BitVec 64) (datagrams : List (List Byte)) (n : Nat) :
    List ThreadAction :=
  .next :: datagrams.map (fun datagram => .receive ⟨now, true, fun _ => 0⟩ .loopback datagram) ++
    .received :: (Client.sendRun now n).map .send

/-- The client is connected, and then has a lag of a tenth of a second.  Behind the third wait a
    packet is held back and one that arrived waits. -/
def Thread.laggedRun : List ThreadAction :=
  Thread.waits 14000#64 0 ++
    Thread.exchanges 14000#64 [NetQW.challengeDatagram (ascii "1"), NetQW.connectionDatagram] 1 ++
    [.application (.setLag 100000#32)] ++
    Thread.waits 15000#64 0 ++ Thread.exchanges 28000#64 [] 1 ++
    Thread.waits 30000#64 0 ++ Thread.exchanges 30000#64 [[1, 0, 0, 0, 0, 0, 0, 0]] 0

/-- More than half a second later both are through. -/
theorem lag_bounded_tenth : ∃ s s', (Thread.system fun _ => 0).runOk ClockOk Thread.laggedRun
    Thread.fresh = some s ∧
    (Thread.system fun _ => 0).runOk ClockOk (Thread.waits 600000#64 2) s = some s' ∧
    s.client.netqw.waiting.map Prod.snd = [[1, 0, 0, 0, 0, 0, 0, 0]] ∧
    s.client.netqw.sendQueue.length = 1 ∧
    (s.clock.toNat + receiveBound ≤ 600000 → ∃ new, handled s'.client.netqw.trace
      = handled s.client.netqw.trace ++ new ∧
        (s.client.netqw.waiting.map Prod.snd).Sublist new) ∧
    (s.clock.toNat + sendBound ≤ 600000 → ∃ new, sent s'.client.netqw.trace
      = sent s.client.netqw.trace ++ new ∧
        (s.client.netqw.sendQueue.map SendPacket.data).Sublist new) := by
  have heq : ((Thread.system fun _ => 0).runOk ClockOk Thread.laggedRun Thread.fresh >>= fun s =>
      ((Thread.system fun _ => 0).runOk ClockOk (Thread.waits 600000#64 2) s).map fun s' =>
        (s.client.netqw.waiting.map Prod.snd, s.client.netqw.sendQueue.length, s'.pc))
        = some ([[1, 0, 0, 0, 0, 0, 0, 0]], 1, .wait 600000#64 0#32) := by
    decide +kernel
  obtain ⟨s, hrun, hread⟩ := Option.bind_eq_some_iff.mp heq
  obtain ⟨s', hrun', hread⟩ := Option.map_eq_some_iff.mp hread
  simp only [Prod.mk.injEq] at hread
  obtain ⟨hwaiting, hqueue, hpc⟩ := hread
  exact ⟨s, s', hrun, hrun', hwaiting, hqueue,
    lag_bounded _ (.runOk (.init ⟨⟨_, _, _, _, rfl⟩, rfl, rfl, rfl⟩) hrun) hrun' hpc⟩

/-! ## The wait -/

/-- The wait gets no longer, and does not go past the time the packet is due. -/
theorem shorten_le {delayuntil curtime : BitVec 64} {waittime : BitVec 32} :
    (NetQW.shorten delayuntil curtime waittime).toNat ≤ waittime.toNat ∧
      (curtime < delayuntil →
        curtime.toNat + (NetQW.shorten delayuntil curtime waittime).toNat ≤ delayuntil.toNat) := by
  have hwide : (waittime.setWidth 64).toNat = waittime.toNat := by
    rw [BitVec.toNat_setWidth]
    exact Nat.mod_eq_of_lt (Nat.lt_trans waittime.isLt (by decide))
  have hdifference : curtime < delayuntil →
      (delayuntil - curtime).toNat = delayuntil.toNat - curtime.toNat := fun hlt =>
    BitVec.toNat_sub_of_le (BitVec.le_of_lt hlt)
  unfold NetQW.shorten
  split
  next hshort =>
    rw [BitVec.lt_def, hwide] at hshort
    have hcut : ((delayuntil - curtime).setWidth 32).toNat ≤ (delayuntil - curtime).toNat := by
      rw [BitVec.toNat_setWidth]
      exact Nat.mod_le _ _
    refine ⟨Nat.le_trans hcut (Nat.le_of_lt hshort), fun hlt => ?_⟩
    have hdelay := hdifference hlt
    have hless := BitVec.lt_def.mp hlt
    omega
  next hlong =>
    rw [BitVec.lt_def, hwide] at hlong
    refine ⟨Nat.le_refl _, fun hlt => ?_⟩
    have hdelay := hdifference hlt
    have hless := BitVec.lt_def.mp hlt
    omega

namespace NetQW

/-- `waittime` behind the look at the packets received. -/
def receiveWait (curtime : BitVec 64) (waittime : BitVec 32) (q : NetQW) : BitVec 32 :=
  match q.internalQueue with
  | [] => waittime
  | n :: _ => shorten (q.netpackets n).delayuntil curtime waittime

/-- `waittime` behind the look at the packets to be sent. -/
def sendWait (curtime : BitVec 64) (waittime : BitVec 32) (q : NetQW) : BitVec 32 :=
  match q.sendQueue with
  | [] => waittime
  | packet :: _ => shorten packet.delayuntil curtime waittime

theorem netWait_eq (curtime : BitVec 64) (waittime : BitVec 32) (q : NetQW) :
    q.netWait curtime waittime = if 50000#32 < q.sendWait curtime (q.receiveWait curtime waittime)
      then 50000#32 else q.sendWait curtime (q.receiveWait curtime waittime) := rfl

theorem receiveWait_le {curtime : BitVec 64} (waittime : BitVec 32) {q : NetQW}
    (hdrained : (q.receiveLine curtime).Drained) :
    (q.receiveWait curtime waittime).toNat ≤ waittime.toNat ∧
      ∀ p ∈ q.waiting.head?, curtime.toNat + (q.receiveWait curtime waittime).toNat ≤ p.1 := by
  have hdrained : ∀ p ∈ q.waiting.head?, curtime.toNat < p.1 := hdrained
  unfold waiting at hdrained ⊢
  unfold receiveWait
  generalize q.internalQueue = queue at hdrained ⊢
  cases queue with
  | nil => exact ⟨Nat.le_refl _, fun p hp => nomatch hp⟩
  | cons n rest =>
    have hlt := hdrained _ rfl
    refine ⟨shorten_le.1, fun p hp => ?_⟩
    obtain rfl := Option.some.inj hp
    exact shorten_le.2 (BitVec.lt_def.mpr hlt)

theorem sendWait_le {curtime : BitVec 64} (waittime : BitVec 32) {q : NetQW}
    {submitted : List (List Byte)} (hdrained : (q.sendLine curtime submitted).Drained) :
    (q.sendWait curtime waittime).toNat ≤ waittime.toNat ∧ ∀ p ∈ q.sendQueue.head?,
      curtime.toNat + (q.sendWait curtime waittime).toNat ≤ p.delayuntil.toNat := by
  have hdrained : ∀ p ∈ (q.sendQueue.map fun p => (p.delayuntil.toNat, p.data)).head?,
    curtime.toNat < p.1 := hdrained
  unfold sendWait
  generalize q.sendQueue = queue at hdrained ⊢
  cases queue with
  | nil => exact ⟨Nat.le_refl _, fun p hp => nomatch hp⟩
  | cons packet rest =>
    have hlt := hdrained _ rfl
    refine ⟨shorten_le.1, fun p hp => ?_⟩
    obtain rfl := Option.some.inj hp
    exact shorten_le.2 (BitVec.lt_def.mpr hlt)

end NetQW

/-- The network thread waits for a twentieth of a second at most, and never past the time at which
    the first packet of either queue is due. -/
theorem wait_bounded (angle16 : BitVec 32 → BitVec 16) {s : Thread}
    (h : (Thread.system angle16).Reaches ClockOk s) {curtime : BitVec 64} {waittime : BitVec 32}
    (hpc : s.pc = .wait curtime waittime) :
    (s.client.netqw.netWait curtime waittime).toNat ≤ 50000 ∧
      (∀ p ∈ s.client.netqw.waiting.head?,
        curtime.toNat + (s.client.netqw.netWait curtime waittime).toNat ≤ p.1) ∧
      ∀ p ∈ s.client.netqw.sendQueue.head?,
        curtime.toNat + (s.client.netqw.netWait curtime waittime).toNat ≤ p.delayuntil.toNat := by
  obtain ⟨-, hplace⟩ := Thread.timed_of_reaches h
  unfold Thread.Place at hplace
  rw [hpc] at hplace
  obtain ⟨rfl, hreceived, hsent⟩ :
    curtime = s.clock ∧ s.receiveLine.Drained ∧ s.sendLine.Drained := hplace
  obtain ⟨-, hreceive⟩ := NetQW.receiveWait_le waittime hreceived
  obtain ⟨hless, hsend⟩ :=
    NetQW.sendWait_le (s.client.netqw.receiveWait s.clock waittime) hsent
  have hcap : ∀ w : BitVec 32, (if 50000#32 < w then 50000#32 else w).toNat ≤ w.toNat ∧
      (if 50000#32 < w then 50000#32 else w).toNat ≤ 50000 := by
    intro w
    split
    next hlt => exact ⟨Nat.le_of_lt (BitVec.lt_def.mp hlt), Nat.le_refl _⟩
    next hlt => exact ⟨Nat.le_refl _, Nat.not_lt.mp fun hless => hlt (BitVec.lt_def.mpr hless)⟩
  obtain ⟨hle, htwentieth⟩ := hcap (s.client.netqw.sendWait s.clock
    (s.client.netqw.receiveWait s.clock waittime))
  rw [NetQW.netWait_eq]
  refine ⟨htwentieth, fun p hp => ?_, fun p hp => ?_⟩
  · have hfirst := hreceive p hp
    omega
  · have hfirst := hsend p hp
    omega

/-- The client waits two milliseconds for the next frame, while both queues wait longer. -/
theorem wait_bounded_frame : ∃ s, (Thread.system fun _ => 0).runOk ClockOk
    (Thread.laggedRun ++ Thread.waits 40000#64 0) Thread.fresh = some s ∧
    s.client.netqw.waiting.map Prod.fst = [80000] ∧ s.client.netqw.sendQueue.length = 1 ∧
    s.client.netqw.netWait 40000#64 2000#32 = 2000#32 ∧
    (s.client.netqw.netWait 40000#64 2000#32).toNat ≤ 50000 ∧
      (∀ p ∈ s.client.netqw.waiting.head?,
        (40000#64).toNat + (s.client.netqw.netWait 40000#64 2000#32).toNat ≤ p.1) ∧
      ∀ p ∈ s.client.netqw.sendQueue.head?,
        (40000#64).toNat + (s.client.netqw.netWait 40000#64 2000#32).toNat
          ≤ p.delayuntil.toNat := by
  have heq : ((Thread.system fun _ => 0).runOk ClockOk
      (Thread.laggedRun ++ Thread.waits 40000#64 0) Thread.fresh).map (fun s =>
        (s.client.netqw.waiting.map Prod.fst, s.client.netqw.sendQueue.length,
          s.client.netqw.netWait 40000#64 2000#32, s.pc))
        = some ([80000], 1, 2000#32, .wait 40000#64 2000#32) := by
    decide +kernel
  obtain ⟨s, hrun, hread⟩ := Option.map_eq_some_iff.mp heq
  simp only [Prod.mk.injEq] at hread
  obtain ⟨hwaiting, hqueue, hwait, hpc⟩ := hread
  exact ⟨s, hrun, hwaiting, hqueue, hwait,
    wait_bounded _ (.runOk (.init ⟨⟨_, _, _, _, rfl⟩, rfl, rfl, rfl⟩) hrun) hpc⟩

/-! ## What is sent -/

/-- The action of `NetQW_Thread_DoSend`. -/
def ThreadAction.sends? : ThreadAction → Option Action
  | .send a => some a
  | _ => none

/-- While datagrams are held back, so is the one that is handed over. -/
def OrderOk (a : ThreadAction) (s : Thread) : Prop :=
  ∀ b ∈ a.sends?, s.client.netqw.sendQueue.isEmpty = false → s.client.submits b ≠ [] →
    b.ofDoSend = true ∧ s.client.netqw.lag ≠ 0#32

instance (a : ThreadAction) (s : Thread) : Decidable (OrderOk a s) :=
  inferInstanceAs (Decidable (∀ b ∈ a.sends?, _ → _ → _))

namespace Thread

variable {angle16 : BitVec 32 → BitVec 16} {s s' : Thread}

/-- A sanity check changes the times only. -/
theorem sendLine_clampSends (q : NetQW) (curtime clock : BitVec 64) (submitted : List (List Byte)) :
    ((q.clampSends curtime).sendLine clock submitted).out = (q.sendLine clock submitted).out ∧
      ((q.clampSends curtime).sendLine clock submitted).queue.map Prod.snd
        = (q.sendLine clock submitted).queue.map Prod.snd := by
  unfold NetQW.clampSends
  split
  · exact ⟨rfl, rfl⟩
  · split
    · refine ⟨rfl, ?_⟩
      unfold NetQW.sendLine
      dsimp only
      rw [List.map_map, List.map_map, List.map_map]
      rfl
    · exact ⟨rfl, rfl⟩

/-- A datagram that waits keeps those behind it waiting. -/
theorem sent_submitPacket {c c' : Client} {env : NetQW.SendEnv} (hlag : c.netqw.lag ≠ 0#32)
    (h : c.submitPacket env = some c') : sent c'.netqw.trace = sent c.netqw.trace := by
  obtain ⟨buf, reliable, -, rfl⟩ := Client.submitPacket_spec h
  have hlog : sent (c.netqw.trace ++ [.sendPacket buf reliable]) = sent c.netqw.trace := by
    simp [sent]
  show sent (NetQW.submitPacket env buf reliable c.netqw).trace = _
  unfold NetQW.submitPacket
  rw [sendPacket_eq]
  cases (c.netqw.log [.sendPacket buf reliable]).datagram? env buf with
  | none => exact hlog
  | some data =>
    have hlag' : (c.netqw.log [.sendPacket buf reliable]).lag ≠ 0#32 := hlag
    unfold NetQW.passOn
    dsimp only
    rw [if_pos hlag']
    exact hlog

/-- What a step of the client does to the datagrams, whatever the clock shows. -/
theorem act_sendLine (hlag : s.client.netqw.lag ≤ 500000#32) {b : Action} {pc : Client → ThreadPc}
    (hact : s.act angle16 b pc = some s') :
    (s'.sendLine.out = s.sendLine.out ∧ s'.sendLine.submitted = s.sendLine.submitted ∧
      s'.sendLine.queue.map Prod.snd = s.sendLine.queue.map Prod.snd) ∨
    ∃ clock, DelayLine.Step sendBound (s.client.netqw.sendLine clock s.submitted)
      (s'.client.netqw.sendLine clock s'.submitted) := by
  obtain ⟨c, hc, rfl⟩ := act_spec hact
  by_cases hclamp : ∃ t, b = .clampSends t
  · obtain ⟨t, rfl⟩ := hclamp
    obtain ⟨-, rfl⟩ := Client.outside_total (f := NetQW.clampSends t) hc
    obtain ⟨hout, hqueue⟩ := sendLine_clampSends s.client.netqw t s.clock s.submitted
    exact .inl ⟨hout, List.append_nil _, hqueue⟩
  · have hcurtime : ∀ t ∈ b.curtime?, t = b.curtime?.getD 0#64 := by
      intro t ht
      rw [Option.mem_def.mp ht]
      rfl
    rcases Client.step_sendLine s.submitted hlag hcurtime
      (fun t ht => absurd ⟨t, ht⟩ hclamp) hc with heq | hstep
    · have hout := congrArg DelayLine.out heq
      have hsubmitted := congrArg DelayLine.submitted heq
      have hqueue := congrArg (fun l : DelayLine (List Byte) => l.queue.map Prod.snd) heq
      exact .inl ⟨hout, hsubmitted, hqueue⟩
    · exact .inr ⟨_, hstep⟩

theorem conserved_of_reachable (h : (system angle16).Reachable s) : s.sendLine.Conserved := by
  have hinit : ∀ s, (system angle16).Init s → s.sendLine.Conserved := by
    rintro ⟨client, pc, quit, clock, submitted⟩
      ⟨⟨garbage, qport, userinfo, addr, rfl⟩, rfl, rfl, rfl⟩
    exact List.Perm.refl []
  refine h.invariant_of (fun s hs => client_reachable (s := s) hs) hinit fun _ s s' hreachable hs _ hstep => ?_
  rcases step_client hstep with ⟨hclient, hsubmitted, -⟩ | ⟨b, pc, -, hact⟩
  · unfold DelayLine.Conserved sendLine at hs ⊢
    rw [hclient, hsubmitted]
    exact hs
  · rcases act_sendLine (Client.lag_le hreachable) hact with ⟨hout, hsubmitted, hqueue⟩ |
      ⟨clock, hline⟩
    · unfold DelayLine.Conserved at hs ⊢
      rw [hout, hsubmitted, hqueue]
      exact hs
    · have hs' : (s.client.netqw.sendLine clock s.submitted).Conserved := hs
      have hnew : (s'.client.netqw.sendLine clock s'.submitted).Conserved := hs'.step hline
      exact hnew

/-- A step that meets the condition lets nothing out past the queue. -/
theorem orderly_of_orderOk {b : Action} {pc : Client → ThreadPc} {t : ThreadAction}
    (hok : OrderOk t s) (ht : t = .send b ∨ s.client.submits b = [])
    (hact : s.act angle16 b pc = some s') (clock : BitVec 64) :
    DelayLine.Orderly (s.client.netqw.sendLine clock s.submitted)
      (s'.client.netqw.sendLine clock s'.submitted) := by
  obtain ⟨c, hc, rfl⟩ := act_spec hact
  intro hmore
  by_cases hnone : s.client.submits b = []
  · refine absurd ?_ hmore
    show s.submitted ++ s.client.submits b = s.submitted
    rw [hnone, List.append_nil]
  · obtain rfl := ht.resolve_right hnone
    cases hempty : s.client.netqw.sendQueue with
    | nil =>
      right
      unfold NetQW.sendLine
      rw [hempty]
      rfl
    | cons packet rest =>
      obtain ⟨hdoSend, hlag⟩ := hok b rfl (by rw [hempty]; rfl) hnone
      left
      cases b
      case submitPacket env => exact sent_submitPacket hlag hc
      case beginSend curtime stack => exact Bool.noConfusion hdoSend
      all_goals exact absurd rfl hnone

theorem inOrder_of_reaches (h : (system angle16).Reaches OrderOk s) : s.sendLine.InOrder := by
  have hinit : ∀ s, (system angle16).Init s → s.sendLine.InOrder := by
    rintro ⟨client, pc, quit, clock, submitted⟩
      ⟨⟨garbage, qport, userinfo, addr, rfl⟩, rfl, rfl, rfl⟩
    rfl
  refine h.invariant_of (fun s hs => client_reachable (s := s) hs) hinit fun a s s' hreachable hs hok hstep => ?_
  rcases step_client hstep with ⟨hclient, hsubmitted, -⟩ | ⟨b, pc, hperforms, hact⟩
  · unfold DelayLine.InOrder sendLine at hs ⊢
    rw [hclient, hsubmitted]
    exact hs
  · rcases act_sendLine (Client.lag_le hreachable) hact with ⟨hout, hsubmitted, hqueue⟩ |
      ⟨clock, hline⟩
    · unfold DelayLine.InOrder at hs ⊢
      rw [hout, hsubmitted, hqueue]
      exact hs
    · have hs' : (s.client.netqw.sendLine clock s.submitted).InOrder := hs
      have hnew : (s'.client.netqw.sendLine clock s'.submitted).InOrder :=
        hs'.step hline (orderly_of_orderOk hok hperforms.submits hact clock)
      exact hnew

end Thread

/-- Every datagram that is handed over to be sent is sent or held back, each of them once; and in
    this order, unless one is handed over past those that are held back. -/
theorem sends_conserved (angle16 : BitVec 32 → BitVec 16) {s : Thread}
    (h : (Thread.system angle16).Reachable s) :
    (sent s.client.netqw.trace ++ s.client.netqw.sendQueue.map SendPacket.data).Perm s.submitted ∧
      ((Thread.system angle16).Reaches OrderOk s →
        sent s.client.netqw.trace ++ s.client.netqw.sendQueue.map SendPacket.data
          = s.submitted) := by
  have hdata : s.sendLine.queue.map Prod.snd = s.client.netqw.sendQueue.map SendPacket.data := by
    show (s.client.netqw.sendQueue.map fun p => (p.delayuntil.toNat, p.data)).map Prod.snd = _
    rw [List.map_map]
    rfl
  refine ⟨hdata ▸ Thread.conserved_of_reachable h, fun horder => ?_⟩
  exact hdata ▸ Thread.inOrder_of_reaches horder

/-- One datagram is sent, and the second is held back. -/
theorem sends_conserved_lagged : ∃ s, (Thread.system fun _ => 0).runOk OrderOk Thread.laggedRun
    Thread.fresh = some s ∧
    (sent s.client.netqw.trace).length = 1 ∧ s.client.netqw.sendQueue.length = 1 ∧
    (sent s.client.netqw.trace ++ s.client.netqw.sendQueue.map SendPacket.data).Perm s.submitted ∧
    sent s.client.netqw.trace ++ s.client.netqw.sendQueue.map SendPacket.data = s.submitted := by
  have heq : ((Thread.system fun _ => 0).runOk OrderOk Thread.laggedRun Thread.fresh).map (fun s =>
      ((sent s.client.netqw.trace).length, s.client.netqw.sendQueue.length)) = some (1, 1) := by
    decide +kernel
  obtain ⟨s, hrun, hread⟩ := Option.map_eq_some_iff.mp heq
  simp only [Prod.mk.injEq] at hread
  obtain ⟨hsent, hqueue⟩ := hread
  have hreaches : (Thread.system fun _ => 0).Reaches OrderOk s :=
    .runOk (.init ⟨⟨_, _, _, _, rfl⟩, rfl, rfl, rfl⟩) hrun
  obtain ⟨hconserved, horder⟩ := sends_conserved _ hreaches.reachable
  exact ⟨s, hrun, hsent, hqueue, hconserved, horder hreaches⟩

end QwNet
