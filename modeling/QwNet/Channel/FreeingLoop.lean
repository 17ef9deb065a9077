/-
  QwNet.Channel.FreeingLoop

  Commands that are appended while others are freed.

  `NetQW_Thread_HandleReceivedPacket` takes the commands that have arrived off the queue
  one by one and repairs the tail when it is done, all without the mutex that
  `NetQW_AppendReliableBuffer` holds.  Here each turn of the loop and the repair is a
  step of its own, in whatever system the client is part of.

  What else the call does is done when the loop begins.  The packet is then in the
  queue for the client already, into which the source links it behind the loop; so the
  runs here are those of the source and some more.
-/
import QwNet.Channel.ClientPacket
import QwNet.Channel.ReliableQueue

namespace QwNet

open LinkedQueue

/-- The commands that were appended, oldest first. -/
def appendedBuffers (trace : List NetEvent) : List ReliableBuffer :=
  trace.filterMap NetEvent.appendBuffer?

/-- The commands that were freed, oldest first. -/
def freedBuffers (trace : List NetEvent) : List ReliableBuffer :=
  trace.filterMap NetEvent.freeBuffer?

/-! ## What a step does to the queue -/

/-- A step of the network thread or of another one, which may append a command, adds to the commands
    that wait, or it frees some at the head; no more is said to be sent than there is. -/
inductive NetQW.FreedStep (network : Bool) (appended : Option ReliableBuffer) (q q' : NetQW) : Prop
    where
  | stays (b : Option ReliableBuffer) (hqueue : q'.reliableQueue = q.reliableQueue ++ b.toList)
      (hfreed : freedBuffers q'.trace = freedBuffers q.trace)
      (hb : network = false → b = appended)
      (hsent : q'.reliableBuffersSent = q.reliableBuffersSent ∨
        network = true ∧ q'.reliableBuffersSent.toNat ≤ q.reliableQueue.length)
  | frees (n : Nat) (hn : n ≤ q.reliableQueue.length) (hnetwork : network = true)
      (hqueue : q'.reliableQueue = q.reliableQueue.drop n)
      (hfreed : freedBuffers q'.trace = freedBuffers q.trace ++ q.reliableQueue.take n)
      (hsent : q'.reliableBuffersSent = 0#32)

section

variable {angle16 : BitVec 32 → BitVec 16} {a : Action} {c c' : Client}

/-- The other threads leave the network thread where it is. -/
theorem Client.pc_of_step (ha : a.ofNetworkThread = false) (h : Client.step angle16 a c = some c') :
    c'.pc = c.pc := by
  cases a
  case generate | freePacket =>
    obtain ⟨q, -, rfl⟩ := Option.map_eq_some_iff.mp h
    rfl
  case setFPS | append | copyFrames | setDeltaPoint | setTeleport | setMovementLocked | setLag
      | setLagEzcheat =>
    obtain rfl := Option.some.inj h
    rfl
  all_goals exact Bool.noConfusion ha

theorem appendedBuffers_concat (trace : List NetEvent) (e : NetEvent) :
    appendedBuffers (trace ++ [e]) = appendedBuffers trace ++ e.appendBuffer?.toList := by
  rw [appendedBuffers, List.filterMap_append, History.filterMap_singleton]
  rfl

theorem freedBuffers_log (trace : List NetEvent) {e : NetEvent} (he : e.freeBuffer? = none) :
    freedBuffers (trace ++ [e]) = freedBuffers trace := by
  rw [freedBuffers, List.filterMap_append, List.filterMap_cons_none he, List.filterMap_nil,
    List.append_nil]
  rfl

theorem Action.appended?_of_ofNetworkThread (ha : a.ofNetworkThread = true) :
    a.appended? = none := by
  cases a
  case append => exact Bool.noConfusion ha
  all_goals rfl

/-- The queue stays as it is. -/
theorem NetQW.FreedStep.same {network : Bool} {q q' : NetQW}
    (hqueue : q'.reliableQueue = q.reliableQueue)
    (hfreed : freedBuffers q'.trace = freedBuffers q.trace)
    (hsent : q'.reliableBuffersSent = q.reliableBuffersSent ∨
      network = true ∧ q'.reliableBuffersSent.toNat ≤ q.reliableQueue.length) :
    FreedStep network none q q' := by
  refine .stays none ?_ hfreed (fun _ => rfl) hsent
  rw [hqueue]
  exact (List.append_nil _).symm

/-- What is remembered is a beginning of the queue. -/
theorem NetQW.sent_rememberReliables (i : Nat) (q : NetQW) :
    (q.rememberReliables i).reliableBuffersSent = q.reliableBuffersSent ∨
      (q.rememberReliables i).reliableBuffersSent.toNat ≤ q.reliableQueue.length := by
  unfold NetQW.rememberReliables
  split
  · right
    show (BitVec.ofNat 32 (q.reliables i).length).toNat ≤ _
    rw [BitVec.toNat_ofNat]
    exact Nat.le_trans (Nat.mod_le _ _) (reliables_prefix_queue q i).length_le
  · exact .inl rfl

/-- A packet that is handled frees the commands that it acknowledges, if they are there. -/
theorem NetQW.FreedStep.of_handles {data : List Byte} {q q' : NetQW} (h : Handles data q q')
    (hle : q.reliableBuffersSent.toNat ≤ q.reliableQueue.length) : FreedStep true none q q' := by
  have hevents : freedBuffers q'.trace = freedBuffers q.trace
      ++ (q.reliability.settleEvents data).filterMap NetEvent.freeBuffer? :=
    h.filterMap (fun _ => NetEvent.freeBuffer?_silent) rfl
  have hqueue : q'.reliableQueue = (q.reliability.settle data).queue :=
    congrArg Reliability.queue h.view
  have hsent : q'.reliableBuffersSent = (q.reliability.settle data).sent :=
    congrArg Reliability.sent h.view
  rcases q.reliability.settle_cases data with ⟨-, -, hview, hes⟩ | ⟨-, -, hview, hes⟩ |
    ⟨-, hview, hes⟩
  · -- lost
    rw [hview] at hqueue hsent
    rw [hes] at hevents
    refine .same hqueue (hevents.trans (List.append_nil _)) (.inr ⟨rfl, ?_⟩)
    rw [hsent]
    exact Nat.zero_le _
  · -- they have arrived, and there are as many as are said to be sent
    have hlong : ¬q.reliability.queue.length < q.reliability.sent.toNat := Nat.not_lt.mpr hle
    rw [hview] at hqueue hsent
    rw [if_neg hlong, List.append_nil] at hes
    rw [hes, List.filterMap_map] at hevents
    exact .frees _ hle rfl hqueue (hevents.trans (congrArg _ List.filterMap_some)) hsent
  · rw [hview] at hqueue hsent
    rw [hes] at hevents
    exact .same hqueue (hevents.trans (List.append_nil _)) (.inl hsent)

theorem Client.freed_step (h : Client.step angle16 a c = some c')
    (hle : c.netqw.reliableBuffersSent.toNat ≤ c.netqw.reliableQueue.length) :
    NetQW.FreedStep a.ofNetworkThread a.appended? c.netqw c'.netqw := by
  have hsilent : ∀ {q : NetQW}, ReliableSilent q c'.netqw →
      freedBuffers c'.netqw.trace = freedBuffers q.trace :=
    fun hkeeps => hkeeps.filterMap fun _ => NetEvent.freeBuffer?_silent
  -- only the network thread moves
  have hmoves : c'.pc ≠ c.pc → a.ofNetworkThread = true ∧ a.appended? = none := by
    intro hpc
    have hnetwork : a.ofNetworkThread = true := by
      refine (Bool.eq_false_or_eq_true _).resolve_right fun ha => hpc (pc_of_step ha h)
    exact ⟨hnetwork, a.appended?_of_ofNetworkThread hnetwork⟩
  cases step_reliable h with
  | silent hkeeps =>
    have hqueue : c'.netqw.reliableQueue = c.netqw.reliableQueue :=
      congrArg Reliability.queue hkeeps.view
    have hnone : a.appended? = none := by
      cases a
      case append b =>
        obtain rfl := Option.some.inj h
        exact absurd (List.append_right_eq_self.mp hqueue) (List.cons_ne_nil _ _)
      all_goals rfl
    rw [hnone]
    exact .same hqueue (hsilent hkeeps) (.inl (congrArg Reliability.sent hkeeps.view))
  | append b hview htrace hpc hb =>
    refine .stays (some b) (congrArg Reliability.queue hview) ?_ (fun hnetwork => ?_)
      (.inl (congrArg Reliability.sent hview))
    · rw [htrace]
      exact freedBuffers_log _ rfl
    · rcases hb with rfl | ⟨ha, -⟩
      · rfl
      · exact Bool.noConfusion (ha.symm.trans hnetwork)
  | handle data hdata hpc hpc' hhandles =>
    have hnetwork : a.ofNetworkThread = true ∧ a.appended? = none := by
      cases a
      case receive | handleDelayed => exact ⟨rfl, rfl⟩
      all_goals exact absurd hdata.symm (Option.some_ne_none _)
    rw [hnetwork.1, hnetwork.2]
    exact .of_handles hhandles hle
  | remember buf hpc heq =>
    obtain ⟨hnetwork, hnone⟩ := hmoves (by rw [heq, hpc]; exact SendPc.noConfusion)
    have hsent := c.netqw.sent_rememberReliables buf.length
    rw [heq, hnone]
    exact .same (by simp) (by simp) (hsent.imp_right fun h => ⟨hnetwork, h⟩)
  | submit buf reliable hpc hpc' hkeeps =>
    obtain ⟨-, hnone⟩ := hmoves (by rw [hpc, hpc']; exact SendPc.noConfusion)
    rw [hnone]
    exact .same (congrArg Reliability.queue hkeeps.view)
      ((hsilent hkeeps).trans (freedBuffers_log _ rfl)) (.inl (congrArg Reliability.sent hkeeps.view))
  | finish hpc heq =>
    obtain ⟨-, hnone⟩ := hmoves (by rw [heq, hpc]; exact SendPc.noConfusion)
    rw [heq, hnone]
    exact .same rfl (freedBuffers_log _ rfl) (.inl rfl)

end

/-! ## The loop and the other threads -/

/-- The commands that were lost are on no list. -/
def NetQW.loseReliables (q : NetQW) : NetQW := { q with reliableQueue := [] }

/-- A system that the client is part of. -/
structure Host (angle16 : BitVec 32 → BitVec 16) (σ α : Type) where
  system : Transitions σ α
  client : σ → Client
  /-- The object of the client is written to. -/
  update : (NetQW → NetQW) → σ → σ
  /-- Whether a step is one of the network thread. -/
  ofNetworkThread : α → Bool
  /-- The command that another thread appends with a step. -/
  appended? : α → σ → Option ReliableBuffer
  init : ∀ s, system.Init s → Client.Init (client s)
  client_update : ∀ f s, client (update f s) = (client s).update f
  /-- A step is one of the client, or leaves it alone. -/
  step : ∀ {a s s'}, system.step a s = some s' →
    (client s' = client s ∧ appended? a s = none) ∨
    ∃ b, Client.step angle16 b (client s) = some (client s') ∧ b.appended? = appended? a s ∧
      (b.ofNetworkThread = true → ofNetworkThread a = true)

/-- Where the network thread is: outside the loop, or in it with these commands still to be freed.
    When none is left the tail has yet to be repaired. -/
inductive FreePc where
  | outside
  | freeing (bs : List ReliableBuffer)

/-- The system, the place of the network thread, and the commands that it has freed.  The queue of
    `base` is what is behind the commands still to be freed. -/
structure Racing (σ : Type) where
  base : σ
  pc : FreePc
  freed : List ReliableBuffer

/-- A step of the system, or of the network thread in the loop.  A turn of the loop counts from its
    reading of the `next` pointer; what it does then no other thread looks at. -/
inductive RacingAction (α : Type) where
  | base (a : α)
  | free
  | repair

namespace Racing

section

variable {angle16 : BitVec 32 → BitVec 16} {σ α : Type} (host : Host angle16 σ α)

/-- The commands that the loop has still to free. -/
def unfreed (s : Racing σ) : List ReliableBuffer :=
  match s.pc with
  | .outside => []
  | .freeing bs => bs

/-- The commands behind them. -/
def behind (s : Racing σ) : List ReliableBuffer := (host.client s.base).netqw.reliableQueue

/-- The commands from `reliablebufferhead` on. -/
def queue (s : Racing σ) : List ReliableBuffer := s.unfreed ++ s.behind host

/-- The loop has read the last `next` pointer, which was null, and `reliablebuffertail` points to
    the command that is freed. -/
def Dangling (s : Racing σ) : Prop :=
  match s.pc with
  | .freeing [] => s.behind host = []
  | .freeing (_ :: _) | .outside => False

instance (s : Racing σ) : Decidable (s.Dangling host) :=
  match s with
  | ⟨base, .freeing [], freed⟩ =>
    decidable_of_iff ((behind host ⟨base, .freeing [], freed⟩).isEmpty = true) List.isEmpty_iff
  | ⟨_, .freeing (_ :: _), _⟩ | ⟨_, .outside, _⟩ => instDecidableFalse

/-- The loop begins if the step of the network thread has taken commands off the queue. -/
def enter (base : σ) (s : Racing σ) : Racing σ :=
  let left := (host.client base).netqw.reliableQueue
  { s with
    base := base
    pc :=
      match (s.behind host).take ((s.behind host).length - left.length) with
      | [] => .outside
      | b :: bs => .freeing (b :: bs) }

/-- What another thread does while the network thread is in the loop.  A command that is linked
    behind one that is freed is lost. -/
def meanwhile (a : α) (s : Racing σ) : Option (Racing σ) :=
  if host.ofNetworkThread a then none
  else
    (host.system.step a s.base).map fun base => { s with
      base :=
        if s.Dangling host ∧ host.appended? a s.base ≠ none then
          host.update NetQW.loseReliables base
        else base }

/-- What an action does; `none` where it is not possible. -/
def step (a : RacingAction α) (s : Racing σ) : Option (Racing σ) :=
  match a, s.pc with
  | .base a, .outside => (host.system.step a s.base).map fun base => s.enter host base
  | .base a, .freeing _ => s.meanwhile host a
  | .free, .freeing (b :: bs) => some { s with pc := .freeing bs, freed := s.freed ++ [b] }
  | .repair, .freeing [] => some { s with pc := .outside }
  | .free, .freeing [] | .free, .outside => none
  | .repair, .freeing (_ :: _) | .repair, .outside => none

/-- Nothing was freed. -/
def system : Transitions (Racing σ) (RacingAction α) where
  Init s := host.system.Init s.base ∧ s.pc = .outside ∧ s.freed = []
  step := step host

end

end Racing

/-- A step of the system meets `ok`, and no command is appended while the tail is dangling. -/
def RacingOk {angle16 : BitVec 32 → BitVec 16} {σ α : Type} (host : Host angle16 σ α)
    (ok : α → σ → Prop) (a : RacingAction α) (s : Racing σ) : Prop :=
  match a with
  | .base a => ok a s.base ∧ (s.Dangling host → host.appended? a s.base = none)
  | .free | .repair => True

instance {angle16 : BitVec 32 → BitVec 16} {σ α : Type} (host : Host angle16 σ α)
    (ok : α → σ → Prop) [∀ a s, Decidable (ok a s)] (a : RacingAction α) (s : Racing σ) :
    Decidable (RacingOk host ok a s) :=
  match a with
  | .base a =>
    inferInstanceAs (Decidable (ok a s.base ∧ (s.Dangling host → host.appended? a s.base = none)))
  | .free | .repair => instDecidableTrue

/-! ## What a step of the loop can do -/

section

variable {angle16 : BitVec 32 → BitVec 16} {σ α : Type} {host : Host angle16 σ α}

/-- A step of the host does to the commands what one of the client does. -/
theorem Host.freed_step {a : α} {s s' : σ} (h : host.system.step a s = some s')
    (hle : (host.client s).netqw.reliableBuffersSent.toNat
      ≤ (host.client s).netqw.reliableQueue.length) :
    NetQW.FreedStep (host.ofNetworkThread a) (host.appended? a s) (host.client s).netqw
      (host.client s').netqw := by
  rcases host.step h with ⟨hclient, hnone⟩ | ⟨b, hstep, happended, hnetwork⟩
  · rw [hclient, hnone]
    exact .same rfl rfl (.inl rfl)
  · rw [← happended]
    cases Client.freed_step hstep hle with
    | stays b hqueue hfreed hb hsent =>
      refine .stays b hqueue hfreed (fun ha => hb ?_) (hsent.imp_right fun h => ⟨hnetwork h.1, h.2⟩)
      exact (Bool.eq_false_or_eq_true _).resolve_left fun hb => by
        rw [hnetwork hb] at ha
        exact Bool.noConfusion ha
    | frees n hn hb hqueue hfreed hsent => exact .frees n hn (hnetwork hb) hqueue hfreed hsent

/-- No more is said to be sent than there is, and nothing in the loop. -/
structure Racing.Sound (host : Host angle16 σ α) (s : Racing σ) : Prop where
  sent_le : (host.client s.base).netqw.reliableBuffersSent.toNat ≤ (s.behind host).length
  settled : s.pc ≠ .outside → (host.client s.base).netqw.reliableBuffersSent = 0#32

/-- All that a step can do. -/
inductive Racing.Step (host : Host angle16 σ α) (a : RacingAction α) (s s' : Racing σ) : Prop where
  /-- A command is appended or none is, and none while the tail is dangling. -/
  | stays (x : α) (b : Option ReliableBuffer) (ha : a = .base x)
      (hstep : host.system.step x s.base = some s'.base) (hpc : s'.pc = s.pc)
      (hfreed : s'.freed = s.freed) (hbehind : s'.behind host = s.behind host ++ b.toList)
      (htrace : freedBuffers (host.client s'.base).netqw.trace
        = freedBuffers (host.client s.base).netqw.trace)
      (hdangling : s.Dangling host → b = none)
  /-- The loop begins. -/
  | begins (x : α) (bs : List ReliableBuffer) (ha : a = .base x)
      (hstep : host.system.step x s.base = some s'.base) (hpc : s.pc = .outside)
      (hunfreed : s'.unfreed = bs) (hdangling : ¬s'.Dangling host) (hfreed : s'.freed = s.freed)
      (hbehind : s.behind host = bs ++ s'.behind host)
      (htrace : freedBuffers (host.client s'.base).netqw.trace
        = freedBuffers (host.client s.base).netqw.trace ++ bs)
  /-- A command is lost. -/
  | loses (x : α) (b : ReliableBuffer) (ha : a = .base x) (hdangling : s.Dangling host)
      (hb : host.appended? x s.base = some b) (hpc : s'.pc = s.pc) (hbehind : s'.behind host = [])
  | frees (b : ReliableBuffer) (bs : List ReliableBuffer) (ha : a = .free)
      (hpc : s.pc = .freeing (b :: bs))
      (heq : s' = { s with pc := .freeing bs, freed := s.freed ++ [b] })
  | repairs (ha : a = .repair) (hpc : s.pc = .freeing []) (heq : s' = { s with pc := .outside })

namespace Racing

variable {s s' : Racing σ}

theorem dangling_iff : s.Dangling host ↔ s.pc = .freeing [] ∧ s.behind host = [] := by
  unfold Dangling
  split
  next h => rw [h, and_iff_right rfl]
  next h => rw [h]; exact iff_of_false id nofun
  next h => rw [h]; exact iff_of_false id nofun

theorem enter_spec {base : σ} {bs : List ReliableBuffer} (hbs : (s.behind host).take
      ((s.behind host).length - (host.client base).netqw.reliableQueue.length) = bs) :
    (s.enter host base).unfreed = bs ∧ ¬(s.enter host base).Dangling host ∧
      (bs = [] → (s.enter host base).pc = .outside) := by
  rw [dangling_iff]
  unfold enter unfreed
  dsimp only
  rw [hbs]
  cases bs with
  | nil => exact ⟨rfl, fun h => FreePc.noConfusion h.1, fun _ => rfl⟩
  | cons b bs =>
    have hne : FreePc.freeing (b :: bs) ≠ .freeing [] := fun h =>
      List.cons_ne_nil b bs (FreePc.freeing.inj h)
    exact ⟨rfl, fun h => hne h.1, fun h => absurd h (List.cons_ne_nil b bs)⟩

/-- A step outside the loop, with which the loop may begin. -/
theorem step_enter (hs : s.Sound host) (hpc : s.pc = .outside) {x : α} {base : σ}
    (h : host.system.step x s.base = some base) :
    Step host (.base x) s (s.enter host base) ∧ (s.enter host base).Sound host := by
  have hbehind : (s.enter host base).behind host = (host.client base).netqw.reliableQueue := rfl
  cases Host.freed_step h hs.sent_le with
  | stays b hqueue hfreed hb hsent =>
    have hnone : (s.behind host).take
        ((s.behind host).length - (host.client base).netqw.reliableQueue.length) = [] := by
      rw [hqueue, List.length_append, behind, Nat.sub_eq_zero_of_le (Nat.le_add_right _ _)]
      exact List.take_zero
    have hpc' : (s.enter host base).pc = .outside := (enter_spec hnone).2.2 rfl
    refine ⟨.stays x b rfl h (hpc'.trans hpc.symm) rfl hqueue hfreed fun hdangling => ?_, ?_, ?_⟩
    · exact FreePc.noConfusion (hpc.symm.trans (dangling_iff.mp hdangling).1)
    · rw [hbehind, hqueue, List.length_append]
      refine Nat.le_add_right_of_le ?_
      rcases hsent with hsent | ⟨-, hle⟩
      · exact hsent ▸ hs.sent_le
      · exact hle
    · exact fun hne => absurd hpc' hne
  | frees n hn _ hqueue hfreed hsent =>
    have hall : (s.behind host).take
        ((s.behind host).length - (host.client base).netqw.reliableQueue.length)
          = (s.behind host).take n := by
      rw [hqueue, List.length_drop, behind, Nat.sub_sub_self hn]
    obtain ⟨hunfreed, hdangling, -⟩ := enter_spec hall
    refine ⟨.begins x _ rfl h hpc hunfreed hdangling rfl ?_ hfreed, ?_, fun _ => hsent⟩
    · rw [hbehind, hqueue]
      exact (List.take_append_drop _ _).symm
    · show (host.client base).netqw.reliableBuffersSent.toNat ≤ _
      rw [hsent]
      exact Nat.zero_le _

theorem step_meanwhile (hs : s.Sound host) {bs : List ReliableBuffer} (hpc : s.pc = .freeing bs)
    {x : α} (h : s.meanwhile host x = some s') : Step host (.base x) s s' ∧ s'.Sound host := by
  unfold meanwhile at h
  obtain ⟨hothers, h⟩ := Option.ite_none_left_eq_some.mp h
  have hnetwork : host.ofNetworkThread x = false := Bool.eq_false_iff.mpr hothers
  obtain ⟨base, hbase, rfl⟩ := Option.map_eq_some_iff.mp h
  have hsettled := hs.settled (hpc ▸ FreePc.noConfusion)
  cases Host.freed_step hbase hs.sent_le with
  | frees _ _ ha => exact absurd ha hothers
  | stays b hqueue hfreed hb hsent =>
    have hsent' : (host.client base).netqw.reliableBuffersSent = 0#32 :=
      (hsent.resolve_right fun h => hothers h.1).trans hsettled
    have hzero : ∀ n, (0#32 : BitVec 32).toNat ≤ n := Nat.zero_le
    split
    next hlost =>
      obtain ⟨hdangling, happended⟩ := hlost
      obtain ⟨b', hb'⟩ := Option.ne_none_iff_exists'.mp happended
      have hclient := host.client_update NetQW.loseReliables base
      have hzero' : (host.client (host.update NetQW.loseReliables base)).netqw.reliableBuffersSent
          = 0#32 := by
        rw [hclient]
        exact hsent'
      refine ⟨.loses x b' rfl hdangling hb' rfl ?_, ?_, fun _ => hzero'⟩
      · show (host.client (host.update NetQW.loseReliables base)).netqw.reliableQueue = []
        rw [hclient]
        rfl
      · rw [hzero']
        exact hzero _
    next hlinked =>
      refine ⟨.stays x b rfl hbase rfl rfl hqueue hfreed fun hdangling => ?_, ?_, fun _ => hsent'⟩
      · exact (hb hnetwork).trans (not_and_not_right.mp hlinked hdangling)
      · rw [hsent']
        exact hzero _

theorem step_cases (hs : s.Sound host) {a : RacingAction α} (h : step host a s = some s') :
    Step host a s s' ∧ s'.Sound host := by
  unfold step at h
  cases a with
  | base x =>
    cases hpc : s.pc with
    | outside =>
      rw [hpc] at h
      obtain ⟨base, hbase, rfl⟩ := Option.map_eq_some_iff.mp h
      exact step_enter hs hpc hbase
    | freeing bs =>
      rw [hpc] at h
      exact step_meanwhile hs hpc h
  | free =>
    cases hpc : s.pc with
    | outside => rw [hpc] at h; exact absurd h.symm (Option.some_ne_none _)
    | freeing bs =>
      rw [hpc] at h
      cases bs with
      | nil => exact absurd h.symm (Option.some_ne_none _)
      | cons b bs =>
        obtain rfl := Option.some.inj h
        exact ⟨.frees b bs rfl hpc rfl, hs.sent_le, fun _ => hs.settled (hpc ▸ FreePc.noConfusion)⟩
  | repair =>
    cases hpc : s.pc with
    | outside => rw [hpc] at h; exact absurd h.symm (Option.some_ne_none _)
    | freeing bs =>
      rw [hpc] at h
      cases bs with
      | nil =>
        obtain rfl := Option.some.inj h
        exact ⟨.repairs rfl hpc rfl, hs.sent_le, fun hne => absurd rfl hne⟩
      | cons b bs => exact absurd h.symm (Option.some_ne_none _)

/-! ## Runs -/

theorem sound_of_reaches {ok : RacingAction α → Racing σ → Prop} (h : (system host).Reaches ok s) :
    s.Sound host := by
  have hinit : ∀ s, (system host).Init s → s.Sound host := by
    rintro s ⟨hinit, hpc, -⟩
    obtain ⟨garbage, qport, userinfo, addr, heq⟩ := host.init _ hinit
    refine ⟨?_, fun hne => absurd hpc hne⟩
    rw [heq]
    exact Nat.zero_le _
  exact h.invariant hinit fun a s s' hs _ hstep => (step_cases hs hstep).2

/-- If no command is lost, the system is where it would be if the commands were freed all at once;
    those still to be freed are in its account already. -/
theorem base_of_reaches {ok : α → σ → Prop} (h : (system host).Reaches (RacingOk host ok) s) :
    host.system.Reaches ok s.base ∧
      freedBuffers (host.client s.base).netqw.trace = s.freed ++ s.unfreed := by
  have hinit : ∀ s, (system host).Init s → host.system.Reaches ok s.base ∧
      freedBuffers (host.client s.base).netqw.trace = s.freed ++ s.unfreed := by
    rintro s ⟨hinit, hpc, hfreed⟩
    obtain ⟨garbage, qport, userinfo, addr, heq⟩ := host.init _ hinit
    refine ⟨.init hinit, ?_⟩
    rw [heq, hfreed, unfreed, hpc]
    rfl
  refine h.invariant_of (fun s => sound_of_reaches) hinit fun a s s' hsound hs hok hstep => ?_
  obtain ⟨hreaches, hfreed⟩ := hs
  cases (step_cases hsound hstep).1 with
  | stays x b ha hbase hpc hfreed' hbehind htrace hdangling =>
    obtain rfl := ha
    refine ⟨.step hreaches hok.1 hbase, ?_⟩
    rw [htrace, hfreed, hfreed', unfreed, unfreed, hpc]
  | begins x bs ha hbase hpc hunfreed hdangling hfreed' hbehind htrace =>
    obtain rfl := ha
    refine ⟨.step hreaches hok.1 hbase, ?_⟩
    have hnone : s.unfreed = [] := by rw [unfreed, hpc]
    rw [htrace, hfreed, hfreed', hunfreed, hnone, List.append_nil]
  | loses x b ha hdangling hb =>
    obtain rfl := ha
    exact absurd ((hok.2 hdangling).symm.trans hb) (Option.some_ne_none _).symm
  | frees b bs ha hpc heq =>
    subst heq
    refine ⟨hreaches, ?_⟩
    rw [hfreed, unfreed, hpc]
    exact List.append_cons _ _ _
  | repairs ha hpc heq =>
    subst heq
    refine ⟨hreaches, ?_⟩
    rw [hfreed, unfreed, hpc]
    rfl

/-- What was appended is what was freed, and then the queue. -/
theorem order_of_freed {appended : List ReliableBuffer}
    (hfreed : freedBuffers (host.client s.base).netqw.trace = s.freed ++ s.unfreed)
    (horder : appended = freedBuffers (host.client s.base).netqw.trace ++ s.behind host) :
    appended = s.freed ++ s.queue host := by
  rw [horder, hfreed, List.append_assoc]
  rfl

end Racing

/-! ## The pointers -/

/-- What the threads do to the list: one appends, and the other frees or repairs. -/
inductive LoopAction where
  | append (b : ReliableBuffer)
  | free
  | repair

/-- What an action does to the list. -/
def Reliables.loopStep (a : LoopAction) (h : Reliables) : Option Reliables :=
  match a with
  | .append b => some (h.append b)
  | .free => some h.freeHead
  | .repair => some h.repair

/-- The list, with each turn of the loop a step. -/
def freeingSystem : Transitions Reliables LoopAction where
  Init := Reliables.Init
  step := Reliables.loopStep

/-- The list from its head on holds the commands, and the tail is stale exactly when it is
    dangling. -/
structure RacingLinks (host : Host angle16 σ α) (s : Racing σ) (h : Reliables) (queue : List Nat) :
    Prop where
  linked : Linked h.links.repair queue
  commands : queue.map h.buffers = s.queue host
  lt_mallocs : ∀ n ∈ queue, n < h.mallocs
  dangling : h.links.head = none ∧ h.links.tail ≠ none ↔ s.Dangling host

namespace RacingLinks

variable {s s' : Racing σ} {h : Reliables} {queue : List Nat}

/-- Nothing happens to the list. -/
theorem congr (hl : RacingLinks host s h queue) (hqueue : s'.queue host = s.queue host)
    (hdangling : s'.Dangling host ↔ s.Dangling host) : RacingLinks host s' h queue where
  linked := hl.linked
  commands := hl.commands.trans hqueue.symm
  lt_mallocs := hl.lt_mallocs
  dangling := hl.dangling.trans hdangling.symm

/-- A command is linked where the pointers from the head on find it. -/
theorem append (hl : RacingLinks host s h queue) (hlinked : ¬s.Dangling host) {b : ReliableBuffer}
    (hqueue : s'.queue host = s.queue host ++ [b]) (hlinked' : ¬s'.Dangling host) :
    RacingLinks host s' (h.append b) (queue ++ [h.mallocs]) := by
  have hfresh : h.mallocs ∉ queue := fun hmem => Nat.lt_irrefl _ (hl.lt_mallocs _ hmem)
  have hrepaired : Linked h.links queue := by
    have htail := not_and_not_right.mp fun h => hlinked (hl.dangling.mp h)
    exact Links.repair_eq htail ▸ hl.linked
  have hpush : Linked (h.append b).links (queue ++ [h.mallocs]) :=
    (hrepaired.clear hfresh).push hfresh (Links.next_clear ..)
  refine ⟨hpush.repair.symm ▸ hpush, ?_, fun n hn => ?_, iff_of_false (fun hstale => ?_) hlinked'⟩
  · show (queue ++ [h.mallocs]).map (Function.update h.buffers h.mallocs b) = _
    rw [hqueue, ← hl.commands, List.map_append, ReliablesOf.map_update h b hl.lt_mallocs,
      List.map_singleton, Function.update_self]
  · rcases List.mem_append.mp hn with hn | hn
    · exact Nat.lt_succ_of_lt (hl.lt_mallocs n hn)
    · exact Nat.lt_succ_of_le (List.mem_singleton.mp hn).le
  · exact hstale.2 (hpush.tail_eq_none_iff.mpr hstale.1)

/-- A command is linked behind one that is freed. -/
theorem lose (hl : RacingLinks host s h queue) (hdangling : s.Dangling host) (b : ReliableBuffer)
    (hpc : s'.pc = s.pc) (hbehind : s'.behind host = []) :
    RacingLinks host s' (h.append b) [] := by
  obtain ⟨hhead, htail⟩ := hl.dangling.mpr hdangling
  obtain ⟨hhead', htail'⟩ :
      (h.append b).links.head = none ∧ (h.append b).links.tail = some h.mallocs :=
    Links.push_stale (q := h.links.clear h.mallocs) hhead htail
  have hpc' : s'.pc = .freeing [] := hpc.trans (Racing.dangling_iff.mp hdangling).1
  refine ⟨⟨hhead', if_pos hhead', .nil⟩, ?_, nofun, iff_of_true ⟨hhead', ?_⟩ ?_⟩
  · rw [Racing.queue, Racing.unfreed, hpc', hbehind]
    rfl
  · rw [htail']
    exact Option.some_ne_none _
  · exact Racing.dangling_iff.mpr ⟨hpc', hbehind⟩

/-- A turn of the loop. -/
theorem free {b : ReliableBuffer} {bs : List ReliableBuffer} (hl : RacingLinks host s h queue)
    (hpc : s.pc = .freeing (b :: bs)) : ∃ queue', RacingLinks host
      { s with pc := .freeing bs, freed := s.freed ++ [b] } h.freeHead queue' := by
  have hcommands : queue.map h.buffers = b :: (bs ++ s.behind host) := by
    rw [hl.commands, Racing.queue, Racing.unfreed, hpc]
    rfl
  cases queue with
  | nil => exact absurd hcommands.symm (List.cons_ne_nil _ _)
  | cons n queue =>
    have hhead : h.links.head = some n := hl.linked.head
    have htail : h.links.tail ≠ none := by
      intro hnone
      have hlast : (if h.links.head = none then none else h.links.tail)
          = (n :: queue).getLast? := hl.linked.tail
      rw [hhead, hnone] at hlast
      exact absurd hlast.symm (by simp)
    have heq : h.freeHead = { h with
        links := h.links.advance n
        ops := h.ops ++ [.use (some n)] ++ [.release (some n)] } := by
      unfold Reliables.freeHead
      rw [hhead]
      rfl
    have hrest := (List.cons.inj hcommands).2
    have hlinked := hl.linked.advance
    refine ⟨queue, ?_⟩
    rw [heq]
    refine ⟨hlinked, hrest, fun m hm => hl.lt_mallocs m (List.mem_cons_of_mem n hm), ?_⟩
    rw [Racing.dangling_iff]
    show (h.links.advance n).head = none ∧ h.links.tail ≠ none
      ↔ FreePc.freeing bs = .freeing [] ∧ s.behind host = []
    have hnil : (h.links.advance n).head = none ↔ queue = [] := by
      rw [show (h.links.advance n).head = queue.head? from hlinked.head, List.head?_eq_none_iff]
    rw [hnil, and_iff_left htail, ← List.map_eq_nil_iff (f := h.buffers), hrest,
      List.append_eq_nil_iff, FreePc.freeing.injEq]

theorem repair (hl : RacingLinks host s h queue) (hpc : s.pc = .freeing []) :
    RacingLinks host { s with pc := .outside } h.repair queue := by
  have hrepair : h.links.repair.repair = h.links.repair := hl.linked.repair
  refine ⟨hrepair.symm ▸ hl.linked, ?_, hl.lt_mallocs, iff_of_false (fun hstale => ?_) ?_⟩
  · show queue.map h.buffers = _
    rw [hl.commands, Racing.queue, Racing.unfreed, hpc]
    rfl
  · exact hstale.2 (hl.linked.tail_eq_none_iff.mpr hstale.1)
  · exact fun hdangling => FreePc.noConfusion (Racing.dangling_iff.mp hdangling).1

end RacingLinks

/-- In every run the commands from the head on are those that the pointers lead to, also where one
    was lost. -/
theorem racing_refines_links (host : Host angle16 σ α) : (Racing.system host).Refines freeingSystem
    fun s h => s.Sound host ∧ ∃ queue, RacingLinks host s h queue where
  init := by
    rintro s hinit
    have hreach : (Racing.system host).Reachable s := .init hinit
    have hsound : s.Sound host := Racing.sound_of_reaches hreach
    obtain ⟨hinit, hpc, hfreed⟩ := hinit
    obtain ⟨garbage, qport, userinfo, addr, heq⟩ := host.init _ hinit
    have hbehind : s.behind host = [] := by
      rw [Racing.behind, heq]
      rfl
    refine ⟨_, ⟨fun _ => none, fun _ => NetQW.newCommand, 0, rfl⟩, hsound, [], ?_, ?_, nofun, ?_⟩
    · exact ⟨rfl, rfl, .nil⟩
    · rw [Racing.queue, Racing.unfreed, hpc, hbehind]
      rfl
    · refine iff_of_false (fun hstale => hstale.2 rfl) fun hdangling => ?_
      exact FreePc.noConfusion (hpc.symm.trans (Racing.dangling_iff.mp hdangling).1)
  step := by
    rintro a s s' l ⟨hsound, queue, hl⟩ hstep
    obtain ⟨hcases, hsound'⟩ := Racing.step_cases hsound hstep
    cases hcases with
    | stays x b ha hbase hpc hfreed hbehind htrace hdangling =>
      have hqueue : s'.queue host = s.queue host ++ b.toList := by
        rw [Racing.queue, Racing.queue, Racing.unfreed, Racing.unfreed, hpc, hbehind,
          List.append_assoc]
      cases b with
      | none =>
        left
        refine ⟨hsound', queue, hl.congr (hqueue.trans (List.append_nil _)) ?_⟩
        rw [Racing.dangling_iff, Racing.dangling_iff, hpc, hbehind, Option.toList_none,
          List.append_nil]
      | some b =>
        refine .inr ⟨.append b, _, rfl, hsound', _, hl.append (fun h => ?_) hqueue fun h => ?_⟩
        · exact Option.some_ne_none _ (hdangling h)
        · have hnone := (Racing.dangling_iff.mp h).2
          rw [hbehind] at hnone
          exact List.append_ne_nil_of_right_ne_nil _ (List.cons_ne_nil b []) hnone
    | begins x bs ha hbase hpc hunfreed hdangling hfreed hbehind htrace =>
      left
      have hnone : s.unfreed = [] := by rw [Racing.unfreed, hpc]
      have hqueue : s'.queue host = s.queue host := by
        rw [Racing.queue, Racing.queue, hunfreed, hnone, hbehind, List.nil_append]
      refine ⟨hsound', queue, hl.congr hqueue (iff_of_false hdangling fun h => ?_)⟩
      exact FreePc.noConfusion (hpc.symm.trans (Racing.dangling_iff.mp h).1)
    | loses x b ha hdangling hb hpc hbehind =>
      exact .inr ⟨.append b, _, rfl, hsound', _, hl.lose hdangling b hpc hbehind⟩
    | frees b bs ha hpc heq =>
      subst heq
      exact .inr ⟨.free, _, rfl, hsound', hl.free hpc⟩
    | repairs ha hpc heq =>
      subst heq
      exact .inr ⟨.repair, _, rfl, hsound', _, hl.repair hpc⟩

end

end QwNet
