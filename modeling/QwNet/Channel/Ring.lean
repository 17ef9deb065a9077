/-
  QwNet.Channel.Ring

  The frame ring by itself.

  Six operations move the ring, and whatever else the client does leaves it alone.
  `Ring.Step` is what they do, and every step of the client is one of them
  (`Client.step_ring`); what holds of the ring in every run is proved about
  `Ring.Step`.
-/
import QwNet.Channel.Effects
import QwNet.Lib.History

namespace QwNet

/-! ## The ring and its history -/

/-- How far the packet of the current sequence number has got: not begun, begun, or with
    its delta request written. -/
inductive Phase where
  | between
  | begun
  | requested
  deriving DecidableEq

def SendPc.phase : SendPc → Phase
  | .idle | .generate | .loop => .between
  | .delta _ => .begun
  | .tmove _ | .reliable _ | .submit .. | .finish => .requested

/-- The ring, its counters, and the history. -/
structure Ring where
  frames : Slot → RingFrame
  current : BitVec 32
  lastsent : BitVec 32
  tosend : BitVec 32
  lastcopied : BitVec 32
  tocopy : BitVec 32
  deltaPoint : BitVec 32
  phase : Phase
  trace : List NetEvent

def NetQW.ring (q : NetQW) (phase : Phase) : Ring where
  frames := q.frames
  current := q.currentOutgoingSequenceNumber
  lastsent := q.lastsentframe
  tosend := q.framestosend
  lastcopied := q.lastcopiedframe
  tocopy := q.framestocopy
  deltaPoint := q.lastReceivedEntityUpdateFrame
  phase := phase
  trace := q.trace

def Client.ring (c : Client) : Ring := c.netqw.ring c.pc.phase

/-- The ring of a new client. -/
def Ring.initial : Ring where
  frames := fun _ => ⟨zerocmd, 0, 0⟩
  current := 1
  lastsent := 0
  tosend := 0
  lastcopied := 0
  tocopy := 0
  deltaPoint := -1
  phase := .between
  trace := []

theorem Client.Init.ring {c : Client} (h : c.Init) : c.ring = Ring.initial := by
  obtain ⟨garbage, qport, userinfo, addr, rfl⟩ := h
  rfl

/-- The copies that `NetQW_CopyFrames` made. -/
@[simp] def NetEvent.copied? : NetEvent → Option (Slot × RingFrame)
  | .copy slot frame => some (slot, frame)
  | _ => none

/-- The packets begun, and the three commands read for each, oldest first. -/
@[simp] def NetEvent.built? : NetEvent → Option (BitVec 32 × Usercmd × Usercmd × Usercmd)
  | .build sequence cmd₂ cmd₁ cmd₀ => some (sequence, cmd₂, cmd₁, cmd₀)
  | _ => none

/-- The delta requests written. -/
@[simp] def NetEvent.requested? : NetEvent → Option (BitVec 32 × Option Byte)
  | .delta sequence request => some (sequence, request)
  | _ => none

/-- The packets sent. -/
@[simp] def NetEvent.sent? : NetEvent → Option (BitVec 32)
  | .sent sequence => some sequence
  | _ => none

/-- The event is not one of the ring's. -/
def NetEvent.offRing : NetEvent → Bool
  | .generate .. | .copy .. | .copied .. | .build .. | .delta .. | .sent .. => false
  | _ => true

def copies (trace : List NetEvent) : List (Slot × RingFrame) := trace.filterMap NetEvent.copied?

def builds (trace : List NetEvent) : List (BitVec 32 × Usercmd × Usercmd × Usercmd) :=
  trace.filterMap NetEvent.built?

def requests (trace : List NetEvent) : List (BitVec 32 × Option Byte) :=
  trace.filterMap NetEvent.requested?

def sents (trace : List NetEvent) : List (BitVec 32) := trace.filterMap NetEvent.sent?

@[simp] theorem generated_append (t es : List NetEvent) :
    generated (t ++ es) = generated t ++ generated es := List.filterMap_append

@[simp] theorem copies_append (t es : List NetEvent) : copies (t ++ es) = copies t ++ copies es :=
  List.filterMap_append

@[simp] theorem builds_append (t es : List NetEvent) : builds (t ++ es) = builds t ++ builds es :=
  List.filterMap_append

@[simp] theorem requests_append (t es : List NetEvent) :
    requests (t ++ es) = requests t ++ requests es := List.filterMap_append

@[simp] theorem sents_append (t es : List NetEvent) : sents (t ++ es) = sents t ++ sents es :=
  List.filterMap_append

@[simp] theorem generated_singleton (e : NetEvent) : generated [e] = e.generated?.toList :=
  History.filterMap_singleton _ e

@[simp] theorem copies_singleton (e : NetEvent) : copies [e] = e.copied?.toList :=
  History.filterMap_singleton _ e

@[simp] theorem builds_singleton (e : NetEvent) : builds [e] = e.built?.toList :=
  History.filterMap_singleton _ e

@[simp] theorem requests_singleton (e : NetEvent) : requests [e] = e.requested?.toList :=
  History.filterMap_singleton _ e

@[simp] theorem sents_singleton (e : NetEvent) : sents [e] = e.sent?.toList :=
  History.filterMap_singleton _ e

/-- Events off the ring leave no mark in its history. -/
theorem filterMap_offRing {α : Type} {f : NetEvent → Option α} {es : List NetEvent}
    (hf : ∀ e, e.offRing = true → f e = none) (h : ∀ e ∈ es, e.offRing = true) :
    es.filterMap f = [] :=
  List.filterMap_eq_nil_iff.mpr fun e he => hf e (h e he)

section OffRing

variable {es : List NetEvent} (h : ∀ e ∈ es, e.offRing = true)
include h

theorem generated_offRing : generated es = [] :=
  filterMap_offRing (fun e he => by cases e <;> first | rfl | exact nomatch he) h

theorem copies_offRing : copies es = [] :=
  filterMap_offRing (fun e he => by cases e <;> first | rfl | exact nomatch he) h

theorem builds_offRing : builds es = [] :=
  filterMap_offRing (fun e he => by cases e <;> first | rfl | exact nomatch he) h

theorem requests_offRing : requests es = [] :=
  filterMap_offRing (fun e he => by cases e <;> first | rfl | exact nomatch he) h

theorem sents_offRing : sents es = [] :=
  filterMap_offRing (fun e he => by cases e <;> first | rfl | exact nomatch he) h

end OffRing

/-! ## What moves the ring -/

namespace Ring

def log (es : List NetEvent) (v : Ring) : Ring := { v with trace := v.trace ++ es }

/-- The delta point is known and recent. -/
def DeltaPointRecent (v : Ring) : Prop := v.deltaPoint ≠ -1#32 ∧ v.current - v.deltaPoint < 64#32

instance (v : Ring) : Decidable v.DeltaPointRecent := inferInstanceAs (Decidable (_ ∧ _))

/-- The index of the next frame. -/
def next (v : Ring) : Slot := slot (v.lastsent + v.tosend + 1#32)

/-- The next frame is stored. -/
def store (v : Ring) (frame : Usercmd × BitVec 64) : Ring :=
  { v with frames := Function.update v.frames v.next ⟨frame.1, frame.2, -1#32⟩ }.log
    [.generate v.next frame.1 frame.2]

/-- The delta point is written to the entry of the current number. -/
def request (v : Ring) : Ring :=
  let frame := { v.frames (slot v.current) with deltaSequence := v.deltaPoint }
  if v.DeltaPointRecent then { v with frames := Function.update v.frames (slot v.current) frame }
  else v

def count (v : Ring) : Ring := { v with tosend := v.tosend + 1#32, tocopy := v.tocopy + 1#32 }

/-- One frame is generated. -/
def generate (v : Ring) (frame : Usercmd × BitVec 64) : Ring := (v.store frame).request.count

/-- What `generate` does besides changing entries of the ring. -/
theorem generate_eq (v : Ring) (frame : Usercmd × BitVec 64) :
    ∃ frames, v.generate frame = { v with
      frames := frames
      tosend := v.tosend + 1#32
      tocopy := v.tocopy + 1#32
      trace := v.trace ++ [.generate v.next frame.1 frame.2] } := by
  unfold generate request
  dsimp only
  split
  · exact ⟨_, rfl⟩
  · exact ⟨_, rfl⟩

/-- One frame is copied. -/
def copyOne (v : Ring) : Ring :=
  let last := (v.lastcopied + 1#32) &&& updateMask
  { v with lastcopied := last, tocopy := v.tocopy - 1#32 }.log
    [.copy (slot last) (v.frames (slot last))]

/-- All frames to be copied are, and the numbers reported. -/
def copy (v : Ring) : Ring :=
  let v' := copyOne^[v.tocopy.toNat] v
  v'.log [.copied (v'.current + v'.tosend) ((v.lastcopied + 1#32) &&& updateMask) v.tocopy]

/-- The command `k` packets before the current one. -/
def recentCmd (k : BitVec 32) (v : Ring) : Usercmd := (v.frames (slot (v.current - k))).cmd

/-- What a delta number in the ring comes to on the wire. -/
def wire (delta : BitVec 32) : Option Byte :=
  if delta ≠ -1#32 then some (delta.setWidth 8) else none

/-- The steps of the ring; `true` marks those of `NetQW_GenerateFrames`. -/
inductive Step : Bool → Ring → Ring → Prop where
  | silent (v : Ring) {es : List NetEvent} (h : ∀ e ∈ es, e.offRing = true) :
      Step false v (v.log es)
  | setDeltaPoint (v : Ring) (n : BitVec 32) : Step false v { v with deltaPoint := n }
  | generate (v : Ring) (gs : List (Usercmd × BitVec 64)) : Step true v (gs.foldl generate v)
  | copy (v : Ring) : Step false v v.copy
  | build (v : Ring) (hphase : v.phase = .between) (h : v.tosend ≠ 0#32) :
      Step false v ({ v with phase := .begun }.log
        [.build v.current (v.recentCmd 2) (v.recentCmd 1) (v.recentCmd 0)])
  | request (v : Ring) (hphase : v.phase = .begun) :
      Step false v ({ v with phase := .requested }.log
        [.delta v.current (wire (v.frames (slot v.current)).deltaSequence)])
  | finish (v : Ring) (hphase : v.phase = .requested) :
      Step false v ({ v with
        phase := .between
        lastsent := v.lastsent + 1#32
        tosend := v.tosend - 1#32
        current := v.current + 1#32 }.log [.sent v.current])

end Ring

/-! ## The client moves the ring -/

/-- The ring without its history. -/
def NetQW.ringView (q : NetQW) (phase : Phase) : Ring := { q.ring phase with trace := [] }

/-- From `q` to `q'` the ring was left alone. -/
abbrev Silent (q q' : NetQW) : Prop := Keeps NetQW.ringView (fun e => e.offRing = true) q q'

theorem Silent.ring {q q' : NetQW} (h : Silent q q') (phase : Phase) :
    ∃ es, (∀ e ∈ es, e.offRing = true) ∧ q'.ring phase = (q.ring phase).log es := by
  obtain ⟨es, htrace, hoff⟩ := h.trace
  have hview : q'.ringView phase = q.ringView phase := congrFun h.view phase
  refine ⟨es, hoff, ?_⟩
  calc q'.ring phase
      = { q'.ringView phase with trace := q'.trace } := rfl
    _ = { q.ringView phase with trace := q.trace ++ es } := by rw [hview, htrace]
    _ = (q.ring phase).log es := rfl

section

variable (q : NetQW)

theorem silent_log {es : List NetEvent} (h : ∀ e ∈ es, e.offRing = true) : Silent q (q.log es) :=
  .log (fun _ _ => rfl) h

theorem readsNoReplies_ring : ReadsNoReplies NetQW.ringView (fun e => e.offRing = true) := by
  refine ⟨fun _ _ => rfl, fun _ _ _ _ _ _ _ _ => rfl, fun e he => ?_⟩
  cases e <;> first | rfl | exact absurd he (by simp [NetEvent.ofReplies])

theorem readsNoPackets_ring : ReadsNoPackets NetQW.ringView (fun e => e.offRing = true) := by
  refine ⟨fun _ _ => rfl, fun _ _ _ _ _ => rfl, fun e he => ?_⟩
  cases e <;> first | rfl | exact absurd he (by simp [NetEvent.ofPackets])

theorem readsNoSending_ring : ReadsNoSending NetQW.ringView (fun e => e.offRing = true) :=
  ⟨fun _ _ => rfl, fun _ _ _ _ => rfl, fun _ => rfl⟩

theorem silent_append (buffer : ReliableBuffer) : Silent q (q.appendReliableBuffer buffer) := by
  have hset : ∀ queue, Silent q { q with reliableQueue := queue } := fun queue => .of_eq rfl rfl
  exact (hset _).trans (silent_log _ (by simp [NetEvent.offRing]))

theorem silent_receiveConnection (now : BitVec 64) (alloc : Bool) (r : Nat) (buf : Nat → Byte) :
    Silent q (q.receiveConnection now alloc r buf) := by
  have henter : ∀ q : NetQW, Silent q (q.enterConnected now) :=
    fun q => keeps_enterConnected q (fun _ _ _ _ => rfl) now
  unfold NetQW.receiveConnection
  split
  · refine Keeps.trans ?_ (henter _)
    split
    · exact silent_append q NetQW.newCommand
    · exact .refl q
  · exact .refl q

theorem silent_receive (env : NetQW.SendEnv) (source : NetAddr) (datagram : List Byte) :
    Silent q (q.receive env source datagram) := by
  unfold NetQW.receive
  dsimp only
  split
  · split
    · exact keeps_receiveChallenge q (fun _ _ _ _ _ _ => rfl) _ _
    · exact silent_receiveConnection q _ _ _ _
    · exact readsNoPackets_ring.receivePacket readsNoReplies_ring _ _ _ _
  · exact .refl q

end

/-! ## Every step of the client is a step of the ring -/

theorem ring_generateFrame (senttime : BitVec 64) (q : NetQW) (phase : Phase) :
    (q.generateFrame senttime).ring phase
      = (q.ring phase).generate (q.tick.lockedCmd, senttime) := by
  have hstore : (q.tick.takeMsec.storeFrame q.tick.lockedCmd senttime).ring phase
      = (q.ring phase).store (q.tick.lockedCmd, senttime) := rfl
  have hrequest : ∀ q : NetQW, q.requestDelta.ring phase = (q.ring phase).request := by
    intro q
    unfold NetQW.requestDelta Ring.request
    have hrecent : (q.ring phase).DeltaPointRecent ↔ q.DeltaPointRecent := Iff.rfl
    dsimp only
    by_cases h : q.DeltaPointRecent
    · rw [if_pos h, if_pos (hrecent.mpr h)]
      rfl
    · rw [if_neg h, if_neg (mt hrecent.mp h)]
  have hcount : ∀ q : NetQW, q.countFrame.ring phase = (q.ring phase).count := fun q => rfl
  rw [NetQW.generateFrame, hcount, hrequest, hstore]
  rfl

/-- From `q` to `q'` some frames were generated. -/
def Generates (q q' : NetQW) : Prop :=
  ∃ gs : List (Usercmd × BitVec 64), ∀ phase, q'.ring phase = gs.foldl Ring.generate (q.ring phase)

theorem Generates.refl (q : NetQW) : Generates q q := ⟨[], fun _ => rfl⟩

theorem Generates.trans (q₁ q₂ q₃ : NetQW) (h₁ : Generates q₁ q₂) (h₂ : Generates q₂ q₃) :
    Generates q₁ q₃ := by
  obtain ⟨gs₁, h₁⟩ := h₁
  obtain ⟨gs₂, h₂⟩ := h₂
  exact ⟨gs₁ ++ gs₂, fun phase => by rw [h₂, h₁, List.foldl_append]⟩

theorem steps_generatePass (curtime : BitVec 64) (senttime : Nat → BitVec 64) :
    RunM.Steps Generates (generatePass curtime senttime) := by
  refine RunM.steps_get_bind fun q => RunM.steps_ite ?_ (RunM.steps_pure Generates.refl _)
  refine RunM.steps_bind Generates.trans (RunM.steps_modify fun q => ?_) fun _ =>
    RunM.steps_pure Generates.refl _
  exact ⟨[_], ring_generateFrame _ q⟩

theorem steps_generateFrames (curtime : BitVec 64) (senttime : Nat → BitVec 64) (fuel : Nat) :
    RunM.Steps Generates (generateFrames curtime senttime fuel) :=
  RunM.steps_get_bind fun _ => RunM.steps_ite (RunM.steps_pure Generates.refl _)
    (RunM.steps_loop Generates.refl Generates.trans (steps_generatePass curtime senttime) fuel)

theorem ring_copyFrames (q : NetQW) (phase : Phase) :
    q.copyFrames.ring phase = (q.ring phase).copy := by
  have hone : Function.Semiconj (fun q : NetQW => q.ring phase) NetQW.copyFrame Ring.copyOne :=
    fun q => rfl
  have hall := (hone.iterate_right q.framestocopy.toNat).eq q
  rw [Ring.copy, show (q.ring phase).tocopy = q.framestocopy from rfl, ← hall]
  rfl

/-- The action calls `NetQW_GenerateFrames`. -/
def Action.generates : Action → Bool
  | .generate .. | .netGenerate .. => true
  | _ => false

namespace Client

theorem ring_of_silent {c c' : Client} (h : Silent c.netqw c'.netqw)
    (hphase : c'.pc.phase = c.pc.phase) : Ring.Step false c.ring c'.ring := by
  obtain ⟨es, hoff, heq⟩ := h.ring c.pc.phase
  rw [Client.ring, Client.ring, hphase, heq]
  exact .silent _ hoff

theorem ring_of_generates {c c' : Client} (h : Generates c.netqw c'.netqw)
    (hphase : c'.pc.phase = c.pc.phase) : Ring.Step true c.ring c'.ring := by
  obtain ⟨gs, heq⟩ := h
  rw [Client.ring, Client.ring, heq, hphase]
  exact .generate _ gs

/-- A step outside `NetQW_Thread_DoSend` that leaves the ring alone. -/
theorem ring_of_outside {c c' : Client} {f : NetQW → Option NetQW}
    (hf : ∀ q q', f q = some q' → Silent q q') (h : c.outside f = some c') :
    Ring.Step false c.ring c'.ring := by
  obtain ⟨hpc, q', hq', rfl⟩ := outside_spec h
  exact ring_of_silent (hf _ _ hq') (by rw [hpc])

/-- A step that always succeeds, and only changes the object. -/
theorem ring_of_update {c c' : Client} {f : NetQW → NetQW} (hf : ∀ q, Silent q (f q))
    (h : some (c.update f) = some c') : Ring.Step false c.ring c'.ring := by
  obtain rfl := Option.some.inj h
  exact ring_of_silent (hf _) rfl

/-- A step that sends, outside `NetQW_Thread_DoSend` or on its way in. -/
theorem ring_of_sending {angle16 : BitVec 32 → BitVec 16} {a : Action} {c c' : Client}
    (ha : a.ofSending = true) (h : step angle16 a c = some c') :
    Ring.Step false c.ring c'.ring := by
  obtain ⟨hkeeps, hpc, hpc'⟩ := readsNoSending_ring.step ha h
  apply ring_of_silent hkeeps
  rw [hpc]
  rcases hpc' with hidle | hgenerate
  · rw [hidle]
  · rw [hgenerate]
    rfl

/-- Every step of the client is a step of the ring. -/
theorem step_ring {angle16 : BitVec 32 → BitVec 16} {a : Action} {c c' : Client}
    (h : step angle16 a c = some c') : Ring.Step a.generates c.ring c'.ring := by
  cases a with
  | setFPS fps => exact ring_of_update (fun q => keeps_setFPS q (fun _ _ => rfl) fps) h
  | append buffer => exact ring_of_update (fun q => silent_append q buffer) h
  | generate curtime senttime fuel =>
    obtain ⟨q', hq', rfl⟩ := Option.map_eq_some_iff.mp h
    exact ring_of_generates ((steps_generateFrames curtime senttime fuel).exec hq') rfl
  | copyFrames =>
    obtain rfl := Option.some.inj h
    rw [Client.ring, Client.ring, update, ring_copyFrames]
    exact .copy _
  | setDeltaPoint n =>
    obtain rfl := Option.some.inj h
    exact .setDeltaPoint _ n
  | setTeleport position =>
    obtain rfl := Option.some.inj h
    exact ring_of_silent (.of_eq rfl rfl) rfl
  | setMovementLocked locked =>
    obtain rfl := Option.some.inj h
    exact ring_of_silent (.of_eq rfl rfl) rfl
  | setLag microseconds =>
    obtain rfl := Option.some.inj h
    exact ring_of_silent (.of_eq rfl rfl) rfl
  | setLagEzcheat enabled =>
    obtain rfl := Option.some.inj h
    exact ring_of_silent (.of_eq rfl rfl) rfl
  | freePacket =>
    obtain ⟨q', hq', rfl⟩ := Option.map_eq_some_iff.mp h
    exact ring_of_silent (readsNoPackets_ring.freePacket hq') rfl
  | clampDelays curtime =>
    refine ring_of_outside (f := fun q => some (q.clampDelays curtime)) (fun q q' hq' => ?_) h
    obtain rfl := Option.some.inj hq'
    exact readsNoPackets_ring.clampDelays curtime
  | handleDelayed curtime =>
    exact ring_of_outside (fun q q' => readsNoPackets_ring.handleDelayed readsNoReplies_ring) h
  | clampSends curtime => exact ring_of_sending rfl h
  | sendDelayed curtime => exact ring_of_sending rfl h
  | receive env source datagram =>
    refine ring_of_outside (f := fun q => some (q.receive env source datagram))
      (fun q q' hq' => ?_) h
    obtain rfl := Option.some.inj hq'
    exact silent_receive q env source datagram
  | beginSend curtime stack => exact ring_of_sending rfl h
  | netGenerate curtime senttime fuel =>
    obtain ⟨hpc, q', hq', rfl⟩ := netGenerate_spec h
    exact ring_of_generates ((steps_generateFrames curtime senttime fuel).exec hq')
      (by rw [hpc]; rfl)
  | endSend =>
    obtain ⟨hpc, -, rfl⟩ := endSend_spec h
    exact ring_of_silent (.refl _) (by rw [hpc]; rfl)
  | buildPacket =>
    obtain ⟨hpc, htosend, rfl⟩ := buildPacket_spec h
    exact .build _ (by rw [Client.ring, hpc]; rfl) htosend
  | addDelta =>
    obtain ⟨buf, hpc, rfl⟩ := addDelta_spec h
    exact .request _ (by rw [Client.ring, hpc]; rfl)
  | addTmove =>
    obtain ⟨buf, hpc, rfl⟩ := addTmove_spec h
    exact ring_of_silent (.of_eq rfl rfl) (by rw [hpc]; rfl)
  | addReliables =>
    obtain ⟨buf, hpc, rfl⟩ := addReliables_spec h
    exact ring_of_silent (keeps_rememberReliables _ (fun _ _ _ _ => rfl) _) (by rw [hpc]; rfl)
  | submitPacket env =>
    have hkeeps := readsNoSending_ring.submit (fun _ _ => rfl) (fun _ _ => rfl) h
    obtain ⟨buf, reliable, hpc, rfl⟩ := submitPacket_spec h
    exact ring_of_silent hkeeps (by rw [hpc]; rfl)
  | finishPacket =>
    obtain ⟨hpc, rfl⟩ := finishPacket_spec h
    exact .finish _ (by rw [Client.ring, hpc]; rfl)

end Client

end QwNet
