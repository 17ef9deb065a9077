/-
  QwNet.Channel.Delta

  The delta request on the wire and the one in the client's ring.

  A frame's delta number is read twice: `NetQW_CopyFrames` copies it to the client, and
  `NetQW_Thread_DoSend` writes it into the packet.  Between the two
  `NetQW_GenerateFrames` may write it again, as it marks the entry of the current
  packet instead of that of the new frame.  What the packet carries is what a receiver
  finds in its bytes behind `clc_move`.
-/
import QwNet.Channel.ClientPacket
import QwNet.Channel.Counters

namespace QwNet

open History

/-! ## What is to agree -/

/-- Where a frame was both copied and sent, the client was told what the packet carries behind
    `clc_delta`; both histories begin with number 1. -/
def DeltasAgree (trace : List NetEvent) : Prop :=
  ∀ (k : Nat) copied packet, (copies trace)[k]? = some copied →
    (departures trace)[k]? = some packet →
    (copied.2.deltaSequence = -1#32 ↔ deltaOf packet.1 = none) ∧
      ∀ byte, deltaOf packet.1 = some byte → byte = copied.2.deltaSequence.setWidth 8

/-- Frames are sent and copied before the ring has gone round. -/
def InWindow (trace : List NetEvent) : Prop :=
  (generated trace).length < (sents trace).length + 62 ∧
    (generated trace).length ≤ (copies trace).length + 64

instance (trace : List NetEvent) : Decidable (InWindow trace) :=
  inferInstanceAs (Decidable (_ ∧ _))

/-- If there is a delta point to request, then no frame is left to send, or the request of
    the current packet stays the same, or it was both copied and written or neither. -/
def Ring.RequestSettled (v : Ring) : Prop :=
  v.DeltaPointRecent → (sents v.trace).length = (generated v.trace).length ∨
    (v.frames (slot v.current)).deltaSequence = v.deltaPoint ∨
    ((sents v.trace).length < (copies v.trace).length ↔
      (sents v.trace).length < (requests v.trace).length)

instance (v : Ring) : Decidable v.RequestSettled := inferInstanceAs (Decidable (_ → _))

/-- The wire carries what the copy says. -/
theorem wire_agree {delta : BitVec 32} {request : Option Byte} (h : request = Ring.wire delta) :
    (delta = -1#32 ↔ request = none) ∧ ∀ byte, request = some byte → byte = delta.setWidth 8 := by
  subst h
  unfold Ring.wire
  split
  · refine ⟨⟨fun h => absurd h ‹_›, fun h => nomatch h⟩, fun byte h => ?_⟩
    exact (Option.some.inj h).symm
  · rename_i hdelta
    exact ⟨⟨fun _ => rfl, fun _ => not_not.mp hdelta⟩, fun byte h => nomatch h⟩

/-! ## What was read once is still in the ring -/

/-- Both readers have read the same. -/
def ReadAlike (v : Ring) : Prop :=
  ∀ (k : Nat) copied request, (copies v.trace)[k]? = some copied →
    (requests v.trace)[k]? = some request → request.2 = Ring.wire copied.2.deltaSequence

/-- The delta numbers in the ring. -/
def Ring.deltas (v : Ring) (i : Slot) : BitVec 32 := (v.frames i).deltaSequence

/-- What only one of the two readers has read is unchanged. -/
structure Unchanged (v : Ring) : Prop where
  copied : ∀ (k : Nat) copied, (copies v.trace)[k]? = some copied →
    (requests v.trace).length ≤ k → copied.2.deltaSequence = v.deltas (slotOf k)
  requested : ∀ (k : Nat) request, (requests v.trace)[k]? = some request →
    (copies v.trace).length ≤ k → request.2 = Ring.wire (v.deltas (slotOf k))

theorem Ring.deltas_store (v : Ring) (frame : Usercmd × BitVec 64) :
    (v.store frame).deltas = Function.update v.deltas v.next (-1#32) := by
  funext i
  rcases eq_or_ne i v.next with rfl | hne
  · rw [Function.update_self]
    simp only [deltas, store, log, Function.update_self]
  · rw [Function.update_of_ne hne]
    simp only [deltas, store, log, Function.update_of_ne hne]

theorem Ring.deltas_request (v : Ring) : v.request.deltas
    = if v.DeltaPointRecent then Function.update v.deltas (slot v.current) v.deltaPoint
      else v.deltas := by
  unfold request
  dsimp only
  split
  · funext i
    rcases eq_or_ne i (slot v.current) with rfl | hne
    · simp only [deltas, Function.update_self]
    · simp only [deltas, Function.update_of_ne hne]
  · rfl

/-- `generate` writes two delta numbers: that of the new frame, and that of the current
    packet. -/
theorem Ring.deltas_generate (v : Ring) (frame : Usercmd × BitVec 64) {i : Slot} (hnext : i ≠ v.next)
    (hcurrent : i = slot v.current → v.DeltaPointRecent → v.deltas i = v.deltaPoint) :
    (v.generate frame).deltas i = v.deltas i := by
  have hstore : (v.store frame).deltas i = v.deltas i := by
    rw [deltas_store, Function.update_of_ne hnext]
  show (v.store frame).request.deltas i = v.deltas i
  rw [deltas_request]
  split
  · rename_i hrecent
    rcases eq_or_ne i (slot v.current) with rfl | hne
    · rw [show slot v.current = slot (v.store frame).current from rfl, Function.update_self]
      exact (hcurrent rfl hrecent).symm
    · rw [show slot v.current = slot (v.store frame).current from rfl] at hne
      rw [Function.update_of_ne hne, hstore]
  · exact hstore

/-- What `generate` leaves alone. -/
theorem Ring.trace_generate (v : Ring) (frame : Usercmd × BitVec 64) :
    (v.generate frame).trace = v.trace ++ [.generate v.next frame.1 frame.2] ∧
      (v.generate frame).current = v.current ∧ (v.generate frame).deltaPoint = v.deltaPoint := by
  obtain ⟨frames, heq⟩ := generate_eq v frame
  rw [heq]
  exact ⟨rfl, rfl, rfl⟩

/-- After a frame was generated, the entry of the current packet has the delta point. -/
theorem Ring.requestSettled_generate (v : Ring) (frame : Usercmd × BitVec 64) :
    (v.generate frame).RequestSettled := by
  intro hrecent
  refine .inr (.inl ?_)
  obtain ⟨-, hcurrent, hpoint⟩ := trace_generate v frame
  have hrecent' : (v.store frame).DeltaPointRecent := by
    rw [DeltaPointRecent, hcurrent, hpoint] at hrecent
    exact hrecent
  rw [hcurrent, hpoint]
  show (v.store frame).request.deltas (slot v.current) = v.deltaPoint
  rw [deltas_request, if_pos hrecent']
  exact Function.update_self ..

namespace Unchanged

variable {v : Ring}

/-- Steps that neither read nor write. -/
theorem congr {v' : Ring} (h : Unchanged v) (hframes : v'.frames = v.frames)
    (hcopies : copies v'.trace = copies v.trace)
    (hrequests : requests v'.trace = requests v.trace) : Unchanged v' := by
  have hdeltas : v'.deltas = v.deltas := by
    funext i
    rw [Ring.deltas, Ring.deltas, hframes]
  constructor
  · rw [hcopies, hrequests, hdeltas]
    exact h.copied
  · rw [hcopies, hrequests, hdeltas]
    exact h.requested

/-- A frame overwrites nothing that only one reader has read. -/
theorem generate (hv : Counted v) (h : Unchanged v) (frame : Usercmd × BitVec 64)
    (hwindow : InWindow (v.generate frame).trace) (hsettled : v.RequestSettled) :
    Unchanged (v.generate frame) := by
  obtain ⟨htrace, -, -⟩ := Ring.trace_generate v frame
  have hsents := hv.requests_length
  have hcopied_le := hv.copied_le
  have hbuilt_le := hv.built_le
  have hbuilds := hv.builds_length
  have hphase : v.phase.requestedPackets ≤ v.phase.begunPackets := by cases v.phase <;> decide
  have hphase' : v.phase.begunPackets ≤ 1 := by cases v.phase <;> decide
  unfold InWindow at hwindow
  simp only [htrace, generated_append, sents_append, copies_append, generated_singleton,
    sents_singleton, copies_singleton, NetEvent.generated?, NetEvent.sent?, NetEvent.copied?,
    Option.toList_some, Option.toList_none, List.append_nil, List.length_append,
    List.length_singleton] at hwindow
  -- A number that only one reader has read stays as it is
  have hkeep : ∀ k, k < (generated v.trace).length → (generated v.trace).length < k + 64 →
      (k = (sents v.trace).length → ¬((sents v.trace).length < (copies v.trace).length ↔
        (sents v.trace).length < (requests v.trace).length)) →
      (v.generate frame).deltas (slotOf k) = v.deltas (slotOf k) := by
    intro k hk hk' hone
    apply v.deltas_generate frame
    · rw [hv.next]
      exact spread_slotOf k _ hk hk'
    · intro heq hrecent
      have hcurrent : slot v.current = slotOf (sents v.trace).length := by
        rw [hv.current]
        rfl
      rw [hcurrent] at heq
      -- below or above the request's number the slots differ; at it the request is settled
      rcases Nat.lt_trichotomy k (sents v.trace).length with hlt | rfl | hgt
      · exact absurd heq (spread_slotOf _ _ hlt (by omega))
      · rcases hsettled hrecent with hall | hsame | hboth
        · omega
        · rw [← hcurrent]
          exact hsame
        · exact absurd hboth (hone rfl)
      · exact absurd heq.symm (spread_slotOf _ _ hgt (by omega))
  constructor
  · intro k copied hk hle
    simp only [htrace, copies_append, requests_append, copies_singleton, requests_singleton,
      NetEvent.copied?, NetEvent.requested?, Option.toList_none, List.append_nil] at hk hle
    have hlt := lt_of_getElem? hk
    rw [hkeep k (by omega) (by omega) (by omega)]
    exact h.copied k copied hk hle
  · intro k request hk hle
    simp only [htrace, copies_append, requests_append, copies_singleton, requests_singleton,
      NetEvent.copied?, NetEvent.requested?, Option.toList_none, List.append_nil] at hk hle
    have hlt := lt_of_getElem? hk
    rw [hkeep k (by omega) (by omega) (by omega)]
    exact h.requested k request hk hle

/-- The window was open before, if it is after frames were generated. -/
theorem inWindow_of_generate {frame : Usercmd × BitVec 64}
    (h : InWindow (v.generate frame).trace) : InWindow v.trace := by
  rw [(Ring.trace_generate v frame).1] at h
  simp [InWindow] at h ⊢
  omega

theorem inWindow_of_foldl {gs : List (Usercmd × BitVec 64)}
    (h : InWindow (gs.foldl Ring.generate v).trace) : InWindow v.trace := by
  induction gs generalizing v with
  | nil => exact h
  | cons g gs ih => exact inWindow_of_generate (ih h)

theorem foldl_generate (hv : Counted v) (h : Unchanged v) {gs : List (Usercmd × BitVec 64)}
    (hwindow : InWindow (gs.foldl Ring.generate v).trace) (hsettled : v.RequestSettled) :
    Unchanged (gs.foldl Ring.generate v) := by
  induction gs generalizing v with
  | nil => exact h
  | cons g gs ih =>
    have hnext := h.generate hv g (inWindow_of_foldl hwindow) hsettled
    exact ih (hv.generate g) hnext hwindow (v.requestSettled_generate g)

end Unchanged

/-- The two readers agree, and while the window is open what only one of them has read is
    unchanged. -/
structure Agreeing (v : Ring) : Prop where
  alike : ReadAlike v
  unchanged : InWindow v.trace → Unchanged v

namespace Agreeing

variable {v : Ring}

/-- Steps that neither read nor write. -/
theorem congr {v' : Ring} (h : Agreeing v) (hframes : v'.frames = v.frames)
    (hcopies : copies v'.trace = copies v.trace)
    (hrequests : requests v'.trace = requests v.trace) (hwindow : InWindow v.trace) :
    Agreeing v' := by
  constructor
  · unfold ReadAlike
    rw [hcopies, hrequests]
    exact h.alike
  · intro _
    exact (h.unchanged hwindow).congr hframes hcopies hrequests

theorem foldl_generate (hv : Counted v) (h : Agreeing v) (gs : List (Usercmd × BitVec 64))
    (hwindow : InWindow v.trace) (hsettled : v.RequestSettled) :
    Agreeing (gs.foldl Ring.generate v) := by
  have hread : copies (gs.foldl Ring.generate v).trace = copies v.trace ∧
      requests (gs.foldl Ring.generate v).trace = requests v.trace := by
    clear h hwindow hsettled hv
    induction gs generalizing v with
    | nil => exact ⟨rfl, rfl⟩
    | cons g gs ih =>
      obtain ⟨hcopies, hrequests⟩ := ih (v := v.generate g)
      rw [List.foldl_cons, hcopies, hrequests, (Ring.trace_generate v g).1]
      simp
  constructor
  · unfold ReadAlike
    rw [hread.1, hread.2]
    exact h.alike
  · intro hwindow'
    exact (h.unchanged hwindow).foldl_generate hv hwindow' hsettled

/-- Copying one frame reads what was requested, or what will be. -/
theorem copyOne (hv : Counted v) (h : Agreeing v) (hwindow : InWindow v.trace) :
    Agreeing v.copyOne := by
  -- the entry copied is the next one: its slot has not been written since its frame
  have hunchanged := h.unchanged hwindow
  have hslot : slot ((v.lastcopied + 1#32) &&& updateMask) = slotOf (copies v.trace).length := by
    rw [hv.lastcopied, slot_masked_succ]
  have hcopies : copies v.copyOne.trace = copies v.trace
      ++ [(slotOf (copies v.trace).length, v.frames (slotOf (copies v.trace).length))] := by
    rw [← hslot]
    simp [Ring.copyOne, Ring.log]
  have hrequests : requests v.copyOne.trace = requests v.trace := by simp [Ring.copyOne, Ring.log]
  have hdeltas : v.copyOne.deltas = v.deltas := rfl
  constructor
  · intro k copied request hk hk'
    rw [hcopies] at hk
    rw [hrequests] at hk'
    rcases getElem?_concat hk with hk | ⟨rfl, rfl⟩
    · exact h.alike k copied request hk hk'
    · exact hunchanged.requested _ request hk' (Nat.le_refl _)
  · intro _
    constructor
    · intro k copied hk hle
      rw [hcopies] at hk
      rw [hrequests] at hle
      rcases getElem?_concat hk with hk | ⟨rfl, rfl⟩
      · exact hunchanged.copied k copied hk hle
      · rfl
    · intro k request hk hle
      rw [hrequests] at hk
      rw [hcopies, List.length_append] at hle
      exact hunchanged.requested k request hk (by omega)

theorem copyOne_iterate (hv : Counted v) (h : Agreeing v) {n : Nat}
    (hle : (copies v.trace).length + n ≤ (generated v.trace).length) (hwindow : InWindow v.trace) :
    Agreeing (Ring.copyOne^[n] v) ∧ InWindow (Ring.copyOne^[n] v).trace := by
  induction n generalizing v with
  | zero => exact ⟨h, hwindow⟩
  | succ n ih =>
    rw [Function.iterate_succ_apply]
    apply ih (hv.copyOne (by omega)) (h.copyOne hv hwindow)
    · simp [Ring.copyOne, Ring.log]
      omega
    · simp [InWindow, Ring.copyOne, Ring.log] at hwindow ⊢
      omega

/-- Writing a request reads what was copied, or what will be. -/
theorem request (hv : Counted v) (h : Agreeing v) (hphase : v.phase = .begun)
    (hwindow : InWindow v.trace) :
    Agreeing ({ v with phase := .requested }.log
      [.delta v.current (Ring.wire (v.frames (slot v.current)).deltaSequence)]) := by
  have hunchanged := h.unchanged hwindow
  -- the packet begun has made no request yet
  have hlength : (requests v.trace).length = (sents v.trace).length := by
    rw [hv.requests_length, hphase]
    rfl
  have hslot : slot v.current = slotOf (requests v.trace).length := by
    rw [hv.current, hlength]
    rfl
  constructor
  · intro k copied request hk hk'
    simp [Ring.log] at hk hk'
    rcases getElem?_concat hk' with hk' | ⟨rfl, rfl⟩
    · exact h.alike k copied request hk hk'
    · show Ring.wire (v.deltas (slot v.current)) = _
      rw [hslot, hunchanged.copied _ copied hk (Nat.le_refl _)]
  · intro _
    constructor
    · intro k copied hk hle
      simp [Ring.log] at hk hle
      exact hunchanged.copied k copied hk (by omega)
    · intro k request hk hle
      simp [Ring.log] at hk hle
      rcases getElem?_concat hk with hk | ⟨rfl, rfl⟩
      · exact hunchanged.requested k request hk hle
      · show Ring.wire (v.deltas (slot v.current)) = _
        rw [hslot]
        rfl

theorem step {v' : Ring} {generates : Bool} (hv : Counted v) (h : Agreeing v)
    (hwindow : InWindow v.trace) (hsettled : generates = true → v.RequestSettled)
    (hstep : Ring.Step generates v v') : Agreeing v' := by
  -- only a frame, a copy and a request touch what is compared
  cases hstep with
  | silent _ hoff =>
    refine h.congr rfl ?_ ?_ hwindow
    · simp [Ring.log, copies_offRing hoff]
    · simp [Ring.log, requests_offRing hoff]
  | setDeltaPoint _ n => exact ⟨h.alike, fun hwindow => (h.unchanged hwindow).congr rfl rfl rfl⟩
  | generate _ gs => exact h.foldl_generate hv gs hwindow (hsettled rfl)
  | copy _ =>
    obtain ⟨hall, hwindow'⟩ := h.copyOne_iterate hv hv.tocopy_le hwindow
    refine hall.congr rfl ?_ ?_ hwindow'
    · simp [Ring.copy, Ring.log]
    · simp [Ring.copy, Ring.log]
  | build _ hphase htosend =>
    exact h.congr rfl (by simp [Ring.log]) (by simp [Ring.log]) hwindow
  | request _ hphase => exact h.request hv hphase hwindow
  | finish _ hphase =>
    exact h.congr rfl (by simp [Ring.log]) (by simp [Ring.log]) hwindow

end Agreeing

/-! ## Every run -/

/-- The clock reading of a call of `NetQW_GenerateFrames`. -/
def Action.generatesAt? : Action → Option (BitVec 64)
  | .generate curtime .. | .netGenerate curtime .. => some curtime
  | _ => none

/-- A call that generates a frame finds the request of the current packet settled. -/
def FindsSettled (a : Action) (c : Client) : Prop :=
  ∀ curtime ∈ a.generatesAt?, c.netqw.state = .connected ∧ c.netqw.Due curtime →
    c.ring.RequestSettled

instance (a : Action) (c : Client) : Decidable (FindsSettled a c) :=
  Option.decidableForallMem a.generatesAt?

/-- The window is open, requests are settled when frames are generated, and commands are
    ordinary. -/
def DeltaOk (a : Action) (c : Client) : Prop :=
  InWindow c.netqw.trace ∧ FindsSettled a c ∧ ∀ b ∈ a.appended?, b.Ordinary

instance (a : Action) (c : Client) : Decidable (DeltaOk a c) :=
  inferInstanceAs (Decidable (_ ∧ _ ∧ ∀ b ∈ a.appended?, _))

/-- A call of `NetQW_GenerateFrames` that comes too early leaves the ring alone. -/
theorem ring_of_idle {angle16 : BitVec 32 → BitVec 16} {a : Action} {c c' : Client}
    (hgenerates : a.generates = true)
    (hidle : ∀ curtime ∈ a.generatesAt?, ¬(c.netqw.state = .connected ∧ c.netqw.Due curtime))
    (h : Client.step angle16 a c = some c') : c'.ring = c.ring := by
  cases a
  case generate curtime senttime fuel =>
    obtain ⟨q', hq', rfl⟩ := Option.map_eq_some_iff.mp h
    rw [NetQW.exec_generateFrames_idle (hidle curtime rfl) hq']
  case netGenerate curtime senttime fuel =>
    obtain ⟨hpc, q', hq', rfl⟩ := Client.netGenerate_spec h
    rw [NetQW.exec_generateFrames_idle (hidle curtime rfl) hq', Client.ring, Client.ring, hpc]
    rfl
  all_goals exact Bool.noConfusion hgenerates

/-- In every run whose steps meet the condition, the client's delta numbers agree with the
    requests on the wire. -/
theorem deltas_agree (angle16 : BitVec 32 → BitVec 16) {c : Client}
    (h : (Client.system angle16).Reaches DeltaOk c) : DeltasAgree c.netqw.trace := by
  have hinit : ∀ c, Client.Init c → Agreeing c.ring ∧ c.AllOrdinary := by
    intro c hc
    refine ⟨?_, Client.allOrdinary_of_init hc⟩
    rw [hc.ring]
    constructor
    · intro k copied request hk
      exact nomatch hk
    · intro _
      exact ⟨fun k copied hk => (nomatch hk), fun k request hk => nomatch hk⟩
  have hstep : ∀ a c c', Counted c.ring → Agreeing c.ring ∧ c.AllOrdinary → DeltaOk a c →
      Client.step angle16 a c = some c' → Agreeing c'.ring ∧ c'.AllOrdinary := by
    rintro a c c' hc ⟨ha, hordinary⟩ ⟨hwindow, hsettled, happended⟩ hstep
    refine ⟨?_, hordinary.step happended hstep⟩
    by_cases hidle : ∀ curtime ∈ a.generatesAt?,
        ¬(c.netqw.state = .connected ∧ c.netqw.Due curtime)
    · cases hgenerates : a.generates with
      | true =>
        rw [ring_of_idle hgenerates hidle hstep]
        exact ha
      | false =>
        have hring := Client.step_ring hstep
        rw [hgenerates] at hring
        exact ha.step hc hwindow Bool.noConfusion hring
    · obtain ⟨curtime, hcurtime, hdue⟩ := by simpa only [not_forall, not_not] using hidle
      exact ha.step hc hwindow (fun _ => hsettled curtime hcurtime hdue) (Client.step_ring hstep)
  obtain ⟨hagreeing, hordinary⟩ := h.invariant_of (fun _ => Client.counted) hinit hstep
  intro k copied packet hk hk'
  obtain ⟨⟨request, hrequest, hdelta⟩, -⟩ :=
    Client.departure_spec h.reachable hk' (hordinary.sent packet (List.mem_of_getElem? hk'))
  rw [hdelta]
  exact wire_agree (hagreeing.alike k copied request hk hrequest)

namespace Client

/-- The first frame is generated, copied and sent. -/
def firstFrame : List Action :=
  [.beginSend 14000#64 fun _ => 0, .netGenerate 14000#64 (fun _ => 0) 2, .copyFrames] ++
    packetRun 14000#64

/-- A delta point becomes known before the second frame is generated. -/
def secondFrame : List Action :=
  [.setDeltaPoint 1#32, .generate 28000#64 (fun _ => 0) 2, .copyFrames] ++ packetRun 28000#64

end Client

/-- In this run both the client and packet 2 have the delta point. -/
theorem deltas_agree_second : ∃ c, (Client.system fun _ => 0).runOk DeltaOk
    (Client.handshake ++ Client.firstFrame ++ Client.secondFrame) Client.fresh = some c ∧
    (copies c.netqw.trace).map (fun f => f.2.deltaSequence) = [-1#32, 1#32] ∧
    (departures c.netqw.trace).map (fun p => deltaOf p.1) = [none, some 1#8] ∧
    DeltasAgree c.netqw.trace := by
  have heq : ((Client.system fun _ => 0).runOk DeltaOk
      (Client.handshake ++ Client.firstFrame ++ Client.secondFrame) Client.fresh).map (fun c =>
        ((copies c.netqw.trace).map fun f => f.2.deltaSequence,
          (departures c.netqw.trace).map fun p => deltaOf p.1))
        = some ([-1#32, 1#32], [none, some 1#8]) := by
    decide +kernel
  obtain ⟨c, hrun, hread⟩ := Option.map_eq_some_iff.mp heq
  obtain ⟨hcopies, hrequests⟩ := Prod.mk.inj hread
  exact ⟨c, hrun, hcopies, hrequests,
    deltas_agree _ (Transitions.Reaches.runOk (.init ⟨_, _, _, _, rfl⟩) hrun)⟩

/-! ## A request that changes in between -/

namespace Client

/-- Two frames are generated and copied.  Then a delta point becomes known, and before packet 2 is
    sent one more frame is generated. -/
def lateDelta : List Action :=
  [.generate 42000#64 (fun _ => 0) 3, .copyFrames, .setDeltaPoint 1#32,
    .generate 56000#64 (fun _ => 0) 2] ++ packetRun 56000#64

end Client

/-- The client's ring says -1 for frame 2, and packet 2 asks for a delta from packet 1. -/
theorem deltas_not_agree : ∃ c, (Client.system fun _ => 0).run
    (Client.handshake ++ Client.firstFrame ++ Client.lateDelta) Client.fresh = some c ∧
    (generated c.netqw.trace).length = 4 ∧
    (copies c.netqw.trace).map (fun f => f.2.deltaSequence) = [-1#32, -1#32, -1#32] ∧
    (departures c.netqw.trace).map (fun p => deltaOf p.1) = [none, some 1#8] ∧
    ¬ DeltasAgree c.netqw.trace := by
  have heq : ((Client.system fun _ => 0).run
      (Client.handshake ++ Client.firstFrame ++ Client.lateDelta) Client.fresh).map (fun c =>
        ((generated c.netqw.trace).length, (copies c.netqw.trace).map fun f => f.2.deltaSequence,
          (departures c.netqw.trace).map fun p => deltaOf p.1))
        = some (4, [-1#32, -1#32, -1#32], [none, some 1#8]) := by
    decide +kernel
  obtain ⟨c, hrun, hread⟩ := Option.map_eq_some_iff.mp heq
  simp only [Prod.mk.injEq] at hread
  obtain ⟨hgenerated, hcopies, hrequests⟩ := hread
  refine ⟨c, hrun, hgenerated, hcopies, hrequests, ?_⟩
  intro hagree
  -- Entry 1 of both histories is that of packet 2
  obtain ⟨copied, hcopied, hdelta⟩ : ∃ f, (copies c.netqw.trace)[1]? = some f ∧
      f.2.deltaSequence = -1#32 := by
    have := congrArg (fun xs => xs[1]?) hcopies
    rw [List.getElem?_map] at this
    exact Option.map_eq_some_iff.mp this
  obtain ⟨packet, hpacket, hbyte⟩ : ∃ p, (departures c.netqw.trace)[1]? = some p ∧
      deltaOf p.1 = some 1#8 := by
    have := congrArg (fun xs => xs[1]?) hrequests
    rw [List.getElem?_map] at this
    exact Option.map_eq_some_iff.mp this
  have hnone := (hagree 1 copied packet hcopied hpacket).1.mp hdelta
  rw [hbyte] at hnone
  exact nomatch hnone

end QwNet
