/-
  QwNet.Channel.Numbering

  The frame ring keeps step with the numbering of packets.

  A frame is stored in the slot of the packet that will carry it, and
  `NetQW_CopyFrames` hands the client the frames generated since it was last called,
  as long as their number fits into an `unsigned int`.
-/
import QwNet.Channel.Connect
import QwNet.Channel.Counters

namespace QwNet

open History

/-! ## The frames generated since the last copy -/

/-- One more event. -/
@[simp] def NetEvent.sinceCopy : List Slot → NetEvent → List Slot
  | slots, .generate slot _ _ => slots ++ [slot]
  | _, .copied .. => []
  | slots, _ => slots

/-- The slots of the frames generated since the last `NetQW_CopyFrames`, oldest first. -/
def sinceCopy (trace : List NetEvent) : List Slot := trace.foldl NetEvent.sinceCopy []

theorem sinceCopy_append (t es : List NetEvent) :
    sinceCopy (t ++ es) = es.foldl NetEvent.sinceCopy (sinceCopy t) := List.foldl_append

theorem sinceCopy_concat (t : List NetEvent) (e : NetEvent) :
    sinceCopy (t ++ [e]) = NetEvent.sinceCopy (sinceCopy t) e := sinceCopy_append t [e]

/-- Events that are neither frames nor copies leave no mark. -/
theorem foldl_sinceCopy_offRing {es : List NetEvent} (hoff : ∀ e ∈ es, e.offRing = true)
    (slots : List Slot) : es.foldl NetEvent.sinceCopy slots = slots := by
  induction es generalizing slots with
  | nil => rfl
  | cons e es ih =>
    have hfirst : NetEvent.sinceCopy slots e = slots := by
      have he := hoff e List.mem_cons_self
      cases e <;> first | rfl | exact nomatch he
    rw [List.foldl_cons, hfirst]
    exact ih (fun e he => hoff e (List.mem_cons_of_mem _ he)) slots

theorem foldl_sinceCopy_generate (gs : List (Slot × Usercmd × BitVec 64)) (slots : List Slot) :
    (gs.map fun g => NetEvent.generate g.1 g.2.1 g.2.2).foldl NetEvent.sinceCopy slots
      = slots ++ gs.map Prod.fst := by
  induction gs generalizing slots with
  | nil => exact (List.append_nil slots).symm
  | cons g gs ih =>
    rw [List.map_cons, List.foldl_cons, ih, NetEvent.sinceCopy, List.append_assoc]
    rfl

/-! ## What is still to be copied -/

/-- What is still to be copied are the frames generated since the last copy, up to
    rounds of the counter that it has forgotten. -/
def Uncopied (v : Ring) : Prop :=
  ∃ n rounds, sinceCopy v.trace = (List.range n).map (fun i => slotOf ((copies v.trace).length + i))
    ∧ (generated v.trace).length = (copies v.trace).length + n + 2 ^ 32 * rounds

theorem slotOf_add_rounds (k rounds : Nat) : slotOf (k + 2 ^ 32 * rounds) = slotOf k := by
  apply BitVec.eq_of_toNat_eq
  rw [slotOf_toNat, slotOf_toNat]
  omega

namespace Uncopied

variable {v : Ring}

theorem generate (hv : Counted v) (h : Uncopied v) (frame : Usercmd × BitVec 64) :
    Uncopied (v.generate frame) := by
  obtain ⟨n, rounds, hsince, hcount⟩ := h
  obtain ⟨frames, heq⟩ := Ring.generate_eq v frame
  have hnext : v.next = slotOf ((copies v.trace).length + n) := by
    rw [hv.next, hcount, slotOf_add_rounds]
  refine ⟨n + 1, rounds, ?_, ?_⟩
  · rw [heq, sinceCopy_concat, NetEvent.sinceCopy, hsince, hnext, List.range_succ]
    simp
  · rw [heq]
    simp
    omega

theorem foldl_generate (hv : Counted v) (h : Uncopied v) (gs : List (Usercmd × BitVec 64)) :
    Uncopied (gs.foldl Ring.generate v) := by
  induction gs generalizing v with
  | nil => exact h
  | cons g gs ih => exact ih (hv.generate g) (h.generate hv g)

/-- After a copy nothing is left to be copied. -/
theorem copy (hv : Counted v) : Uncopied v.copy := by
  have hle := hv.copied_le
  have htocopy := congrArg BitVec.toNat hv.tocopy
  rw [BitVec.toNat_ofNat] at htocopy
  refine ⟨0, ((generated v.trace).length - (copies v.trace).length) / 2 ^ 32, ?_, ?_⟩
  · rw [hv.copy_eq, sinceCopy_concat]
    rfl
  · have hgenerated : (generated v.copy.trace).length = (generated v.trace).length := by
      rw [hv.copy_eq]
      simp [generated_map_copy]
    have hcopies : (copies v.copy.trace).length = (copies v.trace).length + v.tocopy.toNat := by
      rw [hv.copy_eq, copies_append, copies_append, copies_map_copy]
      simp [Ring.window]
    rw [hgenerated, hcopies, htocopy]
    omega

/-- What neither generates nor copies frames keeps what is to be copied. -/
theorem congr {v' : Ring} (h : Uncopied v) (hsince : sinceCopy v'.trace = sinceCopy v.trace)
    (hgenerated : generated v'.trace = generated v.trace)
    (hcopies : copies v'.trace = copies v.trace) : Uncopied v' := by
  rw [Uncopied, hsince, hgenerated, hcopies]
  exact h

theorem step {v' : Ring} {generates : Bool} (hv : Counted v) (h : Uncopied v)
    (hstep : Ring.Step generates v v') : Uncopied v' := by
  cases hstep with
  | silent _ hoff =>
    apply h.congr
    · rw [Ring.log, sinceCopy_append, foldl_sinceCopy_offRing hoff]
    · rw [Ring.log, generated_append, generated_offRing hoff, List.append_nil]
    · rw [Ring.log, copies_append, copies_offRing hoff, List.append_nil]
  | setDeltaPoint _ n => exact h
  | generate _ gs => exact h.foldl_generate hv gs
  | copy _ => exact Uncopied.copy hv
  | build _ hphase htosend =>
    exact h.congr (by rw [Ring.log, sinceCopy_concat]; rfl) (by simp [Ring.log]) (by simp [Ring.log])
  | request _ hphase =>
    exact h.congr (by rw [Ring.log, sinceCopy_concat]; rfl) (by simp [Ring.log]) (by simp [Ring.log])
  | finish _ hphase =>
    exact h.congr (by rw [Ring.log, sinceCopy_concat]; rfl) (by simp [Ring.log]) (by simp [Ring.log])

/-- As long as the counter has not gone round, all frames since the last copy are copied. -/
theorem map_fst_window (hv : Counted v) (h : Uncopied v)
    (hlt : (sinceCopy v.trace).length < 2 ^ 32) :
    v.tocopy.toNat = (sinceCopy v.trace).length ∧
      (v.window (copies v.trace).length v.tocopy.toNat).map Prod.fst = sinceCopy v.trace := by
  obtain ⟨n, rounds, hsince, hcount⟩ := h
  have hlength : (sinceCopy v.trace).length = n := by
    rw [hsince, List.length_map, List.length_range]
  have htocopy : v.tocopy.toNat = n := by
    rw [hv.tocopy, BitVec.toNat_ofNat]
    omega
  refine ⟨htocopy.trans hlength.symm, ?_⟩
  rw [Ring.map_fst_window, htocopy, hsince]

end Uncopied

theorem Client.uncopied {angle16 : BitVec 32 → BitVec 16} {c : Client}
    (h : (system angle16).Reachable c) : Uncopied c.ring := by
  have hinit : ∀ c, Client.Init c → Uncopied c.ring := by
    intro c hc
    rw [hc.ring]
    exact ⟨0, 0, rfl, rfl⟩
  have hstep : ∀ a c c', Counted c.ring → Uncopied c.ring → True → step angle16 a c = some c' →
      Uncopied c'.ring := fun _ _ _ hc hu _ hstep => hu.step hc (step_ring hstep)
  exact h.invariant_of (fun _ => Client.counted) hinit hstep

/-! ## The ring never drifts -/

/-- The ring keeps step with the numbering of packets. -/
structure Aligned (q : NetQW) : Prop where
  /-- The counters of packets. -/
  current : q.currentOutgoingSequenceNumber = q.lastsentframe + 1#32
  /-- The counters of copies are those of packets. -/
  copied : (q.lastcopiedframe + q.framestocopy) &&& updateMask
    = (q.lastsentframe + q.framestosend) &&& updateMask
  /-- A frame goes to the slot of the packet that carries it. -/
  carried : ∀ (k : Nat) frame packet, (generated q.trace)[k]? = some frame →
    (builds q.trace)[k]? = some packet → frame.1 = slot packet.1
  /-- The frame is there until the ring has gone round. -/
  stored : ∀ (k : Nat) frame, (generated q.trace)[k]? = some frame →
    (generated q.trace).length ≤ k + 64 →
    (q.frames frame.1).cmd = frame.2.1 ∧ (q.frames frame.1).senttime = frame.2.2

/-- What a call of `NetQW_CopyFrames` does: the frames it copies, and the three numbers it
    reports. -/
structure CopiesAligned (q : NetQW) (copied : List (Slot × RingFrame))
    (newseqnr startframe numframes : BitVec 32) : Prop where
  trace : q.copyFrames.trace = q.trace ++ copied.map (fun f => .copy f.1 f.2)
    ++ [.copied newseqnr startframe numframes]
  reported : (startframe + numframes) &&& updateMask = newseqnr &&& updateMask
  frames : ∀ f ∈ copied, f.2 = q.frames f.1
  /-- Unless the counter has gone round, these are the frames since the last copy. -/
  exactly : (sinceCopy q.trace).length < 2 ^ 32 →
    numframes.toNat = (sinceCopy q.trace).length ∧ copied.map Prod.fst = sinceCopy q.trace

theorem Client.aligned {angle16 : BitVec 32 → BitVec 16} {c : Client}
    (h : (system angle16).Reachable c) : Aligned c.netqw where
  current := by
    have hcounted := counted h
    rw [show c.netqw.currentOutgoingSequenceNumber = _ from hcounted.current,
      show c.netqw.lastsentframe = _ from hcounted.lastsent, seqOf, BitVec.ofNat_add]
  copied := by
    have hcounted := counted h
    have hsent := hcounted.sent_le
    have hcopied := hcounted.copied_le
    rw [show c.netqw.lastcopiedframe = _ from hcounted.lastcopied,
      show c.netqw.framestocopy = _ from hcounted.tocopy,
      show c.netqw.lastsentframe = _ from hcounted.lastsent,
      show c.netqw.framestosend = _ from hcounted.tosend,
      and_updateMask_eq_iff, BitVec.toNat_add, BitVec.toNat_add, toNat_and_updateMask,
      BitVec.toNat_ofNat, BitVec.toNat_ofNat, BitVec.toNat_ofNat, BitVec.toNat_ofNat]
    omega
  carried := by
    intro k frame packet hframe hpacket
    have hcounted := counted h
    rw [hcounted.generated_slots k frame hframe, hcounted.builds_seq k packet hpacket]
    rfl
  stored := by
    intro k frame hframe hlength
    rw [(counted h).generated_slots k frame hframe]
    exact frames_slotOf h hframe hlength

/-- In every run of the client the ring is aligned, and a call of `NetQW_CopyFrames` copies
    the frames generated since the one before it. -/
theorem ring_aligned (angle16 : BitVec 32 → BitVec 16) {c : Client}
    (h : (Client.system angle16).Reachable c) : Aligned c.netqw ∧
      ∃ copied newseqnr startframe numframes,
        CopiesAligned c.netqw copied newseqnr startframe numframes := by
  have hcounted := Client.counted h
  have huncopied := Client.uncopied h
  have htrace : c.netqw.copyFrames.trace = c.ring.copy.trace :=
    congrArg Ring.trace (ring_copyFrames c.netqw c.pc.phase)
  refine ⟨Client.aligned h,
    c.ring.window (copies c.netqw.trace).length c.netqw.framestocopy.toNat, _, _, _,
    htrace.trans hcounted.copy_eq, hcounted.reported, ?_, huncopied.map_fst_window hcounted⟩
  intro f hf
  obtain ⟨i, -, rfl⟩ := List.mem_map.mp hf
  rfl

/-- A client that has three frames to send and to copy is aligned. -/
theorem ring_aligned_stalled : Aligned (Client.stalled 3).netqw ∧
    ∃ copied newseqnr startframe numframes,
      CopiesAligned (Client.stalled 3).netqw copied newseqnr startframe numframes :=
  ring_aligned (fun _ => 0) (Client.stalled_reachable _ (by decide))

/-- After a stall of `n` frames, where `n` is zero in an `unsigned int`, none is copied. -/
theorem stalled_copyFrames {n : Nat} (hwrap : (n + 1) * 14000 < 2 ^ 64)
    (hzero : BitVec.ofNat 32 n = 0#32) :
    (sinceCopy (Client.stalled n).netqw.trace).length = n ∧
      copies (Client.stalled n).netqw.copyFrames.trace = [] := by
  have hreachable := Client.stalled_reachable (fun _ => 0) hwrap
  obtain ⟨gs, hlength, htrace⟩ := Client.stalled_trace n
  generalize Client.stalled n = c at *
  constructor
  · rw [htrace, ← List.singleton_append, sinceCopy_append, foldl_sinceCopy_generate,
      List.length_append, List.length_map, hlength]
    exact Nat.zero_add n
  · have hcopies : copies c.netqw.trace = [] := by
      rw [htrace, ← List.singleton_append, copies_append, copies_map_generate]
      rfl
    have hgenerated : (generated c.netqw.trace).length = n := by
      rw [htrace, ← List.singleton_append, generated_append, generated_map_generate]
      exact hlength
    have htocopy : c.netqw.framestocopy = 0#32 := by
      rw [Client.framestocopy_eq hreachable, hgenerated, hcopies, List.length_nil, Nat.sub_zero, hzero]
    rw [NetQW.copyFrames, htocopy]
    show copies (c.netqw.trace ++ [_]) = []
    rw [copies_append, hcopies]
    rfl

/-- Without the bound this is not so: after a stall of `2 ^ 32` frames (of 14 milliseconds,
    about two years) `framestocopy` is zero again, and none of them is copied. -/
theorem copyFrames_not_exact :
    (Client.system fun _ => 0).Reachable (Client.stalled (2 ^ 32)) ∧
      (sinceCopy (Client.stalled (2 ^ 32)).netqw.trace).length = 2 ^ 32 ∧
      copies (Client.stalled (2 ^ 32)).netqw.copyFrames.trace = [] :=
  ⟨Client.stalled_reachable _ (by decide), stalled_copyFrames (by decide) (by decide)⟩

end QwNet
