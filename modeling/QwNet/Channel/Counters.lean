/-
  QwNet.Channel.Counters

  What the counters of the ring count.

  The five counters are all that is left of three numbers that only grow: how many
  frames were generated, how many packets were sent, and how many frames were copied.
  A frame lies in the slot of the packet that will carry it until the ring has gone
  round once.
-/
import QwNet.Channel.Ring
import QwNet.Lib.History

namespace QwNet

open History

/-! ## Numbers and slots -/

/-- The sequence number of the packet that carries frame `k`, counted from zero. -/
def seqOf (k : Nat) : BitVec 32 := BitVec.ofNat 32 (k + 1)

/-- The slot of that sequence number. -/
def slotOf (k : Nat) : Slot := slot (seqOf k)

theorem slotOf_toNat (k : Nat) : (slotOf k).toNat = (k + 1) % 64 := by
  rw [slotOf, slot, seqOf, BitVec.toNat_setWidth, BitVec.toNat_ofNat]
  omega

theorem spread_slotOf : Spread slotOf 64 := by
  intro j k hlt hlt' heq
  have := congrArg BitVec.toNat heq
  rw [slotOf_toNat, slotOf_toNat] at this
  omega

theorem slotOf_add (k : Nat) : slotOf (k + 64) = slotOf k := by
  apply BitVec.eq_of_toNat_eq
  rw [slotOf_toNat, slotOf_toNat]
  omega

theorem toNat_and_updateMask (x : BitVec 32) : (x &&& updateMask).toNat = x.toNat % 64 := by
  rw [BitVec.toNat_and, show updateMask.toNat = 2 ^ 6 - 1 from rfl, Nat.and_two_pow_sub_one_eq_mod]

/-- `n & UPDATE_MASK` is the index of `n`. -/
theorem slot_and_updateMask (x : BitVec 32) : slot (x &&& updateMask) = slot x := by
  apply BitVec.eq_of_toNat_eq
  rw [slot, slot, BitVec.toNat_setWidth, BitVec.toNat_setWidth, toNat_and_updateMask]
  omega

theorem and_updateMask_eq_iff (x y : BitVec 32) :
    x &&& updateMask = y &&& updateMask ↔ x.toNat % 64 = y.toNat % 64 := by
  rw [← toNat_and_updateMask, ← toNat_and_updateMask, BitVec.toNat_inj]

/-- Counting on from a masked counter. -/
theorem masked_succ (n : Nat) :
    ((BitVec.ofNat 32 n &&& updateMask) + 1#32) &&& updateMask
      = BitVec.ofNat 32 (n + 1) &&& updateMask := by
  rw [and_updateMask_eq_iff, BitVec.toNat_add, toNat_and_updateMask, BitVec.toNat_ofNat,
    BitVec.toNat_ofNat, BitVec.toNat_ofNat]
  omega

theorem slot_masked_succ (n : Nat) :
    slot (((BitVec.ofNat 32 n &&& updateMask) + 1#32) &&& updateMask) = slotOf n := by
  rw [masked_succ, slot_and_updateMask]
  rfl

/-! ## The counters -/

/-- Packets begun but not sent. -/
def Phase.begunPackets : Phase → Nat
  | .between => 0
  | .begun | .requested => 1

/-- Packets with a delta request but not sent. -/
def Phase.requestedPackets : Phase → Nat
  | .requested => 1
  | .between | .begun => 0

/-- The counters count the history. -/
structure Counted (v : Ring) : Prop where
  current : v.current = seqOf (sents v.trace).length
  lastsent : v.lastsent = BitVec.ofNat 32 (sents v.trace).length
  tosend : v.tosend
    = BitVec.ofNat 32 ((generated v.trace).length - (sents v.trace).length)
  lastcopied : v.lastcopied = BitVec.ofNat 32 (copies v.trace).length &&& updateMask
  tocopy : v.tocopy
    = BitVec.ofNat 32 ((generated v.trace).length - (copies v.trace).length)
  copied_le : (copies v.trace).length ≤ (generated v.trace).length
  generated_slots : Indexed (fun k g => g.1 = slotOf k) (generated v.trace)
  copies_slots : Indexed (fun k f => f.1 = slotOf k) (copies v.trace)
  built_le : (builds v.trace).length ≤ (generated v.trace).length
  builds_length : (builds v.trace).length = (sents v.trace).length + v.phase.begunPackets
  builds_seq : Indexed (fun k b => b.1 = seqOf k) (builds v.trace)
  requests_length : (requests v.trace).length
    = (sents v.trace).length + v.phase.requestedPackets
  requests_seq : Indexed (fun k r => r.1 = seqOf k) (requests v.trace)

namespace Counted

variable {v : Ring}

theorem sent_le (h : Counted v) :
    (sents v.trace).length ≤ (generated v.trace).length := by
  have := h.built_le
  have := h.builds_length
  omega

/-- Events off the ring change nothing. -/
theorem log {es : List NetEvent} (h : Counted v) (hoff : ∀ e ∈ es, e.offRing = true) :
    Counted (v.log es) := by
  have hg : generated (v.trace ++ es) = generated v.trace := by
    rw [generated_append, generated_offRing hoff, List.append_nil]
  have hc : copies (v.trace ++ es) = copies v.trace := by
    rw [copies_append, copies_offRing hoff, List.append_nil]
  have hb : builds (v.trace ++ es) = builds v.trace := by
    rw [builds_append, builds_offRing hoff, List.append_nil]
  have hr : requests (v.trace ++ es) = requests v.trace := by
    rw [requests_append, requests_offRing hoff, List.append_nil]
  have hs : sents (v.trace ++ es) = sents v.trace := by
    rw [sents_append, sents_offRing hoff, List.append_nil]
  constructor <;> simp only [Ring.log, hg, hc, hb, hr, hs]
  exacts [h.current, h.lastsent, h.tosend, h.lastcopied, h.tocopy, h.copied_le,
    h.generated_slots, h.copies_slots, h.built_le, h.builds_length, h.builds_seq, h.requests_length,
    h.requests_seq]

/-- The number of the packet that will carry the next frame. -/
theorem next_seq (h : Counted v) :
    v.lastsent + v.tosend + 1#32 = seqOf (generated v.trace).length := by
  have hle := h.sent_le
  rw [h.lastsent, h.tosend, seqOf, ← BitVec.ofNat_add, ← BitVec.ofNat_add]
  congr 2
  omega

/-- The next frame goes to the slot of the packet that will carry it. -/
theorem next (h : Counted v) : v.next = slotOf (generated v.trace).length := by
  rw [Ring.next, h.next_seq]
  rfl

/-- The number that the next new frame would be reported with. -/
theorem current_add_tosend (h : Counted v) :
    v.current + v.tosend = seqOf (generated v.trace).length := by
  have hle := h.sent_le
  rw [h.current, h.tosend, seqOf, seqOf, ← BitVec.ofNat_add]
  congr 1
  omega

/-- One more frame to send and to copy. -/
theorem generate (h : Counted v) (frame : Usercmd × BitVec 64) : Counted (v.generate frame) := by
  have hnext := h.next
  have hsent := h.sent_le
  have hcopied := h.copied_le
  have hbuilt := h.built_le
  -- both counters grow by one, and so do the frames they count
  obtain ⟨frames, heq⟩ := Ring.generate_eq v frame
  rw [heq]
  constructor <;> simp
  case current => exact h.current
  case lastsent => exact h.lastsent
  case tosend =>
    rw [h.tosend, ← BitVec.ofNat_add]
    congr 1
    omega
  case lastcopied => exact h.lastcopied
  case tocopy =>
    rw [h.tocopy, ← BitVec.ofNat_add]
    congr 1
    omega
  case copied_le => omega
  case generated_slots => exact h.generated_slots.concat hnext
  case copies_slots => exact h.copies_slots
  case built_le => omega
  case builds_length => exact h.builds_length
  case builds_seq => exact h.builds_seq
  case requests_length => exact h.requests_length
  case requests_seq => exact h.requests_seq

theorem foldl_generate (h : Counted v) (gs : List (Usercmd × BitVec 64)) :
    Counted (gs.foldl Ring.generate v) := by
  induction gs generalizing v with
  | nil => exact h
  | cons g gs ih => exact ih (h.generate g)

/-- One frame fewer to copy, if there was one. -/
theorem copyOne (h : Counted v) (hlt : (copies v.trace).length < (generated v.trace).length) :
    Counted v.copyOne := by
  constructor <;> simp [Ring.copyOne, Ring.log]
  case current => exact h.current
  case lastsent => exact h.lastsent
  case tosend => exact h.tosend
  case lastcopied => rw [h.lastcopied, masked_succ]
  case tocopy =>
    -- The difference is not zero, so counting it down does not wrap
    rw [h.tocopy]
    apply BitVec.eq_of_toNat_eq
    rw [BitVec.toNat_sub, BitVec.toNat_ofNat, BitVec.toNat_ofNat, BitVec.toNat_ofNat]
    omega
  case copied_le => omega
  case generated_slots => exact h.generated_slots
  case copies_slots =>
    refine h.copies_slots.concat ?_
    rw [h.lastcopied, slot_masked_succ]
  case built_le => exact h.built_le
  case builds_length => exact h.builds_length
  case builds_seq => exact h.builds_seq
  case requests_length => exact h.requests_length
  case requests_seq => exact h.requests_seq

theorem copyOne_iterate (h : Counted v) {n : Nat}
    (hle : (copies v.trace).length + n ≤ (generated v.trace).length) :
    Counted (Ring.copyOne^[n] v) := by
  induction n generalizing v with
  | zero => exact h
  | succ n ih =>
    rw [Function.iterate_succ_apply]
    apply ih (h.copyOne (by omega))
    simp only [Ring.copyOne, Ring.log, copies_append, generated_append, copies_singleton,
      generated_singleton, NetEvent.copied?, NetEvent.generated?, Option.toList_some,
      Option.toList_none, List.length_append, List.length_singleton, List.append_nil]
    omega

/-- `framestocopy` is at most what is there to copy. -/
theorem tocopy_le (h : Counted v) :
    (copies v.trace).length + v.tocopy.toNat ≤ (generated v.trace).length := by
  have hle := h.copied_le
  have hmod := Nat.mod_le ((generated v.trace).length - (copies v.trace).length) (2 ^ 32)
  rw [h.tocopy, BitVec.toNat_ofNat]
  omega

theorem copy (h : Counted v) : Counted v.copy := by
  have hall := h.copyOne_iterate h.tocopy_le
  rw [Ring.copy]
  generalize Ring.copyOne^[v.tocopy.toNat] v = v' at hall ⊢
  constructor <;> simp [Ring.log]
  exacts [hall.current, hall.lastsent, hall.tosend, hall.lastcopied, hall.tocopy, hall.copied_le,
    hall.generated_slots, hall.copies_slots, hall.built_le, hall.builds_length, hall.builds_seq,
    hall.requests_length, hall.requests_seq]

/-- A packet is only begun when there is a frame for it. -/
theorem build (h : Counted v) (hphase : v.phase = .between) (htosend : v.tosend ≠ 0#32)
    (cmds : Usercmd × Usercmd × Usercmd) :
    Counted ({ v with phase := .begun }.log [.build v.current cmds.1 cmds.2.1 cmds.2.2]) := by
  have hlength := h.builds_length
  have hrequests := h.requests_length
  rw [hphase] at hlength hrequests
  -- something is left to send, so a generated packet is still ahead
  have hlt : (sents v.trace).length < (generated v.trace).length := by
    by_contra hge
    apply htosend
    rw [h.tosend, Nat.sub_eq_zero_of_le (Nat.le_of_not_lt hge)]
  constructor <;> simp [Ring.log]
  case current => exact h.current
  case lastsent => exact h.lastsent
  case tosend => exact h.tosend
  case lastcopied => exact h.lastcopied
  case tocopy => exact h.tocopy
  case copied_le => exact h.copied_le
  case generated_slots => exact h.generated_slots
  case copies_slots => exact h.copies_slots
  case built_le =>
    rw [hlength]
    exact hlt
  case builds_length => exact congrArg (· + 1) hlength
  case builds_seq =>
    refine h.builds_seq.concat ?_
    rw [h.current, hlength]
    rfl
  case requests_length => exact hrequests
  case requests_seq => exact h.requests_seq

theorem request (h : Counted v) (hphase : v.phase = .begun) (byte : Option Byte) :
    Counted ({ v with phase := .requested }.log [.delta v.current byte]) := by
  have hlength := h.builds_length
  have hrequests := h.requests_length
  rw [hphase] at hlength hrequests
  constructor <;> simp [Ring.log]
  case current => exact h.current
  case lastsent => exact h.lastsent
  case tosend => exact h.tosend
  case lastcopied => exact h.lastcopied
  case tocopy => exact h.tocopy
  case copied_le => exact h.copied_le
  case generated_slots => exact h.generated_slots
  case copies_slots => exact h.copies_slots
  case built_le => exact h.built_le
  case builds_length => exact hlength
  case builds_seq => exact h.builds_seq
  case requests_length => exact congrArg (· + 1) hrequests
  case requests_seq =>
    refine h.requests_seq.concat ?_
    rw [h.current, hrequests]
    rfl

/-- The counters move on to the next packet. -/
theorem finish (h : Counted v) (hphase : v.phase = .requested) :
    Counted ({ v with
      phase := .between
      lastsent := v.lastsent + 1#32
      tosend := v.tosend - 1#32
      current := v.current + 1#32 }.log [.sent v.current]) := by
  have hlength := h.builds_length
  have hrequests := h.requests_length
  have hbuilt := h.built_le
  rw [hphase] at hlength hrequests
  rw [hlength] at hbuilt
  constructor <;> simp [Ring.log]
  case current =>
    rw [h.current, seqOf, seqOf, ← BitVec.ofNat_add]
  case lastsent => rw [h.lastsent, ← BitVec.ofNat_add]
  case tosend =>
    -- The frame of the packet is still counted
    rw [h.tosend]
    apply BitVec.eq_of_toNat_eq
    rw [BitVec.toNat_sub, BitVec.toNat_ofNat, BitVec.toNat_ofNat, BitVec.toNat_ofNat]
    simp only [Phase.begunPackets] at hbuilt
    omega
  case lastcopied => exact h.lastcopied
  case tocopy => exact h.tocopy
  case copied_le => exact h.copied_le
  case generated_slots => exact h.generated_slots
  case copies_slots => exact h.copies_slots
  case built_le => exact h.built_le
  case builds_length => exact hlength
  case builds_seq => exact h.builds_seq
  case requests_length => exact hrequests
  case requests_seq => exact h.requests_seq

/-- Every step of the ring keeps the count. -/
theorem step {v' : Ring} {generates : Bool} (h : Counted v) (hstep : Ring.Step generates v v') :
    Counted v' := by
  cases hstep with
  | silent _ hoff => exact h.log hoff
  | setDeltaPoint _ n => exact { h with }
  | generate _ gs => exact h.foldl_generate gs
  | copy _ => exact h.copy
  | build _ hphase htosend => exact h.build hphase htosend (_, _, _)
  | request _ hphase => exact h.request hphase _
  | finish _ hphase => exact h.finish hphase

end Counted

/-- The counters begin at zero. -/
theorem counted_initial : Counted Ring.initial where
  current := rfl
  lastsent := rfl
  tosend := rfl
  lastcopied := rfl
  tocopy := rfl
  copied_le := Nat.le_refl _
  generated_slots := indexed_nil _
  copies_slots := indexed_nil _
  built_le := Nat.le_refl _
  builds_length := rfl
  builds_seq := indexed_nil _
  requests_length := rfl
  requests_seq := indexed_nil _

/-- In every state of a client the counters count. -/
theorem Client.counted {angle16 : BitVec 32 → BitVec 16} {c : Client}
    (h : (system angle16).Reachable c) : Counted c.ring :=
  h.invariant (fun _ hc => hc.ring ▸ counted_initial) fun _ _ _ hc _ hstep =>
    hc.step (step_ring hstep)

/-! ## What a copy copies -/

/-- The frames of the `n` slots from number `k` on. -/
def Ring.window (v : Ring) (k n : Nat) : List (Slot × RingFrame) :=
  (List.range n).map fun i => (slotOf (k + i), v.frames (slotOf (k + i)))

theorem Ring.map_fst_window (v : Ring) (k n : Nat) :
    (v.window k n).map Prod.fst = (List.range n).map fun i => slotOf (k + i) := by
  rw [Ring.window, List.map_map]
  rfl

theorem Ring.frames_copyOne_iterate (v : Ring) (n : Nat) :
    (copyOne^[n] v).frames = v.frames := by
  induction n generalizing v with
  | zero => rfl
  | succ n ih => exact ih v.copyOne

theorem copies_map_copy (fs : List (Slot × RingFrame)) :
    copies (fs.map fun f => .copy f.1 f.2) = fs := by
  induction fs with
  | nil => rfl
  | cons f fs ih => exact congrArg (f :: ·) ih

theorem generated_map_copy (fs : List (Slot × RingFrame)) :
    generated (fs.map fun f => .copy f.1 f.2) = [] := by
  induction fs with
  | nil => rfl
  | cons f fs ih => exact ih

theorem builds_map_copy (fs : List (Slot × RingFrame)) :
    builds (fs.map fun f => .copy f.1 f.2) = [] := by
  induction fs with
  | nil => rfl
  | cons f fs ih => exact ih

theorem generated_map_generate (gs : List (Slot × Usercmd × BitVec 64)) :
    generated (gs.map fun g => .generate g.1 g.2.1 g.2.2) = gs := by
  induction gs with
  | nil => rfl
  | cons g gs ih => exact congrArg (g :: ·) ih

theorem copies_map_generate (gs : List (Slot × Usercmd × BitVec 64)) :
    copies (gs.map fun g => .generate g.1 g.2.1 g.2.2) = [] := by
  induction gs with
  | nil => rfl
  | cons g gs ih => exact ih

theorem builds_map_generate (gs : List (Slot × Usercmd × BitVec 64)) :
    builds (gs.map fun g => .generate g.1 g.2.1 g.2.2) = [] := by
  induction gs with
  | nil => rfl
  | cons g gs ih => exact ih

theorem sents_map_generate (gs : List (Slot × Usercmd × BitVec 64)) :
    sents (gs.map fun g => .generate g.1 g.2.1 g.2.2) = [] := by
  induction gs with
  | nil => rfl
  | cons g gs ih => exact ih

namespace Counted

variable {v : Ring}

/-- `n` frames are copied, from the first one on that was not. -/
theorem trace_copyOne_iterate (h : Counted v) {n : Nat}
    (hle : (copies v.trace).length + n ≤ (generated v.trace).length) :
    (Ring.copyOne^[n] v).trace
      = v.trace ++ (v.window (copies v.trace).length n).map fun f => .copy f.1 f.2 := by
  induction n with
  | zero => exact (List.append_nil _).symm
  | succ n ih =>
    have htrace := ih (by omega)
    have hlast := (h.copyOne_iterate (n := n) (by omega)).lastcopied
    have hlength : (copies (Ring.copyOne^[n] v).trace).length = (copies v.trace).length + n := by
      rw [htrace, copies_append, copies_map_copy, List.length_append, Ring.window,
        List.length_map, List.length_range]
    rw [Function.iterate_succ_apply', Ring.copyOne]
    dsimp only [Ring.log]
    rw [hlast, hlength, slot_masked_succ, htrace, Ring.frames_copyOne_iterate, Ring.window,
      Ring.window, List.range_succ, List.map_append, List.map_append, List.append_assoc]
    rfl

/-- What `NetQW_CopyFrames` copies and reports. -/
theorem copy_eq (h : Counted v) :
    v.copy.trace = v.trace
      ++ (v.window (copies v.trace).length v.tocopy.toNat).map (fun f => .copy f.1 f.2)
      ++ [.copied (v.current + v.tosend) ((v.lastcopied + 1#32) &&& updateMask) v.tocopy] := by
  have hnumber : ∀ n, (Ring.copyOne^[n] v).current + (Ring.copyOne^[n] v).tosend
      = v.current + v.tosend := by
    intro n
    induction n with
    | zero => rfl
    | succ n ih =>
      rw [Function.iterate_succ_apply']
      exact ih
  rw [Ring.copy]
  dsimp only [Ring.log]
  rw [hnumber, h.trace_copyOne_iterate h.tocopy_le]

/-- The numbers that `NetQW_CopyFrames` reports fit together. -/
theorem reported (h : Counted v) :
    (((v.lastcopied + 1#32) &&& updateMask) + v.tocopy) &&& updateMask
      = (v.current + v.tosend) &&& updateMask := by
  have hle := h.copied_le
  rw [h.current_add_tosend, h.lastcopied, masked_succ, h.tocopy, seqOf, and_updateMask_eq_iff,
    BitVec.toNat_add, toNat_and_updateMask, BitVec.toNat_ofNat, BitVec.toNat_ofNat,
    BitVec.toNat_ofNat]
  omega

end Counted

/-! ## The commands in the ring -/

/-- The commands in the ring and their times. -/
def Ring.contents (v : Ring) (i : Slot) : Usercmd × BitVec 64 :=
  ((v.frames i).cmd, (v.frames i).senttime)

theorem Ring.contents_generate (v : Ring) (frame : Usercmd × BitVec 64) :
    (v.generate frame).contents = Function.update v.contents v.next frame := by
  have hrequest : ∀ v : Ring, v.request.contents = v.contents := by
    intro v
    unfold Ring.request
    dsimp only
    split
    · -- Only the delta number of the entry changes
      funext i
      rcases eq_or_ne i (slot v.current) with rfl | hne
      · simp only [Ring.contents, Function.update_self]
      · simp only [Ring.contents, Function.update_of_ne hne]
    · rfl
  have hcount : ∀ v : Ring, v.count.contents = v.contents := fun v => rfl
  rw [Ring.generate, hcount, hrequest]
  funext i
  rcases eq_or_ne i v.next with rfl | hne
  · rw [Function.update_self]
    simp only [Ring.contents, Ring.store, Ring.log, Function.update_self]
  · rw [Function.update_of_ne hne]
    simp only [Ring.contents, Ring.store, Ring.log, Function.update_of_ne hne]

/-- The ring holds the last frames that were generated. -/
def Stored (v : Ring) : Prop := Holds slotOf 64 v.contents ((generated v.trace).map Prod.snd)

namespace Stored

variable {v : Ring}

theorem generate (hv : Counted v) (h : Stored v) (frame : Usercmd × BitVec 64) :
    Stored (v.generate frame) := by
  obtain ⟨frames, heq⟩ := Ring.generate_eq v frame
  have htrace : (v.generate frame).trace = v.trace ++ [.generate v.next frame.1 frame.2] := by
    rw [heq]
  have hstore := h.store spread_slotOf frame
  rw [List.length_map, ← hv.next] at hstore
  rw [Stored, Ring.contents_generate, htrace]
  simpa using hstore

theorem foldl_generate (hv : Counted v) (h : Stored v) (gs : List (Usercmd × BitVec 64)) :
    Stored (gs.foldl Ring.generate v) := by
  induction gs generalizing v with
  | nil => exact h
  | cons g gs ih => exact ih (hv.generate g) (h.generate hv g)

/-- What neither generates frames nor changes commands keeps what the ring holds. -/
theorem congr {v' : Ring} (h : Stored v) (hcontents : v'.contents = v.contents)
    (hgenerated : generated v'.trace = generated v.trace) : Stored v' := by
  rw [Stored, hcontents, hgenerated]
  exact h

theorem copyOne_iterate (h : Stored v) (n : Nat) : Stored (Ring.copyOne^[n] v) := by
  induction n generalizing v with
  | zero => exact h
  | succ n ih =>
    apply ih
    exact h.congr rfl (by simp [Ring.copyOne, Ring.log])

/-- Every step of the ring keeps what it holds. -/
theorem step {v' : Ring} {generates : Bool} (hv : Counted v) (h : Stored v)
    (hstep : Ring.Step generates v v') : Stored v' := by
  cases hstep with
  | silent _ hoff =>
    exact h.congr rfl (by rw [Ring.log, generated_append, generated_offRing hoff, List.append_nil])
  | setDeltaPoint _ n => exact h
  | generate _ gs => exact h.foldl_generate hv gs
  | copy _ =>
    exact (h.copyOne_iterate v.tocopy.toNat).congr rfl (by simp [Ring.copy, Ring.log])
  | build _ hphase htosend => exact h.congr rfl (by simp [Ring.log])
  | request _ hphase => exact h.congr rfl (by simp [Ring.log])
  | finish _ hphase => exact h.congr rfl (by simp [Ring.log])

end Stored

theorem Client.stored {angle16 : BitVec 32 → BitVec 16} {c : Client}
    (h : (system angle16).Reachable c) : Stored c.ring := by
  have hinit : ∀ c, Client.Init c → Stored c.ring := by
    intro c hc
    rw [hc.ring]
    exact holds_nil _ _ _
  have hstep : ∀ a c c', Counted c.ring → Stored c.ring → True → step angle16 a c = some c' →
      Stored c'.ring := fun _ _ _ hc hs _ hstep => hs.step hc (step_ring hstep)
  exact h.invariant_of (fun _ => Client.counted) hinit hstep

namespace Client

variable {angle16 : BitVec 32 → BitVec 16} {c : Client} (h : (system angle16).Reachable c)
include h

theorem currentOutgoingSequenceNumber_eq : c.netqw.currentOutgoingSequenceNumber
    = seqOf (sents c.netqw.trace).length := (counted h).current

theorem framestosend_eq : c.netqw.framestosend = BitVec.ofNat 32
    ((generated c.netqw.trace).length - (sents c.netqw.trace).length) := (counted h).tosend

theorem framestocopy_eq : c.netqw.framestocopy = BitVec.ofNat 32
    ((generated c.netqw.trace).length - (copies c.netqw.trace).length) := (counted h).tocopy

/-- A frame is in its slot until the ring has gone round. -/
theorem frames_slotOf {k : Nat} {frame : Slot × Usercmd × BitVec 64}
    (hframe : (generated c.netqw.trace)[k]? = some frame)
    (hle : (generated c.netqw.trace).length ≤ k + 64) :
    (c.netqw.frames (slotOf k)).cmd = frame.2.1 ∧
      (c.netqw.frames (slotOf k)).senttime = frame.2.2 := by
  have hcontents := stored h k frame.2 (by rw [List.getElem?_map]; exact congrArg _ hframe)
    (by rw [List.length_map]; exact hle)
  exact ⟨congrArg Prod.fst hcontents, congrArg Prod.snd hcontents⟩

end Client

end QwNet
