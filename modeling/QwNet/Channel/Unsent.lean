/-
  QwNet.Channel.Unsent

  Commands that are overwritten before they were sent.

  A packet carries the command of its own frame and those of the two before.  The ring
  holds the last 64 frames, and nothing keeps `NetQW_GenerateFrames` from generating
  more than that before they are sent: only the network thread limits how long a stall
  it catches up with.
-/
import QwNet.Channel.Connect
import QwNet.Channel.Counters

namespace QwNet

open History

/-! ## Packets and the commands they read -/

/-- `cmd` is the command of frame `k`, and no later frame was stored in its slot. -/
def HoldsCommand (trace : List NetEvent) (k : Nat) (cmd : Usercmd) : Prop :=
  ∃ frame, (generated trace)[k]? = some frame ∧ cmd = frame.2.1 ∧
    ∀ (k' : Nat) frame', k < k' → (generated trace)[k']? = some frame' → frame'.1 ≠ frame.1

/-- The packet begun after `trace` reads the commands generated for its number and, as far
    as they exist, the two before. -/
def PacketIntact (trace : List NetEvent) (packet : BitVec 32 × Usercmd × Usercmd × Usercmd) : Prop :=
  let s := (builds trace).length
  HoldsCommand trace s packet.2.2.2 ∧
    (1 ≤ s → HoldsCommand trace (s - 1) packet.2.2.1) ∧
    (2 ≤ s → HoldsCommand trace (s - 2) packet.2.1)

/-- When the packet was begun, the ring had not gone round since the oldest command that it
    reads was stored. -/
def PacketFits (trace : List NetEvent) : Prop :=
  (generated trace).length ≤ ((builds trace).length - 2) + 64

/-- What is known of a packet that was begun: there was a frame for it, and it read what
    the ring held. -/
structure PacketRead (trace : List NetEvent)
    (packet : BitVec 32 × Usercmd × Usercmd × Usercmd) : Prop where
  lt : (builds trace).length < (generated trace).length
  slots : Indexed (fun k g => g.1 = slotOf k) (generated trace)
  cmd₀ : ∀ frame, (generated trace)[(builds trace).length]? = some frame →
    (generated trace).length ≤ (builds trace).length + 64 → packet.2.2.2 = frame.2.1
  cmd₁ : ∀ frame, 1 ≤ (builds trace).length →
    (generated trace)[(builds trace).length - 1]? = some frame →
    (generated trace).length ≤ (builds trace).length - 1 + 64 → packet.2.2.1 = frame.2.1
  cmd₂ : ∀ frame, 2 ≤ (builds trace).length →
    (generated trace)[(builds trace).length - 2]? = some frame →
    (generated trace).length ≤ (builds trace).length - 2 + 64 → packet.2.1 = frame.2.1

section

variable {trace : List NetEvent} {packet : BitVec 32 × Usercmd × Usercmd × Usercmd}

/-- A frame followed by at most 63 others is not overwritten. -/
theorem HoldsCommand.of_le {k : Nat} {cmd : Usercmd}
    (hslots : Indexed (fun k g => g.1 = slotOf k) (generated trace))
    (hk : k < (generated trace).length) (hle : (generated trace).length ≤ k + 64)
    (hcmd : ∀ frame, (generated trace)[k]? = some frame → cmd = frame.2.1) :
    HoldsCommand trace k cmd := by
  have hframe := List.getElem?_eq_getElem hk
  refine ⟨_, hframe, hcmd _ hframe, ?_⟩
  intro k' frame' hlt hframe'
  have hlt' := lt_of_getElem? hframe'
  rw [hslots k _ hframe, hslots k' _ hframe']
  exact (spread_slotOf k k' hlt (by omega)).symm

/-- The 64th frame after it overwrites a frame. -/
theorem HoldsCommand.le {k : Nat} {cmd : Usercmd}
    (hslots : Indexed (fun k g => g.1 = slotOf k) (generated trace))
    (h : HoldsCommand trace k cmd) : (generated trace).length ≤ k + 64 := by
  obtain ⟨frame, hframe, -, hlast⟩ := h
  by_contra hgt
  have hframe' := List.getElem?_eq_getElem (Nat.not_le.mp hgt)
  apply hlast (k + 64) _ (by omega) hframe'
  rw [hslots _ _ hframe', hslots _ _ hframe, slotOf_add]

/-- A packet reads the right commands if and only if it fits. -/
theorem PacketRead.intact_iff (h : PacketRead trace packet) :
    PacketIntact trace packet ↔ PacketFits trace := by
  have hlt := h.lt
  constructor
  · rintro ⟨h₀, h₁, h₂⟩
    -- The oldest command that exists decides
    unfold PacketFits
    rcases Nat.lt_or_ge (builds trace).length 2 with hs | hs
    · rcases Nat.eq_zero_or_pos (builds trace).length with hs' | hs'
      · have := h₀.le h.slots
        omega
      · have := (h₁ hs').le h.slots
        omega
    · exact (h₂ hs).le h.slots
  · intro hfits
    unfold PacketFits at hfits
    refine ⟨?_, fun hs => ?_, fun hs => ?_⟩
    · exact .of_le h.slots hlt (by omega) fun frame hframe => h.cmd₀ frame hframe (by omega)
    · exact .of_le h.slots (by omega) (by omega) fun frame hframe =>
        h.cmd₁ frame hs hframe (by omega)
    · exact .of_le h.slots (by omega) hfits fun frame hframe => h.cmd₂ frame hs hframe hfits

end

/-! ## Every packet reads what the ring holds -/

/-- The entry `d` places before the current one is that of the packet `d` numbers before. -/
theorem Counted.slot_current_sub {v : Ring} (h : Counted v) {d : Nat}
    (hd : d ≤ (sents v.trace).length) :
    slot (v.current - BitVec.ofNat 32 d) = slotOf ((sents v.trace).length - d) := by
  apply BitVec.eq_of_toNat_eq
  rw [h.current, slotOf_toNat, slot, seqOf, BitVec.toNat_setWidth, BitVec.toNat_sub,
    BitVec.toNat_ofNat, BitVec.toNat_ofNat]
  omega

/-- The command read `d` places before the current one. -/
theorem Stored.recentCmd {v : Ring} (hv : Counted v) (h : Stored v) {d : Nat}
    (hd : d ≤ (sents v.trace).length) {frame : Slot × Usercmd × BitVec 64}
    (hframe : (generated v.trace)[(sents v.trace).length - d]? = some frame)
    (hle : (generated v.trace).length ≤ (sents v.trace).length - d + 64) :
    v.recentCmd (BitVec.ofNat 32 d) = frame.2.1 := by
  have hcontents := h ((sents v.trace).length - d) frame.2
    (by rw [List.getElem?_map, hframe]; rfl) (by rw [List.length_map]; exact hle)
  rw [Ring.recentCmd, hv.slot_current_sub hd]
  exact congrArg Prod.fst hcontents

/-- Every packet begun so far read what the ring held. -/
def PacketsRead (v : Ring) : Prop :=
  AtEvery (fun pre e => ∀ packet, e.built? = some packet → PacketRead pre packet) v.trace

namespace PacketsRead

variable {v : Ring}

/-- Events other than packets. -/
theorem append {v' : Ring} (h : PacketsRead v) {es : List NetEvent}
    (htrace : v'.trace = v.trace ++ es) (hes : builds es = []) : PacketsRead v' := by
  rw [PacketsRead, htrace]
  apply AtEvery.append h
  intro pre e he packet hpacket
  have hnone := List.filterMap_eq_nil_iff.mp hes e he
  rw [hnone] at hpacket
  exact nomatch hpacket

theorem foldl_generate (h : PacketsRead v) (gs : List (Usercmd × BitVec 64)) :
    PacketsRead (gs.foldl Ring.generate v) := by
  induction gs generalizing v with
  | nil => exact h
  | cons g gs ih =>
    obtain ⟨frames, heq⟩ := Ring.generate_eq v g
    apply ih
    rw [heq]
    exact h.append rfl rfl

theorem build (hv : Counted v) (hs : Stored v) (h : PacketsRead v) (hphase : v.phase = .between)
    (htosend : v.tosend ≠ 0#32) :
    PacketsRead ({ v with phase := .begun }.log
      [.build v.current (v.recentCmd 2) (v.recentCmd 1) (v.recentCmd 0)]) := by
  apply AtEvery.concat h
  rintro packet ⟨⟩
  have hlength : (builds v.trace).length = (sents v.trace).length := by
    rw [hv.builds_length, hphase]
    rfl
  refine ⟨?_, hv.generated_slots, ?_, ?_, ?_⟩
  · have hbuilt := (hv.build hphase htosend (v.recentCmd 2, v.recentCmd 1, v.recentCmd 0)).built_le
    exact Nat.lt_of_succ_le (by simpa [Ring.log] using hbuilt)
  all_goals rw [hlength]
  · intro frame hframe hle
    exact hs.recentCmd hv (Nat.zero_le _) hframe hle
  · intro frame hone hframe hle
    exact hs.recentCmd hv hone hframe hle
  · intro frame htwo hframe hle
    exact hs.recentCmd hv htwo hframe hle

theorem step {v' : Ring} {generates : Bool} (hv : Counted v) (hs : Stored v) (h : PacketsRead v)
    (hstep : Ring.Step generates v v') : PacketsRead v' := by
  cases hstep with
  | silent _ hoff => exact h.append rfl (builds_offRing hoff)
  | setDeltaPoint _ n => exact h
  | generate _ gs => exact h.foldl_generate gs
  | copy _ =>
    refine h.append (by rw [hv.copy_eq, List.append_assoc]) ?_
    rw [builds_append, builds_map_copy]
    rfl
  | build _ hphase htosend => exact h.build hv hs hphase htosend
  | request _ hphase => exact h.append rfl rfl
  | finish _ hphase => exact h.append rfl rfl

end PacketsRead

theorem Client.packetsRead {angle16 : BitVec 32 → BitVec 16} {c : Client}
    (h : (system angle16).Reachable c) : PacketsRead c.ring := by
  have hinit : ∀ c, Client.Init c → PacketsRead c.ring := by
    intro c hc
    rw [hc.ring]
    exact atEvery_nil _
  have hstep : ∀ a c c', Counted c.ring ∧ Stored c.ring → PacketsRead c.ring → True →
      step angle16 a c = some c' → PacketsRead c'.ring :=
    fun _ _ _ hc h _ hstep => h.step hc.1 hc.2 (step_ring hstep)
  exact h.invariant_of (fun _ hc => ⟨Client.counted hc, Client.stored hc⟩) hinit hstep

/-- Every packet reads the commands generated for it. -/
def PacketsIntact (trace : List NetEvent) : Prop :=
  AtEvery (fun pre e => ∀ packet, e.built? = some packet → PacketIntact pre packet) trace

/-- Every packet fits. -/
def PacketsFit (trace : List NetEvent) : Prop :=
  AtEvery (fun pre e => ∀ packet, e.built? = some packet → PacketFits pre) trace

/-- In every run the packets carry the commands generated for them, not overwritten, if and
    only if each was begun before the ring had gone round. -/
theorem packetsIntact_iff (angle16 : BitVec 32 → BitVec 16) {c : Client}
    (h : (Client.system angle16).Reachable c) :
    PacketsIntact c.netqw.trace ↔ PacketsFit c.netqw.trace := by
  have hread := Client.packetsRead h
  constructor
  · intro hintact pre e hprefix packet hpacket
    exact (hread pre e hprefix packet hpacket).intact_iff.mp (hintact pre e hprefix packet hpacket)
  · intro hfits pre e hprefix packet hpacket
    exact (hread pre e hprefix packet hpacket).intact_iff.mpr (hfits pre e hprefix packet hpacket)

theorem trace_logBuild {q : NetQW} {n : BitVec 32} (h : q.currentOutgoingSequenceNumber = n) :
    q.logBuild.trace = q.trace
      ++ [.build n (q.recentCmd 2#32) (q.recentCmd 1#32) (q.recentCmd 0#32)] := by
  rw [NetQW.logBuild, NetQW.log_trace, h]
  rfl

/-! ## A packet that does not fit -/

namespace Client

open NetQW

/-- The client has generated one frame of 14 milliseconds, changes to 100 frames a second,
    and generates 70 more after a stall of 700 milliseconds. -/
def overrun : Client :=
  ((stalled 1).update (setFPS 100#32)).update (generateNext fun _ => 0#64)^[70]

/-- Its first packet. -/
def overrunPacket : Client := ⟨overrun.netqw.logBuild, .delta (overrun.netqw.beginPacket fun _ => 0)⟩

theorem overrun_reachable : (system fun _ => 0).Reachable overrun := by
  have hset : (system fun _ => 0).Reachable ((stalled 1).update (setFPS 100#32)) :=
    .step (a := .setFPS 100#32) (stalled_reachable _ (by decide)) trivial rfl
  exact generate_reachable hset _ (by decide) (by decide) (by decide)

/-- 71 frames were generated: the first takes 14 milliseconds, the others 10. -/
theorem overrun_generated : ∃ first gs, generated overrun.netqw.trace = first :: gs ∧
    first.2.1.msec = 14#8 ∧ gs.length = 70 ∧ ∀ g ∈ gs, g.2.1.msec = 10#8 := by
  obtain ⟨gs, hlength, hgenerated, hall⟩ := generateNext_iterate_msec (fun _ => 0#64) 70
    ((stalled 1).update (setFPS 100#32)).netqw (by decide) (by decide)
  exact ⟨_, gs, hgenerated, by decide, hlength, hall⟩

theorem overrun_sents : sents overrun.netqw.trace = [] ∧ builds overrun.netqw.trace = [] := by
  obtain ⟨gs, -, htrace⟩ := generateNext_iterate_trace (fun _ => 0#64) 70
    ((stalled 1).update (setFPS 100#32)).netqw
  rw [show overrun.netqw.trace = _ from htrace, sents_append, builds_append, sents_map_generate,
    builds_map_generate]
  exact ⟨rfl, rfl⟩

theorem overrunPacket_reachable : (system fun _ => 0).Reachable overrunPacket := by
  have hiterate := generateNext_iterate (fun _ => 0#64) 70 ((stalled 1).update (setFPS 100#32)).netqw
  have hlast : overrun.netqw.lastmovesendtime = 714000#64 := hiterate.2.2.trans (by decide)
  have hperiod : overrun.netqw.microsecondsperframe = 10000#32 := hiterate.2.1.trans (by decide)
  have htosend : overrun.netqw.framestosend = 71#32 := by
    obtain ⟨first, gs, hgenerated, -, hlength, -⟩ := overrun_generated
    rw [framestosend_eq overrun_reachable, hgenerated, overrun_sents.1, List.length_cons, hlength]
    rfl
  apply build_reachable overrun_reachable rfl (hiterate.1.trans (by decide))
  · rw [hlast]
    decide
  · rw [hperiod]
    decide
  · rw [htosend]
    decide

end Client

/-- The packet of the client that was overrun. -/
theorem packetsIntact_iff_overrun : PacketsIntact Client.overrunPacket.netqw.trace ↔
    PacketsFit Client.overrunPacket.netqw.trace :=
  packetsIntact_iff _ Client.overrunPacket_reachable

/-- Not every packet reads the commands generated for it: packet 1 reads one of 10
    milliseconds instead of the first one, which took 14. -/
theorem packetsIntact_not_overrun : (Client.system fun _ => 0).Reachable Client.overrunPacket ∧
    (∃ frame packet, (generated Client.overrunPacket.netqw.trace)[0]? = some frame ∧
      builds Client.overrunPacket.netqw.trace = [packet] ∧
      frame.2.1.msec = 14#8 ∧ packet.1 = 1#32 ∧ packet.2.2.2.msec = 10#8) ∧
    ¬ PacketsIntact Client.overrunPacket.netqw.trace := by
  obtain ⟨first, gs, hgenerated, hfirst, hlength, hall⟩ := Client.overrun_generated
  obtain ⟨hsents, hbuilds⟩ := Client.overrun_sents
  -- The slot of packet 1 holds the 64th frame after the first
  have hlast : (generated Client.overrun.netqw.trace)[64]? = some gs[63] := by
    rw [hgenerated, List.getElem?_cons_succ]
    exact List.getElem?_eq_getElem (by omega)
  have hcmd := (Client.frames_slotOf Client.overrun_reachable hlast
    (by rw [hgenerated, List.length_cons, hlength]; decide)).1
  have hcurrent : Client.overrun.netqw.currentOutgoingSequenceNumber = 1#32 := by
    rw [Client.currentOutgoingSequenceNumber_eq Client.overrun_reachable, hsents]
    rfl
  have hmsec : (Client.overrun.netqw.recentCmd 0#32).msec = 10#8 := by
    rw [NetQW.recentCmd, hcurrent, show slot (1#32 - 0#32) = slotOf 64 by decide, hcmd]
    exact hall _ (List.getElem_mem _)
  have htrace := trace_logBuild hcurrent
  refine ⟨Client.overrunPacket_reachable, ⟨first, (1#32, Client.overrun.netqw.recentCmd 2#32,
    Client.overrun.netqw.recentCmd 1#32, Client.overrun.netqw.recentCmd 0#32), ?_, ?_, hfirst, rfl,
    hmsec⟩, ?_⟩
  all_goals rw [show Client.overrunPacket.netqw = Client.overrun.netqw.logBuild from rfl]
  · rw [htrace, generated_append, hgenerated]
    rfl
  · rw [htrace, builds_append, hbuilds]
    rfl
  · intro hintact
    rw [htrace] at hintact
    obtain ⟨⟨frame, hframe, heq, -⟩, -⟩ := hintact _ _ (List.prefix_refl _) _ rfl
    rw [hbuilds, List.length_nil, hgenerated, List.getElem?_cons_zero] at hframe
    obtain rfl := Option.some.inj hframe
    rw [← heq, hmsec] at hfirst
    exact absurd hfirst (by decide)

end QwNet
