/-
  QwNet.Channel.Connect

  How a client gets connected, and how many frames it then generates.

  Two datagrams of the server connect a client.  From then on one call of
  `NetQW_GenerateFrames` catches up with the clock: it generates a frame for every
  interval that went by.
-/
import Mathlib.Data.List.GetD
import Mathlib.Data.List.TakeWhile
import QwNet.Channel.System

namespace QwNet

namespace NetQW

/-! ## The handshake -/

/-- The server's answer to `getchallenge`: a decimal number. -/
def challengeDatagram (text : List Byte) : List Byte := List.replicate 4 255#8 ++ 0x63#8 :: text

/-- The server's answer to `connect`. -/
def connectionDatagram : List Byte := List.replicate 4 255#8 ++ [0x6a#8]

section

variable {q : NetQW}

/-- A challenge that is a number of at most fifteen characters, without extensions. -/
theorem receiveChallenge_eq {r : Nat} {buf : Nat → Byte} {text : List Byte}
    (hless : Connectionless r buf) (hchallenge : buf 4 = 0x63#8)
    (hbody : ((List.range (r - 5)).map fun k => buf (5 + k)) = text)
    (hzero : ∀ b ∈ text, b ≠ 0#8) (hlength : text.length < 16) :
    q.receiveChallenge r buf = (q.setChallenge (atoi text)).enterSendconnection := by
  have htext : text.takeWhile (· ≠ 0#8) = text :=
    List.takeWhile_eq_self_iff.mpr fun b hb => decide_eq_true (hzero b hb)
  have hextensions : text.drop (text.length + 1) = [] := List.drop_of_length_le (by omega)
  rw [receiveChallenge, if_pos ⟨hless, hchallenge⟩, hbody]
  dsimp only
  rw [htext, if_pos hlength, hextensions]
  rfl

/-- What follows the header of a datagram. -/
theorem map_getD_append (header body : List Byte) (fallback : Nat → Byte) :
    ((List.range ((header ++ body).length - header.length)).map fun k =>
      if header.length + k < (header ++ body).length then (header ++ body).getD (header.length + k) 0
      else fallback (header.length + k)) = body := by
  rw [List.length_append, Nat.add_sub_cancel_left]
  apply List.ext_getElem
  · rw [List.length_map, List.length_range]
  · intro k hk hk'
    rw [List.getElem_map, List.getElem_range, if_pos (by omega), List.getD_append_right _ _ _ _ (by omega),
      Nat.add_sub_cancel_left]
    exact List.getD_eq_getElem body 0 hk'

theorem receive_challenge (env : SendEnv) (hstate : q.state = .sendchallenge) {text : List Byte}
    (hzero : ∀ b ∈ text, b ≠ 0#8) (hlength : text.length < 16) :
    q.receive env q.addr (challengeDatagram text)
      = (q.setChallenge (atoi text)).enterSendconnection := by
  -- before the connection nothing is decompressed
  have hbuf : q.receiveBuf env.stack (challengeDatagram text)
      = ((challengeDatagram text).length, fun i =>
        if i < (challengeDatagram text).length then (challengeDatagram text).getD i 0
        else env.stack i) := by
    unfold receiveBuf
    rw [hstate]
  have hhead : ∀ i < 5, i < (challengeDatagram text).length := by
    intro i hi
    simp only [challengeDatagram, List.length_append, List.length_replicate, List.length_cons]
    omega
  rw [receive, hbuf, hstate]
  dsimp only
  rw [if_pos ⟨Nat.zero_lt_of_lt (hhead 0 (by decide)), rfl⟩]
  apply receiveChallenge_eq _ _ _ hzero hlength
  · refine ⟨hhead 4 (by decide), ?_, ?_, ?_, ?_⟩
    all_goals exact (if_pos (hhead _ (by decide))).trans rfl
  · exact (if_pos (hhead _ (by decide))).trans rfl
  · exact map_getD_append (List.replicate 4 255#8 ++ [0x63#8]) text env.stack

theorem receive_connection (env : SendEnv) (hstate : q.state = .sendconnection)
    (halloc : env.alloc = true) :
    q.receive env q.addr connectionDatagram
      = (q.appendReliableBuffer newCommand).enterConnected env.now := by
  have hbuf : q.receiveBuf env.stack connectionDatagram
      = (5, fun i => if i < 5 then connectionDatagram.getD i 0 else env.stack i) := by
    unfold receiveBuf
    rw [hstate]
    rfl
  rw [receive, hbuf, hstate]
  dsimp only
  rw [if_pos ⟨by decide, rfl⟩, receiveConnection, if_pos ⟨⟨Nat.le_refl 5, rfl, rfl, rfl, rfl⟩, rfl⟩,
    if_pos halloc]

end

/-! ## How many frames are generated -/

/-- One pass of the loop of `NetQW_GenerateFrames`, with the clock reading it makes. -/
def generateNext (senttime : Nat → BitVec 64) (q : NetQW) : NetQW :=
  q.generateFrame (senttime (generated q.trace).length)

/-- What a pass does, and that it leaves everything else alone. -/
theorem generateFrame_eq (senttime : BitVec 64) (q : NetQW) :
    q.generateFrame senttime = { q with
      lastmovesendtime := q.lastmovesendtime + q.microsecondsperframe.setWidth 64
      movetimecounter := (q.movetimecounter + q.microsecondsperframe.setWidth 64) % 1000#64
      frames := (q.generateFrame senttime).frames
      framestosend := q.framestosend + 1#32
      framestocopy := q.framestocopy + 1#32
      trace := q.trace ++ [.generate q.framenum q.tick.lockedCmd senttime] } := by
  unfold generateFrame requestDelta
  dsimp only
  split
  · rfl
  · rfl

section

variable (senttime : Nat → BitVec 64) (n : Nat) (q : NetQW)

/-- What `n` passes leave alone. -/
theorem generateNext_iterate :
    ((generateNext senttime)^[n] q).state = q.state ∧
      ((generateNext senttime)^[n] q).microsecondsperframe = q.microsecondsperframe ∧
      ((generateNext senttime)^[n] q).lastmovesendtime
        = q.lastmovesendtime + BitVec.ofNat 64 n * q.microsecondsperframe.setWidth 64 := by
  induction n generalizing q with
  | zero => exact ⟨rfl, rfl, by simp⟩
  | succ n ih =>
    obtain ⟨hstate, hperiod, htime⟩ := ih (generateNext senttime q)
    rw [Function.iterate_succ_apply, hstate, hperiod, htime, generateNext, generateFrame_eq]
    refine ⟨rfl, rfl, ?_⟩
    dsimp only
    rw [BitVec.ofNat_add, BitVec.add_mul, BitVec.one_mul, BitVec.add_assoc,
      BitVec.add_comm (q.microsecondsperframe.setWidth 64)]

/-- `n` passes generate `n` frames, and do nothing else that shows. -/
theorem generateNext_iterate_trace : ∃ gs : List (Slot × Usercmd × BitVec 64), gs.length = n ∧
    ((generateNext senttime)^[n] q).trace
      = q.trace ++ gs.map fun g => .generate g.1 g.2.1 g.2.2 := by
  induction n generalizing q with
  | zero => exact ⟨[], rfl, (List.append_nil _).symm⟩
  | succ n ih =>
    obtain ⟨gs, hlength, htrace⟩ := ih (generateNext senttime q)
    rw [Function.iterate_succ_apply, htrace, generateNext, generateFrame_eq]
    refine ⟨(q.framenum, q.tick.lockedCmd, senttime (generated q.trace).length) :: gs,
      congrArg (· + 1) hlength, ?_⟩
    rw [List.append_assoc]
    rfl

/-- While frames take whole milliseconds, every command takes one frame. -/
theorem generateNext_iterate_msec (hcounter : q.movetimecounter = 0#64)
    (hwhole : q.microsecondsperframe.setWidth 64 % 1000#64 = 0#64) :
    ∃ gs, gs.length = n ∧
      generated ((generateNext senttime)^[n] q).trace = generated q.trace ++ gs ∧
      ∀ g ∈ gs, g.2.1.msec = (q.microsecondsperframe.setWidth 64 / 1000#64).setWidth 8 := by
  -- over the frames: each starts from a counter of zero and leaves it there
  induction n generalizing q with
  | zero => exact ⟨[], rfl, (List.append_nil _).symm, fun g hg => nomatch hg⟩
  | succ n ih =>
    have hmsec : q.tick.lockedCmd.msec
        = (q.microsecondsperframe.setWidth 64 / 1000#64).setWidth 8 := by
      have htime : q.tick.movetimecounter = q.microsecondsperframe.setWidth 64 := by
        rw [tick, hcounter, BitVec.zero_add]
      unfold lockedCmd
      split
      · rw [nextCmd, htime]
      · rw [nextCmd, htime]
    have hnext : generateNext senttime q = _ := generateFrame_eq _ q
    obtain ⟨gs, hlength, hgenerated, hall⟩ := ih (q := generateNext senttime q)
      (by rw [hnext]; dsimp only; rw [hcounter, BitVec.zero_add, hwhole]) (by rw [hnext]; exact hwhole)
    rw [hnext] at hall hgenerated
    rw [Function.iterate_succ_apply, hnext]
    refine ⟨(q.framenum, q.tick.lockedCmd, senttime (generated q.trace).length) :: gs,
      congrArg (· + 1) hlength, ?_, ?_⟩
    · rw [hgenerated]
      simp [generated]
    · intro g hg
      rcases List.mem_cons.mp hg with rfl | hg
      · exact hmsec
      · exact hall g hg

end

/-- It is time for another frame. -/
def Due (curtime : BitVec 64) (q : NetQW) : Prop :=
  q.lastmovesendtime + q.microsecondsperframe.setWidth 64 ≤ curtime

instance (curtime : BitVec 64) (q : NetQW) : Decidable (q.Due curtime) :=
  inferInstanceAs (Decidable (_ ≤ _))

/-- One pass generates a frame if it is time for the next one. -/
theorem generatePass_eq (curtime : BitVec 64) (senttime : Nat → BitVec 64) (q : NetQW) :
    generatePass curtime senttime q
      = if q.lastmovesendtime + q.microsecondsperframe.setWidth 64 ≤ curtime
        then (some none, generateNext senttime q) else (some (some ()), q) := by
  rw [generatePass, RunM.get_bind]
  split <;> rfl

/-- A call that finds no frame due does nothing. -/
theorem exec_generateFrames_idle {q q' : NetQW} {curtime : BitVec 64} {senttime : Nat → BitVec 64}
    {fuel : Nat} (hidle : ¬(q.state = .connected ∧ q.Due curtime))
    (h : (generateFrames curtime senttime fuel).exec q = some q') : q' = q := by
  obtain ⟨⟨⟩, h⟩ := RunM.exec_eq_some h
  rw [generateFrames, RunM.get_bind] at h
  split at h
  next => exact (congrArg Prod.snd h).symm
  next hstate =>
    have hdue : ¬q.Due curtime := fun hdue => hidle ⟨not_not.mp hstate, hdue⟩
    cases fuel with
    | zero => exact absurd (congrArg Prod.fst h).symm (Option.some_ne_none _)
    | succ fuel =>
      have hpass : generatePass curtime senttime q = (some (some ()), q) := by
        exact (generatePass_eq ..).trans (if_neg hdue)
      rw [RunM.loop_done hpass] at h
      exact (congrArg Prod.snd h).symm

/-- A call catches up with the clock: when `n` whole intervals went by, and counting one
    more does not overflow, it generates `n` frames. -/
theorem exec_generateFrames {q : NetQW} {curtime : BitVec 64} (senttime : Nat → BitVec 64)
    {n fuel : Nat} (hstate : q.state = .connected)
    (hlow : q.lastmovesendtime.toNat + n * q.microsecondsperframe.toNat ≤ curtime.toNat)
    (hhigh : curtime.toNat < q.lastmovesendtime.toNat + (n + 1) * q.microsecondsperframe.toNat)
    (hwrap : q.lastmovesendtime.toNat + (n + 1) * q.microsecondsperframe.toNat < 2 ^ 64)
    (hfuel : n < fuel) :
    (generateFrames curtime senttime fuel).exec q = some ((generateNext senttime)^[n] q) := by
  -- The time of the next frame after `i` passes
  have htime : ∀ i ≤ n, (((generateNext senttime)^[i] q).lastmovesendtime
      + ((generateNext senttime)^[i] q).microsecondsperframe.setWidth 64).toNat
        = q.lastmovesendtime.toNat + (i + 1) * q.microsecondsperframe.toNat := by
    intro i hi
    obtain ⟨-, hperiod, hlast⟩ := generateNext_iterate senttime i q
    have hmul : (i + 1) * q.microsecondsperframe.toNat ≤ (n + 1) * q.microsecondsperframe.toNat :=
      Nat.mul_le_mul_right _ (by omega)
    have hsucc : BitVec.ofNat 64 i * q.microsecondsperframe.setWidth 64
        + q.microsecondsperframe.setWidth 64
          = BitVec.ofNat 64 ((i + 1) * q.microsecondsperframe.toNat) := by
      rw [Nat.succ_mul, BitVec.ofNat_add, BitVec.ofNat_mul, BitVec.ofNat_toNat]
    rw [hperiod, hlast, BitVec.add_assoc, hsucc, BitVec.toNat_add, BitVec.toNat_ofNat]
    omega
  apply RunM.exec_of_eq (a := ())
  rw [generateFrames, RunM.get_bind, if_neg (not_not.mpr hstate)]
  refine RunM.loop_iterate (fun i hi => ?_) ?_ hfuel
  · have hmul : (i + 1) * q.microsecondsperframe.toNat ≤ n * q.microsecondsperframe.toNat :=
      Nat.mul_le_mul_right _ hi
    rw [generatePass_eq, if_pos, Function.iterate_succ_apply']
    rw [BitVec.le_def, htime i (Nat.le_of_lt hi)]
    omega
  · rw [generatePass_eq, if_neg]
    rw [BitVec.le_def, htime n (Nat.le_refl n)]
    omega

end NetQW

/-! ## A connected client -/

namespace Client

open NetQW

variable {c : Client}

/-- The client `c` once it is connected. -/
def established (text : List Byte) (now : BitVec 64) (c : Client) : Client :=
  ⟨((c.netqw.setChallenge (atoi text)).enterSendconnection.appendReliableBuffer
    newCommand).enterConnected now, .idle⟩

/-- A new client gets connected by two datagrams. -/
theorem established_reachable (angle16 : BitVec 32 → BitVec 16) (h : c.Init) (now : BitVec 64)
    {text : List Byte} (hzero : ∀ b ∈ text, b ≠ 0#8) (hlength : text.length < 16) :
    (system angle16).Reachable (c.established text now) := by
  let env : SendEnv := ⟨now, true, fun _ => 0⟩
  have hstate : c.netqw.state = .sendchallenge := by
    obtain ⟨garbage, qport, userinfo, addr, rfl⟩ := h
    rfl
  have hpc : c.pc = .idle := by
    obtain ⟨garbage, qport, userinfo, addr, rfl⟩ := h
    rfl
  -- two datagrams do it: the challenge, and the word that the connection stands
  have hfirst : (system angle16).step (.receive env c.netqw.addr (challengeDatagram text)) c
      = some ⟨(c.netqw.setChallenge (atoi text)).enterSendconnection, .idle⟩ := by
    show c.outside (fun q => some (q.receive env c.netqw.addr (challengeDatagram text))) = _
    rw [outside, hpc]
    exact congrArg (fun q => some (⟨q, .idle⟩ : Client)) (receive_challenge env hstate hzero hlength)
  have hsecond : (system angle16).step (.receive env c.netqw.addr connectionDatagram)
      ⟨(c.netqw.setChallenge (atoi text)).enterSendconnection, .idle⟩
        = some (c.established text now) := by
    exact congrArg (fun q => some (⟨q, .idle⟩ : Client)) (receive_connection env rfl rfl)
  apply Transitions.Reaches.step _ trivial hsecond
  apply Transitions.Reaches.step (.init h) trivial hfirst

/-- A call of `NetQW_GenerateFrames` on the client thread takes a client that is connected
    from any state to the one with a frame for every interval that went by. -/
theorem generate_reachable {angle16 : BitVec 32 → BitVec 16} (h : (system angle16).Reachable c)
    (senttime : Nat → BitVec 64) (hstate : c.netqw.state = .connected) {n : Nat}
    (hwrap : c.netqw.lastmovesendtime.toNat + (n + 1) * c.netqw.microsecondsperframe.toNat < 2 ^ 64)
    (hperiod : 0 < c.netqw.microsecondsperframe.toNat) :
    (system angle16).Reachable (c.update (generateNext senttime)^[n]) := by
  have hcurtime : (BitVec.ofNat 64 (c.netqw.lastmovesendtime.toNat
      + n * c.netqw.microsecondsperframe.toNat)).toNat
        = c.netqw.lastmovesendtime.toNat + n * c.netqw.microsecondsperframe.toNat := by
    rw [BitVec.toNat_ofNat, Nat.mod_eq_of_lt]
    rw [Nat.succ_mul] at hwrap
    omega
  have hexec : (generateFrames _ senttime (n + 1)).exec c.netqw = some _ :=
    exec_generateFrames senttime hstate (Nat.le_of_eq hcurtime.symm)
      (by rw [hcurtime, Nat.succ_mul]; omega) hwrap (Nat.lt_succ_self n)
  apply Transitions.Reaches.step (a := .generate _ senttime (n + 1)) h trivial
  exact congrArg (Option.map fun q => ({ c with netqw := q } : Client)) hexec

/-- The network thread finds frames to send before the next one is due, and begins a
    packet. -/
theorem build_reachable {angle16 : BitVec 32 → BitVec 16} (h : (system angle16).Reachable c)
    (hpc : c.pc = .idle) (hstate : c.netqw.state = .connected)
    (hlast : c.netqw.lastmovesendtime.toNat + 2 ^ 32 < 2 ^ 64)
    (hperiod : 0 < c.netqw.microsecondsperframe.toNat) (htosend : c.netqw.framestosend ≠ 0#32) :
    (system angle16).Reachable ⟨c.netqw.logBuild, .delta (c.netqw.beginPacket angle16)⟩ := by
  have hlt := c.netqw.microsecondsperframe.isLt
  -- It is the time of the last frame: neither is the clock off nor another frame due
  have hclamp : c.netqw.clampMoveTime c.netqw.lastmovesendtime = c.netqw := by
    rw [clampMoveTime, if_neg]
    rw [BitVec.lt_def, BitVec.toNat_add, BitVec.toNat_ofNat]
    omega
  have hbegin : (system angle16).step (.beginSend c.netqw.lastmovesendtime fun _ => 0) c
      = some ⟨c.netqw, .generate⟩ := by
    show beginSend _ _ c = _
    rw [beginSend, hpc]
    dsimp only
    rw [hclamp, if_pos hstate]
  have hexec : (generateFrames c.netqw.lastmovesendtime (fun _ => 0) 1).exec c.netqw
      = some c.netqw :=
    exec_generateFrames (n := 0) _ hstate (by omega) (by omega) (by omega) Nat.one_pos
  have hgenerate : (system angle16).step
      (.netGenerate c.netqw.lastmovesendtime (fun _ => 0) 1) ⟨c.netqw, .generate⟩
        = some ⟨c.netqw, .loop⟩ := congrArg (Option.map fun q => (⟨q, .loop⟩ : Client)) hexec
  have hbuild : (system angle16).step .buildPacket ⟨c.netqw, .loop⟩
      = some ⟨c.netqw.logBuild, .delta (c.netqw.beginPacket angle16)⟩ := if_neg htosend
  apply Transitions.Reaches.step _ trivial hbuild
  apply Transitions.Reaches.step _ trivial hgenerate
  exact Transitions.Reaches.step h trivial hbegin

/-! ## A client that stalls -/

/-- A new client, in memory that `malloc` had cleared. -/
def fresh : Client := ⟨(NetQW.create default 0 []).threadInit .loopback, .idle⟩

/-- The two datagrams that connect the new client. -/
def handshake : List Action :=
  [.receive ⟨14000#64, true, fun _ => 0⟩ .loopback (challengeDatagram (ascii "1")),
    .receive ⟨14000#64, true, fun _ => 0⟩ .loopback connectionDatagram]

/-- One packet of `NetQW_Thread_DoSend`, which takes no time. -/
def packetRun (now : BitVec 64) : List Action :=
  [.buildPacket, .addDelta, .addTmove, .addReliables, .submitPacket ⟨now, true, fun _ => 0⟩,
    .finishPacket]

/-- A call of `NetQW_Thread_DoSend` that sends `n` packets. -/
def sendRun (now : BitVec 64) (n : Nat) : List Action :=
  [.beginSend now fun _ => 0, .netGenerate now (fun _ => 0) (n + 1)]
    ++ (List.replicate n (packetRun now)).flatten ++ [.endSend]

/-- The new client, connected after 14 milliseconds to a server whose challenge was 1. -/
def freshEstablished : Client := fresh.established (ascii "1") 14000#64

theorem freshEstablished_reachable (angle16 : BitVec 32 → BitVec 16) :
    (system angle16).Reachable freshEstablished :=
  established_reachable angle16 ⟨_, _, _, _, rfl⟩ _ (by decide) (by decide)

/-- The client after a stall of `n` frames of 14 milliseconds each. -/
def stalled (n : Nat) : Client := freshEstablished.update (generateNext fun _ => 0#64)^[n]

theorem stalled_reachable (angle16 : BitVec 32 → BitVec 16) {n : Nat}
    (hwrap : (n + 1) * 14000 < 2 ^ 64) : (system angle16).Reachable (stalled n) := by
  have hlast : freshEstablished.netqw.lastmovesendtime = 0#64 := by decide
  have hperiod : freshEstablished.netqw.microsecondsperframe = 14000#32 := by decide
  apply generate_reachable (freshEstablished_reachable angle16) _ rfl
  · rw [hlast, hperiod, BitVec.toNat_ofNat, BitVec.toNat_ofNat, Nat.zero_mod, Nat.zero_add]
    exact hwrap
  · rw [hperiod]
    decide

/-- Since it was connected the client has generated `n` frames. -/
theorem stalled_trace (n : Nat) : ∃ gs : List (Slot × Usercmd × BitVec 64), gs.length = n ∧
    (stalled n).netqw.trace
      = .append newCommand :: gs.map fun g => .generate g.1 g.2.1 g.2.2 :=
  generateNext_iterate_trace (fun _ => 0#64) n freshEstablished.netqw

end Client

end QwNet
