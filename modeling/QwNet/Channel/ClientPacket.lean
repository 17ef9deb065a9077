/-
  QwNet.Channel.ClientPacket

  What is in a packet of the client.

  Behind its header a packet has `clc_move`, perhaps `clc_delta` and `clc_tmove`, and then
  reliable commands.  These are string commands, so a receiver that goes through the
  bytes finds again what the client asked for and what it said.
-/
import QwNet.Channel.Movement
import QwNet.Channel.Reliable
import QwNet.Channel.Ring

namespace QwNet

/-! ## Reading a packet -/

/-- The number of bytes that `MSG_ReadDeltaUsercmd` reads behind the bits. -/
def usercmdLength (bits : Byte) : Nat :=
  (([0x01, 0x80, 0x02, 0x04, 0x08, 0x10] : List Byte).map fun flag =>
      if bits &&& flag ≠ 0 then 2 else 0).sum
    + (([0x20, 0x40] : List Byte).map fun flag => if bits &&& flag ≠ 0 then 1 else 0).sum + 1

/-- What is behind a command of `clc_move`. -/
def afterUsercmd : List Byte → List Byte
  | [] => []
  | bits :: rest => rest.drop (usercmdLength bits)

/-- What is behind `clc_move`, its checksum, the packet loss and the three commands. -/
def afterMove : List Byte → List Byte
  | 3#8 :: _ :: _ :: rest => afterUsercmd (afterUsercmd (afterUsercmd rest))
  | bytes => bytes

/-- What is behind `clc_delta` and its request, if they are there. -/
def afterDelta : List Byte → List Byte
  | 5#8 :: _ :: rest => rest
  | bytes => bytes

/-- What is behind `clc_tmove` and its coordinates, if they are there. -/
def afterTmove : List Byte → List Byte
  | 6#8 :: rest => rest.drop 6
  | bytes => bytes

/-- The request of a `clc_delta` at the beginning. -/
def deltaRequested : List Byte → Option Byte
  | 5#8 :: request :: _ => some request
  | _ => none

/-- The request behind `clc_delta` in a packet. -/
def deltaOf (packet : List Byte) : Option Byte := deltaRequested (afterMove (packet.drop 10))

/-- The commands behind all that in a packet. -/
def commandBytes (packet : List Byte) : List Byte :=
  afterTmove (afterDelta (afterMove (packet.drop 10)))

/-! ## What the client writes is read -/

theorem length_writeIf (bits flag : Byte) (field : List Byte) :
    (writeIf bits flag field).length = if bits &&& flag ≠ 0 then field.length else 0 := by
  unfold writeIf
  split
  · rfl
  · rfl

/-- A command takes up the bits and the fields that they announce. -/
theorem length_writeDeltaUsercmd (angle16 : BitVec 32 → BitVec 16) (base cmd : Usercmd) :
    (writeDeltaUsercmd angle16 base cmd).length = usercmdLength (usercmdBits base cmd) + 1 := by
  simp only [writeDeltaUsercmd, List.length_append, length_writeIf, usercmdLength, writeShort,
    List.length_cons, List.length_nil, List.map_cons, List.map_nil, List.sum_cons, List.sum_nil,
    Nat.zero_add, Nat.reduceAdd]
  omega

/-- Behind a command comes the rest. -/
theorem afterUsercmd_writeDeltaUsercmd (angle16 : BitVec 32 → BitVec 16) (base cmd : Usercmd)
    (rest : List Byte) : afterUsercmd (writeDeltaUsercmd angle16 base cmd ++ rest) = rest := by
  obtain ⟨fields, hfields⟩ :
      ∃ fields, writeDeltaUsercmd angle16 base cmd = usercmdBits base cmd :: fields := ⟨_, rfl⟩
  have hlength := length_writeDeltaUsercmd angle16 base cmd
  rw [hfields] at hlength ⊢
  exact List.drop_left' (Nat.succ.inj hlength)

/-- A command byte is not taken for `clc_delta` or `clc_tmove`. -/
theorem afterDelta_of_head {bytes : List Byte} (h : bytes.head? ≠ some 5#8) :
    afterDelta bytes = bytes ∧ deltaRequested bytes = none := by
  cases bytes with
  | nil => exact ⟨rfl, rfl⟩
  | cons b rest =>
    have hb : b ≠ 5#8 := fun heq => h (congrArg some heq)
    unfold afterDelta deltaRequested
    constructor
    · split
      next heq => exact absurd (List.cons.inj heq).1 hb
      next => rfl
    · split
      next heq => exact absurd (List.cons.inj heq).1 hb
      next => rfl

theorem afterTmove_of_head {bytes : List Byte} (h : bytes.head? ≠ some 6#8) :
    afterTmove bytes = bytes := by
  unfold afterTmove
  split
  next => exact absurd rfl h
  next => rfl

/-! ## The layout of a packet -/

/-- The packet is a header and a `clc_move`, and behind them `rest`. -/
def LaidOut (packet rest : List Byte) : Prop :=
  ∃ header move, packet = header ++ move ++ rest ∧ header.length = 10 ∧
    ∀ tail, afterMove (move ++ tail) = tail

/-- `clc_delta` with a request, if there is one. -/
def deltaCommand : Option Byte → List Byte
  | some request => [5, request]
  | none => []

/-- `clc_tmove` with its coordinates, or nothing. -/
def IsTmove (bytes : List Byte) : Prop :=
  bytes = [] ∨ ∃ position, position.length = 6 ∧ bytes = 6#8 :: position

/-- The packet carries the request and the commands. -/
def CarriesCommands (packet : List Byte) (request : Option Byte) (commands : List Byte) : Prop :=
  ∃ tmove, IsTmove tmove ∧ LaidOut packet (deltaCommand request ++ tmove ++ commands)

/-- What every caller of `NetQW_AppendReliableBuffer` passes: a string command, from a buffer of
    its own. -/
def ReliableBuffer.Ordinary (b : ReliableBuffer) : Prop :=
  b.data.head? = some 4#8 ∧ b.data.length < 2 ^ 31

instance (b : ReliableBuffer) : Decidable b.Ordinary := inferInstanceAs (Decidable (_ ∧ _))

/-- So it has its command byte at least. -/
theorem ReliableBuffer.Ordinary.pos {b : ReliableBuffer} (h : b.Ordinary) : 0 < b.data.length := by
  obtain ⟨hhead, -⟩ := h
  cases hdata : b.data with
  | nil => rw [hdata] at hhead; exact absurd hhead.symm (Option.some_ne_none _)
  | cons x rest => exact Nat.succ_pos _

namespace LaidOut

variable {packet rest : List Byte}

theorem read (h : LaidOut packet rest) : afterMove (packet.drop 10) = rest := by
  obtain ⟨header, move, rfl, hheader, hmove⟩ := h
  rw [List.append_assoc, List.drop_left' hheader, hmove]

theorem append (h : LaidOut packet rest) (more : List Byte) :
    LaidOut (packet ++ more) (rest ++ more) := by
  obtain ⟨header, move, rfl, hheader, hmove⟩ := h
  exact ⟨header, move, List.append_assoc _ _ _, hheader, hmove⟩

/-- The flag is set in the header. -/
theorem flag (h : LaidOut packet rest) (bits : Byte) : LaidOut (orAt packet 3 bits) rest := by
  obtain ⟨header, move, rfl, hheader, hmove⟩ := h
  have hlt : 3 < header.length := by rw [hheader]; decide
  refine ⟨orAt header 3 bits, move, ?_, ?_, hmove⟩
  · rw [List.append_assoc, orAt_append hlt, ← List.append_assoc]
  · rw [orAt, List.length_set, hheader]

end LaidOut

/-- A packet is begun with its header and `clc_move`. -/
theorem laidOut_beginPacket (angle16 : BitVec 32 → BitVec 16) (q : NetQW) :
    LaidOut (q.beginPacket angle16) [] := by
  refine ⟨q.header, _, (List.append_nil _).symm, length_header q, fun tail => ?_⟩
  show afterUsercmd (afterUsercmd (afterUsercmd ((_ ++ _ ++ _) ++ tail))) = tail
  rw [List.append_assoc, List.append_assoc, afterUsercmd_writeDeltaUsercmd,
    afterUsercmd_writeDeltaUsercmd, afterUsercmd_writeDeltaUsercmd]

theorem deltaBytes_eq (q : NetQW) : q.deltaBytes = deltaCommand q.deltaRequest := by
  unfold NetQW.deltaBytes
  cases q.deltaRequest with
  | some request => rfl
  | none => rfl

theorem isTmove_tmoveBytes (q : NetQW) : IsTmove q.tmoveBytes := by
  unfold NetQW.tmoveBytes
  split
  · exact .inr ⟨_, List.length_ofFn, rfl⟩
  · exact .inl rfl

namespace CarriesCommands

variable {packet commands : List Byte} {request : Option Byte}

/-- The receiver reads the request and the commands, as these begin with a string command. -/
theorem read (h : CarriesCommands packet request commands)
    (hcommands : ∀ b ∈ commands.head?, b = 4#8) :
    deltaOf packet = request ∧ commandBytes packet = commands := by
  obtain ⟨tmove, htmove, hlaid⟩ := h
  have hhead : ∀ b, b ≠ 4#8 → commands.head? ≠ some b := fun b hne heq => hne (hcommands b heq)
  -- behind `clc_delta` there is `clc_tmove`, or the commands
  have htail : (tmove ++ commands).head? ≠ some 5#8 ∧ afterTmove (tmove ++ commands) = commands := by
    rcases htmove with rfl | ⟨position, hlength, rfl⟩
    · exact ⟨hhead _ (by decide), afterTmove_of_head (hhead _ (by decide))⟩
    · exact ⟨by simp, List.drop_left' hlength⟩
  obtain ⟨hfive, hread⟩ := htail
  unfold deltaOf commandBytes
  rw [hlaid.read, List.append_assoc]
  cases request with
  | some request => exact ⟨rfl, hread⟩
  | none =>
    obtain ⟨hdelta, hrequested⟩ := afterDelta_of_head hfive
    exact ⟨hrequested, by rw [deltaCommand, List.nil_append, hdelta, hread]⟩

end CarriesCommands

/-- Commands that are ordinary begin with a string command. -/
theorem head_flatMap_data {bs : List ReliableBuffer} (hbs : ∀ b ∈ bs, b.Ordinary) :
    ∀ x ∈ (bs.flatMap ReliableBuffer.data).head?, x = 4#8 := by
  intro x hx
  cases bs with
  | nil => exact absurd hx (Option.not_mem_none _)
  | cons b rest =>
    obtain ⟨hhead, -⟩ := hbs b List.mem_cons_self
    rw [List.flatMap_cons, List.head?_append, hhead] at hx
    exact (Option.some.inj hx).symm

/-! ## The packets of a client -/

/-- The packet that is handed to `NetQW_Thread_SendPacket`, and the commands in it. -/
def NetEvent.departure? : NetEvent → Option (List Byte × List ReliableBuffer)
  | .sendPacket buf reliable => some (buf, reliable)
  | _ => none

theorem NetEvent.departure?_silent {e : NetEvent} (he : e.ofReliables = false) :
    e.departure? = none := by
  cases e <;> first | rfl | exact absurd he (by simp [NetEvent.ofReliables])

/-- The packets that were sent, oldest first. -/
def departures (trace : List NetEvent) : List (List Byte × List ReliableBuffer) :=
  trace.filterMap NetEvent.departure?

theorem departures_concat (trace : List NetEvent) (e : NetEvent) :
    departures (trace ++ [e]) = departures trace ++ e.departure?.toList := by
  rw [departures, List.filterMap_append, History.filterMap_singleton]
  rfl

theorem departures_of_silent {q q' : NetQW} (h : ReliableSilent q q') :
    departures q'.trace = departures q.trace := h.filterMap fun _ => NetEvent.departure?_silent

/-- The packet has left, but its number is still the current one. -/
def SendPc.departed : SendPc → Bool
  | .finish => true
  | _ => false

theorem SendPc.departed_of_not_sending {pc : SendPc} (h : pc.sending = false) :
    pc.departed = false := by
  cases pc <;> first | rfl | exact absurd h (by decide)

namespace Ring

/-- Frames that are generated are no requests. -/
theorem foldl_generate_requests (gs : List (Usercmd × BitVec 64)) (v : Ring) :
    (gs.foldl generate v).phase = v.phase ∧
      requests (gs.foldl generate v).trace = requests v.trace := by
  induction gs generalizing v with
  | nil => exact ⟨rfl, rfl⟩
  | cons g gs ih =>
    obtain ⟨frames, heq⟩ := generate_eq v g
    obtain ⟨hphase, hrequests⟩ := ih (v.generate g)
    rw [List.foldl_cons, hphase, hrequests, heq]
    exact ⟨rfl, by simp⟩

/-- Nor are those that are copied. -/
theorem copyOne_iterate_requests (n : Nat) (v : Ring) :
    (copyOne^[n] v).phase = v.phase ∧ requests (copyOne^[n] v).trace = requests v.trace := by
  induction n generalizing v with
  | zero => exact ⟨rfl, rfl⟩
  | succ n ih =>
    obtain ⟨hphase, hrequests⟩ := ih v.copyOne
    rw [Function.iterate_succ_apply, hphase, hrequests]
    exact ⟨rfl, by simp [copyOne, log]⟩

/-- A request is noted in one step only. -/
theorem Step.requests_eq {generates : Bool} {v v' : Ring} (h : Step generates v v') :
    requests v'.trace = requests v.trace ++ if v.phase = .begun ∧ v'.phase = .requested then
      [(v.current, wire (v.frames (slot v.current)).deltaSequence)] else [] := by
  have hphases : ¬(v.phase = .begun ∧ v.phase = .requested) := fun h =>
    Phase.noConfusion (h.1.symm.trans h.2)
  cases h with
  | silent _ hoff =>
    rw [if_neg (by exact hphases), log, requests_append, requests_offRing hoff]
  | setDeltaPoint _ n => rw [if_neg (by exact hphases), List.append_nil]
  | generate _ gs =>
    obtain ⟨hphase, hrequests⟩ := foldl_generate_requests gs v
    rw [hphase, if_neg hphases, hrequests, List.append_nil]
  | copy _ =>
    obtain ⟨hphase, hrequests⟩ := copyOne_iterate_requests v.tocopy.toNat v
    have hphase' : v.copy.phase = v.phase := hphase
    rw [hphase', if_neg hphases, Ring.copy, log, requests_append, hrequests]
    rfl
  | build _ hphase =>
    rw [if_neg fun h => Phase.noConfusion (hphase.symm.trans h.1), log, requests_append]
    rfl
  | request _ hphase =>
    rw [if_pos ⟨hphase, rfl⟩, log, requests_append]
    rfl
  | finish _ hphase =>
    rw [if_neg fun h => Phase.noConfusion (hphase.symm.trans h.1), log, requests_append]
    rfl

end Ring

/-- No packet is under construction, or it is on its way. -/
def SendPc.Away : SendPc → Prop
  | .idle | .generate | .loop | .finish => True
  | .delta _ | .tmove _ | .reliable _ | .submit .. => False

theorem SendPc.Away.phase {pc : SendPc} (h : pc.Away) : pc.phase ≠ .begun := by
  cases pc <;> first | exact Phase.noConfusion | exact h.elim

/-- How the packet under construction goes on. -/
inductive Client.BuildStep (angle16 : BitVec 32 → BitVec 16) (c c' : Client) : Prop where
  | same (hpc : c'.pc = c.pc)
  | away (hpc : c.pc.Away) (hpc' : c'.pc.Away)
  | begun (hpc : c.pc.Away) (hpc' : c'.pc = .delta (c.netqw.beginPacket angle16))
  | delta (buf : List Byte) (hpc : c.pc = .delta buf)
      (hpc' : c'.pc = .tmove (buf ++ c.netqw.deltaBytes))
  | tmove (buf : List Byte) (hpc : c.pc = .tmove buf)
      (hpc' : c'.pc = .reliable (buf ++ c.netqw.tmoveBytes))
  | reliable (buf : List Byte) (hpc : c.pc = .reliable buf)
      (hpc' : c'.pc = .submit (c.netqw.appendReliables buf) (c.netqw.reliables buf.length))
  | sent (buf : List Byte) (reliable : List ReliableBuffer) (hpc : c.pc = .submit buf reliable)
      (hpc' : c'.pc = .finish)

/-- A packet leaves, or the number moves on behind one that has left, or neither. -/
inductive Client.DepartureStep (c c' : Client) : Prop where
  | leaves (buf : List Byte) (reliable : List ReliableBuffer) (hpc : c.pc = .submit buf reliable)
      (hpc' : c'.pc = .finish)
      (htrace : departures c'.netqw.trace = departures c.netqw.trace ++ [(buf, reliable)])
      (hcurrent : c'.netqw.currentOutgoingSequenceNumber = c.netqw.currentOutgoingSequenceNumber)
  | moves (hpc : c.pc = .finish) (hpc' : c'.pc = .loop)
      (htrace : departures c'.netqw.trace = departures c.netqw.trace)
      (hcurrent : c'.netqw.currentOutgoingSequenceNumber
        = c.netqw.currentOutgoingSequenceNumber + 1#32)
  | stays (hpc : c'.pc.departed = c.pc.departed)
      (htrace : departures c'.netqw.trace = departures c.netqw.trace)
      (hcurrent : c'.netqw.currentOutgoingSequenceNumber = c.netqw.currentOutgoingSequenceNumber)

namespace Client

variable {angle16 : BitVec 32 → BitVec 16} {a : Action} {c c' : Client}

theorem step_build (h : step angle16 a c = some c') : c.BuildStep angle16 c' := by
  have haway : ∀ {p p' : SendPc}, c.pc = p → c'.pc = p' → p.Away → p'.Away →
      c.BuildStep angle16 c' := by
    rintro p p' rfl rfl hp hp'
    exact .away hp hp'
  have houtside : ∀ {f : NetQW → Option NetQW}, c.outside f = some c' →
      c.BuildStep angle16 c' := by
    intro f hf
    obtain ⟨hpc, q, -, rfl⟩ := outside_spec hf
    exact haway hpc rfl trivial trivial
  cases a
  case buildPacket =>
    obtain ⟨hpc, -, rfl⟩ := buildPacket_spec h
    exact .begun (by rw [hpc]; trivial) rfl
  case addDelta =>
    obtain ⟨buf, hpc, rfl⟩ := addDelta_spec h
    exact .delta buf hpc rfl
  case addTmove =>
    obtain ⟨buf, hpc, rfl⟩ := addTmove_spec h
    exact .tmove buf hpc rfl
  case addReliables =>
    obtain ⟨buf, hpc, rfl⟩ := addReliables_spec h
    exact .reliable buf hpc rfl
  case submitPacket env =>
    obtain ⟨buf, reliable, hpc, rfl⟩ := submitPacket_spec h
    exact .sent buf reliable hpc rfl
  case generate | freePacket =>
    obtain ⟨q, -, rfl⟩ := Option.map_eq_some_iff.mp h
    exact .same rfl
  case beginSend curtime stack =>
    obtain ⟨hpc, rfl⟩ := beginSend_spec h
    split
    · exact .away (by rw [hpc]; trivial) trivial
    · exact .away (by rw [hpc]; trivial) trivial
  case netGenerate curtime senttime fuel =>
    obtain ⟨hpc, q, -, rfl⟩ := netGenerate_spec h
    exact haway hpc rfl trivial trivial
  case endSend =>
    obtain ⟨hpc, -, rfl⟩ := endSend_spec h
    exact haway hpc rfl trivial trivial
  case finishPacket =>
    obtain ⟨hpc, rfl⟩ := finishPacket_spec h
    exact haway hpc rfl trivial trivial
  case clampDelays curtime => exact houtside (f := fun q => some (q.clampDelays curtime)) h
  case clampSends curtime => exact houtside (f := fun q => some (q.clampSends curtime)) h
  case receive env source datagram =>
    exact houtside (f := fun q => some (q.receive env source datagram)) h
  case handleDelayed curtime => exact houtside h
  case sendDelayed curtime => exact houtside h
  all_goals exact .same (Option.some.inj h ▸ rfl)

theorem step_departure (h : step angle16 a c = some c') : c.DepartureStep c' := by
  cases step_reliable h with
  | silent hkeeps hpc =>
    refine .stays ?_ (departures_of_silent hkeeps) (congrArg Reliability.current hkeeps.view)
    rcases hpc with hpc | ⟨hsending, hsending'⟩
    · rw [hpc]
    · rw [SendPc.departed_of_not_sending hsending, SendPc.departed_of_not_sending hsending']
  | append b hview htrace hpc =>
    refine .stays (congrArg SendPc.departed hpc) ?_ (congrArg Reliability.current hview)
    rw [htrace, departures_concat]
    exact List.append_nil _
  | handle data _ hpc hpc' hhandles =>
    refine .stays (by rw [hpc, hpc']) ?_ ((congrArg Reliability.current hhandles.view).trans
      (Reliability.current_settle data _))
    have hnone : (c.netqw.reliability.settleEvents data).filterMap NetEvent.departure? = [] := by
      refine List.filterMap_eq_nil_iff.mpr fun e he => ?_
      rcases c.netqw.reliability.settleEvents_free data e he with ⟨b, rfl⟩ | rfl
      · rfl
      · rfl
    have hall := hhandles.filterMap (fun _ => NetEvent.departure?_silent) rfl
    rw [hnone, List.append_nil] at hall
    exact hall
  | remember buf hpc heq =>
    rw [heq]
    exact .stays (by rw [hpc]; rfl) (by simp) (by simp)
  | submit buf reliable hpc hpc' hkeeps =>
    refine .leaves buf reliable hpc hpc' ?_ (congrArg Reliability.current hkeeps.view)
    rw [departures_of_silent hkeeps, NetQW.log_trace, departures_concat]
    rfl
  | finish hpc heq =>
    rw [heq]
    refine .moves hpc rfl ?_ rfl
    show departures (c.netqw.trace ++ [_]) = _
    rw [departures_concat]
    exact List.append_nil _

/-- No step of the client takes back a packet. -/
theorem departures_grow (h : step angle16 a c = some c') :
    departures c.netqw.trace <+: departures c'.netqw.trace := by
  cases step_departure h with
  | leaves buf reliable _ _ htrace =>
    rw [htrace]
    exact List.prefix_append _ _
  | moves _ _ htrace => exact htrace ▸ List.prefix_rfl
  | stays _ htrace => exact htrace ▸ List.prefix_rfl

end Client

/-- The packet under construction is laid out as far as it was built, with the request that was
    noted for it. -/
def SendPc.Laid : SendPc → List (Option Byte) → Prop
  | .delta buf, requested => requested = [] ∧ LaidOut buf []
  | .tmove buf, requested => ∃ request, requested = [request] ∧ LaidOut buf (deltaCommand request)
  | .reliable buf, requested => ∃ request, requested = [request] ∧ CarriesCommands buf request []
  | .submit buf commands, requested => ∃ request, requested = [request] ∧
    CarriesCommands buf request (commands.flatMap ReliableBuffer.data)
  | .idle, requested | .generate, requested | .loop, requested | .finish, requested =>
    requested = []

theorem SendPc.Away.laid {pc : SendPc} (h : pc.Away) (requested : List (Option Byte)) :
    pc.Laid requested = (requested = []) := by
  cases pc <;> first | rfl | exact h.elim

/-- What a packet carries: a request, and the commands that are noted beside it. -/
def PacketCarries (p : List Byte × List ReliableBuffer) (request : Option Byte) : Prop :=
  CarriesCommands p.1 request (p.2.flatMap ReliableBuffer.data)

/-- The packets that were sent are laid out so, each with the request that was noted for it. -/
structure Client.LaysOut (c : Client) (sent pending : List (Option Byte)) : Prop where
  requests : (requests c.netqw.trace).map Prod.snd = sent ++ pending
  pc : c.pc.Laid pending
  sent : List.Forall₂ PacketCarries (departures c.netqw.trace) sent

section

variable {buf : List Byte} {request : Option Byte} (q : NetQW)

/-- The pieces of a packet are written one behind the other. -/
theorem LaidOut.addDelta (h : LaidOut buf []) :
    LaidOut (buf ++ q.deltaBytes) (deltaCommand q.deltaRequest) := by
  rw [← deltaBytes_eq, ← List.nil_append q.deltaBytes, ← List.append_assoc, List.append_nil]
  exact h.append q.deltaBytes

theorem LaidOut.addTmove (h : LaidOut buf (deltaCommand request)) :
    CarriesCommands (buf ++ q.tmoveBytes) request [] := by
  refine ⟨q.tmoveBytes, isTmove_tmoveBytes q, ?_⟩
  rw [List.append_nil]
  exact h.append q.tmoveBytes

theorem CarriesCommands.addReliables (h : CarriesCommands buf request []) :
    CarriesCommands (q.appendReliables buf) request
      ((q.reliables buf.length).flatMap ReliableBuffer.data) := by
  obtain ⟨tmove, htmove, hlaid⟩ := h
  rw [List.append_nil] at hlaid
  have hmore := hlaid.append ((q.reliables buf.length).flatMap ReliableBuffer.data)
  refine ⟨tmove, htmove, ?_⟩
  unfold NetQW.appendReliables
  dsimp only
  split
  · exact hmore.flag 0x80
  · exact hmore

end

namespace Client

variable {angle16 : BitVec 32 → BitVec 16} {a : Action} {c c' : Client}

/-- What one step adds to the requests and to the packets. -/
theorem histories_of_step (h : step angle16 a c = some c') :
    requests c'.netqw.trace = requests c.netqw.trace ++
      (if c.pc.phase = .begun ∧ c'.pc.phase = .requested then
        [(c.netqw.currentOutgoingSequenceNumber, c.netqw.deltaRequest)] else []) ∧
    (c'.pc ≠ .finish ∨ c.pc.Away →
      departures c'.netqw.trace = departures c.netqw.trace) := by
  refine ⟨(step_ring h).requests_eq, fun hpc => ?_⟩
  cases step_departure h with
  | leaves buf reliable hpc₀ hpc' _ _ =>
    rcases hpc with hpc | hpc
    · exact absurd hpc' hpc
    · rw [hpc₀] at hpc
      exact hpc.elim
  | moves _ _ htrace => exact htrace
  | stays _ htrace => exact htrace

theorem LaysOut.step {sent pending : List (Option Byte)} (hn : c.LaysOut sent pending)
    (h : step angle16 a c = some c') : ∃ sent pending, c'.LaysOut sent pending := by
  obtain ⟨hrequests, hlaid, hsent⟩ := hn
  obtain ⟨hasked, hdeparted⟩ := histories_of_step h
  -- nothing is asked, and nothing sent
  have hquiet : c.pc.phase ≠ .begun ∨ c'.pc.phase ≠ .requested →
      (c'.pc ≠ .finish ∨ c.pc.Away) → (c.pc.Laid pending → c'.pc.Laid pending) →
      c'.LaysOut sent pending := by
    intro hphase hfinish himp
    rw [if_neg fun h => hphase.elim (fun hne => hne h.1) fun hne => hne h.2,
      List.append_nil] at hasked
    exact ⟨by rw [hasked]; exact hrequests, himp hlaid, by rw [hdeparted hfinish]; exact hsent⟩
  cases step_build h with
  | same hpc =>
    refine ⟨sent, pending, hquiet ?_ ?_ (hpc ▸ id)⟩
    · rw [hpc]
      exact not_and_or.mp fun h => Phase.noConfusion (h.1.symm.trans h.2)
    · rw [hpc]
      rcases eq_or_ne c.pc .finish with hfinish | hfinish
      · exact .inr (hfinish ▸ trivial)
      · exact .inl hfinish
  | away hpc hpc' =>
    refine ⟨sent, pending, hquiet (.inl hpc.phase) (.inr hpc) fun hlaid => ?_⟩
    rw [hpc.laid] at hlaid
    rw [hpc'.laid]
    exact hlaid
  | begun hpc hpc' =>
    refine ⟨sent, pending, hquiet (.inl hpc.phase) ?_ fun hlaid => ?_⟩
    · exact .inl (by rw [hpc']; exact SendPc.noConfusion)
    · rw [hpc.laid] at hlaid
      rw [hpc']
      exact ⟨hlaid, laidOut_beginPacket angle16 c.netqw⟩
  | delta buf hpc hpc' =>
    rw [if_pos ⟨by rw [hpc]; rfl, by rw [hpc']; rfl⟩] at hasked
    rw [hpc] at hlaid
    obtain ⟨rfl, hlaid⟩ := hlaid
    refine ⟨sent, [c.netqw.deltaRequest], ?_, ?_, ?_⟩
    · rw [hasked, List.map_append, hrequests, List.append_nil]
      rfl
    · rw [hpc']
      exact ⟨_, rfl, LaidOut.addDelta c.netqw hlaid⟩
    · rw [hdeparted (.inl (by rw [hpc']; exact SendPc.noConfusion))]
      exact hsent
  | tmove buf hpc hpc' =>
    refine ⟨sent, pending, hquiet (.inl ?_) (.inl ?_) fun hlaid => ?_⟩
    · rw [hpc]
      exact Phase.noConfusion
    · rw [hpc']
      exact SendPc.noConfusion
    · rw [hpc] at hlaid
      rw [hpc']
      exact hlaid.imp fun _ => And.imp_right (LaidOut.addTmove c.netqw)
  | reliable buf hpc hpc' =>
    refine ⟨sent, pending, hquiet (.inl ?_) (.inl ?_) fun hlaid => ?_⟩
    · rw [hpc]
      exact Phase.noConfusion
    · rw [hpc']
      exact SendPc.noConfusion
    · rw [hpc] at hlaid
      rw [hpc']
      exact hlaid.imp fun _ => And.imp_right (CarriesCommands.addReliables c.netqw)
  | sent buf reliable hpc hpc' =>
    rw [if_neg (by rw [hpc]; exact fun h => Phase.noConfusion h.1), List.append_nil] at hasked
    rw [hpc] at hlaid
    obtain ⟨request, rfl, hcarries⟩ := hlaid
    refine ⟨sent ++ [request], [], ?_, hpc' ▸ rfl, ?_⟩
    · rw [hasked, hrequests, List.append_nil]
    · cases step_departure h with
      | leaves buf' reliable' hpc₀ _ htrace =>
        obtain ⟨rfl, rfl⟩ := SendPc.submit.inj (hpc.symm.trans hpc₀)
        rw [htrace]
        exact List.rel_append hsent (.cons hcarries .nil)
      | moves hpc₀ => exact SendPc.noConfusion (hpc.symm.trans hpc₀)
      | stays hpc₀ =>
        rw [hpc, hpc'] at hpc₀
        exact Bool.noConfusion hpc₀

/-- Every packet is laid out, whatever the client does. -/
theorem laysOut (h : (system angle16).Reachable c) : ∃ sent pending, c.LaysOut sent pending := by
  have hinit : ∀ c, Init c → ∃ sent pending, c.LaysOut sent pending := by
    rintro c ⟨garbage, qport, userinfo, addr, rfl⟩
    exact ⟨[], [], rfl, rfl, .nil⟩
  refine h.invariant hinit ?_
  rintro a c c' ⟨sent, pending, hn⟩ - hstep
  exact hn.step hstep

/-- What a packet carries is what a receiver reads in it. -/
theorem departure_spec (h : (system angle16).Reachable c) {k : Nat}
    {p : List Byte × List ReliableBuffer} (hp : (departures c.netqw.trace)[k]? = some p)
    (hordinary : ∀ b ∈ p.2, b.Ordinary) :
    (∃ request, (requests c.netqw.trace)[k]? = some request ∧ deltaOf p.1 = request.2) ∧
      commandBytes p.1 = p.2.flatMap ReliableBuffer.data := by
  obtain ⟨sent, pending, hlays⟩ := laysOut h
  obtain ⟨hlength, hall⟩ := List.forall₂_iff_get.mp hlays.sent
  obtain ⟨hk, hget⟩ := List.getElem?_eq_some_iff.mp hp
  have hk' : k < sent.length := hlength ▸ hk
  have hcarries : PacketCarries p (sent.get ⟨k, hk'⟩) := by
    have hcarries := hall k hk hk'
    rw [List.get_eq_getElem, hget] at hcarries
    exact hcarries
  obtain ⟨hdelta, hcommands⟩ := hcarries.read (head_flatMap_data hordinary)
  refine ⟨?_, hcommands⟩
  have hrequest : ((requests c.netqw.trace).map Prod.snd)[k]? = some (sent.get ⟨k, hk'⟩) := by
    rw [hlays.requests, List.getElem?_append_left hk', List.getElem?_eq_getElem hk']
    rfl
  rw [List.getElem?_map] at hrequest
  obtain ⟨request, hrequest, heq⟩ := Option.map_eq_some_iff.mp hrequest
  exact ⟨request, hrequest, hdelta.trans heq.symm⟩

theorem commandBytes_departure (h : (system angle16).Reachable c)
    {p : List Byte × List ReliableBuffer} (hp : p ∈ departures c.netqw.trace)
    (hordinary : ∀ b ∈ p.2, b.Ordinary) : commandBytes p.1 = p.2.flatMap ReliableBuffer.data := by
  obtain ⟨k, hk⟩ := List.getElem?_of_mem hp
  exact (departure_spec h hk hordinary).2

end Client

/-! ## Runs in which all commands are ordinary -/

theorem fitting_prefix (i : Nat) (queue : List ReliableBuffer) :
    NetQW.fitting i queue <+: queue := by
  induction queue generalizing i with
  | nil => exact List.prefix_refl []
  | cons b rest ih =>
    rw [NetQW.fitting]
    split
    · exact List.cons_prefix_cons.mpr ⟨rfl, ih _⟩
    · exact List.nil_prefix

/-- A packet takes the first commands of the queue. -/
theorem reliables_prefix_queue (q : NetQW) (i : Nat) : q.reliables i <+: q.reliableQueue := by
  unfold NetQW.reliables
  split
  · exact fitting_prefix _ _
  · exact List.nil_prefix

/-- The commands that wait, and those in packets, are ordinary. -/
structure Client.AllOrdinary (c : Client) : Prop where
  queue : ∀ b ∈ c.netqw.reliableQueue, b.Ordinary
  pc : ∀ buf reliable, c.pc = .submit buf reliable → ∀ b ∈ reliable, b.Ordinary
  sent : ∀ p ∈ departures c.netqw.trace, ∀ b ∈ p.2, b.Ordinary

namespace Client

variable {angle16 : BitVec 32 → BitVec 16} {a : Action} {c c' : Client}

/-- A step adds what is appended, and `new`. -/
theorem queue_of_step (h : step angle16 a c = some c') : ∀ b ∈ c'.netqw.reliableQueue,
    b ∈ c.netqw.reliableQueue ∨ b ∈ a.appended? ∨ b = NetQW.newCommand := by
  have hsame : c'.netqw.reliableQueue = c.netqw.reliableQueue → ∀ b ∈ c'.netqw.reliableQueue,
      b ∈ c.netqw.reliableQueue ∨ b ∈ a.appended? ∨ b = NetQW.newCommand :=
    fun heq b hb => .inl (heq ▸ hb)
  cases step_reliable h with
  | silent hkeeps => exact hsame (congrArg Reliability.queue hkeeps.view)
  | append b' hview htrace hpc hb' =>
    have hqueue : c'.netqw.reliableQueue = c.netqw.reliableQueue ++ [b'] :=
      congrArg Reliability.queue hview
    intro b hb
    rw [hqueue] at hb
    rcases List.mem_append.mp hb with hb | hb
    · exact .inl hb
    · obtain rfl := List.mem_singleton.mp hb
      rcases hb' with rfl | ⟨-, rfl⟩
      · exact .inr (.inl rfl)
      · exact .inr (.inr rfl)
  | handle data _ _ _ hhandles =>
    have hqueue : c'.netqw.reliableQueue = (c.netqw.reliability.settle data).queue :=
      congrArg Reliability.queue hhandles.view
    rcases c.netqw.reliability.settle_cases data with ⟨-, -, hview, -⟩ | ⟨-, -, hview, -⟩ |
      ⟨-, hview, -⟩
    · exact hsame (hqueue.trans (congrArg Reliability.queue hview))
    · rw [hqueue, hview]
      exact fun b hb => .inl (List.mem_of_mem_drop hb)
    · exact hsame (hqueue.trans (congrArg Reliability.queue hview))
  | remember buf hpc heq => exact hsame (by simp [heq])
  | submit buf reliable _ _ hkeeps => exact hsame (congrArg Reliability.queue hkeeps.view)
  | finish _ heq => exact hsame (by rw [heq]; rfl)

theorem AllOrdinary.step (hn : c.AllOrdinary) (hok : ∀ b ∈ a.appended?, b.Ordinary)
    (h : step angle16 a c = some c') : c'.AllOrdinary := by
  have hnew : NetQW.newCommand.Ordinary := ⟨rfl, by decide⟩
  refine ⟨fun b hb => ?_, fun buf reliable hpc' => ?_, ?_⟩
  · rcases queue_of_step h b hb with hb | hb | rfl
    · exact hn.queue b hb
    · exact hok b hb
    · exact hnew
  · cases step_build h with
    | same hpc => exact hn.pc buf reliable (hpc ▸ hpc')
    | away _ haway =>
      rw [hpc'] at haway
      exact haway.elim
    | reliable buf' _ hpc =>
      obtain ⟨-, rfl⟩ := SendPc.submit.inj (hpc'.symm.trans hpc)
      exact fun b hb => hn.queue b ((reliables_prefix_queue c.netqw _).subset hb)
    | begun _ hpc | delta _ _ hpc | tmove _ _ hpc | sent _ _ _ hpc =>
      exact SendPc.noConfusion (hpc'.symm.trans hpc)
  · cases step_departure h with
    | leaves buf reliable hpc _ htrace =>
      rw [htrace]
      exact List.forall_mem_append.mpr
        ⟨hn.sent, List.forall_mem_singleton.mpr (hn.pc buf reliable hpc)⟩
    | moves _ _ htrace | stays _ htrace =>
      rw [htrace]
      exact hn.sent

theorem allOrdinary_of_init (h : Init c) : c.AllOrdinary := by
  obtain ⟨garbage, qport, userinfo, addr, rfl⟩ := h
  exact ⟨nofun, nofun, nofun⟩

end Client

end QwNet
