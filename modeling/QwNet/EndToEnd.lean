/-
  QwNet.EndToEnd

  The program and the server, with the network between them.

  The program has two threads: that of the network, and the worker, which takes the
  packets from the queue, parses them and appends commands.  The server is a channel of
  net_chan.c.  What is between them loses, repeats and reorders datagrams, which are
  compressed or not.
-/
import QwNet.Channel.Wire
import QwNet.Worker

namespace QwNet

/-! ## The program and the server -/

/-- The program, and the rest of the wire: the server with its packets, what was written to its
    reliable message, the datagrams that it has sent and the messages that it has let through. -/
structure Conversation where
  worker : Worker
  server : ServerNetchan
  packets : List (List Byte × List Byte)
  written : List Byte
  datagrams : List (List Byte)
  messages : List (List Byte)

/-- A step of the program, or of the server and the network. -/
inductive ConversationAction where
  | program (a : WorkerAction)
  | network (a : WireAction)

/-- The step of the client that a step of the program names. -/
def WorkerAction.action? (w : Worker) : WorkerAction → Option Action
  | .thread a => a.action?
  | .call =>
    match w.pc with
    | .parse (b :: _) _ => some b
    | _ => none
  | _ => none

/-- Whether a step is one of the network thread. -/
def WorkerAction.ofNetworkThread : WorkerAction → Bool
  | .thread a => a.ofNetworkThread
  | .length _ | .data _ | .free | .generate .. | .copy | .message | .pass _ | .call | .done => false

namespace Conversation

/-- The wire that the program is at. -/
def wire (c : Conversation) : Wire where
  link := ⟨c.worker.thread.client, c.server, c.packets, c.written⟩
  datagrams := c.datagrams
  messages := c.messages

/-- Another wire, at the same program. -/
def setWire (w : Wire) (c : Conversation) : Conversation where
  worker := c.worker
  server := w.link.server
  packets := w.link.packets
  written := w.link.written
  datagrams := w.datagrams
  messages := w.messages

/-- What an action does; `none` where it is not possible. -/
def step (angle16 : BitVec 32 → BitVec 16) (env : Env) (s : WireServer) (a : ConversationAction)
    (c : Conversation) : Option Conversation :=
  match a with
  | .program a =>
    if ∀ b ∈ a.action? c.worker, c.wire.FromWire s b then
      (Worker.step angle16 env a c.worker).map fun worker => { c with worker := worker }
    else none
  | .network a =>
    if a.WithoutClient then (Wire.step angle16 s a c.wire).map fun w => c.setWire w else none

/-- The program has just started, and nothing was sent yet. -/
def system (angle16 : BitVec 32 → BitVec 16) (env : Env) (s : WireServer) :
    Transitions Conversation ConversationAction where
  Init c := (Worker.system angle16 env).Init c.worker ∧ (Wire.system angle16 s).Init c.wire
  step := step angle16 env s

end Conversation

/-- The clock does not go back; else as on the wire. -/
def ConversationOk (s : WireServer) (a : ConversationAction) (c : Conversation) : Prop :=
  match a with
  | .program a => ClocksOk a c.worker ∧ ∀ b ∈ a.action? c.worker, WireOk s (.client b) c.wire
  | .network a => WireOk s a c.wire

instance (s : WireServer) (a : ConversationAction) (c : Conversation) :
    Decidable (ConversationOk s a c) :=
  match a with
  | .program a => inferInstanceAs (Decidable (ClocksOk a _ ∧ ∀ b ∈ a.action? _, _))
  | .network a => inferInstanceAs (Decidable (WireOk s a _))

/-! ## The program is a client of the wire -/

/-- An action that neither appends a command nor hears a datagram. -/
structure Action.Plain (b : Action) : Prop where
  appended : b.appended? = none
  arrival : b.arrival? = none

theorem Action.plain_of_ofLoop {b : Action} (h : b.ofLoop = true) : b.Plain := by
  cases b <;> first | exact ⟨rfl, rfl⟩ | exact Bool.noConfusion h

namespace Worker

section

variable {angle16 : BitVec 32 → BitVec 16} {env : Env} {a : WorkerAction} {w w' : Worker}

/-- A call is a step of the client, and none of the network thread. -/
theorem client_of_call {b : Action} {pc : WorkerPc} (h : w.call angle16 b pc = some w') :
    Client.step angle16 b w.thread.client = some w'.thread.client ∧ b.ofNetworkThread = false := by
  obtain ⟨thread, hstep, rfl⟩ := Option.map_eq_some_iff.mp h
  obtain ⟨hb, hact⟩ := Option.ite_none_right_eq_some.mp hstep
  obtain ⟨client, hclient, rfl⟩ := Option.map_eq_some_iff.mp hact
  exact ⟨hclient, Thread.ofNetworkThread_of_ofApplication hb⟩

/-- A step of the worker thread makes one call, which it names or which is a plain one, or none. -/
inductive OwnStep (angle16 : BitVec 32 → BitVec 16) (a : WorkerAction) (w w' : Worker) : Prop where
  | stays (hthread : w'.thread = w.thread) (hnone : a.action? w = none)
  | calls (b : Action) (pc : WorkerPc) (w₁ : Worker) (hcall : w.call angle16 b pc = some w₁)
      (hthread : w'.thread = w₁.thread)
      (hb : a.action? w = some b ∨ a.action? w = none ∧ b.Plain)

theorem step_own (h : step angle16 env a w = some w') (ha : ∀ t, a ≠ .thread t) :
    OwnStep angle16 a w w' := by
  cases a with
  | thread t => exact absurd rfl (ha t)
  | length now =>
    unfold step length at h
    dsimp only at h
    split at h
    · obtain rfl := Option.some.inj h
      exact .stays rfl rfl
    · exact absurd h (Option.some_ne_none _).symm
  | data now =>
    unfold step data at h
    dsimp only at h
    split at h
    · split at h
      · obtain rfl := Option.some.inj h
        exact .stays rfl rfl
      · obtain rfl := Option.some.inj h
        exact .stays rfl rfl
    · exact absurd h (Option.some_ne_none _).symm
  | free =>
    unfold step free at h
    dsimp only at h
    split at h
    · split at h
      · obtain rfl := Option.some.inj h
        exact .stays rfl rfl
      · obtain ⟨w₁, hw₁, rfl⟩ := Option.map_eq_some_iff.mp h
        exact .calls .freePacket _ w₁ hw₁ rfl (.inr ⟨rfl, rfl, rfl⟩)
    · exact absurd h (Option.some_ne_none _).symm
  | generate curtime senttime fuel =>
    unfold step generate at h
    dsimp only at h
    split at h
    · exact .calls _ _ w' h rfl (.inr ⟨rfl, rfl, rfl⟩)
    · exact absurd h (Option.some_ne_none _).symm
  | copy =>
    unfold step copy at h
    dsimp only at h
    split at h
    · obtain ⟨w₁, hw₁, rfl⟩ := Option.map_eq_some_iff.mp h
      exact .calls .copyFrames _ w₁ hw₁ rfl (.inr ⟨rfl, rfl, rfl⟩)
    · exact absurd h (Option.some_ne_none _).symm
  | message =>
    unfold step message at h
    dsimp only at h
    split at h
    · split at h
      · obtain rfl := Option.some.inj h
        exact .stays rfl rfl
      · split at h
        · obtain rfl := Option.some.inj h
          exact .stays rfl rfl
        · obtain rfl := Option.some.inj h
          exact .stays rfl rfl
    · exact absurd h (Option.some_ne_none _).symm
  | pass fuel =>
    unfold step pass at h
    dsimp only at h
    split at h
    · split at h
      · obtain rfl := Option.some.inj h
        exact .stays rfl rfl
      · exact absurd h (Option.some_ne_none _).symm
    · exact absurd h (Option.some_ne_none _).symm
  | call =>
    unfold step nextCall at h
    dsimp only at h
    split at h
    next b calls msg hpc =>
      refine .calls b _ w' h rfl (.inl ?_)
      unfold WorkerAction.action?
      rw [hpc]
    next => exact absurd h (Option.some_ne_none _).symm
  | done =>
    unfold step done at h
    dsimp only at h
    split at h
    · obtain rfl := Option.some.inj h
      exact .stays rfl rfl
    · exact absurd h (Option.some_ne_none _).symm

/-- A step of the program is one of the client that it names, or a plain one, or none. -/
theorem step_client (h : step angle16 env a w = some w') :
    (w'.thread.client = w.thread.client ∧ a.action? w = none) ∨
      ∃ b, Client.step angle16 b w.thread.client = some w'.thread.client ∧
        (a.action? w = some b ∨ a.action? w = none ∧ b.Plain) ∧
        (b.ofNetworkThread = true → a.ofNetworkThread = true) := by
  by_cases ha : ∃ t, a = .thread t
  · obtain ⟨t, rfl⟩ := ha
    obtain ⟨-, h⟩ := Option.ite_none_right_eq_some.mp h
    obtain ⟨thread, hstep, rfl⟩ := Option.map_eq_some_iff.mp h
    rcases Thread.step_client hstep with ⟨hclient, -, -, hunnamed⟩ | ⟨b, pc, hperforms, hact⟩
    · exact .inl ⟨hclient, hunnamed⟩
    · obtain ⟨client, hclient, rfl⟩ := Option.map_eq_some_iff.mp hact
      refine .inr ⟨b, hclient, ?_, hperforms.network⟩
      exact hperforms.named.imp_right fun h => ⟨h.1, Action.plain_of_ofLoop h.2⟩
  · cases step_own h (not_exists.mp ha) with
    | stays hthread hnone => exact .inl ⟨congrArg Thread.client hthread, hnone⟩
    | calls b pc w₁ hcall hthread hb =>
      obtain ⟨hclient, hnetwork⟩ := client_of_call hcall
      rw [← hthread] at hclient
      exact .inr ⟨b, hclient, hb, fun htrue => Bool.noConfusion (hnetwork.symm.trans htrue)⟩

end

end Worker

namespace Conversation

variable {angle16 : BitVec 32 → BitVec 16} {env : Env} {s : WireServer} {c c' : Conversation}

/-- The server and the network leave the client alone. -/
theorem wire_setWire {a : WireAction} (ha : a.WithoutClient) {w : Wire}
    (h : Wire.step angle16 s a c.wire = some w) : (c.setWire w).wire = w := by
  have hclient : w.link.client = c.worker.thread.client := by
    cases a with
    | client => exact ha.elim
    | write data =>
      obtain ⟨link, hlink, rfl⟩ := Option.map_eq_some_iff.mp h
      obtain ⟨-, hlink⟩ := Option.ite_none_right_eq_some.mp hlink
      obtain rfl := Option.some.inj hlink
      rfl
    | transmit stack data =>
      obtain rfl := Option.some.inj h
      rfl
    | process n stack behind =>
      obtain ⟨data, -, rfl⟩ := Option.map_eq_some_iff.mp h
      split
      · rfl
      · rfl
  obtain ⟨⟨client, server, packets, written⟩, datagrams, messages⟩ := w
  obtain rfl : client = c.worker.thread.client := hclient
  rfl

/-- Every step is one on the wire, or none. -/
theorem step_wire {a : ConversationAction} (hok : ConversationOk s a c)
    (h : step angle16 env s a c = some c') : c'.wire = c.wire ∨
      ∃ b, WireOk s b c.wire ∧ Wire.step angle16 s b c.wire = some c'.wire := by
  cases a with
  | network a =>
    obtain ⟨ha, h⟩ := Option.ite_none_right_eq_some.mp h
    obtain ⟨w, hw, rfl⟩ := Option.map_eq_some_iff.mp h
    refine .inr ⟨a, hok, ?_⟩
    rw [wire_setWire ha hw]
    exact hw
  | program a =>
    obtain ⟨hfrom, h⟩ := Option.ite_none_right_eq_some.mp h
    obtain ⟨worker, hworker, rfl⟩ := Option.map_eq_some_iff.mp h
    rcases Worker.step_client hworker with ⟨hclient, -⟩ | ⟨b, hclient, hb, -⟩
    · left
      unfold wire
      dsimp only
      rw [hclient]
    · -- the client does what it may do on the wire
      obtain ⟨hfromWire, hwireOk⟩ : c.wire.FromWire s b ∧ WireOk s (.client b) c.wire := by
        rcases hb with hb | ⟨-, hb⟩
        · exact ⟨hfrom b hb, hok.2 b hb⟩
        · refine ⟨fun arrival harrival => ?_, fun x hx => ?_, fun arrival harrival => ?_⟩
          · rw [hb.arrival] at harrival
            exact absurd harrival (Option.not_mem_none _)
          · rw [hb.appended] at hx
            exact absurd hx (Option.not_mem_none _)
          · rw [hb.arrival] at harrival
            exact absurd harrival (Option.not_mem_none _)
      refine .inr ⟨.client b, hwireOk, ?_⟩
      show (if c.wire.FromWire s b then _ else none) = _
      rw [if_pos hfromWire]
      show (Client.step angle16 b c.worker.thread.client).map _ = _
      rw [hclient]
      rfl

/-- A run is one on the wire. -/
theorem wire_reaches (h : (system angle16 env s).Reaches (ConversationOk s) c) :
    (Wire.system angle16 s).Reaches (WireOk s) c.wire := by
  induction h with
  | init hinit => exact .init hinit.2
  | step _ hok hstep ih =>
    rcases step_wire hok hstep with heq | ⟨b, hb, hwire⟩
    · rw [heq]
      exact ih
    · exact .step ih hb hwire

/-- A run is one of the two threads. -/
theorem worker_reaches (h : (system angle16 env s).Reaches (ConversationOk s) c) :
    (Worker.system angle16 env).Reaches ClocksOk c.worker := by
  induction h with
  | init hinit => exact .init hinit.1
  | @step a c c' _ hok hstep ih =>
    cases a with
    | network a =>
      obtain ⟨-, hstep⟩ := Option.ite_none_right_eq_some.mp hstep
      obtain ⟨w, -, rfl⟩ := Option.map_eq_some_iff.mp hstep
      exact ih
    | program a =>
      obtain ⟨-, hstep⟩ := Option.ite_none_right_eq_some.mp hstep
      obtain ⟨worker, hworker, rfl⟩ := Option.map_eq_some_iff.mp hstep
      exact .step ih hok.1 hworker

end Conversation

/-! ## What the worker takes -/

/-- The client has a packet of the server whole, and does not take it for a connectionless one. -/
theorem Framed.inBand {packets : List (List Byte × List Byte)} (hnumbered : NumberedPackets packets)
    (hfew : packets.length < 2 ^ 31) {p : List Byte × List Byte} (hp : p ∈ packets)
    (h : Framed p) : p.1.take netMessageSize = p.1 ∧ InBand p.1 := by
  refine ⟨List.take_of_length_le (Nat.le_trans h.short (by decide)), h.long, fun hread => ?_⟩
  obtain ⟨n, hn⟩ := List.mem_iff_getElem?.mp hp
  obtain ⟨hlt, -⟩ := List.getElem?_eq_some_iff.mp hn
  have hnumber := hnumbered.number n p hn
  rw [sequenceOf, number31_eq, hread] at hnumber
  have hlast : (-1#32 &&& 0x7fffffff#32).toNat = 2 ^ 31 - 1 := by decide
  omega

namespace Conversation

variable {angle16 : BitVec 32 → BitVec 16} {env : Env} {s : WireServer} {c : Conversation}

/-- What the worker took are packets of the server, in their order; it parsed them all but for the
    one in its buffer. -/
theorem taken_packets (hworker : c.worker.Reading angle16) {t : StopAndWait.Channel Byte}
    (hdown : DownlinkOf angle16 c.wire.link t) (hfew : c.wire.link.Few) :
    ∃ qs : List (List Byte × List Byte),
      c.worker.taken = qs.map Prod.fst ∧ (∀ q ∈ qs, q ∈ c.packets ∧ q.2 <+: q.1.drop 8) ∧
      (qs.Pairwise fun q q' => sequenceOf q.1 < sequenceOf q'.1) ∧
      c.worker.parsed ++ c.worker.fetched.filter (InBand ·) = qs.map Prod.fst ∧
      qs.flatMap Prod.snd <+: c.written := by
  have haccepted : c.worker.taken ++ c.worker.netqw.unread.map Prod.snd
      = accepted c.worker.netqw.trace := hworker.inOrder
  have htaken : c.worker.taken <+: accepted c.wire.link.client.netqw.trace :=
    ⟨_, haccepted⟩
  have hpackets : ∀ q ∈ c.worker.taken.map fun data => (data, reliableOf c.packets data),
      q ∈ c.packets ∧ q.2 <+: q.1.drop 8 := by
    refine List.forall_mem_map.mpr fun data hdata => ?_
    exact hdown.accepted_packets data (htaken.subset hdata)
  have hfst : (c.worker.taken.map fun data => (data, reliableOf c.packets data)).map Prod.fst
      = c.worker.taken := by
    rw [List.map_map]
    exact List.map_id _
  refine ⟨c.worker.taken.map fun data => (data, reliableOf c.packets data), hfst.symm,
    hpackets, ?_, ?_, ?_⟩
  · have hincreasing := hdown.ordered.increasing
    refine List.pairwise_map.mpr ?_
    have hpairs := (List.pairwise_map.mp hincreasing).sublist htaken.sublist
    exact hpairs.imp fun hlt => BitVec.lt_def.mpr hlt
  · -- nothing is cut off, and nothing looks connectionless
    rw [hworker.parsed, hfst]
    have hinBand : ∀ data ∈ c.worker.taken, data.take netMessageSize = data ∧ InBand data := by
      intro data hdata
      have hp := (hdown.accepted_packets data (htaken.subset hdata)).1
      exact (hdown.framed _ hp).inBand hdown.numbered hfew.2 hp
    rw [List.map_congr_left fun data hdata => (hinBand data hdata).1, List.map_id']
    exact List.filter_eq_self.mpr fun data hdata => decide_eq_true (hinBand data hdata).2
  · have hreceived := hdown.received.2
    rw [List.flatMap_map]
    obtain ⟨rest, hrest⟩ := htaken
    refine List.IsPrefix.trans ?_ hreceived
    show _ <+: (accepted c.wire.link.client.netqw.trace).flatMap (reliableOf c.packets)
    rw [← hrest, List.flatMap_append]
    exact List.prefix_append _ _

/-- The command that another thread of the program appends. -/
def appended? (a : ConversationAction) (c : Conversation) : Option ReliableBuffer :=
  match a with
  | .program a => (a.action? c.worker).bind Action.appended?
  | .network _ => none

/-- The client is part of it. -/
def host (angle16 : BitVec 32 → BitVec 16) (env : Env) (s : WireServer) :
    Host angle16 Conversation ConversationAction where
  system := system angle16 env s
  client c := c.worker.thread.client
  update f c := { c with
    worker := { c.worker with
      thread := { c.worker.thread with
        client := c.worker.thread.client.update f } } }
  ofNetworkThread
    | .program a => a.ofNetworkThread
    | .network _ => false
  appended? := appended?
  init _ h := h.1.1.1
  client_update _ _ := rfl
  step := by
    intro a c c' hstep
    cases a with
    | program a =>
      obtain ⟨-, hstep⟩ := Option.ite_none_right_eq_some.mp hstep
      obtain ⟨worker, hworker, rfl⟩ := Option.map_eq_some_iff.mp hstep
      rcases Worker.step_client hworker with ⟨hclient, hnone⟩ | ⟨b, hclient, hb, hnetwork⟩
      · exact .inl ⟨hclient, congrArg (·.bind Action.appended?) hnone⟩
      · refine .inr ⟨b, hclient, ?_, hnetwork⟩
        show b.appended? = (a.action? c.worker).bind Action.appended?
        rcases hb with hb | ⟨hnone, hb⟩
        · rw [hb]
          rfl
        · rw [hnone, hb.appended]
          rfl
    | network a =>
      obtain ⟨-, hstep⟩ := Option.ite_none_right_eq_some.mp hstep
      obtain ⟨w, -, rfl⟩ := Option.map_eq_some_iff.mp hstep
      exact .inl ⟨rfl, rfl⟩

end Conversation

/-- From one end to the other: what the worker parses are packets of the server, whole, in their
    order and each once, and the reliable bytes in them are those that were written to the
    server's message; what the server lets through are packets that the client has built, and the
    commands in them are those that were appended, if none is while the tail is dangling. -/
theorem end_to_end (angle16 : BitVec 32 → BitVec 16) (env : Env) {server : WireServer}
    (hio : server.io.Lawful) (hmaxsize : 1450 ≤ server.maxsize) {s : Racing Conversation}
    (h : (Racing.system (Conversation.host angle16 env server)).Reaches
      (RacingOk (Conversation.host angle16 env server) (ConversationOk server)) s)
    (hfew : s.base.wire.link.Few) : s.base.worker.pc ≠ .crashed ∧
    (∃ qs : List (List Byte × List Byte),
      s.base.worker.taken = qs.map Prod.fst ∧
      (∀ q ∈ qs, q ∈ s.base.packets ∧ q.2 <+: q.1.drop 8) ∧
      (qs.Pairwise fun q q' => sequenceOf q.1 < sequenceOf q'.1) ∧
      s.base.worker.parsed <+: qs.map Prod.fst ∧
      (s.base.worker.pc = .length → s.base.worker.parsed = qs.map Prod.fst) ∧
      qs.flatMap Prod.snd <+: s.base.written) ∧
    (∀ m ∈ s.base.messages, m ∈ (departures s.base.worker.netqw.trace).map Prod.fst) ∧
    (s.base.messages.Pairwise fun m m' => sequenceOf m < sequenceOf m') ∧
    Delivers (s.base.messages.flatMap messageCommands) s.freed
      (appendedBuffers s.base.worker.netqw.trace) ∧
    appendedBuffers s.base.worker.netqw.trace
      = s.freed ++ s.queue (Conversation.host angle16 env server) := by
  obtain ⟨hbase, hfreed⟩ := Racing.base_of_reaches h
  have hworker := Worker.reading_of_reaches (Conversation.worker_reaches hbase)
  obtain ⟨d, hof⟩ := wireOf_of_reaches hio hmaxsize (Conversation.wire_reaches hbase) hfew
  obtain ⟨hdelivers, horder, t, hdown⟩ := hof.delivers hio hfew
  obtain ⟨qs, htaken, hqs, hincreasing, hparsed, hwritten⟩ :=
    Conversation.taken_packets hworker hdown hfew
  refine ⟨fun hpc => ?_, ⟨qs, htaken, hqs, hincreasing, ?_, fun hpc => ?_, hwritten⟩,
    hof.departed, hof.increasing, hdelivers.of_freed hfreed, Racing.order_of_freed hfreed horder⟩
  · have hplace := hworker.place
    rw [Worker.FetchPlace, hpc] at hplace
    exact hplace
  · rw [← hparsed]
    exact List.prefix_append _ _
  · have hfetched : s.base.worker.fetched = [] := by rw [Worker.fetched, hpc]
    rw [← hparsed, hfetched, List.filter_nil, List.append_nil]

namespace Conversation

/-- A new connection. -/
def fresh : Racing Conversation := ⟨⟨.fresh, .setup, [], [], [], []⟩, .outside, []⟩

/-- The program goes on, outside the loop that frees commands. -/
def programs (as : List WorkerAction) : List (RacingAction ConversationAction) :=
  as.map fun a => .base (.program a)

/-- So do the server and the network. -/
def networks (as : List WireAction) : List (RacingAction ConversationAction) :=
  as.map fun a => .base (.network a)

/-- The worker takes `svc_stufftext` and parses it, and appends the command in it. -/
def stufftextRun : List WorkerAction :=
  [.length 20000#64, .data 20000#64, .free, .generate 20000#64 (fun _ => 0) 30, .copy, .message,
    .pass 8, .call, .pass 8, .done]

/-- The program connects, takes up the offer to compress, and sends `new`.  The server hears it and
    answers with `svc_stufftext`.  The application appends a command while `new` is freed, and the
    parser another; both are sent with the next packet. -/
def cmdRun : List (RacingAction ConversationAction) :=
  programs (Worker.iterates 14000#64 [huffmanDatagram, NetQW.connectionDatagram] 1) ++
    networks [.process 0 (fun _ => 0) fun _ => 0, .transmit (fun _ => 0) [],
      .write (9 :: ascii "cmd x" ++ [0]), .transmit (fun _ => 0) []] ++
    programs ((Thread.waits 20000#64 0).map .thread ++ [.thread .next,
      .thread (.receive ⟨20000#64, true, fun _ => 0⟩ .loopback
        [1, 0, 0, 0x80, 1, 0, 0, 0x80, 6, 180, 199, 143, 46, 221, 75, 2]),
      .thread (.application (.append (Exchange.command 97)))]) ++
    [.free, .repair] ++ programs stufftextRun ++
    programs (.thread .received :: (Client.sendRun 20000#64 0).map fun a => .thread (.send a)) ++
    programs (Worker.iterates 34000#64 [] 1) ++ networks [.process 1 (fun _ => 0) fun _ => 0]

end Conversation

/-- The answer of the server reaches the parser, and the three commands the server. -/
theorem end_to_end_cmd : ∃ s,
    (Racing.system (Conversation.host (fun _ => 0) ⟨fun _ => true, fun _ => true⟩ .huffman)).runOk
      (RacingOk (Conversation.host (fun _ => 0) ⟨fun _ => true, fun _ => true⟩ .huffman)
        (ConversationOk .huffman)) Conversation.cmdRun Conversation.fresh = some s ∧
    s.base.worker.parsed = [[1, 0, 0, 0x80, 1, 0, 0, 0x80] ++ 9 :: ascii "cmd x" ++ [0]] ∧
    s.base.messages.map messageCommands
      = [4 :: ascii "new" ++ [0], [4, 97, 0] ++ 4 :: ascii " x" ++ [0]] ∧
    s.freed.map (·.data) = [4 :: ascii "new" ++ [0]] ∧
    s.base.worker.pc ≠ .crashed ∧
    (∃ qs : List (List Byte × List Byte),
      s.base.worker.taken = qs.map Prod.fst ∧
      (∀ q ∈ qs, q ∈ s.base.packets ∧ q.2 <+: q.1.drop 8) ∧
      (qs.Pairwise fun q q' => sequenceOf q.1 < sequenceOf q'.1) ∧
      s.base.worker.parsed <+: qs.map Prod.fst ∧
      (s.base.worker.pc = .length → s.base.worker.parsed = qs.map Prod.fst) ∧
      qs.flatMap Prod.snd <+: s.base.written) ∧
    (∀ m ∈ s.base.messages, m ∈ (departures s.base.worker.netqw.trace).map Prod.fst) ∧
    (s.base.messages.Pairwise fun m m' => sequenceOf m < sequenceOf m') ∧
    Delivers (s.base.messages.flatMap messageCommands) s.freed
      (appendedBuffers s.base.worker.netqw.trace) ∧
    appendedBuffers s.base.worker.netqw.trace = s.freed
      ++ s.queue (Conversation.host (fun _ => 0) ⟨fun _ => true, fun _ => true⟩ .huffman) := by
  have heq : ((Racing.system (Conversation.host (fun _ => 0) ⟨fun _ => true, fun _ => true⟩
      .huffman)).runOk (RacingOk (Conversation.host (fun _ => 0) ⟨fun _ => true, fun _ => true⟩
        .huffman) (ConversationOk .huffman)) Conversation.cmdRun Conversation.fresh).map (fun s =>
        (s.base.worker.parsed, s.base.messages.map messageCommands, s.freed.map (·.data),
          (departures s.base.wire.link.client.netqw.trace).length,
          s.base.wire.link.packets.length))
        = some ([[1, 0, 0, 0x80, 1, 0, 0, 0x80] ++ 9 :: ascii "cmd x" ++ [0]],
          [4 :: ascii "new" ++ [0], [4, 97, 0] ++ 4 :: ascii " x" ++ [0]],
          [4 :: ascii "new" ++ [0]], 2, 2) := by
    decide +kernel
  obtain ⟨s, hrun, hread⟩ := Option.map_eq_some_iff.mp heq
  simp only [Prod.mk.injEq] at hread
  obtain ⟨hparsed, hmessages, hfreed, hdepartures, hpackets⟩ := hread
  have hfew : s.base.wire.link.Few := by
    rw [Downlink.Few, hdepartures, hpackets]
    decide
  have hinit : (Racing.system (Conversation.host (fun _ => 0) ⟨fun _ => true, fun _ => true⟩
      .huffman)).Init Conversation.fresh :=
    ⟨⟨⟨⟨⟨_, _, _, _, rfl⟩, rfl, rfl, rfl⟩, rfl, rfl, rfl, rfl, rfl, rfl⟩,
      ⟨⟨_, _, _, _, rfl⟩, rfl, rfl, rfl⟩, rfl, rfl⟩, rfl, rfl⟩
  have hreaches := Transitions.Reaches.runOk (.init hinit) hrun
  exact ⟨s, hrun, hparsed, hmessages, hfreed,
    end_to_end _ _ SizebufOps.appending_lawful (Nat.le_refl _) hreaches hfew⟩

end QwNet
