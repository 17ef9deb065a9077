/-
  QwNet.Net.Loopback

  The loopback buffers of the local player: `NET_GetLoopPacket` and `NET_SendLoopPacket`.

  Each side has a ring of `MAX_LOOPBACK` packets to receive from, into which the other
  side sends.  A ring is that of `OverrunRing`, so the two rings are the queues of a
  system (`loopQueues`) in which a receiver takes the oldest of the newest
  `MAX_LOOPBACK` packets.  The counters of a ring are as far apart as its queue is
  long as long as fewer than `2 ^ 32` packets wait.
-/
import QwNet.Lib.History
import QwNet.Lib.OverrunRing
import QwNet.Lib.Transition
import QwNet.Net.Address

namespace QwNet

/-- `MAX_LOOPBACK`. -/
abbrev maxLoopback : Nat := 4

/-- `MAX_MSGLEN*2`, which is the size of `data` in `struct loopmsg`. -/
def loopmsgSize : Nat := 1450 * 2

/-- An `int` that is converted to `size_t`. -/
def sizeT (n : BitVec 32) : Nat := (n.signExtend 64).toNat

/-- The first `n` bytes at a pointer. -/
def bytesAt (data : Nat → Byte) (n : Nat) : List Byte := (List.range n).map data

/-- `struct loopmsg`. -/
structure Loopmsg where
  data : Nat → Byte
  datalen : BitVec 32

/-- `struct loopback`. -/
structure Loopback where
  msgs : Nat → Loopmsg
  get : BitVec 32
  send : BitVec 32

/-- `enum netsrc`. -/
inductive NetSrc where
  | client
  | server
  deriving DecidableEq

/-- `sock ^ 1`. -/
def NetSrc.other : NetSrc → NetSrc
  | client => server
  | server => client

@[simp] theorem NetSrc.other_other (sock : NetSrc) : sock.other.other = sock := by
  cases sock <;> rfl

/-- `struct sizebuf_s`, as far as it is used here. -/
structure SizeBuf where
  data : OutBuf
  cursize : BitVec 32

/-- The packet in a slot. -/
def Loopmsg.packet (msg : Loopmsg) : List Byte := bytesAt msg.data (sizeT msg.datalen)

/-- The packet in a buffer. -/
def SizeBuf.packet (message : SizeBuf) : List Byte :=
  bytesAt message.data.mem (sizeT message.cursize)

/-! ## Receiving -/

/-- The first test of `NET_GetLoopPacket`. -/
def Loopback.skip (loop : Loopback) : Loopback :=
  if BitVec.ofNat 32 maxLoopback < loop.send - loop.get then
    { loop with get := loop.send - BitVec.ofNat 32 maxLoopback }
  else loop

/-- What `NET_GetLoopPacket` returns and leaves behind. -/
structure LoopReceipt where
  returned : Bool
  message : SizeBuf
  netfrom : StructNetaddr
  loopbacks : NetSrc → Loopback

/-- `NET_GetLoopPacket`. -/
def netGetLoopPacket (sock : NetSrc) (message : SizeBuf) (netfrom : StructNetaddr)
    (loopbacks : NetSrc → Loopback) : LoopReceipt :=
  let loop := (loopbacks sock).skip
  if (loop.send - loop.get).toInt ≤ 0 then
    ⟨false, message, netfrom, Function.update loopbacks sock loop⟩
  else
    let msg := loop.msgs (loop.get &&& BitVec.ofNat 32 (maxLoopback - 1)).toNat
    ⟨true, ⟨message.data.memcpy 0 msg.data (sizeT msg.datalen), msg.datalen⟩,
      { StructNetaddr.zero with type := .loopback },
      Function.update loopbacks sock { loop with get := loop.get + 1#32 }⟩

/-- The packet received, if there was one. -/
def LoopReceipt.packet (r : LoopReceipt) : Option (List Byte) :=
  if r.returned then some r.message.packet else none

/-- Without a packet the caller's buffers are left alone. -/
theorem netGetLoopPacket_untouched {sock : NetSrc} {message : SizeBuf} {netfrom : StructNetaddr}
    {loopbacks : NetSrc → Loopback}
    (h : (netGetLoopPacket sock message netfrom loopbacks).packet = none) :
    (netGetLoopPacket sock message netfrom loopbacks).message = message ∧
      (netGetLoopPacket sock message netfrom loopbacks).netfrom = netfrom := by
  by_cases hnone : ((loopbacks sock).skip.send - (loopbacks sock).skip.get).toInt ≤ 0
  · rw [netGetLoopPacket, if_pos hnone]
    exact ⟨rfl, rfl⟩
  · rw [netGetLoopPacket, if_neg hnone] at h
    exact absurd h (Option.some_ne_none _)

/-! ## Sending -/

/-- `NET_SendLoopPacket`; `Sys_Error` returns, and a packet that is too long is then copied
    beyond the ring. -/
def netSendLoopPacket (sock : NetSrc) (length : BitVec 32) (data : Nat → Byte)
    (loopbacks : NetSrc → Loopback) : Option (NetSrc → Loopback) :=
  let loop := loopbacks sock.other
  let i := (loop.send &&& BitVec.ofNat 32 (maxLoopback - 1)).toNat
  if loopmsgSize < sizeT length then none
  else
    let slot : OutBuf := ⟨(loop.msgs i).data, []⟩
    let msg : Loopmsg := ⟨(slot.memcpy 0 data (sizeT length)).mem, length⟩
    some (Function.update loopbacks sock.other
      { loop with msgs := Function.update loop.msgs i msg, send := loop.send + 1#32 })

/-! ## The rings and their queues -/

@[simp] theorem toNat_maxLoopback : (BitVec.ofNat 32 maxLoopback).toNat = maxLoopback := rfl

/-- The slot of a counter. -/
theorem toNat_and_maxLoopback (n : BitVec 32) :
    (n &&& BitVec.ofNat 32 (maxLoopback - 1)).toNat = n.toNat % maxLoopback := by
  rw [BitVec.toNat_and]
  exact Nat.and_two_pow_sub_one_eq_mod n.toNat 2

/-- What was copied is what is there. -/
theorem bytesAt_memcpy (out : OutBuf) (src : Nat → Byte) (n : Nat) :
    bytesAt (out.memcpy 0 src n).mem n = bytesAt src n := by
  refine List.map_congr_left fun i hi => ?_
  have hlt := List.mem_range.mp hi
  rw [OutBuf.memcpy_mem, if_pos (by omega), Nat.sub_zero]

/-- The ring holds the packets of the queue. -/
def Loopback.Holds (loop : Loopback) (queue : List (List Byte)) : Prop :=
  OverrunRing.Keeps maxLoopback (fun i => (loop.msgs i).packet) loop.get loop.send queue

/-- Each side's ring holds the packets that wait for it. -/
def HoldQueues (loopbacks : NetSrc → Loopback) (queues : NetSrc → List (List Byte)) : Prop :=
  ∀ sock, (loopbacks sock).Holds (queues sock)

/-- A change to one side. -/
theorem HoldQueues.update {loopbacks : NetSrc → Loopback} {queues : NetSrc → List (List Byte)}
    (h : HoldQueues loopbacks queues) {sock : NetSrc} {loop : Loopback} {queue : List (List Byte)}
    (hloop : loop.Holds queue) :
    HoldQueues (Function.update loopbacks sock loop) (Function.update queues sock queue) := by
  intro side
  by_cases hside : side = sock
  · subst hside
    rw [Function.update_self, Function.update_self]
    exact hloop
  · rw [Function.update_of_ne hside, Function.update_of_ne hside]
    exact h side

/-- A packet is stored into its slot. -/
theorem Loopback.Holds.send {loop : Loopback} {queue : List (List Byte)} (h : loop.Holds queue)
    (msg : Loopmsg) :
    Loopback.Holds { loop with
      msgs := Function.update loop.msgs (loop.send.toNat % maxLoopback) msg
      send := loop.send + 1#32 } (queue ++ [msg.packet]) := by
  have hpush := OverrunRing.Keeps.push h (by decide) msg.packet
  have hslots : ∀ slot, (fun i => (Function.update loop.msgs slot msg i).packet)
      = Function.update (fun i => (loop.msgs i).packet) slot msg.packet := fun slot =>
    funext fun i => Function.apply_update (fun _ => Loopmsg.packet) loop.msgs slot msg i
  rw [← hslots] at hpush
  exact hpush

/-- `NET_SendLoopPacket` puts the packet into the queue of the other side. -/
theorem HoldQueues.send {loopbacks : NetSrc → Loopback} {queues : NetSrc → List (List Byte)}
    (h : HoldQueues loopbacks queues) (sock : NetSrc) {length : BitVec 32} (data : Nat → Byte)
    (hlength : sizeT length ≤ loopmsgSize) :
    ∃ loopbacks', netSendLoopPacket sock length data loopbacks = some loopbacks' ∧
      HoldQueues loopbacks' (Function.update queues sock.other
        (queues sock.other ++ [bytesAt data (sizeT length)])) := by
  unfold netSendLoopPacket
  rw [if_neg (Nat.not_lt.mpr hlength), toNat_and_maxLoopback]
  refine ⟨_, rfl, h.update ?_⟩
  rw [← bytesAt_memcpy _ data (sizeT length)]
  exact Loopback.Holds.send (h sock.other) _

/-- Packets that were overwritten are skipped. -/
theorem Loopback.Holds.skip {loop : Loopback} {queue : List (List Byte)} (h : loop.Holds queue)
    (hfew : queue.length < 2 ^ 32) :
    loop.skip.Holds (OverrunRing.newest maxLoopback queue) := by
  have hdist : (loop.send - loop.get).toNat = queue.length := OverrunRing.Keeps.toNat_sub h hfew
  unfold Loopback.skip
  split
  next hfar =>
    rw [BitVec.lt_def, hdist, toNat_maxLoopback] at hfar
    exact OverrunRing.Keeps.skip h hfar
  next hnear =>
    rw [BitVec.lt_def, hdist, toNat_maxLoopback] at hnear
    rw [OverrunRing.newest_of_length_le (Nat.not_lt.mp hnear)]
    exact h

/-- With few packets in the queue, the counters are at its ends as signed numbers too. -/
theorem Loopback.Holds.toInt_sub {loop : Loopback} {queue : List (List Byte)} (h : loop.Holds queue)
    (hfew : queue.length ≤ maxLoopback) : (loop.send - loop.get).toInt = queue.length := by
  have hsmall : maxLoopback < 2 ^ 31 := by decide
  have hdist : (loop.send - loop.get).toNat = queue.length :=
    OverrunRing.Keeps.toNat_sub h (by omega)
  rw [BitVec.toInt_eq_toNat_of_lt (by omega), hdist]

/-- `NET_GetLoopPacket` takes a packet from its queue. -/
theorem HoldQueues.get {loopbacks : NetSrc → Loopback} {queues : NetSrc → List (List Byte)}
    (h : HoldQueues loopbacks queues) (sock : NetSrc) (message : SizeBuf) (netfrom : StructNetaddr)
    (hfew : (queues sock).length < 2 ^ 32) :
    (netGetLoopPacket sock message netfrom loopbacks).packet
        = (OverrunRing.take maxLoopback (queues sock)).1 ∧
      HoldQueues (netGetLoopPacket sock message netfrom loopbacks).loopbacks
        (Function.update queues sock (OverrunRing.take maxLoopback (queues sock)).2) := by
  have hskip := (h sock).skip hfew
  have hlength := OverrunRing.length_newest maxLoopback (queues sock)
  have hdist := hskip.toInt_sub (hlength ▸ Nat.min_le_left ..)
  rw [OverrunRing.take]
  cases hnewest : OverrunRing.newest maxLoopback (queues sock) with
  | nil =>
    -- the counters agree after the skip
    rw [hnewest] at hskip hdist
    rw [List.length_nil] at hdist
    rw [netGetLoopPacket, if_pos (by omega)]
    exact ⟨rfl, h.update hskip⟩
  | cons packet rest =>
    rw [hnewest] at hskip hdist hlength
    rw [List.length_cons] at hdist hlength
    rw [netGetLoopPacket, if_neg (by omega), toNat_and_maxLoopback]
    obtain ⟨hpacket, hrest⟩ := OverrunRing.Keeps.pop hskip (by omega)
    refine ⟨?_, h.update hrest⟩
    rw [← hpacket]
    exact congrArg some (bytesAt_memcpy ..)

/-! ## The system -/

/-- The calls on the two sides. -/
inductive LoopCall where
  | send (sock : NetSrc) (length : BitVec 32) (data : Nat → Byte)
  | get (sock : NetSrc) (message : SizeBuf) (netfrom : StructNetaddr)

/-- The rings, and what was received on which side. -/
structure LoopState where
  loopbacks : NetSrc → Loopback
  receipts : List (NetSrc × Option (List Byte))

/-- The code. -/
def LoopState.step : LoopCall → LoopState → Option LoopState
  | .send sock length data, s => do
    let loopbacks ← netSendLoopPacket sock length data s.loopbacks
    some { s with loopbacks }
  | .get sock message netfrom, s =>
    let r := netGetLoopPacket sock message netfrom s.loopbacks
    some ⟨r.loopbacks, s.receipts ++ [(sock, r.packet)]⟩

/-- Nothing was sent yet; `NET_Init` and `NET_ClearLoopback` begin with counters of 0. -/
def LoopState.Init (s : LoopState) : Prop :=
  (∀ sock, (s.loopbacks sock).get = (s.loopbacks sock).send) ∧ s.receipts = []

def loopSystem : Transitions LoopState LoopCall := ⟨LoopState.Init, LoopState.step⟩

/-- The packets that wait for each side, and what was received on which side. -/
structure LoopQueues where
  queues : NetSrc → List (List Byte)
  receipts : List (NetSrc × Option (List Byte))

/-- What the calls are for. -/
def LoopQueues.step : LoopCall → LoopQueues → Option LoopQueues
  | .send sock length data, t =>
    let packet := bytesAt data (sizeT length)
    some { t with queues := Function.update t.queues sock.other (t.queues sock.other ++ [packet]) }
  | .get sock _ _, t =>
    let taken := OverrunRing.take maxLoopback (t.queues sock)
    some ⟨Function.update t.queues sock taken.2, t.receipts ++ [(sock, taken.1)]⟩

def LoopQueues.start : LoopQueues := ⟨fun _ => [], []⟩

def loopQueues : Transitions LoopQueues LoopCall := ⟨(· = .start), LoopQueues.step⟩

/-- A packet that is sent fits into a slot, and fewer than `2 ^ 32` packets wait for a side that
    receives. -/
def FewWaiting : LoopCall → LoopQueues → Prop
  | .send _ length _, _ => sizeT length ≤ loopmsgSize
  | .get sock _ _, t => (t.queues sock).length < 2 ^ 32

instance : ∀ call t, Decidable (FewWaiting call t)
  | .send _ length _, _ => Nat.decLe (sizeT length) loopmsgSize
  | .get sock _ _, t => Nat.decLt (t.queues sock).length (2 ^ 32)

/-- The rings hold the queues, and the same was received. -/
structure LoopState.Represents (s : LoopState) (t : LoopQueues) : Prop where
  rings : HoldQueues s.loopbacks t.queues
  receipts : s.receipts = t.receipts

theorem LoopState.Init.represents {s : LoopState} (h : s.Init) : s.Represents .start := by
  constructor
  · intro sock
    unfold Loopback.Holds
    rw [h.1 sock]
    exact OverrunRing.Keeps.nil
  · exact h.2

/-- Each call does to the rings what it does to the queues. -/
theorem LoopState.Represents.step {call : LoopCall} {s : LoopState} {t t' : LoopQueues}
    (h : s.Represents t) (hfew : FewWaiting call t) (hstep : loopQueues.step call t = some t') :
    ∃ s', loopSystem.step call s = some s' ∧ s'.Represents t' := by
  cases call with
  | send sock length data =>
    obtain rfl := Option.some.inj hstep
    obtain ⟨loopbacks, hsend, hrings⟩ := h.rings.send sock data hfew
    refine ⟨{ s with loopbacks }, ?_, hrings, h.receipts⟩
    exact Option.bind_eq_some_iff.mpr ⟨loopbacks, hsend, rfl⟩
  | get sock message netfrom =>
    obtain rfl := Option.some.inj hstep
    obtain ⟨hpacket, hrings⟩ := h.rings.get sock message netfrom hfew
    refine ⟨_, rfl, hrings, ?_⟩
    rw [h.receipts, hpacket]

/-! ## What is delivered -/

/-- The packet that a call sends from a side. -/
def LoopCall.sentBy? (sock : NetSrc) : LoopCall → Option (List Byte)
  | .send side length data => if side = sock then some (bytesAt data (sizeT length)) else none
  | .get _ _ _ => none

/-- The packets that are sent from a side. -/
def sentBy (sock : NetSrc) (calls : List LoopCall) : List (List Byte) :=
  calls.filterMap (LoopCall.sentBy? sock)

/-- The packets that were received on a side. -/
def delivered (sock : NetSrc) (receipts : List (NetSrc × Option (List Byte))) : List (List Byte) :=
  receipts.filterMap fun r => if r.1 = sock then r.2 else none

@[simp] theorem sentBy_concat (sock : NetSrc) (calls : List LoopCall) (call : LoopCall) :
    sentBy sock (calls ++ [call]) = sentBy sock calls ++ (call.sentBy? sock).toList := by
  rw [sentBy, List.filterMap_append, History.filterMap_singleton]
  rfl

@[simp] theorem delivered_concat (sock : NetSrc) (receipts : List (NetSrc × Option (List Byte)))
    (side : NetSrc) (packet : Option (List Byte)) :
    delivered sock (receipts ++ [(side, packet)])
      = delivered sock receipts ++ (if side = sock then packet else none).toList := by
  rw [delivered, List.filterMap_append, History.filterMap_singleton]
  rfl

/-- What a side received and what waits for it was among what the other side sent, in this
    order. -/
def LoopQueues.Crossed (t : LoopQueues) (calls : List LoopCall) : Prop :=
  ∀ sock, (delivered sock t.receipts ++ t.queues sock).Sublist (sentBy sock.other calls)

theorem LoopQueues.Crossed.step {call : LoopCall} {t t' : LoopQueues} {calls : List LoopCall}
    (h : t.Crossed calls) (hstep : loopQueues.step call t = some t') :
    t'.Crossed (calls ++ [call]) := by
  intro side
  have hside := h side
  rw [sentBy_concat]
  cases call with
  | send sock length data =>
    obtain rfl := Option.some.inj hstep
    by_cases hsock : sock = side.other
    · -- the packet goes to the end of the queue
      subst hsock
      simpa [LoopCall.sentBy?] using hside.append_right [bytesAt data (sizeT length)]
    · have hother : side ≠ sock.other := fun heq => hsock (by rw [heq, NetSrc.other_other])
      simpa [LoopCall.sentBy?, hsock, Function.update_of_ne hother] using hside
  | get sock message netfrom =>
    obtain rfl := Option.some.inj hstep
    by_cases hsock : sock = side
    · -- a packet goes from the queue to the end of what was received
      subst hsock
      have htake := OverrunRing.take_sublist maxLoopback (t.queues sock)
      have hmoved := (htake.append_left (delivered sock t.receipts)).trans hside
      simpa [LoopCall.sentBy?] using hmoved
    · have hne : side ≠ sock := fun heq => hsock heq.symm
      simpa [LoopCall.sentBy?, hsock, Function.update_of_ne hne] using hside

/-- However often the counters wrap, and however far the receivers are behind: as long as fewer
    than `2 ^ 32` packets wait for a side that receives, the two rings are queues of which the
    newest `MAX_LOOPBACK` packets count, and a side receives what the other one sent only. -/
theorem loopback_refines_queues {calls : List LoopCall} {s : LoopState} {t : LoopQueues}
    (hinit : loopSystem.Init s) (hrun : loopQueues.runOk FewWaiting calls .start = some t) :
    ∃ s', loopSystem.run calls s = some s' ∧ s'.receipts = t.receipts ∧
      ∀ sock, (delivered sock s'.receipts).Sublist (sentBy sock.other calls) := by
  have hstart : LoopQueues.start.Crossed [] := fun sock => List.Sublist.refl (sentBy sock.other [])
  have hcrossed : t.Crossed calls := Transitions.runOk_labels (P := fun calls t => t.Crossed calls)
    (fun _ _ _ _ h _ hstep => LoopQueues.Crossed.step h hstep) hstart hrun
  obtain ⟨s', hs', hrep⟩ := Transitions.runOk_simulated
    (fun _ _ _ _ hR hok hstep => LoopState.Represents.step hR hok hstep)
    (LoopState.Init.represents hinit) hrun
  refine ⟨s', hs', hrep.receipts, fun sock => ?_⟩
  rw [hrep.receipts]
  exact (List.sublist_append_left _ _).trans (hcrossed sock)

/-- An empty receive buffer. -/
def SizeBuf.cleared : SizeBuf := ⟨⟨fun _ => 0#8, []⟩, 0#32⟩

/-- Both counters of both rings are `n`. -/
def LoopState.startAt (n : BitVec 32) : LoopState :=
  ⟨fun _ => ⟨fun _ => ⟨fun _ => 0#8, 0#32⟩, n, n⟩, []⟩

/-- The client sends five packets while the counters wrap; the server misses the first. -/
theorem loopback_refines_queues_overrun :
    ∃ s', loopSystem.run
        ((List.range 5).map (fun n => .send .client 1#32 fun _ => BitVec.ofNat 8 n)
          ++ List.replicate 2 (.get .server .cleared .zero)) (.startAt 0xfffffffe#32) = some s' ∧
      s'.receipts = [(.server, some [1#8]), (.server, some [2#8])] ∧
      ∀ sock, (delivered sock s'.receipts).Sublist (sentBy sock.other
        ((List.range 5).map (fun n => .send .client 1#32 fun _ => BitVec.ofNat 8 n)
          ++ List.replicate 2 (.get .server .cleared .zero))) :=
  loopback_refines_queues (t := ⟨_, _⟩) ⟨fun _ => rfl, rfl⟩ rfl

/-! ## A backlog of `2 ^ 32` packets -/

/-- One call more, for the number of packets sent to a side since it last received. -/
def LoopCall.countSent (sock : NetSrc) (n : Nat) : LoopCall → Nat
  | .send side _ _ => if side.other = sock then n + 1 else n
  | .get side _ _ => if side = sock then 0 else n

/-- How many packets were sent to a side since it last received. -/
def sentSince (sock : NetSrc) (calls : List LoopCall) : Nat :=
  calls.foldl (LoopCall.countSent sock) 0

/-- A packet that is sent fits into a slot, and fewer than `2 ^ 32` packets are sent to a side
    between two receives. -/
def FewSent (calls : List LoopCall) : Prop :=
  History.AtEvery (fun before call =>
    match call with
    | .send _ length _ => sizeT length ≤ loopmsgSize
    | .get sock _ _ => sentSince sock before < 2 ^ 32) calls

/-- A whole turn of the counters looks like none. -/
theorem HoldQueues.get_eq_none {loopbacks : NetSrc → Loopback}
    {queues : NetSrc → List (List Byte)} (h : HoldQueues loopbacks queues) (sock : NetSrc)
    (message : SizeBuf) (netfrom : StructNetaddr) (hturn : (queues sock).length % 2 ^ 32 = 0) :
    (netGetLoopPacket sock message netfrom loopbacks).packet = none := by
  have hdist : (loopbacks sock).send - (loopbacks sock).get = 0#32 := by
    apply BitVec.eq_of_toNat_eq
    rw [OverrunRing.Keeps.sub_eq (h sock), BitVec.toNat_ofNat, hturn]
    rfl
  have hskip : (loopbacks sock).skip = loopbacks sock := by
    rw [Loopback.skip, hdist]
    rfl
  rw [netGetLoopPacket, hskip, hdist]
  rfl

/-- The client sends a packet of one byte. -/
def sendOne : LoopCall := .send .client 1#32 fun _ => 7#8

/-- The server receives. -/
def getOne : LoopCall := .get .server .cleared .zero

/-- Of two packets the server takes one before `n` further ones are sent. -/
def backlog (n : Nat) : List LoopCall :=
  [sendOne, sendOne, getOne] ++ List.replicate n sendOne

theorem sentSince_replicate (calls : List LoopCall) (n : Nat) :
    sentSince .server (calls ++ List.replicate n sendOne) = sentSince .server calls + n := by
  induction n with
  | zero => simp
  | succ n ih =>
    rw [List.replicate_succ', ← List.append_assoc, sentSince, List.foldl_append]
    change sentSince .server (calls ++ List.replicate n sendOne) + 1 = _
    rw [ih, Nat.add_assoc]

theorem fewSent_backlog {n : Nat} (hn : n < 2 ^ 32) : FewSent (backlog n ++ [getOne]) := by
  have hfits : sizeT 1#32 ≤ loopmsgSize := by decide
  have hfirst : FewSent [sendOne, sendOne, getOne] :=
    (((History.atEvery_nil _).concat hfits).concat hfits).concat
      (show sentSince .server [sendOne, sendOne] < 2 ^ 32 by decide)
  have hmore : FewSent (backlog n) := by
    apply hfirst.append
    intro before call hcall
    rw [List.eq_of_mem_replicate hcall]
    exact hfits
  apply hmore.concat
  change sentSince .server (backlog n) < 2 ^ 32
  rw [backlog, sentSince_replicate]
  exact (Nat.zero_add n).trans_lt hn

/-- All the packets that follow wait. -/
theorem run_backlog (n : Nat) :
    ∃ t, loopQueues.runOk FewWaiting (backlog n) .start = some t ∧
      t.queues .server = List.replicate (n + 1) [7#8] := by
  induction n with
  | zero => exact ⟨_, rfl, rfl⟩
  | succ n ih =>
    obtain ⟨t, hrun, hqueue⟩ := ih
    rw [backlog, List.replicate_succ', ← List.append_assoc, Transitions.runOk_append]
    change ∃ t', loopQueues.runOk FewWaiting (backlog n) .start >>= _ = some t' ∧ _
    rw [hrun]
    refine ⟨_, rfl, ?_⟩
    change t.queues .server ++ [[7#8]] = _
    rw [hqueue, ← List.replicate_succ']

/-- After a whole turn of the counters the server is told that there is nothing. -/
theorem backlog_lost {n : Nat} (hturn : (n + 1) % 2 ^ 32 = 0) :
    ∃ s t, loopSystem.run (backlog n ++ [getOne]) (.startAt 0#32) = some s ∧
      loopQueues.run (backlog n ++ [getOne]) .start = some t ∧ s.receipts ≠ t.receipts := by
  obtain ⟨t, ht, hqueue⟩ := run_backlog n
  have hinit : (LoopState.startAt 0#32).Init := ⟨fun _ => rfl, rfl⟩
  obtain ⟨s, hs, hrep⟩ := Transitions.runOk_simulated
    (fun _ _ _ _ hR hok hstep => LoopState.Represents.step hR hok hstep) hinit.represents ht
  have hnone := hrep.rings.get_eq_none .server .cleared .zero
    (by rw [hqueue, List.length_replicate, hturn])
  -- the ring has made a whole turn, and the queue is not empty
  have hsome : (OverrunRing.take maxLoopback (t.queues .server)).1 ≠ none := by
    intro hempty
    rw [OverrunRing.take_none_iff (by decide), hqueue, List.replicate_succ] at hempty
    exact absurd hempty (List.cons_ne_nil _ _)
  let r := netGetLoopPacket .server .cleared .zero s.loopbacks
  let taken := OverrunRing.take maxLoopback (t.queues .server)
  refine ⟨⟨r.loopbacks, s.receipts ++ [(.server, r.packet)]⟩,
    ⟨Function.update t.queues .server taken.2, t.receipts ++ [(.server, taken.1)]⟩, ?_, ?_, ?_⟩
  · rw [Transitions.run, Transitions.runOk_append]
    exact Option.bind_eq_some_iff.mpr ⟨s, hs, rfl⟩
  · rw [Transitions.run, Transitions.runOk_append]
    exact Option.bind_eq_some_iff.mpr ⟨t, Transitions.run_of_runOk ht, rfl⟩
  · -- the last receipts differ
    intro heq
    have hlast := (List.append_inj' heq rfl).2
    rw [List.singleton_inj, Prod.mk.injEq] at hlast
    exact hsome (hlast.2.symm.trans hnone)

/-- With `2 ^ 32 - 1` packets sent between its two receives, the server is told that there are
    none. -/
theorem fewSent_not_enough :
    FewSent (backlog (2 ^ 32 - 1) ++ [getOne]) ∧
      ∃ s t, loopSystem.run (backlog (2 ^ 32 - 1) ++ [getOne]) (.startAt 0#32) = some s ∧
        loopQueues.run (backlog (2 ^ 32 - 1) ++ [getOne]) .start = some t ∧
        s.receipts ≠ t.receipts :=
  ⟨fewSent_backlog (by decide), backlog_lost (by decide)⟩

end QwNet
