/-
  QwNet.Channel.ReliableQueue

  The reliable commands, as they are linked.

  The commands that wait are a linked list, and the number of those that were sent is
  kept apart from it.  Here the list is that of the source, every access to a command
  is recorded, and a step is one call of `NetQW_AppendReliableBuffer`, one iteration of
  `NetQW_Thread_DoSend` or one packet handled.
-/
import Mathlib.Data.List.Nodup
import QwNet.Channel.Reliable
import QwNet.Lib.LinkedQueue
import QwNet.Lib.Resource

namespace QwNet

open LinkedQueue Resource

/-- The fields of `struct NetQW` that the reliable commands rest on, and the buffers that
    hold them.  Buffers are numbered as they are allocated. -/
structure Reliables where
  /-- `reliablebufferhead`, `reliablebuffertail` and the `next` pointers. -/
  links : Links Nat
  buffers : Nat → ReliableBuffer
  mallocs : Nat
  buffersSent : BitVec 32
  sequenceNumber : BitVec 32
  incomingXor : BitVec 32
  currentSequence : BitVec 32
  /-- `malloc`, `free` and every access through a pointer to a buffer. -/
  ops : List (Op Nat)
  /-- What `NetQW_AppendReliableBuffer` was given. -/
  appended : List ReliableBuffer
  /-- The packets handed to `NetQW_Thread_SendPacket`, and the buffers copied into them. -/
  packets : List (List Byte × List Nat)

namespace Reliables

/-- The buffers `ns` are accessed. -/
def access (ns : List Nat) (h : Reliables) : Reliables :=
  { h with ops := h.ops ++ ns.map fun n => .use (some n) }

/-- `malloc`, and what `NetQW_AppendReliableBuffer` writes to the new buffer. -/
def allocate (b : ReliableBuffer) (h : Reliables) : Reliables :=
  { h with
    links := h.links.clear h.mallocs
    buffers := Function.update h.buffers h.mallocs b
    mallocs := h.mallocs + 1
    appended := h.appended ++ [b]
    ops := h.ops ++ [Op.acquire h.mallocs] }.access [h.mallocs]

/-- The buffer is linked behind the tail, or as the only one. -/
def link (n : Nat) (h : Reliables) : Reliables :=
  { h with links := h.links.push n }.access h.links.tail.toList

/-- `NetQW_AppendReliableBuffer`. -/
def append (b : ReliableBuffer) (h : Reliables) : Reliables := (h.allocate b).link h.mallocs

/-- The loop over the buffers for a packet of `i` bytes: those it copies and those it looks
    at. -/
def collect (h : Reliables) : Nat → Option Nat → Nat → Option (List Nat × List Nat)
  | _, none, _ => some ([], [])
  | 0, some _, _ => none
  | fuel + 1, some n, i =>
    let i' := (i + (h.buffers n).data.length) % 2 ^ 32
    if i' < 1450 then
      (h.collect fuel (h.links.next n) i').map fun r => (n :: r.1, n :: r.2)
    else some ([], [n])

/-- The bytes of the buffers `ns`. -/
def contents (ns : List Nat) (h : Reliables) : List Byte := ns.flatMap fun n => (h.buffers n).data

/-- The packet goes to `NetQW_Thread_SendPacket`, and the numbers move on. -/
def handOver (buf : List Byte) (ns : List Nat) (h : Reliables) : Reliables :=
  { h with
    currentSequence := h.currentSequence + 1#32
    packets := h.packets ++ [(buf, ns)] }

/-- Sent buffers are remembered until they are acknowledged. -/
def remember (ns : List Nat) (h : Reliables) : Reliables :=
  { h with
    buffersSent := BitVec.ofNat 32 ns.length
    sequenceNumber := h.currentSequence
    incomingXor := h.incomingXor ^^^ 1#32 }

/-- An iteration of `NetQW_Thread_DoSend`; behind its number the packet has the bytes
    `rest`. -/
def send (fuel : Nat) (rest : List Byte) (h : Reliables) : Option Reliables :=
  let buf := writeLong h.currentSequence ++ rest
  if h.buffersSent = 0#32 then
    (h.collect fuel h.links.head buf.length).map fun r =>
      let h := h.access r.2
      let buf := buf ++ h.contents r.1
      if BitVec.ofNat 32 r.1.length ≠ 0#32 then (h.remember r.1).handOver (orAt buf 3 0x80) r.1
      else h.handOver buf r.1
  else some (h.handOver buf [])

/-- `reliablebufferhead = reliablebuffer->next`, and `free`. -/
def freeHead (h : Reliables) : Reliables :=
  match h.links.head with
  | none => { h with ops := h.ops ++ [.use none] }
  | some n =>
    let h := { h with links := h.links.advance n }.access [n]
    { h with ops := h.ops ++ [.release (some n)] }

/-- The loop over the buffers that were sent. -/
def freeSent (h : Reliables) : Reliables := freeHead^[h.buffersSent.toNat] h

/-- `if (reliablebufferhead == 0) reliablebuffertail = 0`. -/
def repair (h : Reliables) : Reliables := { h with links := h.links.repair }

/-- `reliable_buffers_sent = 0`. -/
def forget (h : Reliables) : Reliables := { h with buffersSent := 0 }

/-- `incoming_reliable_xor ^= 1`. -/
def flip (h : Reliables) : Reliables := { h with incomingXor := h.incomingXor ^^^ 1#32 }

/-- The end of `NetQW_Thread_HandleReceivedPacket`. -/
def settle (data : List Byte) (h : Reliables) : Reliables :=
  if h.buffersSent ≠ 0#32 ∧ h.sequenceNumber ≤ sequenceOf data then
    if (h.incomingXor ≠ 0#32) ≠ (acknowledgeBit data = true) then h.forget.flip
    else h.freeSent.repair.forget
  else h

end Reliables

/-- A step that concerns the reliable commands. -/
inductive ReliableAction where
  | append (b : ReliableBuffer)
  | send (fuel : Nat) (rest : List Byte)
  | settle (data : List Byte)

/-- What an action does; `none` if it never returns. -/
def Reliables.step (a : ReliableAction) (h : Reliables) : Option Reliables :=
  match a with
  | .append b => some (h.append b)
  | .send fuel rest => h.send fuel rest
  | .settle data => some (h.settle data)

/-- The queue after `NetQW_Create` and `NetQW_Thread_Init`. -/
def Reliables.Init (h : Reliables) : Prop :=
  ∃ next buffers sequenceNumber, h = ⟨.empty next, buffers, 0, 0, sequenceNumber, 0, 1, [], [], []⟩

/-- The reliable commands as a system. -/
def reliableSystem : Transitions Reliables ReliableAction where
  Init := Reliables.Init
  step := Reliables.step

/-! ## What holds of the queue -/

/-- The buffers that were freed, in this order. -/
def Reliables.freed (h : Reliables) : List Nat := h.ops.filterMap Op.released?

/-- The buffer was copied whole into a packet that was sent with the reliable flag: the packet
    is its number and more, and then the buffers that were copied. -/
def Reliables.Copied (h : Reliables) (n : Nat) : Prop :=
  ∃ p ∈ h.packets, n ∈ p.2 ∧ topBit (fun i => p.1.getD i 0) 3 = true ∧
    ∃ base, 4 ≤ base.length ∧ p.1 = base ++ h.contents p.2

/-- The queue is what was appended without a beginning, which was freed; the buffers sent are
    a beginning of the queue; no buffer is accessed once it was freed, and no null pointer; and
    whatever was freed or is said to be sent was copied into a reliable packet. -/
structure QueueSound (h : Reliables) (queue : List Nat) : Prop where
  linked : Linked h.links queue
  order : List.range h.mallocs = h.freed ++ queue
  appended : h.appended = (List.range h.mallocs).map h.buffers
  account : Account h.ops (· ∈ queue) h.mallocs
  sent_le : h.buffersSent.toNat ≤ queue.length
  copied : ∀ n ∈ h.freed ++ queue.take h.buffersSent.toNat, h.Copied n
  packets_lt : ∀ p ∈ h.packets, ∀ n ∈ p.2, n < h.mallocs

namespace Reliables

variable {h : Reliables} {n : Nat}

theorem freed_access (h : Reliables) (ns : List Nat) : (h.access ns).freed = h.freed :=
  filterMap_released_use h.ops ns

/-- What was copied stays so. -/
theorem Copied.mono {h' : Reliables} (hn : h.Copied n) (hpackets : h.packets <+: h'.packets)
    (hbuffers : ∀ p ∈ h.packets, ∀ m ∈ p.2, h'.buffers m = h.buffers m) : h'.Copied n := by
  obtain ⟨p, hp, hmem, hflag, base, hbase, heq⟩ := hn
  have hcontents : h'.contents p.2 = h.contents p.2 :=
    List.flatMap_congr fun m hm => congrArg ReliableBuffer.data (hbuffers p hp m hm)
  exact ⟨p, hpackets.subset hp, hmem, hflag, base, hbase, by rw [hcontents, heq]⟩

/-! ## Appending -/

theorem freed_append (b : ReliableBuffer) (h : Reliables) : (h.append b).freed = h.freed := by
  have hacquire : (h.ops ++ [Op.acquire h.mallocs]).filterMap Op.released?
      = h.ops.filterMap Op.released? := by
    rw [List.filterMap_append]
    exact List.append_nil _
  exact (freed_access _ _).trans ((freed_access _ _).trans hacquire)

end Reliables

section

variable {h h' : Reliables} {queue : List Nat}

theorem QueueSound.lt_mallocs (hq : QueueSound h queue) {n : Nat} (hn : n ∈ queue) : n < h.mallocs :=
  hq.account.lt hn

theorem QueueSound.append (hq : QueueSound h queue) (b : ReliableBuffer) :
    QueueSound (h.append b) (queue ++ [h.mallocs]) := by
  -- the new node is the one `malloc` has just handed out, so it stands nowhere in the queue
  have hfresh : h.mallocs ∉ queue := fun hmem => Nat.lt_irrefl _ (hq.lt_mallocs hmem)
  -- no packet yet names it: its buffer can be set without touching any copy
  have hbuffers : ∀ p ∈ h.packets, ∀ m ∈ p.2,
      Function.update h.buffers h.mallocs b m = h.buffers m := fun p hp m hm =>
    Function.update_of_ne (Nat.ne_of_lt (hq.packets_lt p hp m hm)) ..
  have hlinked := (hq.linked.clear hfresh).push hfresh (Links.next_clear ..)
  -- the old tail is written through, and it is a live node
  have htail : ∀ n ∈ (h.links.clear h.mallocs).tail.toList, n ∈ queue ++ [h.mallocs] := by
    intro n hn
    have hlast : queue.getLast? = some n := hq.linked.tail.symm.trans (Option.mem_toList.mp hn)
    exact List.mem_append_left _ (List.mem_of_getLast? hlast)
  have haccount := (hq.account.acquire.congr fun n =>
    (List.mem_append.trans (or_congr_right List.mem_singleton)).symm).use_all
      (List.forall_mem_singleton.mpr (List.mem_append_right queue List.mem_cons_self))
  refine ⟨hlinked, ?_, ?_, haccount.use_all htail, ?_, ?_, fun p hp n hn =>
    Nat.lt_succ_of_lt (hq.packets_lt p hp n hn)⟩
  · -- freed and queued nodes together are all the nodes, in the order of their allocation
    show List.range (h.mallocs + 1) = (h.append b).freed ++ (queue ++ [h.mallocs])
    rw [Reliables.freed_append, ← List.append_assoc, ← hq.order, List.range_succ]
  · show h.appended ++ [b]
      = (List.range (h.mallocs + 1)).map (Function.update h.buffers h.mallocs b)
    have hold : (List.range h.mallocs).map (Function.update h.buffers h.mallocs b)
        = (List.range h.mallocs).map h.buffers := List.map_congr_left fun n hn =>
      Function.update_of_ne (Nat.ne_of_lt (List.mem_range.mp hn)) ..
    rw [List.range_succ, List.map_append, hold, ← hq.appended, List.map_singleton,
      Function.update_self]
  · -- the count of outstanding buffers is as before, and the queue has grown
    show h.buffersSent.toNat ≤ _
    rw [List.length_append]
    exact Nat.le_add_right_of_le hq.sent_le
  · -- appended behind those outstanding, the node joins none of those said to be copied
    show ∀ n ∈ (h.append b).freed ++ (queue ++ [h.mallocs]).take h.buffersSent.toNat, _
    rw [Reliables.freed_append, List.take_append_of_le_length hq.sent_le]
    exact fun n hn => (hq.copied n hn).mono (List.prefix_refl _) hbuffers

/-! ## Freeing -/

/-- The loop that frees is at work on `h₀`: the tail may be stale. -/
structure Freeing (h₀ h : Reliables) (queue : List Nat) : Prop where
  same : h = { h₀ with links := h.links, ops := h.ops }
  linked : Linked h.links.repair queue
  order : List.range h.mallocs = h.freed ++ queue
  account : Account h.ops (· ∈ queue) h.mallocs

theorem QueueSound.freeing (hq : QueueSound h queue) : Freeing h h queue where
  same := rfl
  linked := hq.linked.repair.symm ▸ hq.linked
  order := hq.order
  account := hq.account

/-- One buffer is freed; there is one, and it had not been freed. -/
theorem Freeing.step {h₀ : Reliables} {n : Nat} (hf : Freeing h₀ h (n :: queue)) :
    Freeing h₀ h.freeHead queue ∧ h.freeHead.freed = h.freed ++ [n] := by
  have hhead : h.links.head = some n := hf.linked.head
  -- the head is read, advanced past and then freed: the `use` comes before the `release`
  have heq : h.freeHead = { h with
      links := h.links.advance n
      ops := h.ops ++ [.use (some n)] ++ [.release (some n)] } := by
    unfold Reliables.freeHead
    rw [hhead]
    rfl
  have hfreed : h.freeHead.freed = h.freed ++ [n] := by
    have huse := filterMap_released_use h.ops [n]
    rw [heq, Reliables.freed, Reliables.freed, List.filterMap_append]
    exact congrArg (· ++ [n]) huse
  have hnodup := List.nodup_cons.mp hf.linked.nodup
  -- after the step the live nodes are those left in the queue
  have hlive : ∀ m, m ∈ n :: queue ∧ m ≠ n ↔ m ∈ queue := fun m =>
    ⟨fun hm => (List.mem_cons.mp hm.1).resolve_left hm.2,
      fun hm => ⟨List.mem_cons_of_mem n hm, fun hmn => hnodup.1 (hmn ▸ hm)⟩⟩
  have haccount := ((hf.account.use List.mem_cons_self).release List.mem_cons_self).congr hlive
  refine ⟨⟨?_, ?_, ?_, ?_⟩, hfreed⟩
  · rw [heq, hf.same]
  · rw [heq]
    exact hf.linked.advance
  · rw [hfreed, List.append_assoc]
    rw [heq]
    exact hf.order
  · rw [heq]
    exact haccount

theorem Freeing.loop {h₀ : Reliables} {sent : List Nat} (hf : Freeing h₀ h (sent ++ queue)) :
    Freeing h₀ (Reliables.freeHead^[sent.length] h) queue ∧
      (Reliables.freeHead^[sent.length] h).freed = h.freed ++ sent := by
  induction sent generalizing h with
  | nil => exact ⟨hf, (List.append_nil _).symm⟩
  | cons n sent ih =>
    rw [List.cons_append] at hf
    obtain ⟨hstep, hfreed⟩ := hf.step
    obtain ⟨hloop, hall⟩ := ih hstep
    rw [List.length_cons, Function.iterate_succ_apply]
    refine ⟨hloop, ?_⟩
    rw [hall, hfreed, List.append_assoc]
    rfl

/-- The buffers sent are freed. -/
theorem QueueSound.freeSent (hq : QueueSound h queue) :
    QueueSound h.freeSent.repair.forget (queue.drop h.buffersSent.toNat) ∧
      h.freeSent.freed = h.freed ++ queue.take h.buffersSent.toNat ∧
      h.freeSent = { h with links := h.freeSent.links, ops := h.freeSent.ops } := by
  have hsplit : queue = queue.take h.buffersSent.toNat ++ queue.drop h.buffersSent.toNat :=
    (List.take_append_drop ..).symm
  have hlength : (queue.take h.buffersSent.toNat).length = h.buffersSent.toNat :=
    List.length_take_of_le hq.sent_le
  -- the loop runs once for each outstanding buffer, and that many nodes are queued
  obtain ⟨hloop, hfreed⟩ := Freeing.loop (hsplit ▸ hq.freeing)
  rw [hlength] at hloop hfreed
  have hsame : h.freeSent = { h with links := h.freeSent.links, ops := h.freeSent.ops } := hloop.same
  -- nothing but the links and the account is written
  have hpackets : h.freeSent.packets = h.packets := by
    have heq := congrArg Reliables.packets hsame
    exact heq
  have hbuffers : h.freeSent.buffers = h.buffers := by
    have heq := congrArg Reliables.buffers hsame
    exact heq
  have hmallocs : h.freeSent.mallocs = h.mallocs := by
    have heq := congrArg Reliables.mallocs hsame
    exact heq
  have happended : h.freeSent.appended = h.appended := by
    have heq := congrArg Reliables.appended hsame
    exact heq
  refine ⟨⟨hloop.linked, hloop.order, ?_, hloop.account, Nat.zero_le _, fun n hn => ?_, ?_⟩, hfreed,
    hsame⟩
  · show h.freeSent.appended = (List.range h.freeSent.mallocs).map h.freeSent.buffers
    rw [happended, hmallocs, hbuffers]
    exact hq.appended
  · -- the nodes freed were outstanding, so each of them had been copied
    have hmem : n ∈ h.freeSent.freed := (List.append_nil h.freeSent.freed) ▸ hn
    have hcopied := hq.copied n (hfreed ▸ hmem)
    refine hcopied.mono ?_ fun p _ m _ => congrFun hbuffers m
    show h.packets <+: h.freeSent.packets
    exact hpackets.symm ▸ List.prefix_refl h.packets
  · show ∀ p ∈ h.freeSent.packets, ∀ n ∈ p.2, n < h.freeSent.mallocs
    rw [hpackets, hmallocs]
    exact hq.packets_lt

/-- They are to be sent again. -/
theorem QueueSound.resend (hq : QueueSound h queue) : QueueSound h.forget.flip queue := by
  refine ⟨hq.linked, hq.order, hq.appended, hq.account, Nat.zero_le _, fun n hn => ?_, hq.packets_lt⟩
  have hmem : n ∈ h.freed := (List.append_nil h.freed) ▸ hn
  exact (hq.copied n (List.mem_append_left _ hmem)).mono (List.prefix_refl _) fun _ _ _ _ => rfl

/-- A packet of the server is handled. -/
theorem QueueSound.settle (hq : QueueSound h queue) (data : List Byte) :
    ∃ queue', QueueSound (h.settle data) queue' := by
  unfold Reliables.settle
  split
  · split
    · exact ⟨queue, hq.resend⟩
    · exact ⟨_, hq.freeSent.1⟩
  · exact ⟨queue, hq⟩

/-! ## Sending -/

/-- What the loop copies and looks at is a beginning of the queue. -/
theorem Reliables.collect_spec {next : Option Nat} {fuel i : Nat} {r : List Nat × List Nat}
    (hchain : Chain h.links.next next queue) (hr : h.collect fuel next i = some r) :
    r.1 <+: queue ∧ r.2 <+: queue ∧
      r.1.map h.buffers = NetQW.fitting i (queue.map h.buffers) := by
  -- along the queue, which the chain of links follows node by node
  induction queue generalizing next fuel i r with
  | nil =>
    obtain rfl : next = none := hchain
    unfold Reliables.collect at hr
    obtain rfl := Option.some.inj hr
    exact ⟨List.nil_prefix, List.nil_prefix, rfl⟩
  | cons n queue ih =>
    obtain ⟨rfl, hrest⟩ := hchain
    cases fuel with
    | zero => exact nomatch hr
    | succ fuel =>
      rw [Reliables.collect] at hr
      rw [List.map_cons, NetQW.fitting]
      by_cases hfits : (i + (h.buffers n).data.length) % 2 ^ 32 < 1450
      · rw [if_pos hfits] at hr ⊢
        obtain ⟨r', hr', rfl⟩ := Option.map_eq_some_iff.mp hr
        obtain ⟨htaken, hseen, hmap⟩ := ih hrest hr'
        refine ⟨List.cons_prefix_cons.mpr ⟨rfl, htaken⟩, List.cons_prefix_cons.mpr ⟨rfl, hseen⟩, ?_⟩
        rw [List.map_cons, hmap]
      -- the buffer that does not fit is read for its length, and the walk ends there
      · rw [if_neg hfits] at hr ⊢
        obtain rfl := Option.some.inj hr
        exact ⟨List.nil_prefix, List.cons_prefix_cons.mpr ⟨rfl, List.nil_prefix⟩, rfl⟩

/-- The loop ends with the queue. -/
theorem Reliables.collect_ends {next : Option Nat} {fuel : Nat} (i : Nat)
    (hchain : Chain h.links.next next queue) (hfuel : queue.length ≤ fuel) :
    ∃ r, h.collect fuel next i = some r := by
  induction queue generalizing next fuel i with
  | nil =>
    obtain rfl : next = none := hchain
    unfold Reliables.collect
    exact ⟨_, rfl⟩
  | cons n queue ih =>
    obtain ⟨rfl, hrest⟩ := hchain
    obtain ⟨fuel, rfl⟩ := Nat.exists_eq_succ_of_ne_zero (Nat.ne_of_gt (Nat.zero_lt_of_lt hfuel))
    obtain ⟨r, hr⟩ := ih ((i + (h.buffers n).data.length) % 2 ^ 32) hrest
      (Nat.le_of_succ_le_succ hfuel)
    rw [Reliables.collect]
    split
    · exact ⟨_, congrArg (Option.map _) hr⟩
    · exact ⟨_, rfl⟩

/-- A packet without the flag is no news. -/
theorem QueueSound.handOver (hq : QueueSound h queue) (buf : List Byte) {ns : List Nat}
    (hns : ∀ n ∈ ns, n < h.mallocs) : QueueSound (h.handOver buf ns) queue := by
  refine ⟨hq.linked, hq.order, hq.appended, hq.account, hq.sent_le, fun n hn => ?_, ?_⟩
  · exact (hq.copied n hn).mono (List.prefix_append _ _) fun _ _ _ _ => rfl
  · exact List.forall_mem_append.mpr ⟨hq.packets_lt, List.forall_mem_singleton.mpr hns⟩

theorem QueueSound.access (hq : QueueSound h queue) {ns : List Nat} (hns : ∀ n ∈ ns, n ∈ queue) :
    QueueSound (h.access ns) queue := by
  have hfreed := Reliables.freed_access h ns
  refine ⟨hq.linked, ?_, hq.appended, hq.account.use_all hns, hq.sent_le, ?_, hq.packets_lt⟩
  · rw [hfreed]
    exact hq.order
  · rw [hfreed]
    exact fun n hn => (hq.copied n hn).mono (List.prefix_refl _) fun _ _ _ _ => rfl

/-- A packet with the first buffers of the queue, and the flag. -/
theorem QueueSound.remember (hq : QueueSound h queue) {rest : List Byte} {ns : List Nat}
    (hns : ns <+: queue) : QueueSound ((h.remember ns).handOver
      (orAt (writeLong h.currentSequence ++ rest ++ h.contents ns) 3 0x80) ns) queue := by
  have hcount : (BitVec.ofNat 32 ns.length).toNat ≤ ns.length := by
    rw [BitVec.toNat_ofNat]
    exact Nat.mod_le ..
  -- the sequence number's top byte lies in the header, before any buffer's contents
  have hbase : 3 < (writeLong h.currentSequence ++ rest).length := by
    rw [List.length_append]
    exact Nat.lt_add_right _ (Nat.lt_succ_self 3)
  have hcopied : ∀ n ∈ ns, ((h.remember ns).handOver
      (orAt (writeLong h.currentSequence ++ rest ++ h.contents ns) 3 0x80) ns).Copied n := by
    intro n hn
    refine ⟨_, List.mem_append_right _ List.mem_cons_self, hn, ?_,
      orAt (writeLong h.currentSequence ++ rest) 3 0x80, ?_, orAt_append hbase _ _⟩
    · rw [List.append_assoc]
      exact topBit_orAt _ _
    · rw [orAt, List.length_set]
      exact hbase
  refine ⟨hq.linked, hq.order, hq.appended, hq.account, hcount.trans hns.length_le, ?_, ?_⟩
  · intro n hn
    rcases List.mem_append.mp hn with hn | hn
    · have hold := hq.copied n (List.mem_append_left _ hn)
      exact hold.mono (List.prefix_append _ _) fun _ _ _ _ => rfl
    · -- those said to be sent are among those copied
      refine hcopied n ?_
      have htake : queue.take (BitVec.ofNat 32 ns.length).toNat <+: ns := by
        have hle := (List.take_prefix_take_left hcount : _ <+: queue.take ns.length)
        rwa [← List.prefix_iff_eq_take.mp hns] at hle
      exact htake.subset hn
  · refine List.forall_mem_append.mpr ⟨hq.packets_lt, List.forall_mem_singleton.mpr fun n hn => ?_⟩
    exact hq.lt_mallocs (hns.subset hn)

theorem QueueSound.send (hq : QueueSound h queue) {fuel : Nat} {rest : List Byte}
    (hsend : h.send fuel rest = some h') : QueueSound h' queue := by
  unfold Reliables.send at hsend
  dsimp only at hsend
  split at hsend
  · obtain ⟨r, hr, rfl⟩ := Option.map_eq_some_iff.mp hsend
    obtain ⟨htaken, hseen, -⟩ := Reliables.collect_spec hq.linked.chain hr
    have haccess := hq.access fun n hn => hseen.subset hn
    split
    · exact haccess.remember htaken
    · exact haccess.handOver _ fun n hn => hq.lt_mallocs (htaken.subset hn)
  · obtain rfl := Option.some.inj hsend
    exact hq.handOver _ fun n hn => nomatch hn

/-! ## Every run -/

theorem queueSound_init (hinit : h.Init) : QueueSound h [] := by
  obtain ⟨next, buffers, sequenceNumber, rfl⟩ := hinit
  refine ⟨linked_empty next, rfl, rfl, ?_, Nat.zero_le _, fun n hn => (nomatch hn), fun p hp => (nomatch hp)⟩
  exact account_nil.congr fun n => iff_of_false id List.not_mem_nil

theorem queueSound_step {a : ReliableAction} (hq : QueueSound h queue) (hstep : h.step a = some h') :
    ∃ queue', QueueSound h' queue' := by
  cases a with
  | append b =>
    obtain rfl := Option.some.inj hstep
    exact ⟨_, hq.append b⟩
  | send fuel rest => exact ⟨queue, hq.send hstep⟩
  | settle data =>
    obtain rfl := Option.some.inj hstep
    exact hq.settle data

/-- What is well formed about the reliable commands: the queue is the linked list from head to
    tail, and the tail is null exactly if it is empty; what was appended is what was freed and
    then what is in the queue; not more are said to be sent than there are; no freed buffer and
    no null pointer is accessed; and every buffer freed had been copied into a reliable
    packet. -/
structure QueueWellFormed (h : Reliables) (queue : List Nat) : Prop where
  linked : Linked h.links queue
  tail_eq_none : h.links.tail = none ↔ queue = []
  tail : h.links.tail = queue.getLast?
  order : List.range h.mallocs = h.freed ++ queue
  appended : h.appended = (h.freed ++ queue).map h.buffers
  sent_le : h.buffersSent.toNat ≤ queue.length
  safe : Safe h.ops
  copied : ∀ n ∈ h.freed, h.Copied n

/-- In every run the reliable queue stays well formed, whatever packets are received. -/
theorem reliableQueue_wellFormed (hreach : reliableSystem.Reachable h) :
    ∃ queue, QueueWellFormed h queue := by
  have hinit : ∀ h, reliableSystem.Init h → ∃ queue, QueueSound h queue :=
    fun _ hinit => ⟨[], queueSound_init hinit⟩
  obtain ⟨queue, hq⟩ := hreach.invariant hinit fun _ _ _ ⟨_, hq⟩ _ hstep => queueSound_step hq hstep
  refine ⟨queue, hq.linked, ?_, hq.linked.tail, hq.order, hq.order ▸ hq.appended, hq.sent_le,
    hq.account.safe, fun n hn => ?_⟩
  · rw [hq.linked.tail]
    exact List.getLast?_eq_none_iff
  · exact hq.copied n (List.mem_append_left _ hn)

end

/-- There are no reliable commands. -/
def Reliables.none : Reliables :=
  ⟨.empty fun _ => Option.none, fun _ => NetQW.newCommand, 0, 0, 0, 0, 1, [], [], []⟩

/-- One command is sent, another one appended, and the first one freed. -/
theorem reliableQueue_wellFormed_freed : ∃ h, reliableSystem.run [.append NetQW.newCommand,
    .send 1 [0, 0, 0, 0, 0, 0], .append NetQW.newCommand, .settle [1, 0, 0, 0, 1, 0, 0, 0x80]]
      .none = some h ∧ h.freed = [0] ∧ ∃ queue, QueueWellFormed h queue := by
  obtain ⟨h, hrun, hfreed⟩ : ∃ h, reliableSystem.run [.append NetQW.newCommand,
      .send 1 [0, 0, 0, 0, 0, 0], .append NetQW.newCommand, .settle [1, 0, 0, 0, 1, 0, 0, 0x80]]
        .none = some h ∧ h.freed = [0] := ⟨_, rfl, rfl⟩
  have hinit : reliableSystem.Reachable .none := .init ⟨_, _, _, rfl⟩
  exact ⟨h, hrun, hfreed, reliableQueue_wellFormed (hinit.run hrun)⟩

/-! ## The reliable commands of a client -/

/-- The command that an event frees. -/
def NetEvent.freeBuffer? : NetEvent → Option ReliableBuffer
  | .free b => some b
  | _ => none

/-- The command that is appended. -/
def NetEvent.appendBuffer? : NetEvent → Option ReliableBuffer
  | .append b => some b
  | _ => none

/-- The packet that is sent. -/
def NetEvent.packet? : NetEvent → Option (List Byte)
  | .sendPacket buf _ => some buf
  | _ => none

/-! What has nothing to do with the reliable commands is skipped by all of them. -/

theorem NetEvent.freeBuffer?_silent {e : NetEvent} (he : e.ofReliables = false) :
    e.freeBuffer? = none := by
  cases e <;> first | rfl | exact absurd he (by simp [NetEvent.ofReliables])

theorem NetEvent.appendBuffer?_silent {e : NetEvent} (he : e.ofReliables = false) :
    e.appendBuffer? = none := by
  cases e <;> first | rfl | exact absurd he (by simp [NetEvent.ofReliables])

theorem NetEvent.packet?_silent {e : NetEvent} (he : e.ofReliables = false) : e.packet? = none := by
  cases e <;> first | rfl | exact absurd he (by simp [NetEvent.ofReliables])

/-- The packet about to be sent. -/
def SendPc.pending : SendPc → List (List Byte)
  | .submit buf _ => [buf]
  | _ => []

/-- The reliable commands of the client are those of `h`.  `NetQW_Thread_DoSend` hands a packet
    over, and moves the numbers on, some time after it copied the commands. -/
structure ReliablesOf (c : Client) (h : Reliables) (queue : List Nat) : Prop where
  sound : QueueSound h queue
  queue : c.netqw.reliableQueue = queue.map h.buffers
  sent : c.netqw.reliableBuffersSent = h.buffersSent
  number : c.netqw.reliableSequenceNumber = h.sequenceNumber
  xor : c.netqw.incomingReliableXor = h.incomingXor
  current : h.currentSequence = if c.pc.sending then c.netqw.currentOutgoingSequenceNumber + 1#32
    else c.netqw.currentOutgoingSequenceNumber
  freed : c.netqw.trace.filterMap NetEvent.freeBuffer? = h.freed.map h.buffers
  appended : c.netqw.trace.filterMap NetEvent.appendBuffer? = h.appended
  packets : c.netqw.trace.filterMap NetEvent.packet? ++ c.pc.pending = h.packets.map Prod.fst
  fault : .fault ∉ c.netqw.trace
  numbered : c.Numbered

namespace ReliablesOf

variable {c c' : Client} {h : Reliables} {queue : List Nat}

/-- Nothing happens to the reliable commands. -/
theorem silent (hr : ReliablesOf c h queue) (hkeeps : ReliableSilent c.netqw c'.netqw)
    (hpc : c.Elsewhere c') (hnumbered : c'.Numbered) : ReliablesOf c' h queue := by
  have hfield : ∀ {α : Type} (f : Reliability → α), f c'.netqw.reliability = f c.netqw.reliability :=
    fun f => congrArg f hkeeps.view
  -- off the sending path neither side has a packet in the making
  have hsame : c'.pc.sending = c.pc.sending ∧ c'.pc.pending = c.pc.pending := by
    rcases hpc with hpc | ⟨hsending, hsending'⟩
    · rw [hpc]
      exact ⟨rfl, rfl⟩
    · have hpending : ∀ p : SendPc, p.sending = false → p.pending = [] := by
        intro p hp
        cases p <;> first | rfl | exact nomatch hp
      rw [hsending, hsending', hpending _ hsending, hpending _ hsending']
      exact ⟨rfl, rfl⟩
  have hcurrent : c'.netqw.currentOutgoingSequenceNumber = c.netqw.currentOutgoingSequenceNumber :=
    hfield Reliability.current
  have hhistory : ∀ {α : Type} (f : NetEvent → Option α), (∀ e, e.ofReliables = false → f e = none) →
      c'.netqw.trace.filterMap f = c.netqw.trace.filterMap f := fun f hf => hkeeps.filterMap hf
  obtain ⟨es, htrace, hoff⟩ := hkeeps.trace
  constructor
  · exact hr.sound
  · exact (hfield Reliability.queue).trans hr.queue
  · exact (hfield Reliability.sent).trans hr.sent
  · exact (hfield Reliability.number).trans hr.number
  · exact (hfield Reliability.xor).trans hr.xor
  · rw [hsame.1, hcurrent]
    exact hr.current
  · rw [hhistory NetEvent.freeBuffer? fun _ => NetEvent.freeBuffer?_silent]
    exact hr.freed
  · rw [hhistory NetEvent.appendBuffer? fun _ => NetEvent.appendBuffer?_silent]
    exact hr.appended
  · rw [hsame.2, hhistory NetEvent.packet? fun _ => NetEvent.packet?_silent]
    exact hr.packets
  · rw [htrace]
    exact fun hmem => (List.mem_append.mp hmem).elim hr.fault fun he => nomatch hoff _ he
  · exact hnumbered

/-- Buffers that are there keep what they hold. -/
theorem map_update (h : Reliables) (b : ReliableBuffer) {ns : List Nat} (hns : ∀ n ∈ ns, n < h.mallocs) :
    ns.map (Function.update h.buffers h.mallocs b) = ns.map h.buffers :=
  List.map_congr_left fun n hn => Function.update_of_ne (Nat.ne_of_lt (hns n hn)) ..

theorem freed_lt (hq : QueueSound h queue) : ∀ n ∈ h.freed, n < h.mallocs := by
  intro n hn
  have hmem : n ∈ h.freed ++ queue := List.mem_append_left _ hn
  rw [← hq.order] at hmem
  exact List.mem_range.mp hmem

/-- A command is appended. -/
theorem append (hr : ReliablesOf c h queue) {b : ReliableBuffer}
    (hview : c'.netqw.reliability = c.netqw.reliability.append b)
    (htrace : c'.netqw.trace = c.netqw.trace ++ [.append b]) (hpc : c'.pc = c.pc)
    (hnumbered : c'.Numbered) : ReliablesOf c' (h.append b) (queue ++ [h.mallocs]) := by
  have hq := hr.sound
  have hfreed := Reliables.freed_append b h
  have hcurrent : c'.netqw.currentOutgoingSequenceNumber = c.netqw.currentOutgoingSequenceNumber :=
    congrArg Reliability.current hview
  constructor
  · exact hq.append b
  · -- the list the client keeps is the queue's contents, read through the new node too
    show _ = (queue ++ [h.mallocs]).map (Function.update h.buffers h.mallocs b)
    rw [List.map_append, map_update h b fun n => hq.lt_mallocs, List.map_singleton,
      Function.update_self, ← hr.queue]
    exact congrArg Reliability.queue hview
  · exact (congrArg Reliability.sent hview).trans hr.sent
  · exact (congrArg Reliability.number hview).trans hr.number
  · exact (congrArg Reliability.xor hview).trans hr.xor
  · rw [hpc, hcurrent]
    exact hr.current
  · show _ = (h.append b).freed.map (Function.update h.buffers h.mallocs b)
    rw [hfreed, map_update h b (freed_lt hq), ← hr.freed, htrace, List.filterMap_append]
    exact List.append_nil _
  · show _ = h.appended ++ [b]
    rw [htrace, List.filterMap_append, hr.appended]
    rfl
  · -- an appended buffer is no packet
    have hnone : [NetEvent.append b].filterMap NetEvent.packet? = [] := rfl
    rw [htrace, hpc, List.filterMap_append, hnone, List.append_nil]
    exact hr.packets
  · rw [htrace]
    intro hmem
    exact (List.mem_append.mp hmem).elim hr.fault fun he => nomatch List.mem_singleton.mp he
  · exact hnumbered

/-- What was copied out of the queue, and the packet with it. -/
theorem appendReliables_eq_contents {ns : List Nat} {q : NetQW} {buf : List Byte}
    (hns : ns.map h.buffers = q.reliables buf.length) : q.appendReliables buf
      = if BitVec.ofNat 32 ns.length ≠ 0#32 then orAt (buf ++ h.contents ns) 3 0x80
        else buf ++ h.contents ns := by
  have hcontents : (q.reliables buf.length).flatMap ReliableBuffer.data = h.contents ns := by
    rw [← hns, List.flatMap_map]
    rfl
  have hlength : (q.reliables buf.length).length = ns.length := by
    rw [← hns, List.length_map]
  unfold NetQW.appendReliables NetQW.reliableCount
  dsimp only
  rw [hcontents, hlength]

/-- The packet is complete, and is handed over at once. -/
theorem handOver (hr : ReliablesOf c h queue) {buf base : List Byte} {reliable : List ReliableBuffer}
    {q : NetQW} {h₁ : Reliables} {ns : List Nat} (hpc : c.pc = .reliable base)
    (hsound : QueueSound (h₁.handOver buf ns) queue)
    (hsame : h₁ = { h with
      buffersSent := h₁.buffersSent, sequenceNumber := h₁.sequenceNumber,
      incomingXor := h₁.incomingXor, ops := h₁.ops }) (hfreed : h₁.freed = h.freed)
    (hq : q = { c.netqw with
      reliableBuffersSent := h₁.buffersSent, reliableSequenceNumber := h₁.sequenceNumber,
      incomingReliableXor := h₁.incomingXor }) :
    ReliablesOf ⟨q, .submit buf reliable⟩ (h₁.handOver buf ns) queue := by
  have hcurrent := hr.current
  have hpackets := hr.packets
  rw [hpc] at hcurrent hpackets
  have hbuffers : h₁.buffers = h.buffers := by
    have heq := congrArg Reliables.buffers hsame
    exact heq
  have hnumbers : h₁.currentSequence = h.currentSequence := by
    have heq := congrArg Reliables.currentSequence hsame
    exact heq
  have happended : h₁.appended = h.appended := by
    have heq := congrArg Reliables.appended hsame
    exact heq
  have hhanded : h₁.packets = h.packets := by
    have heq := congrArg Reliables.packets hsame
    exact heq
  rw [hq]
  constructor
  · exact hsound
  · show c.netqw.reliableQueue = queue.map h₁.buffers
    rw [hbuffers]
    exact hr.queue
  · rfl
  · rfl
  · rfl
  · -- the number goes up only at `finishPacket`: until then the client's lags by one
    show h₁.currentSequence + 1#32 = c.netqw.currentOutgoingSequenceNumber + 1#32
    rw [hnumbers, hcurrent]
    rfl
  · show _ = h₁.freed.map h₁.buffers
    rw [hfreed, hbuffers]
    exact hr.freed
  · exact hr.appended.trans happended.symm
  · -- the packet handed over is not in the history yet: it is the one pending
    show _ ++ [buf] = (h₁.packets ++ [(buf, ns)]).map Prod.fst
    have hbefore : c.netqw.trace.filterMap NetEvent.packet? = h.packets.map Prod.fst :=
      (List.append_nil _).symm.trans hpackets
    rw [hhanded, List.map_append, ← hbefore]
    rfl
  · exact hr.fault
  · exact Client.numbered_of_none rfl

/-- Commands are copied into the packet. -/
theorem remember (hr : ReliablesOf c h queue) {buf : List Byte} (hpc : c.pc = .reliable buf) :
    ∃ fuel rest h', h.send fuel rest = some h' ∧
      ReliablesOf ⟨c.netqw.rememberReliables buf.length,
        .submit (c.netqw.appendReliables buf) (c.netqw.reliables buf.length)⟩ h' queue := by
  have hcurrent : h.currentSequence = c.netqw.currentOutgoingSequenceNumber := by
    rw [hr.current, hpc]
    rfl
  obtain ⟨rest, hbuf⟩ := hr.numbered buf (by rw [hpc]; rfl)
  have hbuf' : writeLong h.currentSequence ++ rest = buf := by
    rw [hcurrent, hbuf]
  have hsame : c.netqw = { c.netqw with
      reliableBuffersSent := h.buffersSent, reliableSequenceNumber := h.sequenceNumber,
      incomingReliableXor := h.incomingXor } := by
    rw [← hr.sent, ← hr.number, ← hr.xor]
  -- buffers are copied only when none is outstanding
  by_cases hsent : h.buffersSent = 0#32
  · have hsent' : c.netqw.reliableBuffersSent = 0#32 := hr.sent.trans hsent
    obtain ⟨r, hcollect⟩ := Reliables.collect_ends (h := h) buf.length hr.sound.linked.chain
      (Nat.le_refl _)
    obtain ⟨-, -, hmap⟩ := Reliables.collect_spec hr.sound.linked.chain hcollect
    have htaken : r.1.map h.buffers = c.netqw.reliables buf.length := by
      rw [hmap, NetQW.reliables, if_pos hsent', hr.queue]
    have hcount : c.netqw.reliableCount buf.length = BitVec.ofNat 32 r.1.length := by
      rw [NetQW.reliableCount, ← htaken, List.length_map]
    have hpacket := appendReliables_eq_contents htaken
    have hfreed := Reliables.freed_access h r.2
    have hsend : h.send queue.length rest = some (if BitVec.ofNat 32 r.1.length ≠ 0#32 then
        ((h.access r.2).remember r.1).handOver (orAt (buf ++ h.contents r.1) 3 0x80) r.1
      else (h.access r.2).handOver (buf ++ h.contents r.1) r.1) := by
      unfold Reliables.send
      dsimp only
      rw [hbuf', if_pos hsent, hcollect]
      rfl
    have hsound := hr.sound.send hsend
    refine ⟨_, _, _, hsend, ?_⟩
    rw [hpacket, NetQW.rememberReliables, hcount]
    -- the count is a machine word: it reads zero when nothing fitted, and when it wrapped
    by_cases hnone : BitVec.ofNat 32 r.1.length = 0#32
    · rw [if_neg (not_not.mpr hnone)] at hsound ⊢
      rw [if_neg (not_not.mpr hnone), if_neg (not_not.mpr hnone)]
      exact hr.handOver hpc hsound rfl hfreed hsame
    · rw [if_pos hnone] at hsound ⊢
      rw [if_pos hnone, if_pos hnone]
      refine hr.handOver hpc hsound rfl hfreed ?_
      show _ = ({ c.netqw with
        reliableBuffersSent := _, reliableSequenceNumber := h.currentSequence,
        incomingReliableXor := h.incomingXor ^^^ 1#32 } : NetQW)
      rw [hcurrent, ← hr.xor]
      rfl
  · -- some are outstanding, and none is copied
    have hsent' : c.netqw.reliableBuffersSent ≠ 0#32 := fun heq => hsent (hr.sent.symm.trans heq)
    have hreliables : c.netqw.reliables buf.length = [] := if_neg hsent'
    have hcount : c.netqw.reliableCount buf.length = 0#32 := by
      rw [NetQW.reliableCount, hreliables]
      rfl
    have hpacket : c.netqw.appendReliables buf = buf := by
      have hnone : ([] : List Nat).map h.buffers = c.netqw.reliables buf.length := hreliables.symm
      rw [appendReliables_eq_contents hnone]
      exact List.append_nil buf
    have hsend : h.send 0 rest = some (h.handOver buf []) := by
      unfold Reliables.send
      dsimp only
      rw [hbuf', if_neg hsent]
    refine ⟨_, _, _, hsend, ?_⟩
    rw [hpacket, NetQW.rememberReliables, hcount, if_neg (not_not.mpr rfl)]
    exact hr.handOver hpc (hr.sound.send hsend) rfl rfl hsame

/-- The packet is handed over. -/
theorem submit (hr : ReliablesOf c h queue) {buf : List Byte} {reliable : List ReliableBuffer}
    (hpc : c.pc = .submit buf reliable) (hpc' : c'.pc = .finish)
    (hkeeps : ReliableSilent (c.netqw.log [.sendPacket buf reliable]) c'.netqw) :
    ReliablesOf c' h queue := by
  -- the packet passes from pending into the history, and the rest of the send is silent
  have hsent : ReliablesOf ⟨c.netqw.log [.sendPacket buf reliable], .finish⟩ h queue := by
    constructor
    · exact hr.sound
    · exact hr.queue
    · exact hr.sent
    · exact hr.number
    · exact hr.xor
    · rw [hr.current, hpc]
      rfl
    · rw [NetQW.log_trace, List.filterMap_append]
      exact (List.append_nil _).trans hr.freed
    · rw [NetQW.log_trace, List.filterMap_append]
      exact (List.append_nil _).trans hr.appended
    · rw [← hr.packets, hpc, NetQW.log_trace, List.filterMap_append]
      exact List.append_nil _
    · rw [NetQW.log_trace]
      intro hmem
      exact (List.mem_append.mp hmem).elim hr.fault fun he => nomatch List.mem_singleton.mp he
    · exact Client.numbered_of_none rfl
  exact hsent.silent hkeeps (.inl hpc') (Client.numbered_of_none (by rw [hpc']; rfl))

/-- The numbers move on. -/
theorem finish (hr : ReliablesOf c h queue) (hpc : c.pc = .finish) :
    ReliablesOf ⟨c.netqw.finishPacket, .loop⟩ h queue := by
  have hpackets := hr.packets
  have hcurrent := hr.current
  rw [hpc] at hpackets hcurrent
  have htrace : c.netqw.finishPacket.trace
      = c.netqw.trace ++ [.sent c.netqw.currentOutgoingSequenceNumber] := rfl
  -- the packet is in the history already: only the sequence number changes hands
  constructor
  · exact hr.sound
  · exact hr.queue
  · exact hr.sent
  · exact hr.number
  · exact hr.xor
  · exact hcurrent
  · rw [htrace, List.filterMap_append]
    exact (List.append_nil _).trans hr.freed
  · rw [htrace, List.filterMap_append]
    exact (List.append_nil _).trans hr.appended
  · rw [htrace, List.filterMap_append]
    exact (congrArg (· ++ []) (List.append_nil _)).trans hpackets
  · rw [htrace]
    intro hmem
    exact (List.mem_append.mp hmem).elim hr.fault fun he => nomatch List.mem_singleton.mp he
  · exact Client.numbered_of_none rfl

/-- What follows from the fields, when a packet of the server is handled. -/
theorem settle (hr : ReliablesOf c h queue) {data : List Byte} {h' : Reliables} {queue' : List Nat}
    (bs : List ReliableBuffer) (hhandles : Handles data c.netqw c'.netqw) (hpc : c.pc = .idle) (hpc' : c'.pc = .idle)
    (hnumbered : c'.Numbered) (hsound : QueueSound h' queue')
    (hsame : h' = { h with
      links := h'.links, buffersSent := h'.buffersSent, incomingXor := h'.incomingXor, ops := h'.ops })
    (hqueue : (c.netqw.reliability.settle data).queue = queue'.map h.buffers)
    (hsent : (c.netqw.reliability.settle data).sent = h'.buffersSent)
    (hnumber : (c.netqw.reliability.settle data).number = h.sequenceNumber)
    (hxor : (c.netqw.reliability.settle data).xor = h'.incomingXor)
    (hevents : c.netqw.reliability.settleEvents data = bs.map NetEvent.free)
    (hfreed : h'.freed.map h.buffers = h.freed.map h.buffers ++ bs) : ReliablesOf c' h' queue' := by
  have hcurrent := hr.current
  have hpackets := hr.packets
  rw [hpc] at hcurrent hpackets
  have hview := hhandles.view
  -- handling a packet adds the frees to the history and else nothing of the reliables
  have hhistory : ∀ {α : Type} (f : NetEvent → Option α),
      (∀ e, e.ofReliables = false → f e = none) → f (.handle data) = none →
        c'.netqw.trace.filterMap f = c.netqw.trace.filterMap f ++ (bs.map NetEvent.free).filterMap f :=
    fun f hf hdata => hevents ▸ hhandles.filterMap hf hdata
  have hnone : ∀ {α : Type} (f : NetEvent → Option α), (∀ b, f (.free b) = none) →
      (bs.map NetEvent.free).filterMap f = [] := by
    intro α f hf
    rw [List.filterMap_map]
    exact List.filterMap_eq_nil_iff.mpr fun b _ => hf b
  obtain ⟨es, es', htrace, hoff⟩ := hhandles.trace
  rw [hsame]
  constructor
  · exact hsame ▸ hsound
  · exact (congrArg Reliability.queue hview).trans hqueue
  · exact (congrArg Reliability.sent hview).trans hsent
  · exact (congrArg Reliability.number hview).trans hnumber
  · exact (congrArg Reliability.xor hview).trans hxor
  · have hsame' : c'.netqw.currentOutgoingSequenceNumber = c.netqw.currentOutgoingSequenceNumber :=
      (congrArg Reliability.current hview).trans (Reliability.current_settle data _)
    rw [hpc', hsame']
    exact hcurrent
  · rw [hhistory NetEvent.freeBuffer? (fun _ => NetEvent.freeBuffer?_silent) rfl,
      hr.freed, List.filterMap_map]
    refine Eq.trans ?_ hfreed.symm
    exact congrArg (h.freed.map h.buffers ++ ·) List.filterMap_some
  · rw [hhistory NetEvent.appendBuffer? (fun _ => NetEvent.appendBuffer?_silent) rfl,
      hnone _ fun _ => rfl, List.append_nil]
    exact hr.appended
  · rw [hpc', hhistory NetEvent.packet? (fun _ => NetEvent.packet?_silent) rfl,
      hnone _ fun _ => rfl, List.append_nil]
    exact hpackets
  · rw [htrace, hevents]
    intro hmem
    rcases List.mem_append.mp hmem with hmem | hmem
    · rcases List.mem_append.mp hmem with hmem | hmem
      · exact hr.fault hmem
      · rcases List.mem_cons.mp hmem with heq | hmem
        · exact nomatch heq
        · rcases List.mem_append.mp hmem with hmem | hmem
          · exact nomatch hoff _ (List.mem_append_left _ hmem)
          · obtain ⟨b, -, hb⟩ := List.mem_map.mp hmem
            exact nomatch hb
    · exact nomatch hoff _ (List.mem_append_right _ hmem)
  · exact hnumbered

/-- A packet of the server is handled. -/
theorem handle (hr : ReliablesOf c h queue) {data : List Byte}
    (hhandles : Handles data c.netqw c'.netqw) (hpc : c.pc = .idle) (hpc' : c'.pc = .idle)
    (hnumbered : c'.Numbered) : ∃ queue', ReliablesOf c' (h.settle data) queue' := by
  have hq := hr.sound
  have hanswered : c.netqw.reliability.Answered data ↔
      h.buffersSent ≠ 0#32 ∧ h.sequenceNumber ≤ sequenceOf data := by
    rw [← hr.sent, ← hr.number]
    rfl
  have hlost : c.netqw.reliability.Lost data ↔
      (h.incomingXor ≠ 0#32) ≠ (acknowledgeBit data = true) := by
    rw [← hr.xor]
    rfl
  have hsettle : c.netqw.reliability.settle data = if c.netqw.reliability.Answered data then
      if c.netqw.reliability.Lost data then _ else _ else c.netqw.reliability := rfl
  have hevents : c.netqw.reliability.settleEvents data = if c.netqw.reliability.Answered data then
      if c.netqw.reliability.Lost data then [] else _ else [] := rfl
  -- the same two tests are made of the list and of the linked queue
  unfold Reliables.settle
  by_cases ha : c.netqw.reliability.Answered data
  · rw [if_pos (hanswered.mp ha)]
    by_cases hl : c.netqw.reliability.Lost data
    -- lost: the buffers stay queued for another send
    · rw [if_pos (hlost.mp hl)]
      rw [if_pos ha, if_pos hl] at hsettle hevents
      refine ⟨queue, hr.settle [] hhandles hpc hpc' hnumbered hq.resend rfl ?_ ?_ ?_ ?_ hevents
        (List.append_nil _).symm⟩
      all_goals rw [hsettle]
      · exact hr.queue
      · rfl
      · exact hr.number
      · exact congrArg (· ^^^ 1#32) hr.xor
    -- acknowledged: as many nodes are freed as were counted, and so many are there
    · rw [if_neg (mt hlost.mpr hl)]
      rw [if_pos ha, if_neg hl] at hsettle hevents
      obtain ⟨hsound, hfreed, hsame⟩ := hq.freeSent
      have hlong : ¬c.netqw.reliability.queue.length < c.netqw.reliability.sent.toNat := by
        show ¬c.netqw.reliableQueue.length < c.netqw.reliableBuffersSent.toNat
        rw [hr.queue, hr.sent, List.length_map]
        exact Nat.not_lt.mpr hq.sent_le
      rw [if_neg hlong, List.append_nil] at hevents
      have hxor := congrArg Reliables.incomingXor hsame
      refine ⟨_, hr.settle _ hhandles hpc hpc' hnumbered hsound ?_ ?_ ?_ ?_ ?_ hevents ?_⟩
      · generalize h.freeSent = g at hsame ⊢
        rw [hsame]
        rfl
      · rw [hsettle]
        show c.netqw.reliableQueue.drop c.netqw.reliableBuffersSent.toNat = _
        rw [hr.queue, hr.sent, List.map_drop]
      · rw [hsettle]
        rfl
      · rw [hsettle]
        exact hr.number
      · rw [hsettle]
        exact hr.xor.trans hxor.symm
      · show h.freeSent.freed.map h.buffers = h.freed.map h.buffers
          ++ c.netqw.reliableQueue.take c.netqw.reliableBuffersSent.toNat
        rw [hfreed, List.map_append, hr.queue, hr.sent, List.map_take]
  -- no answer to what is outstanding: the queue is left as it stands
  · rw [if_neg (mt hanswered.mpr ha)]
    rw [if_neg ha] at hsettle hevents
    refine ⟨queue, hr.settle [] hhandles hpc hpc' hnumbered hq rfl ?_ ?_ ?_ ?_ hevents
      (List.append_nil _).symm⟩
    all_goals rw [hsettle]
    · exact hr.queue
    · exact hr.sent
    · exact hr.number
    · exact hr.xor

end ReliablesOf

/-- The reliable commands of a client do what they do on their own. -/
theorem client_refines_reliables (angle16 : BitVec 32 → BitVec 16) :
    (Client.system angle16).Refines reliableSystem fun c h => ∃ queue, ReliablesOf c h queue where
  init := by
    rintro c ⟨garbage, qport, userinfo, addr, rfl⟩
    refine ⟨⟨.empty fun _ => none, fun _ => NetQW.newCommand, 0, 0, garbage.reliableSequenceNumber, 0, 1,
      [], [], []⟩, ⟨_, _, _, rfl⟩, [], queueSound_init ⟨_, _, _, rfl⟩, rfl, rfl, rfl, rfl, rfl, rfl, rfl,
      rfl, fun hmem => (nomatch hmem), Client.numbered_of_none rfl⟩
  step := by
    rintro a c c' h ⟨queue, hr⟩ hstep
    -- each of the client's steps is one of the queue's, or none
    have hnumbered : c'.Numbered := hr.numbered.step hstep
    cases Client.step_reliable hstep with
    | silent hkeeps hpc => exact .inl ⟨queue, hr.silent hkeeps hpc hnumbered⟩
    | append b hview htrace hpc _ =>
      exact .inr ⟨.append b, _, rfl, _, hr.append hview htrace hpc hnumbered⟩
    | handle data _ hpc hpc' hhandles =>
      exact .inr ⟨.settle data, _, rfl, hr.handle hhandles hpc hpc' hnumbered⟩
    | remember buf hpc heq =>
      obtain ⟨fuel, rest, h', hsend, hr'⟩ := hr.remember hpc
      rw [heq]
      exact .inr ⟨.send fuel rest, h', hsend, queue, hr'⟩
    | submit buf reliable hpc hpc' hkeeps => exact .inl ⟨queue, hr.submit hpc hpc' hkeeps⟩
    | finish hpc heq =>
      rw [heq]
      exact .inl ⟨queue, hr.finish hpc⟩

/-- So in every run of a client what was appended was freed or is in the queue, no more is said to
    be sent than there is, and no null pointer was followed. -/
theorem client_reliables {angle16 : BitVec 32 → BitVec 16} {c : Client}
    (hreach : (Client.system angle16).Reachable c) :
    c.netqw.trace.filterMap NetEvent.appendBuffer?
        = c.netqw.trace.filterMap NetEvent.freeBuffer? ++ c.netqw.reliableQueue ∧
      c.netqw.reliableBuffersSent.toNat ≤ c.netqw.reliableQueue.length ∧ .fault ∉ c.netqw.trace := by
  obtain ⟨h, -, queue, hr⟩ := (client_refines_reliables angle16).reachable hreach
  refine ⟨?_, ?_, hr.fault⟩
  · rw [hr.appended, hr.freed, hr.queue, ← List.map_append, ← hr.sound.order]
    exact hr.sound.appended
  · rw [hr.sent, hr.queue, List.length_map]
    exact hr.sound.sent_le

end QwNet
