/-
  QwNet.Channel.Packets

  The packets received, as they are linked.

  A packet is in the client packet queue, in the internal queue, or in both, through
  two different pointers, and its `usecount` says in how many.  Here the queues are the
  linked lists of the source, every access to a packet is recorded, and a step is a
  section that holds the mutex with what the thread does on its own in front of it.
-/
import Mathlib.Data.List.Nodup
import Mathlib.Data.List.Perm.Subperm
import QwNet.Channel.Effects
import QwNet.Lib.LinkedQueue
import QwNet.Lib.Resource

namespace QwNet

open LinkedQueue Resource

/-- The fields of `struct NetPacket` that link and count the packets, and the pointers to
    the queues.  Packets are numbered as they are allocated. -/
structure Packets where
  internal : Links Nat
  client : Links Nat
  usecount : Nat → BitVec 32
  delayuntil : Nat → BitVec 64
  mallocs : Nat
  /-- `malloc`, `free` and every access through a pointer to a packet. -/
  ops : List (Op Nat)

namespace Packets

/-- The packets `ns` are accessed. -/
def access (ns : List Nat) (h : Packets) : Packets :=
  { h with ops := h.ops ++ ns.map fun n => .use (some n) }

/-- `malloc`, and what `NetQW_Thread_DoReceive` writes to the new packet. -/
def allocate (delayuntil : BitVec 64) (h : Packets) : Packets :=
  { h with
    internal := h.internal.clear h.mallocs
    client := h.client.clear h.mallocs
    usecount := Function.update h.usecount h.mallocs 1#32
    delayuntil := Function.update h.delayuntil h.mallocs delayuntil
    mallocs := h.mallocs + 1
    ops := h.ops ++ [Op.acquire h.mallocs] }.access [h.mallocs]

/-- The packet is linked into the internal queue, and `usecount++`. -/
def linkInternal (n : Nat) (h : Packets) : Packets :=
  { h with
    internal := h.internal.push n
    usecount := Function.update h.usecount n (h.usecount n + 1#32) }.access (h.internal.tail.toList ++ [n])

/-- The packet is linked into the client packet queue. -/
def linkClient (n : Nat) (h : Packets) : Packets :=
  { h with client := h.client.push n }.access (h.client.tail.toList ++ [n])

/-- `NetQW_Thread_DoReceive` from the `malloc` of the packet on. -/
def receive (delayuntil : BitVec 64) (h : Packets) : Packets :=
  let n := h.mallocs
  let h := h.allocate delayuntil
  -- `NetQW_Thread_HandleReceivedPacket` reads the packet
  (if h.delayuntil n = 0#64 then h.access [n] else h.linkInternal n).linkClient n

/-- `usecount--`, and `free` of a packet that is not used any more. -/
def release (n : Nat) (h : Packets) : Packets :=
  let h := { h with usecount := Function.update h.usecount n (h.usecount n - 1#32) }.access [n]
  if h.usecount n = 0#32 then { h with ops := h.ops ++ [.release (some n)] } else h

/-- `internalnetpackethead = netpacket->internalnext`. -/
def advanceInternal (n : Nat) (h : Packets) : Packets :=
  { h with internal := h.internal.advance n }.access [n]

/-- `clientnetpackethead = netpacket->clientnext`. -/
def advanceClient (n : Nat) (h : Packets) : Packets :=
  { h with client := h.client.advance n }.access [n]

/-- `if (internalnetpackethead == 0) internalnetpackettail = 0`. -/
def repairInternal (h : Packets) : Packets := { h with internal := h.internal.repair }

/-- `if (clientnetpackethead == 0) clientnetpackettail = 0`. -/
def repairClient (h : Packets) : Packets := { h with client := h.client.repair }

/-- The loop of the sanity check: from `p` on all packets are due. -/
def clampLoop (curtime : BitVec 64) : Nat → Option Nat → Packets → Option Packets
  | _, none, h => some h
  | 0, some _, _ => none
  | fuel + 1, some n, h =>
    clampLoop curtime fuel (h.internal.next n)
      ({ h with delayuntil := Function.update h.delayuntil n curtime }.access [n])

/-- The sanity check of `NetQW_Thread`. -/
def clampDelays (curtime : BitVec 64) (fuel : Nat) (h : Packets) : Option Packets :=
  match h.internal.head with
  | none => some h
  | some n =>
    let h := h.access [n]
    if curtime + 1000000#64 < h.delayuntil n then clampLoop curtime fuel (some n) h else some h

/-- One pass of the loop over the delayed packets; `none` leaves it. -/
def handleDelayed (curtime : BitVec 64) (h : Packets) : Option Packets :=
  match h.internal.head with
  | none => none
  | some n =>
    let h := h.access [n]
    if h.delayuntil n ≤ curtime then
      -- `NetQW_Thread_HandleReceivedPacket` reads the packet
      some (((h.access [n]).advanceInternal n).repairInternal.release n)
    else none

/-- `NetQW_FreePacket`, on a queue that is not empty. -/
def freePacket (h : Packets) : Option Packets :=
  match h.client.head with
  | none => none
  | some n => some ((h.advanceClient n).release n).repairClient

/-- The loop of `NetQW_Delete` over the client packet queue. -/
def deleteClient : Nat → Packets → Option Packets
  | fuel, h =>
    match h.client.head, fuel with
    | none, _ => some h
    | some _, 0 => none
    | some n, fuel + 1 => deleteClient fuel ((h.advanceClient n).release n)

/-- The loop of `NetQW_Delete` over the internal queue. -/
def deleteInternal : Nat → Packets → Option Packets
  | fuel, h =>
    match h.internal.head, fuel with
    | none, _ => some h
    | some _, 0 => none
    | some n, fuel + 1 => deleteInternal fuel ((h.advanceInternal n).release n)

/-- What `NetQW_Delete` does to the packets; `none` if one of its loops never ends. -/
def delete (fuel : Nat) (h : Packets) : Option Packets := h.deleteClient fuel >>= deleteInternal fuel

end Packets

/-- A step that concerns the packets. -/
inductive PacketAction where
  | receive (delayuntil : BitVec 64)
  | clampDelays (curtime : BitVec 64) (fuel : Nat)
  | handleDelayed (curtime : BitVec 64)
  | freePacket

/-- What an action does; `none` if it is not enabled or never returns. -/
def Packets.step (a : PacketAction) (h : Packets) : Option Packets :=
  match a with
  | .receive delayuntil => some (h.receive delayuntil)
  | .clampDelays curtime fuel => h.clampDelays curtime fuel
  | .handleDelayed curtime => h.handleDelayed curtime
  | .freePacket => h.freePacket

/-- The queues after `NetQW_Create`. -/
def Packets.Init (h : Packets) : Prop :=
  ∃ internal client usecount delayuntil,
    h = ⟨.empty internal, .empty client, usecount, delayuntil, 0, []⟩

/-- The packets as a system. -/
def packetSystem : Transitions Packets PacketAction where
  Init := Packets.Init
  step := Packets.step

/-! ## What holds of the packets -/

/-- The queues hold `internal` and `client`, up to the repair of their tails, and the code
    in progress holds a reference to the packets of `hand`. -/
structure Queued (h : Packets) (internal client hand : List Nat) : Prop where
  linked_internal : Linked h.internal.repair internal
  linked_client : Linked h.client.repair client
  internal_sorted : internal.Pairwise (· < ·)
  client_sorted : client.Pairwise (· < ·)
  account : Account h.ops (fun n => n ∈ internal ∨ n ∈ client ∨ n ∈ hand) h.mallocs
  usecount : ∀ n, n ∈ internal ∨ n ∈ client ∨ n ∈ hand →
    (h.usecount n).toNat = internal.count n + client.count n + hand.count n

namespace Queued

variable {h : Packets} {internal client hand : List Nat} {n : Nat}

theorem access (hq : Queued h internal client hand) {ns : List Nat}
    (hns : ∀ n ∈ ns, n ∈ internal ∨ n ∈ client ∨ n ∈ hand) :
    Queued (h.access ns) internal client hand :=
  { hq with account := hq.account.use_all hns }

/-- The delays are of no consequence. -/
theorem setDelays (hq : Queued h internal client hand) (delayuntil : Nat → BitVec 64) :
    Queued { h with delayuntil := delayuntil } internal client hand := { hq with }

theorem lt_mallocs (hq : Queued h internal client hand)
    (hn : n ∈ internal ∨ n ∈ client ∨ n ∈ hand) : n < h.mallocs := hq.account.lt hn

theorem count_internal_le (hq : Queued h internal client hand) (n : Nat) : internal.count n ≤ 1 :=
  List.nodup_iff_count_le_one.mp hq.linked_internal.nodup n

theorem count_client_le (hq : Queued h internal client hand) (n : Nat) : client.count n ≤ 1 :=
  List.nodup_iff_count_le_one.mp hq.linked_client.nodup n

theorem allocate (hq : Queued h internal client []) (delayuntil : BitVec 64) :
    Queued (h.allocate delayuntil) internal client [h.mallocs] := by
  -- the node handed out is new, so it is in neither queue
  have hinternal : h.mallocs ∉ internal := fun hmem => Nat.lt_irrefl _ (hq.lt_mallocs (.inl hmem))
  have hclient : h.mallocs ∉ client :=
    fun hmem => Nat.lt_irrefl _ (hq.lt_mallocs (.inr (.inl hmem)))
  have hlive : ∀ n, (n ∈ internal ∨ n ∈ client ∨ n ∈ []) ∨ n = h.mallocs ↔
      n ∈ internal ∨ n ∈ client ∨ n ∈ [h.mallocs] := by
    intro n
    simp only [List.not_mem_nil, List.mem_singleton, or_false, or_assoc]
  -- the last write goes through the new node, which is live by then
  suffices hnew : Queued { h with
      internal := h.internal.clear h.mallocs
      client := h.client.clear h.mallocs
      usecount := Function.update h.usecount h.mallocs 1#32
      delayuntil := Function.update h.delayuntil h.mallocs delayuntil
      mallocs := h.mallocs + 1
      ops := h.ops ++ [Op.acquire h.mallocs] } internal client [h.mallocs] from
    hnew.access fun n hn => .inr (.inr hn)
  refine ⟨hq.linked_internal.clear hinternal, hq.linked_client.clear hclient, hq.internal_sorted,
    hq.client_sorted, (hq.account.acquire).congr hlive, fun n hn => ?_⟩
  show (Function.update h.usecount h.mallocs 1#32 n).toNat = _
  -- the new node counts its one holder; no other count changes
  by_cases heq : n = h.mallocs
  · subst heq
    rw [Function.update_self, List.count_eq_zero.mpr hinternal, List.count_eq_zero.mpr hclient,
      List.count_singleton_self]
    rfl
  · have hn' : n ∈ internal ∨ n ∈ client ∨ n ∈ [] := ((hlive n).mpr hn).resolve_right heq
    rw [Function.update_of_ne heq, hq.usecount n hn', List.count_singleton,
      if_neg (by simpa using Ne.symm heq)]
    rfl

/-- The code that holds the packet links it into the internal queue. -/
theorem linkInternal (hq : Queued h internal client [n]) (hrest : h.internal.repair = h.internal)
    (hnext : h.internal.next n = none) (hlt : ∀ m ∈ internal, m < n) :
    Queued (h.linkInternal n) (internal ++ [n]) client [n] := by
  have hn : n ∉ internal := fun hmem => Nat.lt_irrefl n (hlt n hmem)
  have hlinked : Linked h.internal internal := hrest ▸ hq.linked_internal
  have hpush := hlinked.push hn hnext
  have hlive : ∀ m, m ∈ internal ∨ m ∈ client ∨ m ∈ [n] ↔
      m ∈ internal ++ [n] ∨ m ∈ client ∨ m ∈ [n] := by
    intro m
    simp only [List.mem_append, List.mem_singleton]
    tauto
  -- the old tail and the node itself are written through, and both are live
  suffices hnew : Queued { h with
      internal := h.internal.push n
      usecount := Function.update h.usecount n (h.usecount n + 1#32) } (internal ++ [n]) client [n] by
    refine hnew.access fun m hm => ?_
    rcases List.mem_append.mp hm with hm | hm
    · have htail : h.internal.tail = some m := Option.mem_toList.mp hm
      exact .inl (List.mem_append_left _ (List.mem_of_getLast? (hlinked.tail.symm.trans htail)))
    · exact .inr (.inr hm)
  refine ⟨hpush.repair.symm ▸ hpush, hq.linked_client, ?_, hq.client_sorted,
    hq.account.congr hlive, fun m hm => ?_⟩
  · refine List.pairwise_append.mpr ⟨hq.internal_sorted, List.pairwise_singleton .., ?_⟩
    exact fun m hm k hk => List.mem_singleton.mp hk ▸ hlt m hm
  · show (Function.update h.usecount n (h.usecount n + 1#32) m).toNat = _
    have hcount := hq.usecount m ((hlive m).mpr hm)
    -- one more queue holds the node, and its count is far from wrapping
    by_cases heq : m = n
    · subst heq
      have hzero := List.count_eq_zero.mpr hn
      have hle := hq.count_client_le m
      rw [List.count_singleton_self] at hcount ⊢
      rw [Function.update_self, List.count_append, List.count_singleton_self, BitVec.toNat_add,
        hcount]
      show (_ + 1) % 2 ^ 32 = _
      omega
    · have hzero : [n].count m = 0 := List.count_eq_zero.mpr fun hmem =>
        heq (List.mem_singleton.mp hmem)
      rw [Function.update_of_ne heq, hcount, List.count_append, hzero]
      rfl

/-- The code that holds the packet links it into the client packet queue, and is done. -/
theorem linkClient (hq : Queued h internal client [n]) (hrest : h.client.repair = h.client)
    (hnext : h.client.next n = none) (hlt : ∀ m ∈ client, m < n) :
    Queued (h.linkClient n) internal (client ++ [n]) [] := by
  have hn : n ∉ client := fun hmem => Nat.lt_irrefl n (hlt n hmem)
  have hlinked : Linked h.client client := hrest ▸ hq.linked_client
  have hpush := hlinked.push hn hnext
  have hlive : ∀ m, m ∈ internal ∨ m ∈ client ∨ m ∈ [n] ↔
      m ∈ internal ∨ m ∈ client ++ [n] ∨ m ∈ [] := by
    intro m
    simp only [List.mem_append, List.not_mem_nil, or_false]
  suffices hnew : Queued { h with client := h.client.push n } internal (client ++ [n]) [] by
    refine hnew.access fun m hm => ?_
    rcases List.mem_append.mp hm with hm | hm
    · have htail : h.client.tail = some m := Option.mem_toList.mp hm
      exact .inr (.inl (List.mem_append_left _ (List.mem_of_getLast? (hlinked.tail.symm.trans htail))))
    · exact .inr (.inl (List.mem_append_right _ hm))
  refine ⟨hq.linked_internal, hpush.repair.symm ▸ hpush, hq.internal_sorted, ?_,
    hq.account.congr hlive, fun m hm => ?_⟩
  · refine List.pairwise_append.mpr ⟨hq.client_sorted, List.pairwise_singleton .., ?_⟩
    exact fun m hm k hk => List.mem_singleton.mp hk ▸ hlt m hm
  · -- the reference goes from the code to the queue
    rw [List.count_append, hq.usecount m ((hlive m).mpr hm), List.count_nil]
    omega

/-- The head of the internal queue is unlinked; its reference goes to the code. -/
theorem advanceInternal (hq : Queued h (n :: internal) client []) :
    Queued (h.advanceInternal n) internal client [n] := by
  have hlive : ∀ m, m ∈ n :: internal ∨ m ∈ client ∨ m ∈ [] ↔
      m ∈ internal ∨ m ∈ client ∨ m ∈ [n] := by
    intro m
    simp only [List.mem_cons, List.not_mem_nil, or_false]
    tauto
  suffices hnew : Queued { h with internal := h.internal.advance n } internal client [n] from
    hnew.access fun m hm => .inr (.inr hm)
  refine ⟨hq.linked_internal.advance, hq.linked_client, hq.internal_sorted.of_cons,
    hq.client_sorted, hq.account.congr hlive, fun m hm => ?_⟩
  rw [show h.usecount m = _ from rfl, hq.usecount m ((hlive m).mpr hm), List.count_cons,
    List.count_nil, List.count_singleton]
  omega

/-- The head of the client packet queue is unlinked; its reference goes to the code. -/
theorem advanceClient (hq : Queued h internal (n :: client) []) :
    Queued (h.advanceClient n) internal client [n] := by
  have hlive : ∀ m, m ∈ internal ∨ m ∈ n :: client ∨ m ∈ [] ↔
      m ∈ internal ∨ m ∈ client ∨ m ∈ [n] := by
    intro m
    simp only [List.mem_cons, List.not_mem_nil, or_false]
    tauto
  suffices hnew : Queued { h with client := h.client.advance n } internal client [n] from
    hnew.access fun m hm => .inr (.inr hm)
  refine ⟨hq.linked_internal, hq.linked_client.advance, hq.internal_sorted,
    hq.client_sorted.of_cons, hq.account.congr hlive, fun m hm => ?_⟩
  rw [hq.usecount m ((hlive m).mpr hm), List.count_cons, List.count_nil, List.count_singleton]
  omega

/-- The code gives its reference up, and the packet is freed if that was the last one. -/
theorem release (hq : Queued h internal client [n]) : Queued (h.release n) internal client [] := by
  have hcount := hq.usecount n (.inr (.inr (List.mem_singleton.mpr rfl)))
  rw [List.count_singleton_self] at hcount
  have hinternal := hq.count_internal_le n
  have hclient := hq.count_client_le n
  have hlive : n ∈ internal ∨ n ∈ client ∨ n ∈ [n] := .inr (.inr (List.mem_singleton.mpr rfl))
  have haccount := hq.account.use hlive
  -- the count after the decrement is the number of queues that still hold the node
  have hone : (h.usecount n - 1#32).toNat = internal.count n + client.count n := by
    rw [BitVec.toNat_sub, hcount]
    show (2 ^ 32 - 1 + _) % 2 ^ 32 = _
    omega
  have husecount : ∀ m, m ∈ internal ∨ m ∈ client ∨ m ∈ [] →
      (Function.update h.usecount n (h.usecount n - 1#32) m).toNat
        = internal.count m + client.count m + [].count m := by
    intro m hm
    by_cases heq : m = n
    · subst heq
      rw [Function.update_self]
      exact hone
    · have hzero : [n].count m = 0 := List.count_eq_zero.mpr fun hmem =>
        heq (List.mem_singleton.mp hmem)
      have hm' := hq.usecount m (hm.imp id (Or.imp id nofun))
      rw [hzero] at hm'
      rw [Function.update_of_ne heq]
      exact hm'
  have hmem : n ∈ internal ∨ n ∈ client ↔ internal.count n + client.count n ≠ 0 := by
    rw [← List.count_pos_iff, ← List.count_pos_iff]
    omega
  unfold Packets.release
  dsimp only
  split
  · -- it was in no queue any more
    rename_i hzero
    have hzero' : h.usecount n - 1#32 = 0#32 := (Function.update_self n _ h.usecount).symm.trans hzero
    rw [hzero'] at hone
    have hnot : ¬(n ∈ internal ∨ n ∈ client) := fun h => hmem.mp h hone.symm
    refine ⟨hq.linked_internal, hq.linked_client, hq.internal_sorted, hq.client_sorted,
      (haccount.release hlive).congr fun m => ?_, husecount⟩
    constructor
    · rintro ⟨hm | hm | hm, hne⟩
      · exact .inl hm
      · exact .inr (.inl hm)
      · exact absurd (List.mem_singleton.mp hm) hne
    · rintro (hm | hm | hm)
      · exact ⟨.inl hm, fun heq => hnot (.inl (heq ▸ hm))⟩
      · exact ⟨.inr (.inl hm), fun heq => hnot (.inr (heq ▸ hm))⟩
      · exact nomatch hm
  · rename_i hne
    have hne' : h.usecount n - 1#32 ≠ 0#32 := fun heq => hne ((Function.update_self n _ h.usecount).trans heq)
    have hin : n ∈ internal ∨ n ∈ client := hmem.mpr fun hzero =>
      hne' (BitVec.eq_of_toNat_eq (hone.trans hzero))
    refine ⟨hq.linked_internal, hq.linked_client, hq.internal_sorted, hq.client_sorted,
      haccount.congr fun m => ?_, husecount⟩
    constructor
    · rintro (hm | hm | hm)
      · exact .inl hm
      · exact .inr (.inl hm)
      · rw [List.mem_singleton.mp hm]
        exact hin.imp id .inl
    · exact Or.imp id (Or.imp id nofun)

/-- The repair of a tail is noted already. -/
theorem repairInternal (hq : Queued h internal client hand) :
    Queued h.repairInternal internal client hand :=
  { hq with linked_internal := hq.linked_internal.repair.symm ▸ hq.linked_internal }

theorem repairClient (hq : Queued h internal client hand) :
    Queued h.repairClient internal client hand :=
  { hq with linked_client := hq.linked_client.repair.symm ▸ hq.linked_client }

end Queued

theorem Packets.release_internal (n : Nat) (h : Packets) :
    (h.release n).internal = h.internal := by
  unfold Packets.release
  dsimp only
  split <;> rfl

theorem Packets.release_client (n : Nat) (h : Packets) : (h.release n).client = h.client := by
  unfold Packets.release
  dsimp only
  split <;> rfl

theorem Packets.release_mallocs (n : Nat) (h : Packets) : (h.release n).mallocs = h.mallocs := by
  unfold Packets.release
  dsimp only
  split <;> rfl

/-- Between two steps no reference is held, and the tails are right. -/
structure Resting (h : Packets) (internal client : List Nat) : Prop where
  queued : Queued h internal client []
  linked_internal : Linked h.internal internal
  linked_client : Linked h.client client

namespace Resting

variable {h h' : Packets} {internal client : List Nat} {n : Nat}

theorem access (hr : Resting h internal client) {ns : List Nat}
    (hns : ∀ n ∈ ns, n ∈ internal ∨ n ∈ client) : Resting (h.access ns) internal client :=
  ⟨hr.queued.access fun n hn => (hns n hn).imp id .inl, hr.linked_internal, hr.linked_client⟩

/-- A packet is received, and handled at once or later. -/
theorem receive (hr : Resting h internal client) (delayuntil : BitVec 64) :
    Resting (h.receive delayuntil)
      (if delayuntil = 0#64 then internal else internal ++ [h.mallocs]) (client ++ [h.mallocs]) := by
  have hnew := hr.queued.allocate delayuntil
  have hinternal : ∀ m ∈ internal, m < h.mallocs := fun m hm => hr.queued.lt_mallocs (.inl hm)
  have hclient : ∀ m ∈ client, m < h.mallocs := fun m hm => hr.queued.lt_mallocs (.inr (.inl hm))
  have hnotin : h.mallocs ∉ internal := fun hm => Nat.lt_irrefl _ (hinternal _ hm)
  have hnotin' : h.mallocs ∉ client := fun hm => Nat.lt_irrefl _ (hclient _ hm)
  have hlinked := hr.linked_internal.clear hnotin
  have hlinked' := hr.linked_client.clear hnotin'
  have hpush := hlinked'.push hnotin' (Links.next_clear ..)
  have hdelay : (h.allocate delayuntil).delayuntil h.mallocs = delayuntil := Function.update_self ..
  unfold Packets.receive
  dsimp only
  rw [hdelay]
  -- only a packet that is held back goes to the thread's queue as well
  by_cases hzero : delayuntil = 0#64
  · rw [if_pos hzero, if_pos hzero]
    have haccess := hnew.access fun n (hn : n ∈ [h.mallocs]) => .inr (.inr hn)
    exact ⟨haccess.linkClient hlinked'.repair (Links.next_clear ..) hclient, hlinked, hpush⟩
  · rw [if_neg hzero, if_neg hzero]
    have hlink := hnew.linkInternal hlinked.repair (Links.next_clear ..) hinternal
    exact ⟨hlink.linkClient hlinked'.repair (Links.next_clear ..) hclient,
      hlinked.push hnotin (Links.next_clear ..), hpush⟩

/-- The loop of the sanity check reads packets of the internal queue. -/
theorem clampLoop (hr : Resting h internal client) {curtime : BitVec 64} {fuel : Nat}
    {p : Option Nat} {ns : List Nat} (hchain : Chain h.internal.next p ns)
    (hns : ∀ n ∈ ns, n ∈ internal) (hstep : h.clampLoop curtime fuel p = some h') :
    Resting h' internal client := by
  -- along the chain from `p`, which stays in the queue: delays alone are written
  induction ns generalizing h p fuel with
  | nil =>
    obtain rfl : p = none := hchain
    unfold Packets.clampLoop at hstep
    obtain rfl := Option.some.inj hstep
    exact hr
  | cons n ns ih =>
    obtain ⟨rfl, hrest⟩ := hchain
    obtain ⟨hn, hns⟩ := List.forall_mem_cons.mp hns
    have hset : Resting { h with delayuntil := Function.update h.delayuntil n curtime }
        internal client := ⟨hr.queued.setDelays _, hr.linked_internal, hr.linked_client⟩
    cases fuel with
    | zero => exact nomatch hstep
    | succ fuel =>
      exact ih (hset.access (List.forall_mem_singleton.mpr (.inl hn))) hrest hns hstep

/-- And it ends with the queue. -/
theorem clampLoop_ends (curtime : BitVec 64) {fuel : Nat} {p : Option Nat} {ns : List Nat}
    (hchain : Chain h.internal.next p ns) (hfuel : ns.length ≤ fuel) :
    (h.clampLoop curtime fuel p).isSome := by
  induction ns generalizing h p fuel with
  | nil =>
    obtain rfl : p = none := hchain
    cases fuel <;> rfl
  | cons n ns ih =>
    obtain ⟨rfl, hrest⟩ := hchain
    obtain ⟨fuel, rfl⟩ := Nat.exists_eq_succ_of_ne_zero (Nat.ne_of_gt (Nat.zero_lt_of_lt hfuel))
    rw [Packets.clampLoop]
    exact ih hrest (Nat.le_of_succ_le_succ hfuel)

theorem clampDelays (hr : Resting h internal client) {curtime : BitVec 64} {fuel : Nat}
    (hstep : h.clampDelays curtime fuel = some h') : Resting h' internal client := by
  unfold Packets.clampDelays at hstep
  split at hstep
  · obtain rfl := Option.some.inj hstep
    exact hr
  · rename_i n hhead
    have hmem : n ∈ internal := List.mem_of_head? (hr.linked_internal.head.symm.trans hhead)
    have haccess := hr.access (List.forall_mem_singleton.mpr (.inl hmem))
    dsimp only at hstep
    split at hstep
    · have hchain : Chain h.internal.next (some n) internal := hhead ▸ hr.linked_internal.chain
      exact haccess.clampLoop hchain (fun _ => id) hstep
    · obtain rfl := Option.some.inj hstep
      exact haccess

theorem handleDelayed (hr : Resting h internal client) {curtime : BitVec 64}
    (hstep : h.handleDelayed curtime = some h') :
    ∃ n rest, internal = n :: rest ∧ Resting h' rest client := by
  unfold Packets.handleDelayed at hstep
  split at hstep
  · exact nomatch hstep
  · rename_i n hhead
    dsimp only at hstep
    split at hstep
    · obtain rfl := Option.some.inj hstep
      rw [hr.linked_internal.head] at hhead
      obtain ⟨rest, rfl⟩ := List.head?_eq_some_iff.mp hhead
      have hmem : ∀ m ∈ [n], m ∈ n :: rest ∨ m ∈ client :=
        List.forall_mem_singleton.mpr (.inl List.mem_cons_self)
      have hadvance := ((hr.access hmem).access hmem).queued.advanceInternal
      refine ⟨n, rest, rfl, hadvance.repairInternal.release, ?_, ?_⟩
      · rw [Packets.release_internal]
        exact hadvance.linked_internal
      · rw [Packets.release_client]
        exact hr.linked_client
    · exact nomatch hstep

theorem freePacket (hr : Resting h internal client) (hstep : h.freePacket = some h') :
    ∃ n rest, client = n :: rest ∧ Resting h' internal rest := by
  unfold Packets.freePacket at hstep
  split at hstep
  · exact nomatch hstep
  · rename_i n hhead
    obtain rfl := Option.some.inj hstep
    rw [hr.linked_client.head] at hhead
    obtain ⟨rest, rfl⟩ := List.head?_eq_some_iff.mp hhead
    have hadvance := hr.queued.advanceClient
    refine ⟨n, rest, rfl, hadvance.release.repairClient, ?_, ?_⟩
    · show Linked ((h.advanceClient n).release n).internal internal
      rw [Packets.release_internal]
      exact hr.linked_internal
    · show Linked ((h.advanceClient n).release n).client.repair rest
      rw [Packets.release_client]
      exact hadvance.linked_client

/-- Every step keeps the queues and the counts. -/
theorem step (hr : Resting h internal client) {a : PacketAction}
    (hstep : packetSystem.step a h = some h') :
    ∃ internal' client', Resting h' internal' client' := by
  cases a with
  | receive delayuntil =>
    obtain rfl := Option.some.inj hstep
    exact ⟨_, _, hr.receive delayuntil⟩
  | clampDelays curtime fuel => exact ⟨_, _, hr.clampDelays hstep⟩
  | handleDelayed curtime =>
    obtain ⟨n, rest, -, hr'⟩ := hr.handleDelayed hstep
    exact ⟨_, _, hr'⟩
  | freePacket =>
    obtain ⟨n, rest, -, hr'⟩ := hr.freePacket hstep
    exact ⟨_, _, hr'⟩

end Resting

theorem resting_init {h : Packets} (hinit : packetSystem.Init h) : Resting h [] [] := by
  obtain ⟨internal, client, usecount, delayuntil, rfl⟩ := hinit
  have haccount : Account [] (fun n => n ∈ ([] : List Nat) ∨ n ∈ ([] : List Nat) ∨ n ∈ ([] : List Nat)) 0 :=
    account_nil.congr fun n => by simp
  have hlinked := linked_empty internal
  have hlinked' := linked_empty client
  exact ⟨⟨hlinked.repair.symm ▸ hlinked, hlinked'.repair.symm ▸ hlinked', .nil, .nil, haccount,
    by simp⟩, hlinked, hlinked'⟩

theorem resting_of_reachable {h : Packets} (hreach : packetSystem.Reachable h) :
    ∃ internal client, Resting h internal client := by
  have hinit : ∀ h, packetSystem.Init h → ∃ internal client, Resting h internal client :=
    fun _ hinit => ⟨[], [], resting_init hinit⟩
  exact hreach.invariant hinit fun _ _ _ ⟨_, _, hr⟩ _ hstep => hr.step hstep

/-! ## The end -/

namespace Queued

variable {h : Packets} {internal client : List Nat} {fuel : Nat}

/-- The loop over the client packet queue ends, and empties it. -/
theorem deleteClient (hq : Queued h internal client []) (hfuel : client.length ≤ fuel) :
    ∃ h', h.deleteClient fuel = some h' ∧ Queued h' internal [] [] ∧ h'.mallocs = h.mallocs := by
  -- each round takes the head off and drops the queue's hold on it
  induction client generalizing h fuel with
  | nil =>
    have hhead : h.client.head = none := hq.linked_client.head
    refine ⟨h, ?_, hq, rfl⟩
    unfold Packets.deleteClient
    rw [hhead]
  | cons n client ih =>
    obtain ⟨fuel, rfl⟩ := Nat.exists_eq_succ_of_ne_zero (Nat.ne_of_gt (Nat.zero_lt_of_lt hfuel))
    have hhead : h.client.head = some n := hq.linked_client.head
    obtain ⟨h', hdelete, hq', hmallocs⟩ := ih hq.advanceClient.release (Nat.le_of_succ_le_succ hfuel)
    refine ⟨h', ?_, hq', ?_⟩
    · unfold Packets.deleteClient
      rw [hhead]
      exact hdelete
    · rw [hmallocs, Packets.release_mallocs]
      rfl

/-- And so does the loop over the internal queue. -/
theorem deleteInternal (hq : Queued h internal client []) (hfuel : internal.length ≤ fuel) :
    ∃ h', h.deleteInternal fuel = some h' ∧ Queued h' [] client [] ∧ h'.mallocs = h.mallocs := by
  -- each round takes the head off and drops the queue's hold on it
  induction internal generalizing h fuel with
  | nil =>
    have hhead : h.internal.head = none := hq.linked_internal.head
    refine ⟨h, ?_, hq, rfl⟩
    unfold Packets.deleteInternal
    rw [hhead]
  | cons n internal ih =>
    obtain ⟨fuel, rfl⟩ := Nat.exists_eq_succ_of_ne_zero (Nat.ne_of_gt (Nat.zero_lt_of_lt hfuel))
    have hhead : h.internal.head = some n := hq.linked_internal.head
    obtain ⟨h', hdelete, hq', hmallocs⟩ := ih hq.advanceInternal.release (Nat.le_of_succ_le_succ hfuel)
    refine ⟨h', ?_, hq', ?_⟩
    · unfold Packets.deleteInternal
      rw [hhead]
      exact hdelete
    · rw [hmallocs, Packets.release_mallocs]
      rfl

/-- `NetQW_Delete` empties both queues. -/
theorem delete (hq : Queued h internal client []) (hclient : client.length ≤ fuel)
    (hinternal : internal.length ≤ fuel) :
    ∃ h', h.delete fuel = some h' ∧ Queued h' [] [] [] ∧ h'.mallocs = h.mallocs := by
  obtain ⟨h₁, hfirst, hq₁, hmallocs₁⟩ := hq.deleteClient hclient
  obtain ⟨h₂, hsecond, hq₂, hmallocs₂⟩ := hq₁.deleteInternal hinternal
  exact ⟨h₂, Option.bind_eq_some_iff.mpr ⟨h₁, hfirst, hsecond⟩, hq₂, hmallocs₂.trans hmallocs₁⟩

/-- There are no more packets in a queue than were allocated. -/
theorem length_le (hq : Queued h internal client []) :
    client.length ≤ h.mallocs ∧ internal.length ≤ h.mallocs := by
  have hlength : ∀ ns : List Nat, ns.Nodup → (∀ n ∈ ns, n < h.mallocs) → ns.length ≤ h.mallocs := by
    intro ns hnodup hlt
    have hsubset : ns ⊆ List.range h.mallocs := fun n hn => List.mem_range.mpr (hlt n hn)
    have hle := (hnodup.subperm hsubset).length_le
    rwa [List.length_range] at hle
  exact ⟨hlength client hq.linked_client.nodup fun n hn => hq.lt_mallocs (.inr (.inl hn)),
    hlength internal hq.linked_internal.nodup fun n hn => hq.lt_mallocs (.inl hn)⟩

end Queued

/-- What is safe about the packets: the queues are linked lists of packets, in the order of
    their arrival; the count of a packet that has not been freed is the number of queues it
    is in, and it has not been freed if and only if it is in one; and no packet is accessed
    that was freed. -/
structure PacketsCounted (h : Packets) (internal client : List Nat) : Prop where
  linked_internal : Linked h.internal internal
  linked_client : Linked h.client client
  internal_sorted : internal.Pairwise (· < ·)
  client_sorted : client.Pairwise (· < ·)
  usecount : ∀ n, Held h.ops n → (h.usecount n).toNat = internal.count n + client.count n
  held : ∀ n, Held h.ops n ↔ n ∈ internal ∨ n ∈ client
  acquired : ∀ n, .acquire n ∈ h.ops ↔ n < h.mallocs
  safe : Safe h.ops

/-- After `NetQW_Delete` every packet has been freed, once. -/
structure PacketsFreed (h : Packets) : Prop where
  safe : Safe h.ops
  acquired : ∀ n, .acquire n ∈ h.ops ↔ n < h.mallocs
  freed : ∀ n < h.mallocs, h.ops.count (.release (some n)) = 1

/-- In every run the packets are counted, and `NetQW_Delete` frees those that are left. -/
theorem packets_counted {h : Packets} (hreach : packetSystem.Reachable h) :
    (∃ internal client, PacketsCounted h internal client) ∧
      ∀ fuel, h.mallocs ≤ fuel → ∃ h', h.delete fuel = some h' ∧ PacketsFreed h' := by
  obtain ⟨internal, client, hr⟩ := resting_of_reachable hreach
  have hq := hr.queued
  have hheld : ∀ n, Held h.ops n ↔ n ∈ internal ∨ n ∈ client := by
    intro n
    rw [hq.account.held n]
    simp only [List.not_mem_nil, or_false]
  refine ⟨⟨internal, client, hr.linked_internal, hr.linked_client, hq.internal_sorted,
    hq.client_sorted, fun n hn => ?_, hheld, hq.account.acquired, hq.account.safe⟩, fun fuel hfuel => ?_⟩
  · exact hq.usecount n (((hheld n).mp hn).imp id .inl)
  · obtain ⟨hclient, hinternal⟩ := hq.length_le
    obtain ⟨h', hdelete, hq', -⟩ := hq.delete (hclient.trans hfuel) (hinternal.trans hfuel)
    refine ⟨h', hdelete, hq'.account.safe, hq'.account.acquired, fun n hn => ?_⟩
    exact hq'.account.count_release hn (by simp)

/-- There are no packets. -/
def Packets.none : Packets :=
  ⟨.empty fun _ => Option.none, .empty fun _ => Option.none, fun _ => 0, fun _ => 0, 0, []⟩

/-- A packet is received that waits, and one that is handled at once; the client frees the
    first. -/
theorem packets_counted_some : ∃ h,
    packetSystem.run [.receive 5, .receive 0, .freePacket] .none = some h ∧
      (∃ internal client, PacketsCounted h internal client) ∧
      ∀ fuel, h.mallocs ≤ fuel → ∃ h', h.delete fuel = some h' ∧ PacketsFreed h' := by
  obtain ⟨h, hrun⟩ : ∃ h, packetSystem.run [.receive 5, .receive 0, .freePacket] .none = some h :=
    ⟨_, rfl⟩
  have hinit : packetSystem.Reachable .none := .init ⟨_, _, _, _, rfl⟩
  exact ⟨h, hrun, packets_counted (hinit.run hrun)⟩

/-! ## The packets of a client -/

/-- The packet that an event frees. -/
def NetEvent.freed? : NetEvent → Option Nat
  | .freePacket n => some n
  | _ => none

/-- The counts and delays of the packets. -/
def NetQW.packetCounts (q : NetQW) (n : Nat) : BitVec 32 × BitVec 64 :=
  ((q.netpackets n).usecount, (q.netpackets n).delayuntil)

def Packets.counts (h : Packets) (n : Nat) : BitVec 32 × BitVec 64 := (h.usecount n, h.delayuntil n)

/-- What an argument about the packets looks at. -/
structure PacketsView where
  internalQueue : List Nat
  clientQueue : List Nat
  counts : Nat → BitVec 32 × BitVec 64
  count : Nat

def NetQW.packetsView (q : NetQW) : PacketsView :=
  ⟨q.internalQueue, q.clientQueue, q.packetCounts, q.netpacketCount⟩

/-- From `q` to `q'` nothing happens to the packets. -/
abbrev PacketsSilent (q q' : NetQW) : Prop :=
  Keeps NetQW.packetsView (fun e => e.freed? = none) q q'

/-- The packets of `q` are those of `h`, whatever queues they are in. -/
structure Mirrors (q : NetQW) (h : Packets) : Prop where
  counts : ∀ n < h.mallocs, h.counts n = q.packetCounts n
  mallocs : h.mallocs = q.netpacketCount
  freed : q.trace.filterMap NetEvent.freed? = h.ops.filterMap Op.released?

namespace Mirrors

variable {q q' : NetQW} {h h' : Packets} {n : Nat}

theorem congr (hm : Mirrors q h) (hcounts : q'.packetCounts = q.packetCounts)
    (hcount : q'.netpacketCount = q.netpacketCount)
    (hfreed : q'.trace.filterMap NetEvent.freed? = q.trace.filterMap NetEvent.freed?) :
    Mirrors q' h where
  counts n hn := (hm.counts n hn).trans (congrFun hcounts n).symm
  mallocs := hm.mallocs.trans hcount.symm
  freed := hfreed.trans hm.freed

theorem access (hm : Mirrors q h) (ns : List Nat) : Mirrors q (h.access ns) :=
  { hm with freed := hm.freed.trans (filterMap_released_use h.ops ns).symm }

/-- A new packet is stored. -/
theorem store (hm : Mirrors q h) {counts : BitVec 32 × BitVec 64}
    (hq : q'.packetCounts = Function.update q.packetCounts q.netpacketCount counts)
    (hcount : q'.netpacketCount = q.netpacketCount + 1)
    (hfreed : q'.trace.filterMap NetEvent.freed? = q.trace.filterMap NetEvent.freed?)
    (hh : h'.counts = Function.update h.counts h.mallocs counts)
    (hmallocs : h'.mallocs = h.mallocs + 1)
    (hreleased : h'.ops.filterMap Op.released? = h.ops.filterMap Op.released?) : Mirrors q' h' := by
  refine ⟨fun n hn => ?_, ?_, hfreed.trans (hm.freed.trans hreleased.symm)⟩
  · rw [hq, hh, hm.mallocs]
    by_cases heq : n = q.netpacketCount
    · rw [heq, Function.update_self, Function.update_self]
    · rw [Function.update_of_ne heq, Function.update_of_ne heq]
      rw [hmallocs, hm.mallocs] at hn
      exact hm.counts n (by rw [hm.mallocs]; omega)
  · rw [hmallocs, hcount, hm.mallocs]

/-- A packet is written to. -/
theorem write (hm : Mirrors q h) (counts : BitVec 32 × BitVec 64)
    (hq : q'.packetCounts = Function.update q.packetCounts n counts)
    (hcount : q'.netpacketCount = q.netpacketCount) (htrace : q'.trace = q.trace)
    (hh : h'.counts = Function.update h.counts n counts) (hmallocs : h'.mallocs = h.mallocs)
    (hops : h'.ops = h.ops) : Mirrors q' h' := by
  refine ⟨fun m hm' => ?_, ?_, ?_⟩
  · rw [hq, hh]
    by_cases heq : m = n
    · rw [heq, Function.update_self, Function.update_self]
    · rw [Function.update_of_ne heq, Function.update_of_ne heq]
      exact hm.counts m (hmallocs ▸ hm')
  · rw [hmallocs, hcount, hm.mallocs]
  · rw [htrace, hops, hm.freed]

/-- A reference is given up. -/
theorem release (hm : Mirrors q h) (hn : n < h.mallocs) : Mirrors (q.release n) (h.release n) := by
  have hone : (q.netpackets n).usecount - 1#32 = h.usecount n - 1#32 :=
    congrArg (fun c : BitVec 32 × BitVec 64 => c.1 - 1#32) (hm.counts n hn).symm
  have hdelay : (q.netpackets n).delayuntil = h.delayuntil n :=
    congrArg Prod.snd (hm.counts n hn).symm
  -- first the count is lowered on both sides, then both test it against zero
  have hset : Mirrors (q.setNetpackets (Function.update q.netpackets n
        { q.netpackets n with usecount := (q.netpackets n).usecount - 1#32 }))
      ({ h with usecount := Function.update h.usecount n (h.usecount n - 1#32) }.access [n]) := by
    suffices hset : Mirrors (q.setNetpackets (Function.update q.netpackets n
          { q.netpackets n with usecount := (q.netpackets n).usecount - 1#32 }))
        { h with usecount := Function.update h.usecount n (h.usecount n - 1#32) } from hset.access [n]
    have hcounts : (h.usecount n - 1#32, h.delayuntil n)
        = ((q.netpackets n).usecount - 1#32, (q.netpackets n).delayuntil) := by rw [hone, hdelay]
    refine hm.write (n := n) (h.usecount n - 1#32, h.delayuntil n) ?_ rfl rfl ?_ rfl rfl
    · funext m
      by_cases heq : m = n
      · subst heq
        rw [Function.update_self]
        show ((Function.update q.netpackets m _ m).usecount,
          (Function.update q.netpackets m _ m).delayuntil) = _
        rw [Function.update_self, hcounts]
      · rw [Function.update_of_ne heq]
        show ((Function.update q.netpackets n _ m).usecount,
          (Function.update q.netpackets n _ m).delayuntil) = _
        rw [Function.update_of_ne heq]
        rfl
    · funext m
      by_cases heq : m = n
      · subst heq
        rw [Function.update_self]
        exact congrArg (·, h.delayuntil m) (Function.update_self ..)
      · rw [Function.update_of_ne heq]
        exact congrArg (·, h.delayuntil m) (Function.update_of_ne heq ..)
  have hcount : ({ h with usecount := Function.update h.usecount n (h.usecount n - 1#32) }.access
      [n]).usecount n = h.usecount n - 1#32 := Function.update_self ..
  unfold NetQW.release Packets.release
  dsimp only
  rw [hcount, hone] at *
  by_cases hzero : h.usecount n - 1#32 = 0#32
  · rw [if_pos hzero, if_pos hzero]
    refine ⟨hset.counts, hset.mallocs, ?_⟩
    show (q.trace ++ [NetEvent.freePacket n]).filterMap NetEvent.freed?
      = (_ ++ [Op.release (some n)]).filterMap Op.released?
    rw [List.filterMap_append, List.filterMap_append, ← hset.freed]
    rfl
  · rw [if_neg hzero, if_neg hzero]
    refine ⟨hset.counts, hset.mallocs, ?_⟩
    show (q.trace ++ []).filterMap NetEvent.freed? = _
    rw [List.append_nil]
    exact hset.freed

end Mirrors

/-- The queues and packets of `q` are those of `h`. -/
structure PacketsOf (q : NetQW) (h : Packets) : Prop where
  resting : Resting h q.internalQueue q.clientQueue
  mirrors : Mirrors q h

theorem PacketsOf.congr {q q' : NetQW} {h : Packets} (hp : PacketsOf q h)
    (hs : PacketsSilent q q') : PacketsOf q' h := by
  have hinternal : q'.internalQueue = q.internalQueue := congrArg PacketsView.internalQueue hs.view
  have hclient : q'.clientQueue = q.clientQueue := congrArg PacketsView.clientQueue hs.view
  refine ⟨?_, hp.mirrors.congr (congrArg PacketsView.counts hs.view)
    (congrArg PacketsView.count hs.view) (hs.filterMap fun _ he => he)⟩
  rw [hinternal, hclient]
  exact hp.resting

theorem packetsSilent_handleReceivedPacket (data : List Byte) (q : NetQW) :
    PacketsSilent q (q.handleReceivedPacket data) := by
  have hreplies : ReadsNoReplies NetQW.packetsView (fun e => e.freed? = none) := by
    refine ⟨fun _ _ => rfl, fun _ _ _ _ _ _ _ _ => rfl, fun e he => ?_⟩
    cases e
    case freePacket => exact absurd he (by simp [NetEvent.ofReplies])
    all_goals rfl
  exact hreplies.handleReceivedPacket data q

section

variable {q q' : NetQW} {h h' : Packets}

theorem packetCounts_store (q : NetQW) (usecount : BitVec 32) (delayuntil : BitVec 64)
    (data : List Byte) : (q.storePacket ⟨delayuntil, usecount, data⟩).packetCounts
      = Function.update q.packetCounts q.netpacketCount (usecount, delayuntil) := by
  funext m
  show ((Function.update q.netpackets q.netpacketCount _ m).usecount,
    (Function.update q.netpackets q.netpacketCount _ m).delayuntil) = _
  by_cases heq : m = q.netpacketCount
  · rw [heq, Function.update_self, Function.update_self]
  · rw [Function.update_of_ne heq, Function.update_of_ne heq]
    rfl

theorem Packets.counts_allocate (h : Packets) (delayuntil : BitVec 64) :
    (h.allocate delayuntil).counts = Function.update h.counts h.mallocs (1#32, delayuntil) := by
  funext m
  show (Function.update h.usecount h.mallocs 1#32 m,
    Function.update h.delayuntil h.mallocs delayuntil m) = _
  by_cases heq : m = h.mallocs
  · rw [heq, Function.update_self, Function.update_self, Function.update_self]
  · rw [Function.update_of_ne heq, Function.update_of_ne heq, Function.update_of_ne heq]
    rfl

theorem Packets.counts_receive (h : Packets) (delayuntil : BitVec 64) :
    (h.receive delayuntil).counts = Function.update h.counts h.mallocs
      (if delayuntil = 0#64 then 1#32 else 2#32, delayuntil) := by
  have hcounts := h.counts_allocate delayuntil
  have hdelay : (h.allocate delayuntil).delayuntil h.mallocs = delayuntil := Function.update_self ..
  have huse : (h.allocate delayuntil).usecount h.mallocs = 1#32 := Function.update_self ..
  unfold Packets.receive
  dsimp only
  rw [hdelay]
  -- held back, the packet is in both queues and counts two
  by_cases hzero : delayuntil = 0#64
  · rw [if_pos hzero, if_pos hzero]
    exact hcounts
  · rw [if_neg hzero, if_neg hzero]
    funext m
    show (Function.update (h.allocate delayuntil).usecount h.mallocs
      ((h.allocate delayuntil).usecount h.mallocs + 1#32) m, (h.allocate delayuntil).delayuntil m) = _
    by_cases heq : m = h.mallocs
    · rw [heq, Function.update_self, Function.update_self, huse, hdelay]
      rfl
    · rw [Function.update_of_ne heq, Function.update_of_ne heq]
      exact (congrFun hcounts m).trans (Function.update_of_ne heq ..)

theorem Packets.released_receive (h : Packets) (delayuntil : BitVec 64) :
    (h.receive delayuntil).ops.filterMap Op.released? = h.ops.filterMap Op.released? := by
  have haccess : ∀ (h : Packets) ns, (h.access ns).ops.filterMap Op.released?
      = h.ops.filterMap Op.released? := fun h ns => filterMap_released_use h.ops ns
  have hallocate : (h.allocate delayuntil).ops.filterMap Op.released? = h.ops.filterMap Op.released? := by
    refine (haccess _ _).trans ?_
    show (h.ops ++ [Op.acquire h.mallocs]).filterMap Op.released? = _
    rw [List.filterMap_append]
    exact List.append_nil _
  have hclient : ∀ (h : Packets) n, (h.linkClient n).ops.filterMap Op.released?
      = h.ops.filterMap Op.released? := fun h n => haccess { h with client := h.client.push n } _
  unfold Packets.receive
  dsimp only
  rw [hclient]
  split
  · exact (haccess _ _).trans hallocate
  · exact (haccess _ _).trans hallocate

theorem Packets.mallocs_receive (h : Packets) (delayuntil : BitVec 64) :
    (h.receive delayuntil).mallocs = h.mallocs + 1 := by
  unfold Packets.receive
  dsimp only
  split <;> rfl

theorem packetsView_queueForClient (data : List Byte) (q : NetQW) :
    (q.queueForClient data).packetsView = ⟨q.internalQueue, q.clientQueue ++ [q.netpacketCount],
      q.packetCounts, q.netpacketCount + 1⟩ := rfl

theorem packetsView_acceptPacket (now : BitVec 64) (data : List Byte) (q : NetQW) :
    (q.acceptPacket now data).packetsView =
      ⟨if q.delayUntil now = 0#64 then q.internalQueue else q.internalQueue ++ [q.netpacketCount],
        q.clientQueue ++ [q.netpacketCount],
        Function.update q.packetCounts q.netpacketCount
          (if q.delayUntil now = 0#64 then 1#32 else 2#32, q.delayUntil now),
        q.netpacketCount + 1⟩ := by
  rw [NetQW.acceptPacket, packetsView_queueForClient]
  -- a packet without delay is handled at once, which leaves the queues alone
  by_cases hzero : q.delayUntil now = 0#64
  · have hsilent := packetsSilent_handleReceivedPacket data (q.storePacket ⟨0, 1, data⟩)
    have hinternal := congrArg PacketsView.internalQueue hsilent.view
    have hclient := congrArg PacketsView.clientQueue hsilent.view
    have hcounts := congrArg PacketsView.counts hsilent.view
    have hcount := congrArg PacketsView.count hsilent.view
    rw [if_pos hzero, if_pos hzero, if_pos hzero, NetQW.handleNow, hzero]
    generalize (q.storePacket ⟨0, 1, data⟩).handleReceivedPacket data = q₁ at *
    have hcounts' : q₁.packetCounts = _ := hcounts.trans (packetCounts_store q 1 0 data)
    have hinternal' : q₁.internalQueue = q.internalQueue := hinternal
    have hclient' : q₁.clientQueue = q.clientQueue := hclient
    have hcount' : q₁.netpacketCount = q.netpacketCount := hcount
    rw [hcounts', hinternal', hclient', hcount']
    rfl
  · rw [if_neg hzero, if_neg hzero, if_neg hzero]
    generalize q.delayUntil now = delay
    have hcounts := packetCounts_store q 2 delay data
    show (⟨_, _, (q.storePacket ⟨delay, 2, data⟩).packetCounts, _⟩ : PacketsView) = _
    rw [hcounts]
    rfl

/-- No packet is freed. -/
theorem freed_acceptPacket (now : BitVec 64) (data : List Byte) (q : NetQW) :
    (q.acceptPacket now data).trace.filterMap NetEvent.freed? = q.trace.filterMap NetEvent.freed? := by
  have hqueue : ∀ q : NetQW, (q.queueForClient data).trace.filterMap NetEvent.freed?
      = q.trace.filterMap NetEvent.freed? := by
    intro q
    show (q.trace ++ [NetEvent.accept data]).filterMap NetEvent.freed? = _
    rw [List.filterMap_append]
    exact List.append_nil _
  rw [NetQW.acceptPacket, hqueue]
  split
  · exact (packetsSilent_handleReceivedPacket data (q.storePacket ⟨0, 1, data⟩)).filterMap
      fun _ he => he
  · rfl

/-- A packet that is accepted. -/
theorem PacketsOf.receive (hp : PacketsOf q h) (now : BitVec 64) (data : List Byte) :
    PacketsOf (q.acceptPacket now data) (h.receive (q.delayUntil now)) := by
  have hview := packetsView_acceptPacket now data q
  have hresting := hp.resting.receive (q.delayUntil now)
  have hinternal : (q.acceptPacket now data).internalQueue = _ :=
    congrArg PacketsView.internalQueue hview
  have hclient : (q.acceptPacket now data).clientQueue = _ := congrArg PacketsView.clientQueue hview
  rw [hp.mirrors.mallocs] at hresting
  refine ⟨?_, hp.mirrors.store (congrArg PacketsView.counts hview) (congrArg PacketsView.count hview)
    (freed_acceptPacket now data q) (h.counts_receive _) (h.mallocs_receive _) (h.released_receive _)⟩
  rw [hinternal, hclient]
  exact hresting

/-- A packet that waited is handled. -/
theorem PacketsOf.handleDelayed (hp : PacketsOf q h) {curtime : BitVec 64}
    (hstep : q.handleDelayed curtime = some q') :
    ∃ h', h.handleDelayed curtime = some h' ∧ PacketsOf q' h' := by
  unfold NetQW.handleDelayed at hstep
  split at hstep
  · exact nomatch hstep
  · rename_i n rest hqueue
    split at hstep
    · rename_i hdue
      obtain rfl := Option.some.inj hstep
      have hn : n < h.mallocs := hp.resting.queued.lt_mallocs (.inl (by rw [hqueue]; exact List.mem_cons_self))
      have hhead : h.internal.head = some n := by
        rw [hp.resting.linked_internal.head, hqueue]
        rfl
      have hdelay : h.delayuntil n = (q.netpackets n).delayuntil :=
        congrArg Prod.snd (hp.mirrors.counts n hn)
      have hdue' : (h.access [n]).delayuntil n ≤ curtime := by
        show h.delayuntil n ≤ curtime
        rw [hdelay]
        exact hdue
      have hsome : h.handleDelayed curtime
          = some ((((h.access [n]).access [n]).advanceInternal n).repairInternal.release n) := by
        unfold Packets.handleDelayed
        rw [hhead]
        dsimp only
        rw [if_pos hdue']
      -- what the packet says is none of the queues' business
      have hsilent := packetsSilent_handleReceivedPacket (q.netpackets n).data q
      generalize q.handleReceivedPacket (q.netpackets n).data = q₁ at *
      have hhandled : Mirrors q₁ h :=
        hp.mirrors.congr (congrArg PacketsView.counts hsilent.view)
          (congrArg PacketsView.count hsilent.view) (hsilent.filterMap fun _ he => he)
      have hclient : q₁.clientQueue = q.clientQueue :=
        congrArg PacketsView.clientQueue hsilent.view
      have hset : Mirrors (q₁.setInternalQueue rest) h :=
        ⟨hhandled.counts, hhandled.mallocs, hhandled.freed⟩
      -- off the queue and its hold dropped, in the order of the source
      have hadvance : Mirrors (q₁.setInternalQueue rest)
          ((((h.access [n]).access [n]).advanceInternal n).repairInternal) := by
        have haccess := (hset.access [n]).access [n]
        have hunlink : Mirrors (q₁.setInternalQueue rest) { (h.access [n]).access [n] with
            internal := ((h.access [n]).access [n]).internal.advance n } :=
          ⟨haccess.counts, haccess.mallocs, haccess.freed⟩
        have hlast := hunlink.access [n]
        exact ⟨hlast.counts, hlast.mallocs, hlast.freed⟩
      refine ⟨_, hsome, ?_, hadvance.release hn⟩
      obtain ⟨n', rest', hqueue', hresting⟩ := hp.resting.handleDelayed hsome
      obtain ⟨-, rfl⟩ := List.cons.inj (hqueue.symm.trans hqueue')
      show Resting _ rest q₁.clientQueue
      rw [hclient]
      exact hresting
    · exact nomatch hstep

theorem PacketsOf.freePacket (hp : PacketsOf q h) (hstep : q.freePacket = some q') :
    ∃ h', h.freePacket = some h' ∧ PacketsOf q' h' := by
  unfold NetQW.freePacket at hstep
  split at hstep
  · exact nomatch hstep
  · rename_i n rest hqueue
    obtain rfl := Option.some.inj hstep
    -- the head is live: the queue still holds it
    have hmem : n ∈ q.clientQueue := by
      rw [hqueue]
      exact List.mem_cons_self
    have hn : n < h.mallocs := hp.resting.queued.lt_mallocs (.inr (.inl hmem))
    have hhead : h.client.head = some n := by
      rw [hp.resting.linked_client.head, hqueue]
      rfl
    have hsome : h.freePacket = some ((h.advanceClient n).release n).repairClient := by
      unfold Packets.freePacket
      rw [hhead]
    have hadvance : Mirrors { q with clientQueue := rest } { h with client := h.client.advance n } :=
      ⟨hp.mirrors.counts, hp.mirrors.mallocs, hp.mirrors.freed⟩
    have hrelease := (hadvance.access [n]).release hn
    refine ⟨_, hsome, ?_, ⟨hrelease.counts, hrelease.mallocs, hrelease.freed⟩⟩
    obtain ⟨n', rest', hqueue', hresting⟩ := hp.resting.freePacket hsome
    obtain ⟨-, rfl⟩ := List.cons.inj (hqueue.symm.trans hqueue')
    exact hresting

/-- What the loop of the sanity check does to the packets it meets. -/
theorem Packets.clampLoop_spec {curtime : BitVec 64} {fuel : Nat} {p : Option Nat} {ns : List Nat}
    (hchain : Chain h.internal.next p ns) (hloop : h.clampLoop curtime fuel p = some h') :
    h'.counts = (fun m => if m ∈ ns then (h.usecount m, curtime) else h.counts m) ∧
      h'.mallocs = h.mallocs ∧
      h'.ops.filterMap Op.released? = h.ops.filterMap Op.released? := by
  -- along the chain: each node has its delay set to the time that is passed
  induction ns generalizing h p fuel with
  | nil =>
    obtain rfl : p = Option.none := hchain
    unfold Packets.clampLoop at hloop
    obtain rfl := Option.some.inj hloop
    refine ⟨funext fun m => ?_, rfl, rfl⟩
    rw [if_neg List.not_mem_nil]
  | cons n ns ih =>
    obtain ⟨rfl, hrest⟩ := hchain
    cases fuel with
    | zero => exact nomatch hloop
    | succ fuel =>
      rw [Packets.clampLoop] at hloop
      obtain ⟨hcounts, hmallocs, hreleased⟩ := ih
        (h := { h with delayuntil := Function.update h.delayuntil n curtime }.access [n]) hrest hloop
      refine ⟨hcounts.trans (funext fun m => ?_), hmallocs,
        hreleased.trans (filterMap_released_use h.ops [n])⟩
      show (if m ∈ ns then (h.usecount m, curtime)
        else (h.usecount m, Function.update h.delayuntil n curtime m)) = _
      by_cases hm : m ∈ ns
      · rw [if_pos hm, if_pos (List.mem_cons_of_mem n hm)]
      · rw [if_neg hm]
        by_cases heq : m = n
        · rw [heq, Function.update_self, if_pos List.mem_cons_self]
        · rw [Function.update_of_ne heq, if_neg fun h => (List.mem_cons.mp h).elim heq hm]
          rfl

theorem PacketsOf.clampDelays (hp : PacketsOf q h) (curtime : BitVec 64) :
    ∃ fuel h', h.clampDelays curtime fuel = some h' ∧ PacketsOf (q.clampDelays curtime) h' := by
  have hlinked := hp.resting.linked_internal
  unfold Packets.clampDelays NetQW.clampDelays
  rw [hlinked.head]
  rcases hqueue : q.internalQueue with _ | ⟨n, rest⟩
  · exact ⟨0, h, rfl, hp⟩
  · have hmem : ∀ m ∈ [n], m ∈ q.internalQueue ∨ m ∈ q.clientQueue := by
      rw [hqueue]
      exact List.forall_mem_singleton.mpr (.inl List.mem_cons_self)
    have hn : n < h.mallocs := by
      rcases hmem n (List.mem_singleton.mpr rfl) with hn | hn
      · exact hp.resting.queued.lt_mallocs (.inl hn)
      · exact hp.resting.queued.lt_mallocs (.inr (.inl hn))
    have hdelay : (q.netpackets n).delayuntil = (h.access [n]).delayuntil n :=
      congrArg Prod.snd (hp.mirrors.counts n hn).symm
    have hread := hp.resting.access hmem
    have hmirrors := hp.mirrors.access [n]
    dsimp only [List.head?_cons]
    rw [hdelay]
    -- the whole queue is clamped when its head is more than a second late
    by_cases hlate : curtime + 1000000#64 < (h.access [n]).delayuntil n
    · have hchain : Chain (h.access [n]).internal.next (some n) q.internalQueue := by
        have hhead : h.internal.head = some n := by
          rw [hlinked.head, hqueue]
          rfl
        rw [← hhead]
        exact hlinked.chain
      obtain ⟨h', hloop⟩ := Option.isSome_iff_exists.mp
        (Resting.clampLoop_ends curtime hchain (Nat.le_refl _))
      obtain ⟨hcounts, hmallocs, hreleased⟩ := Packets.clampLoop_spec hchain hloop
      refine ⟨q.internalQueue.length, h', by rw [if_pos hlate]; exact hloop, ?_⟩
      rw [if_pos hlate, ← hqueue]
      refine ⟨hread.clampLoop hchain (fun _ => id) hloop, fun m hm => ?_,
        hmallocs.trans hmirrors.mallocs, hmirrors.freed.trans hreleased.symm⟩
      rw [hmallocs] at hm
      rw [hcounts]
      show _ = ((if m ∈ q.internalQueue then _ else _ : NetPacket).usecount,
        (if m ∈ q.internalQueue then _ else _ : NetPacket).delayuntil)
      dsimp only
      split
      · exact congrArg (fun c : BitVec 32 × BitVec 64 => (c.1, curtime)) (hmirrors.counts m hm)
      · exact hmirrors.counts m hm
    · refine ⟨0, h.access [n], by rw [if_neg hlate], ?_⟩
      rw [if_neg hlate]
      exact ⟨hread, hmirrors⟩

/-- A datagram that is not accepted does nothing to the packets. -/
theorem packetsSilent_receive (env : NetQW.SendEnv) (source : NetAddr) (datagram : List Byte)
    (q : NetQW) : PacketsSilent q (q.receive env source datagram) ∨
      ∃ data, q.receive env source datagram = q.acceptPacket env.now data := by
  have happend : ∀ q : NetQW, PacketsSilent q (q.appendReliableBuffer NetQW.newCommand) := fun q =>
    ⟨rfl, [.append NetQW.newCommand], rfl, List.forall_mem_singleton.mpr rfl⟩
  have henter : ∀ q : NetQW, PacketsSilent q (q.enterConnected env.now) := fun q =>
    keeps_enterConnected q (fun _ _ _ _ => rfl) env.now
  unfold NetQW.receive
  dsimp only
  split
  · split
    · exact .inl (keeps_receiveChallenge q (fun _ _ _ _ _ _ => rfl) _ _)
    · unfold NetQW.receiveConnection
      refine .inl ?_
      split
      · refine Keeps.trans ?_ (henter _)
        split
        · exact happend q
        · exact .refl q
      · exact .refl q
    · unfold NetQW.receivePacket
      split
      · exact .inr ⟨_, rfl⟩
      · exact .inl (.refl q)
  · exact .inl (.refl q)

end

/-- The packets of a client are a part of it that does what the packets do on their own. -/
theorem client_refines_packets (angle16 : BitVec 32 → BitVec 16) :
    (Client.system angle16).Refines packetSystem fun c h => PacketsOf c.netqw h where
  init := by
    rintro c ⟨garbage, qport, userinfo, addr, rfl⟩
    refine ⟨.none, ⟨_, _, _, _, rfl⟩, resting_init ⟨_, _, _, _, rfl⟩, fun n hn => ?_, rfl, rfl⟩
    exact absurd hn (Nat.not_lt_zero n)
  step := by
    intro a c c' h hp (hstep : Client.step angle16 a c = some c')
    have hframes : ReadsNoFrames NetQW.packetsView (fun e => e.freed? = none) := by
      refine ⟨fun _ _ => rfl, fun _ _ _ _ _ _ _ _ _ _ _ _ _ _ => rfl, fun e he => ?_⟩
      cases e
      case freePacket => exact nomatch he
      all_goals rfl
    have hsending : ReadsNoSending NetQW.packetsView (fun e => e.freed? = none) :=
      ⟨fun _ _ => rfl, fun _ _ _ _ => rfl, fun _ => rfl⟩
    -- four actions move packets; the rest never look at the queues
    cases a
    case receive env source datagram =>
      obtain ⟨-, rfl⟩ := Client.outside_total (f := NetQW.receive env source datagram) hstep
      rcases packetsSilent_receive env source datagram c.netqw with hs | ⟨data, heq⟩
      · exact .inl (hp.congr hs)
      · refine .inr ⟨.receive (c.netqw.delayUntil env.now), _, rfl, ?_⟩
        show PacketsOf (c.netqw.receive env source datagram) _
        rw [heq]
        exact hp.receive env.now data
    case handleDelayed curtime =>
      obtain ⟨-, q', hq', rfl⟩ := Client.outside_spec hstep
      obtain ⟨h', hstep', hp'⟩ := hp.handleDelayed hq'
      exact .inr ⟨.handleDelayed curtime, h', hstep', hp'⟩
    case clampDelays curtime =>
      obtain ⟨-, rfl⟩ := Client.outside_total (f := NetQW.clampDelays curtime) hstep
      obtain ⟨fuel, h', hstep', hp'⟩ := hp.clampDelays curtime
      exact .inr ⟨.clampDelays curtime fuel, h', hstep', hp'⟩
    case freePacket =>
      obtain ⟨q', hq', rfl⟩ := Option.map_eq_some_iff.mp hstep
      obtain ⟨h', hstep', hp'⟩ := hp.freePacket hq'
      exact .inr ⟨.freePacket, h', hstep', hp'⟩
    all_goals refine .inl (hp.congr ?_)
    case append buffer =>
      obtain rfl := Option.some.inj hstep
      exact ⟨rfl, [.append buffer], rfl, List.forall_mem_singleton.mpr rfl⟩
    case clampSends | sendDelayed | beginSend => exact (hsending.step rfl hstep).1
    case addReliables =>
      obtain ⟨buf, -, rfl⟩ := Client.addReliables_spec hstep
      exact keeps_rememberReliables _ (fun _ _ _ _ => rfl) _
    case submitPacket env => exact hsending.submit (fun _ _ => rfl) (fun _ _ => rfl) hstep
    case finishPacket =>
      obtain ⟨-, rfl⟩ := Client.finishPacket_spec hstep
      exact ⟨rfl, [.sent c.netqw.currentOutgoingSequenceNumber], rfl,
        List.forall_mem_singleton.mpr rfl⟩
    all_goals exact (hframes.step rfl hstep).1

end QwNet
