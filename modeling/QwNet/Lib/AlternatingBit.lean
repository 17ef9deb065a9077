/-
  QwNet.Lib.AlternatingBit

  Items that are delivered in order with one bit, over a channel that loses, repeats
  and reorders.

  The packets of the sender are numbered, and the receiver accepts only numbers above
  those it accepted before.  The sender puts a beginning of its queue into a packet and
  flips its bit; the receiver flips its own with every packet that has items.  Replies
  carry the highest number accepted and the receiver's bit.  Once a reply shows that
  the number of the packet was reached, it was delivered or never will be, and the bit
  tells which.
-/
import QwNet.Lib.Transition

namespace AlternatingBit

variable {α : Type}

/-- A packet of the sender. -/
structure Packet (α : Type) where
  number : Nat
  items : List α

/-- A packet of the receiver: its own number, that of the packet it acknowledges, and the
    bit. -/
structure Reply where
  number : Nat
  acknowledge : Nat
  bit : Bool

/-- The two parties, and what they ever sent. -/
structure Protocol (α : Type) where
  queue : List α
  /-- How many items of the queue were sent and are not settled. -/
  outstanding : Nat
  /-- The packet they are in. -/
  number : Nat
  bit : Bool
  next : Nat
  packets : List (Packet α)
  high : Nat
  remoteBit : Bool
  replies : List Reply
  appended : List α
  freed : List α
  delivered : List α

/-- What the parties and the channel do.  A packet or a reply is received by its number in
    the list of those sent, as often and as late as the channel wants. -/
inductive Action (α : Type) where
  | append (x : α)
  | send (k : Nat)
  | accept (n : Nat)
  | reply (number : Nat)
  | settle (n : Nat)

namespace Protocol

/-- The items that are not settled. -/
def batch (s : Protocol α) : List α := s.queue.take s.outstanding

def append (x : α) (s : Protocol α) : Protocol α :=
  { s with
    queue := s.queue ++ [x]
    appended := s.appended ++ [x] }

/-- A packet without items. -/
def sendNone (s : Protocol α) : Protocol α :=
  { s with
    next := s.next + 1
    packets := s.packets ++ [⟨s.next, []⟩] }

/-- A packet with the first `k` items of the queue. -/
def sendItems (k : Nat) (s : Protocol α) : Protocol α :=
  { s with
    outstanding := k
    number := s.next
    bit := !s.bit
    next := s.next + 1
    packets := s.packets ++ [⟨s.next, s.queue.take k⟩] }

/-- A packet above all before is accepted. -/
def accept (p : Packet α) (s : Protocol α) : Protocol α :=
  if s.high < p.number then
    { s with
      high := p.number
      remoteBit := if p.items = [] then s.remoteBit else !s.remoteBit
      delivered := s.delivered ++ p.items }
  else s

def reply (number : Nat) (s : Protocol α) : Protocol α :=
  { s with replies := s.replies ++ [⟨number, s.high, s.remoteBit⟩] }

/-- The packet was lost. -/
def resend (s : Protocol α) : Protocol α :=
  { s with
    outstanding := 0
    bit := !s.bit }

/-- The packet was delivered. -/
def free (s : Protocol α) : Protocol α :=
  { s with
    queue := s.queue.drop s.outstanding
    outstanding := 0
    freed := s.freed ++ s.batch }

/-- The sender looks at a reply. -/
def settle (r : Reply) (s : Protocol α) : Protocol α :=
  if s.outstanding ≠ 0 ∧ s.number ≤ r.number then
    if s.bit ≠ r.bit then s.resend else s.free
  else s

/-- What an action does; `none` where it is not possible. -/
def step (a : Action α) (s : Protocol α) : Option (Protocol α) :=
  match a with
  | .append x => some (s.append x)
  | .send 0 => some s.sendNone
  | .send (k + 1) =>
    if s.outstanding = 0 ∧ k < s.queue.length then some (s.sendItems (k + 1)) else none
  | .accept n => s.packets[n]?.map fun p => s.accept p
  | .reply number => if number ≤ s.high then some (s.reply number) else none
  | .settle n => s.replies[n]?.map fun r => s.settle r

/-- Nothing was sent, and the first packet is above what the receiver has. -/
def initial (number : Nat) : Protocol α where
  queue := []
  outstanding := 0
  number := number
  bit := false
  next := 1
  packets := []
  high := 0
  remoteBit := false
  replies := []
  appended := []
  freed := []
  delivered := []

end Protocol

/-- The protocol as a system. -/
def system (α : Type) : Transitions (Protocol α) (Action α) where
  Init s := ∃ number, s = .initial number
  step := Protocol.step

/-! ## The invariant -/

/-- All items that were sent are settled. -/
structure Settled (s : Protocol α) : Prop where
  outstanding : s.outstanding = 0
  delivered : s.delivered = s.freed
  bit : s.remoteBit = s.bit
  /-- No packet with items can be delivered any more. -/
  past : ∀ p ∈ s.packets, p.items ≠ [] → p.number ≤ s.high

/-- Some items were sent, and are not settled. -/
structure Outstanding (s : Protocol α) : Prop where
  pos : 0 < s.outstanding
  le_queue : s.outstanding ≤ s.queue.length
  /-- No packet with items can be delivered but theirs. -/
  only : ∀ p ∈ s.packets, p.items ≠ [] → s.high < p.number → p = ⟨s.number, s.batch⟩
  /-- They were not delivered, or they were. -/
  fate : s.delivered = s.freed ∧ s.remoteBit = !s.bit ∨
    s.delivered = s.freed ++ s.batch ∧ s.remoteBit = s.bit ∧ s.number ≤ s.high
  /-- The replies that were sent since their number was reached carry the bit of today. -/
  answered : ∀ r ∈ s.replies, s.number ≤ r.acknowledge → r.bit = s.remoteBit

/-- What holds after every step. -/
structure Sound (s : Protocol α) : Prop where
  order : s.appended = s.freed ++ s.queue
  lt_next : ∀ p ∈ s.packets, p.number < s.next
  high_lt : s.high < s.next
  acknowledged : ∀ r ∈ s.replies, r.number ≤ r.acknowledge ∧ r.acknowledge ≤ s.high
  phase : Settled s ∨ Outstanding s

theorem sound_initial (number : Nat) : Sound (Protocol.initial number : Protocol α) where
  order := rfl
  lt_next := nofun
  high_lt := Nat.zero_lt_one
  acknowledged := nofun
  phase := .inl ⟨rfl, rfl, rfl, nofun⟩

namespace Sound

variable {s : Protocol α}

/-! ## Every step -/

theorem append (h : Sound s) (x : α) : Sound (s.append x) := by
  refine ⟨?_, h.lt_next, h.high_lt, h.acknowledged, ?_⟩
  · show s.appended ++ [x] = s.freed ++ (s.queue ++ [x])
    rw [h.order, List.append_assoc]
  · rcases h.phase with hs | hs
    · exact .inl { hs with }
    · right
      -- the items that were sent stay at the head of the queue
      have hbatch : (s.append x).batch = s.batch := List.take_append_of_le_length hs.le_queue
      have hle : s.outstanding ≤ (s.queue ++ [x]).length := by
        rw [List.length_append]
        exact Nat.le_add_right_of_le hs.le_queue
      refine ⟨hs.pos, hle, ?_, ?_, hs.answered⟩
      · rw [hbatch]
        exact hs.only
      · rw [hbatch]
        exact hs.fate

theorem lt_next_concat (h : Sound s) (items : List α) :
    ∀ p ∈ s.packets ++ [⟨s.next, items⟩], p.number < s.next + 1 := by
  refine List.forall_mem_append.mpr ⟨fun p hp => Nat.lt_succ_of_lt (h.lt_next p hp), ?_⟩
  exact List.forall_mem_singleton.mpr (Nat.lt_succ_self _)

theorem sendNone (h : Sound s) : Sound s.sendNone := by
  refine ⟨h.order, h.lt_next_concat [], Nat.lt_succ_of_lt h.high_lt, h.acknowledged, ?_⟩
  rcases h.phase with hs | hs
  · refine .inl { hs with past := List.forall_mem_append.mpr ⟨hs.past, ?_⟩ }
    exact List.forall_mem_singleton.mpr fun hne => absurd rfl hne
  · refine .inr { hs with only := List.forall_mem_append.mpr ⟨hs.only, ?_⟩ }
    exact List.forall_mem_singleton.mpr fun hne => absurd rfl hne

theorem sendItems (h : Sound s) {k : Nat} (hs : s.outstanding = 0) (hk : k < s.queue.length) :
    Sound (s.sendItems (k + 1)) := by
  have hsettled : Settled s := by
    rcases h.phase with hsettled | hout
    · exact hsettled
    · exact absurd hs (Nat.ne_of_gt hout.pos)
  refine ⟨h.order, h.lt_next_concat _, Nat.lt_succ_of_lt h.high_lt, h.acknowledged, .inr ?_⟩
  refine ⟨Nat.succ_pos k, hk, ?_, ?_, ?_⟩
  · refine List.forall_mem_append.mpr ⟨fun p hp hne hlt => ?_, ?_⟩
    · exact absurd (hsettled.past p hp hne) (Nat.not_le.mpr hlt)
    · exact List.forall_mem_singleton.mpr fun _ _ => rfl
  · refine .inl ⟨hsettled.delivered, ?_⟩
    show s.remoteBit = !!s.bit
    rw [Bool.not_not]
    exact hsettled.bit
  · -- no reply acknowledges a packet that is sent only now
    intro r hr hle
    have hack := (h.acknowledged r hr).2
    exact absurd (Nat.lt_of_lt_of_le h.high_lt (Nat.le_trans hle hack)) (Nat.lt_irrefl _)

theorem accept (h : Sound s) {p : Packet α} (hp : p ∈ s.packets) : Sound (s.accept p) := by
  unfold Protocol.accept
  split
  · rename_i hlt
    have hacknowledged : ∀ r ∈ s.replies, r.number ≤ r.acknowledge ∧ r.acknowledge ≤ p.number :=
      fun r hr => ⟨(h.acknowledged r hr).1, Nat.le_trans (h.acknowledged r hr).2 (Nat.le_of_lt hlt)⟩
    refine ⟨h.order, h.lt_next, h.lt_next p hp, hacknowledged, ?_⟩
    by_cases hitems : p.items = []
    · rw [if_pos hitems, hitems, List.append_nil]
      rcases h.phase with hs | hs
      · refine .inl { hs with past := fun p' hp' hne => ?_ }
        exact Nat.le_trans (hs.past p' hp' hne) (Nat.le_of_lt hlt)
      · refine .inr { hs with only := fun p' hp' hne hlt' => ?_, fate := hs.fate.imp_right ?_ }
        · exact hs.only p' hp' hne (Nat.lt_trans hlt hlt')
        · exact fun hfate => ⟨hfate.1, hfate.2.1, Nat.le_trans hfate.2.2 (Nat.le_of_lt hlt)⟩
    · rw [if_neg hitems]
      rcases h.phase with hs | hs
      · exact absurd (hs.past p hp hitems) (Nat.not_le.mpr hlt)
      · -- it is the packet that is not settled, and it has not been delivered before
        have heq := hs.only p hp hitems hlt
        have hnumber : s.number = p.number := by rw [heq]
        have hbatch : p.items = s.batch := by rw [heq]
        obtain ⟨hdelivered, hbit⟩ : s.delivered = s.freed ∧ s.remoteBit = !s.bit := by
          refine hs.fate.resolve_right fun hfate => ?_
          exact absurd (hnumber ▸ hfate.2.2) (Nat.not_le.mpr hlt)
        refine .inr ⟨hs.pos, hs.le_queue, ?_, ?_, ?_⟩
        · intro p' hp' hne hlt'
          exact hs.only p' hp' hne (Nat.lt_trans hlt hlt')
        · refine .inr ⟨?_, ?_, Nat.le_of_eq hnumber⟩
          · show s.delivered ++ p.items = s.freed ++ s.batch
            rw [hdelivered, hbatch]
          · show (!s.remoteBit) = s.bit
            rw [hbit, Bool.not_not]
        · -- what was acknowledged before is below its number
          intro r hr hle
          have hack := (h.acknowledged r hr).2
          rw [hnumber] at hle
          exact absurd (Nat.le_trans hle hack) (Nat.not_le.mpr hlt)
  · exact h

theorem reply (h : Sound s) {number : Nat} (hnumber : number ≤ s.high) :
    Sound (s.reply number) := by
  refine ⟨h.order, h.lt_next, h.high_lt, ?_, ?_⟩
  · refine List.forall_mem_append.mpr ⟨h.acknowledged, ?_⟩
    exact List.forall_mem_singleton.mpr ⟨hnumber, Nat.le_refl _⟩
  · rcases h.phase with hs | hs
    · exact .inl { hs with }
    · refine .inr { hs with answered := List.forall_mem_append.mpr ⟨hs.answered, ?_⟩ }
      exact List.forall_mem_singleton.mpr fun _ => rfl

theorem settle (h : Sound s) {r : Reply} (hr : r ∈ s.replies) : Sound (s.settle r) := by
  unfold Protocol.settle
  split
  · rename_i hanswered
    obtain ⟨hne, hle⟩ := hanswered
    obtain ⟨hacknowledge, hhigh⟩ := h.acknowledged r hr
    have hs : Outstanding s := h.phase.resolve_left fun hs => hne hs.outstanding
    have hbit : r.bit = s.remoteBit := hs.answered r hr (Nat.le_trans hle hacknowledge)
    have hreached : s.number ≤ s.high := Nat.le_trans hle (Nat.le_trans hacknowledge hhigh)
    -- the number was reached, so nothing that was sent can be delivered any more
    have hpast : ∀ p ∈ s.packets, p.items ≠ [] → p.number ≤ s.high := by
      intro p hp hitems
      by_contra hlt
      have heq := hs.only p hp hitems (Nat.not_le.mp hlt)
      rw [heq] at hlt
      exact hlt hreached
    split
    · rename_i hlost
      obtain ⟨hdelivered, hflipped⟩ : s.delivered = s.freed ∧ s.remoteBit = !s.bit :=
        hs.fate.resolve_right fun hfate => hlost (hbit.trans hfate.2.1).symm
      exact { h with phase := .inl ⟨rfl, hdelivered, hflipped, hpast⟩ }
    · rename_i hfound
      have hsame : s.bit = s.remoteBit := (not_not.mp hfound).trans hbit
      obtain ⟨hdelivered, -⟩ := hs.fate.resolve_left fun hfate => by
        rw [hsame] at hfate
        exact (Bool.eq_not_self _).mp hfate.2
      refine ⟨?_, h.lt_next, h.high_lt, h.acknowledged, .inl ⟨rfl, hdelivered, hsame.symm, hpast⟩⟩
      show s.appended = s.freed ++ s.queue.take s.outstanding ++ s.queue.drop s.outstanding
      rw [List.append_assoc, List.take_append_drop]
      exact h.order
  · exact h

theorem step {s' : Protocol α} {a : Action α} (h : Sound s) (hstep : s.step a = some s') :
    Sound s' := by
  cases a with
  | append x =>
    obtain rfl := Option.some.inj hstep
    exact h.append x
  | send k =>
    cases k with
    | zero =>
      obtain rfl := Option.some.inj hstep
      exact h.sendNone
    | succ k =>
      obtain ⟨⟨hs, hk⟩, hstep⟩ := Option.ite_none_right_eq_some.mp hstep
      obtain rfl := Option.some.inj hstep
      exact h.sendItems hs hk
  | accept n =>
    obtain ⟨p, hp, rfl⟩ := Option.map_eq_some_iff.mp hstep
    exact h.accept (List.mem_of_getElem? hp)
  | reply number =>
    obtain ⟨hnumber, hstep⟩ := Option.ite_none_right_eq_some.mp hstep
    obtain rfl := Option.some.inj hstep
    exact h.reply hnumber
  | settle n =>
    obtain ⟨r, hr, rfl⟩ := Option.map_eq_some_iff.mp hstep
    exact h.settle (List.mem_of_getElem? hr)

end Sound

theorem sound {s : Protocol α} (h : (system α).Reachable s) : Sound s := by
  have hinit : ∀ s, (system α).Init s → Sound s := by
    rintro s ⟨number, rfl⟩
    exact sound_initial number
  exact h.invariant hinit fun a s s' hs _ hstep => hs.step hstep

/-- Items are delivered in order and once, and freed only when they were delivered. -/
theorem delivered_of_reachable {s : Protocol α} (h : (system α).Reachable s) :
    s.freed <+: s.delivered ∧ s.delivered <+: s.appended ∧ s.appended = s.freed ++ s.queue := by
  have hs := sound h
  have hbatch : s.freed ++ s.batch <+: s.appended := by
    rw [hs.order]
    exact List.prefix_append_right_inj _ |>.mpr (List.take_prefix _ _)
  have hfreed : s.freed <+: s.appended := by
    rw [hs.order]
    exact List.prefix_append _ _
  -- what is not settled was delivered, or was not
  have hdelivered : s.delivered = s.freed ∨ s.delivered = s.freed ++ s.batch := by
    rcases hs.phase with hs | hs
    · exact .inl hs.delivered
    · exact hs.fate.imp And.left And.left
  rcases hdelivered with heq | heq
  · rw [heq]
    exact ⟨List.prefix_refl s.freed, hfreed, hs.order⟩
  · rw [heq]
    exact ⟨List.prefix_append _ _, hbatch, hs.order⟩

end AlternatingBit
