/-
  QwNet.Lib.StopAndWait

  A stream that is delivered one portion at a time, with one bit to acknowledge it.

  Both sides number their packets, and take only numbers above those they took before.
  The sender flips its bit when it begins a portion, and the receiver flips its own with
  every packet that has one; the receiver's packets carry the highest number it took,
  and its bit.  A portion is sent again once a packet after it was acknowledged with the
  wrong bit, and it is done with once the right bit comes.

  Here the parties count the portions, but look at the parity of what they are told only.
-/
import QwNet.Lib.Transition

namespace StopAndWait

variable {α : Type}

/-- A packet of the sender; `reliable` says that it has a portion. -/
structure Packet (α : Type) where
  number : Nat
  reliable : Bool
  portion : List α

/-- A packet of the receiver: its own number, that of the packet it acknowledges, and how many
    portions had been received. -/
structure Reply where
  number : Nat
  acknowledge : Nat
  count : Nat

/-- The two parties, what they ever sent, and the history of the stream. -/
structure Channel (α : Type) where
  /-- What was written and is in no portion yet. -/
  message : List α
  /-- The portion that is not acknowledged; none if it is empty. -/
  portion : List α
  count : Nat
  /-- The number behind that of the last packet with a portion. -/
  lastReliable : Nat
  next : Nat
  seen : Nat
  acknowledged : Nat
  acknowledgedCount : Nat
  packets : List (Packet α)
  high : Nat
  received : Nat
  replyNext : Nat
  replies : List Reply
  written : List α
  settled : List α
  delivered : List α

/-- What the parties and the channel do.  A packet is taken by its number in the list of those
    sent, as often and as late as the channel wants. -/
inductive Action (α : Type) where
  | write (xs : List α)
  | transmit
  | accept (n : Nat)
  | reply
  | process (n : Nat)

namespace Channel

def write (xs : List α) (s : Channel α) : Channel α :=
  { s with
    message := s.message ++ xs
    written := s.written ++ xs }

/-- A later packet was acknowledged, with the wrong bit. -/
def Lost (s : Channel α) : Prop :=
  s.lastReliable < s.acknowledged ∧ s.acknowledgedCount % 2 ≠ s.count % 2

/-- No portion is under way, and there is something to send. -/
def Ready (s : Channel α) : Prop := s.portion = [] ∧ s.message ≠ []

instance (s : Channel α) : Decidable s.Lost := inferInstanceAs (Decidable (_ ∧ _))

instance (s : Channel α) : Decidable s.Ready := inferInstanceAs (Decidable (_ ∧ _))

/-- What was written becomes the next portion. -/
def begin (s : Channel α) : Channel α :=
  { s with
    portion := s.message
    message := []
    count := s.count + 1 }

/-- A packet is sent, with the portion or without. -/
def send (reliable : Bool) (s : Channel α) : Channel α :=
  { s with
    next := s.next + 1
    lastReliable := if reliable then s.next + 1 else s.lastReliable
    packets := s.packets ++ [⟨s.next, reliable, if reliable then s.portion else []⟩] }

/-- The sender sends a packet. -/
def transmit (s : Channel α) : Channel α :=
  if s.Ready then s.begin.send true else s.send (decide s.Lost)

/-- The receiver takes a packet above all before. -/
def accept (p : Packet α) (s : Channel α) : Channel α :=
  if s.high < p.number then
    { s with
      high := p.number
      received := if p.reliable then s.received + 1 else s.received
      delivered := if p.reliable then s.delivered ++ p.portion else s.delivered }
  else s

def reply (s : Channel α) : Channel α :=
  { s with
    replyNext := s.replyNext + 1
    replies := s.replies ++ [⟨s.replyNext, s.high, s.received⟩] }

/-- The sender takes a packet above all before; the right bit settles the portion. -/
def process (r : Reply) (s : Channel α) : Channel α :=
  if s.seen < r.number then
    { s with
      seen := r.number
      acknowledged := r.acknowledge
      acknowledgedCount := r.count
      portion := if r.count % 2 = s.count % 2 then [] else s.portion
      settled := if r.count % 2 = s.count % 2 then s.settled ++ s.portion else s.settled }
  else s

/-- What an action does; `none` where it is not possible. -/
def step (a : Action α) (s : Channel α) : Option (Channel α) :=
  match a with
  | .write xs => some (s.write xs)
  | .transmit => some s.transmit
  | .accept n => s.packets[n]?.map fun p => s.accept p
  | .reply => some s.reply
  | .process n => s.replies[n]?.map fun r => s.process r

/-- Nothing was written, and nothing was sent. -/
def initial (next replyNext : Nat) : Channel α where
  message := []
  portion := []
  count := 0
  lastReliable := 0
  next := next
  seen := 0
  acknowledged := 0
  acknowledgedCount := 0
  packets := []
  high := 0
  received := 0
  replyNext := replyNext
  replies := []
  written := []
  settled := []
  delivered := []

/-- Sending is nothing to the receiver. -/
theorem transmit_eq (s : Channel α) : s.transmit = { s with
    message := s.transmit.message
    portion := s.transmit.portion
    count := s.transmit.count
    lastReliable := s.transmit.lastReliable
    next := s.next + 1
    packets := s.transmit.packets } := by
  unfold transmit
  split
  · rfl
  · rfl

/-- Nor is hearing of it. -/
theorem process_eq (s : Channel α) (r : Reply) : s.process r = { s with
    seen := (s.process r).seen
    acknowledged := (s.process r).acknowledged
    acknowledgedCount := (s.process r).acknowledgedCount
    portion := (s.process r).portion
    settled := (s.process r).settled } := by
  unfold process
  split
  · rfl
  · rfl

end Channel

/-- The channel as a system. -/
def system (α : Type) : Transitions (Channel α) (Action α) where
  Init s := ∃ next replyNext, s = .initial next replyNext
  step := Channel.step

/-! ## The invariant -/

/-- No portion is under way. -/
structure Settled (s : Channel α) : Prop where
  portion : s.portion = []
  received : s.received = s.count
  acknowledged : s.acknowledgedCount = s.count
  delivered : s.delivered = s.settled
  /-- No packet with a portion can be taken any more. -/
  past : ∀ p ∈ s.packets, p.reliable = true → p.number ≤ s.high

/-- A portion is under way. -/
structure Outstanding (s : Channel α) : Prop where
  portion : s.portion ≠ []
  acknowledged : s.acknowledgedCount + 1 = s.count
  /-- No packet with a portion can be taken but the last one. -/
  only : ∀ p ∈ s.packets, p.reliable = true → s.high < p.number →
    p.number + 1 = s.lastReliable ∧ p.portion = s.portion
  /-- It was not delivered, or it was. -/
  fate : s.received + 1 = s.count ∧ s.delivered = s.settled ∨
    s.received = s.count ∧ s.delivered = s.settled ++ s.portion ∧ s.lastReliable ≤ s.high + 1
  /-- Whoever acknowledges the last packet with the portion knows what became of it. -/
  answered : ∀ r ∈ s.replies, s.lastReliable ≤ r.acknowledge + 1 → r.count = s.received
  known : s.lastReliable ≤ s.acknowledged + 1 → s.acknowledgedCount = s.received

/-- What the numbers have to do with each other. -/
structure Consistent (s : Channel α) : Prop where
  order : s.written = s.settled ++ s.portion ++ s.message
  lt_next : ∀ p ∈ s.packets, p.number < s.next
  high_le : s.high ≤ s.next
  first : s.high = s.next → s.received = 0
  replies : ∀ r ∈ s.replies, r.number < s.replyNext ∧ r.acknowledge ≤ s.high ∧ r.count ≤ s.received
  /-- Later replies count no fewer portions. -/
  ordered : ∀ r ∈ s.replies, ∀ r' ∈ s.replies, r.number < r'.number → r.count ≤ r'.count
  counts : ∀ r ∈ s.replies, s.seen < r.number → s.acknowledgedCount ≤ r.count
  stored : s.acknowledged ≤ s.high ∧ s.acknowledgedCount ≤ s.received

/-- What holds after every step. -/
structure Sound (s : Channel α) : Prop extends Consistent s where
  phase : Settled s ∨ Outstanding s

theorem sound_initial (next replyNext : Nat) :
    Sound (Channel.initial next replyNext : Channel α) where
  order := rfl
  lt_next := nofun
  high_le := Nat.zero_le next
  first _ := rfl
  replies := nofun
  ordered := nofun
  counts := nofun
  stored := ⟨Nat.le_refl 0, Nat.le_refl 0⟩
  phase := .inl ⟨rfl, rfl, rfl, rfl, nofun⟩

/-! ## The sender sends -/

namespace Consistent

variable {s : Channel α}

theorem begin (h : Consistent s) (hportion : s.portion = []) : Consistent s.begin := by
  refine { h with order := ?_ }
  show s.written = s.settled ++ s.message ++ []
  rw [h.order, hportion, List.append_nil, List.append_nil]

theorem send (h : Consistent s) (reliable : Bool) : Consistent (s.send reliable) := by
  refine { h with lt_next := ?_, high_le := Nat.le_succ_of_le h.high_le, first := fun heq => ?_ }
  · refine List.forall_mem_append.mpr ⟨fun p hp => Nat.lt_succ_of_lt (h.lt_next p hp), ?_⟩
    exact List.forall_mem_singleton.mpr (Nat.lt_succ_self _)
  · exact absurd heq (Nat.ne_of_lt (Nat.lt_succ_of_le h.high_le))

/-- What was acknowledged so far is no news about a packet that is only sent now. -/
theorem count_eq_of_next_le (h : Consistent s) {r : Reply} (hr : r ∈ s.replies)
    (hle : s.next ≤ r.acknowledge) : r.count = s.received := by
  obtain ⟨-, hhigh, hcount⟩ := h.replies r hr
  have hzero : s.received = 0 := h.first (Nat.le_antisymm h.high_le (Nat.le_trans hle hhigh))
  omega

/-- The portion is sent, when no other packet with one can be taken any more. -/
theorem outstanding (h : Consistent s) (hportion : s.portion ≠ [])
    (hacknowledged : s.acknowledgedCount + 1 = s.count) (hreceived : s.received + 1 = s.count)
    (hdelivered : s.delivered = s.settled)
    (hpast : ∀ p ∈ s.packets, p.reliable = true → p.number ≤ s.high) :
    Outstanding (s.send true) := by
  refine ⟨hportion, hacknowledged, ?_, .inl ⟨hreceived, hdelivered⟩, ?_, ?_⟩
  · refine List.forall_mem_append.mpr ⟨fun p hp hreliable hlt => ?_, ?_⟩
    · exact absurd (hpast p hp hreliable) (Nat.not_le.mpr hlt)
    · exact List.forall_mem_singleton.mpr fun _ _ => ⟨rfl, rfl⟩
  · exact fun r hr hle => h.count_eq_of_next_le hr (Nat.le_of_succ_le_succ hle)
  · exact fun _ => Nat.succ.inj (hacknowledged.trans hreceived.symm)

end Consistent

namespace Sound

variable {s : Channel α}

theorem write (h : Sound s) (xs : List α) : Sound (s.write xs) := by
  refine { h with order := ?_, phase := ?_ }
  · show s.written ++ xs = s.settled ++ s.portion ++ (s.message ++ xs)
    rw [h.order, List.append_assoc]
  · exact h.phase.imp (fun hs => { hs with }) fun hs => { hs with }

/-- A packet without a portion. -/
theorem send_false (h : Sound s) : Sound (s.send false) := by
  refine { h.toConsistent.send false with phase := ?_ }
  rcases h.phase with hs | hs
  · refine .inl { hs with past := List.forall_mem_append.mpr ⟨hs.past, ?_⟩ }
    exact List.forall_mem_singleton.mpr nofun
  · refine .inr { hs with only := List.forall_mem_append.mpr ⟨hs.only, ?_⟩ }
    exact List.forall_mem_singleton.mpr nofun

/-- The next portion is sent for the first time. -/
theorem send_begin (h : Sound s) (hready : s.Ready) : Sound (s.begin.send true) := by
  obtain ⟨hportion, hmessage⟩ := hready
  have hs : Settled s := h.phase.resolve_right fun hs => hs.portion hportion
  have hbegin := h.toConsistent.begin hportion
  refine { hbegin.send true with phase := .inr ?_ }
  exact hbegin.outstanding hmessage (congrArg (· + 1) hs.acknowledged)
    (congrArg (· + 1) hs.received) hs.delivered hs.past

/-- The portion is sent again. -/
theorem send_lost (h : Sound s) (hlost : s.Lost) : Sound (s.send true) := by
  obtain ⟨hlast, hbit⟩ := hlost
  have hs : Outstanding s := h.phase.resolve_left fun hs => hbit (congrArg (· % 2) hs.acknowledged)
  have hcount := hs.acknowledged
  -- the receiver took a packet behind the last one with the portion, and has not got it
  have hknown : s.acknowledgedCount = s.received := hs.known (by omega)
  have hreceived : s.received + 1 = s.count := by omega
  have hdelivered : s.delivered = s.settled := by
    rcases hs.fate with hfate | hfate
    · exact hfate.2
    · omega
  have hpast : ∀ p ∈ s.packets, p.reliable = true → p.number ≤ s.high := by
    intro p hp hreliable
    by_contra hlt
    have hnumber := (hs.only p hp hreliable (Nat.not_le.mp hlt)).1
    have hstored := h.stored.1
    omega
  exact { h.toConsistent.send true with
    phase := .inr (h.outstanding hs.portion hcount hreceived hdelivered hpast) }

theorem transmit (h : Sound s) : Sound s.transmit := by
  unfold Channel.transmit
  split
  next hready => exact h.send_begin hready
  next =>
    by_cases hlost : s.Lost
    · rw [decide_eq_true hlost]
      exact h.send_lost hlost
    · rw [decide_eq_false hlost]
      exact h.send_false

/-! ## The receiver -/

/-- A packet above all before is taken: what was outstanding is, if it has the portion. -/
theorem accept (h : Sound s) {p : Packet α} (hp : p ∈ s.packets) : Sound (s.accept p) := by
  unfold Channel.accept
  split
  next hlt =>
    have hnext := h.lt_next p hp
    have hgrow : s.received ≤ if p.reliable then s.received + 1 else s.received := by
      split
      · exact Nat.le_succ _
      · exact Nat.le_refl _
    have hhigh : s.high ≤ p.number := Nat.le_of_lt hlt
    refine { h with
      high_le := Nat.le_of_lt hnext
      first := fun heq => absurd heq (Nat.ne_of_lt hnext)
      replies := fun r hr => ?_
      stored := ⟨Nat.le_trans h.stored.1 hhigh, Nat.le_trans h.stored.2 hgrow⟩
      phase := ?_ }
    · obtain ⟨hnumber, hack, hcount⟩ := h.replies r hr
      exact ⟨hnumber, Nat.le_trans hack hhigh, Nat.le_trans hcount hgrow⟩
    · cases hreliable : p.reliable with
      | false =>
        rcases h.phase with hs | hs
        · exact .inl { hs with past := fun p' hp' hr => Nat.le_trans (hs.past p' hp' hr) hhigh }
        · refine .inr { hs with only := fun p' hp' hr hlt' => ?_, fate := hs.fate.imp_right ?_ }
          · exact hs.only p' hp' hr (Nat.lt_trans hlt hlt')
          · exact fun hfate => ⟨hfate.1, hfate.2.1, Nat.le_trans hfate.2.2 (Nat.succ_le_succ hhigh)⟩
      | true =>
        rcases h.phase with hs | hs
        · exact absurd (hs.past p hp hreliable) (Nat.not_le.mpr hlt)
        · -- it is the last packet with the portion, and nobody has acknowledged it
          obtain ⟨hlast, hportion⟩ := hs.only p hp hreliable hlt
          obtain ⟨hreceived, hdelivered⟩ := hs.fate.resolve_right fun hfate => by omega
          have hnew : ∀ n, n ≤ s.high → ¬s.lastReliable ≤ n + 1 := by omega
          refine .inr { hs with
            only := ?_, fate := .inr ⟨hreceived, ?_, ?_⟩, answered := ?_, known := ?_ }
          · exact fun p' hp' hr hlt' => hs.only p' hp' hr (Nat.lt_trans hlt hlt')
          · show s.delivered ++ p.portion = s.settled ++ s.portion
            rw [hdelivered, hportion]
          · exact Nat.le_of_eq hlast.symm
          · exact fun r hr hle => absurd hle (hnew _ (h.replies r hr).2.1)
          · exact fun hle => absurd hle (hnew _ h.stored.1)
  next => exact h

/-- The receiver says how far it is. -/
theorem reply (h : Sound s) : Sound s.reply := by
  have hlt : ∀ r ∈ s.replies, r.number < s.replyNext := fun r hr => (h.replies r hr).1
  refine { h with
    replies := List.forall_mem_append.mpr ⟨fun r hr => ?_, List.forall_mem_singleton.mpr ?_⟩
    ordered := fun r hr r' hr' hless => ?_
    counts := List.forall_mem_append.mpr
      ⟨h.counts, List.forall_mem_singleton.mpr fun _ => h.stored.2⟩
    phase := ?_ }
  · obtain ⟨hnumber, hrest⟩ := h.replies r hr
    exact ⟨Nat.lt_succ_of_lt hnumber, hrest⟩
  · exact ⟨Nat.lt_succ_self _, Nat.le_refl _, Nat.le_refl _⟩
  · rcases List.mem_append.mp hr with hr | hr
    · rcases List.mem_append.mp hr' with hr' | hr'
      · exact h.ordered r hr r' hr' hless
      · rw [List.mem_singleton.mp hr']
        exact (h.replies r hr).2.2
    · -- the new one is the last
      rw [List.mem_singleton.mp hr] at hless
      rcases List.mem_append.mp hr' with hr' | hr'
      · exact absurd (hlt r' hr') (Nat.not_lt.mpr (Nat.le_of_lt hless))
      · rw [List.mem_singleton.mp hr'] at hless
        exact absurd hless (Nat.lt_irrefl _)
  · rcases h.phase with hs | hs
    · exact .inl { hs with }
    · refine .inr { hs with answered := List.forall_mem_append.mpr ⟨hs.answered, ?_⟩ }
      exact List.forall_mem_singleton.mpr fun _ => rfl

/-! ## The sender hears -/

/-- The bit tells whether the portion was received: the count is the sender's, or one less. -/
theorem process (h : Sound s) {r : Reply} (hr : r ∈ s.replies) : Sound (s.process r) := by
  unfold Channel.process
  split
  next hlt =>
    obtain ⟨-, hack, hcount⟩ := h.replies r hr
    have hcounts : ∀ r' ∈ s.replies, r.number < r'.number → r.count ≤ r'.count :=
      fun r' hr' => h.ordered r hr r' hr'
    have hknown := h.counts r hr hlt
    rcases h.phase with hs | hs
    · have heq : r.count = s.count := by
        have hreceived := hs.received
        have hacknowledged := hs.acknowledged
        omega
      have hsettled : s.settled ++ s.portion = s.settled := by
        rw [hs.portion, List.append_nil]
      rw [if_pos (congrArg (· % 2) heq), if_pos (congrArg (· % 2) heq), hsettled]
      refine { h with order := ?_, counts := hcounts, stored := ⟨hack, hcount⟩, phase := .inl ?_ }
      · show s.written = s.settled ++ [] ++ s.message
        rw [h.order, hs.portion]
      · exact { hs with portion := rfl, acknowledged := heq }
    · have hbefore := hs.acknowledged
      have hle : r.count ≤ s.count := by
        rcases hs.fate with hfate | hfate
        · omega
        · omega
      by_cases heq : r.count = s.count
      · -- the right bit: the portion was delivered
        rw [if_pos (congrArg (· % 2) heq), if_pos (congrArg (· % 2) heq)]
        obtain ⟨hreceived, hdelivered, hlast⟩ := hs.fate.resolve_left fun hfate => by omega
        have hpast : ∀ p ∈ s.packets, p.reliable = true → p.number ≤ s.high := by
          intro p hp hreliable
          by_contra hlt
          have hnumber := (hs.only p hp hreliable (Nat.not_le.mp hlt)).1
          omega
        refine { h with order := ?_, counts := hcounts, stored := ⟨hack, hcount⟩, phase := .inl ?_ }
        · show s.written = s.settled ++ s.portion ++ [] ++ s.message
          rw [h.order, List.append_nil]
        · exact ⟨rfl, hreceived, heq, hdelivered, hpast⟩
      · have hone : r.count + 1 = s.count := by omega
        have hbit : ¬r.count % 2 = s.count % 2 := by omega
        rw [if_neg hbit, if_neg hbit]
        refine { h with counts := hcounts, stored := ⟨hack, hcount⟩, phase := .inr ?_ }
        exact { hs with acknowledged := hone, known := hs.answered r hr }
  next => exact h

theorem step {s' : Channel α} {a : Action α} (h : Sound s) (hstep : s.step a = some s') :
    Sound s' := by
  cases a with
  | write xs =>
    obtain rfl := Option.some.inj hstep
    exact h.write xs
  | transmit =>
    obtain rfl := Option.some.inj hstep
    exact h.transmit
  | accept n =>
    obtain ⟨p, hp, rfl⟩ := Option.map_eq_some_iff.mp hstep
    exact h.accept (List.mem_of_getElem? hp)
  | reply =>
    obtain rfl := Option.some.inj hstep
    exact h.reply
  | process n =>
    obtain ⟨r, hr, rfl⟩ := Option.map_eq_some_iff.mp hstep
    exact h.process (List.mem_of_getElem? hr)

/-- What was settled was delivered, and what was delivered was written, in this order. -/
theorem delivered (h : Sound s) : s.settled <+: s.delivered ∧ s.delivered <+: s.written := by
  have hportion : s.settled ++ s.portion <+: s.written := by
    rw [h.order]
    exact List.prefix_append _ _
  have hsettled : s.settled <+: s.written := (List.prefix_append _ _).trans hportion
  have hdelivered : s.delivered = s.settled ∨ s.delivered = s.settled ++ s.portion := by
    rcases h.phase with hs | hs
    · exact .inl hs.delivered
    · exact hs.fate.imp And.right fun hfate => hfate.2.1
  rcases hdelivered with heq | heq
  · rw [heq]
    exact ⟨List.prefix_rfl, hsettled⟩
  · rw [heq]
    exact ⟨List.prefix_append _ _, hportion⟩

/-- The packets that were sent and are above all taken may still be taken, one after the other. -/
theorem take_all (h : Sound s) {ps : List (Packet α)} (hps : ∀ p ∈ ps, p ∈ s.packets)
    (hincreasing : (ps.map Packet.number).Pairwise (· < ·)) (habove : ∀ p ∈ ps, s.high < p.number) :
    s.delivered ++ ps.flatMap (fun p => if p.reliable then p.portion else []) <+: s.written := by
  induction ps generalizing s with
  | nil =>
    rw [List.flatMap_nil, List.append_nil]
    exact h.delivered.2
  | cons p ps ih =>
    obtain ⟨hp, hps⟩ := List.forall_mem_cons.mp hps
    obtain ⟨hlt, -⟩ := List.forall_mem_cons.mp habove
    obtain ⟨hless, hincreasing⟩ := List.pairwise_cons.mp hincreasing
    have haccept := h.accept hp
    unfold Channel.accept at haccept
    rw [if_pos hlt] at haccept
    have hrest := ih haccept hps hincreasing fun p' hp' => hless _ (List.mem_map_of_mem hp')
    have hdelivered : (if p.reliable then s.delivered ++ p.portion else s.delivered)
        = s.delivered ++ if p.reliable then p.portion else [] := by
      split
      · rfl
      · rw [List.append_nil]
    rw [List.flatMap_cons, ← List.append_assoc, ← hdelivered]
    exact hrest

end Sound

theorem sound {s : Channel α} (h : (system α).Reachable s) : Sound s := by
  have hinit : ∀ s, (system α).Init s → Sound s := by
    rintro s ⟨next, replyNext, rfl⟩
    exact sound_initial next replyNext
  exact h.invariant hinit fun a s s' hs _ hstep => hs.step hstep

end StopAndWait
