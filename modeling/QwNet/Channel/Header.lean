/-
  QwNet.Channel.Header

  What the header of a packet says about the client.

  The header is written when a packet is begun, and the packet leaves a while later.
  Nothing is received in between, so what it says of the packets received is still true
  then.
-/
import QwNet.Channel.Reliable

namespace QwNet

/-- What the network thread tells the server about itself. -/
structure HeaderView where
  current : BitVec 32
  last : BitVec 32
  xor : BitVec 32

def NetQW.headerView (q : NetQW) : HeaderView where
  current := q.currentOutgoingSequenceNumber
  last := q.lastIncomingSequenceNumber
  xor := q.outgoingReliableXor

/-- The sequence number, and the acknowledge number with its bit. -/
def HeaderView.bytes (v : HeaderView) : List Byte :=
  writeLong v.current ++ orAt (writeLong v.last) 3 (v.xor <<< 7 |>.setWidth 8)

/-- A packet says this of the client. -/
structure HeaderView.Says (v : HeaderView) (packet : List Byte) : Prop where
  long : 8 ≤ packet.length
  sequence : sequenceOf packet = v.current &&& 0x7fffffff#32
  acknowledge : acknowledgeOf packet = v.last &&& 0x7fffffff#32
  bit : acknowledgeBit packet = (v.last.msb || v.xor.getLsbD 0)

/-- The acknowledge word is read back from its bytes. -/
theorem acknowledge_bytes (v : HeaderView) (rest : List Byte) :
    acknowledgeOf (v.bytes ++ rest) = v.last &&& 0x7fffffff#32 ∧
      acknowledgeBit (v.bytes ++ rest) = (v.last.msb || v.xor.getLsbD 0) := by
  have hlow : ∀ i < 8, (0x7f#8).getLsbD i = decide (i < 7) := by decide
  have hzero : (v.xor <<< 7).setWidth 8 &&& 0x7f#8 = 0#8 := by
    apply BitVec.eq_of_getLsbD_eq
    intro i hi
    rw [BitVec.getLsbD_and, hlow i hi, BitVec.getLsbD_setWidth, BitVec.getLsbD_shiftLeft]
    by_cases h7 : i < 7
    · simp [h7]
    · simp [h7]
  have hmask : ∀ b : Byte, (b ||| (v.xor <<< 7).setWidth 8) &&& 0x7f#8 = b &&& 0x7f#8 := by
    intro b
    rw [BitVec.and_or_distrib_right, hzero, BitVec.or_zero]
  have hflag : ∀ b : Byte, decide (b &&& 0x80#8 ≠ 0#8) = b.getLsbD 7 := by decide
  refine ⟨?_, ?_⟩
  · rw [← number31_writeLong v.last []]
    have hbyte := hmask ((v.last >>> 24).setWidth 8)
    exact congrArg (fun b : Byte => b ++ (v.last >>> 16).setWidth 8 ++ (v.last >>> 8).setWidth 8
      ++ v.last.setWidth 8) hbyte
  · show decide (((v.last >>> 24).setWidth 8 ||| (v.xor <<< 7).setWidth 8) &&& 0x80#8 ≠ 0#8) = _
    rw [hflag, BitVec.getLsbD_or, BitVec.msb_eq_getLsbD_last, BitVec.getLsbD_setWidth,
      BitVec.getLsbD_setWidth, BitVec.getLsbD_ushiftRight, BitVec.getLsbD_shiftLeft]
    rfl

/-- Reliable commands and their flag leave the acknowledge word as it is. -/
theorem says_appendReliables (v : HeaderView) (q : NetQW) (rest : List Byte) :
    v.Says (q.appendReliables (v.bytes ++ rest)) := by
  have hsequence : sequenceOf (q.appendReliables (v.bytes ++ rest))
      = v.current &&& 0x7fffffff#32 := by
    rw [HeaderView.bytes, List.append_assoc]
    exact number31_appendReliables q v.current _
  have hlong : 8 ≤ (q.appendReliables (v.bytes ++ rest)).length := by
    unfold NetQW.appendReliables orAt
    dsimp only
    split
    · rw [List.length_set, List.append_assoc, List.length_append]
      exact Nat.le_add_right 8 _
    · rw [List.append_assoc, List.length_append]
      exact Nat.le_add_right 8 _
  have hsame : acknowledgeOf (q.appendReliables (v.bytes ++ rest))
        = acknowledgeOf (v.bytes ++ (rest ++ (q.reliables (v.bytes ++ rest).length).flatMap
          ReliableBuffer.data)) ∧
      acknowledgeBit (q.appendReliables (v.bytes ++ rest))
        = acknowledgeBit (v.bytes ++ (rest ++ (q.reliables (v.bytes ++ rest).length).flatMap
          ReliableBuffer.data)) := by
    unfold NetQW.appendReliables
    dsimp only
    rw [List.append_assoc]
    split
    · exact ⟨rfl, rfl⟩
    · exact ⟨rfl, rfl⟩
  obtain ⟨hacknowledge, hbit⟩ := acknowledge_bytes v (rest ++
    (q.reliables (v.bytes ++ rest).length).flatMap ReliableBuffer.data)
  exact ⟨hlong, hsequence, hsame.1.trans hacknowledge, hsame.2.trans hbit⟩

/-- The packet under construction begins with what is still true. -/
def SendPc.Headed (v : HeaderView) : SendPc → Prop
  | .delta buf | .tmove buf | .reliable buf => ∃ rest, buf = v.bytes ++ rest
  | .submit buf _ => v.Says buf
  | _ => True

def Client.Headed (c : Client) : Prop := c.pc.Headed c.netqw.headerView

namespace Client

variable {angle16 : BitVec 32 → BitVec 16} {a : Action} {c c' : Client}

/-- Nothing is received while the network thread is sending. -/
theorem inboxSilent_of_sending (h : step angle16 a c = some c') (hpc : c.pc ≠ .idle) :
    InboxSilent c.netqw c'.netqw := by
  rcases step_inbox_labels h with hsilent | ⟨env, source, datagram, data, rfl, -, -⟩ |
    ⟨curtime, rfl, -⟩
  · exact hsilent
  · exact absurd (outside_total (f := NetQW.receive env source datagram) h).1 hpc
  · exact absurd (outside_spec h).1 hpc

/-- So a header stays true until the number moves on. -/
theorem headerView_eq (h : step angle16 a c = some c') (hpc : c.pc ≠ .idle) :
    c'.netqw.headerView = c.netqw.headerView ∨ c'.pc = .loop := by
  have hsilent := inboxSilent_of_sending h hpc
  have hview : c'.netqw.currentOutgoingSequenceNumber = c.netqw.currentOutgoingSequenceNumber →
      c'.netqw.headerView = c.netqw.headerView := by
    intro hcurrent
    have hlast : c'.netqw.lastIncomingSequenceNumber = c.netqw.lastIncomingSequenceNumber :=
      congrArg InboxView.last hsilent.view
    have hxor : c'.netqw.outgoingReliableXor = c.netqw.outgoingReliableXor :=
      congrArg InboxView.xor hsilent.view
    unfold NetQW.headerView
    rw [hcurrent, hlast, hxor]
  cases step_reliable h with
  | silent hkeeps => exact .inl (hview (congrArg Reliability.current hkeeps.view))
  | append b happend => exact .inl (hview (congrArg Reliability.current happend))
  | handle data _ hidle => exact absurd hidle hpc
  | remember buf _ heq =>
    exact .inl (hview (by simp [heq]))
  | submit buf reliable _ _ hkeeps => exact .inl (hview (congrArg Reliability.current hkeeps.view))
  | finish _ heq => exact .inr (heq ▸ rfl)

theorem Headed.step (hn : c.Headed) (h : step angle16 a c = some c') : c'.Headed := by
  have hlonger : ∀ {q : NetQW} {buf : List Byte} {more : List Byte},
      q.headerView = c.netqw.headerView → (∃ rest, buf = c.netqw.headerView.bytes ++ rest) →
      ∃ rest, buf ++ more = q.headerView.bytes ++ rest := by
    rintro q buf more hview ⟨rest, rfl⟩
    exact ⟨rest ++ more, by rw [hview, List.append_assoc]⟩
  -- a step that leaves the network thread where it is
  have hstay : c'.pc = c.pc → c'.Headed := by
    intro hpc
    unfold Headed at hn ⊢
    rw [hpc]
    by_cases hidle : c.pc = .idle
    · rw [hidle]
      trivial
    · rcases headerView_eq h hidle with hview | hloop
      · rw [hview]
        exact hn
      · rw [← hpc, hloop]
        trivial
  have houtside : ∀ {f : NetQW → Option NetQW}, c.outside f = some c' → c'.Headed := by
    intro f hf
    obtain ⟨-, q, -, rfl⟩ := outside_spec hf
    trivial
  cases a
  case buildPacket =>
    obtain ⟨-, -, rfl⟩ := buildPacket_spec h
    exact ⟨_, List.append_assoc (c.netqw.headerView.bytes) _ _⟩
  case addDelta =>
    obtain ⟨buf, hpc, rfl⟩ := addDelta_spec h
    rw [Headed, hpc] at hn
    exact hlonger rfl hn
  case addTmove =>
    obtain ⟨buf, hpc, rfl⟩ := addTmove_spec h
    rw [Headed, hpc] at hn
    exact hlonger rfl hn
  case addReliables =>
    have hview := headerView_eq h
    obtain ⟨buf, hpc, rfl⟩ := addReliables_spec h
    rw [Headed, hpc] at hn
    obtain ⟨rest, rfl⟩ := hn
    rcases hview (by rw [hpc]; exact nofun) with hview | hloop
    · show HeaderView.Says (NetQW.headerView _) _
      rw [hview]
      exact says_appendReliables _ _ rest
    · exact nomatch hloop
  case generate curtime senttime fuel =>
    obtain ⟨q, -, rfl⟩ := Option.map_eq_some_iff.mp h
    exact hstay rfl
  case freePacket =>
    obtain ⟨q, -, rfl⟩ := Option.map_eq_some_iff.mp h
    exact hstay rfl
  case beginSend curtime stack =>
    obtain ⟨-, rfl⟩ := beginSend_spec h
    split
    · trivial
    · trivial
  case netGenerate curtime senttime fuel =>
    obtain ⟨-, q, -, rfl⟩ := netGenerate_spec h
    trivial
  case endSend =>
    obtain ⟨-, -, rfl⟩ := endSend_spec h
    trivial
  case submitPacket env =>
    obtain ⟨buf, reliable, -, rfl⟩ := submitPacket_spec h
    trivial
  case finishPacket =>
    obtain ⟨-, rfl⟩ := finishPacket_spec h
    trivial
  case clampDelays curtime => exact houtside (f := fun q => some (q.clampDelays curtime)) h
  case clampSends curtime => exact houtside (f := fun q => some (q.clampSends curtime)) h
  case receive env source datagram =>
    exact houtside (f := fun q => some (q.receive env source datagram)) h
  case handleDelayed curtime => exact houtside h
  case sendDelayed curtime => exact houtside h
  all_goals exact hstay (Option.some.inj h ▸ rfl)

theorem headed (h : (system angle16).Reachable c) : c.Headed := by
  have hinit : ∀ c, Init c → c.Headed := by
    rintro c ⟨garbage, qport, userinfo, addr, rfl⟩
    trivial
  exact h.invariant hinit fun a c c' hn _ hstep => hn.step hstep

end Client

end QwNet
