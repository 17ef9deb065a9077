/-
  QwNet.Channel.ConnectRequest

  The buffer of the connect request.

  `NetQW_Thread_DoSend` prints the request with two calls of `snprintf` and keeps the
  length it would have in an `unsigned int`.  The second call is given
  `sizeof(buf) - i` bytes behind `buf + i`, and the length is tested after it only: where
  the first line alone is longer than `buf`, the subtraction wraps.
-/
import QwNet.Channel.Handshake

namespace QwNet

/-- What `snprintf` returns for a text: its length, or -1 where that is not an `int`. -/
def snprintfResult (text : List Byte) : BitVec 32 :=
  if text.length < 2 ^ 31 then BitVec.ofNat 32 text.length else -1#32

namespace NetQW

/-- `i` and `buf` when the connect request was printed. -/
def printRequest (stack : Nat → Byte) (q : NetQW) : BitVec 32 × OutBuf :=
  let i := snprintfResult q.connectLine
  let buf := snprintfString ⟨stack, []⟩ 0 1500 q.connectLine
  if q.huffcontext.isSome then
    let room := 1500#64 - i.setWidth 64
    (i + snprintfResult q.huffmanLine, snprintfString buf i.toNat room.toNat q.huffmanLine)
  else (i, buf)

/-- The request is given to `Sys_Net_Send`, if it fits. -/
def sendRequest (i : BitVec 32) (buf : OutBuf) : List (List Byte) :=
  if i.toNat < 1500 then [(List.range i.toNat).map buf.mem] else []

/-- What the branch of `NetQW_Thread_DoSend` for a client that is not connected does: where it
    stores into `buf`, what it gives to `Sys_Net_Send`, and `netqw->resendtime`. -/
structure Resent where
  stores : List Nat
  sends : List (List Byte)
  resendtime : BitVec 64

/-- The branch. -/
def resendBranch (curtime : BitVec 64) (stack : Nat → Byte) (q : NetQW) : Resent :=
  if q.resendtime ≤ curtime then
    if q.state = .sendchallenge then ⟨[], [getchallenge], curtime + 3000000#64⟩
    else
      let r := q.printRequest stack
      ⟨r.2.stores, sendRequest r.1 r.2, curtime + 3000000#64⟩
  else ⟨[], [], q.resendtime⟩

/-- Connect requests are sent whole or not at all, and printing them stays inside `buf`. -/
structure SendsWhole (q : NetQW) (r : Resent) : Prop where
  inside : ∀ j ∈ r.stores, j < 1500
  whole : q.state ≠ .sendchallenge → ∀ data ∈ r.sends,
    data = q.connectLine ++ if q.huffcontext.isSome then q.huffmanLine else []

/-- A connect request is due that announces Huffman coding, and its first line has more
    characters than `buf`. -/
def Overruns (curtime : BitVec 64) (q : NetQW) : Prop :=
  q.resendtime ≤ curtime ∧ q.state ≠ .sendchallenge ∧ q.huffcontext.isSome ∧
    1500 < 20 + (decimal (q.qport.setWidth 32)).length + (decimal q.challenge).length
      + q.userinfo.length

instance (curtime : BitVec 64) (q : NetQW) : Decidable (q.Overruns curtime) :=
  inferInstanceAs (Decidable (_ ∧ _))

/-! ## Lengths -/

theorem length_connectLine (q : NetQW) : q.connectLine.length =
    20 + (decimal (q.qport.setWidth 32)).length + (decimal q.challenge).length
      + q.userinfo.length := by
  have hconnect : (ascii "connect 28 ").length = 11 := rfl
  have hspace : (ascii " ").length = 1 := rfl
  have hquote : (ascii " \"").length = 2 := rfl
  have hend : (ascii "\"\n").length = 2 := rfl
  simp only [connectLine, List.length_append, List.length_replicate, hconnect, hspace, hquote, hend]
  omega

theorem length_huffmanLine (q : NetQW) : q.huffmanLine.length = 22 := by
  have hhex : ∀ n, (hex8 n).length = 8 := fun n => by simp [hex8]
  have hfirst : (ascii "0x").length = 2 := rfl
  have hsecond : (ascii " 0x").length = 3 := rfl
  have hend : (ascii "\n").length = 1 := rfl
  simp only [huffmanLine, List.length_append, hhex, hfirst, hsecond, hend]

theorem toNat_snprintfResult (text : List Byte) : (snprintfResult text).toNat =
    if text.length < 2 ^ 31 then text.length else 2 ^ 32 - 1 := by
  rw [snprintfResult]
  split
  · rw [BitVec.toNat_ofNat, Nat.mod_eq_of_lt (by omega)]
  · rfl

/-- Up to 1500 characters, the size given to the second call is the room there is. -/
theorem toNat_room_of_le {i : BitVec 32} (hi : i.toNat ≤ 1500) :
    (1500#64 - i.setWidth 64).toNat = 1500 - i.toNat := by
  rw [BitVec.toNat_sub, BitVec.toNat_setWidth_of_le (by decide), BitVec.toNat_ofNat]
  omega

/-- Behind them it has wrapped. -/
theorem toNat_room_of_lt {i : BitVec 32} (hi : 1500 < i.toNat) :
    (1500#64 - i.setWidth 64).toNat ≠ 0 := by
  rw [BitVec.toNat_sub, BitVec.toNat_setWidth_of_le (by decide), BitVec.toNat_ofNat]
  omega

/-! ## The request as it is printed -/

section

variable {q : NetQW} {curtime : BitVec 64} (stack : Nat → Byte)

/-- The lengths of the request that the code and `connectRequest` compute are the same as far as
    the test of the length sees them. -/
theorem printRequest_eq (h : q.huffcontext.isSome → q.connectLine.length ≤ 1500) :
    (q.printRequest stack).2 = (q.connectRequest stack).2 ∧
      min (q.printRequest stack).1.toNat 1500 = min (q.connectRequest stack).1 1500 := by
  have hi := toNat_snprintfResult q.connectLine
  unfold printRequest connectRequest
  by_cases huff : q.huffcontext.isSome
  · have hfits := h huff
    rw [if_pos (by omega)] at hi
    have hmore := toNat_snprintfResult q.huffmanLine
    have hlength := q.length_huffmanLine
    rw [hlength, if_pos (by decide)] at hmore
    have hroom := toNat_room_of_le (hi.trans_le hfits)
    rw [if_pos huff, if_pos huff]
    dsimp only
    rw [hroom, hi, room_of_le hfits, BitVec.toNat_add, hi, hmore, hlength,
      Nat.mod_eq_of_lt (by omega)]
    exact ⟨rfl, rfl⟩
  · -- a length that is no `int` is too long on both sides
    rw [if_neg huff, if_neg huff]
    dsimp only
    refine ⟨rfl, ?_⟩
    rw [hi]
    split
    · rfl
    · omega

/-- So the same is sent. -/
theorem sendRequest_printRequest (h : q.huffcontext.isSome → q.connectLine.length ≤ 1500) :
    sendRequest (q.printRequest stack).1 (q.printRequest stack).2 =
      if (q.connectRequest stack).1 < 1500 then
        [(List.range (q.connectRequest stack).1).map (q.connectRequest stack).2.mem]
      else [] := by
  obtain ⟨hbuf, hlength⟩ := printRequest_eq stack h
  rw [sendRequest, hbuf]
  by_cases hshort : (q.connectRequest stack).1 < 1500
  · have heq : (q.printRequest stack).1.toNat = (q.connectRequest stack).1 := by omega
    rw [heq]
  · rw [if_neg hshort, if_neg (by omega)]

/-- While the first line is no longer than `buf`, printing stays inside. -/
theorem stores_connectRequest_lt (h : q.huffcontext.isSome → q.connectLine.length ≤ 1500) :
    ∀ j ∈ (q.connectRequest stack).2.stores, j < 1500 := by
  have hfirst := storesWithin_snprintfString ⟨stack, []⟩ q.connectLine (show 0 < 1500 by decide)
  rw [Nat.sub_zero] at hfirst
  have hall : (⟨stack, []⟩ : OutBuf).StoresWithin (q.connectRequest stack).2 0 (1500 - 1) := by
    unfold connectRequest
    by_cases huff : q.huffcontext.isSome
    · have hfits := h huff
      rw [if_pos huff]
      dsimp only
      rw [room_of_le hfits]
      rcases Nat.lt_or_eq_of_le hfits with hlt | heq
      · exact hfirst.trans (storesWithin_snprintfString _ _ hlt)
      · -- no room is left, and the second call stores nothing
        rw [heq, Nat.sub_self, snprintfString_zero]
        exact hfirst
    · rw [if_neg huff]
      exact hfirst
  obtain ⟨new, hstores, hnew⟩ := hall.stores
  intro j hj
  rw [hstores, List.nil_append] at hj
  have hle := (hnew j hj).2
  omega

/-- Where the first line is longer than `buf`, the second one is printed behind `buf`. -/
theorem exists_mem_stores_printRequest (huff : q.huffcontext.isSome)
    (hlong : 1500 < q.connectLine.length) :
    ∃ j ∈ (q.printRequest stack).2.stores, 1500 ≤ j := by
  have hi : 1500 < (snprintfResult q.connectLine).toNat := by
    rw [toNat_snprintfResult]
    split
    · exact hlong
    · decide
  rw [printRequest, if_pos huff]
  obtain ⟨j, hj, hdst⟩ := exists_mem_stores_snprintfString
    (snprintfString ⟨stack, []⟩ 0 1500 q.connectLine) (snprintfResult q.connectLine).toNat
    q.huffmanLine (toNat_room_of_lt hi)
  exact ⟨j, hj, by omega⟩

theorem length_le_of_not_overruns (h : ¬q.Overruns curtime) (hdue : q.resendtime ≤ curtime)
    (hasked : q.state ≠ .sendchallenge) :
    q.huffcontext.isSome → q.connectLine.length ≤ 1500 := by
  intro huff
  by_contra hlong
  rw [length_connectLine] at hlong
  exact h ⟨hdue, hasked, huff, Nat.lt_of_not_le hlong⟩

/-- A request that does not overrun `buf` is sent whole or not at all. -/
theorem sendsWhole_of_not_overruns (h : ¬q.Overruns curtime) :
    q.SendsWhole (q.resendBranch curtime stack) := by
  unfold resendBranch
  split
  · rename_i hdue
    split
    · rename_i hasking
      exact ⟨fun j hj => absurd hj List.not_mem_nil, fun hne => absurd hasking hne⟩
    · rename_i hasked
      have hfits := length_le_of_not_overruns h hdue hasked
      constructor
      case inside =>
        show ∀ j ∈ (q.printRequest stack).2.stores, j < 1500
        rw [(printRequest_eq stack hfits).1]
        exact stores_connectRequest_lt stack hfits
      case whole =>
        intro _ data hdata
        have hsent : data ∈ sendRequest (q.printRequest stack).1 (q.printRequest stack).2 := hdata
        rw [sendRequest_printRequest stack hfits] at hsent
        split at hsent
        · rename_i hshort
          rw [List.mem_singleton.mp hsent]
          exact connectRequest_eq hshort
        · exact absurd hsent List.not_mem_nil
  · -- nothing is due yet
    exact ⟨fun j hj => absurd hj List.not_mem_nil,
      fun _ data hdata => absurd hdata List.not_mem_nil⟩

/-- One that does overrun `buf` is not. -/
theorem not_sendsWhole_of_overruns (h : q.Overruns curtime) :
    ¬q.SendsWhole (q.resendBranch curtime stack) := by
  obtain ⟨hdue, hasked, huff, hlong⟩ := h
  rw [← length_connectLine] at hlong
  obtain ⟨j, hj, hout⟩ := exists_mem_stores_printRequest stack huff hlong
  intro hsends
  have hin := hsends.inside j (by rwa [resendBranch, if_pos hdue, if_neg hasked])
  omega

/-- Connect requests are sent whole or not at all, by code that stays inside `buf`, unless one is
    due that announces Huffman coding and whose first line is longer than `buf`. -/
theorem resendBranch_sendsWhole_iff (q : NetQW) (curtime : BitVec 64) (stack : Nat → Byte) :
    q.SendsWhole (q.resendBranch curtime stack) ↔ ¬q.Overruns curtime :=
  ⟨fun hsends hover => not_sendsWhole_of_overruns stack hover hsends,
    sendsWhole_of_not_overruns stack⟩

/-- A userinfo of 1500 characters. -/
def longUserinfo : List Byte := List.replicate 1500 0x61#8

/-- A client with this userinfo takes up a server's offer of Huffman coding; its request is then
    printed beyond `buf`. -/
theorem resendBranch_overruns : ∃ c, (Client.system fun _ => 0).Reachable c ∧
    c.netqw.userinfo = longUserinfo ∧ c.netqw.state = .sendconnection ∧
      ¬c.netqw.SendsWhole (c.netqw.resendBranch 0 fun _ => 0#8) := by
  let first : Client := ⟨(create default 0 longUserinfo).threadInit .loopback, .idle⟩
  have hinit : (Client.system fun _ => 0).Init first := ⟨default, 0, longUserinfo, .loopback, rfl⟩
  have heq : ((Client.system fun _ => 0).run [hearing huffmanDatagram] first).map (fun c =>
      (c.netqw.userinfo, c.netqw.state, decide (c.netqw.Overruns 0)))
        = some (longUserinfo, .sendconnection, true) := by decide +kernel
  obtain ⟨c, hrun, hc⟩ := Option.map_eq_some_iff.mp heq
  simp only [Prod.mk.injEq, decide_eq_true_eq] at hc
  exact ⟨c, Transitions.Reachable.run (.init hinit) hrun, hc.1, hc.2.1,
    not_sendsWhole_of_overruns _ hc.2.2⟩

theorem log_nil (q : NetQW) : q.log [] = q := by
  rw [log, List.append_nil]

/-- `resend` is what the branch does to the object where it does not overrun `buf`. -/
theorem resend_eq (h : ¬q.Overruns curtime) : q.resend curtime stack =
    (q.log ((q.resendBranch curtime stack).sends.map .netSend)).setResendtime
      (q.resendBranch curtime stack).resendtime := by
  unfold resend resendBranch
  by_cases hdue : q.resendtime ≤ curtime
  · rw [if_pos hdue, if_pos hdue]
    by_cases hasked : q.state = .sendchallenge
    · rw [if_pos hasked, if_pos hasked]
      rfl
    · have hfits := length_le_of_not_overruns h hdue hasked
      rw [if_neg hasked, if_neg hasked]
      dsimp only
      rw [sendRequest_printRequest stack hfits, sendConnectRequest]
      split
      · rfl
      · rw [List.map_nil, log_nil]
  · rw [if_neg hdue, if_neg hdue, List.map_nil, log_nil]
    rfl

end

end NetQW

end QwNet
