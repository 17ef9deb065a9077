/-
  QwNet.Channel.Handshake

  What a client and its server agree on.

  A machine that sees nothing but datagrams and their sources says what a client has
  accepted: the first well-formed challenge of the server, and its answer to the
  connect request that was made from it.  In every run the client is where this machine
  is, whatever the clock says and whenever it sends.
-/
import Mathlib.Data.List.Induction
import QwNet.Channel.Connect
import QwNet.Channel.Effects

namespace QwNet

open NetQW

/-! ## What is agreed on -/

/-- What a challenge says: its number, and the protocol extensions that are offered. -/
structure Challenge where
  number : BitVec 32
  extensions : List (BitVec 32 × BitVec 32)
  deriving DecidableEq

/-- `QW_PROTOEXT_HUFF`. -/
def protoextHuff : BitVec 32 := 0x46465548#32

/-- The extensions, eight bytes each. -/
def extensionRecords : List Byte → List (BitVec 32 × BitVec 32)
  | p₀ :: p₁ :: p₂ :: p₃ :: p₄ :: p₅ :: p₆ :: p₇ :: rest =>
    (p₃ ++ p₂ ++ p₁ ++ p₀, p₇ ++ p₆ ++ p₅ ++ p₄) :: extensionRecords rest
  | _ => []

namespace Challenge

/-- A datagram that is a challenge: a number of fewer than sixteen characters, and behind
    its end the extensions. -/
def ofDatagram (datagram : List Byte) : Option Challenge :=
  if datagram.take 5 = List.replicate 4 255#8 ++ [0x63#8] then
    let body := datagram.drop 5
    let text := body.takeWhile (· ≠ 0#8)
    if text.length < 16 then some ⟨atoi text, extensionRecords (body.drop (text.length + 1))⟩
    else none
  else none

/-- The checksums of the Huffman tables that are offered. -/
def offers (p : Challenge) : List (BitVec 32) :=
  (p.extensions.filter fun e => e.1 = protoextHuff).map Prod.snd

/-- The table that the client will use: the last one offered, if it knows it. -/
def huffman (p : Challenge) : Option (BitVec 32) := p.offers.getLast?.filter fun crc => (huffInit crc).isSome

/-- The connect request that answers the challenge. -/
def request (p : Challenge) (qport : BitVec 16) (userinfo : List Byte) : List Byte :=
  List.replicate 4 0xff#8 ++ ascii "connect 28 " ++ decimal (qport.setWidth 32) ++ ascii " "
    ++ decimal p.number ++ ascii " \"" ++ userinfo ++ ascii "\"\n" ++
    match p.huffman with
    | some crc => ascii "0x" ++ hex8 protoextHuff ++ ascii " 0x" ++ hex8 crc ++ ascii "\n"
    | none => []

end Challenge

/-- A datagram that accepts the connection. -/
def AcceptsConnection (datagram : List Byte) : Prop :=
  datagram.take 5 = List.replicate 4 255#8 ++ [0x6a#8]

instance (datagram : List Byte) : Decidable (AcceptsConnection datagram) :=
  inferInstanceAs (Decidable (_ = _))

/-- How far the handshake has come, and on which challenge it rests. -/
inductive Handshake where
  | asking
  | answering (p : Challenge)
  | agreed (p : Challenge)

namespace Handshake

/-- The state of the client. -/
def state : Handshake → ConnState
  | asking => .sendchallenge
  | answering _ => .sendconnection
  | agreed _ => .connected

/-- The challenge that was accepted. -/
def challenge? : Handshake → Option Challenge
  | asking => none
  | answering p => some p
  | agreed p => some p

/-- A datagram of the server arrives. -/
def hear (datagram : List Byte) : Handshake → Handshake
  | asking =>
    match Challenge.ofDatagram datagram with
    | some p => answering p
    | none => asking
  | answering p => if AcceptsConnection datagram then agreed p else answering p
  | agreed p => agreed p

/-- What a step means for the handshake with the server at `addr`. -/
def next (addr : NetAddr) (a : Action) (s : Handshake) : Handshake :=
  match a with
  | .receive _ source datagram => if source = addr then s.hear datagram else s
  | _ => s

/-- The handshake after the steps `as`. -/
def after (addr : NetAddr) (as : List Action) : Handshake := as.foldl (fun s a => s.next addr a) asking

/-- The reliable commands that the client has appended by itself. -/
def commands : Handshake → List ReliableBuffer
  | agreed _ => [newCommand]
  | _ => []

theorem after_concat (addr : NetAddr) (as : List Action) (a : Action) :
    after addr (as ++ [a]) = (after addr as).next addr a := List.foldl_concat ..

/-- The handshake goes on one step at a time, or stays. -/
theorem hear_forward (datagram : List Byte) (s : Handshake) : s.hear datagram = s ∨
    (s = asking ∧ ∃ p, Challenge.ofDatagram datagram = some p ∧ s.hear datagram = answering p) ∨
    ∃ p, s = answering p ∧ s.hear datagram = agreed p := by
  cases s with
  | asking =>
    rcases hp : Challenge.ofDatagram datagram with _ | p
    · exact .inl (by rw [hear, hp])
    · exact .inr (.inl ⟨rfl, p, rfl, by rw [hear, hp]⟩)
  | answering p =>
    by_cases hd : AcceptsConnection datagram
    · exact .inr (.inr ⟨p, rfl, if_pos hd⟩)
    · exact .inl (if_neg hd)
  | agreed p => exact .inl rfl

theorem next_forward (addr : NetAddr) (a : Action) (s : Handshake) : s.next addr a = s ∨
    (s = asking ∧ ∃ p, s.next addr a = answering p) ∨
    ∃ p, s = answering p ∧ s.next addr a = agreed p := by
  unfold next
  split
  · split
    · rcases hear_forward _ s with heq | ⟨hs, p, -, heq⟩ | ⟨p, hs, heq⟩
      · exact .inl heq
      · exact .inr (.inl ⟨hs, p, heq⟩)
      · exact .inr (.inr ⟨p, hs, heq⟩)
    · exact .inl rfl
  · exact .inl rfl

/-- The challenge came with a datagram of the server, the first one that is a challenge. -/
theorem exists_challenge {addr : NetAddr} {as : List Action} {p : Challenge}
    (h : (after addr as).challenge? = some p) : ∃ pre env datagram rest,
      as = pre ++ .receive env addr datagram :: rest ∧ after addr pre = asking ∧
        Challenge.ofDatagram datagram = some p := by
  -- from the last action back: only a challenge heard while asking sets the one that is held
  induction as using List.reverseRecOn with
  | nil => exact nomatch h
  | append_singleton as a ih =>
    have hbefore : (after addr as).challenge? = some p → ∃ pre env datagram rest,
        as ++ [a] = pre ++ .receive env addr datagram :: rest ∧ after addr pre = asking ∧
          Challenge.ofDatagram datagram = some p := by
      intro hp
      obtain ⟨pre, env, datagram, rest, rfl, hpre, hd⟩ := ih hp
      exact ⟨pre, env, datagram, rest ++ [a], by rw [List.append_assoc]; rfl, hpre, hd⟩
    rw [after_concat] at h
    unfold next at h
    split at h
    · rename_i env source datagram
      split at h
      · rename_i hsource
        rcases hear_forward datagram (after addr as) with heq | ⟨hasking, p', hp', heq⟩ |
          ⟨p', hanswering, heq⟩
        · rw [heq] at h
          exact hbefore h
        · rw [heq] at h
          obtain rfl := Option.some.inj h
          exact ⟨as, env, datagram, [], by rw [hsource], hasking, hp'⟩
        · rw [heq] at h
          exact hbefore (by rw [hanswering]; exact h)
      · exact hbefore h
    · exact hbefore h

end Handshake

/-! ## Datagrams in front of the connection -/

section

variable {q : NetQW} {stack : Nat → Byte} {datagram : List Byte}

/-- A datagram and what is on the stack behind it. -/
def arrived (stack : Nat → Byte) (datagram : List Byte) (i : Nat) : Byte :=
  if i < datagram.length then datagram.getD i 0 else stack i

/-- Only in `state_connected` a datagram is decompressed. -/
theorem receiveBuf_eq (h : q.state ≠ .connected) :
    q.receiveBuf stack datagram = (datagram.length, arrived stack datagram) := by
  unfold receiveBuf
  split
  · exact absurd ‹_› h
  · rfl

theorem connectionless_iff (b : Byte) :
    Connectionless datagram.length (arrived stack datagram) ∧ arrived stack datagram 4 = b ↔
      datagram.take 5 = List.replicate 4 255#8 ++ [b] := by
  -- the header is compared only when five bytes have arrived
  by_cases hlength : 5 ≤ datagram.length
  · have hget : ∀ i < 5, arrived stack datagram i = datagram.getD i 0 := fun i hi => if_pos (by omega)
    have htake : datagram.take 5 = (List.range 5).map fun i => datagram.getD i 0 := by
      apply List.ext_getElem
      · rw [List.length_take_of_le hlength, List.length_map, List.length_range]
      · intro i hi hi'
        rw [List.getElem_take, ← List.getD_eq_getElem datagram 0, List.getElem_map,
          List.getElem_range]
    have hfive : ((List.range 5).map fun i => datagram.getD i 0) = [datagram.getD 0 0,
        datagram.getD 1 0, datagram.getD 2 0, datagram.getD 3 0, datagram.getD 4 0] := rfl
    rw [htake, hfive, Connectionless, hget 0 (by decide), hget 1 (by decide), hget 2 (by decide),
      hget 3 (by decide), hget 4 (by decide)]
    constructor
    · rintro ⟨⟨-, h₀, h₁, h₂, h₃⟩, h₄⟩
      rw [h₀, h₁, h₂, h₃, h₄]
      rfl
    · intro h
      obtain ⟨h₀, h⟩ := List.cons.inj h
      obtain ⟨h₁, h⟩ := List.cons.inj h
      obtain ⟨h₂, h⟩ := List.cons.inj h
      obtain ⟨h₃, h⟩ := List.cons.inj h
      exact ⟨⟨hlength, h₀, h₁, h₂, h₃⟩, (List.cons.inj h).1⟩
  · refine iff_of_false (fun h => hlength h.1.1) fun h => hlength ?_
    have htake := congrArg List.length h
    rw [List.length_take] at htake
    have hfive : (List.replicate 4 255#8 ++ [b]).length = 5 := rfl
    omega

/-- What the datagram has behind its first five bytes. -/
theorem map_arrived (h : 5 ≤ datagram.length) :
    ((List.range (datagram.length - 5)).map fun k => arrived stack datagram (5 + k))
      = datagram.drop 5 := by
  apply List.ext_getElem
  · rw [List.length_map, List.length_range, List.length_drop]
  · intro k hk hk'
    rw [List.length_drop] at hk'
    rw [List.getElem_map, List.getElem_range, List.getElem_drop, arrived, if_pos (by omega)]
    exact List.getD_eq_getElem ..

end

/-! ## The extensions -/

theorem noteExtensions_eq (data : List Byte) (q : NetQW) :
    noteExtensions data q = (extensionRecords data).foldl (fun q e => q.noteExtension e.1 e.2) q := by
  fun_induction noteExtensions data q with
  | case1 p₀ p₁ p₂ p₃ p₄ p₅ p₆ p₇ rest q ih => rw [ih, extensionRecords, List.foldl_cons]
  | case2 data q h =>
    unfold extensionRecords
    split
    · exact absurd rfl (h _ _ _ _ _ _ _ _ _)
    · rfl

/-- Extensions concern Huffman coding only. -/
theorem noteExtensions_only (data : List Byte) (q : NetQW) :
    ∃ ht crc, noteExtensions data q = { q with huffcontext := ht, huffcrc := crc } := by
  -- one record writes the context and its checksum, and the loop only repeats that
  have hone : ∀ (q : NetQW) extension value,
      ∃ ht crc, q.noteExtension extension value = { q with huffcontext := ht, huffcrc := crc } := by
    intro q extension value
    unfold noteExtension
    split
    · split
      · exact ⟨_, _, rfl⟩
      · exact ⟨_, q.huffcrc, rfl⟩
    · exact ⟨q.huffcontext, q.huffcrc, rfl⟩
  rw [noteExtensions_eq]
  induction extensionRecords data using List.reverseRecOn with
  | nil => exact ⟨q.huffcontext, q.huffcrc, rfl⟩
  | append_singleton es e ih =>
    obtain ⟨ht, crc, heq⟩ := ih
    obtain ⟨ht', crc', heq'⟩ := hone { q with huffcontext := ht, huffcrc := crc } e.1 e.2
    refine ⟨ht', crc', ?_⟩
    rw [List.foldl_concat, heq, heq']

/-- The Huffman table and its checksum after some offers. -/
structure Offered (offers : List (BitVec 32)) (q q' : NetQW) : Prop where
  none : offers = [] → q'.huffcontext = q.huffcontext
  last : ∀ crc, offers.getLast? = some crc → q'.huffcontext = huffInit crc ∧
    ((huffInit crc).isSome → q'.huffcrc = crc)

theorem offered_foldl (es : List (BitVec 32 × BitVec 32)) (q : NetQW) :
    Offered (Challenge.offers ⟨0, es⟩) q (es.foldl (fun q e => q.noteExtension e.1 e.2) q) := by
  -- over the records read so far: the last one to offer compression decides
  induction es using List.reverseRecOn with
  | nil => exact ⟨fun _ => rfl, nofun⟩
  | append_singleton es e ih =>
    rw [List.foldl_concat]
    generalize es.foldl (fun q e => q.noteExtension e.1 e.2) q = q₁ at ih
    have hoffers : Challenge.offers ⟨0, es ++ [e]⟩
        = Challenge.offers ⟨0, es⟩ ++ if e.1 = protoextHuff then [e.2] else [] := by
      rw [Challenge.offers, Challenge.offers, List.filter_append, List.map_append]
      congr 1
      by_cases he : e.1 = protoextHuff
      · have hself : [e].filter (fun e => e.1 = protoextHuff) = [e] :=
          List.filter_eq_self.mpr (List.forall_mem_singleton.mpr (decide_eq_true he))
        rw [if_pos he, hself]
        rfl
      · rw [if_neg he, List.filter_cons_of_neg (by rwa [decide_eq_true_eq])]
        rfl
    rw [hoffers]
    by_cases he : e.1 = protoextHuff
    · rw [if_pos he]
      refine ⟨fun h => absurd h (by simp), fun crc hcrc => ?_⟩
      rw [List.getLast?_concat] at hcrc
      obtain rfl := Option.some.inj hcrc
      unfold noteExtension
      rw [if_pos (show e.1 = 0x46465548#32 from he)]
      -- an unknown checksum drops the context that an earlier record may have set
      rcases huffInit e.2 with _ | ht
      · exact ⟨rfl, nofun⟩
      · exact ⟨rfl, fun _ => rfl⟩
    · rw [if_neg he, List.append_nil, noteExtension, if_neg (show ¬e.1 = 0x46465548#32 from he)]
      exact ih

/-! ## The connect request -/

/-- What `snprintf` stores, when there is room for all of it. -/
theorem mem_snprintfString {buf : OutBuf} {dst size : Nat} {s : List Byte} (h : s.length < size)
    (j : Nat) : (snprintfString buf dst size s).mem j =
      if dst ≤ j ∧ j < dst + s.length then s.getD (j - dst) 0
      else if j = dst + s.length then 0 else buf.mem j := by
  have hmin : min s.length (size - 1) = s.length := by omega
  rw [snprintfString, if_neg (by omega), hmin, OutBuf.store_mem]
  by_cases hj : j = dst + s.length
  · rw [if_neg (by omega), if_pos hj, hj]
    exact Function.update_self ..
  · rw [Function.update_of_ne hj, OutBuf.memcpy_mem, if_neg hj]

/-- The room behind a line that is no longer than the buffer. -/
theorem room_of_le {n : Nat} (h : n ≤ 1500) : (1500 + 2 ^ 64 - n) % 2 ^ 64 = 1500 - n := by
  omega

/-- The request that is sent consists of its lines. -/
theorem connectRequest_eq {stack : Nat → Byte} {q : NetQW}
    (h : (q.connectRequest stack).1 < 1500) :
    (List.range (q.connectRequest stack).1).map (q.connectRequest stack).2.mem
      = q.connectLine ++ if q.huffcontext.isSome then q.huffmanLine else [] := by
  unfold connectRequest at h ⊢
  dsimp only at h ⊢
  split at h
  · rename_i huff
    have h' : q.connectLine.length + q.huffmanLine.length < 1500 := h
    rw [if_pos huff, if_pos huff]
    -- the second line is printed with what room the first one has left
    have hroom := room_of_le (show q.connectLine.length ≤ 1500 by omega)
    apply List.ext_getElem
    · rw [List.length_map, List.length_range, List.length_append]
    · intro k hk hk'
      rw [List.length_append] at hk'
      rw [List.getElem_map, List.getElem_range, hroom, mem_snprintfString (by omega)]
      -- in front of the end of the first line the second print has written nothing
      by_cases hline : k < q.connectLine.length
      · rw [if_neg (by omega), if_neg (by omega), mem_snprintfString (by omega), if_pos (by omega),
          List.getElem_append_left hline, Nat.sub_zero]
        exact List.getD_eq_getElem ..
      · rw [if_pos (by omega), List.getElem_append_right (by omega)]
        exact List.getD_eq_getElem ..
  · rename_i huff
    have h' : q.connectLine.length < 1500 := h
    rw [if_neg huff, if_neg huff, List.append_nil]
    apply List.ext_getElem
    · rw [List.length_map, List.length_range]
    · intro k hk hk'
      rw [List.getElem_map, List.getElem_range, mem_snprintfString (by omega), if_pos (by omega)]
      exact List.getD_eq_getElem ..

/-! ## What a client holds -/

/-- The object holds what was agreed on. -/
structure Holding (p : Challenge) (q : NetQW) : Prop where
  number : q.challenge = p.number
  context : q.huffcontext = p.huffman.bind huffInit
  crc : ∀ crc, p.huffman = some crc → q.huffcrc = crc

/-- A datagram in `state_sendchallenge`, by what it says. -/
theorem receiveChallenge_cases (q : NetQW) (stack : Nat → Byte) (datagram : List Byte) :
    (Challenge.ofDatagram datagram = none ∧
      q.receiveChallenge datagram.length (arrived stack datagram) = q) ∨
    ∃ text data, Challenge.ofDatagram datagram = some ⟨atoi text, extensionRecords data⟩ ∧
      q.receiveChallenge datagram.length (arrived stack datagram)
        = (noteExtensions data (q.setChallenge (atoi text))).enterSendconnection := by
  unfold Challenge.ofDatagram receiveChallenge
  -- model and code test the same five bytes, each in its own terms
  by_cases hhead : datagram.take 5 = List.replicate 4 255#8 ++ [0x63#8]
  · have hless : Connectionless datagram.length (arrived stack datagram) ∧
        arrived stack datagram 4 = 0x63#8 := (connectionless_iff _).mpr hhead
    rw [if_pos hhead, if_pos hless]
    dsimp only
    rw [map_arrived hless.1.1]
    split
    · exact .inr ⟨_, _, rfl, rfl⟩
    · exact .inl ⟨rfl, rfl⟩
  · rw [if_neg hhead, if_neg fun h => hhead ((connectionless_iff _).mp h)]
    exact .inl ⟨rfl, rfl⟩

/-- The client holds the challenge that it has accepted. -/
theorem holding_noteExtensions {q : NetQW} (hnone : q.huffcontext = none) (number : BitVec 32)
    (data : List Byte) : Holding ⟨number, extensionRecords data⟩
      (noteExtensions data (q.setChallenge number)).enterSendconnection := by
  -- the challenge's number is read first, and no extension changes it
  have hoffered : Offered (Challenge.offers ⟨number, extensionRecords data⟩) (q.setChallenge number)
      (noteExtensions data (q.setChallenge number)) := by
    rw [noteExtensions_eq]
    exact offered_foldl _ _
  have hnumber : (noteExtensions data (q.setChallenge number)).challenge = number := by
    obtain ⟨ht, crc, heq⟩ := noteExtensions_only data (q.setChallenge number)
    rw [heq]
    rfl
  refine ⟨hnumber, ?_, fun crc hcrc => ?_⟩
  · show (noteExtensions data (q.setChallenge number)).huffcontext = _
    unfold Challenge.huffman
    rcases hlast : (Challenge.offers ⟨number, extensionRecords data⟩).getLast? with _ | crc
    · rw [hoffered.none (List.getLast?_eq_none_iff.mp hlast)]
      exact hnone
    · rw [(hoffered.last crc hlast).1]
      rcases hht : huffInit crc with _ | ht
      · rw [Option.filter_some_neg]
        · rfl
        · rw [hht]
          rfl
      · rw [Option.filter_some_pos]
        · exact hht.symm
        · rw [hht]
          rfl
  · obtain ⟨hlast, hknown⟩ := Option.filter_eq_some_iff.mp hcrc
    exact (hoffered.last crc hlast).2 hknown

theorem Challenge.mem_offers_of_huffman {p : Challenge} {crc : BitVec 32}
    (h : p.huffman = some crc) : crc ∈ p.offers ∧ (huffInit crc).isSome := by
  obtain ⟨hlast, hknown⟩ := Option.filter_eq_some_iff.mp h
  exact ⟨List.mem_of_getLast? hlast, hknown⟩

/-- The client will use Huffman coding if and only if its request announces it. -/
theorem Holding.announces {p : Challenge} {q : NetQW} (h : Holding p q) :
    q.huffcontext.isSome ↔ p.huffman.isSome := by
  rw [h.context]
  rcases hcrc : p.huffman with _ | crc
  · exact Iff.rfl
  · exact iff_of_true (Challenge.mem_offers_of_huffman hcrc).2 rfl

/-- The request of a client that holds a challenge is the one that answers it. -/
theorem Holding.request {p : Challenge} {q : NetQW} (h : Holding p q) :
    (q.connectLine ++ if q.huffcontext.isSome then q.huffmanLine else [])
      = p.request q.qport q.userinfo := by
  rw [connectLine, h.number, h.context, Challenge.request]
  rcases hcrc : p.huffman with _ | crc
  · rfl
  · have hknown : (huffInit crc).isSome := (Option.filter_eq_some_iff.mp hcrc).2
    rw [Option.bind_some, if_pos hknown, huffmanLine, h.crc crc hcrc]
    rfl

/-! ## Where a client is -/

/-- The buffer that an event appends. -/
def NetEvent.appended? : NetEvent → Option ReliableBuffer
  | .append buffer => some buffer
  | _ => none

/-- The reliable buffers that were appended, oldest first. -/
def appended (trace : List NetEvent) : List ReliableBuffer := trace.filterMap NetEvent.appended?

/-- What a client may do to the world while the handshake is at `s`. -/
def Handshake.Allows (s : Handshake) (q : NetQW) : NetEvent → Prop
  | .netSend data =>
    match s with
    | asking => data = getchallenge
    | answering p => data = p.request q.qport q.userinfo
    | agreed _ => True
  | .sendPacket _ _ => s.state = .connected
  | _ => True

/-- What the handshake reads. -/
structure HandshakeView where
  state : ConnState
  challenge : BitVec 32
  huffcontext : Option HuffTables
  huffcrc : BitVec 32
  addr : NetAddr
  qport : BitVec 16
  userinfo : List Byte

def NetQW.handshakeView (q : NetQW) : HandshakeView where
  state := q.state
  challenge := q.challenge
  huffcontext := q.huffcontext
  huffcrc := q.huffcrc
  addr := q.addr
  qport := q.qport
  userinfo := q.userinfo

/-- The client that began as `q₀` is where the handshake is. -/
structure Follows (q₀ : NetQW) (s : Handshake) (c : Client) : Prop where
  state : c.netqw.state = s.state
  fresh : s = .asking → c.netqw.huffcontext = none
  holding : ∀ p, s.challenge? = some p → Holding p c.netqw
  addr : c.netqw.addr = q₀.addr
  commands : appended c.netqw.trace = s.commands
  /-- The network thread sends no packets, and none are waiting. -/
  quiet : s.state ≠ .connected → c.pc = .idle ∧ c.netqw.sendQueue = []

/-- From `q` to `q'` only what is allowed happens, and what was agreed on stays. -/
structure Proceeds (s : Handshake) (q q' : NetQW) : Prop where
  events : ∃ es, q'.trace = q.trace ++ es ∧ ∀ e ∈ es, s.Allows q e
  frozen : s ≠ .asking →
    q'.challenge = q.challenge ∧ q'.huffcontext = q.huffcontext ∧ q'.huffcrc = q.huffcrc

theorem frozen_of_view {q q' : NetQW} (h : q'.handshakeView = q.handshakeView) :
    q'.challenge = q.challenge ∧ q'.huffcontext = q.huffcontext ∧ q'.huffcrc = q.huffcrc :=
  ⟨congrArg HandshakeView.challenge h, congrArg HandshakeView.huffcontext h,
    congrArg HandshakeView.huffcrc h⟩

/-- The event concerns neither the network nor the reliable queue's growth. -/
def NetEvent.offHandshake : NetEvent → Prop
  | .netSend _ | .sendPacket _ _ | .append _ => False
  | _ => True

/-- From `q` to `q'` nothing happens that the handshake, or a packet that waits, notices. -/
abbrev HandshakeSilent (q q' : NetQW) : Prop :=
  Keeps (fun q => (q.handshakeView, q.sendQueue)) NetEvent.offHandshake q q'

section

variable {q₀ : NetQW} {s : Handshake} {c c' : Client}

theorem Follows.congr (h : Follows q₀ s c) (hview : c'.netqw.handshakeView = c.netqw.handshakeView)
    (happended : appended c'.netqw.trace = appended c.netqw.trace)
    (hquiet : s.state ≠ .connected → c'.pc = .idle ∧ c'.netqw.sendQueue = []) :
    Follows q₀ s c' where
  state := (congrArg HandshakeView.state hview).trans h.state
  fresh hs := (congrArg HandshakeView.huffcontext hview).trans (h.fresh hs)
  holding p hp := by
    have hp := h.holding p hp
    exact ⟨(congrArg HandshakeView.challenge hview).trans hp.number,
      (congrArg HandshakeView.huffcontext hview).trans hp.context,
      fun crc hcrc => (congrArg HandshakeView.huffcrc hview).trans (hp.crc crc hcrc)⟩
  addr := (congrArg HandshakeView.addr hview).trans h.addr
  commands := happended.trans h.commands
  quiet := hquiet

/-- A step that leaves alone what the handshake reads, and the packets that wait. -/
theorem Follows.silent (h : Follows q₀ s c)
    (hkeeps : HandshakeSilent c.netqw c'.netqw)
    (hpc : c.pc = .idle → c'.pc = .idle) :
    Follows q₀ s c' ∧ Proceeds s c.netqw c'.netqw := by
  obtain ⟨es, htrace, hall⟩ := hkeeps.trace
  refine ⟨h.congr (congrArg Prod.fst hkeeps.view) ?_ fun hs => ?_,
    ⟨es, htrace, fun e he => ?_⟩, fun _ => frozen_of_view (congrArg Prod.fst hkeeps.view)⟩
  · refine hkeeps.filterMap fun e he => ?_
    cases e <;> first | rfl | exact he.elim
  · obtain ⟨hidle, hqueue⟩ := h.quiet hs
    exact ⟨hpc hidle, (congrArg Prod.snd hkeeps.view).trans hqueue⟩
  · have hoff := hall e he
    cases e
    case netSend => exact hoff.elim
    case sendPacket => exact hoff.elim
    all_goals trivial

/-- A step of a connected client that may send. -/
theorem Follows.sending (h : Follows q₀ s c) (hs : s.state = .connected)
    (hkeeps : Keeps handshakeView (fun e => e.appended? = none) c.netqw c'.netqw) :
    Follows q₀ s c' ∧ Proceeds s c.netqw c'.netqw := by
  obtain ⟨es, htrace, -⟩ := hkeeps.trace
  refine ⟨h.congr hkeeps.view (hkeeps.filterMap fun _ he => he) fun hne => absurd hs hne,
    ⟨es, htrace, fun e _ => ?_⟩, fun _ => frozen_of_view hkeeps.view⟩
  cases s with
  | asking => exact nomatch hs
  | answering p => exact nomatch hs
  | agreed p => cases e <;> trivial

theorem readsNoReplies_handshake :
    ReadsNoReplies (fun q : NetQW => (q.handshakeView, q.sendQueue)) NetEvent.offHandshake := by
  refine ⟨fun _ _ => rfl, fun _ _ _ _ _ _ _ _ => rfl, fun e he => ?_⟩
  cases e
  case handle => trivial
  case free => trivial
  case fault => trivial
  all_goals exact absurd he (by simp [NetEvent.ofReplies])

theorem readsNoPackets_handshake :
    ReadsNoPackets (fun q : NetQW => (q.handshakeView, q.sendQueue)) NetEvent.offHandshake := by
  refine ⟨fun _ _ => rfl, fun _ _ _ _ _ => rfl, fun e he => ?_⟩
  cases e
  case accept => trivial
  case freePacket => trivial
  all_goals exact absurd he (by simp [NetEvent.ofPackets])

/-! ## Steps -/

/-- The allocation succeeds, and the application appends nothing. -/
def Action.Undisturbed : Action → Prop
  | .receive env _ _ => env.alloc = true
  | .append _ => False
  | _ => True

theorem receive_asking {q : NetQW} {env : SendEnv} {source : NetAddr} {datagram : List Byte}
    (hstate : q.state = .sendchallenge) (hsource : source = q.addr) :
    q.receive env source datagram
      = q.receiveChallenge datagram.length (arrived env.stack datagram) := by
  have hbuf : q.receiveBuf env.stack datagram = (datagram.length, arrived env.stack datagram) :=
    receiveBuf_eq (by rw [hstate]; exact nofun)
  rw [NetQW.receive, hbuf, hstate]
  dsimp only
  split
  · rfl
  · -- an empty datagram is no challenge
    rename_i hempty
    refine (if_neg fun h => hempty ⟨?_, hsource⟩).symm
    exact Nat.lt_of_lt_of_le (by decide) h.1.1

theorem receive_answering {q : NetQW} {env : SendEnv} {source : NetAddr} {datagram : List Byte}
    (hstate : q.state = .sendconnection) (hsource : source = q.addr) :
    q.receive env source datagram
      = q.receiveConnection env.now env.alloc datagram.length (arrived env.stack datagram) := by
  have hbuf : q.receiveBuf env.stack datagram = (datagram.length, arrived env.stack datagram) :=
    receiveBuf_eq (by rw [hstate]; exact nofun)
  rw [NetQW.receive, hbuf, hstate]
  dsimp only
  split
  · rfl
  · rename_i hempty
    refine (if_neg fun h => hempty ⟨?_, hsource⟩).symm
    exact Nat.lt_of_lt_of_le (by decide) h.1.1

theorem handshakeSilent_receive {q : NetQW} {env : SendEnv} {source : NetAddr}
    {datagram : List Byte} (hstate : q.state = .connected) :
    HandshakeSilent q (q.receive env source datagram) := by
  rw [NetQW.receive, hstate]
  dsimp only
  split
  · exact readsNoPackets_handshake.receivePacket readsNoReplies_handshake _ _ _ _
  · exact .refl q

/-- The first challenge is taken over. -/
theorem Follows.challenged (h : Follows q₀ .asking c) (number : BitVec 32) (data : List Byte) :
    Follows q₀ (.answering ⟨number, extensionRecords data⟩)
        ⟨(noteExtensions data (c.netqw.setChallenge number)).enterSendconnection, .idle⟩ ∧
      Proceeds .asking c.netqw
        (noteExtensions data (c.netqw.setChallenge number)).enterSendconnection := by
  have hholding := holding_noteExtensions (h.fresh rfl) number data
  obtain ⟨ht, crc, heq⟩ := noteExtensions_only data (c.netqw.setChallenge number)
  rw [heq] at hholding ⊢
  refine ⟨⟨rfl, nofun, fun p hp => ?_, h.addr, h.commands, fun _ => ⟨rfl, (h.quiet nofun).2⟩⟩,
    ⟨[], (List.append_nil _).symm, nofun⟩, fun hne => absurd rfl hne⟩
  obtain rfl := Option.some.inj hp
  exact hholding

/-- The server accepts the connection. -/
theorem Follows.connected {p : Challenge} (h : Follows q₀ (.answering p) c) (now : BitVec 64) :
    Follows q₀ (.agreed p) ⟨(c.netqw.appendReliableBuffer newCommand).enterConnected now, .idle⟩ ∧
      Proceeds (.answering p) c.netqw
        ((c.netqw.appendReliableBuffer newCommand).enterConnected now) := by
  have hp := h.holding p rfl
  refine ⟨⟨rfl, nofun, fun p' hp' => ?_, h.addr, ?_, fun hne => absurd rfl hne⟩,
    ⟨[.append newCommand], rfl, List.forall_mem_singleton.mpr trivial⟩, fun _ => ⟨rfl, rfl, rfl⟩⟩
  · obtain rfl := Option.some.inj hp'
    exact ⟨hp.number, hp.context, hp.crc⟩
  · show (c.netqw.trace ++ [NetEvent.append newCommand]).filterMap NetEvent.appended? = _
    rw [List.filterMap_append, show c.netqw.trace.filterMap NetEvent.appended? = [] from h.commands]
    rfl

/-- A datagram arrives. -/
theorem Follows.receive (h : Follows q₀ s c) {env : SendEnv} {source : NetAddr}
    {datagram : List Byte} (halloc : env.alloc = true)
    (hstep : c.outside (fun q => some (q.receive env source datagram)) = some c') :
    Follows q₀ (s.next q₀.addr (.receive env source datagram)) c' ∧ Proceeds s c.netqw c'.netqw := by
  obtain ⟨hpc, q', hq', rfl⟩ := Client.outside_spec hstep
  obtain rfl := Option.some.inj hq'
  have hstay : Follows q₀ s ⟨c.netqw, .idle⟩ ∧ Proceeds s c.netqw c.netqw :=
    h.silent (.refl _) fun _ => rfl
  unfold Handshake.next
  dsimp only
  by_cases hsource : source = q₀.addr
  · have hsource' : source = c.netqw.addr := hsource.trans h.addr.symm
    rw [if_pos hsource]
    -- what the client's address sends is heard according to the stage of the handshake
    cases s with
    | asking =>
      rw [receive_asking h.state hsource', Handshake.hear]
      rcases receiveChallenge_cases c.netqw env.stack datagram with ⟨hnone, heq⟩ |
        ⟨text, data, hsome, heq⟩
      · rw [hnone, heq]
        exact hstay
      · rw [hsome, heq]
        exact h.challenged (atoi text) data
    | answering p =>
      rw [receive_answering h.state hsource', Handshake.hear, receiveConnection, halloc]
      by_cases hd : AcceptsConnection datagram
      · rw [if_pos hd, if_pos ((connectionless_iff _).mpr hd)]
        exact h.connected env.now
      · rw [if_neg hd, if_neg fun hboth => hd ((connectionless_iff _).mp hboth)]
        exact hstay
    | agreed p =>
      exact h.silent (handshakeSilent_receive h.state) fun _ => rfl
  · -- the datagram is ignored
    have hignored : c.netqw.receive env source datagram = c.netqw :=
      if_neg fun hboth => hsource (hboth.2.trans h.addr)
    rw [if_neg hsource, hignored]
    exact hstay

/-- A client that is not connected sends what its state asks for, and nothing else. -/
theorem Follows.resend (h : Follows q₀ s c) (hs : s.state ≠ .connected) (curtime : BitVec 64)
    (stack : Nat → Byte) :
    Follows q₀ s ⟨c.netqw.resend curtime stack, .idle⟩ ∧
      Proceeds s c.netqw (c.netqw.resend curtime stack) := by
  have hkeeps : Keeps (fun q => (q.handshakeView, q.sendQueue)) (fun e => e.appended? = none)
      c.netqw (c.netqw.resend curtime stack) :=
    keeps_resend _ (fun _ _ => rfl) (fun _ => rfl) (fun _ _ => rfl) curtime stack
  refine ⟨h.congr (congrArg Prod.fst hkeeps.view) (hkeeps.filterMap fun _ he => he) fun hs =>
    ⟨rfl, (congrArg Prod.snd hkeeps.view).trans (h.quiet hs).2⟩, ?_,
    fun _ => frozen_of_view (congrArg Prod.fst hkeeps.view)⟩
  -- what is logged is the request of the stage, or nothing when it is not yet time
  have hnothing : ∀ q : NetQW, q.trace = c.netqw.trace →
      ∃ es, q.trace = c.netqw.trace ++ es ∧ ∀ e ∈ es, s.Allows c.netqw e :=
    fun q hq => ⟨[], by rw [hq, List.append_nil], nofun⟩
  have hset : ∀ (q : NetQW) time, (q.setResendtime time).trace = q.trace := fun _ _ => rfl
  unfold NetQW.resend
  split
  · cases s with
    | asking =>
      rw [if_pos (show c.netqw.state = .sendchallenge from h.state)]
      exact ⟨[.netSend getchallenge], rfl, List.forall_mem_singleton.mpr rfl⟩
    | answering p =>
      have hstate : ¬c.netqw.state = .sendchallenge := by
        rw [show c.netqw.state = .sendconnection from h.state]
        exact nofun
      rw [if_neg hstate]
      rw [hset]
      unfold sendConnectRequest
      dsimp only
      split
      · rename_i hfits
        refine ⟨[.netSend _], rfl, List.forall_mem_singleton.mpr ?_⟩
        exact (connectRequest_eq hfits).trans (h.holding p rfl).request
      · exact hnothing _ rfl
    | agreed p => exact absurd rfl hs
  · exact hnothing _ rfl

/-- The network thread enters `NetQW_Thread_DoSend`. -/
theorem Follows.beginSend (h : Follows q₀ s c) {curtime : BitVec 64} {stack : Nat → Byte}
    (hstep : c.beginSend curtime stack = some c') :
    Follows q₀ s c' ∧ Proceeds s c.netqw c'.netqw := by
  obtain ⟨hpc, rfl⟩ := Client.beginSend_spec hstep
  -- the clock of the movements is no part of the handshake
  obtain ⟨time, hclamp⟩ : ∃ time, c.netqw.clampMoveTime curtime
      = { c.netqw with lastmovesendtime := time } := by
    unfold clampMoveTime
    split
    · exact ⟨curtime, rfl⟩
    · exact ⟨c.netqw.lastmovesendtime, rfl⟩
  rw [hclamp]
  by_cases hs : s.state = .connected
  · rw [if_pos (h.state.trans hs)]
    exact h.sending hs (.of_eq rfl rfl)
  · rw [if_neg fun heq => hs (h.state.symm.trans heq)]
    have hclamped : Follows q₀ s ⟨{ c.netqw with lastmovesendtime := time }, .idle⟩ :=
      h.congr rfl rfl fun hs => ⟨rfl, (h.quiet hs).2⟩
    obtain ⟨hfollows, hproceeds⟩ := hclamped.resend hs curtime stack
    exact ⟨hfollows, hproceeds.events, hproceeds.frozen⟩

/-- The network thread sends a packet that waited; there is none before the connection. -/
theorem Follows.sendDelayed (h : Follows q₀ s c) {curtime : BitVec 64} {q : NetQW}
    (hq : c.netqw.sendDelayed curtime = some q) :
    Follows q₀ s ⟨q, .idle⟩ ∧ Proceeds s c.netqw q := by
  by_cases hs : s.state = .connected
  · exact h.sending hs
      (keeps_sendDelayed _ (fun _ _ => rfl) (fun _ => rfl) (fun _ _ => rfl) hq)
  · rw [NetQW.sendDelayed, (h.quiet hs).2] at hq
    exact nomatch hq

/-- A packet is submitted, which happens inside `NetQW_Thread_DoSend` only. -/
theorem Follows.submitPacket (h : Follows q₀ s c) {env : SendEnv}
    (hstep : c.submitPacket env = some c') :
    Follows q₀ s c' ∧ Proceeds s c.netqw c'.netqw := by
  obtain ⟨buf, reliable, hpc, rfl⟩ := Client.submitPacket_spec hstep
  have hs : s.state = .connected := by
    by_contra hne
    exact nomatch hpc.symm.trans (h.quiet hne).1
  have hsending : ReadsNoSending handshakeView (fun e => e.appended? = none) :=
    ⟨fun _ _ => rfl, fun _ _ _ _ => rfl, fun _ => rfl⟩
  exact h.sending hs (hsending.submit (fun _ _ => rfl) (fun _ _ => rfl) hstep)

/-- What one step of the client does to the handshake. -/
theorem Follows.step (h : Follows q₀ s c) {angle16 : BitVec 32 → BitVec 16} {a : Action}
    (ha : a.Undisturbed) (hstep : Client.step angle16 a c = some c') :
    Follows q₀ (s.next q₀.addr a) c' ∧ Proceeds s c.netqw c'.netqw := by
  have hframes : ReadsNoFrames (fun q : NetQW => (q.handshakeView, q.sendQueue))
      NetEvent.offHandshake := by
    refine ⟨fun _ _ => rfl, fun _ _ _ _ _ _ _ _ _ _ _ _ _ _ => rfl, fun e he => ?_⟩
    cases e
    case netSend => exact nomatch he
    case sendPacket => exact nomatch he
    case append => exact nomatch he
    all_goals trivial
  -- two actions move the handshake; of the others each leaves its view alone
  cases a
  case append => exact ha.elim
  case receive env source datagram => exact h.receive ha hstep
  case beginSend curtime stack => exact h.beginSend hstep
  case freePacket =>
    obtain ⟨q', hq', rfl⟩ := Option.map_eq_some_iff.mp hstep
    exact h.silent (readsNoPackets_handshake.freePacket hq') id
  case clampDelays curtime =>
    obtain ⟨-, rfl⟩ := Client.outside_total (f := NetQW.clampDelays curtime) hstep
    exact h.silent (readsNoPackets_handshake.clampDelays curtime) fun _ => rfl
  case handleDelayed curtime =>
    obtain ⟨-, q', hq', rfl⟩ := Client.outside_spec hstep
    exact h.silent (readsNoPackets_handshake.handleDelayed readsNoReplies_handshake hq') fun _ => rfl
  case clampSends curtime =>
    obtain ⟨-, rfl⟩ := Client.outside_total (f := NetQW.clampSends curtime) hstep
    by_cases hs : s.state = .connected
    · exact h.sending hs (keeps_clampSends _ (fun _ _ => rfl) curtime)
    · have hnone : c.netqw.clampSends curtime = c.netqw := by
        rw [clampSends, (h.quiet hs).2]
      rw [hnone]
      exact h.silent (.refl _) fun _ => rfl
  case sendDelayed curtime =>
    obtain ⟨-, q', hq', rfl⟩ := Client.outside_spec hstep
    exact h.sendDelayed hq'
  case addReliables =>
    obtain ⟨buf, hpc, rfl⟩ := Client.addReliables_spec hstep
    exact h.silent (keeps_rememberReliables _ (fun _ _ _ _ => rfl) _) fun hidle =>
      nomatch hpc.symm.trans hidle
  case submitPacket env => exact h.submitPacket hstep
  case finishPacket =>
    obtain ⟨hpc, rfl⟩ := Client.finishPacket_spec hstep
    refine h.silent ?_ fun hidle => nomatch hpc.symm.trans hidle
    exact ⟨rfl, [.sent c.netqw.currentOutgoingSequenceNumber], rfl,
      List.forall_mem_singleton.mpr trivial⟩
  all_goals
    obtain ⟨hkeeps, hpc⟩ := hframes.step rfl hstep
    exact h.silent hkeeps hpc

end

/-! ## Runs -/

/-- What is safe about the steps of a run: the handshake has heard the steps `as`, the
    client is `c`, and `c'` after the step `a`. -/
structure HandshakeSafe (q₀ : NetQW) (as : List Action) (a : Action) (c c' : Client) : Prop where
  /-- The state is that of the handshake, and moves one step at a time, never back. -/
  state : c.netqw.state = (Handshake.after q₀.addr as).state
  forward : c'.netqw.state = c.netqw.state ∨
    c.netqw.state = .sendchallenge ∧ c'.netqw.state = .sendconnection ∨
    c.netqw.state = .sendconnection ∧ c'.netqw.state = .connected
  /-- The command `new` is appended at the step into `state_connected`, and nothing else. -/
  new : appended c'.netqw.trace = appended c.netqw.trace ++
    if c.netqw.state ≠ .connected ∧ c'.netqw.state = .connected then [newCommand] else []
  once : appended c.netqw.trace = if c.netqw.state = .connected then [newCommand] else []
  /-- Once `state_sendchallenge` has been left, the client holds the challenge of the
      datagram that it left it with, and that does not change. -/
  holding : c.netqw.state ≠ .sendchallenge → ∃ p pre env datagram rest,
    as = pre ++ .receive env q₀.addr datagram :: rest ∧
    Handshake.after q₀.addr pre = .asking ∧ Challenge.ofDatagram datagram = some p ∧
    (Handshake.after q₀.addr as).challenge? = some p ∧ Holding p c.netqw ∧
    (c.netqw.huffcontext.isSome ↔ p.huffman.isSome) ∧
    ∀ crc, p.huffman = some crc → crc ∈ p.offers ∧ (huffInit crc).isSome
  frozen : c.netqw.state ≠ .sendchallenge → c'.netqw.challenge = c.netqw.challenge ∧
    c'.netqw.huffcontext = c.netqw.huffcontext ∧ c'.netqw.huffcrc = c.netqw.huffcrc
  /-- In front of the connection only `getchallenge` and the request are sent. -/
  sends : Proceeds (Handshake.after q₀.addr as) c.netqw c'.netqw
  /-- Datagrams of others change nothing. -/
  foreign : ∀ env source datagram, a = .receive env source datagram → source ≠ c.netqw.addr →
    c' = c

theorem follows_init {c : Client} (h : Client.Init c) : Follows c.netqw .asking c := by
  obtain ⟨garbage, qport, userinfo, addr, rfl⟩ := h
  refine ⟨rfl, fun _ => ?_, nofun, rfl, ?_, fun _ => ⟨rfl, ?_⟩⟩
  all_goals rfl

/-- In every run the client is where the handshake is. -/
theorem Follows.run {q₀ : NetQW} {s : Handshake} {c c' : Client} {as : List Action}
    {angle16 : BitVec 32 → BitVec 16} (h : Follows q₀ s c) (has : ∀ a ∈ as, a.Undisturbed)
    (hrun : (Client.system angle16).run as c = some c') :
    Follows q₀ (as.foldl (fun s a => s.next q₀.addr a) s) c' := by
  induction as generalizing s c with
  | nil =>
    obtain rfl := Option.some.inj hrun
    exact h
  | cons a as ih =>
    obtain ⟨c₁, hstep, hrest⟩ := Transitions.run_cons.mp hrun
    obtain ⟨ha, has⟩ := List.forall_mem_cons.mp has
    exact ih (h.step ha hstep).1 has hrest

/-- In every run of a client the handshake is safe. -/
theorem handshake_safe {angle16 : BitVec 32 → BitVec 16} {c₀ c c' : Client} {as : List Action}
    {a : Action} (hinit : (Client.system angle16).Init c₀) (has : ∀ a ∈ as, a.Undisturbed)
    (ha : a.Undisturbed) (hrun : (Client.system angle16).run as c₀ = some c)
    (hstep : (Client.system angle16).step a c = some c') :
    HandshakeSafe c₀.netqw as a c c' := by
  have hc : Follows c₀.netqw (Handshake.after c₀.netqw.addr as) c := (follows_init hinit).run has hrun
  obtain ⟨hc', hproceeds⟩ := hc.step ha hstep
  have hforward := Handshake.next_forward c₀.netqw.addr a (Handshake.after c₀.netqw.addr as)
  have hasking : c.netqw.state ≠ .sendchallenge → Handshake.after c₀.netqw.addr as ≠ .asking :=
    fun hne heq => hne (hc.state.trans (congrArg Handshake.state heq))
  constructor
  case state => exact hc.state
  case sends => exact hproceeds
  case forward =>
    rw [hc.state, hc'.state]
    rcases hforward with heq | ⟨hs, p, heq⟩ | ⟨p, hs, heq⟩
    · exact .inl (congrArg Handshake.state heq)
    · exact .inr (.inl ⟨congrArg Handshake.state hs, congrArg Handshake.state heq⟩)
    · exact .inr (.inr ⟨congrArg Handshake.state hs, congrArg Handshake.state heq⟩)
  case new =>
    rw [hc.commands, hc'.commands, hc.state, hc'.state]
    rcases hforward with heq | ⟨hs, p, heq⟩ | ⟨p, hs, heq⟩
    · rw [heq, if_neg fun hboth => hboth.1 hboth.2, List.append_nil]
    · rw [heq, hs]
      rfl
    · rw [heq, hs]
      rfl
  case once =>
    rw [hc.commands, hc.state]
    cases Handshake.after c₀.netqw.addr as with
    | asking => rfl
    | answering p => rfl
    | agreed p => rfl
  case holding =>
    intro hne
    have hp : ∃ p, (Handshake.after c₀.netqw.addr as).challenge? = some p := by
      have hs := hasking hne
      generalize Handshake.after c₀.netqw.addr as = s at hs
      cases s with
      | asking => exact absurd rfl hs
      | answering p => exact ⟨p, rfl⟩
      | agreed p => exact ⟨p, rfl⟩
    obtain ⟨p, hp⟩ := hp
    obtain ⟨pre, env, datagram, rest, has, hpre, hdatagram⟩ := Handshake.exists_challenge hp
    have hholding := hc.holding p hp
    exact ⟨p, pre, env, datagram, rest, has, hpre, hdatagram, hp, hholding, hholding.announces,
      fun crc => Challenge.mem_offers_of_huffman⟩
  case frozen => exact fun hne => hproceeds.frozen (hasking hne)
  case foreign =>
    rintro env source datagram rfl hsource
    obtain ⟨hpc, rfl⟩ := Client.outside_total (f := NetQW.receive env source datagram) hstep
    have hignored : c.netqw.receive env source datagram = c.netqw :=
      if_neg fun hboth => hsource hboth.2
    rw [hignored, ← hpc]

/-- The challenge 1, with the offer of a Huffman table. -/
def huffmanDatagram : List Byte :=
  challengeDatagram [0x31, 0, 0x48, 0x55, 0x46, 0x46, 0x8d, 0x2e, 0x6f, 0x28]

/-- A datagram of the server arrives at the time 0. -/
def hearing (datagram : List Byte) : Action := .receive ⟨0, true, fun _ => 0⟩ .loopback datagram

/-- A client that takes up the offer, and is connected. -/
theorem handshake_safe_huffman : ∃ c c',
    HandshakeSafe Client.fresh.netqw [hearing huffmanDatagram] (hearing connectionDatagram) c c' ∧
      c.netqw.state = .sendconnection ∧ c.netqw.huffcontext = huffInit 0x286f2e8d#32 := by
  have hafter : (Handshake.after .loopback [hearing huffmanDatagram]).challenge?
      = some ⟨1, [(protoextHuff, 0x286f2e8d)]⟩ := by decide +kernel
  obtain ⟨c, hrun⟩ : ∃ c, (Client.system fun _ => 0).run [hearing huffmanDatagram] Client.fresh
      = some c := ⟨_, rfl⟩
  obtain ⟨c', hstep⟩ : ∃ c', (Client.system fun _ => 0).step (hearing connectionDatagram) c
      = some c' := by
    obtain rfl := Option.some.inj hrun
    exact ⟨_, rfl⟩
  have hsafe : HandshakeSafe Client.fresh.netqw [hearing huffmanDatagram]
      (hearing connectionDatagram) c c' :=
    handshake_safe ⟨default, 0, [], .loopback, rfl⟩ (List.forall_mem_singleton.mpr rfl) rfl hrun hstep
  have hstate : c.netqw.state = .sendconnection := by
    rw [hsafe.state]
    decide +kernel
  obtain ⟨p, -, -, -, -, -, -, -, hp, hholding, -⟩ := hsafe.holding (by rw [hstate]; exact nofun)
  have hp' : p = ⟨1, [(protoextHuff, 0x286f2e8d)]⟩ := Option.some.inj (hp.symm.trans hafter)
  refine ⟨c, c', hsafe, hstate, ?_⟩
  rw [hholding.context, hp']
  rfl

end QwNet
