/-
  QwNet.Parser.Entities

  Lists of entity updates, as protocol.h lays them out.

  The first word of an update holds its number and seven flags; `U_MOREBITS` announces
  a byte with more flags.  `ParseDelta` masks the low bits of the word away and then
  tests `U_MODEL`, one of them, where it should test `U_MOREBITS`: it never reads the
  byte.  What it reads is another layout, in which no byte is announced.
-/
import QwNet.Parser.Layout
import QwNet.Parser.Termination

namespace QwNet

open RunM

/-! ## The layout of an update -/

/-- The flags of an update in the order of their fields, with the sizes of these: `U_MODEL`,
    `U_FRAME`, `U_COLORMAP`, `U_SKIN`, `U_EFFECTS`, `U_ORIGIN1`, `U_ANGLE1`, `U_ORIGIN2`,
    `U_ANGLE2`, `U_ORIGIN3` and `U_ANGLE3`. -/
def entityFields : List (BitVec 16 × Nat) :=
  [(0x0004#16, 1), (0x2000#16, 1), (0x0008#16, 1), (0x0010#16, 1), (0x0020#16, 1), (0x0200#16, 2),
    (0x0001#16, 1), (0x0400#16, 2), (0x1000#16, 1), (0x0800#16, 2), (0x0002#16, 1)]

/-- The number of bytes of the fields that `flags` select. -/
def fieldsLength (flags : BitVec 16) : Nat :=
  ((entityFields.filter fun f => flags &&& f.1 ≠ 0#16).map Prod.snd).sum

/-- `U_MOREBITS` of the word, in a layout in which it announces a byte of flags (`extra`). -/
def announces (extra : Bool) (word : BitVec 16) : Bool := extra && word.msb

/-- The seven flags of the word and, if it is announced, those of the byte. -/
def updateFlags (extra : Bool) (word : BitVec 16) (more : Byte) : BitVec 16 :=
  word &&& 0xfe00#16 ||| if announces extra word then more.setWidth 16 else 0#16

/-- An update of one entity, with any values in its fields.  In the layout of protocol.h
    `extra` is `true`. -/
structure EntityUpdate (extra : Bool) where
  word : BitVec 16
  more : Byte
  fields : List Byte
  word_ne_zero : word ≠ 0#16
  length_fields : fields.length = fieldsLength (updateFlags extra word more)

namespace EntityUpdate

variable {extra : Bool}

/-- The number of the entity. -/
def number (e : EntityUpdate extra) : BitVec 16 := e.word &&& 511#16

/-- The bytes of an update. -/
def encode (e : EntityUpdate extra) : List Byte :=
  littleEndian e.word 2 ++ (if announces extra e.word then [e.more] else []) ++ e.fields

/-- The bytes of a list of updates: they end with a zero word. -/
def encodeList (es : List (EntityUpdate extra)) : List Byte := es.flatMap encode ++ [0, 0]

theorem encodeList_cons (e : EntityUpdate extra) (es : List (EntityUpdate extra)) :
    encodeList (e :: es) = e.encode ++ encodeList es := by
  rw [encodeList, encodeList, List.flatMap_cons, List.append_assoc]

/-- Where `U_MOREBITS` is not set, the layouts are the same. -/
def plain (e : EntityUpdate true) (h : e.word.msb = false) : EntityUpdate false where
  word := e.word
  more := e.more
  fields := e.fields
  word_ne_zero := e.word_ne_zero
  length_fields := by
    have hlength := e.length_fields
    simpa only [updateFlags, announces, h, Bool.and_false, Bool.false_and] using hlength

theorem encode_plain (e : EntityUpdate true) (h : e.word.msb = false) :
    (e.plain h).encode = e.encode := by
  simp only [encode, plain, announces, h, Bool.and_false]

/-- A list without `U_MOREBITS` has the same bytes in both layouts. -/
theorem exists_plain (es : List (EntityUpdate true)) (h : ∀ e ∈ es, e.word.msb = false) :
    ∃ es' : List (EntityUpdate false), encodeList es' = encodeList es := by
  induction es with
  | nil => exact ⟨[], rfl⟩
  | cons e es ih =>
    obtain ⟨es', hes'⟩ := ih fun e he => h e (List.mem_cons_of_mem _ he)
    refine ⟨e.plain (h e List.mem_cons_self) :: es', ?_⟩
    rw [encodeList_cons, encodeList_cons, encode_plain, hes']

end EntityUpdate

/-! ## Words -/

theorem append_halves (word : BitVec 16) :
    (word >>> 8).setWidth 8 ++ word.setWidth 8 = word := by
  apply BitVec.eq_of_getLsbD_eq
  intro i hi
  rw [BitVec.getLsbD_append]
  split
  · rw [BitVec.getLsbD_setWidth, decide_eq_true ‹i < 8›, Bool.true_and]
  · rw [BitVec.getLsbD_setWidth, decide_eq_true (by omega), Bool.true_and,
      BitVec.getLsbD_ushiftRight, Nat.add_sub_cancel' (by omega)]

theorem littleEndian_append (high low : Byte) : littleEndian (high ++ low) 2 = [low, high] := by
  have hlow : (high ++ low).setWidth 8 = low := by
    apply BitVec.eq_of_getLsbD_eq
    intro i hi
    rw [BitVec.getLsbD_setWidth, BitVec.getLsbD_append, decide_eq_true hi, if_pos hi, Bool.true_and]
  have hhigh : ((high ++ low) >>> 8).setWidth 8 = high := by
    apply BitVec.eq_of_getLsbD_eq
    intro i hi
    rw [BitVec.getLsbD_setWidth, BitVec.getLsbD_ushiftRight, BitVec.getLsbD_append,
      decide_eq_true hi, if_neg (by omega), Bool.true_and, Nat.add_sub_cancel_left]
  rw [littleEndian, littleEndian, littleEndian, hlow, hhigh]

/-- The fields that `ParseDelta` reads are those of the layout in which `U_MOREBITS` announces
    nothing. -/
theorem deltaLength_eq (word : BitVec 16) (more : Byte) :
    deltaLength (word.setWidth 32) = fieldsLength (updateFlags false word more) := by
  -- The low flags are masked away, the others are those of the word
  have hmask : ∀ flag : BitVec 16,
      updateFlags false word more &&& flag = word &&& (0xfe00#16 &&& flag) := by
    intro flag
    rw [updateFlags, announces, Bool.false_and, if_neg Bool.false_ne_true, BitVec.or_zero,
      BitVec.and_assoc]
  have hcons : ∀ (f : BitVec 16 × Nat) fs,
      (((f :: fs).filter fun f => updateFlags false word more &&& f.1 ≠ 0#16).map Prod.snd).sum
        = (if word &&& (0xfe00#16 &&& f.1) ≠ 0#16 then f.2 else 0)
          + ((fs.filter fun f => updateFlags false word more &&& f.1 ≠ 0#16).map Prod.snd).sum := by
    intro f fs
    rw [List.filter_cons, hmask]
    split
    · rw [if_pos (of_decide_eq_true ‹_›)]
      rfl
    · rw [if_neg fun h => ‹¬_› (decide_eq_true h), Nat.zero_add]
  have hword : ∀ flag : BitVec 16,
      (word.setWidth 32 &&& flag.setWidth 32 ≠ 0#32) = (word &&& flag ≠ 0#16) :=
    fun flag => propext (setWidth_and_ne_zero (by decide) word flag)
  have hframe := hword 0x2000#16
  have horigin1 := hword 0x0200#16
  have horigin2 := hword 0x0400#16
  have hangle2 := hword 0x1000#16
  have horigin3 := hword 0x0800#16
  simp only [BitVec.reduceSetWidth] at hframe horigin1 horigin2 hangle2 horigin3
  unfold deltaLength fieldsLength entityFields
  simp only [hframe, horigin1, horigin2, hangle2, horigin3, hcons, BitVec.reduceAnd,
    BitVec.and_zero, ne_eq, not_true_eq_false, if_false, Nat.zero_add, List.filter_nil,
    List.map_nil, List.sum_nil, Nat.add_zero, Nat.add_assoc]

/-! ## Reads that are not short -/

/-- `m` moves the cursor over exactly `n` bytes; where they are not there it marks the message as
    badly read. -/
structure Exactly (msg : Message) (n : Nat) {α : Type} (m : Parser α) : Prop where
  checked : ∀ fuel, Checked msg fuel m
  badread : ∀ q, q.msgReadcount.toNat ≤ msg.cursize → ((m q).2.msgBadread = false ↔
    q.msgBadread = false ∧ q.msgReadcount.toNat + n ≤ msg.cursize)
  moves : ∀ q, q.msgReadcount.toNat ≤ msg.cursize → (m q).2.msgBadread = false →
    (m q).2.msgReadcount.toNat = q.msgReadcount.toNat + n

namespace Exactly

variable {msg : Message} {α β : Type}

theorem pure (a : α) : Exactly msg 0 (Pure.pure a : Parser α) :=
  ⟨fun _ => .pure a, fun _ hq => ⟨fun h => ⟨h, hq⟩, And.left⟩, fun _ _ _ => rfl⟩

theorem bind {n₁ n₂ : Nat} {m : Parser α} {f : α → Parser β} (hm : Exactly msg n₁ m)
    (hf : ∀ a, Exactly msg n₂ (f a)) : Exactly msg (n₁ + n₂) (m >>= f) := by
  -- What the second half makes of the state in between
  have key : ∀ q, q.msgReadcount.toNat ≤ msg.cursize → ∃ a q₁, m q = (some a, q₁) ∧
      (m >>= f) q = f a q₁ ∧ q₁.msgReadcount.toNat ≤ msg.cursize := by
    intro q hq
    obtain ⟨a, q₁, h₁⟩ := (hm.checked _).ends q (Nat.lt_succ_self _)
    have hadv := (hm.checked 0).advances q
    rw [h₁] at hadv
    exact ⟨a, q₁, h₁, bind_some h₁, (hadv.bound hq).2⟩
  refine ⟨fun fuel => .bind (hm.checked fuel) fun a => (hf a).checked fuel, ?_, ?_⟩
  · intro q hq
    obtain ⟨a, q₁, h₁, h, hq₁⟩ := key q hq
    have hbad₁ := hm.badread q hq
    have hmoves₁ := hm.moves q hq
    rw [h₁] at hbad₁ hmoves₁
    rw [h, (hf a).badread q₁ hq₁]
    constructor
    · rintro ⟨hbad, hfit⟩
      have hmove := hmoves₁ hbad
      dsimp only at hmove
      exact ⟨(hbad₁.mp hbad).1, by omega⟩
    · rintro ⟨hbad, hfit⟩
      have hgood := hbad₁.mpr ⟨hbad, by omega⟩
      have hmove := hmoves₁ hgood
      dsimp only at hmove
      exact ⟨hgood, by omega⟩
  · intro q hq hbad
    obtain ⟨a, q₁, h₁, h, hq₁⟩ := key q hq
    have hmoves₁ := hm.moves q hq
    rw [h₁] at hmoves₁
    rw [h] at hbad ⊢
    have hmove₁ := hmoves₁ (((hf a).badread q₁ hq₁).mp hbad).1
    have hmove₂ := (hf a).moves q₁ hq₁ hbad
    dsimp only at hmove₁
    omega

theorem seq {n₁ n₂ : Nat} {m : Parser α} {m' : Parser β} (hm : Exactly msg n₁ m)
    (hm' : Exactly msg n₂ m') : Exactly msg (n₁ + n₂) (m >>= fun _ => m') := hm.bind fun _ => hm'

theorem read {size : Nat} (hsize : size < 2 ^ 31) (value : (Nat → Byte) → BitVec 32) :
    Exactly msg size (msgRead msg size value) := by
  have hcur := msg.cursize_lt
  refine ⟨fun fuel => .read hsize value, fun q hq => ?_, fun q hq hbad => ?_⟩
  · rcases msgRead_spec msg size value q with ⟨hfit, hrun⟩ | ⟨hfit, hrun⟩
    · rw [Message.fits_iff hq hsize] at hfit
      rw [hrun]
      exact ⟨fun h => ⟨h, hfit⟩, And.left⟩
    · rw [Message.fits_iff hq hsize] at hfit
      rw [hrun]
      exact ⟨fun h => (nomatch h), fun h => absurd h.2 hfit⟩
  · rcases msgRead_spec msg size value q with ⟨hfit, hrun⟩ | ⟨-, hrun⟩
    · rw [Message.fits_iff hq hsize] at hfit
      rw [hrun]
      exact toNat_add_ofNat (by omega)
    · rw [hrun] at hbad
      exact nomatch hbad

theorem readIf {size : Nat} {read : Parser (BitVec 32)} (hread : Exactly msg size read)
    (bits flag : BitVec 32) :
    Exactly msg (if bits &&& flag ≠ 0#32 then size else 0) (QwNet.readIf bits flag read) := by
  unfold QwNet.readIf
  split
  · exact hread.seq (.pure ())
  · exact .pure ()

end Exactly

theorem exactly_parseDelta (msg : Message) (word : BitVec 32) :
    Exactly msg (deltaLength word) (parseDelta msg word) := by
  have hbyte : Exactly msg 1 (msgReadByte msg) := .read (by omega) _
  have hchar : Exactly msg 1 (msgReadChar msg) := .read (by omega) _
  have hangle : Exactly msg 1 (msgReadAngle msg) := hchar
  have hshort : Exactly msg 2 (msgReadShort msg) := .read (by omega) _
  have hcoord : Exactly msg 2 (msgReadCoord msg) := hshort
  rw [parseDelta_eq]
  have h := (hbyte.readIf word 0x2000#32).seq ((hcoord.readIf word 0x0200#32).seq
    ((hcoord.readIf word 0x0400#32).seq ((hangle.readIf word 0x1000#32).seq
      (hcoord.readIf word 0x0800#32))))
  simpa only [deltaLength, Nat.add_assoc] using h

/-! ## `FlushEntityPacket` -/

section Flush

variable {msg : Message} {q : QwConnection}

/-- The word that the bytes of an update begin with. -/
theorem InFrontOf.wordAt {high low : Byte} {rest : List Byte}
    (h : InFrontOf msg (low :: high :: rest) q) :
    msg.Fits q.msgReadcount 2 ∧ msg.wordAt q.msgReadcount = (high ++ low).setWidth 32 := by
  have hcur := msg.cursize_lt
  have hfits := h.fits
  simp only [List.length_cons] at hfits
  have hlow : msg.at q.msgReadcount 0 = low := by
    rw [Message.at, toNat_add_ofNat (by omega)]
    exact h.has 0 (Nat.succ_pos _)
  have hhigh : msg.at q.msgReadcount 1 = high := by
    rw [Message.at, toNat_add_ofNat (by omega)]
    exact h.has 1 (Nat.succ_lt_succ (Nat.succ_pos _))
  refine ⟨(Message.fits_iff (by omega) (by omega)).mpr (by omega), ?_⟩
  rw [Message.wordAt, hlow, hhigh]

/-- Every update begins with its word, which is not zero. -/
theorem InFrontOf.wordAt_update {extra : Bool} {e : EntityUpdate extra} {rest : List Byte}
    (h : InFrontOf msg (e.encode ++ rest) q) :
    msg.Fits q.msgReadcount 2 ∧ msg.wordAt q.msgReadcount = e.word.setWidth 32 ∧
      msg.wordAt q.msgReadcount ≠ 0#32 := by
  have hbytes : e.encode ++ rest = e.word.setWidth 8 :: (e.word >>> 8).setWidth 8
      :: ((if announces extra e.word then [e.more] else []) ++ e.fields ++ rest) := rfl
  rw [hbytes] at h
  obtain ⟨hfit, hword⟩ := h.wordAt
  rw [append_halves] at hword
  refine ⟨hfit, hword, fun hzero => e.word_ne_zero ?_⟩
  have hnarrow := congrArg (BitVec.setWidth 16) (hword.symm.trans hzero)
  simpa using hnarrow

/-- The bytes of an update without a byte of flags. -/
theorem EntityUpdate.encode_false (e : EntityUpdate false) :
    e.encode = e.word.setWidth 8 :: (e.word >>> 8).setWidth 8 :: e.fields := rfl

/-- One pass over an update, and what is left behind it. -/
theorem flushPass_update {e : EntityUpdate false} {rest : List Byte}
    (hq : InFrontOf msg (e.encode ++ rest) q) :
    ∃ q', flushPass msg q = (some none, q') ∧ InFrontOf msg rest q' ∧
      q'.msgReadcount.toNat = q.msgReadcount.toNat + e.encode.length := by
  have hcur := msg.cursize_lt
  have hfits := hq.fits
  obtain ⟨hfit, hword, hne⟩ := hq.wordAt_update
  rw [e.encode_false] at hq hfits ⊢
  simp only [List.cons_append, List.length_cons, List.length_append] at hfits ⊢
  obtain ⟨q', hpass, hdelta⟩ := flushPass_goes_on (msgReadWord_fits hfit) hne
  have hlength : deltaLength (msg.wordAt q.msgReadcount) = e.fields.length := by
    rw [hword, deltaLength_eq e.word e.more, e.length_fields]
  have hq₁ : (q.advance 2).msgReadcount.toNat = q.msgReadcount.toNat + 2 :=
    toNat_add_ofNat (by omega)
  -- the fields are there, so the read is not short
  have hexactly := exactly_parseDelta msg (msg.wordAt q.msgReadcount)
  have hbad := (hexactly.badread (q.advance 2) (by omega)).mpr ⟨hq.badread, by omega⟩
  have hmove := hexactly.moves (q.advance 2) (by omega) hbad
  rw [hdelta] at hbad hmove
  dsimp only at hbad hmove
  refine ⟨q', hpass, ?_, by omega⟩
  refine hq.right_of ?_ hbad
  simp only [List.length_cons]
  omega

/-- The flush of a list of such updates stops behind its zero word. -/
theorem flush_of_encodeList {es : List (EntityUpdate false)}
    (hq : InFrontOf msg (EntityUpdate.encodeList es) q) :
    ∃ q', flushEntityPacket msg (es.length + 1) q = (some (), q') ∧
      q'.msgReadcount.toNat = q.msgReadcount.toNat + (EntityUpdate.encodeList es).length ∧
      q'.msgBadread = false := by
  have hcur := msg.cursize_lt
  -- over the entities that were encoded, a pass of the loop for each
  induction es generalizing q with
  | nil =>
    have hzero : InFrontOf msg [0, 0] q := hq
    obtain ⟨hfit, hword⟩ := hzero.wordAt
    have hfits := hq.fits
    refine ⟨q.advance 2, flush_zero 0 hfit (hword.trans rfl), ?_, hq.badread⟩
    have htwo : (EntityUpdate.encodeList ([] : List (EntityUpdate false))).length = 2 := rfl
    rw [htwo] at hfits ⊢
    exact toNat_add_ofNat (by omega)
  | cons e es ih =>
    rw [EntityUpdate.encodeList_cons] at hq ⊢
    obtain ⟨q₁, hpass, hq₁, hmove⟩ := flushPass_update hq
    obtain ⟨q', hrun, hmove', hbad⟩ := ih hq₁
    refine ⟨q', ?_, ?_, hbad⟩
    · rw [flushEntityPacket, List.length_cons, loop_next hpass]
      exact hrun
    · rw [List.length_append]
      omega

/-- A flush that stops has not moved back, and has read nothing badly if it ends so. -/
theorem advances_flush {fuel : Nat} {q' : QwConnection}
    (h : flushEntityPacket msg fuel q = (some (), q')) : Advances msg q q' := by
  have hadv := steps_loop (Advances.refl msg) Advances.trans (checked_flushPass msg 0).advances
    fuel q
  rwa [show RunM.loop (flushPass msg) fuel q = (some (), q') from h] at hadv

/-- Where a flush that stops has read nothing badly, a pass that goes on has read its fields. -/
theorem flush_goes_on {fuel : Nat} {word : BitVec 32} {q₁ q' : QwConnection}
    (hread : msgReadWord msg q = (some word, q₁)) (hword : word ≠ 0#32)
    (hq₁ : q₁.msgReadcount.toNat ≤ msg.cursize)
    (hrun : flushEntityPacket msg (fuel + 1) q = (some (), q')) (hbad : q'.msgBadread = false) :
    ∃ q₂, flushEntityPacket msg fuel q₂ = (some (), q') ∧ q₁.msgBadread = false ∧
      q₂.msgBadread = false ∧
      q₂.msgReadcount.toNat = q₁.msgReadcount.toNat + deltaLength word ∧
      q₂.msgReadcount.toNat ≤ q'.msgReadcount.toNat := by
  obtain ⟨q₂, hpass, hdelta⟩ := flushPass_goes_on hread hword
  rw [flushEntityPacket, loop_next hpass] at hrun
  have hadv := advances_flush hrun
  -- what is read badly stays so up to the end
  have hgood : q₂.msgBadread = false := by
    apply Bool.eq_false_of_not_eq_true
    intro h
    rw [hadv.badread h] at hbad
    exact Bool.false_ne_true hbad.symm
  have hexactly := exactly_parseDelta msg word
  have hbadread := hexactly.badread q₁ hq₁
  have hmoves := hexactly.moves q₁ hq₁
  have hadv₁ := (hexactly.checked 0).advances q₁
  rw [hdelta] at hbadread hmoves hadv₁
  exact ⟨q₂, hrun, (hbadread.mp hgood).1, hgood, hmoves hgood, (hadv.bound (hadv₁.bound hq₁).2).1⟩

/-- Behind a word that is not zero, enough bytes are the fields of an update. -/
theorem exists_update {word : BitVec 32} {low high : Byte} {tail : List Byte}
    (hword : word = (high ++ low).setWidth 32) (hne : word ≠ 0#32)
    (hlength : deltaLength word ≤ tail.length) :
    ∃ e : EntityUpdate false, e.encode.length = 2 + deltaLength word ∧
      e.encode ++ tail.drop (deltaLength word) = low :: high :: tail := by
  -- the word of the flags is read low byte first, and it says how much follows
  have hfields : deltaLength word = fieldsLength (updateFlags false (high ++ low) 0) := by
    rw [hword]
    exact deltaLength_eq (high ++ low) 0
  have hnonzero : high ++ low ≠ 0#16 := by
    intro h
    rw [hword, h] at hne
    exact hne rfl
  have htake : (tail.take (deltaLength word)).length = deltaLength word := by
    rw [List.length_take]
    omega
  let e : EntityUpdate false :=
    ⟨high ++ low, 0, tail.take (deltaLength word), hnonzero, htake.trans hfields⟩
  refine ⟨e, ?_, ?_⟩
  · rw [e.encode_false]
    simp only [List.length_cons, e, htake]
    omega
  · rw [EntityUpdate.encode, littleEndian_append]
    simp [announces, e]

theorem exists_cons_cons {bytes : List Byte} (h : 2 ≤ bytes.length) :
    ∃ low high tail, bytes = low :: high :: tail := by
  rcases bytes with _ | ⟨low, _ | ⟨high, tail⟩⟩
  · exact absurd h (Nat.not_succ_le_zero 1)
  · exact absurd h (Nat.lt_irrefl 1)
  · exact ⟨low, high, tail, rfl⟩

/-- A flush that stops behind some bytes, having read nothing badly, has read them as a list of
    updates without bytes of flags. -/
theorem encodeList_of_flush {fuel : Nat} {q' : QwConnection} {bytes : List Byte}
    (hq : InFrontOf msg bytes q) (hrun : flushEntityPacket msg fuel q = (some (), q'))
    (hmove : q'.msgReadcount.toNat = q.msgReadcount.toNat + bytes.length)
    (hbad : q'.msgBadread = false) :
    ∃ es : List (EntityUpdate false), EntityUpdate.encodeList es = bytes := by
  have hcur := msg.cursize_lt
  induction fuel generalizing q bytes with
  | zero => exact absurd (Prod.mk.inj hrun).1.symm (Option.some_ne_none ())
  | succ fuel ih =>
    have hfits := hq.fits
    have hin : q.msgReadcount.toNat ≤ msg.cursize := by omega
    by_cases hfit : msg.Fits q.msgReadcount 2
    · have hfit' := (Message.fits_iff hin (by omega)).mp hfit
      have hq₁ : (q.advance 2).msgReadcount.toNat = q.msgReadcount.toNat + 2 :=
        toNat_add_ofNat (by omega)
      by_cases hzero : msg.wordAt q.msgReadcount = 0#32
      · -- The zero word ends the list, and the bytes with it
        rw [flush_zero fuel hfit hzero] at hrun
        obtain rfl : q.advance 2 = q' := (Prod.mk.inj hrun).2
        obtain ⟨low, high, rfl⟩ := List.length_eq_two.mp (by omega : bytes.length = 2)
        have hword := congrArg (BitVec.setWidth 16) (hq.wordAt.2.symm.trans hzero)
        have hnull : high ++ low = 0#16 := by simpa using hword
        refine ⟨[], ?_⟩
        rw [← littleEndian_append, hnull]
        rfl
      · obtain ⟨q₂, hrest, -, hgood, hmove₂, hle⟩ :=
          flush_goes_on (msgReadWord_fits hfit) hzero (by omega) hrun hbad
        obtain ⟨low, high, tail, rfl⟩ := exists_cons_cons (by omega : 2 ≤ bytes.length)
        simp only [List.length_cons] at hmove hfits
        have hfields : deltaLength (msg.wordAt q.msgReadcount) ≤ tail.length := by omega
        obtain ⟨e, hlength, hencode⟩ := exists_update hq.wordAt.2 hzero hfields
        have hq₂ : InFrontOf msg (tail.drop (deltaLength (msg.wordAt q.msgReadcount))) q₂ := by
          rw [← hencode] at hq
          refine hq.right_of ?_ hgood
          omega
        obtain ⟨es, hes⟩ := ih hq₂ hrest (by rw [List.length_drop]; omega)
        refine ⟨e :: es, ?_⟩
        rw [EntityUpdate.encodeList_cons, hes, hencode]
    · obtain ⟨q₂, -, hmarked, -⟩ := flush_goes_on (msgReadWord_short hfit) (by decide) hin hrun hbad
      exact absurd hmarked.symm Bool.false_ne_true

end Flush

/-- Skipping a list of entity updates consumes exactly its bytes iff these can also be read as
    a list in which `U_MOREBITS` announces no byte of flags. -/
theorem flushEntityPacket_consumes_iff {msg : Message} {q : QwConnection}
    (es : List (EntityUpdate true)) (hq : InFrontOf msg (EntityUpdate.encodeList es) q) :
    (∃ fuel q', flushEntityPacket msg fuel q = (some (), q') ∧
      q'.msgReadcount.toNat = q.msgReadcount.toNat + (EntityUpdate.encodeList es).length ∧
      q'.msgBadread = false) ↔
    ∃ es' : List (EntityUpdate false), EntityUpdate.encodeList es' = EntityUpdate.encodeList es := by
  constructor
  · rintro ⟨fuel, q', hrun, hmove, hbad⟩
    exact encodeList_of_flush hq hrun hmove hbad
  · rintro ⟨es', hes'⟩
    rw [← hes'] at hq ⊢
    obtain ⟨q', hrun, hmove, hbad⟩ := flush_of_encodeList hq
    exact ⟨_, q', hrun, hmove, hbad⟩

/-- The update of entity 1 by a frame number, at the beginning of a message. -/
theorem flushEntityPacket_consumes_frame :
    ∃ fuel q', flushEntityPacket (.ofBytes [0x01, 0x20, 7, 0, 0] (by decide)) fuel .fresh
        = (some (), q') ∧ q'.msgReadcount.toNat = 5 ∧ q'.msgBadread = false := by
  let e : EntityUpdate true := ⟨0x2001#16, 0, [7], by decide, by decide⟩
  have hbytes : EntityUpdate.encodeList [e] = [0x01, 0x20, 7, 0, 0] := by decide
  have hq : InFrontOf (.ofBytes [0x01, 0x20, 7, 0, 0] (by decide)) (EntityUpdate.encodeList [e])
      .fresh := by
    rw [hbytes]
    exact ⟨rfl, Message.hasAt_ofBytes (by decide), by decide⟩
  have h := (flushEntityPacket_consumes_iff [e] hq).mpr
    (EntityUpdate.exists_plain [e] (List.forall_mem_singleton.mpr (by decide)))
  rw [hbytes] at h
  exact h

/-- An update of entity 1 whose byte of flags is empty. -/
def emptyFlags : EntityUpdate true := ⟨0x8001#16, 0, [], by decide, by decide⟩

/-- The byte and half of the zero word are taken for the zero word. -/
theorem flushEntityPacket_not_consumes :
    EntityUpdate.encodeList [emptyFlags] = [0x01, 0x80, 0, 0, 0] ∧
      ¬∃ fuel q', flushEntityPacket (.ofBytes [0x01, 0x80, 0, 0, 0] (by decide)) fuel .fresh
        = (some (), q') ∧ q'.msgReadcount.toNat = 5 ∧ q'.msgBadread = false := by
  refine ⟨by decide, ?_⟩
  rintro ⟨fuel, q', hrun, hmove, -⟩
  -- The second pass finds a zero word
  rcases fuel with _ | _ | fuel
  · exact nomatch (Prod.mk.inj hrun).1
  · exact nomatch (Prod.mk.inj hrun).1
  · obtain rfl := (Prod.mk.inj hrun).2
    have hstop : (4 : Nat) = 5 := hmove
    omega

end QwNet
