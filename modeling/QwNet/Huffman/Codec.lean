/-
  QwNet.Huffman.Codec

  `huffman.c`: the packet compressor and decompressor.

  Output goes to an `OutBuf`; a pointer into it is an index.  Input of the
  decompressor is a whole memory, since the code reads up to two bytes past the
  packet it was given.
-/
import QwNet.Huffman.Tables

namespace QwNet

/-- `MAX_MSGLEN`. -/
def maxMsglen : Nat := 1450

/-- `bitswaptable[i]`. -/
def bitswap (i : Nat) : Byte := BitVec.ofNat 8 (bitswaptable.getD i 0)

/-- `huffenctable[b]`. -/
def HuffTables.enc (ht : HuffTables) (b : Byte) : HuffEncEntry :=
  ht.huffenctable.getD b.toNat ⟨0, 0⟩

/-- `huffdectable[i]`. -/
def HuffTables.dec (ht : HuffTables) (i : Nat) : HuffDecEntry :=
  ht.huffdectable.getD i ⟨0, 0⟩

/-- The `while(size)` loop of `huffencbyte`; every pass takes at least one of the
    `size` bits, so `size` passes are enough.  Returns `l` and the buffer. -/
def huffEncBits : Nat → BitVec 16 → Nat → Nat → Nat → Nat → OutBuf → Nat × OutBuf
  | 0, _, _, _, _, l, out => (l, out)
  | fuel + 1, code, size, bitsleft, o, l, out =>
    if size = 0 then (l, out)
    else
      let bitstocopy := if size < bitsleft then size else bitsleft
      let out := out.store o (out.mem o ||| bitswap (code >>> (16 - bitsleft)).toNat)
      let out := out.store (o + 1) 0
      huffEncBits fuel (code <<< bitstocopy) (size - bitstocopy) 8 (o + 1)
        ((l + bitstocopy) % 2 ^ 32) out

/-- `huffencbyte`. -/
def huffEncByte (ht : HuffTables) (inbyte : Byte) (outbuf len : Nat) (out : OutBuf) :
    Nat × OutBuf :=
  let l := len
  let o := outbuf + l / 8
  let bitsleft := 8 - l % 8
  let out := if bitsleft = 8 then out.store o 0 else out
  let size := (ht.enc inbyte).len.toNat
  huffEncBits size (ht.enc inbyte).code size bitsleft o l out

/-- The `index` of `huffdecbyte` before its last shift: the next 16 bits of the stream. -/
def huffDecIndex (mem : Nat → Byte) (inbuf len : Nat) : BitVec 16 :=
  let l := len
  let o := inbuf + l / 8
  let index := (bitswap (mem o).toNat).zeroExtend 16 <<< (l % 8 + 8)
  let index := index ||| (bitswap (mem (o + 1)).toNat).zeroExtend 16 <<< (l % 8)
  index ||| (bitswap (mem (o + 2)).toNat).zeroExtend 16 >>> (8 - l % 8)

/-- `huffdecbyte`: the decoded byte and the new bit position. -/
def huffDecByte (ht : HuffTables) (mem : Nat → Byte) (inbuf len : Nat) : Byte × Nat :=
  let index := huffDecIndex mem inbuf len >>> (16 - 11)
  ((ht.dec index.toNat).value, (len + (ht.dec index.toNat).len.toNat) % 2 ^ 32)

/-- `Huff_Init`: the first value is from FTE with broken CRC generation. -/
def huffInit (tablecrc : BitVec 32) : Option HuffTables :=
  if tablecrc = 0x5ed5c4e4#32 ∨ tablecrc = 0x286f2e8d#32 then some hufftablesQ3 else none

/-- The `for` loop of `Huff_CompressPacket` over the bytes still to be coded. -/
def huffEncLoop (ht : HuffTables) (inbuflen buffer : Nat) :
    List Byte → Nat → OutBuf → Nat × OutBuf
  | [], outlen, out => (outlen, out)
  | b :: rest, outlen, out =>
    if outlen / 8 < inbuflen then
      let r := huffEncByte ht b buffer outlen out
      huffEncLoop ht inbuflen buffer rest r.1 r.2
    else (outlen, out)

/-- `Huff_CompressPacket`: the returned length and the output memory. -/
def huffCompressPacket (ht : HuffTables) (inbuf : List Byte) (out : OutBuf)
    (outbuf outbuflen : Nat) : Nat × OutBuf :=
  let inbuflen := inbuf.length
  if ¬ outbuflen > inbuflen then (0, out)
  else
    let buffer := outbuf + 1
    let r := huffEncLoop ht inbuflen buffer inbuf 0 out
    let outlen := r.1
    let out := r.2
    if outlen / 8 ≥ inbuflen then
      let out := out.memcpy buffer (fun i => inbuf.getD i 0) inbuflen
      (inbuflen + 1, out.store (buffer - 1) 0x80)
    else
      -- wasting one byte when the stream ends on a byte boundary, for compatibility
      let out := out.store (buffer - 1) (BitVec.ofNat 8 (8 - outlen % 8))
      let outlen := (outlen + 8) % 2 ^ 32
      let outlen := outlen / 8
      (outlen + 1, out)

/-- The `while` loop of `Huff_DecompressPacket`; `fuel` is `MAX_MSGLEN - i`. -/
def huffDecLoop (ht : HuffTables) (mem : Nat → Byte) (encmsg inbuflen buffer : Nat) :
    Nat → Nat → Nat → OutBuf → Nat × OutBuf
  | 0, i, _, out => (i, out)
  | fuel + 1, i, outlen, out =>
    if outlen < inbuflen then
      let r := huffDecByte ht mem encmsg outlen
      huffDecLoop ht mem encmsg inbuflen buffer fuel (i + 1) r.2 (out.store (buffer + i) r.1)
    else (i, out)

/-- `Huff_DecompressPacket`: the returned length and the output memory. -/
def huffDecompressPacket (ht : HuffTables) (mem : Nat → Byte) (inbuf inbuflen : Nat)
    (out : OutBuf) (outbuf outbuflen : Nat) : Nat × OutBuf :=
  if outbuflen < inbuflen then (0, out)
  else
    if mem inbuf = 0x80#8 then
      let n := (inbuflen + 2 ^ 32 - 1) % 2 ^ 32
      (n, out.memcpy outbuf (fun i => mem (inbuf + 1 + i)) n)
    else
      let encmsg := inbuf + 1
      let inbuflen := (inbuflen + 2 ^ 32 - 1) % 2 ^ 32
      let inbuflen := inbuflen * 8 % 2 ^ 32
      let inbuflen := (inbuflen + 2 ^ 32 - (mem (encmsg - 1)).toNat) % 2 ^ 32
      huffDecLoop ht mem encmsg inbuflen outbuf maxMsglen 0 0 out

end QwNet
