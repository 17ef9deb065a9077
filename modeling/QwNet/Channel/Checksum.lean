/-
  QwNet.Channel.Checksum

  The checksum byte of a movement packet, from common.c.
-/
import QwNet.Machine
import QwNet.Lib.Crc

namespace QwNet

/-- `crctable`. -/
def crctable : List Nat := [
  0x0000, 0x1021, 0x2042, 0x3063, 0x4084, 0x50a5, 0x60c6, 0x70e7, 0x8108, 0x9129, 0xa14a, 0xb16b,
  0xc18c, 0xd1ad, 0xe1ce, 0xf1ef, 0x1231, 0x0210, 0x3273, 0x2252, 0x52b5, 0x4294, 0x72f7, 0x62d6,
  0x9339, 0x8318, 0xb37b, 0xa35a, 0xd3bd, 0xc39c, 0xf3ff, 0xe3de, 0x2462, 0x3443, 0x0420, 0x1401,
  0x64e6, 0x74c7, 0x44a4, 0x5485, 0xa56a, 0xb54b, 0x8528, 0x9509, 0xe5ee, 0xf5cf, 0xc5ac, 0xd58d,
  0x3653, 0x2672, 0x1611, 0x0630, 0x76d7, 0x66f6, 0x5695, 0x46b4, 0xb75b, 0xa77a, 0x9719, 0x8738,
  0xf7df, 0xe7fe, 0xd79d, 0xc7bc, 0x48c4, 0x58e5, 0x6886, 0x78a7, 0x0840, 0x1861, 0x2802, 0x3823,
  0xc9cc, 0xd9ed, 0xe98e, 0xf9af, 0x8948, 0x9969, 0xa90a, 0xb92b, 0x5af5, 0x4ad4, 0x7ab7, 0x6a96,
  0x1a71, 0x0a50, 0x3a33, 0x2a12, 0xdbfd, 0xcbdc, 0xfbbf, 0xeb9e, 0x9b79, 0x8b58, 0xbb3b, 0xab1a,
  0x6ca6, 0x7c87, 0x4ce4, 0x5cc5, 0x2c22, 0x3c03, 0x0c60, 0x1c41, 0xedae, 0xfd8f, 0xcdec, 0xddcd,
  0xad2a, 0xbd0b, 0x8d68, 0x9d49, 0x7e97, 0x6eb6, 0x5ed5, 0x4ef4, 0x3e13, 0x2e32, 0x1e51, 0x0e70,
  0xff9f, 0xefbe, 0xdfdd, 0xcffc, 0xbf1b, 0xaf3a, 0x9f59, 0x8f78, 0x9188, 0x81a9, 0xb1ca, 0xa1eb,
  0xd10c, 0xc12d, 0xf14e, 0xe16f, 0x1080, 0x00a1, 0x30c2, 0x20e3, 0x5004, 0x4025, 0x7046, 0x6067,
  0x83b9, 0x9398, 0xa3fb, 0xb3da, 0xc33d, 0xd31c, 0xe37f, 0xf35e, 0x02b1, 0x1290, 0x22f3, 0x32d2,
  0x4235, 0x5214, 0x6277, 0x7256, 0xb5ea, 0xa5cb, 0x95a8, 0x8589, 0xf56e, 0xe54f, 0xd52c, 0xc50d,
  0x34e2, 0x24c3, 0x14a0, 0x0481, 0x7466, 0x6447, 0x5424, 0x4405, 0xa7db, 0xb7fa, 0x8799, 0x97b8,
  0xe75f, 0xf77e, 0xc71d, 0xd73c, 0x26d3, 0x36f2, 0x0691, 0x16b0, 0x6657, 0x7676, 0x4615, 0x5634,
  0xd94c, 0xc96d, 0xf90e, 0xe92f, 0x99c8, 0x89e9, 0xb98a, 0xa9ab, 0x5844, 0x4865, 0x7806, 0x6827,
  0x18c0, 0x08e1, 0x3882, 0x28a3, 0xcb7d, 0xdb5c, 0xeb3f, 0xfb1e, 0x8bf9, 0x9bd8, 0xabbb, 0xbb9a,
  0x4a75, 0x5a54, 0x6a37, 0x7a16, 0x0af1, 0x1ad0, 0x2ab3, 0x3a92, 0xfd2e, 0xed0f, 0xdd6c, 0xcd4d,
  0xbdaa, 0xad8b, 0x9de8, 0x8dc9, 0x7c26, 0x6c07, 0x5c64, 0x4c45, 0x3ca2, 0x2c83, 0x1ce0, 0x0cc1,
  0xef1f, 0xff3e, 0xcf5d, 0xdf7c, 0xaf9b, 0xbfba, 0x8fd9, 0x9ff8, 0x6e17, 0x7e36, 0x4e55, 0x5e74,
  0x2e93, 0x3eb2, 0x0ed1, 0x1ef0]

/-- `chktbl`: 1024 bytes, of which the second half has no initialiser and is zero. -/
def chktbl : List Nat := [
  0x78, 0xd2, 0x94, 0xe3, 0x41, 0xec, 0xd6, 0xd5, 0xcb, 0xfc, 0xdb, 0x8a, 0x4b, 0xcc, 0x85, 0x01,
  0x23, 0xd2, 0xe5, 0xf2, 0x29, 0xa7, 0x45, 0x94, 0x4a, 0x62, 0xe3, 0xa5, 0x6f, 0x3f, 0xe1, 0x7a,
  0x64, 0xed, 0x5c, 0x99, 0x29, 0x87, 0xa8, 0x78, 0x59, 0x0d, 0xaa, 0x0f, 0x25, 0x0a, 0x5c, 0x58,
  0xfb, 0x00, 0xa7, 0xa8, 0x8a, 0x1d, 0x86, 0x80, 0xc5, 0x1f, 0xd2, 0x28, 0x69, 0x71, 0x58, 0xc3,
  0x51, 0x90, 0xe1, 0xf8, 0x6a, 0xf3, 0x8f, 0xb0, 0x68, 0xdf, 0x95, 0x40, 0x5c, 0xe4, 0x24, 0x6b,
  0x29, 0x19, 0x71, 0x3f, 0x42, 0x63, 0x6c, 0x48, 0xe7, 0xad, 0xa8, 0x4b, 0x91, 0x8f, 0x42, 0x36,
  0x34, 0xe7, 0x32, 0x55, 0x59, 0x2d, 0x36, 0x38, 0x38, 0x59, 0x9b, 0x08, 0x16, 0x4d, 0x8d, 0xf8,
  0x0a, 0xa4, 0x52, 0x01, 0xbb, 0x52, 0xa9, 0xfd, 0x40, 0x18, 0x97, 0x37, 0xff, 0xc9, 0x82, 0x27,
  0xb2, 0x64, 0x60, 0xce, 0x00, 0xd9, 0x04, 0xf0, 0x9e, 0x99, 0xbd, 0xce, 0x8f, 0x90, 0x4a, 0xdd,
  0xe1, 0xec, 0x19, 0x14, 0xb1, 0xfb, 0xca, 0x1e, 0x98, 0x0f, 0xd4, 0xcb, 0x80, 0xd6, 0x05, 0x63,
  0xfd, 0xa0, 0x74, 0xa6, 0x86, 0xf6, 0x19, 0x98, 0x76, 0x27, 0x68, 0xf7, 0xe9, 0x09, 0x9a, 0xf2,
  0x2e, 0x42, 0xe1, 0xbe, 0x64, 0x48, 0x2a, 0x74, 0x30, 0xbb, 0x07, 0xcc, 0x1f, 0xd4, 0x91, 0x9d,
  0xac, 0x55, 0x53, 0x25, 0xb9, 0x64, 0xf7, 0x58, 0x4c, 0x34, 0x16, 0xbc, 0xf6, 0x12, 0x2b, 0x65,
  0x68, 0x25, 0x2e, 0x29, 0x1f, 0xbb, 0xb9, 0xee, 0x6d, 0x0c, 0x8e, 0xbb, 0xd2, 0x5f, 0x1d, 0x8f,
  0xc1, 0x39, 0xf9, 0x8d, 0xc0, 0x39, 0x75, 0xcf, 0x25, 0x17, 0xbe, 0x96, 0xaf, 0x98, 0x9f, 0x5f,
  0x65, 0x15, 0xc4, 0x62, 0xf8, 0x55, 0xfc, 0xab, 0x54, 0xcf, 0xdc, 0x14, 0x06, 0xc8, 0xfc, 0x42,
  0xd3, 0xf0, 0xad, 0x10, 0x08, 0xcd, 0xd4, 0x11, 0xbb, 0xca, 0x67, 0xc6, 0x48, 0x5f, 0x9d, 0x59,
  0xe3, 0xe8, 0x53, 0x67, 0x27, 0x2d, 0x34, 0x9e, 0x9e, 0x24, 0x29, 0xdb, 0x69, 0x99, 0x86, 0xf9,
  0x20, 0xb5, 0xbb, 0x5b, 0xb0, 0xf9, 0xc3, 0x67, 0xad, 0x1c, 0x9c, 0xf7, 0xcc, 0xef, 0xce, 0x69,
  0xe0, 0x26, 0x8f, 0x79, 0xbd, 0xca, 0x10, 0x17, 0xda, 0xa9, 0x88, 0x57, 0x9b, 0x15, 0x24, 0xba,
  0x84, 0xd0, 0xeb, 0x4d, 0x14, 0xf5, 0xfc, 0xe6, 0x51, 0x6c, 0x6f, 0x64, 0x6b, 0x73, 0xec, 0x85,
  0xf1, 0x6f, 0xe1, 0x67, 0x25, 0x10, 0x77, 0x32, 0x9e, 0x85, 0x6e, 0x69, 0xb1, 0x83, 0x00, 0xe4,
  0x13, 0xa4, 0x45, 0x34, 0x3b, 0x40, 0xff, 0x41, 0x82, 0x89, 0x79, 0x57, 0xfd, 0xd2, 0x8e, 0xe8,
  0xfc, 0x1d, 0x19, 0x21, 0x12, 0x00, 0xd7, 0x66, 0xe5, 0xc7, 0x10, 0x1d, 0xcb, 0x75, 0xe8, 0xfa,
  0xb6, 0xee, 0x7b, 0x2f, 0x1a, 0x25, 0x24, 0xb9, 0x9f, 0x1d, 0x78, 0xfb, 0x84, 0xd0, 0x17, 0x05,
  0x71, 0xb3, 0xc8, 0x18, 0xff, 0x62, 0xee, 0xed, 0x53, 0xab, 0x78, 0xd3, 0x65, 0x2d, 0xbb, 0xc7,
  0xc1, 0xe7, 0x70, 0xa2, 0x43, 0x2c, 0x7c, 0xc7, 0x16, 0x04, 0xd2, 0x45, 0xd5, 0x6b, 0x6c, 0x7a,
  0x5e, 0xa1, 0x50, 0x2e, 0x31, 0x5b, 0xcc, 0xe8, 0x65, 0x8b, 0x16, 0x85, 0xbf, 0x82, 0x83, 0xfb,
  0xde, 0x9f, 0x36, 0x48, 0x32, 0x79, 0xd6, 0x9b, 0xfb, 0x52, 0x45, 0xbf, 0x43, 0xf7, 0x0b, 0x0b,
  0x19, 0x19, 0x31, 0xc3, 0x85, 0xec, 0x1d, 0x8c, 0x20, 0xf0, 0x3a, 0xfa, 0x80, 0x4d, 0x2c, 0x7d,
  0xac, 0x60, 0x09, 0xc0, 0x40, 0xee, 0xb9, 0xeb, 0x13, 0x5b, 0xe8, 0x2b, 0xb1, 0x20, 0xf0, 0xce,
  0x4c, 0xbd, 0xc6, 0x04, 0x86, 0x70, 0xc6, 0x33, 0xc3, 0x15, 0x0f, 0x65, 0x19, 0xfd, 0xc2, 0xd3]

/-- `CRC_Block`. -/
def crcBlock (block : List Byte) : BitVec 16 :=
  block.foldl (fun crc b =>
    crc <<< 8 ^^^ BitVec.ofNat 16 (crctable.getD (crc >>> 8 ^^^ b.setWidth 16).toNat 0)) 0xffff#16

/-- `COM_BlockSequenceCRCByte`: at most 60 bytes count, then four that depend on the
    sequence number. -/
def comBlockSequenceCRCByte (base : List Byte) (sequence : BitVec 32) : Byte :=
  let p := fun k => BitVec.ofNat 8 (chktbl.getD (sequence.toNat % (1024 - 4) + k) 0)
  let chkb := base.take 60 ++ [sequence.setWidth 8 ^^^ p 0, p 1, (sequence >>> 8).setWidth 8 ^^^ p 2,
    p 3]
  (crcBlock chkb).setWidth 8

/-! ## The checksum, a bit at a time -/

/-- The table has what each byte leaves in an empty register. -/
theorem crctable_eq : crctable
    = (List.range 256).map fun i => (Crc.entry 0x1021#16 (BitVec.ofNat 8 i)).toNat := by
  decide +kernel

theorem crctable_length : crctable.length = 256 := by
  rw [crctable_eq, List.length_map, List.length_range]

/-- The byte that falls out of the register and the one of the block make the index. -/
theorem crcIndex_eq (crc : BitVec 16) (b : Byte) :
    (crc >>> 8 ^^^ b.setWidth 16).toNat = (Crc.top crc ^^^ b).toNat := by
  have htop : crc >>> 8 = (Crc.top crc).setWidth 16 := by
    apply BitVec.eq_of_getLsbD_eq
    intro i hi
    rw [Crc.top, BitVec.getLsbD_setWidth, BitVec.getLsbD_setWidth, BitVec.getLsbD_ushiftRight]
    by_cases h8 : i < 8
    · simp [h8, hi]
    · simp [h8, BitVec.getLsbD_of_ge crc (8 + i) (by omega)]
  rw [htop, ← BitVec.setWidth_xor, BitVec.toNat_setWidth]
  exact Nat.mod_eq_of_lt (Nat.lt_of_lt_of_le (BitVec.isLt _) (by decide))

theorem crctable_getD (b : Byte) :
    BitVec.ofNat 16 (crctable.getD b.toNat 0) = Crc.entry 0x1021#16 b := by
  have hb : b.toNat < 256 := b.isLt
  rw [crctable_eq]
  simp [List.getD_eq_getElem?_getD, hb]

/-- `CRC_Block` divides by the polynomial `0x1021`, from `0xffff` on. -/
theorem crcBlock_eq (block : List Byte) :
    crcBlock block = Crc.ofBytes 0x1021#16 0xffff#16 block := by
  rw [crcBlock, Crc.ofBytes_eq (by decide)]
  congr 1
  funext crc b
  rw [crcIndex_eq, crctable_getD]

/-- The CRC is CCITT's. -/
example : crcBlock [0x31, 0x32, 0x33, 0x34, 0x35, 0x36, 0x37, 0x38, 0x39] = 0x29b1#16 := by decide

/-- The four bytes that depend on the sequence number; `p` points to `1020` places of `chktbl`. -/
def sequenceBytes (sequence : BitVec 32) : List Byte :=
  let p := fun k => BitVec.ofNat 8 (chktbl.getD (sequence.toNat % 1020 + k) 0)
  [sequence.setWidth 8 ^^^ p 0, p 1, (sequence >>> 8).setWidth 8 ^^^ p 2, p 3]

/-- The checksum of `chkb` stays within its three arrays. -/
structure InArrays (sequence : BitVec 32) (chkb : List Byte) : Prop where
  chktbl_lt : ∀ k < 4, sequence.toNat % 1020 + k < 1024
  chkb_le : chkb.length ≤ 60 + 4
  crctable_lt : ∀ pre b, pre ++ [b] <+: chkb →
    (crcBlock pre >>> 8 ^^^ b.setWidth 16).toNat < crctable.length

theorem inArrays (sequence : BitVec 32) {block : List Byte} (hblock : block.length ≤ 60) :
    InArrays sequence (block ++ sequenceBytes sequence) where
  chktbl_lt k hk := by
    have hmod : sequence.toNat % 1020 < 1020 := Nat.mod_lt _ (by decide)
    omega
  chkb_le := by
    rw [List.length_append]
    exact Nat.add_le_add_right hblock 4
  crctable_lt pre b _ := by
    rw [crcIndex_eq, crctable_length]
    exact BitVec.isLt _

/-- The checksum byte is the low byte of the bitwise CRC, and no array is left. -/
theorem checksum_bitwise : (∀ block, crcBlock block = Crc.ofBytes 0x1021#16 0xffff#16 block) ∧
    ∀ (base : Nat → Byte) (length : Nat) (sequence : BitVec 32),
      let chkb := (List.range (min length 60)).map base ++ sequenceBytes sequence
      comBlockSequenceCRCByte ((List.range length).map base) sequence
          = (Crc.ofBytes 0x1021#16 0xffff#16 chkb).setWidth 8 ∧
        InArrays sequence chkb := by
  refine ⟨crcBlock_eq, fun base length sequence => ⟨?_, inArrays sequence ?_⟩⟩
  · have htake : ((List.range length).map base).take 60 = (List.range (min length 60)).map base := by
      rw [← List.map_take, List.take_range, Nat.min_comm]
    rw [← crcBlock_eq, ← htake]
    rfl
  · rw [List.length_map, List.length_range]
    exact Nat.min_le_right _ _

end QwNet
