/-
  QwNet.Huffman.Tables

  The constant tables of the packet compressor: the byte-reversal table of
  `bitswap.h` and the `q3` code tables of `huffmantable_q3.h`, entry by entry in
  the order of the source.
-/
import QwNet.Machine

namespace QwNet

/-- `struct huffenctable_s`. -/
structure HuffEncEntry where
  len : Byte
  code : BitVec 16
  deriving DecidableEq, Repr

/-- `struct huffdectable_s`. -/
structure HuffDecEntry where
  value : Byte
  len : Byte
  deriving DecidableEq, Repr

/-- `struct hufftables`. -/
structure HuffTables where
  huffenctable : List HuffEncEntry
  huffdectable : List HuffDecEntry

/-- `bitswaptable`. -/
def bitswaptable : List Nat := [
  0x00, 0x80, 0x40, 0xc0, 0x20, 0xa0, 0x60, 0xe0, 0x10, 0x90, 0x50, 0xd0, 0x30, 0xb0, 0x70, 0xf0,
  0x08, 0x88, 0x48, 0xc8, 0x28, 0xa8, 0x68, 0xe8, 0x18, 0x98, 0x58, 0xd8, 0x38, 0xb8, 0x78, 0xf8,
  0x04, 0x84, 0x44, 0xc4, 0x24, 0xa4, 0x64, 0xe4, 0x14, 0x94, 0x54, 0xd4, 0x34, 0xb4, 0x74, 0xf4,
  0x0c, 0x8c, 0x4c, 0xcc, 0x2c, 0xac, 0x6c, 0xec, 0x1c, 0x9c, 0x5c, 0xdc, 0x3c, 0xbc, 0x7c, 0xfc,
  0x02, 0x82, 0x42, 0xc2, 0x22, 0xa2, 0x62, 0xe2, 0x12, 0x92, 0x52, 0xd2, 0x32, 0xb2, 0x72, 0xf2,
  0x0a, 0x8a, 0x4a, 0xca, 0x2a, 0xaa, 0x6a, 0xea, 0x1a, 0x9a, 0x5a, 0xda, 0x3a, 0xba, 0x7a, 0xfa,
  0x06, 0x86, 0x46, 0xc6, 0x26, 0xa6, 0x66, 0xe6, 0x16, 0x96, 0x56, 0xd6, 0x36, 0xb6, 0x76, 0xf6,
  0x0e, 0x8e, 0x4e, 0xce, 0x2e, 0xae, 0x6e, 0xee, 0x1e, 0x9e, 0x5e, 0xde, 0x3e, 0xbe, 0x7e, 0xfe,
  0x01, 0x81, 0x41, 0xc1, 0x21, 0xa1, 0x61, 0xe1, 0x11, 0x91, 0x51, 0xd1, 0x31, 0xb1, 0x71, 0xf1,
  0x09, 0x89, 0x49, 0xc9, 0x29, 0xa9, 0x69, 0xe9, 0x19, 0x99, 0x59, 0xd9, 0x39, 0xb9, 0x79, 0xf9,
  0x05, 0x85, 0x45, 0xc5, 0x25, 0xa5, 0x65, 0xe5, 0x15, 0x95, 0x55, 0xd5, 0x35, 0xb5, 0x75, 0xf5,
  0x0d, 0x8d, 0x4d, 0xcd, 0x2d, 0xad, 0x6d, 0xed, 0x1d, 0x9d, 0x5d, 0xdd, 0x3d, 0xbd, 0x7d, 0xfd,
  0x03, 0x83, 0x43, 0xc3, 0x23, 0xa3, 0x63, 0xe3, 0x13, 0x93, 0x53, 0xd3, 0x33, 0xb3, 0x73, 0xf3,
  0x0b, 0x8b, 0x4b, 0xcb, 0x2b, 0xab, 0x6b, 0xeb, 0x1b, 0x9b, 0x5b, 0xdb, 0x3b, 0xbb, 0x7b, 0xfb,
  0x07, 0x87, 0x47, 0xc7, 0x27, 0xa7, 0x67, 0xe7, 0x17, 0x97, 0x57, 0xd7, 0x37, 0xb7, 0x77, 0xf7,
  0x0f, 0x8f, 0x4f, 0xcf, 0x2f, 0xaf, 0x6f, 0xef, 0x1f, 0x9f, 0x5f, 0xdf, 0x3f, 0xbf, 0x7f, 0xff]

/-- The initialisers of `huffenctable_q3`. -/
def huffenctableQ3Init : List (Nat × Nat) := [
  (2, 0x4000), (5, 0xd800), (7, 0x1200), (7, 0x3600), (8, 0x8500), (8, 0x8800), (7, 0x0800), (6, 0xfc00),
  (5, 0xa800), (7, 0x2c00), (7, 0x9600), (7, 0xd000), (7, 0xc800), (6, 0xb400), (8, 0x9c00), (9, 0x3500),
  (7, 0xa400), (9, 0x1a00), (9, 0x0f80), (9, 0x1f80), (10, 0xbb80), (10, 0xcfc0), (10, 0xd440), (10, 0xc4c0),
  (9, 0x2f00), (10, 0xb180), (10, 0xd500), (10, 0xc6c0), (10, 0xd780), (8, 0xc200), (9, 0xf200), (8, 0x2b00),
  (6, 0xec00), (10, 0xcb00), (9, 0x2200), (10, 0xb340), (10, 0xa3c0), (10, 0x9fc0), (10, 0xb0c0), (10, 0xb3c0),
  (9, 0x2900), (10, 0x3580), (10, 0xcc00), (10, 0x2800), (10, 0x8e40), (10, 0x0f40), (9, 0x2f80), (8, 0x1e00),
  (7, 0xe400), (8, 0xc300), (8, 0xf700), (9, 0xe980), (8, 0xca00), (8, 0x8d00), (9, 0xb000), (9, 0x8680),
  (9, 0xe000), (9, 0x8f00), (9, 0x9980), (10, 0x8980), (10, 0xc480), (9, 0x3d00), (9, 0x2280), (10, 0xcf80),
  (8, 0xf300), (7, 0x0a00), (7, 0x3e00), (7, 0x2000), (8, 0x8400), (8, 0x8a00), (9, 0x0100), (9, 0x0e00),
  (9, 0xbc80), (10, 0xc600), (10, 0xeb40), (10, 0x8ec0), (9, 0xb980), (10, 0xd540), (10, 0xe380), (10, 0xccc0),
  (9, 0x3480), (10, 0xb900), (10, 0xd680), (10, 0xd6c0), (10, 0xcb80), (10, 0x8e80), (10, 0xc780), (10, 0xcc40),
  (10, 0xeb00), (10, 0xd340), (9, 0x0e80), (9, 0x1500), (9, 0xe300), (9, 0xa080), (9, 0xd700), (8, 0x1b00),
  (9, 0xcf00), (8, 0x3c00), (9, 0xd580), (9, 0xf180), (9, 0xe900), (7, 0x0c00), (8, 0x8200), (9, 0xf280),
  (6, 0x3800), (8, 0x1400), (9, 0xbd00), (9, 0x2300), (8, 0x1900), (9, 0xf100), (8, 0x3000), (8, 0xcd00),
  (8, 0xa100), (8, 0x3100), (8, 0xe200), (8, 0x9e00), (7, 0x9a00), (7, 0x0200), (8, 0xe800), (8, 0x9800),
  (8, 0xd200), (8, 0x8700), (8, 0xc500), (8, 0xce00), (8, 0xf600), (7, 0x1600), (7, 0x1000), (7, 0xa600),
  (6, 0xf800), (7, 0x9400), (7, 0x3200), (7, 0xbe00), (8, 0xf000), (8, 0xc100), (8, 0x8000), (8, 0xe100),
  (8, 0xe600), (8, 0xe700), (8, 0xea00), (8, 0x2e00), (9, 0xd380), (9, 0x2380), (9, 0x8100), (9, 0xb200),
  (9, 0x8c80), (10, 0xc680), (9, 0x0180), (10, 0xebc0), (10, 0xd400), (10, 0xa280), (10, 0xd600), (10, 0xbc00),
  (10, 0xd4c0), (10, 0x9f00), (10, 0xc700), (10, 0xa240), (10, 0xd480), (10, 0x8c00), (10, 0xd7c0), (10, 0x9d80),
  (9, 0x2880), (10, 0x9f80), (10, 0xcc80), (10, 0x3400), (10, 0xbb40), (10, 0x8380), (10, 0xb8c0), (10, 0x8b80),
  (9, 0x1c80), (10, 0x8600), (10, 0xc740), (10, 0xa2c0), (10, 0xd640), (10, 0xb300), (10, 0xd300), (10, 0xb280),
  (9, 0x1c00), (10, 0x83c0), (10, 0xbc40), (10, 0x3dc0), (10, 0xa300), (10, 0x35c0), (10, 0xc7c0), (10, 0x9940),
  (10, 0xcbc0), (10, 0x2840), (10, 0xc040), (10, 0x3d80), (10, 0xb940), (10, 0x81c0), (10, 0xc640), (10, 0xb100),
  (8, 0x2a00), (9, 0xc080), (8, 0xba00), (6, 0x0400), (7, 0x9000), (10, 0xe3c0), (10, 0xe0c0), (8, 0x1d00),
  (9, 0x8f80), (10, 0x3440), (10, 0xa200), (10, 0xc000), (10, 0xb880), (10, 0xa380), (10, 0xb2c0), (10, 0xb800),
  (9, 0x0000), (10, 0x9dc0), (10, 0xbb00), (10, 0x8180), (10, 0xb080), (10, 0x9d00), (10, 0xb380), (10, 0x29c0),
  (10, 0xbd80), (10, 0x2980), (10, 0xb1c0), (10, 0x1a80), (10, 0xbdc0), (10, 0x8300), (10, 0xbbc0), (10, 0x1f00),
  (9, 0x8b00), (9, 0x8900), (10, 0x9900), (10, 0x1f40), (10, 0xc400), (10, 0x8e00), (10, 0xcb40), (10, 0x89c0),
  (7, 0x9200), (10, 0x8c40), (10, 0xe080), (10, 0x8640), (10, 0xc440), (8, 0x1800), (10, 0xa040), (10, 0x8340),
  (10, 0xeb80), (10, 0x0f00), (10, 0xa340), (10, 0x00c0), (10, 0x8bc0), (10, 0x15c0), (10, 0xb840), (11, 0x00a0),
  (10, 0xa000), (10, 0x1ac0), (10, 0x9f40), (10, 0x1580), (10, 0x9d40), (10, 0xb140), (7, 0xf400), (6, 0x2400)]

/-- The initialisers of `huffdectable_q3`. -/
def huffdectableQ3Init : List (Nat × Nat) := [
  (208, 9), (208, 9), (208, 9), (208, 9), (256, 11), (247, 11), (243, 10), (243, 10), (70, 9), (70, 9), (70, 9), (70, 9),
  (146, 9), (146, 9), (146, 9), (146, 9), (117, 7), (117, 7), (117, 7), (117, 7), (117, 7), (117, 7), (117, 7), (117, 7),
  (117, 7), (117, 7), (117, 7), (117, 7), (117, 7), (117, 7), (117, 7), (117, 7), (195, 6), (195, 6), (195, 6), (195, 6),
  (195, 6), (195, 6), (195, 6), (195, 6), (195, 6), (195, 6), (195, 6), (195, 6), (195, 6), (195, 6), (195, 6), (195, 6),
  (195, 6), (195, 6), (195, 6), (195, 6), (195, 6), (195, 6), (195, 6), (195, 6), (195, 6), (195, 6), (195, 6), (195, 6),
  (195, 6), (195, 6), (195, 6), (195, 6), (6, 7), (6, 7), (6, 7), (6, 7), (6, 7), (6, 7), (6, 7), (6, 7),
  (6, 7), (6, 7), (6, 7), (6, 7), (6, 7), (6, 7), (6, 7), (6, 7), (65, 7), (65, 7), (65, 7), (65, 7),
  (65, 7), (65, 7), (65, 7), (65, 7), (65, 7), (65, 7), (65, 7), (65, 7), (65, 7), (65, 7), (65, 7), (65, 7),
  (101, 7), (101, 7), (101, 7), (101, 7), (101, 7), (101, 7), (101, 7), (101, 7), (101, 7), (101, 7), (101, 7), (101, 7),
  (101, 7), (101, 7), (101, 7), (101, 7), (71, 9), (71, 9), (71, 9), (71, 9), (90, 9), (90, 9), (90, 9), (90, 9),
  (241, 10), (241, 10), (45, 10), (45, 10), (18, 9), (18, 9), (18, 9), (18, 9), (126, 7), (126, 7), (126, 7), (126, 7),
  (126, 7), (126, 7), (126, 7), (126, 7), (126, 7), (126, 7), (126, 7), (126, 7), (126, 7), (126, 7), (126, 7), (126, 7),
  (2, 7), (2, 7), (2, 7), (2, 7), (2, 7), (2, 7), (2, 7), (2, 7), (2, 7), (2, 7), (2, 7), (2, 7),
  (2, 7), (2, 7), (2, 7), (2, 7), (105, 8), (105, 8), (105, 8), (105, 8), (105, 8), (105, 8), (105, 8), (105, 8),
  (91, 9), (91, 9), (91, 9), (91, 9), (251, 10), (251, 10), (245, 10), (245, 10), (125, 7), (125, 7), (125, 7), (125, 7),
  (125, 7), (125, 7), (125, 7), (125, 7), (125, 7), (125, 7), (125, 7), (125, 7), (125, 7), (125, 7), (125, 7), (125, 7),
  (237, 8), (237, 8), (237, 8), (237, 8), (237, 8), (237, 8), (237, 8), (237, 8), (108, 8), (108, 8), (108, 8), (108, 8),
  (108, 8), (108, 8), (108, 8), (108, 8), (17, 9), (17, 9), (17, 9), (17, 9), (219, 10), (219, 10), (249, 10), (249, 10),
  (95, 8), (95, 8), (95, 8), (95, 8), (95, 8), (95, 8), (95, 8), (95, 8), (176, 9), (176, 9), (176, 9), (176, 9),
  (168, 9), (168, 9), (168, 9), (168, 9), (199, 8), (199, 8), (199, 8), (199, 8), (199, 8), (199, 8), (199, 8), (199, 8),
  (47, 8), (47, 8), (47, 8), (47, 8), (47, 8), (47, 8), (47, 8), (47, 8), (223, 10), (223, 10), (227, 10), (227, 10),
  (19, 9), (19, 9), (19, 9), (19, 9), (67, 7), (67, 7), (67, 7), (67, 7), (67, 7), (67, 7), (67, 7), (67, 7),
  (67, 7), (67, 7), (67, 7), (67, 7), (67, 7), (67, 7), (67, 7), (67, 7), (34, 9), (34, 9), (34, 9), (34, 9),
  (62, 9), (62, 9), (62, 9), (62, 9), (107, 9), (107, 9), (107, 9), (107, 9), (141, 9), (141, 9), (141, 9), (141, 9),
  (255, 6), (255, 6), (255, 6), (255, 6), (255, 6), (255, 6), (255, 6), (255, 6), (255, 6), (255, 6), (255, 6), (255, 6),
  (255, 6), (255, 6), (255, 6), (255, 6), (255, 6), (255, 6), (255, 6), (255, 6), (255, 6), (255, 6), (255, 6), (255, 6),
  (255, 6), (255, 6), (255, 6), (255, 6), (255, 6), (255, 6), (255, 6), (255, 6), (43, 10), (43, 10), (185, 10), (185, 10),
  (160, 9), (160, 9), (160, 9), (160, 9), (40, 9), (40, 9), (40, 9), (40, 9), (217, 10), (217, 10), (215, 10), (215, 10),
  (192, 8), (192, 8), (192, 8), (192, 8), (192, 8), (192, 8), (192, 8), (192, 8), (31, 8), (31, 8), (31, 8), (31, 8),
  (31, 8), (31, 8), (31, 8), (31, 8), (9, 7), (9, 7), (9, 7), (9, 7), (9, 7), (9, 7), (9, 7), (9, 7),
  (9, 7), (9, 7), (9, 7), (9, 7), (9, 7), (9, 7), (9, 7), (9, 7), (139, 8), (139, 8), (139, 8), (139, 8),
  (139, 8), (139, 8), (139, 8), (139, 8), (24, 9), (24, 9), (24, 9), (24, 9), (46, 9), (46, 9), (46, 9), (46, 9),
  (110, 8), (110, 8), (110, 8), (110, 8), (110, 8), (110, 8), (110, 8), (110, 8), (113, 8), (113, 8), (113, 8), (113, 8),
  (113, 8), (113, 8), (113, 8), (113, 8), (130, 7), (130, 7), (130, 7), (130, 7), (130, 7), (130, 7), (130, 7), (130, 7),
  (130, 7), (130, 7), (130, 7), (130, 7), (130, 7), (130, 7), (130, 7), (130, 7), (163, 10), (163, 10), (201, 10), (201, 10),
  (80, 9), (80, 9), (80, 9), (80, 9), (15, 9), (15, 9), (15, 9), (15, 9), (41, 10), (41, 10), (181, 10), (181, 10),
  (3, 7), (3, 7), (3, 7), (3, 7), (3, 7), (3, 7), (3, 7), (3, 7), (3, 7), (3, 7), (3, 7), (3, 7),
  (3, 7), (3, 7), (3, 7), (3, 7), (104, 6), (104, 6), (104, 6), (104, 6), (104, 6), (104, 6), (104, 6), (104, 6),
  (104, 6), (104, 6), (104, 6), (104, 6), (104, 6), (104, 6), (104, 6), (104, 6), (104, 6), (104, 6), (104, 6), (104, 6),
  (104, 6), (104, 6), (104, 6), (104, 6), (104, 6), (104, 6), (104, 6), (104, 6), (104, 6), (104, 6), (104, 6), (104, 6),
  (97, 8), (97, 8), (97, 8), (97, 8), (97, 8), (97, 8), (97, 8), (97, 8), (61, 9), (61, 9), (61, 9), (61, 9),
  (187, 10), (187, 10), (179, 10), (179, 10), (66, 7), (66, 7), (66, 7), (66, 7), (66, 7), (66, 7), (66, 7), (66, 7),
  (66, 7), (66, 7), (66, 7), (66, 7), (66, 7), (66, 7), (66, 7), (66, 7), (0, 2), (0, 2), (0, 2), (0, 2),
  (0, 2), (0, 2), (0, 2), (0, 2), (0, 2), (0, 2), (0, 2), (0, 2), (0, 2), (0, 2), (0, 2), (0, 2),
  (0, 2), (0, 2), (0, 2), (0, 2), (0, 2), (0, 2), (0, 2), (0, 2), (0, 2), (0, 2), (0, 2), (0, 2),
  (0, 2), (0, 2), (0, 2), (0, 2), (0, 2), (0, 2), (0, 2), (0, 2), (0, 2), (0, 2), (0, 2), (0, 2),
  (0, 2), (0, 2), (0, 2), (0, 2), (0, 2), (0, 2), (0, 2), (0, 2), (0, 2), (0, 2), (0, 2), (0, 2),
  (0, 2), (0, 2), (0, 2), (0, 2), (0, 2), (0, 2), (0, 2), (0, 2), (0, 2), (0, 2), (0, 2), (0, 2),
  (0, 2), (0, 2), (0, 2), (0, 2), (0, 2), (0, 2), (0, 2), (0, 2), (0, 2), (0, 2), (0, 2), (0, 2),
  (0, 2), (0, 2), (0, 2), (0, 2), (0, 2), (0, 2), (0, 2), (0, 2), (0, 2), (0, 2), (0, 2), (0, 2),
  (0, 2), (0, 2), (0, 2), (0, 2), (0, 2), (0, 2), (0, 2), (0, 2), (0, 2), (0, 2), (0, 2), (0, 2),
  (0, 2), (0, 2), (0, 2), (0, 2), (0, 2), (0, 2), (0, 2), (0, 2), (0, 2), (0, 2), (0, 2), (0, 2),
  (0, 2), (0, 2), (0, 2), (0, 2), (0, 2), (0, 2), (0, 2), (0, 2), (0, 2), (0, 2), (0, 2), (0, 2),
  (0, 2), (0, 2), (0, 2), (0, 2), (0, 2), (0, 2), (0, 2), (0, 2), (0, 2), (0, 2), (0, 2), (0, 2),
  (0, 2), (0, 2), (0, 2), (0, 2), (0, 2), (0, 2), (0, 2), (0, 2), (0, 2), (0, 2), (0, 2), (0, 2),
  (0, 2), (0, 2), (0, 2), (0, 2), (0, 2), (0, 2), (0, 2), (0, 2), (0, 2), (0, 2), (0, 2), (0, 2),
  (0, 2), (0, 2), (0, 2), (0, 2), (0, 2), (0, 2), (0, 2), (0, 2), (0, 2), (0, 2), (0, 2), (0, 2),
  (0, 2), (0, 2), (0, 2), (0, 2), (0, 2), (0, 2), (0, 2), (0, 2), (0, 2), (0, 2), (0, 2), (0, 2),
  (0, 2), (0, 2), (0, 2), (0, 2), (0, 2), (0, 2), (0, 2), (0, 2), (0, 2), (0, 2), (0, 2), (0, 2),
  (0, 2), (0, 2), (0, 2), (0, 2), (0, 2), (0, 2), (0, 2), (0, 2), (0, 2), (0, 2), (0, 2), (0, 2),
  (0, 2), (0, 2), (0, 2), (0, 2), (0, 2), (0, 2), (0, 2), (0, 2), (0, 2), (0, 2), (0, 2), (0, 2),
  (0, 2), (0, 2), (0, 2), (0, 2), (0, 2), (0, 2), (0, 2), (0, 2), (0, 2), (0, 2), (0, 2), (0, 2),
  (0, 2), (0, 2), (0, 2), (0, 2), (0, 2), (0, 2), (0, 2), (0, 2), (0, 2), (0, 2), (0, 2), (0, 2),
  (0, 2), (0, 2), (0, 2), (0, 2), (0, 2), (0, 2), (0, 2), (0, 2), (0, 2), (0, 2), (0, 2), (0, 2),
  (0, 2), (0, 2), (0, 2), (0, 2), (0, 2), (0, 2), (0, 2), (0, 2), (0, 2), (0, 2), (0, 2), (0, 2),
  (0, 2), (0, 2), (0, 2), (0, 2), (0, 2), (0, 2), (0, 2), (0, 2), (0, 2), (0, 2), (0, 2), (0, 2),
  (0, 2), (0, 2), (0, 2), (0, 2), (0, 2), (0, 2), (0, 2), (0, 2), (0, 2), (0, 2), (0, 2), (0, 2),
  (0, 2), (0, 2), (0, 2), (0, 2), (0, 2), (0, 2), (0, 2), (0, 2), (0, 2), (0, 2), (0, 2), (0, 2),
  (0, 2), (0, 2), (0, 2), (0, 2), (0, 2), (0, 2), (0, 2), (0, 2), (0, 2), (0, 2), (0, 2), (0, 2),
  (0, 2), (0, 2), (0, 2), (0, 2), (0, 2), (0, 2), (0, 2), (0, 2), (0, 2), (0, 2), (0, 2), (0, 2),
  (0, 2), (0, 2), (0, 2), (0, 2), (0, 2), (0, 2), (0, 2), (0, 2), (0, 2), (0, 2), (0, 2), (0, 2),
  (0, 2), (0, 2), (0, 2), (0, 2), (0, 2), (0, 2), (0, 2), (0, 2), (0, 2), (0, 2), (0, 2), (0, 2),
  (0, 2), (0, 2), (0, 2), (0, 2), (0, 2), (0, 2), (0, 2), (0, 2), (0, 2), (0, 2), (0, 2), (0, 2),
  (0, 2), (0, 2), (0, 2), (0, 2), (0, 2), (0, 2), (0, 2), (0, 2), (0, 2), (0, 2), (0, 2), (0, 2),
  (0, 2), (0, 2), (0, 2), (0, 2), (0, 2), (0, 2), (0, 2), (0, 2), (0, 2), (0, 2), (0, 2), (0, 2),
  (0, 2), (0, 2), (0, 2), (0, 2), (0, 2), (0, 2), (0, 2), (0, 2), (0, 2), (0, 2), (0, 2), (0, 2),
  (0, 2), (0, 2), (0, 2), (0, 2), (0, 2), (0, 2), (0, 2), (0, 2), (0, 2), (0, 2), (0, 2), (0, 2),
  (0, 2), (0, 2), (0, 2), (0, 2), (0, 2), (0, 2), (0, 2), (0, 2), (0, 2), (0, 2), (0, 2), (0, 2),
  (0, 2), (0, 2), (0, 2), (0, 2), (0, 2), (0, 2), (0, 2), (0, 2), (0, 2), (0, 2), (0, 2), (0, 2),
  (0, 2), (0, 2), (0, 2), (0, 2), (0, 2), (0, 2), (0, 2), (0, 2), (0, 2), (0, 2), (0, 2), (0, 2),
  (0, 2), (0, 2), (0, 2), (0, 2), (0, 2), (0, 2), (0, 2), (0, 2), (0, 2), (0, 2), (0, 2), (0, 2),
  (0, 2), (0, 2), (0, 2), (0, 2), (0, 2), (0, 2), (0, 2), (0, 2), (0, 2), (0, 2), (0, 2), (0, 2),
  (0, 2), (0, 2), (0, 2), (0, 2), (0, 2), (0, 2), (0, 2), (0, 2), (0, 2), (0, 2), (0, 2), (0, 2),
  (0, 2), (0, 2), (0, 2), (0, 2), (0, 2), (0, 2), (0, 2), (0, 2), (0, 2), (0, 2), (0, 2), (0, 2),
  (0, 2), (0, 2), (0, 2), (0, 2), (0, 2), (0, 2), (0, 2), (0, 2), (0, 2), (0, 2), (0, 2), (0, 2),
  (0, 2), (0, 2), (0, 2), (0, 2), (134, 8), (134, 8), (134, 8), (134, 8), (134, 8), (134, 8), (134, 8), (134, 8),
  (142, 9), (142, 9), (142, 9), (142, 9), (211, 10), (211, 10), (189, 10), (189, 10), (102, 8), (102, 8), (102, 8), (102, 8),
  (102, 8), (102, 8), (102, 8), (102, 8), (221, 10), (221, 10), (239, 10), (239, 10), (165, 10), (165, 10), (177, 10), (177, 10),
  (68, 8), (68, 8), (68, 8), (68, 8), (68, 8), (68, 8), (68, 8), (68, 8), (4, 8), (4, 8), (4, 8), (4, 8),
  (4, 8), (4, 8), (4, 8), (4, 8), (169, 10), (169, 10), (235, 10), (235, 10), (55, 9), (55, 9), (55, 9), (55, 9),
  (121, 8), (121, 8), (121, 8), (121, 8), (121, 8), (121, 8), (121, 8), (121, 8), (5, 8), (5, 8), (5, 8), (5, 8),
  (5, 8), (5, 8), (5, 8), (5, 8), (225, 9), (225, 9), (225, 9), (225, 9), (59, 10), (59, 10), (231, 10), (231, 10),
  (69, 8), (69, 8), (69, 8), (69, 8), (69, 8), (69, 8), (69, 8), (69, 8), (224, 9), (224, 9), (224, 9), (224, 9),
  (167, 10), (167, 10), (244, 10), (244, 10), (157, 10), (157, 10), (233, 10), (233, 10), (144, 9), (144, 9), (144, 9), (144, 9),
  (53, 8), (53, 8), (53, 8), (53, 8), (53, 8), (53, 8), (53, 8), (53, 8), (229, 10), (229, 10), (44, 10), (44, 10),
  (85, 10), (85, 10), (75, 10), (75, 10), (57, 9), (57, 9), (57, 9), (57, 9), (200, 9), (200, 9), (200, 9), (200, 9),
  (196, 7), (196, 7), (196, 7), (196, 7), (196, 7), (196, 7), (196, 7), (196, 7), (196, 7), (196, 7), (196, 7), (196, 7),
  (196, 7), (196, 7), (196, 7), (196, 7), (232, 7), (232, 7), (232, 7), (232, 7), (232, 7), (232, 7), (232, 7), (232, 7),
  (232, 7), (232, 7), (232, 7), (232, 7), (232, 7), (232, 7), (232, 7), (232, 7), (129, 7), (129, 7), (129, 7), (129, 7),
  (129, 7), (129, 7), (129, 7), (129, 7), (129, 7), (129, 7), (129, 7), (129, 7), (129, 7), (129, 7), (129, 7), (129, 7),
  (10, 7), (10, 7), (10, 7), (10, 7), (10, 7), (10, 7), (10, 7), (10, 7), (10, 7), (10, 7), (10, 7), (10, 7),
  (10, 7), (10, 7), (10, 7), (10, 7), (119, 8), (119, 8), (119, 8), (119, 8), (119, 8), (119, 8), (119, 8), (119, 8),
  (226, 10), (226, 10), (183, 10), (183, 10), (58, 9), (58, 9), (58, 9), (58, 9), (116, 7), (116, 7), (116, 7), (116, 7),
  (116, 7), (116, 7), (116, 7), (116, 7), (116, 7), (116, 7), (116, 7), (116, 7), (116, 7), (116, 7), (116, 7), (116, 7),
  (14, 8), (14, 8), (14, 8), (14, 8), (14, 8), (14, 8), (14, 8), (14, 8), (213, 10), (213, 10), (252, 10), (252, 10),
  (159, 10), (159, 10), (209, 10), (209, 10), (115, 8), (115, 8), (115, 8), (115, 8), (115, 8), (115, 8), (115, 8), (115, 8),
  (153, 10), (153, 10), (250, 10), (250, 10), (161, 10), (161, 10), (37, 10), (37, 10), (248, 10), (248, 10), (238, 10), (238, 10),
  (93, 9), (93, 9), (93, 9), (93, 9), (112, 8), (112, 8), (112, 8), (112, 8), (112, 8), (112, 8), (112, 8), (112, 8),
  (202, 10), (202, 10), (155, 10), (155, 10), (149, 10), (149, 10), (171, 10), (171, 10), (180, 10), (180, 10), (242, 10), (242, 10),
  (205, 10), (205, 10), (36, 10), (36, 10), (16, 7), (16, 7), (16, 7), (16, 7), (16, 7), (16, 7), (16, 7), (16, 7),
  (16, 7), (16, 7), (16, 7), (16, 7), (16, 7), (16, 7), (16, 7), (16, 7), (127, 7), (127, 7), (127, 7), (127, 7),
  (127, 7), (127, 7), (127, 7), (127, 7), (127, 7), (127, 7), (127, 7), (127, 7), (127, 7), (127, 7), (127, 7), (127, 7),
  (8, 5), (8, 5), (8, 5), (8, 5), (8, 5), (8, 5), (8, 5), (8, 5), (8, 5), (8, 5), (8, 5), (8, 5),
  (8, 5), (8, 5), (8, 5), (8, 5), (8, 5), (8, 5), (8, 5), (8, 5), (8, 5), (8, 5), (8, 5), (8, 5),
  (8, 5), (8, 5), (8, 5), (8, 5), (8, 5), (8, 5), (8, 5), (8, 5), (8, 5), (8, 5), (8, 5), (8, 5),
  (8, 5), (8, 5), (8, 5), (8, 5), (8, 5), (8, 5), (8, 5), (8, 5), (8, 5), (8, 5), (8, 5), (8, 5),
  (8, 5), (8, 5), (8, 5), (8, 5), (8, 5), (8, 5), (8, 5), (8, 5), (8, 5), (8, 5), (8, 5), (8, 5),
  (8, 5), (8, 5), (8, 5), (8, 5), (54, 9), (54, 9), (54, 9), (54, 9), (212, 10), (212, 10), (38, 10), (38, 10),
  (191, 10), (191, 10), (253, 10), (253, 10), (25, 10), (25, 10), (218, 10), (218, 10), (143, 9), (143, 9), (143, 9), (143, 9),
  (175, 10), (175, 10), (206, 10), (206, 10), (173, 10), (173, 10), (35, 10), (35, 10), (214, 10), (214, 10), (39, 10), (39, 10),
  (13, 6), (13, 6), (13, 6), (13, 6), (13, 6), (13, 6), (13, 6), (13, 6), (13, 6), (13, 6), (13, 6), (13, 6),
  (13, 6), (13, 6), (13, 6), (13, 6), (13, 6), (13, 6), (13, 6), (13, 6), (13, 6), (13, 6), (13, 6), (13, 6),
  (13, 6), (13, 6), (13, 6), (13, 6), (13, 6), (13, 6), (13, 6), (13, 6), (207, 10), (207, 10), (246, 10), (246, 10),
  (204, 10), (204, 10), (166, 10), (166, 10), (81, 10), (81, 10), (188, 10), (188, 10), (76, 9), (76, 9), (76, 9), (76, 9),
  (194, 8), (194, 8), (194, 8), (194, 8), (194, 8), (194, 8), (194, 8), (194, 8), (210, 10), (210, 10), (164, 10), (164, 10),
  (20, 10), (20, 10), (222, 10), (222, 10), (151, 10), (151, 10), (178, 10), (178, 10), (72, 9), (72, 9), (72, 9), (72, 9),
  (106, 9), (106, 9), (106, 9), (106, 9), (216, 10), (216, 10), (220, 10), (220, 10), (131, 7), (131, 7), (131, 7), (131, 7),
  (131, 7), (131, 7), (131, 7), (131, 7), (131, 7), (131, 7), (131, 7), (131, 7), (131, 7), (131, 7), (131, 7), (131, 7),
  (203, 10), (203, 10), (186, 10), (186, 10), (193, 9), (193, 9), (193, 9), (193, 9), (133, 8), (133, 8), (133, 8), (133, 8),
  (133, 8), (133, 8), (133, 8), (133, 8), (29, 8), (29, 8), (29, 8), (29, 8), (29, 8), (29, 8), (29, 8), (29, 8),
  (49, 8), (49, 8), (49, 8), (49, 8), (49, 8), (49, 8), (49, 8), (49, 8), (228, 10), (228, 10), (236, 10), (236, 10),
  (60, 10), (60, 10), (23, 10), (23, 10), (122, 8), (122, 8), (122, 8), (122, 8), (122, 8), (122, 8), (122, 8), (122, 8),
  (73, 10), (73, 10), (190, 10), (190, 10), (145, 10), (145, 10), (27, 10), (27, 10), (154, 10), (154, 10), (170, 10), (170, 10),
  (86, 10), (86, 10), (182, 10), (182, 10), (12, 7), (12, 7), (12, 7), (12, 7), (12, 7), (12, 7), (12, 7), (12, 7),
  (12, 7), (12, 7), (12, 7), (12, 7), (12, 7), (12, 7), (12, 7), (12, 7), (52, 8), (52, 8), (52, 8), (52, 8),
  (52, 8), (52, 8), (52, 8), (52, 8), (33, 10), (33, 10), (230, 10), (230, 10), (84, 10), (84, 10), (184, 10), (184, 10),
  (42, 10), (42, 10), (87, 10), (87, 10), (162, 10), (162, 10), (79, 10), (79, 10), (111, 8), (111, 8), (111, 8), (111, 8),
  (111, 8), (111, 8), (111, 8), (111, 8), (123, 8), (123, 8), (123, 8), (123, 8), (123, 8), (123, 8), (123, 8), (123, 8),
  (96, 9), (96, 9), (96, 9), (96, 9), (63, 10), (63, 10), (21, 10), (21, 10), (11, 7), (11, 7), (11, 7), (11, 7),
  (11, 7), (11, 7), (11, 7), (11, 7), (11, 7), (11, 7), (11, 7), (11, 7), (11, 7), (11, 7), (11, 7), (11, 7),
  (120, 8), (120, 8), (120, 8), (120, 8), (120, 8), (120, 8), (120, 8), (120, 8), (174, 10), (174, 10), (89, 10), (89, 10),
  (140, 9), (140, 9), (140, 9), (140, 9), (148, 10), (148, 10), (22, 10), (22, 10), (156, 10), (156, 10), (152, 10), (152, 10),
  (26, 10), (26, 10), (77, 10), (77, 10), (98, 9), (98, 9), (98, 9), (98, 9), (150, 10), (150, 10), (172, 10), (172, 10),
  (82, 10), (82, 10), (83, 10), (83, 10), (94, 9), (94, 9), (94, 9), (94, 9), (28, 10), (28, 10), (158, 10), (158, 10),
  (1, 5), (1, 5), (1, 5), (1, 5), (1, 5), (1, 5), (1, 5), (1, 5), (1, 5), (1, 5), (1, 5), (1, 5),
  (1, 5), (1, 5), (1, 5), (1, 5), (1, 5), (1, 5), (1, 5), (1, 5), (1, 5), (1, 5), (1, 5), (1, 5),
  (1, 5), (1, 5), (1, 5), (1, 5), (1, 5), (1, 5), (1, 5), (1, 5), (1, 5), (1, 5), (1, 5), (1, 5),
  (1, 5), (1, 5), (1, 5), (1, 5), (1, 5), (1, 5), (1, 5), (1, 5), (1, 5), (1, 5), (1, 5), (1, 5),
  (1, 5), (1, 5), (1, 5), (1, 5), (1, 5), (1, 5), (1, 5), (1, 5), (1, 5), (1, 5), (1, 5), (1, 5),
  (1, 5), (1, 5), (1, 5), (1, 5), (56, 9), (56, 9), (56, 9), (56, 9), (234, 10), (234, 10), (198, 10), (198, 10),
  (135, 8), (135, 8), (135, 8), (135, 8), (135, 8), (135, 8), (135, 8), (135, 8), (114, 8), (114, 8), (114, 8), (114, 8),
  (114, 8), (114, 8), (114, 8), (114, 8), (92, 9), (92, 9), (92, 9), (92, 9), (78, 10), (78, 10), (197, 10), (197, 10),
  (48, 7), (48, 7), (48, 7), (48, 7), (48, 7), (48, 7), (48, 7), (48, 7), (48, 7), (48, 7), (48, 7), (48, 7),
  (48, 7), (48, 7), (48, 7), (48, 7), (136, 8), (136, 8), (136, 8), (136, 8), (136, 8), (136, 8), (136, 8), (136, 8),
  (137, 8), (137, 8), (137, 8), (137, 8), (137, 8), (137, 8), (137, 8), (137, 8), (118, 8), (118, 8), (118, 8), (118, 8),
  (118, 8), (118, 8), (118, 8), (118, 8), (100, 9), (100, 9), (100, 9), (100, 9), (51, 9), (51, 9), (51, 9), (51, 9),
  (138, 8), (138, 8), (138, 8), (138, 8), (138, 8), (138, 8), (138, 8), (138, 8), (88, 10), (88, 10), (74, 10), (74, 10),
  (240, 10), (240, 10), (147, 10), (147, 10), (32, 6), (32, 6), (32, 6), (32, 6), (32, 6), (32, 6), (32, 6), (32, 6),
  (32, 6), (32, 6), (32, 6), (32, 6), (32, 6), (32, 6), (32, 6), (32, 6), (32, 6), (32, 6), (32, 6), (32, 6),
  (32, 6), (32, 6), (32, 6), (32, 6), (32, 6), (32, 6), (32, 6), (32, 6), (32, 6), (32, 6), (32, 6), (32, 6),
  (132, 8), (132, 8), (132, 8), (132, 8), (132, 8), (132, 8), (132, 8), (132, 8), (109, 9), (109, 9), (109, 9), (109, 9),
  (99, 9), (99, 9), (99, 9), (99, 9), (30, 9), (30, 9), (30, 9), (30, 9), (103, 9), (103, 9), (103, 9), (103, 9),
  (64, 8), (64, 8), (64, 8), (64, 8), (64, 8), (64, 8), (64, 8), (64, 8), (254, 7), (254, 7), (254, 7), (254, 7),
  (254, 7), (254, 7), (254, 7), (254, 7), (254, 7), (254, 7), (254, 7), (254, 7), (254, 7), (254, 7), (254, 7), (254, 7),
  (124, 8), (124, 8), (124, 8), (124, 8), (124, 8), (124, 8), (124, 8), (124, 8), (50, 8), (50, 8), (50, 8), (50, 8),
  (50, 8), (50, 8), (50, 8), (50, 8), (128, 6), (128, 6), (128, 6), (128, 6), (128, 6), (128, 6), (128, 6), (128, 6),
  (128, 6), (128, 6), (128, 6), (128, 6), (128, 6), (128, 6), (128, 6), (128, 6), (128, 6), (128, 6), (128, 6), (128, 6),
  (128, 6), (128, 6), (128, 6), (128, 6), (128, 6), (128, 6), (128, 6), (128, 6), (128, 6), (128, 6), (128, 6), (128, 6),
  (7, 6), (7, 6), (7, 6), (7, 6), (7, 6), (7, 6), (7, 6), (7, 6), (7, 6), (7, 6), (7, 6), (7, 6),
  (7, 6), (7, 6), (7, 6), (7, 6), (7, 6), (7, 6), (7, 6), (7, 6), (7, 6), (7, 6), (7, 6), (7, 6),
  (7, 6), (7, 6), (7, 6), (7, 6), (7, 6), (7, 6), (7, 6), (7, 6)]

/-- `hufftables_q3`: the initialisers stored in fields of their declared widths
    (entry 4 of the decoder table is written `256` and stored as `0`). -/
def hufftablesQ3 : HuffTables where
  huffenctable := huffenctableQ3Init.map fun e => ⟨BitVec.ofNat 8 e.1, BitVec.ofNat 16 e.2⟩
  huffdectable := huffdectableQ3Init.map fun e => ⟨BitVec.ofNat 8 e.1, BitVec.ofNat 8 e.2⟩

end QwNet
