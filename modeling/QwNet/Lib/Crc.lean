/-
  QwNet.Lib.Crc

  Cyclic redundancy checks, a bit at a time and a byte at a time.

  For every bit of the message, most significant first, the register moves up one
  place, and takes the polynomial if the bit that falls out is not the one of the
  message.  This is linear in exclusive or (`shift_xor`), and a register that meets its
  own bits only moves (`ofBits_self`); so eight bits are one look into a table of what
  they leave in an empty register.
-/
import Mathlib.Data.List.Basic

namespace Crc

variable {w : Nat}

/-- One bit of the message. -/
def shift (poly crc : BitVec w) (bit : Bool) : BitVec w :=
  if crc.msb != bit then crc <<< 1 ^^^ poly else crc <<< 1

/-- The register after some bits, from `init` on. -/
def ofBits (poly init : BitVec w) (bits : List Bool) : BitVec w := bits.foldl (shift poly) init

/-- The bits of a byte, most significant first. -/
def byteBits (b : BitVec 8) : List Bool := (List.range 8).map b.getMsbD

/-- The register after some bytes. -/
def ofBytes (poly init : BitVec w) (bytes : List (BitVec 8)) : BitVec w :=
  ofBits poly init (bytes.flatMap byteBits)

/-- What a byte leaves in an empty register. -/
def entry (poly : BitVec w) (b : BitVec 8) : BitVec w := ofBits poly 0#w (byteBits b)

/-- The eight bits of the register that fall out next. -/
def top (crc : BitVec w) : BitVec 8 := (crc >>> (w - 8)).setWidth 8

theorem shift_eq (poly crc : BitVec w) (bit : Bool) :
    shift poly crc bit = crc <<< 1 ^^^ if crc.msb ^^ bit then poly else 0#w := by
  unfold shift
  cases crc.msb <;> cases bit <;> simp

theorem take_xor (poly : BitVec w) (a b : Bool) : (if a ^^ b then poly else 0#w)
    = (if a then poly else 0#w) ^^^ if b then poly else 0#w := by
  cases a <;> cases b <;> simp

theorem shift_xor (poly x y : BitVec w) (a b : Bool) :
    shift poly (x ^^^ y) (a ^^ b) = shift poly x a ^^^ shift poly y b := by
  have hbit : ((x ^^^ y).msb ^^ (a ^^ b)) = ((x.msb ^^ a) ^^ (y.msb ^^ b)) := by
    rw [BitVec.msb_xor]
    cases x.msb <;> cases y.msb <;> cases a <;> cases b <;> rfl
  rw [shift_eq, shift_eq, shift_eq, hbit, take_xor, BitVec.shiftLeft_xor_distrib]
  ac_rfl

theorem ofBits_xor (poly : BitVec w) (ks : List Nat) (f g : Nat → Bool) (x y : BitVec w) :
    ofBits poly (x ^^^ y) (ks.map fun k => f k ^^ g k)
      = ofBits poly x (ks.map f) ^^^ ofBits poly y (ks.map g) := by
  induction ks generalizing x y with
  | nil => rfl
  | cons k ks ih =>
    show ofBits poly (shift poly (x ^^^ y) (f k ^^ g k)) _
      = ofBits poly (shift poly x (f k)) _ ^^^ ofBits poly (shift poly y (g k)) _
    rw [shift_xor]
    exact ih _ _

/-- No polynomial is taken while the bits of the message are those that fall out. -/
theorem ofBits_self (poly crc : BitVec w) (n : Nat) :
    ofBits poly crc ((List.range n).map crc.getMsbD) = crc <<< n := by
  induction n with
  | zero => exact (BitVec.shiftLeft_zero crc).symm
  | succ n ih =>
    have hbit : (crc <<< n).msb = crc.getMsbD n := by
      rw [BitVec.msb, BitVec.getMsbD_shiftLeft, Nat.zero_add]
    rw [List.range_succ, List.map_append, ofBits, List.foldl_append]
    show shift poly (ofBits poly crc ((List.range n).map crc.getMsbD)) (crc.getMsbD n) = _
    rw [ih, shift, hbit, BitVec.shiftLeft_add]
    simp

theorem getMsbD_top (hw : 8 ≤ w) (crc : BitVec w) {k : Nat} (hk : k < 8) :
    (top crc).getMsbD k = crc.getMsbD k := by
  rw [top, BitVec.getMsbD, BitVec.getMsbD, BitVec.getLsbD_setWidth, BitVec.getLsbD_ushiftRight,
    show w - 8 + (8 - 1 - k) = w - 1 - k by omega]
  simp [hk, show k < w by omega, show 8 - 1 - k < 8 by omega]

/-- A byte of the message moves the register up by eight, and one entry of the table comes in. -/
theorem ofBits_byteBits (hw : 8 ≤ w) (poly crc : BitVec w) (b : BitVec 8) :
    ofBits poly crc (byteBits b) = crc <<< 8 ^^^ entry poly (top crc ^^^ b) := by
  have hown : (List.range 8).map (top crc).getMsbD = (List.range 8).map crc.getMsbD :=
    List.map_congr_left fun k hk => getMsbD_top hw crc (List.mem_range.mp hk)
  have hbits : byteBits b
      = (List.range 8).map fun k => (top crc).getMsbD k ^^ (top crc ^^^ b).getMsbD k := by
    refine List.map_congr_left fun k _ => ?_
    rw [BitVec.getMsbD_xor, ← Bool.xor_assoc, Bool.xor_self, Bool.false_xor]
  calc ofBits poly crc (byteBits b)
      = ofBits poly (crc ^^^ 0#w) (byteBits b) := by rw [BitVec.xor_zero]
    _ = ofBits poly crc ((List.range 8).map crc.getMsbD) ^^^ entry poly (top crc ^^^ b) := by
      rw [hbits, ofBits_xor, hown, entry, byteBits]
    _ = crc <<< 8 ^^^ entry poly (top crc ^^^ b) := by rw [ofBits_self]

/-- The bitwise register, a byte at a time. -/
theorem ofBytes_eq (hw : 8 ≤ w) (poly init : BitVec w) (bytes : List (BitVec 8)) :
    ofBytes poly init bytes
      = bytes.foldl (fun (crc : BitVec w) b => crc <<< 8 ^^^ entry poly (top crc ^^^ b)) init := by
  induction bytes generalizing init with
  | nil => rfl
  | cons b bytes ih =>
    have hcons : ofBytes poly init (b :: bytes)
        = ofBytes poly (ofBits poly init (byteBits b)) bytes := by
      rw [ofBytes, List.flatMap_cons, ofBits, List.foldl_append]
      rfl
    rw [hcons, ih, List.foldl_cons, ofBits_byteBits hw]

end Crc
