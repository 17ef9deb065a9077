/-
  QwNet.Net.Address

  Network addresses and their text: `NET_StringToAdr` and `NET_AdrToString`.

  A string is the list of its characters without the terminating null byte, and a
  pointer into it is what remains from there on.  The scanners hand back lengths as
  `unsigned int`.
-/
import Mathlib.Data.List.GetD
import QwNet.Lib.Digits
import QwNet.Machine

namespace QwNet

/-- A string of C: it ends at its first null byte. -/
structure NulTerminated where
  chars : List Byte
  nonzero : ∀ c ∈ chars, c ≠ 0#8

/-- `*s`. -/
def char (s : List Byte) : Byte := s.headD 0#8

@[simp] theorem char_nil : char [] = 0#8 := rfl

@[simp] theorem char_cons (c : Byte) (s : List Byte) : char (c :: s) = c := rfl

/-- `enum netaddrtype`. -/
inductive NetAddrType where
  | loopback
  | ipv4
  | ipv6
  | numtypes
  deriving DecidableEq

/-- `struct netaddr`.  Both members of its union begin with the bytes of the address, of which
    an IPv4 address has four; the port is that of the member that `type` names. -/
structure StructNetaddr where
  type : NetAddrType
  address : Fin 16 → Byte
  port : BitVec 16

namespace StructNetaddr

/-- `a->addr.ipv4.address[i]` and `a->addr.ipv6.address[i]`. -/
def byte (a : StructNetaddr) (i : Nat) : Byte := a.address (Fin.ofNat 16 i)

/-- `a->addr.ipv4.address[i] = value`. -/
def setByte (i : Nat) (value : Byte) (a : StructNetaddr) : StructNetaddr :=
  { a with address := Function.update a.address (Fin.ofNat 16 i) value }

/-- `memset(a, 0, sizeof(*a))`. -/
def zero : StructNetaddr := ⟨.loopback, fun _ => 0#8, 0#16⟩

end StructNetaddr

/-! ## Parsing -/

/-- What a scanner comes to. -/
structure Scan (α : Type) where
  result : α
  addr : StructNetaddr
  /-- Everything that `*value` was in `NET_StringDecToUInt`. -/
  values : List (BitVec 32)
  /-- The names given to `Sys_Net_ResolveName`. -/
  resolved : List (List Byte)

/-- `len`, `*value`, and everything that `*value` was. -/
structure DecScan where
  len : BitVec 32
  value : BitVec 32
  values : List (BitVec 32)

/-- One digit. -/
def DecScan.next (c : Byte) (d : DecScan) : DecScan :=
  let tens := d.value * 10#32
  let value := tens + (c.setWidth 32 - 48#32)
  ⟨d.len + 1#32, value, d.values ++ [tens, value]⟩

/-- The loop of `NET_StringDecToUInt`. -/
def decLoop (maxvalue : BitVec 32) : List Byte → DecScan → DecScan
  | [], d => d
  | c :: s, d =>
    if 48#8 ≤ c ∧ c ≤ 57#8 ∧ d.value ≤ maxvalue then decLoop maxvalue s (d.next c) else d

/-- `NET_StringDecToUInt`. -/
def netStringDecToUInt (s : List Byte) (maxvalue : BitVec 32) : DecScan :=
  let d := decLoop maxvalue s ⟨0#32, 0#32, [0#32]⟩
  if maxvalue < d.value then { d with len := 0#32 } else d

/-- `NET_StringToIPv6`. -/
def netStringToIPv6 (_s : List Byte) (_a : StructNetaddr) : BitVec 32 := 0#32

/-- What follows number `i` of an IPv4 address: a dot, or the end of the address. -/
def afterNumber (i : Nat) (s : List Byte) : Option (List Byte) :=
  if i = 3 then if char s ≠ 0#8 ∧ char s ≠ 58#8 then none else some s
  else if char s ≠ 46#8 then none else some (s.drop 1)

/-- The loop of `NET_StringToIPv4` with `left` passes left: where `s` is behind it, or none if the
    function returned 0. -/
def ipv4Loop : Nat → List Byte → StructNetaddr → Scan (Option (List Byte))
  | 0, s, a => ⟨some s, a, [], []⟩
  | left + 1, s, a =>
    let i := 3 - left
    let d := netStringDecToUInt s 255#32
    if d.len = 0#32 then ⟨none, a, d.values, []⟩
    else
      match afterNumber i (s.drop d.len.toNat) with
      | none => ⟨none, a, d.values, []⟩
      | some s =>
        let r := ipv4Loop left s (a.setByte i (d.value.setWidth 8))
        { r with values := d.values ++ r.values }

/-- `NET_StringToIPv4`. -/
def netStringToIPv4 (origs : List Byte) (a : StructNetaddr) : Scan (BitVec 32) :=
  let r := ipv4Loop 4 origs a
  match r.result with
  | none => ⟨0#32, r.addr, r.values, []⟩
  | some s => ⟨BitVec.ofNat 32 (origs.length - s.length), { r.addr with type := .ipv4 }, r.values, []⟩

/-- `Sys_Net_ResolveName`: it writes to the address, and tells whether it succeeds. -/
abbrev Resolver : Type := List Byte → StructNetaddr → Bool × StructNetaddr

/-- The end of `NET_StringToNetAddrNoPort`: what is before a colon is a name. -/
def resolveHostname (resolve : Resolver) (malloc : Bool) (s : List Byte) (a : StructNetaddr) :
    Scan (BitVec 32) :=
  let name := s.takeWhile (· ≠ 58#8)
  if malloc then
    let r := resolve name a
    ⟨if r.1 then BitVec.ofNat 32 name.length else 0#32, r.2, [], [name]⟩
  else ⟨0#32, a, [], []⟩

/-- `NET_StringToNetAddrNoPort`. -/
def netStringToNetAddrNoPort (resolve : Resolver) (malloc : Bool) (s : List Byte)
    (a : StructNetaddr) : Scan (BitVec 32) :=
  if s = ascii "local" then ⟨5#32, { a with type := .loopback }, [], []⟩
  else
    let len := netStringToIPv6 s a
    if len ≠ 0#32 then ⟨len, a, [], []⟩
    else
      let r := netStringToIPv4 s a
      if r.result ≠ 0#32 then r
      else
        let r' := resolveHostname resolve malloc s r.addr
        { r' with values := r.values }

/-- The port of `NET_StringToAdr`, and where `s` is behind it; none if the function returned
    `false`. -/
def scanPort (s : List Byte) : Option (BitVec 32 × List Byte) × List (BitVec 32) :=
  if char s = 58#8 then
    let s := s.drop 1
    let d := netStringDecToUInt s 65535#32
    if d.len = 0#32 then (none, d.values) else (some (d.value, s.drop d.len.toNat), d.values)
  else (some (27500#32, s), [])

/-- The end of `NET_StringToAdr`: the port is stored. -/
def storePort (port : BitVec 32) (a : StructNetaddr) : Bool × StructNetaddr :=
  if a.type = .ipv4 ∨ a.type = .ipv6 then (true, { a with port := port.setWidth 16 })
  else (port = 27500#32, a)

/-- `NET_StringToAdr`. -/
def netStringToAdr (resolve : Resolver) (malloc : Bool) (s : List Byte) : Scan Bool :=
  let r := netStringToNetAddrNoPort resolve malloc s .zero
  if r.result = 0#32 then { r with result := false }
  else
    match scanPort (s.drop r.result.toNat) with
    | (none, values) => ⟨false, r.addr, r.values ++ values, r.resolved⟩
    | (some (port, s), values) =>
      if char s ≠ 0#8 then ⟨false, r.addr, r.values ++ values, r.resolved⟩
      else
        let stored := storePort port r.addr
        ⟨stored.1, stored.2, r.values ++ values, r.resolved⟩

/-! ## Printing -/

/-- `%x`. -/
def hexadecimal (i : BitVec 32) : List Byte := Digits.ofNat 16 i.toNat

/-- A place in a buffer, and the size of what is left of it. -/
structure Writer where
  out : OutBuf
  s : Nat
  size : BitVec 32

/-- `snprintf`, and its result is counted. -/
def Writer.print (text : List Byte) (w : Writer) : Writer where
  out := snprintfString w.out w.s w.size.toNat text
  s := w.s + text.length
  size := w.size - BitVec.ofNat 32 text.length

/-- One character and a null byte. -/
def Writer.put (c : Byte) (w : Writer) : Writer where
  out := (w.out.store w.s c).store (w.s + 1) 0#8
  s := w.s + 1
  size := w.size - 1#32

/-- The group at `i` is zero. -/
def StructNetaddr.ZeroGroup (a : StructNetaddr) (i : Nat) : Prop := a.byte i = 0#8 ∧ a.byte (i + 1) = 0#8

instance (a : StructNetaddr) (i : Nat) : Decidable (a.ZeroGroup i) :=
  inferInstanceAs (Decidable (_ ∧ _))

/-- The inner loop over a block of zeros at `i`: its size, from `j` on; there are eight
    groups. -/
def zeroBlock (a : StructNetaddr) (i : Nat) : Nat → Nat → Nat
  | 0, j => j
  | fuel + 1, j =>
    if j + i < 16 then if ¬a.ZeroGroup (i + j) then j else zeroBlock a i fuel (j + 2) else j

/-- `biggestzeroblockstart` and `biggestzeroblocksize`. -/
structure Biggest where
  start : Nat
  size : Nat

/-- One pass of the outer loop. -/
def Biggest.look (a : StructNetaddr) (i : Nat) (b : Biggest) : Biggest :=
  if a.ZeroGroup i then
    let j := zeroBlock a i 7 2
    if b.size < j then ⟨i, j⟩ else b
  else b

/-- The first biggest block of zeros; `~0` if there is none. -/
def biggestZeroBlock (a : StructNetaddr) : Biggest :=
  (List.range 8).foldl (fun b k => b.look a (2 * k)) ⟨2 ^ 32 - 1, 0⟩

/-- The loop over the groups from `i` on; there are eight. -/
def printGroups (a : StructNetaddr) (b : Biggest) : Nat → Nat → Writer → Writer
  | 0, _, w => w
  | fuel + 1, i, w =>
    if i < 16 then
      if i = b.start then printGroups a b fuel (i + (b.size - 2) + 2) (w.print (ascii ":"))
      else printGroups a b fuel (i + 2) (w.print ((if i ≠ 0 then ascii ":" else [])
        ++ hexadecimal ((a.byte i).setWidth 32 <<< 8 ||| (a.byte (i + 1)).setWidth 32)))
    else w

/-- `NET_IPv6ToString`. -/
def netIPv6ToString (out : OutBuf) (size : BitVec 32) (a : StructNetaddr) (addport : Bool) :
    OutBuf :=
  let b := biggestZeroBlock a
  if size < 2#32 then out
  else
    let w := printGroups a b 8 0 ((⟨out, 0, size⟩ : Writer).put 91#8)
    if w.size < 2#32 then w.out
    else
      let w := w.put 93#8
      if addport then (w.print (ascii ":" ++ decimal (a.port.setWidth 32))).out else w.out

/-- The string in a buffer of `n` bytes. -/
def OutBuf.string (out : OutBuf) (n : Nat) : List Byte :=
  ((List.range n).map out.mem).takeWhile (· ≠ 0#8)

/-- What `NET_AdrToString` prints for an IPv4 address. -/
def ipv4String (a : StructNetaddr) : List Byte :=
  decimal ((a.byte 0).setWidth 32) ++ ascii "." ++ decimal ((a.byte 1).setWidth 32) ++ ascii "."
    ++ decimal ((a.byte 2).setWidth 32) ++ ascii "." ++ decimal ((a.byte 3).setWidth 32) ++ ascii ":"
    ++ decimal (a.port.setWidth 32)

/-- `NET_AdrToString`, up to its return: `s` is the static buffer of 64 bytes. -/
def printAdr (s : OutBuf) (a : StructNetaddr) : OutBuf :=
  match a.type with
  | .loopback => s
  | .ipv4 => snprintfString s 0 64 (ipv4String a)
  | .ipv6 => netIPv6ToString s 64#32 a true
  | .numtypes => s.store 0 0#8

/-- `NET_AdrToString`. -/
def netAdrToString (s : OutBuf) (a : StructNetaddr) : List Byte :=
  if a.type = .loopback then ascii "loopback" else (printAdr s a).string 64

/-! ## Strings in buffers -/

/-- The buffer begins with the string, and a null byte behind it. -/
def OutBuf.Spells (out : OutBuf) (text : List Byte) : Prop :=
  ∀ i ≤ text.length, out.mem i = text.getD i 0

section

variable {out : OutBuf} {text : List Byte}

/-- The string is what is read. -/
theorem OutBuf.Spells.string_eq (h : out.Spells text) (hnonzero : ∀ c ∈ text, c ≠ 0#8) {n : Nat}
    (hn : text.length < n) : out.string n = text := by
  -- the buffer is the string, a null byte, and the rest
  have hsplit : (List.range n).map out.mem = text ++ 0#8 ::
      ((List.range n).map out.mem).drop (text.length + 1) := by
    apply List.ext_getElem?
    intro i
    by_cases hi : i < text.length
    · rw [List.getElem?_map, List.getElem?_range (by omega), List.getElem?_append_left hi,
        Option.map_some, h i hi.le, List.getElem?_eq_getElem hi, List.getD_eq_getElem text _ hi]
    · rw [List.getElem?_append_right (Nat.not_lt.mp hi)]
      obtain ⟨k, rfl⟩ : ∃ k, i = text.length + k := ⟨i - text.length, by omega⟩
      rw [Nat.add_sub_cancel_left]
      cases k with
      | zero =>
        rw [List.getElem?_map, Nat.add_zero, List.getElem?_range hn, Option.map_some,
          h _ (Nat.le_refl _), List.getD_eq_default _ _ (Nat.le_refl _)]
        rfl
      | succ k =>
        rw [List.getElem?_cons_succ, List.getElem?_drop, Nat.add_right_comm, Nat.add_assoc]
  have hall : ∀ c ∈ text, decide (c ≠ 0#8) = true := fun c hc => decide_eq_true (hnonzero c hc)
  rw [OutBuf.string, hsplit, List.takeWhile_append_of_pos hall, List.takeWhile_cons_of_neg (by decide),
    List.append_nil]

/-- `snprintf` behind a string, where there is room. -/
theorem OutBuf.Spells.snprintf (h : out.Spells text) {more : List Byte} {size : Nat}
    (hsize : more.length < size) :
    (snprintfString out text.length size more).Spells (text ++ more) := by
  intro i hi
  rw [List.length_append] at hi
  rw [snprintfString, if_neg (by omega), Nat.min_eq_left (by omega), OutBuf.store_mem]
  by_cases hend : i = text.length + more.length
  · rw [hend, Function.update_self, List.getD_eq_default]
    rw [List.length_append]
  · rw [Function.update_of_ne hend, OutBuf.memcpy_mem]
    by_cases hlow : text.length ≤ i
    · rw [if_pos (by omega), List.getD_append_right _ _ _ _ hlow]
    · rw [if_neg (by omega), h i (by omega), List.getD_append _ _ _ _ (by omega)]

/-- `snprintf` to the beginning of a buffer. -/
theorem OutBuf.spells_snprintf (out : OutBuf) {size : Nat} (hsize : text.length < size) :
    (snprintfString out 0 size text).Spells text := by
  intro i hi
  rw [snprintfString, if_neg (by omega), Nat.min_eq_left (by omega), OutBuf.store_mem]
  by_cases hend : i = 0 + text.length
  · rw [hend, Function.update_self, List.getD_eq_default]
    omega
  · rw [Function.update_of_ne hend, OutBuf.memcpy_mem, if_pos (by omega), Nat.sub_zero]

end

/-! ## Numbers in print -/

theorem decimal_of_lt {i : BitVec 32} (hi : i.toNat < 2 ^ 31) :
    decimal i = Digits.ofNat 10 i.toNat := by
  have hint : i.toInt = (i.toNat : Int) := BitVec.toInt_eq_toNat_of_lt (by omega)
  have hstring : (toString i.toInt).toList = Nat.toDigits 10 i.toNat := by
    rw [hint]
    exact Nat.toList_repr
  rw [decimal, ascii, hstring, Digits.ofNat]

/-- A byte or a port in decimal. -/
theorem decimal_setWidth {w : Nat} (hw : w ≤ 16) (v : BitVec w) :
    decimal (v.setWidth 32) = Digits.ofNat 10 v.toNat := by
  have htoNat : (v.setWidth 32).toNat = v.toNat := BitVec.toNat_setWidth_of_le (by omega)
  have hlt : v.toNat < 2 ^ 16 := Nat.lt_of_lt_of_le v.isLt (Nat.pow_le_pow_right (by decide) hw)
  rw [decimal_of_lt, htoNat]
  omega

theorem length_port_le (port : BitVec 16) : (Digits.ofNat 10 port.toNat).length ≤ 5 :=
  Digits.length_ofNat_le (by decide) (by decide) (lt_trans port.isLt (by decide))

end QwNet
