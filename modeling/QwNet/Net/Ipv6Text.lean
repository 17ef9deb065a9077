/-
  QwNet.Net.Ipv6Text

  The text of an IPv6 address, as `NET_IPv6ToString` prints it.

  The longest block of zeros is printed as one colon, and the colon in front of the next
  group is the second one.  So there is a second one unless the block is the last thing
  of the address.
-/
import QwNet.Lib.Runs
import QwNet.Net.Address

namespace QwNet

open Digits Runs

/-! ## The grammar -/

/-- One to four hexadecimal digits. -/
structure IsGroup (d : List Byte) : Prop where
  numeral : IsNumeral 16 d
  length : d.length ≤ 4

/-- Eight groups with colons between them; or fewer, and a `::` somewhere. -/
structure Ipv6Text where
  before : List (List Byte)
  /-- What is behind the `::`, if there is one. -/
  after : Option (List (List Byte))
  small : ∀ d ∈ before ++ after.getD [], IsGroup d
  eight : after.elim (before.length = 8) fun ds => before.length + ds.length < 8

namespace Ipv6Text

def text (t : Ipv6Text) : List Byte :=
  joined 58#8 t.before ++ t.after.elim [] fun ds => 58#8 :: 58#8 :: joined 58#8 ds

/-- The eight groups: zeros are those that are missing. -/
def groups (t : Ipv6Text) : List Nat :=
  t.before.map (value 16)
    ++ (List.replicate (8 - (t.before.length + (t.after.getD []).length)) 0
      ++ (t.after.getD []).map (value 16))

/-- The text in brackets, a colon and the port. -/
def withPort (t : Ipv6Text) (port : BitVec 16) : List Byte :=
  91#8 :: (t.text ++ (ascii "]:" ++ ofNat 10 port.toNat))

section

variable {ds ds' : List (List Byte)}

/-- Eight groups. -/
def full (height : ds.length = 8) (hsmall : ∀ d ∈ ds, IsGroup d) : Ipv6Text where
  before := ds
  after := none
  small := by simpa using hsmall
  eight := height

theorem full_text (height : ds.length = 8) (hsmall : ∀ d ∈ ds, IsGroup d) :
    (full height hsmall).text = joined 58#8 ds := List.append_nil _

theorem full_groups (height : ds.length = 8) (hsmall : ∀ d ∈ ds, IsGroup d) :
    (full height hsmall).groups = ds.map (value 16) := by
  have hnone : 8 - (ds.length + 0) = 0 := by omega
  show ds.map (value 16) ++ (List.replicate (8 - (ds.length + 0)) 0 ++ []) = _
  rw [hnone]
  simp

/-- Fewer groups, with a `::` between them. -/
def elided (hfew : ds.length + ds'.length < 8) (hsmall : ∀ d ∈ ds ++ ds', IsGroup d) :
    Ipv6Text where
  before := ds
  after := some ds'
  small := hsmall
  eight := hfew

theorem elided_text (hfew : ds.length + ds'.length < 8) (hsmall : ∀ d ∈ ds ++ ds', IsGroup d) :
    (elided hfew hsmall).text = joined 58#8 ds ++ 58#8 :: 58#8 :: joined 58#8 ds' := rfl

theorem elided_groups (hfew : ds.length + ds'.length < 8) (hsmall : ∀ d ∈ ds ++ ds', IsGroup d) :
    (elided hfew hsmall).groups = ds.map (value 16)
      ++ (List.replicate (8 - (ds.length + ds'.length)) 0 ++ ds'.map (value 16)) := rfl

end

end Ipv6Text

namespace StructNetaddr

/-- Group `k` of an IPv6 address. -/
def group (a : StructNetaddr) (k : Nat) : Nat :=
  (a.byte (2 * k)).toNat * 256 + (a.byte (2 * k + 1)).toNat

def groups (a : StructNetaddr) : List Nat := (List.range 8).map a.group

/-- Group `k` is zero. -/
def zeroAt (a : StructNetaddr) (k : Nat) : Prop := a.ZeroGroup (2 * k)

instance (a : StructNetaddr) (k : Nat) : Decidable (a.zeroAt k) :=
  inferInstanceAs (Decidable (a.ZeroGroup (2 * k)))

theorem group_of_zeroAt {a : StructNetaddr} {k : Nat} (h : a.zeroAt k) : a.group k = 0 := by
  rw [group, h.1, h.2]
  rfl

theorem group_lt (a : StructNetaddr) (k : Nat) : a.group k < 16 ^ 4 := by
  have hhigh := (a.byte (2 * k)).isLt
  have hlow := (a.byte (2 * k + 1)).isLt
  unfold group
  omega

end StructNetaddr

/-- What is printed for the address is valid text for it, and fits in the buffer. -/
def PrintsIpv6 (buf : OutBuf) (a : StructNetaddr) : Prop :=
  ∃ t : Ipv6Text, t.groups = a.groups ∧ netAdrToString buf a = t.withPort a.port ∧
    (t.withPort a.port).length < 64

/-! ## The longest block of zeros -/

section

variable (a : StructNetaddr)

/-- The inner loop finds the longest run. -/
theorem zeroBlock_longest (k : Nat) : ∀ fuel n, 8 ≤ fuel + (k + n) → Run a.zeroAt 8 k n →
    ∃ n', n ≤ n' ∧ zeroBlock a (2 * k) fuel (2 * n) = 2 * n' ∧ Longest a.zeroAt 8 k n' := by
  intro fuel
  induction fuel with
  | zero =>
    intro n hfuel hrun
    have hinside := hrun.inside
    exact ⟨n, Nat.le_refl n, rfl, hrun.longest_of_stop (.inl (by omega))⟩
  | succ fuel ih =>
    intro n hfuel hrun
    have hinside := hrun.inside
    have hindex : 2 * k + 2 * n = 2 * (k + n) := by omega
    rw [zeroBlock]
    -- the end of the address stops the run, or a group that is not zero
    by_cases hlast : k + n = 8
    · rw [if_neg (by omega)]
      exact ⟨n, Nat.le_refl n, rfl, hrun.longest_of_stop (.inl hlast)⟩
    · rw [if_pos (by omega), hindex]
      by_cases hzero : a.ZeroGroup (2 * (k + n))
      · rw [if_neg (not_not.mpr hzero)]
        obtain ⟨n', hle, hblock, hlongest⟩ := ih (n + 1) (by omega) (hrun.extend hzero (by omega))
        exact ⟨n', by omega, hblock, hlongest⟩
      · rw [if_pos hzero]
        exact ⟨n, Nat.le_refl n, rfl, hrun.longest_of_stop (.inr hzero)⟩

/-- What the outer loop has found: no zero group, or the first longest run. -/
def Found (K : Nat) (b : Biggest) : Prop :=
  (b = ⟨2 ^ 32 - 1, 0⟩ ∧ ∀ k < K, ¬a.zeroAt k) ∨
    ∃ i n, b = ⟨2 * i, 2 * n⟩ ∧ FirstLongest a.zeroAt 8 K i n

variable {a}

/-- A run of a group that is not zero is empty. -/
theorem run_eq_zero {N k m : Nat} (hk : ¬a.zeroAt k) (h : Run a.zeroAt N k m) : m = 0 := by
  by_contra hne
  exact hk (h.holds 0 (Nat.pos_of_ne_zero hne))

/-- One pass of the outer loop. -/
theorem Found.look {K : Nat} {b : Biggest} (h : Found a K b) (hK : K < 8) :
    Found a (K + 1) (b.look a (2 * K)) := by
  rw [Biggest.look]
  by_cases hzero : a.ZeroGroup (2 * K)
  · rw [if_pos hzero]
    have hone : Run a.zeroAt 8 K 1 := by
      refine ⟨fun k hk => ?_, hK⟩
      obtain rfl : k = 0 := by omega
      exact hzero
    obtain ⟨n', hpos, hblock, hlongest⟩ := zeroBlock_longest a K 7 1 (by omega) hone
    have hblock' : zeroBlock a (2 * K) 7 2 = 2 * n' := hblock
    dsimp only
    rw [hblock']
    rcases h with ⟨rfl, hnone⟩ | ⟨i, n, rfl, hfirst⟩
    · -- the first zeros at all
      rw [if_pos (by show 0 < 2 * n'; omega)]
      refine .inr ⟨K, n', rfl, hlongest.take hpos fun j m hj hm => ?_⟩
      have hempty := run_eq_zero (hnone j hj) hm
      omega
    · by_cases hlonger : 2 * n < 2 * n'
      -- only a longer run is taken, so the first of the longest stays
      · rw [if_pos hlonger]
        refine .inr ⟨K, n', rfl, hlongest.take hpos fun j m hj hm => ?_⟩
        have hle := hfirst.longest j m hj hm
        omega
      · rw [if_neg hlonger]
        refine .inr ⟨i, n, rfl, hfirst.skip fun m hm => ?_⟩
        have hle := hlongest.longest m hm
        omega
  · rw [if_neg hzero]
    rcases h with ⟨rfl, hnone⟩ | ⟨i, n, rfl, hfirst⟩
    · refine .inl ⟨rfl, fun k hk => ?_⟩
      rcases Nat.lt_succ_iff_lt_or_eq.mp hk with hk | rfl
      · exact hnone k hk
      · exact hzero
    · refine .inr ⟨i, n, rfl, hfirst.skip fun m hm => ?_⟩
      rw [run_eq_zero hzero hm]
      exact Nat.zero_le n

variable (a)

/-- The outer loop finds the first longest run. -/
theorem found_biggestZeroBlock : Found a 8 (biggestZeroBlock a) := by
  have hpasses : ∀ K ≤ 8, Found a K
      ((List.range K).foldl (fun b k => b.look a (2 * k)) ⟨2 ^ 32 - 1, 0⟩) := by
    intro K
    induction K with
    | zero => exact fun _ => .inl ⟨rfl, fun k hk => absurd hk (Nat.not_lt_zero k)⟩
    | succ K ih =>
      intro hK
      rw [List.range_succ, List.foldl_append]
      exact (ih (by omega)).look (by omega)
  exact hpasses 8 (Nat.le_refl 8)

end

/-! ## What the loop prints -/

/-- The characters that `printGroups` prints. -/
def printedGroups (a : StructNetaddr) (b : Biggest) : Nat → Nat → List Byte
  | 0, _ => []
  | fuel + 1, i =>
    if i < 16 then
      if i = b.start then ascii ":" ++ printedGroups a b fuel (i + (b.size - 2) + 2)
      else ((if i ≠ 0 then ascii ":" else [])
        ++ hexadecimal ((a.byte i).setWidth 32 <<< 8 ||| (a.byte (i + 1)).setWidth 32))
        ++ printedGroups a b fuel (i + 2)
    else []

/-- The digits of two bytes. -/
theorem hexadecimal_bytes (high low : Byte) :
    hexadecimal (high.setWidth 32 <<< 8 ||| low.setWidth 32)
      = ofNat 16 (high.toNat * 256 + low.toNat) := by
  have hhigh := high.isLt
  have hlow := low.isLt
  have hshift : (high.setWidth 32 <<< 8).toNat = high.toNat * 256 := by
    rw [BitVec.toNat_shiftLeft, BitVec.toNat_setWidth_of_le (by decide), Nat.shiftLeft_eq]
    exact Nat.mod_eq_of_lt (by omega)
  have hor : (high.setWidth 32 <<< 8 ||| low.setWidth 32).toNat
      = high.toNat * 256 + low.toNat := by
    rw [BitVec.toNat_or, hshift, BitVec.toNat_setWidth_of_le (by decide), Nat.mul_comm]
    exact (Nat.two_pow_add_eq_or_of_lt (i := 8) hlow high.toNat).symm
  rw [hexadecimal, hor]

section

variable {a : StructNetaddr} {b : Biggest}

theorem length_hexadecimal_le (i : Nat) :
    (hexadecimal ((a.byte i).setWidth 32 <<< 8 ||| (a.byte (i + 1)).setWidth 32)).length ≤ 4 := by
  have hhigh := (a.byte i).isLt
  have hlow := (a.byte (i + 1)).isLt
  rw [hexadecimal_bytes]
  exact length_ofNat_le (by decide) (by decide) (by omega)

/-- A pass prints a colon and four digits, at most. -/
theorem length_printedGroups_le (fuel i : Nat) :
    (printedGroups a b fuel i).length ≤ 5 * fuel := by
  have hcolon : (ascii ":").length = 1 := rfl
  induction fuel generalizing i with
  | zero => exact Nat.le_refl 0
  | succ fuel ih =>
    rw [printedGroups]
    split
    · split
      · have hih := ih (i + (b.size - 2) + 2)
        rw [List.length_append, hcolon]
        omega
      · have hih := ih (i + 2)
        have hdigits := length_hexadecimal_le (a := a) i
        have hfirst : (if i ≠ 0 then ascii ":" else []).length ≤ 1 := by
          split
          · exact hcolon.le
          · exact Nat.zero_le 1
        rw [List.length_append, List.length_append]
        omega
    · exact Nat.zero_le _

/-- They are hexadecimal digits and colons. -/
theorem printedGroups_chars (fuel i : Nat) :
    ∀ c ∈ printedGroups a b fuel i, IsDigit 16 c ∨ c = 58#8 := by
  have hcolon : ∀ c ∈ ascii ":", c = 58#8 := fun c hc => List.mem_singleton.mp hc
  induction fuel generalizing i with
  | zero => simp [printedGroups]
  | succ fuel ih =>
    intro c hc
    rw [printedGroups] at hc
    split at hc
    · split at hc
      -- the colon of the block of zeros
      · rcases List.mem_append.mp hc with hc | hc
        · exact .inr (hcolon c hc)
        · exact ih _ c hc
      · rcases List.mem_append.mp hc with hc | hc
        · rcases List.mem_append.mp hc with hc | hc
          · split at hc
            · exact .inr (hcolon c hc)
            · simp at hc
          · rw [hexadecimal_bytes] at hc
            exact .inl ((ofNat_spec (by decide) (by decide) _).1.digits c hc)
        · exact ih _ c hc
    · simp at hc

/-! ## The buffer -/

/-- The text is what has been written to the buffer of 64 bytes. -/
structure Writer.Wrote (w : Writer) (text : List Byte) : Prop where
  spells : w.out.Spells text
  s : w.s = text.length
  size : w.size.toNat + text.length = 64

variable {w : Writer} {text more : List Byte}

/-- What is left is counted down. -/
theorem toNat_size_sub {size : BitVec 32} (hsize : size.toNat + text.length = 64)
    (hmore : text.length + more.length < 64) :
    (size - BitVec.ofNat 32 more.length).toNat + (text ++ more).length = 64 := by
  have hlength : (BitVec.ofNat 32 more.length).toNat = more.length := by
    rw [BitVec.toNat_ofNat]
    exact Nat.mod_eq_of_lt (by omega)
  have hle : BitVec.ofNat 32 more.length ≤ size := by
    rw [BitVec.le_def, hlength]
    omega
  rw [BitVec.toNat_sub_of_le hle, hlength, List.length_append]
  omega

theorem Writer.Wrote.print (h : w.Wrote text) (hmore : text.length + more.length < 64) :
    (w.print more).Wrote (text ++ more) := by
  have hsize := h.size
  refine ⟨?_, ?_, toNat_size_sub h.size hmore⟩
  · rw [Writer.print, h.s]
    exact h.spells.snprintf (by omega)
  · rw [Writer.print, h.s, List.length_append]

/-- One character behind others. -/
theorem OutBuf.spells_put {out : OutBuf} (h : ∀ i < text.length, out.mem i = text.getD i 0)
    (c : Byte) :
    ((out.store text.length c).store (text.length + 1) 0#8).Spells (text ++ [c]) := by
  intro i hi
  rw [List.length_append, List.length_singleton] at hi
  rw [OutBuf.store_mem, OutBuf.store_mem]
  by_cases hnull : i = text.length + 1
  · have hend : (text ++ [c]).getD (text.length + 1) 0 = 0 := by simp
    rw [hnull, Function.update_self, hend]
    rfl
  · rw [Function.update_of_ne hnull]
    by_cases hlast : i = text.length
    · rw [hlast, Function.update_self, List.getD_append_right _ _ _ _ (Nat.le_refl _), Nat.sub_self]
      rfl
    · rw [Function.update_of_ne hlast, h i (by omega), List.getD_append _ _ _ _ (by omega)]

theorem Writer.Wrote.put (h : w.Wrote text) {c : Byte} (hroom : text.length + 1 < 64) :
    (w.put c).Wrote (text ++ [c]) := by
  have hmore : text.length + [c].length < 64 := hroom
  have hsize := toNat_size_sub h.size hmore
  rw [List.length_singleton] at hsize
  refine ⟨?_, ?_, hsize⟩
  · rw [Writer.put, h.s]
    exact OutBuf.spells_put (fun i hi => h.spells i hi.le) c
  · rw [Writer.put, h.s, List.length_append, List.length_singleton]

/-- The loop writes what it prints. -/
theorem printGroups_wrote {fuel i : Nat} (h : w.Wrote text)
    (hroom : text.length + (printedGroups a b fuel i).length < 64) :
    (printGroups a b fuel i w).Wrote (text ++ printedGroups a b fuel i) := by
  induction fuel generalizing i w text with
  | zero =>
    rw [printedGroups, List.append_nil]
    exact h
  | succ fuel ih =>
    rw [printedGroups] at hroom ⊢
    rw [printGroups]
    by_cases hi : i < 16
    · rw [if_pos hi] at hroom ⊢
      rw [if_pos hi]
      by_cases hstart : i = b.start
      · rw [if_pos hstart, List.length_append] at hroom
        rw [if_pos hstart, if_pos hstart, ← List.append_assoc]
        refine ih (h.print (by omega)) ?_
        rw [List.length_append]
        omega
      · rw [if_neg hstart, List.length_append] at hroom
        rw [if_neg hstart, if_neg hstart, ← List.append_assoc text]
        refine ih (h.print (by omega)) ?_
        rw [List.length_append]
        omega
    · rw [if_neg hi, if_neg hi, List.append_nil]
      exact h

end

/-- `NET_IPv6ToString`, with the port, in the buffer of 64 bytes. -/
theorem netIPv6ToString_spells (out : OutBuf) (a : StructNetaddr) :
    (netIPv6ToString out 64#32 a true).Spells ([91#8] ++ printedGroups a (biggestZeroBlock a) 8 0
      ++ [93#8] ++ (ascii ":" ++ decimal (a.port.setWidth 32))) := by
  have hport : (ascii ":" ++ decimal (a.port.setWidth 32)).length ≤ 6 := by
    have hcolon : (ascii ":").length = 1 := rfl
    have hdigits := length_port_le a.port
    rw [List.length_append, decimal_setWidth (by decide), hcolon]
    omega
  -- eight groups take forty characters at most
  have hgroups := length_printedGroups_le (a := a) (b := biggestZeroBlock a) 8 0
  have hopen : ((⟨out, 0, 64#32⟩ : Writer).put 91#8).Wrote [91#8] :=
    ⟨@OutBuf.spells_put [] out (fun i hi => absurd hi (Nat.not_lt_zero i)) 91#8, rfl,
      by simp [Writer.put]⟩
  have hloop : (printGroups a (biggestZeroBlock a) 8 0 ((⟨out, 0, 64#32⟩ : Writer).put 91#8)).Wrote
      ([91#8] ++ printedGroups a (biggestZeroBlock a) 8 0) := by
    refine printGroups_wrote hopen ?_
    rw [List.length_singleton]
    omega
  have hlength : ([91#8] ++ printedGroups a (biggestZeroBlock a) 8 0).length ≤ 41 := by
    rw [List.length_append, List.length_singleton]
    omega
  have hsize := hloop.size
  -- there is room for the bracket and for the port
  have hclose := hloop.put (c := 93#8) (by omega)
  have hfits : ([91#8] ++ printedGroups a (biggestZeroBlock a) 8 0 ++ [93#8]).length
      + (ascii ":" ++ decimal (a.port.setWidth 32)).length < 64 := by
    rw [List.length_append, List.length_singleton]
    omega
  have hwhole := hclose.print hfits
  have hroom : ¬(printGroups a (biggestZeroBlock a) 8 0
      ((⟨out, 0, 64#32⟩ : Writer).put 91#8)).size < 2#32 := by
    rw [BitVec.lt_def]
    show ¬_ < 2
    omega
  rw [netIPv6ToString]
  dsimp only
  rw [if_neg (by decide), if_neg hroom, if_pos rfl]
  exact hwhole.spells

/-- The whole string. -/
theorem netAdrToString_ipv6 (buf : OutBuf) {a : StructNetaddr} (ha : a.type = .ipv6) :
    netAdrToString buf a = 91#8 :: (printedGroups a (biggestZeroBlock a) 8 0
      ++ (ascii "]:" ++ ofNat 10 a.port.toNat)) := by
  have hport := length_port_le a.port
  have hgroups := length_printedGroups_le (a := a) (b := biggestZeroBlock a) 8 0
  have htext : [91#8] ++ printedGroups a (biggestZeroBlock a) 8 0 ++ [93#8]
      ++ (ascii ":" ++ decimal (a.port.setWidth 32))
      = 91#8 :: (printedGroups a (biggestZeroBlock a) 8 0
        ++ (ascii "]:" ++ ofNat 10 a.port.toNat)) := by
    have hbracket : ascii "]:" = 93#8 :: ascii ":" := rfl
    rw [decimal_setWidth (by decide), hbracket]
    simp
  have hspells := netIPv6ToString_spells buf a
  rw [htext] at hspells
  have hloopback : a.type ≠ .loopback := by
    rw [ha]
    exact nofun
  have hprint : printAdr buf a = netIPv6ToString buf 64#32 a true := by
    rw [printAdr, ha]
  rw [netAdrToString, if_neg hloopback, hprint]
  -- no character of it is a null byte, and it is shorter than the buffer
  apply hspells.string_eq
  · intro c hc
    rcases List.mem_cons.mp hc with rfl | hc
    · decide
    rcases List.mem_append.mp hc with hc | hc
    · rcases printedGroups_chars 8 0 c hc with hdigit | rfl
      · exact hdigit.ne_zero
      · decide
    rcases List.mem_append.mp hc with hc | hc
    · have hbracket : ∀ c ∈ ascii "]:", c ≠ 0#8 := by decide
      exact hbracket c hc
    · exact ((ofNat_spec (by decide) (by decide) _).1.digits c hc).ne_zero
  · have hbracket : (ascii "]:").length = 2 := rfl
    rw [List.length_cons, List.length_append, List.length_append, hbracket]
    omega

/-! ## The groups in print -/

section

variable (a : StructNetaddr)

/-- The digits of group `k`. -/
def groupText (k : Nat) : List Byte := ofNat 16 (a.group k)

/-- A colon and the group; no colon before the first. -/
def separated (k : Nat) : List Byte := (if k ≠ 0 then ascii ":" else []) ++ groupText a k

theorem isGroup_groupText (k : Nat) : IsGroup (groupText a k) :=
  ⟨(ofNat_spec (by decide) (by decide) _).1, length_ofNat_le (by decide) (by decide) (a.group_lt k)⟩

theorem value_groupText (k : Nat) : value 16 (groupText a k) = a.group k :=
  (ofNat_spec (by decide) (by decide) _).2

/-- The groups from `k` on are printed, as long as the block of zeros is not reached. -/
theorem printedGroups_apart {b : Biggest} (m fuel k : Nat) (hend : k + m ≤ 8)
    (hstart : ∀ j, k ≤ j → j < k + m → 2 * j ≠ b.start) :
    printedGroups a b (m + fuel) (2 * k)
      = (List.range' k m).flatMap (separated a) ++ printedGroups a b fuel (2 * (k + m)) := by
  induction m generalizing k with
  | zero => simp
  | succ m ih =>
    have hih := ih (k + 1) (by omega) fun j hj hjm => hstart j (by omega) (by omega)
    have hfuel : m + 1 + fuel = m + fuel + 1 := by omega
    have hnext : 2 * k + 2 = 2 * (k + 1) := by omega
    have hsum : k + 1 + m = k + (m + 1) := by omega
    -- what the pass prints
    have hgroup : (if 2 * k ≠ 0 then ascii ":" else [])
        ++ hexadecimal ((a.byte (2 * k)).setWidth 32 <<< 8 ||| (a.byte (2 * k + 1)).setWidth 32)
        = separated a k := by
      rw [hexadecimal_bytes]
      simp [separated, groupText, StructNetaddr.group]
    rw [hfuel, printedGroups, if_pos (by omega), if_neg (hstart k (by omega) (by omega)), hgroup,
      hnext, hih, hsum, List.range'_succ, List.flatMap_cons, List.append_assoc]

theorem printedGroups_end {b : Biggest} (fuel : Nat) : printedGroups a b fuel 16 = [] := by
  cases fuel with
  | zero => rfl
  | succ fuel => rw [printedGroups, if_neg (Nat.lt_irrefl 16)]

/-- Behind others, the groups begin with a colon. -/
theorem flatMap_separated_succ (k m : Nat) (hk : 0 < k) :
    (List.range' k (m + 1)).flatMap (separated a)
      = 58#8 :: joined 58#8 ((List.range' k (m + 1)).map (groupText a)) := by
  have hcolon : ascii ":" = [58#8] := rfl
  induction m generalizing k with
  | zero => simp [separated, Nat.ne_of_gt hk, hcolon]
  | succ m ih =>
    have hih := ih (k + 1) (Nat.succ_pos k)
    rw [List.range'_succ, List.flatMap_cons, hih, List.range'_succ, separated, hcolon]
    simp [Nat.ne_of_gt hk]

/-- From the first on, they have colons between them. -/
theorem flatMap_separated_zero (m : Nat) :
    (List.range' 0 m).flatMap (separated a)
      = joined 58#8 ((List.range' 0 m).map (groupText a)) := by
  cases m with
  | zero => rfl
  | succ m =>
    rw [List.range'_succ, List.flatMap_cons]
    cases m with
    | zero => simp [separated]
    | succ m =>
      rw [flatMap_separated_succ a 1 m Nat.one_pos, List.range'_succ]
      simp [separated]

/-- Without zeros, there are eight groups. -/
theorem printedGroups_of_none (hnone : biggestZeroBlock a = ⟨2 ^ 32 - 1, 0⟩) :
    printedGroups a (biggestZeroBlock a) 8 0
      = joined 58#8 ((List.range' 0 8).map (groupText a)) := by
  have hprint := printedGroups_apart a (b := biggestZeroBlock a) 8 0 0 (Nat.le_refl 8)
    (fun j _ hj => by rw [hnone]; show 2 * j ≠ 2 ^ 32 - 1; omega)
  rw [flatMap_separated_zero, printedGroups, List.append_nil] at hprint
  exact hprint

/-- With zeros, there is one colon for them. -/
theorem printedGroups_of_run {i n : Nat} (hblock : biggestZeroBlock a = ⟨2 * i, 2 * n⟩)
    (hpos : 0 < n) (hinside : i + n ≤ 8) :
    printedGroups a (biggestZeroBlock a) 8 0
      = joined 58#8 ((List.range' 0 i).map (groupText a))
        ++ 58#8 :: (List.range' (i + n) (8 - (i + n))).flatMap (separated a) := by
  rw [hblock]
  have hbefore := printedGroups_apart a (b := ⟨2 * i, 2 * n⟩) i (8 - i) 0 (by omega)
    (fun j _ hj => by show 2 * j ≠ 2 * i; omega)
  have hafter := printedGroups_apart a (b := ⟨2 * i, 2 * n⟩) (8 - (i + n)) (n - 1) (i + n) (by omega)
    (fun j hj _ => by show 2 * j ≠ 2 * i; omega)
  have hblock : printedGroups a ⟨2 * i, 2 * n⟩ (8 - i) (2 * i)
      = ascii ":" ++ printedGroups a ⟨2 * i, 2 * n⟩ (8 - (i + n) + (n - 1)) (2 * (i + n)) := by
    have hfuel : 8 - i = 8 - (i + n) + (n - 1) + 1 := by omega
    have hjump : 2 * i + (2 * n - 2) + 2 = 2 * (i + n) := by omega
    -- the index jumps behind the block
    rw [hfuel, printedGroups, if_pos (by omega), if_pos rfl, hjump]
  have hend : 2 * (i + n + (8 - (i + n))) = 16 := by omega
  have hfuel : i + (8 - i) = 8 := by omega
  rw [hend, printedGroups_end, List.append_nil] at hafter
  rw [flatMap_separated_zero, Nat.zero_add, hblock, hafter, hfuel] at hbefore
  exact hbefore

end

/-! ## Valid text -/

theorem not_isDigit_sixteen_colon : ¬IsDigit 16 58#8 := by
  rintro ⟨d, hd, -⟩
  have hnone : digit? 58#8 = none := by decide
  rw [hnone] at hd
  exact absurd hd (by simp)

/-- No text of an address ends in one colon behind a group, or is one colon. -/
theorem Ipv6Text.text_ne_colon (t : Ipv6Text) {ds : List (List Byte)}
    (hds : ∀ d ∈ ds, IsNumeral 16 d) : t.text ≠ joined 58#8 ds ++ [58#8] := by
  obtain ⟨before, after, hsmall, height⟩ := t
  have hbefore : ∀ d ∈ before, IsNumeral 16 d := fun d hd =>
    (hsmall d (List.mem_append_left _ hd)).numeral
  intro heq
  cases after with
  | none =>
    have hjoined : joined 58#8 before = joined 58#8 ds ++ [58#8] :=
      (List.append_nil _).symm.trans heq
    exact not_isDigit_sixteen_colon (isDigit_of_joined_eq hbefore hjoined)
  | some after =>
    have hafter : ∀ d ∈ after, IsNumeral 16 d := fun d hd =>
      (hsmall d (List.mem_append_right _ hd)).numeral
    have hjoined : joined 58#8 before ++ 58#8 :: 58#8 :: joined 58#8 after
        = joined 58#8 ds ++ [58#8] := heq
    obtain hnil | ⟨ys, c, hys⟩ := (joined 58#8 after).eq_nil_or_concat
    · -- the text ends in two colons
      have htwo : joined 58#8 before ++ [58#8] ++ [58#8] = joined 58#8 ds ++ [58#8] := by
        rw [hnil] at hjoined
        rw [List.append_assoc]
        exact hjoined
      have hone := List.append_cancel_right htwo
      exact not_isDigit_sixteen_colon (isDigit_of_joined_eq hds hone.symm)
    · -- the text ends in a group
      rw [List.concat_eq_append] at hys
      have hlast : joined 58#8 before ++ 58#8 :: 58#8 :: ys ++ [c] = joined 58#8 ds ++ [58#8] := by
        rw [hys] at hjoined
        rw [List.append_assoc]
        exact hjoined
      obtain ⟨-, hc⟩ := List.append_inj' hlast rfl
      obtain rfl := List.singleton_inj.mp hc
      exact not_isDigit_sixteen_colon (isDigit_of_joined_eq hafter hys)

section

variable {a : StructNetaddr}

/-- What is between the brackets decides. -/
theorem printsIpv6_iff_text (buf : OutBuf) (ha : a.type = .ipv6) : PrintsIpv6 buf a ↔
    ∃ t : Ipv6Text, t.groups = a.groups ∧ t.text = printedGroups a (biggestZeroBlock a) 8 0 := by
  have hstring := netAdrToString_ipv6 buf ha
  constructor
  · rintro ⟨t, hgroups, htext, -⟩
    refine ⟨t, hgroups, ?_⟩
    rw [hstring, Ipv6Text.withPort] at htext
    exact (List.append_cancel_right (List.cons.inj htext).2).symm
  · rintro ⟨t, hgroups, htext⟩
    have hport := length_port_le a.port
    have hprinted := length_printedGroups_le (a := a) (b := biggestZeroBlock a) 8 0
    have hbracket : (ascii "]:").length = 2 := rfl
    refine ⟨t, hgroups, ?_, ?_⟩
    · rw [hstring, Ipv6Text.withPort, htext]
    · rw [Ipv6Text.withPort, htext, List.length_cons, List.length_append, List.length_append,
        hbracket]
      omega

/-- Groups in print have their values. -/
theorem map_value_groupText (l : List Nat) :
    (l.map (groupText a)).map (value 16) = l.map a.group := by
  rw [List.map_map]
  exact List.map_congr_left fun k _ => value_groupText a k

theorem isGroup_of_mem_map {l : List Nat} : ∀ d ∈ l.map (groupText a), IsGroup d := by
  intro d hd
  obtain ⟨k, -, rfl⟩ := List.mem_map.mp hd
  exact isGroup_groupText a k

/-- An address without zeros is printed as eight groups. -/
theorem exists_text_of_none (hblock : biggestZeroBlock a = ⟨2 ^ 32 - 1, 0⟩) :
    ∃ t : Ipv6Text, t.groups = a.groups ∧ t.text = printedGroups a (biggestZeroBlock a) 8 0 := by
  have height : ((List.range' 0 8).map (groupText a)).length = 8 := by simp
  refine ⟨.full height isGroup_of_mem_map, ?_, ?_⟩
  · rw [Ipv6Text.full_groups, map_value_groupText, StructNetaddr.groups, List.range_eq_range']
  · rw [Ipv6Text.full_text, printedGroups_of_none a hblock]

/-- Where the longest block ends early, there is a `::` for it. -/
theorem exists_text_of_run {i n : Nat} (hblock : biggestZeroBlock a = ⟨2 * i, 2 * n⟩)
    (hpos : 0 < n) (hrun : Run a.zeroAt 8 i n) (hearly : i + n < 8) :
    ∃ t : Ipv6Text, t.groups = a.groups ∧ t.text = printedGroups a (biggestZeroBlock a) 8 0 := by
  obtain ⟨m, hm⟩ : ∃ m, 8 = i + (n + (m + 1)) := ⟨8 - (i + n) - 1, by omega⟩
  have hbehind : 8 - (i + n) = m + 1 := by omega
  have hfew : ((List.range' 0 i).map (groupText a)).length
      + ((List.range' (i + n) (m + 1)).map (groupText a)).length < 8 := by
    simp
    omega
  have hsmall : ∀ d ∈ (List.range' 0 i).map (groupText a)
      ++ (List.range' (i + n) (m + 1)).map (groupText a), IsGroup d := by
    intro d hd
    rcases List.mem_append.mp hd with hd | hd
    · exact isGroup_of_mem_map d hd
    · exact isGroup_of_mem_map d hd
  refine ⟨.elided hfew hsmall, ?_, ?_⟩
  · -- the groups that are missing are zero
    have hzeros : (List.range' i n).map a.group = List.replicate n 0 := by
      refine List.eq_replicate_iff.mpr ⟨by simp, fun v hv => ?_⟩
      obtain ⟨k, hk, rfl⟩ := List.mem_map.mp hv
      obtain ⟨j, hj, rfl⟩ := List.mem_range'.mp hk
      rw [Nat.one_mul]
      exact StructNetaddr.group_of_zeroAt (hrun.holds j hj)
    have hsplit : List.range 8
        = List.range' 0 i ++ (List.range' i n ++ List.range' (i + n) (m + 1)) := by
      have hi := List.range'_append_1 (s := 0) (m := i) (n := n + (m + 1))
      rw [Nat.zero_add] at hi
      rw [List.range_eq_range', hm, List.range'_append_1, hi]
    have hmissing : 8 - (((List.range' 0 i).map (groupText a)).length
        + ((List.range' (i + n) (m + 1)).map (groupText a)).length) = n := by
      simp
      omega
    rw [Ipv6Text.elided_groups, map_value_groupText, map_value_groupText, hmissing, ← hzeros,
      StructNetaddr.groups, hsplit, List.map_append, List.map_append]
  · rw [printedGroups_of_run a hblock hpos hrun.inside, hbehind,
      flatMap_separated_succ a _ _ (by omega), Ipv6Text.elided_text]

/-- What is printed for an IPv6 address is text for it, unless the first longest block of zeros is
    the last thing of the address. -/
theorem ipv6_text_iff (buf : OutBuf) (a : StructNetaddr) (ha : a.type = .ipv6) :
    PrintsIpv6 buf a ↔ EndsEarlier a.zeroAt 8 := by
  rw [printsIpv6_iff_text buf ha]
  -- without zeros nothing is left out
  rcases found_biggestZeroBlock a with ⟨hblock, hnone⟩ | ⟨i, n, hblock, hfirst⟩
  · exact iff_of_true (exists_text_of_none hblock) (endsEarlier_of_none hnone)
  · rw [← hfirst.ends_iff]
    constructor
    · rintro ⟨t, -, htext⟩
      by_contra hlast
      have hinside := hfirst.inside
      -- no group follows the block, and the text ends in its colon
      have hnothing : 8 - (i + n) = 0 := by omega
      rw [printedGroups_of_run a hblock hfirst.pos hinside, hnothing] at htext
      exact t.text_ne_colon (fun d hd => (isGroup_of_mem_map d hd).numeral) htext
    · exact exists_text_of_run hblock hfirst.pos hfirst.toRun

end

/-- `::1`. -/
def loopbackIpv6 : StructNetaddr := ⟨.ipv6, fun i => if i.val = 15 then 1#8 else 0#8, 27500#16⟩

/-- `::1` does not end in zeros. -/
theorem ipv6_text_iff_loopback : PrintsIpv6 ⟨fun _ => 0#8, []⟩ loopbackIpv6 := by
  apply (ipv6_text_iff _ loopbackIpv6 rfl).mpr
  intro m hpos hm hrun
  have hlast := hrun.holds (m - 1) (by omega)
  have hseven : 8 - m + (m - 1) = 7 := by omega
  rw [hseven] at hlast
  exact absurd hlast (by decide)

/-- The unspecified address is printed as `:`. -/
theorem ipv6_text_not_unspecified :
    netAdrToString ⟨fun _ => 0#8, []⟩ ⟨.ipv6, fun _ => 0#8, 27500#16⟩ = ascii "[:]:27500" ∧
      ¬PrintsIpv6 ⟨fun _ => 0#8, []⟩ ⟨.ipv6, fun _ => 0#8, 27500#16⟩ := by
  constructor
  · rw [netAdrToString_ipv6 _ rfl]
    decide
  · rw [printsIpv6_iff_text _ rfl]
    rintro ⟨t, -, htext⟩
    have hcolon : printedGroups ⟨.ipv6, fun _ => 0#8, 27500#16⟩
        (biggestZeroBlock ⟨.ipv6, fun _ => 0#8, 27500#16⟩) 8 0 = joined 58#8 [] ++ [58#8] := by
      decide
    exact t.text_ne_colon (fun d hd => absurd hd List.not_mem_nil) (htext.trans hcolon)

end QwNet
