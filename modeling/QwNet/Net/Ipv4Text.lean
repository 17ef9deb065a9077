/-
  QwNet.Net.Ipv4Text

  The text of an IPv4 address: what `NET_StringToAdr` accepts, and what
  `NET_AdrToString` prints.

  A scanner that stops in front of a character that is not a digit has read a number,
  unless it has counted more than 32 bits of digits.  So the text that is accepted is the
  one of the grammar, as long as it is shorter than that.
-/
import Mathlib.Data.List.TakeWhile
import QwNet.Net.Address

namespace QwNet

open Digits

/-! ## The grammar -/

/-- A decimal number of at least one digit, which is at most `max`. -/
structure IsNumber (max : Nat) (s : List Byte) : Prop where
  numeral : IsNumeral 10 s
  le : value 10 s ≤ max

/-- Four numbers up to 255, and perhaps a number up to 65535. -/
structure Ipv4Text where
  numbers : List (List Byte)
  port : Option (List Byte)
  four : numbers.length = 4
  small : ∀ d ∈ numbers, IsNumber 255 d
  portSmall : ∀ d ∈ port, IsNumber 65535 d

namespace Ipv4Text

/-- The colon and the port. -/
def portText (t : Ipv4Text) : List Byte :=
  match t.port with
  | none => []
  | some d => 58#8 :: d

def text (t : Ipv4Text) : List Byte := joined 46#8 t.numbers ++ t.portText

/-- The port, or 27500. -/
def portNumber (t : Ipv4Text) : Nat := (t.port.map (value 10)).getD 27500

/-- The address that holds the numbers. -/
def addr (t : Ipv4Text) : StructNetaddr where
  type := .ipv4
  address i := BitVec.ofNat 8 (value 10 (t.numbers.getD i []))
  port := BitVec.ofNat 16 t.portNumber

/-- The address and the digits of the port can be counted in an `unsigned int`. -/
def Short (t : Ipv4Text) : Prop := (joined 46#8 t.numbers).length < 2 ^ 32 ∧ ∀ d ∈ t.port, d.length < 2 ^ 32

end Ipv4Text

/-! ## One number -/

section

variable {maxvalue : BitVec 32} {s : List Byte}

/-- The digits that a string begins with. -/
def leadingDigits (s : List Byte) : List Byte := s.takeWhile fun c => 48#8 ≤ c ∧ c ≤ 57#8

theorem isDigit_of_mem_leadingDigits {c : Byte} (h : c ∈ leadingDigits s) : IsDigit 10 c := by
  have hmem := List.mem_takeWhile_imp h
  exact (isDigit_ten_iff c).mpr (of_decide_eq_true hmem)

/-- A character inside of `xs`. -/
theorem char_drop_mem {xs : List Byte} (ys : List Byte) {k : Nat} (hk : k < xs.length) :
    char ((xs ++ ys).drop k) ∈ xs := by
  rw [List.drop_append_of_le_length hk.le, List.drop_eq_getElem_cons hk]
  exact List.getElem_mem hk

/-- A length that was counted in 32 bits, but does not fit, ends inside. -/
theorem char_drop_wrapped {xs : List Byte} (ys : List Byte) (hlong : 2 ^ 32 ≤ xs.length) :
    char ((xs ++ ys).drop (BitVec.ofNat 32 xs.length).toNat) ∈ xs := by
  apply char_drop_mem
  rw [BitVec.toNat_ofNat]
  exact Nat.lt_of_lt_of_le (Nat.mod_lt _ (Nat.two_pow_pos 32)) hlong

theorem toNat_ofNat_length {xs : List Byte} (hlength : xs.length < 2 ^ 32) :
    (BitVec.ofNat 32 xs.length).toNat = xs.length := by
  rw [BitVec.toNat_ofNat]
  exact Nat.mod_eq_of_lt hlength

theorem leadingDigits_append {ds rest : List Byte} (hds : ∀ c ∈ ds, IsDigit 10 c)
    (hrest : ¬IsDigit 10 (char rest)) : leadingDigits (ds ++ rest) = ds := by
  have hall : ∀ c ∈ ds, decide (48#8 ≤ c ∧ c ≤ 57#8) = true := fun c hc =>
    decide_eq_true ((isDigit_ten_iff c).mp (hds c hc))
  rw [leadingDigits, List.takeWhile_append_of_pos hall]
  cases rest with
  | nil => rw [List.takeWhile_nil, List.append_nil]
  | cons c rest =>
    have hstop : decide (48#8 ≤ c ∧ c ≤ 57#8) = false :=
      decide_eq_false fun h => hrest ((isDigit_ten_iff c).mpr h)
    rw [List.takeWhile_cons_of_neg (by rw [hstop]; exact nofun), List.append_nil]

/-- One digit takes the value times ten and adds itself, without a wrap. -/
theorem toNat_next (hmax : maxvalue.toNat ≤ 65535) {c : Byte} (hc : IsDigit 10 c) {d : DecScan}
    (hd : d.value ≤ maxvalue) :
    (d.value * 10#32).toNat = 10 * d.value.toNat ∧
      (d.next c).value.toNat = 10 * d.value.toNat + (digit? c).getD 0 ∧ (digit? c).getD 0 < 10 := by
  obtain ⟨hlow, hhigh⟩ := (isDigit_ten_iff c).mp hc
  have hlow' : 48 ≤ c.toNat := hlow
  have hhigh' : c.toNat ≤ 57 := hhigh
  have hle : d.value.toNat ≤ maxvalue.toNat := hd
  have hdigit : (digit? c).getD 0 = c.toNat - 48 := by
    rw [digit?, if_pos ⟨hlow, hhigh⟩]
    rfl
  have htens : (d.value * 10#32).toNat = 10 * d.value.toNat := by
    rw [BitVec.toNat_mul, Nat.mul_comm]
    exact Nat.mod_eq_of_lt (by simp; omega)
  have hunits : (c.setWidth 32 - 48#32).toNat = c.toNat - 48 := by
    have hwide : (c.setWidth 32).toNat = c.toNat := BitVec.toNat_setWidth_of_le (by decide)
    have hle48 : 48#32 ≤ c.setWidth 32 := by
      rw [BitVec.le_def, hwide]
      exact hlow'
    rw [BitVec.toNat_sub_of_le hle48, hwide]
    rfl
  -- the value is at most `maxvalue` before, so nothing wraps
  refine ⟨htens, ?_, by omega⟩
  show (d.value * 10#32 + (c.setWidth 32 - 48#32)).toNat = _
  rw [BitVec.toNat_add, htens, hunits, hdigit]
  exact Nat.mod_eq_of_lt (by omega)

/-- The loop reads all digits, or it gets past the greatest value. -/
theorem decLoop_spec (hmax : maxvalue.toNat ≤ 65535) (s : List Byte) (d : DecScan) :
    (valueFrom 10 d.value.toNat (leadingDigits s) ≤ maxvalue.toNat →
      (decLoop maxvalue s d).value.toNat = valueFrom 10 d.value.toNat (leadingDigits s) ∧
        (decLoop maxvalue s d).len = d.len + BitVec.ofNat 32 (leadingDigits s).length) ∧
    (maxvalue.toNat < valueFrom 10 d.value.toNat (leadingDigits s) →
      maxvalue < (decLoop maxvalue s d).value) := by
  induction s generalizing d with
  | nil => exact ⟨fun _ => ⟨rfl, (BitVec.add_zero _).symm⟩, id⟩
  | cons c s ih =>
    by_cases hc : 48#8 ≤ c ∧ c ≤ 57#8
    · have hdigits : leadingDigits (c :: s) = c :: leadingDigits s :=
        List.takeWhile_cons_of_pos (decide_eq_true hc)
      rw [hdigits, valueFrom_cons, decLoop]
      by_cases hle : d.value ≤ maxvalue
      · rw [if_pos ⟨hc.1, hc.2, hle⟩]
        obtain ⟨-, hnext, -⟩ := toNat_next hmax ((isDigit_ten_iff c).mpr hc) hle
        have hih := ih (d.next c)
        rw [hnext] at hih
        refine ⟨fun hvalue => ?_, hih.2⟩
        obtain ⟨hvalue', hlen⟩ := hih.1 hvalue
        refine ⟨hvalue', hlen.trans ?_⟩
        show d.len + 1#32 + _ = _
        rw [List.length_cons, BitVec.ofNat_add, BitVec.add_assoc, BitVec.add_comm 1#32]
      · -- too great already
        rw [if_neg fun h => hle h.2.2]
        have hgt : maxvalue.toNat < d.value.toNat := Nat.not_le.mp hle
        have hgrow : d.value.toNat ≤ valueFrom 10 (10 * d.value.toNat + (digit? c).getD 0)
            (leadingDigits s) := le_trans (by omega) (le_valueFrom (by decide) _)
        exact ⟨fun h => by omega, fun _ => hgt⟩
    · have hdigits : leadingDigits (c :: s) = [] :=
        List.takeWhile_cons_of_neg (by rw [decide_eq_false hc]; exact nofun)
      rw [hdigits, valueFrom_nil, decLoop, if_neg fun h => hc ⟨h.1, h.2.1⟩]
      exact ⟨fun _ => ⟨rfl, (BitVec.add_zero _).symm⟩, id⟩

/-- Everything that the value is stays below ten times the limit. -/
theorem decLoop_values (hmax : maxvalue.toNat ≤ 65535) (s : List Byte) (d : DecScan)
    (hd : ∀ v ∈ d.values, v.toNat ≤ 10 * maxvalue.toNat + 9) :
    ∀ v ∈ (decLoop maxvalue s d).values, v.toNat ≤ 10 * maxvalue.toNat + 9 := by
  induction s generalizing d with
  | nil => exact hd
  | cons c s ih =>
    rw [decLoop]
    split
    · rename_i hgo
      obtain ⟨htens, hnext, hdigit⟩ :=
        toNat_next hmax ((isDigit_ten_iff c).mpr ⟨hgo.1, hgo.2.1⟩) hgo.2.2
      have hle : d.value.toNat ≤ maxvalue.toNat := hgo.2.2
      apply ih
      intro v hv
      rcases List.mem_append.mp hv with hv | hv
      · exact hd v hv
      · rcases List.mem_pair.mp hv with rfl | rfl
        · omega
        · exact hnext.le.trans (by omega)
    · exact hd

/-- What `NET_StringDecToUInt` returns. -/
theorem netStringDecToUInt_spec (hmax : maxvalue.toNat ≤ 65535) (s : List Byte) :
    (value 10 (leadingDigits s) ≤ maxvalue.toNat →
      (netStringDecToUInt s maxvalue).len = BitVec.ofNat 32 (leadingDigits s).length ∧
        (netStringDecToUInt s maxvalue).value.toNat = value 10 (leadingDigits s)) ∧
    (maxvalue.toNat < value 10 (leadingDigits s) → (netStringDecToUInt s maxvalue).len = 0#32) := by
  obtain ⟨hsmall, hgreat⟩ := decLoop_spec hmax s ⟨0#32, 0#32, [0#32]⟩
  unfold netStringDecToUInt
  dsimp only
  constructor
  · intro hle
    obtain ⟨hvalue, hlen⟩ := hsmall hle
    rw [if_neg]
    · exact ⟨hlen.trans (BitVec.zero_add _), hvalue⟩
    · rw [BitVec.lt_def, hvalue]
      exact Nat.not_lt.mpr hle
  · intro hlt
    rw [if_pos (hgreat hlt)]

theorem netStringDecToUInt_values (hmax : maxvalue.toNat ≤ 65535) (s : List Byte) :
    ∀ v ∈ (netStringDecToUInt s maxvalue).values, v.toNat ≤ 10 * maxvalue.toNat + 9 := by
  have hloop := decLoop_values hmax s ⟨0#32, 0#32, [0#32]⟩
    (List.forall_mem_singleton.mpr (Nat.zero_le _))
  unfold netStringDecToUInt
  dsimp only
  split
  · exact hloop
  · exact hloop

/-- A number in front of something else is read. -/
theorem scan_of_number (maxvalue : BitVec 32) (hmax : maxvalue.toNat ≤ 65535)
    {ds rest : List Byte} (hds : IsNumber maxvalue.toNat ds) (hlength : ds.length < 2 ^ 32)
    (hrest : ¬IsDigit 10 (char rest)) :
    (netStringDecToUInt (ds ++ rest) maxvalue).len ≠ 0#32 ∧
      (ds ++ rest).drop (netStringDecToUInt (ds ++ rest) maxvalue).len.toNat = rest ∧
      (netStringDecToUInt (ds ++ rest) maxvalue).value.toNat = value 10 ds := by
  have hspec := (netStringDecToUInt_spec hmax (ds ++ rest)).1
  rw [leadingDigits_append hds.numeral.digits hrest] at hspec
  obtain ⟨hlen, hvalue⟩ := hspec hds.le
  have htoNat := toNat_ofNat_length hlength
  refine ⟨?_, ?_, hvalue⟩
  · rw [hlen]
    intro hzero
    have hnil := congrArg BitVec.toNat hzero
    rw [htoNat] at hnil
    exact hds.numeral.ne_nil (List.length_eq_zero_iff.mp hnil)
  · rw [hlen, htoNat, List.drop_left]

/-- What is read in front of something that is not a digit is a number. -/
theorem number_of_scan (maxvalue : BitVec 32) (hmax : maxvalue.toNat ≤ 65535)
    (hlen : (netStringDecToUInt s maxvalue).len ≠ 0#32)
    (hrest : ¬IsDigit 10 (char (s.drop (netStringDecToUInt s maxvalue).len.toNat))) :
    ∃ ds, IsNumber maxvalue.toNat ds ∧ ds.length < 2 ^ 32 ∧
      s = ds ++ s.drop (netStringDecToUInt s maxvalue).len.toNat := by
  obtain ⟨hsmall, hgreat⟩ := netStringDecToUInt_spec hmax s
  -- a greater number would have been refused
  have hle : value 10 (leadingDigits s) ≤ maxvalue.toNat := by
    by_contra hlt
    exact hlen (hgreat (Nat.not_le.mp hlt))
  obtain ⟨hlen', -⟩ := hsmall hle
  obtain ⟨rest, hsplit⟩ : ∃ rest, leadingDigits s ++ rest = s := List.takeWhile_prefix _
  have hdigits : ∀ c ∈ leadingDigits s, IsDigit 10 c := fun c => isDigit_of_mem_leadingDigits
  generalize leadingDigits s = ds at hle hlen' hsplit hdigits
  subst hsplit
  -- more digits than can be counted would leave a digit
  have hlength : ds.length < 2 ^ 32 := by
    by_contra hlong
    refine hrest (hdigits _ ?_)
    rw [hlen']
    exact char_drop_wrapped rest (Nat.not_lt.mp hlong)
  refine ⟨ds, ⟨⟨?_, hdigits⟩, hle⟩, hlength, ?_⟩
  · rintro rfl
    exact hlen hlen'
  · rw [hlen', toNat_ofNat_length hlength, List.drop_left]

end

/-! ## Four numbers -/

/-- The bytes from `i` on are set to the numbers. -/
def setNumbers : Nat → List (List Byte) → StructNetaddr → StructNetaddr
  | _, [], a => a
  | i, d :: ds, a => setNumbers (i + 1) ds (a.setByte i (BitVec.ofNat 8 (value 10 d)))

/-- A number that can be counted. -/
structure Countable (max : Nat) (d : List Byte) : Prop where
  number : IsNumber max d
  length : d.length < 2 ^ 32

theorem not_isDigit_zero : ¬IsDigit 10 0#8 := fun h => h.ne_zero rfl

theorem not_isDigit_colon : ¬IsDigit 10 58#8 := by
  rw [isDigit_ten_iff]
  decide

theorem not_isDigit_dot : ¬IsDigit 10 46#8 := by
  rw [isDigit_ten_iff]
  decide

/-- The end of an IPv4 address. -/
def EndsAddress (rest : List Byte) : Prop := char rest = 0#8 ∨ char rest = 58#8

theorem EndsAddress.not_isDigit {rest : List Byte} (h : EndsAddress rest) :
    ¬IsDigit 10 (char rest) := by
  rcases h with h | h
  · rw [h]
    exact not_isDigit_zero
  · rw [h]
    exact not_isDigit_colon

theorem eq_dot_cons {s : List Byte} (h : char s = 46#8) : s = 46#8 :: s.drop 1 := by
  cases s with
  | nil => exact nomatch h
  | cons c s =>
    obtain rfl : c = 46#8 := h
    rfl

/-- What follows a number: a dot, and after the last number the end. -/
theorem afterNumber_iff {i : Nat} {s s' : List Byte} : afterNumber i s = some s' ↔
    (i = 3 ∧ EndsAddress s ∧ s' = s) ∨ (i ≠ 3 ∧ s = 46#8 :: s') := by
  unfold afterNumber EndsAddress
  by_cases hi : i = 3
  · rw [if_pos hi]
    by_cases hs : char s ≠ 0#8 ∧ char s ≠ 58#8
    · rw [if_pos hs]
      simp [hi, hs.1, hs.2]
    · rw [if_neg hs]
      have hend : char s = 0#8 ∨ char s = 58#8 := by
        by_contra hne
        exact hs (not_or.mp hne)
      rw [Option.some_inj, eq_comm]
      simp [hi, hend]
  · rw [if_neg hi]
    by_cases hs : char s = 46#8
    · rw [if_neg (not_not.mpr hs)]
      have heq := eq_dot_cons hs
      constructor
      · intro h
        rw [← Option.some.inj h]
        exact .inr ⟨hi, heq⟩
      · rintro (⟨h, -⟩ | ⟨-, rfl⟩)
        · exact absurd h hi
        · rfl
    · rw [if_pos hs]
      constructor
      · exact nofun
      · rintro (⟨h, -⟩ | ⟨-, rfl⟩)
        · exact absurd h hi
        · exact absurd rfl hs

/-- The loop over the numbers that are left reads them. -/
theorem ipv4Loop_of_numbers {rest : List Byte} (hrest : EndsAddress rest) :
    ∀ (ds : List (List Byte)) (a : StructNetaddr), ds ≠ [] → ds.length ≤ 4 →
      (∀ d ∈ ds, Countable 255 d) →
      (ipv4Loop ds.length (joined 46#8 ds ++ rest) a).result = some rest ∧
        (ipv4Loop ds.length (joined 46#8 ds ++ rest) a).addr = setNumbers (4 - ds.length) ds a := by
  intro ds
  induction ds with
  | nil => exact fun a h => absurd rfl h
  | cons d ds ih =>
    intro a _ hlength hall
    obtain ⟨hd, hds⟩ := List.forall_mem_cons.mp hall
    rw [List.length_cons] at hlength
    -- the text behind the number
    obtain ⟨after, hafter, hstop, hnext⟩ : ∃ after, joined 46#8 (d :: ds) ++ rest = d ++ after ∧
        ¬IsDigit 10 (char after) ∧
        ∃ s, afterNumber (3 - ds.length) after = some s ∧ s = joined 46#8 ds ++ rest := by
      cases ds with
      | nil =>
        exact ⟨rest, rfl, hrest.not_isDigit, rest, afterNumber_iff.mpr (.inl ⟨rfl, hrest, rfl⟩), rfl⟩
      | cons d' ds =>
        refine ⟨46#8 :: (joined 46#8 (d' :: ds) ++ rest), ?_, not_isDigit_dot, _,
          afterNumber_iff.mpr (.inr ⟨?_, rfl⟩), rfl⟩
        · rw [joined_cons_cons, List.append_assoc, List.cons_append]
        · rw [List.length_cons] at hlength ⊢
          omega
    obtain ⟨s, hs, rfl⟩ := hnext
    obtain ⟨hlen, hdrop, hvalue⟩ := scan_of_number 255#32 (by decide) hd.number
      hd.length hstop
    have hbyte : (netStringDecToUInt (d ++ after) 255#32).value.setWidth 8
        = BitVec.ofNat 8 (value 10 d) := by
      rw [← hvalue]
      exact (BitVec.ofNat_toNat 8 _).symm
    -- one pass reads this number and stores its byte
    have hstep : ipv4Loop (ds.length + 1) (d ++ after) a
        = { ipv4Loop ds.length (joined 46#8 ds ++ rest)
            (a.setByte (3 - ds.length) (BitVec.ofNat 8 (value 10 d))) with
          values := (netStringDecToUInt (d ++ after) 255#32).values
            ++ (ipv4Loop ds.length (joined 46#8 ds ++ rest)
              (a.setByte (3 - ds.length) (BitVec.ofNat 8 (value 10 d)))).values } := by
      rw [ipv4Loop]
      dsimp only
      rw [if_neg hlen, hdrop, hs, hbyte]
    rw [List.length_cons, hafter, hstep]
    have hindex : 4 - (ds.length + 1) = 3 - ds.length := by omega
    rw [hindex, setNumbers]
    cases ds with
    | nil => exact ⟨rfl, rfl⟩
    | cons d' ds =>
      have hih := ih (a.setByte (3 - (d' :: ds).length) (BitVec.ofNat 8 (value 10 d))) nofun
        (by omega) hds
      have hindex' : 4 - (d' :: ds).length = 3 - (d' :: ds).length + 1 := by
        rw [List.length_cons] at hlength ⊢
        omega
      rw [hindex'] at hih
      exact hih

/-- A pass that goes on has read a number, and what follows it. -/
theorem ipv4Loop_step {left : Nat} {s rest : List Byte} {a : StructNetaddr}
    (h : (ipv4Loop (left + 1) s a).result = some rest) :
    ∃ d after s' a', Countable 255 d ∧ s = d ++ after ∧ afterNumber (3 - left) after = some s' ∧
      (ipv4Loop left s' a').result = some rest := by
  rw [ipv4Loop] at h
  dsimp only at h
  split at h
  · exact nomatch h
  · rename_i hlen
    split at h
    · exact nomatch h
    · rename_i s' hafter
      have hstop : ¬IsDigit 10 (char (s.drop (netStringDecToUInt s 255#32).len.toNat)) := by
        rcases afterNumber_iff.mp hafter with ⟨-, hend, -⟩ | ⟨-, hdot⟩
        · exact hend.not_isDigit
        · rw [hdot]
          exact not_isDigit_dot
      obtain ⟨d, hnumber, hlength, hsplit⟩ := number_of_scan 255#32 (by decide) hlen hstop
      exact ⟨d, _, s', _, ⟨hnumber, hlength⟩, hsplit, hafter, h⟩

/-- What the loop accepts are numbers. -/
theorem numbers_of_ipv4Loop {left : Nat} {s rest : List Byte} {a : StructNetaddr}
    (hleft : left + 1 ≤ 4) (h : (ipv4Loop (left + 1) s a).result = some rest) :
    ∃ ds, ds.length = left + 1 ∧ (∀ d ∈ ds, Countable 255 d) ∧ s = joined 46#8 ds ++ rest ∧
      EndsAddress rest := by
  induction left generalizing s a with
  | zero =>
    obtain ⟨d, after, s', a', hd, rfl, hafter, hlast⟩ := ipv4Loop_step h
    obtain rfl : s' = rest := Option.some.inj hlast
    rcases afterNumber_iff.mp hafter with ⟨-, hend, rfl⟩ | ⟨hne, -⟩
    · exact ⟨[d], rfl, List.forall_mem_singleton.mpr hd, rfl, hend⟩
    · exact absurd rfl hne
  | succ left ih =>
    obtain ⟨d, after, s', a', hd, rfl, hafter, hnext⟩ := ipv4Loop_step h
    rcases afterNumber_iff.mp hafter with ⟨heq, -⟩ | ⟨-, rfl⟩
    · omega
    · obtain ⟨ds, hlength, hall, rfl, hend⟩ := ih (by omega) hnext
      obtain ⟨d', ds, rfl⟩ := List.exists_cons_of_length_eq_add_one hlength
      refine ⟨d :: d' :: ds, congrArg (· + 1) hlength, List.forall_mem_cons.mpr ⟨hd, hall⟩, ?_, hend⟩
      rw [joined_cons_cons, List.append_assoc, List.cons_append]

/-! ## The whole text -/

section

variable {s rest : List Byte} {ds : List (List Byte)}

/-- Numbers with dots between them are made of digits and dots. -/
theorem dotted_chars (hds : ∀ d ∈ ds, IsNumber 255 d) :
    ∀ c ∈ joined 46#8 ds, IsDigit 10 c ∨ c = 46#8 :=
  joined_chars fun d hd => (hds d hd).numeral

theorem not_endsAddress_of_mem (hds : ∀ d ∈ ds, IsNumber 255 d) {t : List Byte}
    (hmem : char t ∈ joined 46#8 ds) : char t ≠ 0#8 ∧ char t ≠ 58#8 := by
  rcases dotted_chars hds _ hmem with hdigit | hdot
  · refine ⟨hdigit.ne_zero, fun hcolon => ?_⟩
    rw [hcolon] at hdigit
    exact not_isDigit_colon hdigit
  · rw [hdot]
    decide

/-- The address ends at the first colon. -/
theorem takeWhile_dotted (hds : ∀ d ∈ ds, IsNumber 255 d) (hrest : rest = [] ∨ char rest = 58#8) :
    (joined 46#8 ds ++ rest).takeWhile (· ≠ 58#8) = joined 46#8 ds := by
  have hall : ∀ c ∈ joined 46#8 ds, decide (c ≠ 58#8) = true := by
    intro c hc
    refine decide_eq_true fun hcolon => ?_
    rcases dotted_chars hds c hc with hdigit | hdot
    · rw [hcolon] at hdigit
      exact not_isDigit_colon hdigit
    · rw [hcolon] at hdot
      exact absurd hdot (by decide)
  rw [List.takeWhile_append_of_pos hall]
  cases rest with
  | nil => rw [List.takeWhile_nil, List.append_nil]
  | cons c rest =>
    rcases hrest with hnil | hcolon
    · exact nomatch hnil
    · obtain rfl : c = 58#8 := hcolon
      rw [List.takeWhile_cons_of_neg (by decide), List.append_nil]

/-- The first character of an address is a digit. -/
theorem char_dotted (hds : ∀ d ∈ ds, IsNumber 255 d) (hne : ds ≠ []) (rest : List Byte) :
    IsDigit 10 (char (joined 46#8 ds ++ rest)) ∧ 0 < (joined 46#8 ds).length := by
  obtain ⟨d, ds', rfl⟩ := List.exists_cons_of_ne_nil hne
  have hd := (hds d List.mem_cons_self).numeral
  obtain ⟨c, d', rfl⟩ := List.exists_cons_of_ne_nil hd.ne_nil
  have hc := hd.digits c List.mem_cons_self
  cases ds' with
  | nil => exact ⟨hc, Nat.succ_pos _⟩
  | cons d'' ds' => exact ⟨hc, by rw [joined_cons_cons, List.length_append, List.length_cons]; omega⟩

/-- `NET_StringToIPv4` of an address that can be counted. -/
theorem netStringToIPv4_of_numbers (a : StructNetaddr) (hfour : ds.length = 4)
    (hds : ∀ d ∈ ds, Countable 255 d) (hrest : EndsAddress rest) :
    (netStringToIPv4 (joined 46#8 ds ++ rest) a).result = BitVec.ofNat 32 (joined 46#8 ds).length ∧
      (netStringToIPv4 (joined 46#8 ds ++ rest) a).addr = { setNumbers 0 ds a with type := .ipv4 } := by
  have hne : ds ≠ [] := by
    rintro rfl
    exact nomatch hfour
  obtain ⟨hresult, haddr⟩ := ipv4Loop_of_numbers hrest ds a hne hfour.le hds
  rw [hfour] at hresult haddr
  unfold netStringToIPv4
  dsimp only
  rw [hresult, haddr]
  dsimp only
  rw [List.length_append, Nat.add_sub_cancel]
  exact ⟨rfl, rfl⟩

theorem numbers_of_netStringToIPv4 {a : StructNetaddr} (h : (netStringToIPv4 s a).result ≠ 0#32) :
    ∃ ds rest, ds.length = 4 ∧ (∀ d ∈ ds, Countable 255 d) ∧ s = joined 46#8 ds ++ rest ∧
      EndsAddress rest := by
  unfold netStringToIPv4 at h
  dsimp only at h
  split at h
  · exact absurd rfl h
  · rename_i rest hresult
    obtain ⟨ds, hfour, hds, hs, hend⟩ := numbers_of_ipv4Loop (by decide) hresult
    exact ⟨ds, rest, hfour, hds, hs, hend⟩

theorem netStringToIPv4_resolved (s : List Byte) (a : StructNetaddr) :
    (netStringToIPv4 s a).resolved = [] := by
  unfold netStringToIPv4
  dsimp only
  split
  · rfl
  · rfl

theorem netStringToIPv4_type {s : List Byte} {a : StructNetaddr}
    (h : (netStringToIPv4 s a).result ≠ 0#32) : (netStringToIPv4 s a).addr.type = .ipv4 := by
  unfold netStringToIPv4 at h ⊢
  dsimp only at h ⊢
  split at h
  · exact absurd rfl h
  · rfl

end

/-! ## The port -/

theorem scanPort_nil : scanPort [] = (some (27500#32, []), []) := rfl

theorem scanPort_of_number {d : List Byte} (hd : Countable 65535 d) : ∃ port values,
    scanPort (58#8 :: d) = (some (port, []), values) ∧ port.toNat = value 10 d := by
  have hzero : ¬IsDigit 10 (char []) := not_isDigit_zero
  obtain ⟨hlen, hdrop, hvalue⟩ := scan_of_number 65535#32 (by decide) hd.number hd.length hzero
  rw [List.append_nil] at hlen hdrop hvalue
  refine ⟨(netStringDecToUInt d 65535#32).value, (netStringDecToUInt d 65535#32).values, ?_, hvalue⟩
  have hbehind : (58#8 :: d).drop 1 = d := rfl
  rw [scanPort, if_pos (char_cons _ _)]
  simp only [hbehind]
  rw [if_neg hlen, hdrop]

/-- A port that ends the string is none, or a number behind a colon. -/
theorem number_of_scanPort {rest s : List Byte} {port : BitVec 32} {values : List (BitVec 32)}
    (hrest : EndsAddress rest) (hnonzero : ∀ c ∈ rest, c ≠ 0#8)
    (h : scanPort rest = (some (port, s), values)) (hend : char s = 0#8) :
    rest = [] ∨ ∃ d, rest = 58#8 :: d ∧ Countable 65535 d := by
  cases rest with
  | nil => exact .inl rfl
  | cons c rest =>
    have hcolon : c = 58#8 := hrest.resolve_left (hnonzero c List.mem_cons_self)
    subst hcolon
    have hbehind : (58#8 :: rest).drop 1 = rest := rfl
    rw [scanPort, if_pos (char_cons _ _)] at h
    simp only [hbehind] at h
    split at h
    · exact nomatch h
    · rename_i hlen
      obtain ⟨hscan, -⟩ := Prod.mk.inj h
      obtain ⟨-, rfl⟩ := Prod.mk.inj (Option.some.inj hscan)
      have hstop : ¬IsDigit 10 (char (rest.drop (netStringDecToUInt rest 65535#32).len.toNat)) := by
        rw [hend]
        exact not_isDigit_zero
      obtain ⟨d, hnumber, hlength, hsplit⟩ := number_of_scan 65535#32 (by decide) hlen hstop
      -- nothing is left behind the digits
      have hnil : rest.drop (netStringDecToUInt rest 65535#32).len.toNat = [] := by
        cases hdrop : rest.drop (netStringDecToUInt rest 65535#32).len.toNat with
        | nil => rfl
        | cons c' t =>
          rw [hdrop] at hend
          have hmem : c' ∈ rest := by
            rw [hsplit, hdrop]
            exact List.mem_append_right _ List.mem_cons_self
          exact absurd hend (hnonzero c' (List.mem_cons_of_mem _ hmem))
      rw [hnil, List.append_nil] at hsplit
      exact .inr ⟨rest, rfl, hsplit ▸ ⟨hnumber, hlength⟩⟩

/-! ## `NET_StringToAdr` -/

namespace Ipv4Text

variable (t : Ipv4Text)

theorem portText_spec : t.portText = [] ∨ char t.portText = 58#8 := by
  unfold portText
  split
  · exact .inl rfl
  · exact .inr rfl

theorem endsAddress : EndsAddress t.portText := by
  rcases t.portText_spec with hnil | hcolon
  · rw [hnil]
    exact .inl rfl
  · exact .inr hcolon

theorem numbers_ne_nil : t.numbers ≠ [] := by
  intro hnil
  have hfour := t.four
  rw [hnil] at hfour
  exact nomatch hfour

theorem text_ne_local : t.text ≠ ascii "local" := by
  intro heq
  have hdigit := (char_dotted t.small t.numbers_ne_nil t.portText).1
  have hchar : char (joined 46#8 t.numbers ++ t.portText) = char (ascii "local") := congrArg char heq
  rw [hchar, isDigit_ten_iff] at hdigit
  exact absurd hdigit (by decide)

/-- A text is parsed in one way only. -/
theorem text_inj {t t' : Ipv4Text} (h : t.text = t'.text) (hshort : t'.Short) : t.Short := by
  have hnumbers : joined 46#8 t.numbers = joined 46#8 t'.numbers := by
    rw [← takeWhile_dotted t.small t.portText_spec, ← takeWhile_dotted t'.small t'.portText_spec]
    exact congrArg _ h
  have hports : t.portText = t'.portText := by
    unfold text at h
    rw [hnumbers] at h
    exact List.append_cancel_left h
  refine ⟨hnumbers ▸ hshort.1, fun d hd => ?_⟩
  unfold portText at hports
  rw [Option.mem_def.mp hd] at hports
  dsimp only at hports
  split at hports
  · exact nomatch hports
  · rename_i d' hd'
    obtain rfl := (List.cons.inj hports).2
    exact hshort.2 d hd'

theorem Short.countable {t : Ipv4Text} (h : t.Short) : ∀ d ∈ t.numbers, Countable 255 d := by
  intro d hd
  exact ⟨t.small d hd, Nat.lt_of_le_of_lt (length_le_joined hd) h.1⟩

/-- The numbers are stored one after the other. -/
theorem setNumbers_address : (setNumbers 0 t.numbers .zero).address = t.addr.address := by
  obtain ⟨numbers, port, hfour, hsmall, hport⟩ := t
  obtain ⟨d₀, d₁, d₂, d₃, rfl⟩ : ∃ d₀ d₁ d₂ d₃, numbers = [d₀, d₁, d₂, d₃] := by
    match numbers, hfour with
    | [d₀, d₁, d₂, d₃], _ => exact ⟨d₀, d₁, d₂, d₃, rfl⟩
  funext i
  by_cases h₃ : i = 3
  · rw [h₃]
    rfl
  by_cases h₂ : i = 2
  · rw [h₂]
    rfl
  by_cases h₁ : i = 1
  · rw [h₁]
    rfl
  by_cases h₀ : i = 0
  · rw [h₀]
    rfl
  have hbehind : [d₀, d₁, d₂, d₃].length ≤ i.val := by
    have hne : ∀ k : Fin 16, i ≠ k → i.val ≠ k.val := fun k h heq => h (Fin.ext heq)
    have := hne 0 h₀
    have := hne 1 h₁
    have := hne 2 h₂
    have := hne 3 h₃
    simp at *
    omega
  have hrest : (setNumbers 0 [d₀, d₁, d₂, d₃] .zero).address i = 0#8 :=
    (Function.update_of_ne h₃ _ _).trans ((Function.update_of_ne h₂ _ _).trans
      ((Function.update_of_ne h₁ _ _).trans (Function.update_of_ne h₀ _ _)))
  have haddr : BitVec.ofNat 8 (value 10 ([d₀, d₁, d₂, d₃].getD i [])) = 0#8 := by
    rw [List.getD_eq_default _ _ hbehind]
    rfl
  exact hrest.trans haddr.symm

end Ipv4Text

section

variable (resolve : Resolver) (malloc : Bool)

/-- A numeric address does not get to the resolver. -/
theorem netStringToNetAddrNoPort_numeric {s : List Byte} {a : StructNetaddr}
    (hlocal : s ≠ ascii "local") (h : (netStringToIPv4 s a).result ≠ 0#32) :
    netStringToNetAddrNoPort resolve malloc s a = netStringToIPv4 s a := by
  rw [netStringToNetAddrNoPort, if_neg hlocal]
  dsimp only [netStringToIPv6]
  rw [if_neg (not_not.mpr rfl), if_pos h]

/-- Any other address does, or it fails. -/
theorem resolved_of_not_numeric {s : List Byte} (hlocal : s ≠ ascii "local")
    (h : (netStringToIPv4 s .zero).result = 0#32)
    (hok : (netStringToAdr resolve malloc s).result = true) :
    (netStringToAdr resolve malloc s).resolved ≠ [] := by
  have hname : netStringToNetAddrNoPort resolve malloc s .zero
      = { resolveHostname resolve malloc s (netStringToIPv4 s .zero).addr with
          values := (netStringToIPv4 s .zero).values } := by
    rw [netStringToNetAddrNoPort, if_neg hlocal]
    dsimp only [netStringToIPv6]
    rw [if_neg (not_not.mpr rfl), if_neg (not_not.mpr h)]
  rw [netStringToAdr] at hok ⊢
  dsimp only at hok ⊢
  rw [hname] at hok ⊢
  dsimp only at hok ⊢
  split at hok
  · exact nomatch hok
  · rename_i hlen
    rw [if_neg hlen]
    have hresolved : (resolveHostname resolve malloc s (netStringToIPv4 s .zero).addr).resolved
        ≠ [] := by
      unfold resolveHostname at hlen ⊢
      dsimp only at hlen ⊢
      split
      · exact nofun
      · rename_i hmalloc
        rw [if_neg hmalloc] at hlen
        exact absurd rfl hlen
    split
    · exact hresolved
    · split
      · exact hresolved
      · exact hresolved

/-- `NET_StringToAdr` behind a numeric address, where a port ends the string. -/
theorem netStringToAdr_of_port {s s' : List Byte} {port : BitVec 32} {values : List (BitVec 32)}
    (hlocal : s ≠ ascii "local") (h : (netStringToIPv4 s .zero).result ≠ 0#32)
    (hport : scanPort (s.drop (netStringToIPv4 s .zero).result.toNat) = (some (port, s'), values))
    (hend : char s' = 0#8) :
    netStringToAdr resolve malloc s =
      ⟨true, { (netStringToIPv4 s .zero).addr with port := port.setWidth 16 },
        (netStringToIPv4 s .zero).values ++ values, []⟩ := by
  rw [netStringToAdr]
  dsimp only
  rw [netStringToNetAddrNoPort_numeric resolve malloc hlocal h, if_neg h, hport]
  dsimp only
  rw [if_neg (not_not.mpr hend), storePort, if_pos (.inl (netStringToIPv4_type h)),
    netStringToIPv4_resolved]

/-- A numeric address is accepted only where a port ends the string. -/
theorem port_of_netStringToAdr {s : List Byte} (hlocal : s ≠ ascii "local")
    (h : (netStringToIPv4 s .zero).result ≠ 0#32)
    (hok : (netStringToAdr resolve malloc s).result = true) : ∃ port s' values,
    scanPort (s.drop (netStringToIPv4 s .zero).result.toNat) = (some (port, s'), values) ∧
      char s' = 0#8 := by
  rw [netStringToAdr] at hok
  dsimp only at hok
  rw [netStringToNetAddrNoPort_numeric resolve malloc hlocal h, if_neg h] at hok
  split at hok
  · simp at hok
  · rename_i port s' values hport
    refine ⟨port, s', values, hport, ?_⟩
    by_contra hne
    rw [if_pos hne] at hok
    simp at hok

/-- A text of the grammar that is short is accepted. -/
theorem netStringToAdr_of_short {t : Ipv4Text} (hshort : t.Short) :
    (netStringToAdr resolve malloc t.text).result = true ∧
      (netStringToAdr resolve malloc t.text).addr = t.addr ∧
      (netStringToAdr resolve malloc t.text).resolved = [] := by
  obtain ⟨hresult, haddr⟩ :=
    netStringToIPv4_of_numbers .zero t.four hshort.countable t.endsAddress
  have htoNat := toNat_ofNat_length hshort.1
  have hpos := (char_dotted t.small t.numbers_ne_nil t.portText).2
  have hnonzero : (netStringToIPv4 t.text .zero).result ≠ 0#32 := by
    intro hzero
    have hlength := congrArg BitVec.toNat (hresult.symm.trans hzero)
    rw [htoNat] at hlength
    exact absurd hlength (Nat.ne_of_gt hpos)
  -- the length that is handed back is that of the four numbers
  have hdrop : t.text.drop (netStringToIPv4 t.text .zero).result.toNat = t.portText := by
    have hlen : (netStringToIPv4 t.text .zero).result.toNat = (joined 46#8 t.numbers).length := by
      rw [← htoNat]
      exact congrArg BitVec.toNat hresult
    rw [hlen]
    exact List.drop_left
  -- the port is read to the end
  obtain ⟨port, values, hport, hnumber⟩ : ∃ port values,
      scanPort t.portText = (some (port, []), values) ∧ port.toNat = t.portNumber := by
    unfold Ipv4Text.portText Ipv4Text.portNumber
    cases hp : t.port with
    | none => exact ⟨_, _, scanPort_nil, rfl⟩
    | some d =>
      exact scanPort_of_number ⟨t.portSmall d hp, hshort.2 d hp⟩
  have hscan : scanPort (t.text.drop (netStringToIPv4 t.text .zero).result.toNat)
      = (some (port, []), values) := by
    rw [hdrop]
    exact hport
  have hstored : port.setWidth 16 = BitVec.ofNat 16 t.portNumber := by
    rw [← hnumber]
    exact (BitVec.ofNat_toNat 16 _).symm
  have haddr' : (netStringToIPv4 t.text .zero).addr
      = { setNumbers 0 t.numbers .zero with type := .ipv4 } := haddr
  rw [netStringToAdr_of_port resolve malloc t.text_ne_local hnonzero hscan char_nil]
  refine ⟨rfl, ?_, rfl⟩
  dsimp only
  rw [haddr', hstored, t.setNumbers_address]
  rfl

/-- What is accepted without a name is a short text of the grammar. -/
theorem short_of_netStringToAdr {s : List Byte} (hnonzero : ∀ c ∈ s, c ≠ 0#8)
    (h : (netStringToIPv4 s .zero).result ≠ 0#32)
    (hok : (netStringToAdr resolve malloc s).result = true) :
    ∃ t : Ipv4Text, t.text = s ∧ t.Short := by
  obtain ⟨ds, rest, hfour, hds, rfl, hend⟩ := numbers_of_netStringToIPv4 h
  have hsmall : ∀ d ∈ ds, IsNumber 255 d := fun d hd => (hds d hd).number
  have hne : ds ≠ [] := by
    rintro rfl
    exact nomatch hfour
  have hlocal : joined 46#8 ds ++ rest ≠ ascii "local" := by
    intro heq
    have hdigit := (char_dotted hsmall hne rest).1
    rw [heq, isDigit_ten_iff] at hdigit
    exact absurd hdigit (by decide)
  have hresult := (netStringToIPv4_of_numbers .zero hfour hds hend).1
  obtain ⟨port, s', values, hport, hchar⟩ := port_of_netStringToAdr resolve malloc hlocal h hok
  rw [hresult] at hport
  -- a longer address would not end where the port is looked for
  have hshort : (joined 46#8 ds).length < 2 ^ 32 := by
    by_contra hlong
    obtain ⟨hzero, hcolon⟩ := not_endsAddress_of_mem hsmall
      (char_drop_wrapped rest (Nat.not_lt.mp hlong))
    rw [scanPort, if_neg hcolon] at hport
    obtain ⟨hscan, -⟩ := Prod.mk.inj hport
    obtain ⟨-, rfl⟩ := Prod.mk.inj (Option.some.inj hscan)
    exact hzero hchar
  rw [toNat_ofNat_length hshort, List.drop_left] at hport
  have hrest : ∀ c ∈ rest, c ≠ 0#8 := fun c hc => hnonzero c (List.mem_append_right _ hc)
  -- without a port, or with one
  rcases number_of_scanPort hend hrest hport hchar with rfl | ⟨d, rfl, hd⟩
  · exact ⟨⟨ds, none, hfour, hsmall, nofun⟩, rfl, hshort, nofun⟩
  · refine ⟨⟨ds, some d, hfour, hsmall, ?_⟩, rfl, hshort, ?_⟩
    · intro d' hd'
      obtain rfl := Option.some.inj (Option.mem_def.mp hd')
      exact hd.number
    · intro d' hd'
      obtain rfl := Option.some.inj (Option.mem_def.mp hd')
      exact hd.length

end

/-! ## What the numbers were on the way -/

theorem ipv4Loop_values : ∀ (left : Nat) (s : List Byte) (a : StructNetaddr),
    ∀ v ∈ (ipv4Loop left s a).values, v.toNat ≤ 10 * 255 + 9 := by
  intro left
  induction left with
  | zero => exact fun s a v hv => absurd hv List.not_mem_nil
  | succ left ih =>
    intro s a v hv
    have hscan := @netStringDecToUInt_values 255#32 (by decide) s
    rw [ipv4Loop] at hv
    dsimp only at hv
    split at hv
    · exact hscan v hv
    · split at hv
      · exact hscan v hv
      · rcases List.mem_append.mp hv with hv | hv
        · exact hscan v hv
        · exact ih _ _ v hv

theorem netStringToIPv4_values (s : List Byte) (a : StructNetaddr) :
    ∀ v ∈ (netStringToIPv4 s a).values, v.toNat ≤ 10 * 255 + 9 := by
  intro v hv
  apply ipv4Loop_values 4 s a v
  unfold netStringToIPv4 at hv
  dsimp only at hv
  split at hv
  · exact hv
  · exact hv

theorem scanPort_values (s : List Byte) : ∀ v ∈ (scanPort s).2, v.toNat ≤ 10 * 65535 + 9 := by
  have hscan := @netStringDecToUInt_values 65535#32 (by decide) (s.drop 1)
  unfold scanPort
  dsimp only
  split
  · split
    · exact hscan
    · exact hscan
  · simp

/-- No value is above ten times the greatest port. -/
theorem netStringToAdr_values (resolve : Resolver) (malloc : Bool) (s : List Byte) :
    ∀ v ∈ (netStringToAdr resolve malloc s).values, v.toNat ≤ 10 * 65535 + 9 := by
  have haddress : ∀ v ∈ (netStringToNetAddrNoPort resolve malloc s .zero).values,
      v.toNat ≤ 10 * 65535 + 9 := by
    -- a name that is resolved scans no number
    intro v hv
    have hloop : v ∈ (netStringToIPv4 s .zero).values → v.toNat ≤ 10 * 65535 + 9 := fun h =>
      (netStringToIPv4_values s .zero v h).trans (by decide)
    unfold netStringToNetAddrNoPort at hv
    dsimp only at hv
    split at hv
    · exact absurd hv List.not_mem_nil
    · split at hv
      · exact absurd hv List.not_mem_nil
      · split at hv
        · exact hloop hv
        · exact hloop hv
  intro v hv
  rw [netStringToAdr] at hv
  dsimp only at hv
  split at hv
  · exact haddress v hv
  · have hboth : ∀ rest, v ∈ (netStringToNetAddrNoPort resolve malloc s .zero).values
        ++ (scanPort rest).2 → v.toNat ≤ 10 * 65535 + 9 := fun rest h =>
      (List.mem_append.mp h).elim (haddress v) (scanPort_values rest v)
    generalize hrest : s.drop (netStringToNetAddrNoPort resolve malloc s .zero).result.toNat = rest
      at hv
    have hrest' := hboth rest
    split at hv
    · rename_i values hport
      rw [hport] at hrest'
      exact hrest' hv
    · rename_i port s' values hport
      rw [hport] at hrest'
      split at hv
      · exact hrest' hv
      · exact hrest' hv

/-! ## Printing and parsing again -/

namespace Ipv4Text

/-- A number in print. -/
theorem isNumber_ofNat {n max : Nat} (h : n ≤ max) : IsNumber max (ofNat 10 n) := by
  obtain ⟨hnumeral, hvalue⟩ := ofNat_spec (b := 10) (by decide) (by decide) n
  exact ⟨hnumeral, hvalue.le.trans h⟩

/-- The text of an address. -/
def ofAddr (a : StructNetaddr) : Ipv4Text where
  numbers := [0, 1, 2, 3].map fun i => ofNat 10 (a.byte i).toNat
  port := some (ofNat 10 a.port.toNat)
  four := rfl
  small d hd := by
    obtain ⟨i, -, rfl⟩ := List.mem_map.mp hd
    exact isNumber_ofNat (Nat.le_of_lt_succ (a.byte i).isLt)
  portSmall d hd := by
    obtain rfl := Option.some.inj (Option.mem_def.mp hd)
    exact isNumber_ofNat (Nat.le_of_lt_succ a.port.isLt)

theorem ofAddr_text (a : StructNetaddr) : (ofAddr a).text = ipv4String a := by
  have hdot : ascii "." = [46#8] := rfl
  have hcolon : ascii ":" = [58#8] := rfl
  simp [text, ofAddr, portText, ipv4String, decimal_setWidth, hdot, hcolon]

theorem length_ofAddr_text (a : StructNetaddr) : (ofAddr a).text.length < 64 := by
  have hbyte : ∀ i, (ofNat 10 (a.byte i).toNat).length ≤ 3 := fun i =>
    length_ofNat_le (by decide) (by decide) (lt_trans (a.byte i).isLt (by decide))
  have hport := length_port_le a.port
  have h₀ := hbyte 0
  have h₁ := hbyte 1
  have h₂ := hbyte 2
  have h₃ := hbyte 3
  simp [text, ofAddr, portText]
  omega

/-- The text has no null byte. -/
theorem text_nonzero (t : Ipv4Text) : ∀ c ∈ t.text, c ≠ 0#8 := by
  intro c hc
  rcases List.mem_append.mp hc with hc | hc
  · rcases dotted_chars t.small c hc with hdigit | rfl
    · exact hdigit.ne_zero
    · decide
  · unfold portText at hc
    split at hc
    · exact absurd hc List.not_mem_nil
    · rename_i d hd
      rcases List.mem_cons.mp hc with rfl | hc
      · decide
      · exact ((t.portSmall d hd).numeral.digits c hc).ne_zero

/-- A text shorter than `2 ^ 32` is short. -/
theorem short_of_length {t : Ipv4Text} (h : t.text.length < 2 ^ 32) : t.Short := by
  rw [text, List.length_append] at h
  refine ⟨by omega, fun d hd => ?_⟩
  have hport : t.portText = 58#8 :: d := by
    rw [portText, Option.mem_def.mp hd]
  rw [hport, List.length_cons] at h
  omega

end Ipv4Text

/-- The same IPv4 address and port. -/
structure SameIpv4 (a a' : StructNetaddr) : Prop where
  type : a.type = .ipv4
  type' : a'.type = .ipv4
  bytes : ∀ i < 4, a'.byte i = a.byte i
  port : a'.port = a.port

theorem Ipv4Text.sameIpv4_ofAddr {a : StructNetaddr} (ha : a.type = .ipv4) :
    SameIpv4 a (ofAddr a).addr := by
  have hvalue : ∀ n, value 10 (ofNat 10 n) = n := fun n =>
    (ofNat_spec (b := 10) (by decide) (by decide) n).2
  refine ⟨ha, rfl, fun i hi => ?_, ?_⟩
  · have hbyte : (ofAddr a).addr.byte i = BitVec.ofNat 8 (value 10 (ofNat 10 (a.byte i).toNat)) := by
      obtain rfl | rfl | rfl | rfl : i = 0 ∨ i = 1 ∨ i = 2 ∨ i = 3 := by omega
      · rfl
      · rfl
      · rfl
      · rfl
    rw [hbyte, hvalue, BitVec.ofNat_toNat, BitVec.setWidth_eq]
  · show BitVec.ofNat 16 (value 10 (ofNat 10 a.port.toNat)) = a.port
    rw [hvalue, BitVec.ofNat_toNat, BitVec.setWidth_eq]

/-- The string of an IPv4 address is its text. -/
theorem netAdrToString_ipv4 (buf : OutBuf) {a : StructNetaddr} (ha : a.type = .ipv4) :
    netAdrToString buf a = (Ipv4Text.ofAddr a).text := by
  have hlength := Ipv4Text.length_ofAddr_text a
  have hprint : printAdr buf a = snprintfString buf 0 64 (Ipv4Text.ofAddr a).text := by
    rw [printAdr, ha, Ipv4Text.ofAddr_text]
  have hloopback : a.type ≠ .loopback := by
    rw [ha]
    exact nofun
  rw [netAdrToString, if_neg hloopback, hprint]
  exact (buf.spells_snprintf hlength).string_eq (Ipv4Text.text_nonzero _) hlength

/-! ## The grammar is what is accepted -/

/-- `NET_StringToAdr` accepts the string by the grammar, and stores what its text says. -/
structure ParsesAsGrammar (resolve : Resolver) (malloc : Bool) (s : NulTerminated) : Prop where
  /-- Behind a numeric address, the string is of the grammar or it is refused. -/
  accepted_iff : (netStringToIPv4 s.chars .zero).result ≠ 0#32 →
    ((netStringToAdr resolve malloc s.chars).result = true ↔ ∃ t : Ipv4Text, t.text = s.chars)
  /-- A string of the grammar is accepted, the address holds its numbers, and no name is resolved. -/
  accepted : ∀ t : Ipv4Text, t.text = s.chars →
    (netStringToAdr resolve malloc s.chars).result = true ∧
      (netStringToAdr resolve malloc s.chars).addr = t.addr ∧
      (netStringToAdr resolve malloc s.chars).resolved = []
  values : ∀ v ∈ (netStringToAdr resolve malloc s.chars).values, v.toNat ≤ 10 * 65535 + 9

/-- The grammar is accepted, unless a number of characters does not fit in an `unsigned int`. -/
theorem parsesAsGrammar_iff_short (resolve : Resolver) (malloc : Bool) (s : NulTerminated) :
    ParsesAsGrammar resolve malloc s ↔ ∀ t : Ipv4Text, t.text = s.chars → t.Short := by
  constructor
  · intro h t ht
    -- a text that is not short would get to the resolver
    obtain ⟨hok, -, hresolved⟩ := h.accepted t ht
    have hlocal : s.chars ≠ ascii "local" := ht ▸ t.text_ne_local
    have hnumeric : (netStringToIPv4 s.chars .zero).result ≠ 0#32 := fun hzero =>
      resolved_of_not_numeric resolve malloc hlocal hzero hok hresolved
    obtain ⟨t', ht', hshort⟩ :=
      short_of_netStringToAdr resolve malloc s.nonzero hnumeric hok
    exact t.text_inj (ht.trans ht'.symm) hshort
  · intro h
    have haccepted : ∀ t : Ipv4Text, t.text = s.chars →
        (netStringToAdr resolve malloc s.chars).result = true ∧
          (netStringToAdr resolve malloc s.chars).addr = t.addr ∧
          (netStringToAdr resolve malloc s.chars).resolved = [] := by
      intro t ht
      have hparse := netStringToAdr_of_short resolve malloc (h t ht)
      rw [ht] at hparse
      exact hparse
    refine ⟨fun hnumeric => ⟨fun hok => ?_, fun ⟨t, ht⟩ => (haccepted t ht).1⟩, haccepted,
      netStringToAdr_values resolve malloc s.chars⟩
    obtain ⟨t, ht, -⟩ := short_of_netStringToAdr resolve malloc s.nonzero hnumeric hok
    exact ⟨t, ht⟩

/-- An IPv4 address that is printed and parsed is the same. -/
theorem netStringToAdr_netAdrToString (resolve : Resolver) (malloc : Bool) (buf : OutBuf)
    {a : StructNetaddr} (ha : a.type = .ipv4) :
    (netStringToAdr resolve malloc (netAdrToString buf a)).result = true ∧
      SameIpv4 a (netStringToAdr resolve malloc (netAdrToString buf a)).addr := by
  have hlength := Ipv4Text.length_ofAddr_text a
  have hshort := Ipv4Text.short_of_length (hlength.trans (by decide))
  obtain ⟨hok, haddr, -⟩ := netStringToAdr_of_short resolve malloc hshort
  rw [netAdrToString_ipv4 buf ha]
  refine ⟨hok, ?_⟩
  rw [haddr]
  exact Ipv4Text.sameIpv4_ofAddr ha

/-- A string is parsed by the grammar unless its address or its port has `2 ^ 32` characters or
    more, and an IPv4 address that is printed is parsed back. -/
theorem ipv4_text_iff (resolve : Resolver) (malloc : Bool) (buf : OutBuf) :
    (∀ s : NulTerminated, ParsesAsGrammar resolve malloc s ↔
      ∀ t : Ipv4Text, t.text = s.chars → t.Short) ∧
    ∀ a : StructNetaddr, a.type = .ipv4 →
      (netStringToAdr resolve malloc (netAdrToString buf a)).result = true ∧
        SameIpv4 a (netStringToAdr resolve malloc (netAdrToString buf a)).addr := by
  refine ⟨parsesAsGrammar_iff_short resolve malloc, fun a ha => ?_⟩
  exact netStringToAdr_netAdrToString resolve malloc buf ha

/-- No name is resolved. -/
def noNames : Resolver := fun _ a => (false, a)

/-- `127.0.0.1:27500`. -/
def localhost : NulTerminated := ⟨ascii "127.0.0.1:27500", by decide⟩

/-- The text of this host is parsed by the grammar, and what is printed for its address is parsed
    back. -/
theorem ipv4_text_iff_localhost :
    ParsesAsGrammar noNames true localhost ∧
    (netStringToAdr noNames true (netAdrToString ⟨fun _ => 0#8, []⟩
      ⟨.ipv4, fun i => if i = 0 then 127#8 else if i = 3 then 1#8 else 0#8, 27500#16⟩)).result
        = true := by
  obtain ⟨hiff, hback⟩ := ipv4_text_iff noNames true ⟨fun _ => 0#8, []⟩
  refine ⟨(hiff localhost).mpr fun t ht => ?_, (hback _ rfl).1⟩
  apply Ipv4Text.short_of_length
  rw [ht]
  decide

theorem value_zeros (n : Nat) : value 10 (List.replicate n 48#8) = 0 := by
  induction n with
  | zero => rfl
  | succ n ih => exact ih

/-- Zeros in front of `.0.0.0`. -/
def leadingZeros (n : Nat) (hn : 0 < n) : Ipv4Text where
  numbers := [List.replicate n 48#8, [48#8], [48#8], [48#8]]
  port := none
  four := rfl
  small d hd := by
    have hzeros : ∃ k, 0 < k ∧ d = List.replicate k 48#8 := by
      rcases List.mem_cons.mp hd with rfl | hd
      · exact ⟨n, hn, rfl⟩
      · exact ⟨1, Nat.one_pos, by simpa using hd⟩
    obtain ⟨k, hk, rfl⟩ := hzeros
    refine ⟨⟨?_, fun c hc => ?_⟩, ?_⟩
    · simp
      omega
    · rw [List.eq_of_mem_replicate hc, isDigit_ten_iff]
      decide
    · rw [value_zeros]
      exact Nat.zero_le _
  portSmall := nofun

/-- More zeros than an `unsigned int` counts are refused. -/
theorem ipv4_text_not_zeros : ¬ParsesAsGrammar noNames true
    ⟨(leadingZeros (2 ^ 32) (Nat.two_pow_pos 32)).text, Ipv4Text.text_nonzero _⟩ := by
  intro h
  obtain ⟨hlength, -⟩ := (parsesAsGrammar_iff_short _ _ _).mp h _ rfl
  have hzeros : (List.replicate (2 ^ 32) 48#8).length
      ≤ (joined 46#8 (leadingZeros (2 ^ 32) (Nat.two_pow_pos 32)).numbers).length :=
    length_le_joined List.mem_cons_self
  rw [List.length_replicate] at hzeros
  exact absurd hlength (Nat.not_lt.mpr hzeros)

end QwNet
