/-
  QwNet.Lib.Digits

  Numerals: digits in a base of at most sixteen, as bytes.
-/
import Mathlib.Algebra.Group.Nat.Defs
import Mathlib.Data.Nat.Basic

namespace Digits

/-- The value of a digit; letters are small. -/
def digit? (c : BitVec 8) : Option Nat :=
  if 48#8 ≤ c ∧ c ≤ 57#8 then some (c.toNat - 48)
  else if 97#8 ≤ c ∧ c ≤ 102#8 then some (c.toNat - 87)
  else none

/-- A digit in base `b`. -/
def IsDigit (b : Nat) (c : BitVec 8) : Prop := ∃ d, digit? c = some d ∧ d < b

/-- One digit or more. -/
structure IsNumeral (b : Nat) (s : List (BitVec 8)) : Prop where
  ne_nil : s ≠ []
  digits : ∀ c ∈ s, IsDigit b c

/-- The number that digits stand for, behind digits that stand for `n`. -/
def valueFrom (b n : Nat) (s : List (BitVec 8)) : Nat :=
  s.foldl (fun n c => b * n + (digit? c).getD 0) n

/-- The number that digits stand for. -/
def value (b : Nat) (s : List (BitVec 8)) : Nat := valueFrom b 0 s

/-- The digits of a number, as `printf` writes them. -/
def ofNat (b n : Nat) : List (BitVec 8) := (Nat.toDigits b n).map fun c => BitVec.ofNat 8 c.toNat

/-- Numerals with a separator between them. -/
def joined (sep : BitVec 8) : List (List (BitVec 8)) → List (BitVec 8)
  | [] => []
  | [d] => d
  | d :: d' :: ds => d ++ sep :: joined sep (d' :: ds)

section

variable {b n : Nat}

@[simp] theorem valueFrom_nil : valueFrom b n [] = n := rfl

@[simp] theorem valueFrom_cons (c : BitVec 8) (s : List (BitVec 8)) :
    valueFrom b n (c :: s) = valueFrom b (b * n + (digit? c).getD 0) s := rfl

theorem valueFrom_append (s t : List (BitVec 8)) :
    valueFrom b n (s ++ t) = valueFrom b (valueFrom b n s) t := List.foldl_append

/-- More digits do not make a number smaller. -/
theorem le_valueFrom (hb : 0 < b) (s : List (BitVec 8)) : n ≤ valueFrom b n s := by
  induction s generalizing n with
  | nil => exact Nat.le_refl n
  | cons c s ih =>
    have hmul : n ≤ b * n := Nat.le_mul_of_pos_left n hb
    exact Nat.le_trans (Nat.le_trans hmul (Nat.le_add_right _ _)) ih

/-- The byte of a digit. -/
theorem digit?_digitChar :
    ∀ n < 16, digit? (BitVec.ofNat 8 (Nat.digitChar n).toNat) = some n := by
  decide

theorem ofNat_of_lt (hn : n < b) : ofNat b n = [BitVec.ofNat 8 (Nat.digitChar n).toNat] := by
  rw [ofNat, Nat.toDigits_of_lt_base hn, List.map_singleton]

theorem ofNat_of_le (hb : 1 < b) (hn : b ≤ n) :
    ofNat b n = ofNat b (n / b) ++ [BitVec.ofNat 8 (Nat.digitChar (n % b)).toNat] := by
  rw [ofNat, Nat.toDigits_of_base_le hb hn, List.map_append, List.map_singleton, ofNat]

/-- What is written is a numeral of the number. -/
theorem ofNat_spec (hb : 1 < b) (hb' : b ≤ 16) (n : Nat) :
    IsNumeral b (ofNat b n) ∧ value b (ofNat b n) = n := by
  induction n using Nat.strong_induction_on with
  | _ n ih =>
    by_cases hn : n < b
    · have hdigit := digit?_digitChar _ (Nat.lt_of_lt_of_le hn hb')
      rw [ofNat_of_lt hn]
      refine ⟨⟨nofun, ?_⟩, ?_⟩
      · intro c hc
        rw [List.mem_singleton.mp hc]
        exact ⟨n, hdigit, hn⟩
      · simp [value, hdigit]
    · have hle := Nat.not_lt.mp hn
      have hmod : n % b < b := Nat.mod_lt n (by omega)
      have hdigit := digit?_digitChar _ (Nat.lt_of_lt_of_le hmod hb')
      obtain ⟨hnumeral, hvalue⟩ := ih (n / b) (Nat.div_lt_self (by omega) hb)
      rw [ofNat_of_le hb hle]
      refine ⟨⟨List.append_ne_nil_of_left_ne_nil hnumeral.ne_nil _, ?_⟩, ?_⟩
      · intro c hc
        rcases List.mem_append.mp hc with hc | hc
        · exact hnumeral.digits c hc
        · rw [List.mem_singleton.mp hc]
          exact ⟨_, hdigit, hmod⟩
      · rw [value, valueFrom_append]
        rw [value] at hvalue
        rw [hvalue, valueFrom_cons, valueFrom_nil, hdigit]
        exact Nat.div_add_mod n b

/-- A number below `b ^ k` has at most `k` digits. -/
theorem length_ofNat_le {k : Nat} (hb : 1 < b) (hk : 0 < k) (hn : n < b ^ k) :
    (ofNat b n).length ≤ k := by
  rw [ofNat, List.length_map]
  exact (Nat.length_toDigits_le_iff hb hk).mpr hn

end

/-- No digit is a null byte. -/
theorem IsDigit.ne_zero {b : Nat} {c : BitVec 8} (h : IsDigit b c) : c ≠ 0#8 := by
  rintro rfl
  obtain ⟨d, hd, -⟩ := h
  exact nomatch hd

/-- The digits in base ten. -/
theorem isDigit_ten_iff (c : BitVec 8) : IsDigit 10 c ↔ 48#8 ≤ c ∧ c ≤ 57#8 := by
  unfold IsDigit digit?
  constructor
  · rintro ⟨d, hd, hlt⟩
    split at hd
    · assumption
    · split at hd
      · rename_i hletter
        obtain rfl := Option.some.inj hd
        have hlow : 97 ≤ c.toNat := hletter.1
        omega
      · exact nomatch hd
  · intro h
    have hhigh : c.toNat ≤ 57 := h.2
    exact ⟨c.toNat - 48, if_pos h, by omega⟩

/-! ## Numerals in a row -/

section

variable {b : Nat} {sep : BitVec 8} {ds : List (List (BitVec 8))}

@[simp] theorem joined_nil : joined sep [] = [] := rfl

@[simp] theorem joined_singleton (d : List (BitVec 8)) : joined sep [d] = d := rfl

@[simp] theorem joined_cons_cons (d d' : List (BitVec 8)) :
    joined sep (d :: d' :: ds) = d ++ sep :: joined sep (d' :: ds) := rfl

/-- They are made of digits and separators. -/
theorem joined_chars (hds : ∀ d ∈ ds, IsNumeral b d) :
    ∀ c ∈ joined sep ds, IsDigit b c ∨ c = sep := by
  induction ds with
  | nil => simp
  | cons d ds ih =>
    obtain ⟨hd, hds⟩ := List.forall_mem_cons.mp hds
    cases ds with
    | nil => exact fun c hc => .inl (hd.digits c hc)
    | cons d' ds =>
      intro c hc
      rw [joined_cons_cons, List.mem_append, List.mem_cons] at hc
      rcases hc with hc | hc | hc
      · exact .inl (hd.digits c hc)
      · exact .inr hc
      · exact ih hds c hc

theorem length_le_joined {d : List (BitVec 8)} (hd : d ∈ ds) :
    d.length ≤ (joined sep ds).length := by
  induction ds with
  | nil => exact absurd hd List.not_mem_nil
  | cons d₀ ds ih =>
    cases ds with
    | nil =>
      rw [List.mem_singleton.mp hd]
      exact Nat.le_refl _
    | cons d' ds =>
      rw [joined_cons_cons, List.length_append, List.length_cons]
      rcases List.mem_cons.mp hd with rfl | hd
      · omega
      · have := ih hd
        omega

theorem joined_ne_nil (hds : ∀ d ∈ ds, IsNumeral b d) (hne : ds ≠ []) : joined sep ds ≠ [] := by
  obtain ⟨d, ds', rfl⟩ := List.exists_cons_of_ne_nil hne
  have hpos := List.length_pos_iff.mpr (hds d List.mem_cons_self).ne_nil
  have hle : d.length ≤ (joined sep (d :: ds')).length := length_le_joined List.mem_cons_self
  exact List.length_pos_iff.mp (Nat.lt_of_lt_of_le hpos hle)

/-- They end in a digit. -/
theorem isDigit_of_joined_eq {xs : List (BitVec 8)} {c : BitVec 8} (hds : ∀ d ∈ ds, IsNumeral b d)
    (h : joined sep ds = xs ++ [c]) : IsDigit b c := by
  induction ds generalizing xs with
  | nil => simp at h
  | cons d ds ih =>
    obtain ⟨hd, hds⟩ := List.forall_mem_cons.mp hds
    cases ds with
    | nil =>
      rw [joined_singleton] at h
      apply hd.digits
      rw [h]
      simp
    | cons d' ds =>
      -- the last character is that of the numerals behind the first separator
      obtain hnil | ⟨ys, c', hys⟩ := (joined sep (d' :: ds)).eq_nil_or_concat
      · exact absurd hnil (joined_ne_nil hds (List.cons_ne_nil d' ds))
      · rw [List.concat_eq_append] at hys
        rw [joined_cons_cons, hys, ← List.cons_append, ← List.append_assoc] at h
        obtain ⟨-, hc⟩ := List.append_inj' h rfl
        obtain rfl := List.singleton_inj.mp hc
        exact ih hds hys

end

end Digits
