/-
  QwNet.Lib.Resource

  Resources that are acquired, used and released.

  A program keeps resources by handles, and `none` is the handle of nothing.  What it
  does with them is a list of operations, oldest first.  The list is safe if every
  resource is used and released between its acquisition and its release only; then
  none is released twice.
-/
import QwNet.Lib.History

namespace Resource

open History

variable {ρ : Type}

/-- What is done with a resource. -/
inductive Op (ρ : Type) where
  | acquire (r : ρ)
  | use (r : Option ρ)
  | release (r : Option ρ)
  deriving DecidableEq

/-- The resource that an operation releases. -/
def Op.released? : Op ρ → Option ρ
  | .release r => r
  | _ => none

/-- `r` was acquired and has not been released. -/
def Held (ops : List (Op ρ)) (r : ρ) : Prop := .acquire r ∈ ops ∧ .release (some r) ∉ ops

/-- What may be done after `ops`. -/
def Legal (ops : List (Op ρ)) : Op ρ → Prop
  | .acquire r => .acquire r ∉ ops
  | .use r => ∃ x, r = some x ∧ Held ops x
  | .release r => ∃ x, r = some x ∧ Held ops x

/-- Whatever was done was legal. -/
def Safe (ops : List (Op ρ)) : Prop := AtEvery Legal ops

theorem safe_nil : Safe ([] : List (Op ρ)) := atEvery_nil _

section

variable {ops : List (Op ρ)} {op : Op ρ} {r : ρ}

theorem Safe.concat (h : Safe ops) (hop : Legal ops op) : Safe (ops ++ [op]) := AtEvery.concat h hop

theorem Safe.initial {ops' : List (Op ρ)} (h : Safe (ops ++ ops')) : Safe ops :=
  fun pre x hpre => h pre x (hpre.trans (List.prefix_append ops ops'))

theorem Safe.legal {rest : List (Op ρ)} (h : Safe (ops ++ op :: rest)) : Legal ops op :=
  h ops op ⟨rest, by rw [List.append_assoc]; rfl⟩

/-- Only what was acquired is released. -/
theorem Safe.acquired (h : Safe ops) (hr : .release (some r) ∈ ops) : .acquire r ∈ ops := by
  obtain ⟨pre, rest, rfl⟩ := List.append_of_mem hr
  obtain ⟨x, hx, hheld⟩ := h.legal
  obtain rfl := Option.some.inj hx
  exact List.mem_append_left _ hheld.1

/-- Nothing is released twice. -/
theorem Safe.count_release [DecidableEq ρ] (h : Safe ops) (r : ρ) :
    ops.count (.release (some r)) ≤ 1 := by
  induction ops using List.reverseRecOn with
  | nil => exact Nat.zero_le 1
  | append_singleton ops op ih =>
    have hcount := ih h.initial
    rw [List.count_append, List.count_singleton]
    split
    · -- what is released now was held, so it had not been released
      rename_i hop
      have hlegal : Legal ops op := h.legal
      rw [eq_of_beq hop] at hlegal
      obtain ⟨x, hx, hheld⟩ := hlegal
      obtain rfl := Option.some.inj hx
      have hzero := List.count_eq_zero.mpr hheld.2
      omega
    · exact hcount

theorem held_acquire (h : Safe ops) (hr : .acquire r ∉ ops) : Held (ops ++ [.acquire r]) r := by
  refine ⟨List.mem_append_right _ (List.mem_singleton.mpr rfl), fun hmem => ?_⟩
  rcases List.mem_append.mp hmem with hmem | hmem
  · exact hr (h.acquired hmem)
  · exact nomatch List.mem_singleton.mp hmem

theorem Held.concat (h : Held ops r) (hop : op ≠ .release (some r)) : Held (ops ++ [op]) r := by
  refine ⟨List.mem_append_left _ h.1, fun hmem => ?_⟩
  rcases List.mem_append.mp hmem with hmem | hmem
  · exact h.2 hmem
  · exact hop (List.mem_singleton.mp hmem).symm

theorem not_held_release (ops : List (Op ρ)) (r : ρ) : ¬Held (ops ++ [.release (some r)]) r :=
  fun h => h.2 (List.mem_append_right _ (List.mem_singleton.mpr rfl))

/-- Nothing is released by using it. -/
theorem filterMap_released_use (ops : List (Op ρ)) (rs : List ρ) :
    (ops ++ rs.map fun r => Op.use (some r)).filterMap Op.released? = ops.filterMap Op.released? := by
  have hnone : (rs.map fun r => (.use (some r) : Op ρ)).filterMap Op.released? = [] := by
    refine List.filterMap_eq_nil_iff.mpr fun op hop => ?_
    obtain ⟨r, -, rfl⟩ := List.mem_map.mp hop
    rfl
  rw [List.filterMap_append, hnone, List.append_nil]

end

/-! ## Numbered resources -/

/-- Resources are numbered as they are acquired: so far there were `n` of them, and those
    that are `live` are held. -/
structure Account (ops : List (Op Nat)) (live : Nat → Prop) (n : Nat) : Prop where
  safe : Safe ops
  held : ∀ r, Held ops r ↔ live r
  acquired : ∀ r, .acquire r ∈ ops ↔ r < n

theorem account_nil : Account [] (fun _ => False) 0 where
  safe := safe_nil
  held _ := iff_false_intro fun h => nomatch h.1
  acquired r := iff_of_false nofun (Nat.not_lt_zero r)

namespace Account

variable {ops : List (Op Nat)} {live live' : Nat → Prop} {n r : Nat}

theorem congr (h : Account ops live n) (hlive : ∀ r, live r ↔ live' r) : Account ops live' n :=
  ⟨h.safe, fun r => (h.held r).trans (hlive r), h.acquired⟩

/-- What is live may be left to the operations themselves. -/
theorem self (h : Account ops live n) : Account ops (Held ops) n :=
  h.congr fun r => (h.held r).symm

theorem lt (h : Account ops live n) (hr : live r) : r < n := (h.acquired r).mp ((h.held r).mpr hr).1

/-- A live resource is used. -/
theorem use (h : Account ops live n) (hr : live r) : Account (ops ++ [.use (some r)]) live n where
  safe := h.safe.concat ⟨r, rfl, (h.held r).mpr hr⟩
  held x := by
    rw [← h.held x]
    exact ⟨fun hx => ⟨by simpa using hx.1, fun hmem => hx.2 (List.mem_append_left _ hmem)⟩,
      fun hx => hx.concat nofun⟩
  acquired x := by
    rw [← h.acquired x]
    simp

/-- Live resources are used. -/
theorem use_all (h : Account ops live n) {rs : List Nat} (hrs : ∀ r ∈ rs, live r) :
    Account (ops ++ rs.map fun r => .use (some r)) live n := by
  induction rs using List.reverseRecOn with
  | nil => rwa [List.map_nil, List.append_nil]
  | append_singleton rs r ih =>
    obtain ⟨hinit, hlast⟩ := List.forall_mem_append.mp hrs
    rw [List.map_append, ← List.append_assoc]
    exact (ih hinit).use (hlast r (List.mem_singleton.mpr rfl))

/-- The next resource is acquired. -/
theorem acquire (h : Account ops live n) :
    Account (ops ++ [.acquire n]) (fun r => live r ∨ r = n) (n + 1) where
  safe := h.safe.concat fun hmem => Nat.lt_irrefl n ((h.acquired n).mp hmem)
  held x := by
    have hfresh : .acquire n ∉ ops := fun hmem => Nat.lt_irrefl n ((h.acquired n).mp hmem)
    constructor
    · rintro ⟨hacquire, hrelease⟩
      rcases List.mem_append.mp hacquire with hmem | hmem
      · exact .inl ((h.held x).mp ⟨hmem, fun hr => hrelease (List.mem_append_left _ hr)⟩)
      · exact .inr (Op.acquire.inj (List.mem_singleton.mp hmem))
    · rintro (hx | rfl)
      · exact ((h.held x).mpr hx).concat nofun
      · exact held_acquire h.safe hfresh
  acquired x := by
    constructor
    · intro hmem
      rcases List.mem_append.mp hmem with hmem | hmem
      · exact Nat.lt_succ_of_lt ((h.acquired x).mp hmem)
      · rw [Op.acquire.inj (List.mem_singleton.mp hmem)]
        exact Nat.lt_succ_self n
    · intro hx
      rcases Nat.lt_succ_iff_lt_or_eq.mp hx with hlt | rfl
      · exact List.mem_append_left _ ((h.acquired x).mpr hlt)
      · exact List.mem_append_right _ (List.mem_singleton.mpr rfl)

/-- A live resource is released. -/
theorem release (h : Account ops live n) (hr : live r) :
    Account (ops ++ [.release (some r)]) (fun x => live x ∧ x ≠ r) n where
  safe := h.safe.concat ⟨r, rfl, (h.held r).mpr hr⟩
  held x := by
    constructor
    · intro hx
      have hne : x ≠ r := fun heq => not_held_release ops r (heq ▸ hx)
      refine ⟨(h.held x).mp ⟨?_, fun hmem => hx.2 (List.mem_append_left _ hmem)⟩, hne⟩
      simpa using hx.1
    · rintro ⟨hx, hne⟩
      exact ((h.held x).mpr hx).concat fun heq =>
        hne (Option.some.inj (Op.release.inj heq)).symm
  acquired x := by
    rw [← h.acquired x]
    simp

/-- What is no longer live was released, once. -/
theorem count_release (h : Account ops live n) (hlt : r < n) (hr : ¬live r) :
    ops.count (.release (some r)) = 1 := by
  have hmem : .release (some r) ∈ ops := by
    by_contra hne
    exact hr ((h.held r).mp ⟨(h.acquired r).mpr hlt, hne⟩)
  exact Nat.le_antisymm (h.safe.count_release r) (List.one_le_count_iff.mpr hmem)

end Account

end Resource
