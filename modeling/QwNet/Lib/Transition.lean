/-
  QwNet.Lib.Transition

  Systems that take one labelled step after another.

  A step is a partial function of its label, which carries everything the
  environment decides: a step that is not enabled, or that never returns, gives
  `none`.  Runs may be restricted to steps that meet a condition `ok` on the label
  and the state the step is taken from.
-/
import Mathlib.Logic.Function.Basic

/-- The initial states of a system and its steps. -/
structure Transitions (σ α : Type) where
  Init : σ → Prop
  step : α → σ → Option σ

namespace Transitions

variable {σ τ α β : Type}

/-- The states that runs lead to all of whose steps meet `ok`. -/
inductive Reaches (S : Transitions σ α) (ok : α → σ → Prop) : σ → Prop where
  | init {s : σ} (h : S.Init s) : Reaches S ok s
  | step {a : α} {s s' : σ} (hs : Reaches S ok s) (hok : ok a s) (h : S.step a s = some s') :
      Reaches S ok s'

/-- The states that any run leads to. -/
def Reachable (S : Transitions σ α) : σ → Prop := S.Reaches fun _ _ => True

/-- What holds initially and is preserved by every step holds in every state reached. -/
theorem Reaches.invariant {S : Transitions σ α} {ok : α → σ → Prop} {Inv : σ → Prop}
    (hinit : ∀ s, S.Init s → Inv s)
    (hstep : ∀ a s s', Inv s → ok a s → S.step a s = some s' → Inv s') {s : σ}
    (h : S.Reaches ok s) : Inv s := by
  induction h with
  | init h => exact hinit _ h
  | step _ hok h ih => exact hstep _ _ _ ih hok h

theorem Reaches.mono {S : Transitions σ α} {ok ok' : α → σ → Prop}
    (himp : ∀ a s, S.Reaches ok s → ok a s → ok' a s) {s : σ} (h : S.Reaches ok s) :
    S.Reaches ok' s := by
  induction h with
  | init h => exact .init h
  | step hs hok h ih => exact .step ih (himp _ _ hs hok) h

theorem Reaches.reachable {S : Transitions σ α} {ok : α → σ → Prop} {s : σ}
    (h : S.Reaches ok s) : S.Reachable s := h.mono fun _ _ _ _ => trivial

/-- An invariant of all runs may be used for a further one. -/
theorem Reaches.invariant_of {S : Transitions σ α} {ok : α → σ → Prop} {Inv Inv' : σ → Prop}
    (hinv : ∀ s, S.Reachable s → Inv s) (hinit : ∀ s, S.Init s → Inv' s)
    (hstep : ∀ a s s', Inv s → Inv' s → ok a s → S.step a s = some s' → Inv' s') {s : σ}
    (h : S.Reaches ok s) : Inv' s := by
  induction h with
  | init h => exact hinit _ h
  | step hs hok h ih => exact hstep _ _ _ (hinv _ hs.reachable) ih hok h

/-- What no step brings about held all along, and after every step of the run. -/
theorem Reaches.always {S : Transitions σ α} {ok : α → σ → Prop} {P : σ → Prop}
    (hback : ∀ a s s', S.step a s = some s' → P s' → P s) {s : σ} (h : S.Reaches ok s) (hP : P s) :
    S.Reaches (fun a s => ok a s ∧ ∀ s', S.step a s = some s' → P s') s := by
  induction h with
  | init h => exact .init h
  | step _ hok h ih =>
    refine .step (ih (hback _ _ _ h hP)) ⟨hok, fun s' hs' => ?_⟩ h
    rw [h] at hs'
    exact Option.some.inj hs' ▸ hP

/-! ## Given labels -/

/-- The steps of the labels `as`, one after the other; `none` if one of them does not meet
    `ok`. -/
def runOk (S : Transitions σ α) (ok : α → σ → Prop) [∀ a s, Decidable (ok a s)] :
    List α → σ → Option σ
  | [], s => some s
  | a :: as, s => if ok a s then S.step a s >>= S.runOk ok as else none

/-- The steps of the labels `as`, one after the other. -/
def run (S : Transitions σ α) : List α → σ → Option σ := S.runOk fun _ _ => True

theorem runOk_cons {S : Transitions σ α} {ok : α → σ → Prop} [∀ a s, Decidable (ok a s)] {a : α}
    {as : List α} {s s' : σ} : S.runOk ok (a :: as) s = some s' ↔
      ok a s ∧ ∃ s₁, S.step a s = some s₁ ∧ S.runOk ok as s₁ = some s' := by
  rw [Transitions.runOk]
  split
  next hok => rw [Option.bind_eq_bind, Option.bind_eq_some_iff, and_iff_right hok]
  next hok => exact iff_of_false (by simp) fun h => hok h.1

theorem run_cons {S : Transitions σ α} {a : α} {as : List α} {s s' : σ} :
    S.run (a :: as) s = some s' ↔ ∃ s₁, S.step a s = some s₁ ∧ S.run as s₁ = some s' :=
  runOk_cons.trans (and_iff_right trivial)

theorem Reaches.runOk {S : Transitions σ α} {ok : α → σ → Prop} [∀ a s, Decidable (ok a s)]
    {as : List α} {s s' : σ} (hs : S.Reaches ok s) (h : S.runOk ok as s = some s') :
    S.Reaches ok s' := by
  induction as generalizing s with
  | nil =>
    obtain rfl := Option.some.inj h
    exact hs
  | cons a as ih =>
    obtain ⟨hok, s₁, h₁, h₂⟩ := runOk_cons.mp h
    exact ih (.step hs hok h₁) h₂

theorem Reachable.run {S : Transitions σ α} {as : List α} {s s' : σ} (hs : S.Reachable s)
    (h : S.run as s = some s') : S.Reachable s' := Reaches.runOk hs h

theorem runOk_append (S : Transitions σ α) (ok : α → σ → Prop) [∀ a s, Decidable (ok a s)]
    (as bs : List α) (s : σ) : S.runOk ok (as ++ bs) s = S.runOk ok as s >>= S.runOk ok bs := by
  induction as generalizing s with
  | nil => rfl
  | cons a as ih =>
    rw [List.cons_append, Transitions.runOk, Transitions.runOk]
    split
    · rw [bind_assoc]
      exact congrArg _ (funext ih)
    · rfl

/-- What a step keeps up that knows the labels so far is kept up by a run. -/
theorem runOk_labels {S : Transitions σ α} {ok : α → σ → Prop} [∀ a s, Decidable (ok a s)]
    {P : List α → σ → Prop}
    (hstep : ∀ before a s s', P before s → ok a s → S.step a s = some s' → P (before ++ [a]) s')
    {before as : List α} {s s' : σ} (hs : P before s) (h : S.runOk ok as s = some s') :
    P (before ++ as) s' := by
  induction as generalizing before s with
  | nil =>
    obtain rfl := Option.some.inj h
    rwa [List.append_nil]
  | cons a as ih =>
    obtain ⟨hok, s₁, h₁, h₂⟩ := runOk_cons.mp h
    rw [List.append_cons]
    exact ih (hstep before a s s₁ hs hok h₁) h₂

/-- Where steps that meet `ok` preserve an invariant that gives `P`, the others break `P`, and
    nothing repairs it, `P` holds after a run if and only if all its steps met `ok`. -/
theorem run_iff_runOk {S : Transitions σ α} {ok : α → σ → Prop} [∀ a s, Decidable (ok a s)]
    {Inv P : σ → Prop} (hinv : ∀ s, Inv s → P s)
    (hstep : ∀ a s s', Inv s → ok a s → S.step a s = some s' → Inv s')
    (hbad : ∀ a s s', Inv s → ¬ok a s → S.step a s = some s' → ¬P s')
    (hkeep : ∀ a s s', S.step a s = some s' → P s' → P s) {as : List α} {s s' : σ} (hs : Inv s)
    (h : S.run as s = some s') : P s' ↔ S.runOk ok as s = some s' := by
  have hback : ∀ (as : List α) (s s' : σ), S.run as s = some s' → P s' → P s := by
    intro as
    induction as with
    | nil =>
      intro s s' hrun hP
      obtain rfl := Option.some.inj hrun
      exact hP
    | cons a as ih =>
      intro s s' hrun hP
      obtain ⟨s₁, h₁, h₂⟩ := run_cons.mp hrun
      exact hkeep a s s₁ h₁ (ih s₁ s' h₂ hP)
  induction as generalizing s with
  | nil =>
    obtain rfl := Option.some.inj h
    exact iff_of_true (hinv s hs) rfl
  | cons a as ih =>
    obtain ⟨s₁, h₁, h₂⟩ := run_cons.mp h
    rw [Transitions.runOk]
    by_cases hok : ok a s
    · rw [if_pos hok, h₁]
      exact ih (hstep a s s₁ hs hok h₁) h₂
    · -- the step has broken `P`, and the rest of the run cannot repair it
      rw [if_neg hok]
      exact iff_of_false (fun hP => hbad a s s₁ hs hok h₁ (hback as s₁ s' h₂ hP)) nofun

/-! ## Simulation -/

/-- What a run of `S` leads to is related to something reached in `T`, if every step of the run
    that meets `ok` is none or one of the steps of `T`. -/
theorem Reaches.simulated {S : Transitions σ α} {T : Transitions τ β} {R : σ → τ → Prop}
    {ok : α → σ → Prop} (hinit : ∀ s, S.Init s → ∃ t, T.Init t ∧ R s t)
    (hstep : ∀ a s s' t, R s t → ok a s → S.step a s = some s' →
      R s' t ∨ ∃ b t', T.step b t = some t' ∧ R s' t') {s : σ} (h : S.Reaches ok s) :
    ∃ t, T.Reachable t ∧ R s t := by
  induction h with
  | init h =>
    obtain ⟨t, ht, hR⟩ := hinit _ h
    exact ⟨t, .init ht, hR⟩
  | step _ hok h ih =>
    obtain ⟨t, ht, hR⟩ := ih
    rcases hstep _ _ _ t hR hok h with hR' | ⟨b, t', ht', hR'⟩
    · exact ⟨t, ht, hR'⟩
    · exact ⟨t', .step ht trivial ht', hR'⟩

/-- If every step of `T` that meets `ok` is a step of `S` with the same label, so is every run. -/
theorem runOk_simulated {S : Transitions σ α} {T : Transitions τ α} {R : σ → τ → Prop}
    {ok : α → τ → Prop} [∀ a t, Decidable (ok a t)]
    (hstep : ∀ a s t t', R s t → ok a t → T.step a t = some t' →
      ∃ s', S.step a s = some s' ∧ R s' t') {as : List α} {s : σ} {t t' : τ} (hR : R s t)
    (h : T.runOk ok as t = some t') : ∃ s', S.run as s = some s' ∧ R s' t' := by
  induction as generalizing s t with
  | nil =>
    obtain rfl := Option.some.inj h
    exact ⟨s, rfl, hR⟩
  | cons a as ih =>
    obtain ⟨hok, t₁, ht₁, ht'⟩ := runOk_cons.mp h
    obtain ⟨s₁, hs₁, hR₁⟩ := hstep a s t t₁ hR hok ht₁
    obtain ⟨s', hs', hR'⟩ := ih hR₁ ht'
    exact ⟨s', run_cons.mpr ⟨s₁, hs₁, hs'⟩, hR'⟩

theorem run_of_runOk {S : Transitions σ α} {ok : α → σ → Prop} [∀ a s, Decidable (ok a s)]
    {as : List α} {s s' : σ} (h : S.runOk ok as s = some s') : S.run as s = some s' := by
  obtain ⟨_, hrun, rfl⟩ := runOk_simulated (R := Eq)
    (fun _ _ _ t' heq _ hstep => ⟨t', heq ▸ hstep, rfl⟩) rfl h
  exact hrun

/-- Every step of `S` is none or one of the steps of the system `T` it refines. -/
structure Refines (S : Transitions σ α) (T : Transitions τ β) (R : σ → τ → Prop) : Prop where
  init : ∀ s, S.Init s → ∃ t, T.Init t ∧ R s t
  step : ∀ a s s' t, R s t → S.step a s = some s' →
    R s' t ∨ ∃ b t', T.step b t = some t' ∧ R s' t'

/-- What is reached in `S` is related to something reached in `T`. -/
theorem Refines.reachable {S : Transitions σ α} {T : Transitions τ β} {R : σ → τ → Prop}
    (href : S.Refines T R) {s : σ} (h : S.Reachable s) : ∃ t, T.Reachable t ∧ R s t :=
  Reaches.simulated href.init (fun a s s' t hR _ hstep => href.step a s s' t hR hstep) h

end Transitions
