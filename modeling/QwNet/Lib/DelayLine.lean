/-
  QwNet.Lib.DelayLine

  A queue that holds items back until they are due.

  A clock is read now and then and never goes back.  An item goes out at once, or it is
  put at the end of the queue with the time it is due, which is at most `bound` after the
  last reading.  The first item goes out once it is due.  An item that is due before
  those in front of it has to wait for them, but not for longer than `bound`.
-/
import Mathlib.Logic.Relation
import Mathlib.Data.List.Perm.Basic

/-- The last reading of the clock, what is held back with the times it is due, what went out, and
    all that was submitted. -/
structure DelayLine (α : Type) where
  clock : Nat
  queue : List (Nat × α)
  out : List α
  submitted : List α

namespace DelayLine

variable {α : Type} {bound : Nat} {s s' s₁ : DelayLine α}

/-- The clock is read. -/
def tick (t : Nat) (s : DelayLine α) : DelayLine α := { s with clock := t }

/-- An item goes out at once. -/
def pass (x : α) (s : DelayLine α) : DelayLine α :=
  { s with
    out := s.out ++ [x]
    submitted := s.submitted ++ [x] }

/-- An item is held back. -/
def push (due : Nat) (x : α) (s : DelayLine α) : DelayLine α :=
  { s with
    queue := s.queue ++ [(due, x)]
    submitted := s.submitted ++ [x] }

/-- The first item goes out, and `rest` stays. -/
def pop (x : α) (rest : List (Nat × α)) (s : DelayLine α) : DelayLine α :=
  { s with
    queue := rest
    out := s.out ++ [x] }

inductive Step (bound : Nat) : DelayLine α → DelayLine α → Prop where
  | tick {s : DelayLine α} (t : Nat) (hle : s.clock ≤ t) : Step bound s (s.tick t)
  | pass {s : DelayLine α} (x : α) : Step bound s (s.pass x)
  | push {s : DelayLine α} (due : Nat) (x : α) (hdue : due ≤ s.clock + bound) :
      Step bound s (s.push due x)
  | pop {s : DelayLine α} (due : Nat) (x : α) (rest : List (Nat × α))
      (hfirst : s.queue = (due, x) :: rest) (hdue : due ≤ s.clock) : Step bound s (s.pop x rest)

/-- Any number of steps. -/
abbrev Steps (bound : Nat) : DelayLine α → DelayLine α → Prop := Relation.ReflTransGen (Step bound)

/-! ## Nothing is lost -/

/-- What was submitted went out or is held back, each item once. -/
def Conserved (s : DelayLine α) : Prop := (s.out ++ s.queue.map Prod.snd).Perm s.submitted

theorem Conserved.step (h : s.Conserved) (hstep : Step bound s s') : s'.Conserved := by
  cases hstep with
  | tick t hle => exact h
  | pass x =>
    show (s.out ++ [x] ++ s.queue.map Prod.snd).Perm (s.submitted ++ [x])
    have hlast : (s.out ++ ([x] ++ s.queue.map Prod.snd)).Perm
        (s.out ++ (s.queue.map Prod.snd ++ [x])) := List.perm_append_comm.append_left _
    rw [List.append_assoc]
    refine hlast.trans ?_
    rw [← List.append_assoc]
    exact h.append_right [x]
  | push due x hdue =>
    show (s.out ++ (s.queue ++ [(due, x)]).map Prod.snd).Perm (s.submitted ++ [x])
    rw [List.map_append, ← List.append_assoc]
    exact h.append_right [x]
  | pop due x rest hfirst hdue =>
    unfold Conserved at h
    rw [hfirst] at h
    show (s.out ++ [x] ++ rest.map Prod.snd).Perm s.submitted
    rw [List.append_assoc]
    exact h

/-- As long as nothing goes out past the queue, all keep their order. -/
def InOrder (s : DelayLine α) : Prop := s.out ++ s.queue.map Prod.snd = s.submitted

/-- An item that is submitted does not go out past others. -/
def Orderly (s s' : DelayLine α) : Prop :=
  s'.submitted ≠ s.submitted → s'.out = s.out ∨ s.queue = []

theorem InOrder.step (h : s.InOrder) (hstep : Step bound s s') (horderly : Orderly s s') :
    s'.InOrder := by
  unfold InOrder at h ⊢
  cases hstep with
  | tick t hle => exact h
  | pass x =>
    have hempty : s.queue = [] :=
      (horderly (by simp [pass])).resolve_left (by simp [pass])
    rw [hempty, List.map_nil, List.append_nil] at h
    show s.out ++ [x] ++ s.queue.map Prod.snd = s.submitted ++ [x]
    rw [hempty, List.map_nil, List.append_nil, h]
  | push due x hdue =>
    show s.out ++ (s.queue ++ [(due, x)]).map Prod.snd = s.submitted ++ [x]
    rw [List.map_append, ← List.append_assoc, h]
    rfl
  | pop due x rest hfirst hdue =>
    rw [hfirst] at h
    show s.out ++ [x] ++ rest.map Prod.snd = s.submitted
    rw [List.append_assoc]
    exact h

/-! ## Nothing is held back for long -/

/-- Everything is due within the bound. -/
def Bounded (bound : Nat) (s : DelayLine α) : Prop := ∀ p ∈ s.queue, p.1 ≤ s.clock + bound

theorem Bounded.step (h : s.Bounded bound) (hstep : Step bound s s') : s'.Bounded bound := by
  cases hstep with
  | tick t hle => exact fun p hp => Nat.le_trans (h p hp) (Nat.add_le_add_right hle bound)
  | pass x => exact h
  | push due x hdue => exact List.forall_mem_append.mpr ⟨h, List.forall_mem_singleton.mpr hdue⟩
  | pop due x rest hfirst hdue =>
    rw [Bounded, hfirst] at h
    exact (List.forall_mem_cons.mp h).2

theorem Bounded.steps (h : s.Bounded bound) (hsteps : Steps bound s s') : s'.Bounded bound := by
  induction hsteps with
  | refl => exact h
  | tail _ hstep ih => exact ih.step hstep

/-- From `s` to `s'` the first items went out, in order and maybe among others. -/
structure Behind (s s' : DelayLine α) (rest new : List (Nat × α)) (outs : List α) : Prop where
  queue : s'.queue = rest ++ new
  out : s'.out = s.out ++ outs
  taken : ∃ first, s.queue = first ++ rest ∧ (first.map Prod.snd).Sublist outs

theorem Behind.step {rest new : List (Nat × α)} {outs : List α} (h : Behind s s₁ rest new outs)
    (hstep : Step bound s₁ s') : ∃ rest new outs, Behind s s' rest new outs := by
  obtain ⟨hqueue, hout, first, hfirst, htaken⟩ := h
  cases hstep with
  | tick t hle => exact ⟨rest, new, outs, hqueue, hout, first, hfirst, htaken⟩
  | pass x =>
    refine ⟨rest, new, outs ++ [x], hqueue, ?_, first, hfirst, ?_⟩
    · show s₁.out ++ [x] = s.out ++ (outs ++ [x])
      rw [hout, List.append_assoc]
    · exact htaken.trans (List.sublist_append_left outs [x])
  | push due x hdue =>
    refine ⟨rest, new ++ [(due, x)], outs, ?_, hout, first, hfirst, htaken⟩
    show s₁.queue ++ [(due, x)] = rest ++ (new ++ [(due, x)])
    rw [hqueue, List.append_assoc]
  | pop due x queue hhead hdue =>
    have hout' : s₁.out ++ [x] = s.out ++ (outs ++ [x]) := by
      rw [hout, List.append_assoc]
    rw [hqueue] at hhead
    cases rest with
    | nil =>
      -- an item that came later
      refine ⟨[], queue, outs ++ [x], rfl, hout', first, hfirst, ?_⟩
      exact htaken.trans (List.sublist_append_left outs [x])
    | cons p rest =>
      obtain ⟨rfl, rfl⟩ := List.cons.inj hhead
      refine ⟨rest, new, outs ++ [x], rfl, hout', first ++ [(due, x)], ?_, ?_⟩
      · rw [hfirst, List.append_assoc]
        rfl
      · rw [List.map_append]
        exact htaken.append (List.Sublist.refl _)

theorem behind_of_steps (h : Steps bound s s') : ∃ rest new outs, Behind s s' rest new outs := by
  induction h with
  | refl => exact ⟨s.queue, [], [], (List.append_nil _).symm, (List.append_nil _).symm, [], rfl,
      List.Sublist.refl _⟩
  | tail _ hstep ih =>
    obtain ⟨rest, new, outs, hbehind⟩ := ih
    exact hbehind.step hstep

/-- Nothing is left that is due. -/
def Drained (s : DelayLine α) : Prop := ∀ p ∈ s.queue.head?, s.clock < p.1

/-- What is held back has gone out, in its order, once nothing is left that was due by the bound. -/
theorem out_of_drained (h : s.Bounded bound) (hsteps : Steps bound s s') (hdrained : s'.Drained)
    (hlate : s.clock + bound ≤ s'.clock) :
    ∃ outs, s'.out = s.out ++ outs ∧ (s.queue.map Prod.snd).Sublist outs := by
  obtain ⟨rest, new, outs, hqueue, hout, first, hfirst, htaken⟩ := behind_of_steps hsteps
  cases rest with
  | nil =>
    rw [List.append_nil] at hfirst
    exact ⟨outs, hout, hfirst ▸ htaken⟩
  | cons p rest =>
    -- the first item that was left would be due
    have hmem : p ∈ s.queue := by
      rw [hfirst]
      exact List.mem_append_right _ List.mem_cons_self
    have hlt : s'.clock < p.1 := hdrained p (by rw [hqueue]; rfl)
    exact absurd (Nat.le_trans (h p hmem) hlate) (Nat.not_le.mpr hlt)

/-- What was submitted stays so. -/
theorem submitted_prefix_of_steps (h : Steps bound s s') : s.submitted <+: s'.submitted := by
  induction h with
  | refl => exact List.prefix_refl _
  | tail _ hstep ih =>
    cases hstep with
    | tick t hle => exact ih
    | pass x => exact ih.trans (List.prefix_append _ [x])
    | push due x hdue => exact ih.trans (List.prefix_append _ [x])
    | pop due x rest hfirst hdue => exact ih

/-- In order, all that was submitted has then gone out. -/
theorem submitted_prefix_of_drained (hin : s.InOrder) (hin' : s'.InOrder) (h : s.Bounded bound)
    (hsteps : Steps bound s s') (hdrained : s'.Drained) (hlate : s.clock + bound ≤ s'.clock) :
    s.submitted <+: s'.out := by
  obtain ⟨outs, hout, htaken⟩ := out_of_drained h hsteps hdrained hlate
  have hlength := htaken.length_le
  have hprefix : s'.out <+: s'.submitted := hin' ▸ List.prefix_append _ _
  apply List.prefix_of_prefix_length_le (submitted_prefix_of_steps hsteps) hprefix
  rw [hout, List.length_append, ← hin, List.length_append]
  exact Nat.add_le_add_left hlength _

end DelayLine
