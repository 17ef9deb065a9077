/-
  QwNet.Lib.RunM

  Imperative code over a state, with loops that may not end.

  A computation is given a state and returns a result and a state; the result is
  `none` when a loop has used up its fuel, and the state is then the one reached
  so far.  A run that never ends is one that returns `none` for every fuel, and
  what it does on the way can still be read off the states.

  Three kinds of facts are derived compositionally:
  * `Steps R m`: every run of `m`, ended or not, moves along the preorder `R`;
  * `Extends m m'`: `m'` is `m` with more fuel;
  * `Alike c m m'`: where states agree under `c`, `m` and `m'` take the same course.
-/
import Mathlib.Logic.Function.Basic
import Mathlib.Logic.Function.Iterate

/-- A computation over the state `σ` with a result in `α`. -/
def RunM (σ α : Type) : Type := σ → Option α × σ

namespace RunM

variable {σ α β γ : Type}

instance : Monad (RunM σ) where
  pure a := fun s => (some a, s)
  bind m f := fun s =>
    match m s with
    | (some a, s') => f a s'
    | (none, s') => (none, s')

/-- The current state. -/
def get : RunM σ σ := fun s => (some s, s)

/-- Change the state. -/
def modify (f : σ → σ) : RunM σ Unit := fun s => (some (), f s)

/-- A loop: `body` is run until it returns `some`, at most `fuel` times. -/
def loop (body : RunM σ (Option β)) : Nat → RunM σ β
  | 0 => fun s => (none, s)
  | fuel + 1 => body >>= fun r =>
    match r with
    | some b => pure b
    | none => loop body fuel

@[simp] theorem pure_apply (a : α) (s : σ) : (pure a : RunM σ α) s = (some a, s) := rfl

@[simp] theorem get_apply (s : σ) : (get : RunM σ σ) s = (some s, s) := rfl

@[simp] theorem modify_apply (f : σ → σ) (s : σ) : modify f s = (some (), f s) := rfl

theorem bind_some {m : RunM σ α} {f : α → RunM σ β} {s s' : σ} {a : α}
    (h : m s = (some a, s')) : (m >>= f) s = f a s' := by
  show (match m s with
    | (some a, s') => f a s'
    | (none, s') => (none, s')) = f a s'
  rw [h]

theorem bind_none {m : RunM σ α} {f : α → RunM σ β} {s s' : σ}
    (h : m s = (none, s')) : (m >>= f) s = (none, s') := by
  show (match m s with
    | (some a, s') => f a s'
    | (none, s') => (none, s')) = (none, s')
  rw [h]

@[simp] theorem get_bind (f : σ → RunM σ β) (s : σ) : (get >>= f) s = f s s := rfl

@[simp] theorem modify_bind (g : σ → σ) (f : Unit → RunM σ β) (s : σ) :
    (modify g >>= f) s = f () (g s) := rfl

@[simp] theorem pure_bind' (a : α) (f : α → RunM σ β) : (pure a >>= f : RunM σ β) = f a := rfl

/-- A run of `m >>= f` that ends is a run of `m` and one of `f`. -/
theorem bind_eq_some {m : RunM σ α} {f : α → RunM σ β} {s s' : σ} {b : β}
    (h : (m >>= f) s = (some b, s')) :
    ∃ a s₁, m s = (some a, s₁) ∧ f a s₁ = (some b, s') := by
  rcases hm : m s with ⟨_ | a, s₁⟩
  · rw [bind_none hm] at h
    simp at h
  · rw [bind_some hm] at h
    exact ⟨a, s₁, rfl, h⟩

theorem bind_assoc (m : RunM σ α) (f : α → RunM σ β) (g : β → RunM σ γ) :
    (m >>= f) >>= g = m >>= fun a => f a >>= g := by
  funext s
  rcases hm : m s with ⟨_ | a, s₁⟩
  · rw [bind_none hm, bind_none (bind_none hm)]
  · rw [bind_some hm]
    rcases hf : f a s₁ with ⟨_ | b, s₂⟩
    · rw [bind_none hf, bind_none ((bind_some hm).trans hf)]
    · rw [bind_some hf, bind_some ((bind_some hm).trans hf)]

theorem bind_pure_unit (m : RunM σ Unit) : (m >>= fun _ => pure ()) = m := by
  funext s
  rcases hm : m s with ⟨_ | a, s₁⟩
  · rw [bind_none hm]
  · rw [bind_some hm]
    rfl

/-- The state in which a run of `m` ends, if it does. -/
def exec (m : RunM σ α) (s : σ) : Option σ := (m s).1.map fun _ => (m s).2

theorem exec_eq_some {m : RunM σ α} {s s' : σ} (h : exec m s = some s') :
    ∃ a, m s = (some a, s') := by
  obtain ⟨a, ha, hs⟩ := Option.map_eq_some_iff.mp h
  exact ⟨a, Prod.ext ha hs⟩

theorem exec_of_eq {m : RunM σ α} {s s' : σ} {a : α} (h : m s = (some a, s')) :
    exec m s = some s' := by
  rw [exec, h]
  rfl

/-- A pass of a loop that goes on. -/
theorem loop_next {body : RunM σ (Option β)} {s s' : σ} (h : body s = (some none, s'))
    (fuel : Nat) : loop body (fuel + 1) s = loop body fuel s' := by
  rw [loop, bind_some h]

/-- A pass of a loop that stops. -/
theorem loop_done {body : RunM σ (Option β)} {s s' : σ} {b : β} (h : body s = (some (some b), s'))
    (fuel : Nat) : loop body (fuel + 1) s = (some b, s') := by
  rw [loop, bind_some h]
  rfl

/-- A loop whose body goes on `n` times and then stops. -/
theorem loop_iterate {body : RunM σ (Option β)} {f : σ → σ} {n fuel : Nat} {s : σ} {b : β}
    (hgo : ∀ i < n, body (f^[i] s) = (some none, f^[i + 1] s))
    (hstop : body (f^[n] s) = (some (some b), f^[n] s)) (hfuel : n < fuel) :
    loop body fuel s = (some b, f^[n] s) := by
  induction n generalizing s fuel with
  | zero =>
    obtain ⟨fuel, rfl⟩ := Nat.exists_eq_succ_of_ne_zero (Nat.ne_of_gt hfuel)
    exact loop_done hstop fuel
  | succ n ih =>
    obtain ⟨fuel, rfl⟩ := Nat.exists_eq_succ_of_ne_zero (Nat.ne_of_gt (Nat.zero_lt_of_lt hfuel))
    have hfirst : body s = (some none, f s) := hgo 0 (Nat.succ_pos n)
    rw [loop_next hfirst]
    exact ih (fun i hi => hgo (i + 1) (by omega)) hstop (by omega)

/-- A loop that goes on as long as `p` holds of the state: it ends in the first state in which
    `p` does not hold. -/
theorem loop_while_iff {body : RunM σ (Option Unit)} {p : σ → Prop} {f : σ → σ}
    (hgo : ∀ s, p s → body s = (some none, f s))
    (hstop : ∀ s, ¬p s → body s = (some (some ()), s)) {fuel : Nat} {s s' : σ} :
    exec (loop body fuel) s = some s' ↔
      ∃ n < fuel, (∀ i < n, p (f^[i] s)) ∧ ¬p (f^[n] s) ∧ s' = f^[n] s := by
  constructor
  · intro h
    induction fuel generalizing s with
    | zero => exact nomatch h
    | succ fuel ih =>
      by_cases hp : p s
      · rw [exec, loop_next (hgo s hp)] at h
        obtain ⟨n, hn, hall, hlast, rfl⟩ := ih h
        refine ⟨n + 1, Nat.succ_lt_succ hn, fun i hi => ?_, hlast, rfl⟩
        cases i with
        | zero => exact hp
        | succ i => exact hall i (Nat.lt_of_succ_lt_succ hi)
      · rw [exec, loop_done (hstop s hp)] at h
        exact ⟨0, Nat.succ_pos fuel, fun i hi => absurd hi (Nat.not_lt_zero i), hp,
          (Option.some.inj h).symm⟩
  · rintro ⟨n, hn, hall, hlast, rfl⟩
    refine exec_of_eq (loop_iterate (fun i hi => ?_) (hstop _ hlast) hn)
    rw [hgo _ (hall i hi), Function.iterate_succ_apply']

/-! ## Every run moves along a preorder -/

/-- Every run of `m`, ended or not, takes `s` to a state related to `s`. -/
def Steps (R : σ → σ → Prop) (m : RunM σ α) : Prop := ∀ s, R s (m s).2

section Steps

variable {R : σ → σ → Prop}

theorem steps_pure (refl : ∀ s, R s s) (a : α) : Steps R (pure a : RunM σ α) := fun s => refl s

theorem steps_get_bind {f : σ → RunM σ β} (hf : ∀ s, Steps R (f s)) : Steps R (get >>= f) :=
  fun s => hf s s

theorem steps_modify {f : σ → σ} (h : ∀ s, R s (f s)) : Steps R (modify f) := h

theorem steps_bind (trans : ∀ s₁ s₂ s₃, R s₁ s₂ → R s₂ s₃ → R s₁ s₃) {m : RunM σ α}
    {f : α → RunM σ β} (hm : Steps R m) (hf : ∀ a, Steps R (f a)) : Steps R (m >>= f) := by
  intro s
  have h := hm s
  rcases hms : m s with ⟨_ | a, s₁⟩
  · rw [bind_none hms]
    rwa [hms] at h
  · rw [bind_some hms]
    rw [hms] at h
    exact trans _ _ _ h (hf a s₁)

theorem steps_ite {p : Prop} [Decidable p] {m₁ m₂ : RunM σ α} (h₁ : Steps R m₁)
    (h₂ : Steps R m₂) : Steps R (if p then m₁ else m₂) := by
  split
  · exact h₁
  · exact h₂

theorem steps_loop (refl : ∀ s, R s s) (trans : ∀ s₁ s₂ s₃, R s₁ s₂ → R s₂ s₃ → R s₁ s₃)
    {body : RunM σ (Option β)} (hb : Steps R body) (fuel : Nat) : Steps R (loop body fuel) := by
  induction fuel with
  | zero => exact refl
  | succ fuel ih =>
    refine steps_bind trans hb fun r => ?_
    cases r with
    | some b => exact steps_pure refl b
    | none => exact ih

theorem Steps.exec {m : RunM σ α} (h : Steps R m) {s s' : σ} (hrun : RunM.exec m s = some s') :
    R s s' := by
  obtain ⟨a, ha⟩ := exec_eq_some hrun
  have := h s
  rwa [ha] at this

end Steps

/-! ## More fuel -/

/-- Whatever `m` returns, `m'` returns too. -/
def Extends (m m' : RunM σ α) : Prop := ∀ s a s', m s = (some a, s') → m' s = (some a, s')

theorem Extends.refl (m : RunM σ α) : Extends m m := fun _ _ _ h => h

theorem Extends.bind {m m' : RunM σ α} {f f' : α → RunM σ β} (hm : Extends m m')
    (hf : ∀ a, Extends (f a) (f' a)) : Extends (m >>= f) (m' >>= f') := by
  intro s b s' h
  obtain ⟨a, s₁, h₁, h₂⟩ := bind_eq_some h
  rw [bind_some (hm s a s₁ h₁)]
  exact hf a s₁ b s' h₂

theorem Extends.get_bind {f f' : σ → RunM σ β} (hf : ∀ s, Extends (f s) (f' s)) :
    Extends (get >>= f) (get >>= f') := fun s => hf s s

theorem Extends.ite {p : Prop} [Decidable p] {m₁ m₂ m₁' m₂' : RunM σ α} (h₁ : Extends m₁ m₁')
    (h₂ : Extends m₂ m₂') : Extends (if p then m₁ else m₂) (if p then m₁' else m₂') := by
  split
  · exact h₁
  · exact h₂

theorem Extends.loop {body body' : RunM σ (Option β)} (hb : Extends body body') {n n' : Nat}
    (hn : n ≤ n') : Extends (loop body n) (loop body' n') := by
  induction n generalizing n' with
  | zero =>
    intro s b s' h
    exact nomatch congrArg Prod.fst h
  | succ n ih =>
    obtain ⟨n', rfl⟩ : ∃ k, n' = k + 1 := ⟨n' - 1, by omega⟩
    refine Extends.bind hb fun r => ?_
    cases r with
    | some b => exact .refl _
    | none => exact ih (by omega)

/-! ## The course of a run -/

/-- Runs of `m` and `m'` from states that agree under `c` return alike and stay in
    agreement. -/
def Alike (c : σ → γ) (m m' : RunM σ α) : Prop :=
  ∀ s t, c s = c t → (m s).1 = (m' t).1 ∧ c (m s).2 = c (m' t).2

section Alike

variable {c : σ → γ}

theorem alike_pure (a : α) : Alike c (pure a : RunM σ α) (pure a) := fun _ _ h => ⟨rfl, h⟩

theorem alike_modify {f g : σ → σ} (h : ∀ s t, c s = c t → c (f s) = c (g t)) :
    Alike c (modify f) (modify g) := fun s t hst => ⟨rfl, h s t hst⟩

theorem alike_bind {m m' : RunM σ α} {f f' : α → RunM σ β} (hm : Alike c m m')
    (hf : ∀ a, Alike c (f a) (f' a)) : Alike c (m >>= f) (m' >>= f') := by
  intro s t hst
  obtain ⟨h₁, h₂⟩ := hm s t hst
  rcases hs : m s with ⟨_ | a, s₁⟩ <;> rcases ht : m' t with ⟨_ | b, t₁⟩ <;> rw [hs, ht] at h₁ h₂
  · rw [bind_none hs, bind_none ht]
    exact ⟨rfl, h₂⟩
  · exact nomatch h₁
  · exact nomatch h₁
  · obtain rfl : a = b := Option.some.inj h₁
    rw [bind_some hs, bind_some ht]
    exact hf a s₁ t₁ h₂

theorem alike_get_bind {f f' : σ → RunM σ β} (hf : ∀ s t, c s = c t → Alike c (f s) (f' t)) :
    Alike c (get >>= f) (get >>= f') := fun s t hst => hf s t hst s t hst

theorem alike_loop {body body' : RunM σ (Option β)} (hb : Alike c body body') (fuel : Nat) :
    Alike c (loop body fuel) (loop body' fuel) := by
  induction fuel with
  | zero => exact fun _ _ h => ⟨rfl, h⟩
  | succ fuel ih =>
    refine alike_bind hb fun r => ?_
    cases r with
    | some b => exact alike_pure b
    | none => exact ih

end Alike

end RunM
