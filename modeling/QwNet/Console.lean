/-
  QwNet.Console

  The console output that is saved for the application.

  `QWC_StringAdd` appends to a linked list, and `QWC_GetConsoleOutput` marks the first
  node that is not marked and gives its string away; nodes stay in the list until
  `QWC_Destroy`.  The nodes that are marked come first, so this is a queue, and the
  strings that are freed at the end are those that nobody got.
-/
import QwNet.Lib.LinkedQueue
import QwNet.Lib.Transition
import QwNet.Machine

namespace QwNet

open LinkedQueue

/-- What `QWC_GetConsoleOutput` returns. -/
inductive CharPtr where
  /-- Nothing: the value that the caller finds is not specified. -/
  | unspecified
  | null
  /-- The string of node `s`, which reads `text`. -/
  | string (s : Nat) (text : List Byte)
  deriving DecidableEq

/-- What the application notices. -/
inductive ConsoleEvent where
  /-- `text` was stored in node `s`. -/
  | added (s : Nat) (text : List Byte)
  /-- `QWC_GetConsoleOutput` returned. -/
  | returned (r : CharPtr)
  deriving DecidableEq

/-- The fields of `struct qw_connection` that console output rests on, and the nodes
    `struct qwc_string`.  Nodes are numbered as they are allocated, and have one string each. -/
structure Console where
  saveConsoleOutput : Bool
  consoleOutput : Option Nat
  next : Nat → Option Nat
  prev : Nat → Option Nat
  done : Nat → Bool
  string : Nat → List Byte
  allocated : Nat
  /-- The nodes whose strings were freed by `QWC_Destroy`. -/
  freed : List Nat
  history : List ConsoleEvent

namespace Console

/-- `calloc` of a node, and `strdup` of its string. -/
def allocate (text : List Byte) (c : Console) : Console :=
  { c with
    next := Function.update c.next c.allocated none
    prev := Function.update c.prev c.allocated none
    done := Function.update c.done c.allocated false
    string := Function.update c.string c.allocated text
    allocated := c.allocated + 1
    history := c.history ++ [.added c.allocated text] }

/-- `l->next = s` and `s->prev = l`. -/
def link (l s : Nat) (c : Console) : Console :=
  { c with
    next := Function.update c.next l (some s)
    prev := Function.update c.prev s (some l) }

/-- `QWC_StringAdd`; `calloc` and `strdup` tell whether these succeed.  The loop looks at the
    nodes that there are. -/
def qwcStringAdd (text : List Byte) (calloc strdup : Bool) (c : Console) : Option Console :=
  if c.saveConsoleOutput = false then some c
  else if calloc = false then some c
  -- the node is freed
  else if strdup = false then some c
  else
    let s := c.allocated
    let c := c.allocate text
    match c.consoleOutput with
    | none => some { c with consoleOutput := some s }
    | some l => (last c.next c.allocated l).map fun l => c.link l s

/-- `s->done = true`. -/
def markDone (s : Nat) (c : Console) : Console := { c with done := Function.update c.done s true }

/-- `QWC_GetConsoleOutput`. -/
def qwcGetConsoleOutput (c : Console) : Option (CharPtr × Console) :=
  match c.consoleOutput with
  -- `return;`
  | none => some (.unspecified, c)
  | some s =>
    (seek c.next c.done c.allocated (some s)).map fun s =>
      match s with
      | none => (.null, c)
      | some s => (.string s (c.string s), c.markDone s)

/-- `QWC_SetSaveConsoleOutput`. -/
def qwcSetSaveConsoleOutput (save : Bool) (c : Console) : Console :=
  { c with saveConsoleOutput := save }

/-- `if (s->done == false) free(s->string)`. -/
def freeString (s : Nat) (c : Console) : Console :=
  if c.done s = false then { c with freed := c.freed ++ [s] } else c

/-- The loop of `QWC_Destroy`, from node `s` on. -/
def freeStrings : Nat → Option Nat → Console → Option Console
  | _, none, c => some c
  | 0, some _, _ => none
  | fuel + 1, some s, c => freeStrings fuel (c.next s) (c.freeString s)

/-- `QWC_Destroy`, after `NET_Shutdown`. -/
def qwcDestroy (c : Console) : Option Console := c.freeStrings c.allocated c.consoleOutput

/-- The result goes to the application. -/
def log (e : ConsoleEvent) (c : Console) : Console := { c with history := c.history ++ [e] }

end Console

/-- The calls that have to do with console output. -/
inductive ConsoleAction where
  | setSaveConsoleOutput (save : Bool)
  | stringAdd (text : List Byte) (calloc strdup : Bool)
  | getConsoleOutput

namespace Console

/-- What a call does; `none` if it never returns. -/
def step (a : ConsoleAction) (c : Console) : Option Console :=
  match a with
  | .setSaveConsoleOutput save => some (c.qwcSetSaveConsoleOutput save)
  | .stringAdd text calloc strdup => c.qwcStringAdd text calloc strdup
  | .getConsoleOutput => c.qwcGetConsoleOutput.map fun r => r.2.log (.returned r.1)

/-- The console after `QWC_Create`. -/
structure Init (c : Console) : Prop where
  save : c.saveConsoleOutput = false
  empty : c.consoleOutput = none
  allocated : c.allocated = 0
  freed : c.freed = []
  history : c.history = []

/-- The console as a system. -/
def system : Transitions Console ConsoleAction where
  Init := Init
  step := step

end Console

/-! ## A queue -/

/-- What a queue of strings holds after an event; `none` if it does not act so. -/
def queueStep (pending : List (Nat × List Byte)) (e : ConsoleEvent) :
    Option (List (Nat × List Byte)) :=
  match e, pending with
  | .added s text, _ => some (pending ++ [(s, text)])
  | .returned .null, [] => some []
  | .returned (.string s text), x :: rest => if x = (s, text) then some rest else none
  | .returned _, _ => none

/-- The history is that of a queue: strings are returned in order, each once, and `NULL` is
    returned when there is none. -/
def ActsAsQueue (history : List ConsoleEvent) : Prop := history.foldlM queueStep [] ≠ none

/-- The strings that were added. -/
def addedStrings (history : List ConsoleEvent) : List Nat :=
  history.filterMap fun e =>
    match e with
    | .added s _ => some s
    | .returned _ => none

/-- The strings that were returned. -/
def returnedStrings (history : List ConsoleEvent) : List Nat :=
  history.filterMap fun e =>
    match e with
    | .returned (.string s _) => some s
    | _ => none

/-! ## The nodes -/

/-- The nodes are linked as they were allocated, and the first `k` of them are marked. -/
structure MarkedFirst (k : Nat) (c : Console) : Prop where
  nodes : Chain c.next c.consoleOutput (List.range c.allocated)
  le : k ≤ c.allocated
  marked : ∀ s < c.allocated, c.done s = decide (s < k)
  freed : c.freed = []

/-- The strings that nobody got yet. -/
def Console.pending (k : Nat) (c : Console) : List (Nat × List Byte) :=
  (List.range' k (c.allocated - k)).map fun s => (s, c.string s)

namespace MarkedFirst

variable {k : Nat} {c c' : Console}

theorem init (h : c.Init) : MarkedFirst 0 c := by
  refine ⟨?_, Nat.zero_le _, ?_, h.freed⟩
  · rw [h.allocated]
    exact h.empty
  · rw [h.allocated]
    exact fun s hs => absurd hs (Nat.not_lt_zero s)

/-- There is a node exactly if the pointer is not null. -/
theorem allocated_eq_zero_iff (h : MarkedFirst k c) : c.allocated = 0 ↔ c.consoleOutput = none := by
  rw [h.nodes.head, List.head?_eq_none_iff, List.range_eq_nil]

/-- A new string is appended. -/
theorem allocate (h : MarkedFirst k c) (text : List Byte) :
    ∃ c', (match c.consoleOutput with
      | none => some { c.allocate text with consoleOutput := some c.allocated }
      | some l => (last (c.allocate text).next (c.allocate text).allocated l).map fun l =>
          (c.allocate text).link l c.allocated) = some c' ∧
      MarkedFirst k c' ∧ c'.allocated = c.allocated + 1 ∧
      c'.string = Function.update c.string c.allocated text ∧
      c'.history = c.history ++ [.added c.allocated text] := by
  -- the string handed out is new: it is in no list and carries no mark
  have hfresh : c.allocated ∉ List.range c.allocated := fun hmem =>
    absurd (List.mem_range.mp hmem) (Nat.lt_irrefl _)
  have hmarked : ∀ s < c.allocated + 1,
      Function.update c.done c.allocated false s = decide (s < k) := by
    intro s hs
    by_cases heq : s = c.allocated
    · rw [heq, Function.update_self]
      exact (decide_eq_false (Nat.not_lt.mpr h.le)).symm
    · rw [Function.update_of_ne heq]
      exact h.marked s (by omega)
  have hchain : Chain (c.allocate text).next c.consoleOutput (List.range c.allocated) :=
    h.nodes.update hfresh none
  -- the first string becomes the head, a later one is linked behind the last
  cases hhead : c.consoleOutput with
  | none =>
    have hzero := h.allocated_eq_zero_iff.mpr hhead
    refine ⟨_, rfl, ⟨?_, Nat.le_succ_of_le h.le, hmarked, h.freed⟩, rfl, rfl, rfl⟩
    show Chain (Function.update c.next c.allocated none) (some c.allocated)
      (List.range (c.allocated + 1))
    rw [hzero]
    exact ⟨rfl, Function.update_self ..⟩
  | some l =>
    rw [hhead] at hchain
    obtain ⟨n, hn⟩ : ∃ n, c.allocated = n + 1 := by
      refine Nat.exists_eq_succ_of_ne_zero fun hzero => ?_
      rw [h.allocated_eq_zero_iff, hhead] at hzero
      exact nomatch hzero
    have hlast : (List.range c.allocated).getLast? = some n := by
      rw [hn, List.range_succ, List.getLast?_concat]
    -- the walk to the end passes every string but the new one
    have hwalk : last (c.allocate text).next (c.allocate text).allocated l = some n := by
      rw [hchain.last_eq, hlast]
      rw [List.length_range]
      exact Nat.le_succ _
    refine ⟨_, congrArg (Option.map _) hwalk, ⟨?_, Nat.le_succ_of_le h.le, hmarked, h.freed⟩, rfl,
      rfl, rfl⟩
    show Chain (Function.update (c.allocate text).next n (some c.allocated)) c.consoleOutput
      (List.range (c.allocated + 1))
    rw [hhead, List.range_succ]
    exact hchain.concat hlast List.nodup_range hfresh (Function.update_self ..)

/-- The first string that is not marked is given away. -/
theorem getConsoleOutput (h : MarkedFirst k c) : c.qwcGetConsoleOutput = some
    (if c.consoleOutput = none then (.unspecified, c)
      else if k < c.allocated then (.string k (c.string k), c.markDone k) else (.null, c)) := by
  unfold Console.qwcGetConsoleOutput
  cases hhead : c.consoleOutput with
  | none => rfl
  | some l =>
    -- the walk stops at the first node that is not marked
    have hseek : seek c.next c.done c.allocated (some l)
        = some ((List.range c.allocated).find? fun s => !c.done s) := by
      have hchain := h.nodes
      rw [hhead] at hchain
      exact hchain.seek_eq c.done (List.length_range).le
    dsimp only
    rw [if_neg nofun, hseek]
    -- behind the marked ones is the one to return, unless all are marked
    by_cases hk : k < c.allocated
    · have hfind : (List.range c.allocated).find? (fun s => !c.done s) = some k := by
        refine List.find?_range_eq_some.mpr ⟨?_, List.mem_range.mpr hk, fun s hs => ?_⟩
        · rw [h.marked k hk]
          simp
        · rw [h.marked s (hs.trans hk)]
          simp [hs]
      rw [hfind, if_pos hk]
      rfl
    · have hfind : (List.range c.allocated).find? (fun s => !c.done s) = none := by
        refine List.find?_range_eq_none.mpr fun s hs => ?_
        rw [h.marked s hs]
        simp
        omega
      rw [hfind, if_neg hk]
      rfl

theorem markDone (h : MarkedFirst k c) (hk : k < c.allocated) : MarkedFirst (k + 1) (c.markDone k) := by
  refine ⟨h.nodes, hk, fun s hs => ?_, h.freed⟩
  show Function.update c.done k true s = _
  by_cases heq : s = k
  · rw [heq, Function.update_self]
    exact (decide_eq_true (Nat.lt_succ_self k)).symm
  · rw [Function.update_of_ne heq, h.marked s hs]
    congr 1
    exact propext (by omega)

/-- The loop of `QWC_Destroy` frees the strings of the nodes that are not marked. -/
theorem freeStrings {next : Nat → Option Nat} {p : Option Nat} {xs : List Nat} {fuel : Nat}
    (h : Chain next p xs) (hfuel : xs.length ≤ fuel) (c : Console) (hc : c.next = next) :
    ∃ c', c.freeStrings fuel p = some c' ∧ c'.freed = c.freed ++ xs.filter fun s => !c.done s := by
  -- along the list: a string is freed unless it has been handed to the caller
  induction xs generalizing p fuel c with
  | nil =>
    rw [show p = none from h]
    refine ⟨c, ?_, (List.append_nil _).symm⟩
    cases fuel <;> rfl
  | cons s rest ih =>
    obtain ⟨rfl, hrest⟩ := h
    obtain ⟨fuel, rfl⟩ : ∃ n, fuel = n + 1 := ⟨fuel - 1, by simp at hfuel; omega⟩
    have hnext : (c.freeString s).next = next := by
      unfold Console.freeString
      split
      · exact hc
      · exact hc
    have hdone : (c.freeString s).done = c.done := by
      unfold Console.freeString
      split
      · rfl
      · rfl
    obtain ⟨c', hc', hfreed⟩ := ih hrest (Nat.le_of_succ_le_succ hfuel) (c.freeString s) hnext
    refine ⟨c', ?_, ?_⟩
    · rw [Console.freeStrings, hc]
      exact hc'
    · rw [hfreed, hdone, Console.freeString]
      cases hs : c.done s with
      | true => simp [hs]
      | false => simp [hs]

/-- Those that were returned come first. -/
theorem range_split (h : MarkedFirst k c) :
    List.range k ++ List.range' k (c.allocated - k) = List.range c.allocated := by
  have happend := List.range'_append_1 (s := 0) (m := k) (n := c.allocated - k)
  rw [Nat.zero_add, Nat.add_sub_cancel' h.le] at happend
  rw [List.range_eq_range', List.range_eq_range', happend]

/-- `QWC_Destroy` frees what nobody got. -/
theorem destroy (h : MarkedFirst k c) :
    ∃ c', c.qwcDestroy = some c' ∧ c'.freed = List.range' k (c.allocated - k) := by
  obtain ⟨c', hc', hfreed⟩ := freeStrings h.nodes (List.length_range).le c rfl
  refine ⟨c', hc', ?_⟩
  -- the strings in front have been returned, those behind have not
  have hbefore : (List.range k).filter (fun s => !c.done s) = [] := by
    refine List.filter_eq_nil_iff.mpr fun s hs => ?_
    have hlt := List.mem_range.mp hs
    rw [h.marked s (Nat.lt_of_lt_of_le hlt h.le)]
    simp [hlt]
  have hbehind : (List.range' k (c.allocated - k)).filter (fun s => !c.done s)
      = List.range' k (c.allocated - k) := by
    refine List.filter_eq_self.mpr fun s hs => ?_
    have hrange := List.mem_range'_1.mp hs
    have := h.le
    rw [h.marked s (by omega)]
    simp
    omega
  rw [hfreed, h.freed, List.nil_append, ← h.range_split, List.filter_append, hbefore, hbehind,
    List.nil_append]

end MarkedFirst

/-! ## Every run -/

/-- The history of a console whose first `k` strings were returned. -/
structure Told (k : Nat) (c : Console) : Prop where
  queued : MarkedFirst k c
  added : addedStrings c.history = List.range c.allocated
  returned : returnedStrings c.history = List.range k

/-- `QWC_GetConsoleOutput` is not called before a string was stored. -/
def Filled (a : ConsoleAction) (c : Console) : Prop :=
  match a with
  | .getConsoleOutput => c.consoleOutput ≠ none
  | _ => True

instance : (a : ConsoleAction) → (c : Console) → Decidable (Filled a c)
  | .setSaveConsoleOutput _, _ => inferInstanceAs (Decidable True)
  | .stringAdd .., _ => inferInstanceAs (Decidable True)
  | .getConsoleOutput, c => inferInstanceAs (Decidable (c.consoleOutput ≠ none))

/-- What a call comes to. -/
inductive ConsoleStep (k : Nat) (a : ConsoleAction) (c c' : Console) : Prop where
  /-- Nothing is stored. -/
  | silent (ha : a ≠ .getConsoleOutput) (hqueued : MarkedFirst k c')
      (hsame : c'.allocated = c.allocated ∧ c'.string = c.string ∧ c'.history = c.history)
  | added (text : List Byte) (ha : a ≠ .getConsoleOutput) (hqueued : MarkedFirst k c')
      (hallocated : c'.allocated = c.allocated + 1)
      (hstring : c'.string = Function.update c.string c.allocated text)
      (hhistory : c'.history = c.history ++ [.added c.allocated text])
  | string (ha : a = .getConsoleOutput) (hfilled : c.consoleOutput ≠ none)
      (hqueued : MarkedFirst (k + 1) c') (hk : k < c.allocated)
      (heq : c' = (c.markDone k).log (.returned (.string k (c.string k))))
  | null (ha : a = .getConsoleOutput) (hfilled : c.consoleOutput ≠ none) (hk : k = c.allocated)
      (heq : c' = c.log (.returned .null))
  | unspecified (ha : a = .getConsoleOutput) (hempty : c.consoleOutput = none)
      (heq : c' = c.log (.returned .unspecified))

/-- Every call returns. -/
theorem MarkedFirst.step {k : Nat} {c : Console} (h : MarkedFirst k c) (a : ConsoleAction) :
    ∃ c', Console.step a c = some c' ∧ ConsoleStep k a c c' := by
  have hsilent : a ≠ .getConsoleOutput → ConsoleStep k a c c := fun ha =>
    .silent ha h ⟨rfl, rfl, rfl⟩
  -- each call keeps the marks in front, and says what it did
  cases a with
  | setSaveConsoleOutput save =>
    exact ⟨_, rfl, .silent nofun ⟨h.nodes, h.le, h.marked, h.freed⟩ ⟨rfl, rfl, rfl⟩⟩
  | stringAdd text calloc strdup =>
    show ∃ c', c.qwcStringAdd text calloc strdup = some c' ∧ _
    unfold Console.qwcStringAdd
    split
    · exact ⟨c, rfl, hsilent nofun⟩
    split
    · exact ⟨c, rfl, hsilent nofun⟩
    split
    · exact ⟨c, rfl, hsilent nofun⟩
    -- saving is on, and both allocations succeed
    obtain ⟨c', hc', hqueued, hallocated, hstring, hhistory⟩ := h.allocate text
    exact ⟨c', hc', .added text nofun hqueued hallocated hstring hhistory⟩
  | getConsoleOutput =>
    refine ⟨_, congrArg (Option.map _) h.getConsoleOutput, ?_⟩
    by_cases hempty : c.consoleOutput = none
    · rw [if_pos hempty]
      exact .unspecified rfl hempty rfl
    · rw [if_neg hempty]
      by_cases hk : k < c.allocated
      · rw [if_pos hk]
        have hmarked := h.markDone hk
        exact .string rfl hempty ⟨hmarked.nodes, hmarked.le, hmarked.marked, hmarked.freed⟩ hk rfl
      · rw [if_neg hk]
        exact .null rfl hempty (Nat.le_antisymm h.le (Nat.not_lt.mp hk)) rfl

theorem addedStrings_append (t es : List ConsoleEvent) :
    addedStrings (t ++ es) = addedStrings t ++ addedStrings es := List.filterMap_append

theorem returnedStrings_append (t es : List ConsoleEvent) :
    returnedStrings (t ++ es) = returnedStrings t ++ returnedStrings es := List.filterMap_append

/-- An event that neither adds nor returns a string. -/
theorem Told.log {k : Nat} {c : Console} (h : Told k c) {e : ConsoleEvent}
    (hadded : addedStrings [e] = []) (hreturned : returnedStrings [e] = []) :
    Told k (c.log e) := by
  refine ⟨⟨h.queued.nodes, h.queued.le, h.queued.marked, h.queued.freed⟩, ?_, ?_⟩
  · show addedStrings (c.history ++ [e]) = _
    rw [addedStrings_append, hadded, List.append_nil]
    exact h.added
  · show returnedStrings (c.history ++ [e]) = _
    rw [returnedStrings_append, hreturned, List.append_nil]
    exact h.returned

theorem ConsoleStep.told {k : Nat} {a : ConsoleAction} {c c' : Console} (h : Told k c)
    (hstep : ConsoleStep k a c c') : ∃ k', Told k' c' := by
  -- only an added string and a returned one lengthen the two histories
  cases hstep with
  | silent ha hqueued hsame =>
    obtain ⟨hallocated, -, hhistory⟩ := hsame
    refine ⟨k, hqueued, ?_, ?_⟩
    · rw [hhistory, hallocated]
      exact h.added
    · rw [hhistory]
      exact h.returned
  | added text ha hqueued hallocated hstring hhistory =>
    refine ⟨k, hqueued, ?_, ?_⟩
    · rw [hhistory, hallocated, addedStrings_append, h.added, List.range_succ]
      rfl
    · rw [hhistory, returnedStrings_append]
      exact (List.append_nil _).trans h.returned
  | string ha hfilled hqueued hk heq =>
    subst heq
    refine ⟨k + 1, hqueued, ?_, ?_⟩
    · show addedStrings (c.history ++ [_]) = _
      rw [addedStrings_append]
      exact (List.append_nil _).trans h.added
    · show returnedStrings (c.history ++ [_]) = _
      rw [returnedStrings_append, h.returned, List.range_succ]
      rfl
  | null ha hfilled hk heq =>
    subst heq
    exact ⟨k, h.log rfl rfl⟩
  | unspecified ha hempty heq =>
    subst heq
    exact ⟨k, h.log rfl rfl⟩

theorem Console.told {c : Console} (h : Console.system.Reachable c) : ∃ k, Told k c := by
  have hstep : ∀ a c c', (∃ k, Told k c) → True → Console.step a c = some c' → ∃ k, Told k c' := by
    rintro a c c' ⟨k, htold⟩ - hstep
    obtain ⟨c₁, hc₁, hcases⟩ := htold.queued.step a
    obtain rfl := Option.some.inj (hc₁.symm.trans hstep)
    exact hcases.told htold
  refine h.invariant (fun c hinit => ⟨0, MarkedFirst.init hinit, ?_, ?_⟩) hstep
  · rw [hinit.history, hinit.allocated]
    rfl
  · rw [hinit.history]
    rfl

theorem foldlM_queueStep_concat (history : List ConsoleEvent) (e : ConsoleEvent) :
    (history ++ [e]).foldlM queueStep []
      = history.foldlM queueStep [] >>= fun pending => queueStep pending e := by
  rw [List.foldlM_append]
  congr 1
  funext pending
  exact bind_pure _

theorem ActsAsQueue.initial {history : List ConsoleEvent} {e : ConsoleEvent}
    (h : ActsAsQueue (history ++ [e])) : ActsAsQueue history := by
  intro hnone
  refine h ?_
  rw [foldlM_queueStep_concat, hnone]
  rfl

/-- The history grows by at most one event. -/
theorem ConsoleStep.history {k : Nat} {a : ConsoleAction} {c c' : Console}
    (hstep : ConsoleStep k a c c') (h : ActsAsQueue c'.history) : ActsAsQueue c.history := by
  have hlog : ∀ e, c'.history = c.history ++ [e] → ActsAsQueue c.history := fun e heq =>
    ActsAsQueue.initial (e := e) (heq ▸ h)
  cases hstep with
  | silent _ _ hsame => exact hsame.2.2 ▸ h
  | added _ _ _ _ _ hhistory => exact hlog _ hhistory
  | string _ _ _ _ heq => exact hlog _ (congrArg Console.history heq)
  | null _ _ _ heq => exact hlog _ (congrArg Console.history heq)
  | unspecified _ _ heq => exact hlog _ (congrArg Console.history heq)

/-- A call that returns without a value does not act as on a queue. -/
theorem not_actsAsQueue_unspecified (history : List ConsoleEvent) :
    ¬ActsAsQueue (history ++ [.returned .unspecified]) := by
  intro h
  refine h ?_
  rw [foldlM_queueStep_concat]
  cases history.foldlM queueStep [] with
  | none => rfl
  | some pending => cases pending <;> rfl

/-- The queue holds what nobody got yet. -/
def Console.Holds (k : Nat) (c : Console) : Prop :=
  c.history.foldlM queueStep [] = some (c.pending k)

/-- A call acts as on the queue, unless it returns without a value. -/
theorem ConsoleStep.holds {k : Nat} {a : ConsoleAction} {c c' : Console} (hq : MarkedFirst k c)
    (h : c.Holds k) (hfilled : Filled a c) (hstep : ConsoleStep k a c c') :
    ∃ k', MarkedFirst k' c' ∧ c'.Holds k' := by
  -- the strings not yet returned are what the queue of the history holds
  cases hstep with
  | silent ha hqueued hsame =>
    obtain ⟨hallocated, hstring, hhistory⟩ := hsame
    refine ⟨k, hqueued, ?_⟩
    rw [Console.Holds, hhistory, Console.pending, hallocated, hstring]
    exact h
  | added text ha hqueued hallocated hstring hhistory =>
    refine ⟨k, hqueued, ?_⟩
    have hrange : List.range' k (c.allocated + 1 - k)
        = List.range' k (c.allocated - k) ++ [c.allocated] := by
      rw [Nat.succ_sub hq.le, List.range'_concat, Nat.one_mul, Nat.add_sub_cancel' hq.le]
    have hold : (List.range' k (c.allocated - k)).map (fun s =>
        (s, Function.update c.string c.allocated text s)) = c.pending k := by
      refine List.map_congr_left fun s hs => ?_
      have hlt := List.mem_range'_1.mp hs
      rw [Function.update_of_ne (by omega)]
    have hpending : c'.pending k = c.pending k ++ [(c.allocated, text)] := by
      rw [Console.pending, hallocated, hstring, hrange, List.map_append, hold, List.map_singleton,
        Function.update_self]
    rw [Console.Holds, hhistory, foldlM_queueStep_concat, h, hpending]
    rfl
  | string ha hfilled hqueued hk heq =>
    subst heq
    refine ⟨k + 1, hqueued, ?_⟩
    have hpending : c.pending k = (k, c.string k) :: c.pending (k + 1) := by
      obtain ⟨n, hn⟩ : ∃ n, c.allocated - k = n + 1 := ⟨c.allocated - k - 1, by omega⟩
      have hn' : c.allocated - (k + 1) = n := by omega
      rw [Console.pending, Console.pending, hn, hn', List.range'_succ, List.map_cons]
    show (c.history ++ [_]).foldlM queueStep [] = some (c.pending (k + 1))
    rw [foldlM_queueStep_concat, h, hpending]
    exact if_pos rfl
  | null ha hfilled hk heq =>
    subst heq
    refine ⟨k, ⟨hq.nodes, hq.le, hq.marked, hq.freed⟩, ?_⟩
    have hpending : c.pending k = [] := by
      rw [Console.pending, hk, Nat.sub_self]
      rfl
    show (c.history ++ [_]).foldlM queueStep [] = some (c.pending k)
    rw [foldlM_queueStep_concat, h, hpending]
    rfl
  | unspecified ha hempty heq =>
    subst ha
    exact absurd hempty hfilled

/-- A history acts as a queue exactly if no call came before the first string. -/
theorem Console.actsAsQueue_iff {c : Console} (h : Console.system.Reachable c) :
    ActsAsQueue c.history ↔ Console.system.Reaches Filled c := by
  constructor
  · intro hacts
    -- a history that fails stays failed, so each call before the last met the condition
    induction h with
    | init h => exact .init h
    | @step a c c' hs _ hstep ih =>
      obtain ⟨k, htold⟩ := Console.told hs
      obtain ⟨c₁, hc₁, hcases⟩ := htold.queued.step a
      obtain rfl := Option.some.inj (hc₁.symm.trans hstep)
      have hfilled : Filled a c := by
        cases a with
        | setSaveConsoleOutput save => exact trivial
        | stringAdd text calloc strdup => exact trivial
        | getConsoleOutput =>
          intro hempty
          cases hcases with
          | unspecified ha _ heq =>
            have hhistory : c₁.history = c.history ++ [.returned .unspecified] :=
              congrArg Console.history heq
            rw [hhistory] at hacts
            exact not_actsAsQueue_unspecified c.history hacts
          | silent ha => exact absurd rfl ha
          | added text ha => exact absurd rfl ha
          | string ha hfilled => exact absurd hempty hfilled
          | null ha hfilled => exact absurd hempty hfilled
      exact .step (ih (hcases.history hacts)) hfilled hstep
  · intro hreaches
    -- the other way the queue's contents are carried through the run
    have hstep : ∀ a c c', (∃ k, MarkedFirst k c ∧ c.Holds k) → Filled a c →
        Console.step a c = some c' → ∃ k, MarkedFirst k c' ∧ c'.Holds k := by
      rintro a c c' ⟨k, hqueued, hholds⟩ hfilled hstep
      obtain ⟨c₁, hc₁, hcases⟩ := hqueued.step a
      obtain rfl := Option.some.inj (hc₁.symm.trans hstep)
      exact hcases.holds hqueued hholds hfilled
    obtain ⟨k, -, hholds⟩ := hreaches.invariant (fun c hinit => ⟨0, MarkedFirst.init hinit, by
      rw [Console.Holds, hinit.history, Console.pending, hinit.allocated]
      rfl⟩) hstep
    rw [ActsAsQueue, hholds]
    exact nofun

/-- Saved console output is a queue exactly in the runs in which `QWC_GetConsoleOutput` is not
    called before the first string was stored.  Every call returns; `QWC_Destroy` frees the
    strings that were not returned, so that each is freed once. -/
theorem console_output_queue_iff {c : Console} (h : Console.system.Reachable c) :
    (ActsAsQueue c.history ↔ Console.system.Reaches Filled c) ∧
    (∀ a, ∃ c', Console.step a c = some c') ∧
    (addedStrings c.history).Nodup ∧
    ∃ c', c.qwcDestroy = some c' ∧
      returnedStrings c.history ++ c'.freed = addedStrings c.history := by
  obtain ⟨k, htold⟩ := Console.told h
  refine ⟨Console.actsAsQueue_iff h, fun a => ?_, ?_, ?_⟩
  · obtain ⟨c', hc', -⟩ := htold.queued.step a
    exact ⟨c', hc'⟩
  · rw [htold.added]
    exact List.nodup_range
  · obtain ⟨c', hc', hfreed⟩ := htold.queued.destroy
    refine ⟨c', hc', ?_⟩
    rw [htold.added, htold.returned, hfreed, htold.queued.range_split]

/-- A new connection. -/
def Console.fresh : Console :=
  ⟨false, none, fun _ => none, fun _ => none, fun _ => false, fun _ => [], 0, [], []⟩

/-- Two strings are stored, and the application asks three times. -/
def Console.twoStrings : List ConsoleAction :=
  [.setSaveConsoleOutput true, .stringAdd (ascii "one") true true, .getConsoleOutput,
    .stringAdd (ascii "two") true true, .getConsoleOutput, .getConsoleOutput]

/-- Both are returned, and `QWC_Destroy` frees none. -/
theorem console_output_queue_iff_two : ∃ c c', Console.system.runOk Filled Console.twoStrings
      Console.fresh = some c ∧ ActsAsQueue c.history ∧ c.qwcDestroy = some c' ∧
    returnedStrings c.history ++ c'.freed = addedStrings c.history ∧ c'.freed = [] := by
  have heq : (Console.system.runOk Filled Console.twoStrings Console.fresh).map (fun c =>
      c.qwcDestroy.map Console.freed) = some (some []) := by
    decide +kernel
  obtain ⟨c, hrun, hfreed⟩ := Option.map_eq_some_iff.mp heq
  have hreaches : Console.system.Reaches Filled c :=
    Transitions.Reaches.runOk (.init ⟨rfl, rfl, rfl, rfl, rfl⟩) hrun
  obtain ⟨hqueue, -, -, c', hc', howned⟩ := console_output_queue_iff hreaches.reachable
  rw [hc'] at hfreed
  exact ⟨c, c', hrun, hqueue.mpr hreaches, hc', howned, Option.some.inj hfreed⟩

/-- Before a string is stored the application gets no value. -/
theorem console_output_not_queue : ∃ c, Console.system.run
      [.setSaveConsoleOutput true, .getConsoleOutput] Console.fresh = some c ∧
    Console.system.Reachable c ∧ c.history = [.returned .unspecified] ∧
    ¬ActsAsQueue c.history := by
  obtain ⟨c, hrun, hhistory⟩ : ∃ c, Console.system.run
      [.setSaveConsoleOutput true, .getConsoleOutput] Console.fresh = some c ∧
        c.history = [.returned .unspecified] := ⟨_, rfl, rfl⟩
  have hinit : Console.system.Reachable Console.fresh := .init ⟨rfl, rfl, rfl, rfl, rfl⟩
  refine ⟨c, hrun, hinit.run hrun, hhistory, ?_⟩
  rw [hhistory]
  exact not_actsAsQueue_unspecified []

end QwNet
