/-
  QwNet.Lib.LinkedQueue

  Queues that are singly linked lists with a head and a tail pointer.

  A node is known by its address and `next` is the pointer that it has for this queue,
  so that a node may be in several queues through different pointers.  A queue is
  `Linked` if the nodes from its head on are those of a list, in order and each once,
  and its tail is the last of them.
-/
import Mathlib.Data.List.GetD
import Mathlib.Logic.Function.Basic

namespace LinkedQueue

variable {ι : Type}

/-- The pointers of a queue; `none` is a null pointer. -/
structure Links (ι : Type) where
  head : Option ι
  tail : Option ι
  next : ι → Option ι

/-- Following `next` from `p` on one meets `xs`, and then a null pointer. -/
def Chain (next : ι → Option ι) : Option ι → List ι → Prop
  | p, [] => p = none
  | p, x :: xs => p = some x ∧ Chain next (next x) xs

/-- The queue holds `xs`, head first. -/
structure Linked (q : Links ι) (xs : List ι) : Prop where
  chain : Chain q.next q.head xs
  tail : q.tail = xs.getLast?
  nodup : xs.Nodup

namespace Links

/-- A queue without nodes. -/
def empty (next : ι → Option ι) : Links ι := ⟨none, none, next⟩

variable [DecidableEq ι]

/-- `node->next = 0`, of a node that is not in the queue. -/
def clear (x : ι) (q : Links ι) : Links ι := { q with next := Function.update q.next x none }

/-- A node is linked behind the tail, or as the only one. -/
def push (x : ι) (q : Links ι) : Links ι :=
  match q.tail with
  | some t => { q with next := Function.update q.next t (some x), tail := some x }
  | none => { q with head := some x, tail := some x }

omit [DecidableEq ι] in
/-- `head = node->next`. -/
def advance (x : ι) (q : Links ι) : Links ι := { q with head := q.next x }

omit [DecidableEq ι] in
/-- `if (head == 0) tail = 0`. -/
def repair (q : Links ι) : Links ι := { q with tail := if q.head = none then none else q.tail }

end Links

section

variable {next : ι → Option ι} {p : Option ι} {x : ι} {xs ys : List ι}

theorem Chain.head (h : Chain next p xs) : p = xs.head? := by
  cases xs with
  | nil => exact h
  | cons x xs => exact h.1

variable [DecidableEq ι]

/-- Pointers of other nodes do not matter. -/
theorem Chain.update (h : Chain next p xs) (hx : x ∉ xs) (target : Option ι) :
    Chain (Function.update next x target) p xs := by
  induction xs generalizing p with
  | nil => exact h
  | cons y ys ih =>
    obtain ⟨hne, hys⟩ := not_or.mp fun h => hx (List.mem_cons.mpr h)
    refine ⟨h.1, ?_⟩
    rw [Function.update_of_ne (Ne.symm hne)]
    exact ih h.2 hys

/-- The last node of a chain is pointed at a new one. -/
theorem Chain.concat {t : ι} (h : Chain next p xs) (hlast : xs.getLast? = some t)
    (hnodup : xs.Nodup) (hx : x ∉ xs) (hnext : next x = none) :
    Chain (Function.update next t (some x)) p (xs ++ [x]) := by
  induction xs generalizing p with
  | nil => exact nomatch hlast
  | cons y ys ih =>
    obtain ⟨hne, hys⟩ := not_or.mp fun h => hx (List.mem_cons.mpr h)
    obtain ⟨hy, hnodup⟩ := List.nodup_cons.mp hnodup
    refine ⟨h.1, ?_⟩
    cases ys with
    | nil =>
      -- the only node
      obtain rfl : y = t := Option.some.inj hlast
      rw [Function.update_self]
      refine ⟨rfl, ?_⟩
      rw [Function.update_of_ne hne]
      exact hnext
    | cons z zs =>
      rw [List.getLast?_cons_cons] at hlast
      have hyt : y ≠ t := by
        rintro rfl
        exact hy (List.mem_of_getLast? hlast)
      rw [Function.update_of_ne hyt]
      exact ih h.2 hlast hnodup hys

end

section

variable {q : Links ι} {x : ι} {xs : List ι}

theorem linked_empty (next : ι → Option ι) : Linked (Links.empty next) [] := ⟨rfl, rfl, .nil⟩

theorem Linked.head (h : Linked q xs) : q.head = xs.head? := h.chain.head

/-- The tail is null exactly when the queue is empty. -/
theorem Linked.tail_eq_none_iff (h : Linked q xs) : q.tail = none ↔ q.head = none := by
  rw [h.tail, h.head, List.getLast?_eq_none_iff, List.head?_eq_none_iff]

/-- Only a stale tail is repaired. -/
theorem Links.repair_eq (h : q.head = none → q.tail = none) : q.repair = q := by
  unfold Links.repair
  split
  next hhead => rw [← h hhead]
  next => rfl

/-- A queue that is linked needs no repair. -/
theorem Linked.repair (h : Linked q xs) : q.repair = q := Links.repair_eq h.tail_eq_none_iff.mpr

/-- The head is unlinked and the tail repaired. -/
theorem Linked.advance (h : Linked q.repair (x :: xs)) : Linked (q.advance x).repair xs := by
  have hchain : Chain q.next (q.next x) xs := h.chain.2
  refine ⟨hchain, ?_, h.nodup.of_cons⟩
  show (if q.next x = none then none else q.tail) = _
  have htail : (if q.head = none then none else q.tail) = (x :: xs).getLast? := h.tail
  rw [if_neg (by rw [show q.head = some x from h.chain.1]; exact nofun)] at htail
  cases xs with
  | nil => exact if_pos hchain
  | cons y ys =>
    rw [if_neg (by rw [hchain.1]; exact nofun), htail]
    rfl

variable [DecidableEq ι]

theorem Linked.clear (h : Linked q xs) (hx : x ∉ xs) : Linked (q.clear x) xs :=
  ⟨h.chain.update hx none, h.tail, h.nodup⟩

theorem Links.next_clear (x : ι) (q : Links ι) : (q.clear x).next x = none :=
  Function.update_self ..

/-- Behind a stale tail a new node is linked to nothing. -/
theorem Links.push_stale (hhead : q.head = none) (htail : q.tail ≠ none) :
    (q.push x).head = none ∧ (q.push x).tail = some x := by
  unfold Links.push
  split
  next t ht => exact ⟨hhead, rfl⟩
  next ht => exact absurd ht htail

/-- A new node is linked at the end. -/
theorem Linked.push (h : Linked q xs) (hx : x ∉ xs) (hnext : q.next x = none) :
    Linked (q.push x) (xs ++ [x]) := by
  have hnodup : (xs ++ [x]).Nodup := by
    refine List.nodup_append.mpr ⟨h.nodup, List.nodup_cons.mpr ⟨nofun, .nil⟩, fun y hy z hz => ?_⟩
    rintro rfl
    exact hx (List.mem_singleton.mp hz ▸ hy)
  unfold Links.push
  split
  · rename_i t ht
    exact ⟨h.chain.concat (h.tail.symm.trans ht) h.nodup hx hnext,
      (List.getLast?_concat ..).symm, hnodup⟩
  · rename_i hnone
    obtain rfl := List.getLast?_eq_none_iff.mp (h.tail.symm.trans hnone)
    exact ⟨⟨rfl, hnext⟩, rfl, hnodup⟩

end

/-! ## Walks along a chain -/

/-- The last node from `x` on; `none` if it is not among the first `fuel`. -/
def last (next : ι → Option ι) : Nat → ι → Option ι
  | 0, _ => none
  | fuel + 1, x =>
    match next x with
    | none => some x
    | some y => last next fuel y

/-- The first node from `p` on that is not skipped, or the null pointer; `none` if neither is
    met after `fuel` nodes. -/
def seek (next : ι → Option ι) (skip : ι → Bool) : Nat → Option ι → Option (Option ι)
  | _, none => some none
  | 0, some _ => none
  | fuel + 1, some x => if skip x then seek next skip fuel (next x) else some (some x)

section

variable {next : ι → Option ι} {p : Option ι} {x : ι} {xs : List ι} {fuel : Nat}

theorem Chain.last_eq (h : Chain next (some x) xs) (hfuel : xs.length ≤ fuel) :
    last next fuel x = xs.getLast? := by
  induction xs generalizing x fuel with
  | nil => exact nomatch h
  | cons y ys ih =>
    obtain rfl := Option.some.inj h.1
    obtain ⟨fuel, rfl⟩ : ∃ k, fuel = k + 1 := ⟨fuel - 1, by simp at hfuel; omega⟩
    have hrest : Chain next (next x) ys := h.2
    rw [last]
    cases ys with
    | nil => rw [show next x = none from hrest, List.getLast?_singleton]
    | cons z zs =>
      have hnext : next x = some z := hrest.1
      rw [hnext] at hrest ⊢
      rw [List.getLast?_cons_cons]
      exact ih hrest (Nat.le_of_succ_le_succ hfuel)

theorem Chain.seek_eq (h : Chain next p xs) (skip : ι → Bool) (hfuel : xs.length ≤ fuel) :
    seek next skip fuel p = some (xs.find? fun x => !skip x) := by
  induction xs generalizing p fuel with
  | nil =>
    rw [show p = none from h]
    cases fuel <;> rfl
  | cons y ys ih =>
    obtain ⟨rfl, hrest⟩ := h
    obtain ⟨fuel, rfl⟩ : ∃ k, fuel = k + 1 := ⟨fuel - 1, by simp at hfuel; omega⟩
    rw [seek, List.find?_cons]
    cases hskip : skip y with
    | true => simpa using ih hrest (Nat.le_of_succ_le_succ hfuel)
    | false => simp

end

end LinkedQueue
