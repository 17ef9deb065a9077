/-
  QwNet.Parser.Print

  Console text: what `ParsePrint` hands on to `QWC_StringAdd`.

  The text since the last line feed is pending in `qwc->buffer`.  `buffer_position`
  moves on by what `snprintf` had to print, not by what it printed, and the last
  character of an empty string is the byte in front of it.  A run is right as long
  as every string has a last character and fits behind the pending text.
-/
import Mathlib.Data.List.GetD
import QwNet.Lib.History
import QwNet.Parser.Unchecked

namespace QwNet

open History

/-! ## What a buffer holds -/

/-- The C string at the beginning of the buffer is `text`. -/
structure OutBuf.HoldsString (buf : OutBuf) (text : List Byte) : Prop where
  chars : ∀ i (h : i < text.length), buf.mem i = text[i]
  nul : buf.mem text.length = 0
  no_nul : ∀ c ∈ text, c ≠ 0#8

theorem cstring_eq {mem : Nat → Byte} {text : List Byte} {limit i : Nat}
    (hchars : ∀ k (h : k < text.length), mem (i + k) = text[k]) (hnul : mem (i + text.length) = 0)
    (hno : ∀ c ∈ text, c ≠ 0#8) (hlimit : text.length < limit) : cstring mem limit i = text := by
  induction text generalizing i limit with
  | nil =>
    obtain ⟨limit, rfl⟩ := Nat.exists_eq_succ_of_ne_zero (Nat.ne_of_gt hlimit)
    exact if_pos hnul
  | cons c text ih =>
    obtain ⟨limit, rfl⟩ := Nat.exists_eq_succ_of_ne_zero (Nat.ne_of_gt (Nat.zero_lt_of_lt hlimit))
    have hfirst : mem i = c := hchars 0 (Nat.succ_pos _)
    have hc : c ≠ 0 := hno c List.mem_cons_self
    rw [cstring, hfirst, if_neg hc, ih]
    · intro k hk
      rw [Nat.add_assoc, Nat.add_comm 1 k]
      exact hchars (k + 1) (Nat.succ_lt_succ hk)
    · rw [Nat.add_assoc, Nat.add_comm 1]
      exact hnul
    · exact fun d hd => hno d (List.mem_cons_of_mem _ hd)
    · exact Nat.lt_of_succ_lt_succ hlimit

theorem OutBuf.HoldsString.cstring_eq {buf : OutBuf} {text : List Byte} (h : buf.HoldsString text)
    (hlength : text.length < 2048) : cstring buf.mem 2048 0 = text :=
  QwNet.cstring_eq (fun k hk => by rw [Nat.zero_add]; exact h.chars k hk)
    (by rw [Nat.zero_add]; exact h.nul) h.no_nul hlength

/-- Printing behind a text of fewer than `size` bytes adds as much as fits. -/
theorem holdsString_snprintfString {buf : OutBuf} {text s : List Byte} {size : Nat}
    (h : buf.HoldsString text) (hs : ∀ c ∈ s, c ≠ 0#8) (hsize : text.length < size) :
    (snprintfString buf text.length (size - text.length) s).HoldsString
      (text ++ s.take (size - 1 - text.length)) := by
  have hroom : size - text.length ≠ 0 := by omega
  have hlength : (text ++ s.take (size - 1 - text.length)).length
      = text.length + min s.length (size - text.length - 1) := by
    rw [List.length_append, List.length_take, Nat.min_comm, Nat.sub_right_comm]
  rw [snprintfString, if_neg hroom]
  refine ⟨fun i hi => ?_, ?_, ?_⟩
  · rw [hlength] at hi
    rw [OutBuf.store_mem, Function.update_of_ne (by omega), OutBuf.memcpy_mem]
    by_cases hin : i < text.length
    · -- the pending text is left alone
      rw [if_neg (by omega), List.getElem_append_left hin, h.chars i hin]
    · rw [if_pos (by omega), List.getElem_append_right (by omega), List.getElem_take,
        List.getD_eq_getElem]
  · rw [hlength, OutBuf.store_mem, Function.update_self]
  · intro c hc
    rcases List.mem_append.mp hc with hc | hc
    · exact h.no_nul c hc
    · exact hs c (List.mem_of_mem_take hc)

/-! ## Runs of `ParsePrint` -/

/-- A string that `ParsePrint` is given. -/
structure PrintString where
  chars : List Byte
  no_nul : ∀ c ∈ chars, c ≠ 0#8
  length_le : chars.length ≤ 2047

/-- The string ends a line. -/
def PrintString.EndsLine (s : PrintString) : Prop := s.chars.getLast? = some 10#8

instance (s : PrintString) : Decidable s.EndsLine := inferInstanceAs (Decidable (_ = _))

/-- All that was printed. -/
def printed (ss : List PrintString) : List Byte := ss.flatMap PrintString.chars

/-- One more string after the pending text `text`. -/
def addPending (text : List Byte) (s : PrintString) : List Byte :=
  if s.EndsLine then [] else text ++ s.chars

/-- The text printed since the last string that ended a line. -/
def pending (ss : List PrintString) : List Byte := ss.foldl addPending []

theorem pending_concat (ss : List PrintString) (s : PrintString) :
    pending (ss ++ [s]) = addPending (pending ss) s := List.foldl_concat ..

theorem printed_concat (ss : List PrintString) (s : PrintString) :
    printed (ss ++ [s]) = printed ss ++ s.chars := by
  rw [printed, List.flatMap_append, List.flatMap_singleton]
  rfl

/-- The environment in which allocation succeeds. -/
def allocating (fopen : Nat → Bool) : Env := ⟨fopen, fun _ => true⟩

/-- One call of `ParsePrint`. -/
def printOne (fopen : Nat → Bool) (q : QwConnection) (s : PrintString) : QwConnection :=
  (parsePrint (allocating fopen) s.chars q).2

/-- A new connection that saves its console output, after the strings were printed. -/
def printAll (fopen : Nat → Bool) (ss : List PrintString) : QwConnection :=
  ss.foldl (printOne fopen) { QwConnection.fresh with saveConsoleOutput := true }

theorem printAll_concat (fopen : Nat → Bool) (ss : List PrintString) (s : PrintString) :
    printAll fopen (ss ++ [s]) = printOne fopen (printAll fopen ss) s := List.foldl_concat ..

/-- The text is assembled without loss or overflow by the call from `q` to `q'` that prints
    `s` after `ss`. -/
structure Assembled (ss : List PrintString) (s : PrintString) (q q' : QwConnection) : Prop where
  /-- `buffer_position` is the length of the pending text, below the size of the buffer. -/
  position : q'.bufferPosition.toInt = (cstring q'.buffer.mem 2048 0).length
  below : q'.bufferPosition.toInt < 2048
  /-- No index outside the buffer was written, none outside the string read. -/
  buffer : ∀ i ∈ q'.buffer.stores, i < 2048
  argument : ∀ i, Event.argument i ∈ newEvents q q' → 0 ≤ i ∧ i ≤ s.chars.length
  /-- What was added to the console output, and the pending text, is all that was printed. -/
  text : q'.consoleOutput.flatten ++ cstring q'.buffer.mem 2048 0 = printed (ss ++ [s])

/-- Every call of a run assembles the text without loss or overflow. -/
def Assembles (fopen : Nat → Bool) (ss : List PrintString) : Prop :=
  AtEvery (fun pre s => Assembled pre s (printAll fopen pre) (printAll fopen (pre ++ [s]))) ss

/-! ## One call -/

/-- The string has a last character and fits behind the pending text. -/
def FitsPending (ss : List PrintString) (s : PrintString) : Prop :=
  s.chars ≠ [] ∧ (pending ss).length + s.chars.length < 2048

/-- The connection after `ss`, as long as everything has fitted. -/
structure LinePending (ss : List PrintString) (q : QwConnection) : Prop where
  saving : q.saveConsoleOutput = true
  holds : q.buffer.HoldsString (pending ss)
  position : q.bufferPosition.toNat = (pending ss).length
  below : (pending ss).length < 2048
  buffer : ∀ i ∈ q.buffer.stores, i < 2048
  text : q.consoleOutput.flatten ++ pending ss = printed ss

section

variable {fopen : Nat → Bool} {ss : List PrintString} {s : PrintString} {q : QwConnection}

theorem linePending_nil (fopen : Nat → Bool) : LinePending [] (printAll fopen []) where
  saving := rfl
  holds := ⟨fun i hi => absurd hi (Nat.not_lt_zero i), rfl, fun c hc => nomatch hc⟩
  position := rfl
  below := by decide
  buffer := fun i hi => nomatch hi
  text := rfl

/-- A position inside the buffer is its distance from the beginning, also as an `int`. -/
theorem LinePending.room (h : LinePending ss q) :
    bufferRoom q.bufferPosition = 2048 - (pending ss).length := by
  have hbelow := h.below
  rw [bufferRoom_of_le (by rw [h.position]; omega), h.position]

/-- The buffer after `snprintf`. -/
theorem LinePending.snprintf (h : LinePending ss q) (s : PrintString) :
    (printString s.chars q).buffer.HoldsString
        (pending ss ++ s.chars.take (2047 - (pending ss).length)) ∧
      (∀ i ∈ (printString s.chars q).buffer.stores, i < 2048) ∧
      (printString s.chars q).bufferPosition.toNat
        = (pending ss).length + s.chars.length := by
  have hbelow := h.below
  have hlength := s.length_le
  have hbuffer : (printString s.chars q).buffer
      = snprintfString q.buffer (pending ss).length (2048 - (pending ss).length) s.chars := by
    rw [printString, h.room, h.position]
  refine ⟨?_, ?_, ?_⟩
  · rw [hbuffer]
    exact holdsString_snprintfString h.holds s.no_nul hbelow
  · obtain ⟨new, hstores, hnew⟩ := (storesWithin_snprintfString q.buffer s.chars hbelow).stores
    rw [hbuffer, hstores]
    intro i hi
    rcases List.mem_append.mp hi with hi | hi
    · exact h.buffer i hi
    · have := hnew i hi
      omega
  · show (q.bufferPosition + BitVec.ofNat 32 s.chars.length).toNat = _
    rw [BitVec.toNat_add, BitVec.toNat_ofNat, h.position]
    omega

/-- What `ParsePrint` looks at when it has printed. -/
theorem printOne_eq (fopen : Nat → Bool) (q : QwConnection) (s : PrintString) :
    printOne fopen q s = endLineIf (allocating fopen) s.chars
      ((printString s.chars q).log [.argument (s.chars.length - 1)]) := rfl

theorem endLine_trace (env : Env) (q : QwConnection) : (endLine env q).trace = q.trace := by
  show (qwcStringAdd env _ q).trace = q.trace
  unfold qwcStringAdd
  split
  · rfl
  · split
    · rfl
    · split <;> rfl

/-- Whatever happens, the last character of the string was looked at. -/
theorem newEvents_printOne (fopen : Nat → Bool) (q : QwConnection) (s : PrintString) :
    newEvents q (printOne fopen q s) = [.argument (s.chars.length - 1)] := by
  have htrace : (printOne fopen q s).trace = q.trace ++ [.argument (s.chars.length - 1)] := by
    rw [printOne_eq, endLineIf]
    split
    · exact endLine_trace _ _
    · rfl
  rw [newEvents, htrace, List.drop_left]

/-- A string that does not end a line is only added to the buffer. -/
theorem printOne_of_not_endsLine (fopen : Nat → Bool) (q : QwConnection) (hne : s.chars ≠ [])
    (hline : ¬s.EndsLine) : printOne fopen q s
      = (printString s.chars q).log [.argument (s.chars.length - 1)] := by
  rw [printOne_eq, endLineIf, if_neg]
  intro hlast
  refine hline (?_ : s.chars.getLast? = some 10#8)
  rw [List.getLast?_eq_getLast_of_ne_nil hne] at *
  simpa [lastChar, List.getLast?_eq_getLast_of_ne_nil hne] using hlast

/-- A string that ends a line hands the buffer on and clears it. -/
theorem printOne_of_endsLine (fopen : Nat → Bool) (hsaving : q.saveConsoleOutput = true)
    (hline : s.EndsLine) :
    (printOne fopen q s).saveConsoleOutput = true ∧
      (printOne fopen q s).buffer = (printString s.chars q).buffer.store 0 0 ∧
      (printOne fopen q s).bufferPosition = 0 ∧
      (printOne fopen q s).consoleOutput
        = q.consoleOutput ++ [cstring (printString s.chars q).buffer.mem 2048 0] := by
  have hlast : lastChar s.chars ((printString s.chars q).log [.argument (s.chars.length - 1)])
      = 10#8 := by rw [lastChar, show s.chars.getLast? = some 10#8 from hline]; rfl
  have hadd : ∀ text q, q.saveConsoleOutput = true → qwcStringAdd (allocating fopen) text q
      = { q with allocs := q.allocs + 2, consoleOutput := q.consoleOutput ++ [text] } := by
    intro text q hq
    rw [qwcStringAdd, hq]
    rfl
  have hsaving' : ((printString s.chars q).log
    [.argument (s.chars.length - 1)]).saveConsoleOutput = true := hsaving
  rw [printOne_eq, endLineIf, if_pos hlast, endLine, hadd _ _ hsaving']
  exact ⟨hsaving, rfl, rfl, rfl⟩

/-- A string that fits keeps everything in place. -/
theorem LinePending.concat (fopen : Nat → Bool) (h : LinePending ss q) (hfits : FitsPending ss s) :
    LinePending (ss ++ [s]) (printOne fopen q s) := by
  obtain ⟨hne, hlt⟩ := hfits
  obtain ⟨hholds, hstores, hposition⟩ := h.snprintf s
  rw [List.take_of_length_le (by omega)] at hholds
  have htext := h.text
  by_cases hline : s.EndsLine
  · obtain ⟨hsaving, hbuffer, hpos, houtput⟩ := printOne_of_endsLine fopen h.saving hline
    have hpending : pending (ss ++ [s]) = [] := by rw [pending_concat, addPending, if_pos hline]
    refine ⟨hsaving, ?_, ?_, ?_, ?_, ?_⟩
    · rw [hbuffer, hpending]
      refine ⟨fun i hi => absurd hi (Nat.not_lt_zero i), ?_, fun c hc => nomatch hc⟩
      rw [OutBuf.store_mem]
      exact Function.update_self ..
    · rw [hpos, hpending]
      rfl
    · rw [hpending]
      exact Nat.zero_lt_succ _
    · rw [hbuffer]
      intro i hi
      rcases List.mem_append.mp hi with hi | hi
      · exact hstores i hi
      · rw [List.mem_singleton.mp hi]
        exact Nat.zero_lt_succ _
    · -- the whole line has gone to the console output
      rw [houtput, hpending, hholds.cstring_eq (by rw [List.length_append]; exact hlt),
        printed_concat, ← htext]
      simp
  · have hpending : pending (ss ++ [s]) = pending ss ++ s.chars := by
      rw [pending_concat, addPending, if_neg hline]
    rw [printOne_of_not_endsLine fopen q hne hline]
    refine ⟨h.saving, ?_, ?_, ?_, hstores, ?_⟩
    · rw [hpending]
      exact hholds
    · rw [hpending, List.length_append]
      exact hposition
    · rw [hpending, List.length_append]
      exact hlt
    · rw [hpending, printed_concat, ← htext, List.append_assoc]
      rfl

/-- A call is right iff its string fits. -/
theorem LinePending.assembled_iff (fopen : Nat → Bool) (h : LinePending ss q) :
    Assembled ss s q (printOne fopen q s) ↔ FitsPending ss s := by
  obtain ⟨hholds, -, hposition⟩ := h.snprintf s
  have hbelow := h.below
  have hmax := s.length_le
  constructor
  · intro ha
    have hne : s.chars ≠ [] := by
      intro hempty
      have := ha.argument (-1) (by rw [newEvents_printOne, hempty]; simp)
      omega
    refine ⟨hne, ?_⟩
    by_contra hlong
    by_cases hline : s.EndsLine
    · -- the end of the line was cut off
      obtain ⟨-, hbuffer, -, houtput⟩ := printOne_of_endsLine fopen h.saving hline
      have hcut := hholds.cstring_eq (by rw [List.length_append, List.length_take]; omega)
      have hnil : cstring (printOne fopen q s).buffer.mem 2048 0 = [] := by
        rw [hbuffer]
        rfl
      have hlength := congrArg List.length ha.text
      rw [houtput, hcut, hnil, printed_concat, ← h.text] at hlength
      simp only [List.flatten_append, List.flatten_singleton, List.append_nil, List.length_append,
        List.length_take] at hlength
      omega
    · -- the position has left the buffer
      have hposition' := ha.below
      rw [printOne_of_not_endsLine fopen q hne hline] at hposition'
      have hint : (printString s.chars q).bufferPosition.toInt
          = (printString s.chars q).bufferPosition.toNat :=
        BitVec.toInt_eq_toNat_of_lt (by omega)
      have hlt : (printString s.chars q).bufferPosition.toInt < 2048 := hposition'
      omega
  · intro hfits
    have h' := h.concat fopen hfits
    have hstring := h'.holds.cstring_eq h'.below
    have hposition' := h'.position
    have hbelow' := h'.below
    have hint : (printOne fopen q s).bufferPosition.toInt = (pending (ss ++ [s])).length := by
      rw [BitVec.toInt_eq_toNat_of_lt (by omega), hposition']
    refine ⟨by rw [hint, hstring], by omega, h'.buffer, ?_, by rw [hstring]; exact h'.text⟩
    intro i hi
    have hpos := List.length_pos_iff.mpr hfits.1
    rw [newEvents_printOne] at hi
    obtain rfl := Event.argument.inj (List.mem_singleton.mp hi)
    omega

end

/-! ## Whole runs -/

theorem linePending_of_fits {fopen : Nat → Bool} {ss : List PrintString}
    (h : AtEvery FitsPending ss) : LinePending ss (printAll fopen ss) := by
  induction ss using List.reverseRecOn with
  | nil => exact linePending_nil fopen
  | append_singleton ss s ih =>
    rw [printAll_concat]
    exact (ih h.initial).concat fopen (h ss s (List.prefix_refl _))

/-- The last call of a run that assembles the text. -/
theorem Assembles.last {fopen : Nat → Bool} {ss : List PrintString} {s : PrintString}
    (h : Assembles fopen (ss ++ [s])) :
    Assembled ss s (printAll fopen ss) (printOne fopen (printAll fopen ss) s) := by
  rw [← printAll_concat]
  exact h ss s (List.prefix_refl _)

/-- The console text is assembled without loss or overflow iff no string is empty and every
    one fits into the buffer behind the text that is pending. -/
theorem parsePrint_assembles_iff (fopen : Nat → Bool) (ss : List PrintString) :
    Assembles fopen ss ↔ AtEvery FitsPending ss := by
  have hone : ∀ pre s, AtEvery FitsPending pre →
      (Assembled pre s (printAll fopen pre) (printAll fopen (pre ++ [s])) ↔ FitsPending pre s) := by
    intro pre s hpre
    rw [printAll_concat]
    exact (linePending_of_fits hpre).assembled_iff fopen
  exact atEvery_congr hone

/-- `n` times the character `c`. -/
def PrintString.replicate (n : Nat) (c : Byte) (hc : c ≠ 0#8) (hn : n ≤ 2047) : PrintString where
  chars := List.replicate n c
  no_nul := fun _ h => List.eq_of_mem_replicate h ▸ hc
  length_le := by rw [List.length_replicate]; exact hn

/-- Half a buffer of text without a line feed. -/
def halfLine : PrintString := .replicate 1024 97#8 (by decide) (by decide)

/-- An empty string is read in front of its beginning, and two strings without a line feed
    whose lengths add up to the size of the buffer leave it full. -/
theorem parsePrint_not_assembles :
    ¬Assembles (fun _ => true) [⟨[], by decide, by decide⟩] ∧
      ¬Assembles (fun _ => true) [halfLine, halfLine] := by
  have hlength : halfLine.chars.length = 1024 := List.length_replicate
  have hempty : LinePending [] (printAll (fun _ => true) []) := linePending_nil _
  refine ⟨fun h => ?_, fun h => ?_⟩
  · have hfits := (hempty.assembled_iff (fun _ => true)).mp (h [] _ (List.prefix_refl _))
    exact hfits.1 rfl
  · have hpending : pending [halfLine] = halfLine.chars := by
      have hline : ¬halfLine.EndsLine := by
        rw [PrintString.EndsLine, halfLine, PrintString.replicate, List.getLast?_replicate]
        decide
      rw [← List.nil_append [halfLine], pending_concat, addPending, if_neg hline]
      exact List.nil_append _
    have hone : FitsPending [] halfLine := by
      refine ⟨List.ne_nil_of_length_pos (by omega), ?_⟩
      rw [hlength]
      decide
    have hfirst : LinePending [halfLine] (printAll (fun _ => true) [halfLine]) :=
      linePending_of_fits ((atEvery_nil _).concat hone)
    have hlong := ((hfirst.assembled_iff _).mp (Assembles.last h)).2
    rw [hpending, hlength] at hlong
    omega

end QwNet
