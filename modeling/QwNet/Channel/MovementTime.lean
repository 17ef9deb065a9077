/-
  QwNet.Channel.MovementTime

  The time that generated frames account for.

  A frame takes the period that passed into its command as milliseconds, in one byte.
  While the client is connected nothing is left in `movetimecounter`, because periods are
  whole milliseconds; so the byte is right exactly if the period is at most 255 of them.
  The loop of `NetQW_GenerateFrames` watches a clock of 64 bits that wraps around, and
  ends if this clock can get past the time of the call.
-/
import QwNet.Channel.Connect
import QwNet.Channel.Stale
import QwNet.Lib.WrapClock

namespace QwNet

open NetQW

/-! ## Calls -/

/-- The calls that have to do with the time of frames. -/
inductive FrameCall where
  | generateFrames (curtime : BitVec 64) (senttime : Nat → BitVec 64) (fuel : Nat)
  | setFPS (fps : BitVec 32)

/-- The object, and `microsecondsperframe` summed up over the frames generated so far. -/
structure Movement where
  netqw : NetQW
  elapsed : Nat

/-- The frames that were generated between `q` and `q'`. -/
def newFrames (q q' : NetQW) : List (Slot × Usercmd × BitVec 64) :=
  (generated q'.trace).drop (generated q.trace).length

/-- The milliseconds stored in frames. -/
def sumMsec (frames : List (Slot × Usercmd × BitVec 64)) : Nat :=
  (frames.map fun g => g.2.1.msec.toNat).sum

namespace Movement

/-- A call that returns; `microsecondsperframe` stays the same during `NetQW_GenerateFrames`. -/
def step (call : FrameCall) (m : Movement) : Option Movement :=
  match call with
  | .generateFrames curtime senttime fuel =>
    ((generateFrames curtime senttime fuel).exec m.netqw).map fun q =>
      ⟨q, m.elapsed + (newFrames m.netqw q).length * m.netqw.microsecondsperframe.toNat⟩
  | .setFPS fps => some ⟨m.netqw.setFPS fps, m.elapsed⟩

/-- Calls one after the other, from `q` on. -/
def system (q : NetQW) : Transitions Movement FrameCall where
  Init m := m = ⟨q, 0⟩
  step := step

/-- Between `q` and now no time was lost. -/
def Conserved (q : NetQW) (m : Movement) : Prop :=
  1000 * sumMsec (newFrames q m.netqw) + m.netqw.movetimecounter.toNat
    = q.movetimecounter.toNat + m.elapsed

end Movement

/-- A call that generates a frame finds a period of at most 255 milliseconds. -/
def FitsByte (call : FrameCall) (m : Movement) : Prop :=
  match call with
  | .generateFrames curtime _ _ =>
    m.netqw.Due curtime → m.netqw.microsecondsperframe.toNat ≤ 255000
  | .setFPS _ => True

instance : (call : FrameCall) → (m : Movement) → Decidable (FitsByte call m)
  | .generateFrames curtime _ _, m =>
    inferInstanceAs (Decidable (m.netqw.Due curtime → m.netqw.microsecondsperframe.toNat ≤ 255000))
  | .setFPS _, _ => inferInstanceAs (Decidable True)

/-- `NetQW_GenerateFrames` ends, and has then caught up with the clock. -/
structure CatchesUp (curtime : BitVec 64) (senttime : Nat → BitVec 64) (q : NetQW) : Prop where
  ends : ∃ fuel q', (generateFrames curtime senttime fuel).exec q = some q'
  final : ∀ fuel q', (generateFrames curtime senttime fuel).exec q = some q' →
    q'.lastmovesendtime.toNat ≤ curtime.toNat ∧
      curtime.toNat < q'.lastmovesendtime.toNat + q'.microsecondsperframe.toNat

/-- `lastmovesendtime` can take a value after `curtime`. -/
def NetQW.ClockRoom (curtime : BitVec 64) (q : NetQW) : Prop :=
  WrapClock.Room (2 ^ 64) q.microsecondsperframe.toNat q.lastmovesendtime.toNat curtime.toNat

/-! ## Periods -/

/-- The period in milliseconds, rounded up. -/
theorem framePeriod_toNat (fps : BitVec 32) : (framePeriod fps).toNat
    = (max (1000000 / fps.toNat) 1000 + 999) / 1000 * 1000 := by
  have hle : 1000000 / fps.toNat ≤ 1000000 := Nat.div_le_self _ _
  have hdiv : (1000000#32 / fps).toNat = 1000000 / fps.toNat := BitVec.toNat_udiv
  -- a thousandth of a second is the shortest period
  have hmax : (if 1000000#32 / fps < 1000#32 then 1000#32 else 1000000#32 / fps).toNat
      = max (1000000 / fps.toNat) 1000 := by
    by_cases hlt : 1000000#32 / fps < 1000#32
    · rw [if_pos hlt]
      rw [BitVec.lt_def, hdiv, BitVec.toNat_ofNat] at hlt
      simp
      omega
    · rw [if_neg hlt, hdiv]
      rw [BitVec.lt_def, hdiv, BitVec.toNat_ofNat] at hlt
      omega
  -- rounding up to whole milliseconds does not overflow
  generalize hd : (if 1000000#32 / fps < 1000#32 then 1000#32 else 1000000#32 / fps) = period at hmax
  have hadd : (period + 999#32).toNat = max (1000000 / fps.toNat) 1000 + 999 := by
    rw [BitVec.toNat_add, hmax]
    exact Nat.mod_eq_of_lt (by simp; omega)
  have hmod : ((period + 999#32) % 1000#32).toNat
      = (max (1000000 / fps.toNat) 1000 + 999) % 1000 := by
    rw [BitVec.toNat_umod, hadd]
    rfl
  have hsub : (framePeriod fps).toNat = (period + 999#32 - (period + 999#32) % 1000#32).toNat := by
    rw [framePeriod, ← hd]
  rw [hsub, BitVec.toNat_sub_of_le, hadd, hmod]
  · omega
  · rw [BitVec.le_def, hmod, hadd]
    exact Nat.mod_le _ _

/-- A period is a number of whole milliseconds, from one to a thousand. -/
structure WholePeriod (q : NetQW) : Prop where
  whole : q.microsecondsperframe.toNat % 1000 = 0
  pos : 1000 ≤ q.microsecondsperframe.toNat
  le : q.microsecondsperframe.toNat ≤ 1000000

theorem wholePeriod_setFPS {q : NetQW} (h : WholePeriod q) (fps : BitVec 32) :
    WholePeriod (q.setFPS fps) := by
  unfold NetQW.setFPS
  split
  · have hle : 1000000 / fps.toNat ≤ 1000000 := Nat.div_le_self _ _
    have hperiod : ((q.setPeriod (framePeriod fps)).microsecondsperframe).toNat = _ :=
      framePeriod_toNat fps
    constructor
    · rw [hperiod]
      omega
    · rw [hperiod]
      omega
    · rw [hperiod]
      omega
  · exact h

/-- The byte is right from four frames a second on. -/
theorem framePeriod_le_iff {fps : BitVec 32} (hfps : fps ≠ 0#32) :
    (framePeriod fps).toNat ≤ 255000 ↔ 4 ≤ fps.toNat := by
  have hpos : fps.toNat ≠ 0 := fun h => hfps (BitVec.eq_of_toNat_eq h)
  rw [framePeriod_toNat]
  constructor
  · intro hle
    by_contra hlt
    have hdiv : 1000000 / 3 ≤ 1000000 / fps.toNat := Nat.div_le_div_left (by omega) (by omega)
    omega
  · intro hle
    have hdiv : 1000000 / fps.toNat ≤ 1000000 / 4 := Nat.div_le_div_left hle (by decide)
    omega

/-! ## One call -/

section

variable {curtime : BitVec 64} {senttime : Nat → BitVec 64} {fuel : Nat} {q q' : NetQW}

/-- A call ends after the first frame for which it is not time yet. -/
theorem exec_generateFrames_iff (hstate : q.state = .connected) :
    (generateFrames curtime senttime fuel).exec q = some q' ↔
      ∃ n < fuel, (∀ i < n, ((generateNext senttime)^[i] q).Due curtime) ∧
        ¬((generateNext senttime)^[n] q).Due curtime ∧ q' = (generateNext senttime)^[n] q := by
  have hloop : (generateFrames curtime senttime fuel).exec q
      = (RunM.loop (generatePass curtime senttime) fuel).exec q := by
    rw [RunM.exec, generateFrames, RunM.get_bind, if_neg (not_not.mpr hstate)]
    rfl
  rw [hloop]
  exact RunM.loop_while_iff (fun q hdue => (generatePass_eq curtime senttime q).trans (if_pos hdue))
    fun q hdue => (generatePass_eq curtime senttime q).trans (if_neg hdue)

/-- The clock of the loop. -/
theorem toNat_lastmovesendtime_iterate (n : Nat) :
    ((generateNext senttime)^[n] q).lastmovesendtime.toNat
      = WrapClock.reading (2 ^ 64) q.microsecondsperframe.toNat q.lastmovesendtime.toNat n := by
  obtain ⟨-, -, hlast⟩ := generateNext_iterate senttime n q
  rw [hlast, WrapClock.reading, BitVec.toNat_add, BitVec.toNat_mul, BitVec.toNat_ofNat,
    BitVec.toNat_setWidth_of_le (by decide), Nat.add_mod_mod]
  exact Nat.ModEq.add_left _ (Nat.ModEq.mul_right _ (Nat.mod_modEq n _))

theorem due_iterate_iff (n : Nat) : ((generateNext senttime)^[n] q).Due curtime ↔
    WrapClock.reading (2 ^ 64) q.microsecondsperframe.toNat q.lastmovesendtime.toNat (n + 1)
      ≤ curtime.toNat := by
  obtain ⟨-, hperiod, -⟩ := generateNext_iterate senttime n q
  rw [NetQW.Due, BitVec.le_def, BitVec.toNat_add, toNat_lastmovesendtime_iterate, hperiod,
    BitVec.toNat_setWidth_of_le (by decide), WrapClock.reading_succ]

/-- A call ends, and catches up, exactly if there is room on the clock. -/
theorem catchesUp_iff (hstate : q.state = .connected) (hpos : 0 < q.microsecondsperframe.toNat)
    (hlast : q.lastmovesendtime ≤ curtime) :
    CatchesUp curtime senttime q ↔ q.ClockRoom curtime := by
  rw [NetQW.ClockRoom, ← WrapClock.exists_past_iff (Nat.two_pow_pos 64)]
  constructor
  · rintro ⟨⟨fuel, q', hexec⟩, -⟩
    obtain ⟨n, -, -, hstop, -⟩ := (exec_generateFrames_iff hstate).mp hexec
    rw [due_iterate_iff] at hstop
    exact ⟨n, Nat.not_le.mp hstop⟩
  · intro hpast
    refine ⟨?_, fun fuel q' hexec => ?_⟩
    · -- the first time that is not due
      refine ⟨Nat.find hpast + 1, _, (exec_generateFrames_iff hstate).mpr
        ⟨Nat.find hpast, Nat.lt_succ_self _, fun i hi => ?_, ?_, rfl⟩⟩
      · rw [due_iterate_iff]
        exact Nat.not_lt.mp (Nat.find_min hpast hi)
      · rw [due_iterate_iff]
        exact Nat.not_le.mpr (Nat.find_spec hpast)
    -- the clock was not past the time of the call before the last pass
    · obtain ⟨n, -, hdue, hstop, rfl⟩ := (exec_generateFrames_iff hstate).mp hexec
      obtain ⟨-, hperiod, -⟩ := generateNext_iterate senttime n q
      rw [due_iterate_iff, Nat.not_le] at hstop
      have hle : WrapClock.reading (2 ^ 64) q.microsecondsperframe.toNat
          q.lastmovesendtime.toNat n ≤ curtime.toNat := by
        cases n with
        | zero =>
          rw [WrapClock.reading_zero q.lastmovesendtime.isLt]
          exact hlast
        | succ n => exact (due_iterate_iff n).mp (hdue n (Nat.lt_succ_self n))
      have hsucc := WrapClock.reading_succ_of_past (by omega) hle hstop
      rw [toNat_lastmovesendtime_iterate, hperiod]
      omega

/-- What a call does between frames: nothing is left in the counter. -/
theorem generateNext_iterate_counter (n : Nat) (hcounter : q.movetimecounter = 0#64)
    (hwhole : q.microsecondsperframe.setWidth 64 % 1000#64 = 0#64) :
    ((generateNext senttime)^[n] q).movetimecounter = 0#64 := by
  induction n with
  | zero => exact hcounter
  | succ n ih =>
    obtain ⟨-, hperiod, -⟩ := generateNext_iterate senttime n q
    rw [Function.iterate_succ_apply', generateNext, generateFrame_eq]
    show (_ + _) % 1000#64 = 0#64
    rw [ih, hperiod, BitVec.zero_add, hwhole]

theorem sumMsec_append (fs gs : List (Slot × Usercmd × BitVec 64)) :
    sumMsec (fs ++ gs) = sumMsec fs + sumMsec gs := by
  simp [sumMsec]

theorem sumMsec_eq {gs : List (Slot × Usercmd × BitVec 64)} {msec : BitVec 8}
    (h : ∀ g ∈ gs, g.2.1.msec = msec) : sumMsec gs = gs.length * msec.toNat := by
  induction gs with
  | nil => simp [sumMsec]
  | cons g gs ih =>
    rw [List.forall_mem_cons] at h
    have hrest := ih h.2
    simp only [sumMsec, List.map_cons, List.sum_cons, h.1, List.length_cons, Nat.succ_mul] at hrest ⊢
    omega

end

/-- What a call of `NetQW_GenerateFrames` does to a connected client between frames: it
    generates frames of one period each, of which the byte keeps the milliseconds modulo 256. -/
structure FramesOfCall (curtime : BitVec 64) (q q' : NetQW) : Prop where
  state : q'.state = .connected
  period : q'.microsecondsperframe = q.microsecondsperframe
  counter : q'.movetimecounter = 0#64
  frames : ∃ gs, generated q'.trace = generated q.trace ++ gs ∧
    sumMsec gs = gs.length * (q.microsecondsperframe.toNat / 1000 % 256) ∧
    (gs = [] ↔ ¬q.Due curtime)

theorem framesOfCall_of_exec {curtime : BitVec 64} {senttime : Nat → BitVec 64} {fuel : Nat}
    {q q' : NetQW} (hstate : q.state = .connected) (hcounter : q.movetimecounter = 0#64)
    (hperiod : WholePeriod q) (hexec : (generateFrames curtime senttime fuel).exec q = some q') :
    FramesOfCall curtime q q' := by
  obtain ⟨n, -, hdue, hstop, rfl⟩ := (exec_generateFrames_iff hstate).mp hexec
  -- whole milliseconds leave nothing over, so the counter is back at zero after each frame
  have hwhole : q.microsecondsperframe.setWidth 64 % 1000#64 = 0#64 := by
    apply BitVec.eq_of_toNat_eq
    rw [BitVec.toNat_umod, BitVec.toNat_setWidth_of_le (by decide)]
    exact hperiod.whole
  obtain ⟨hsame, hperiod', -⟩ := generateNext_iterate senttime n q
  obtain ⟨gs, hlength, hgenerated, hmsec⟩ := generateNext_iterate_msec senttime n q hcounter hwhole
  refine ⟨hsame.trans hstate, hperiod', generateNext_iterate_counter n hcounter hwhole, gs,
    hgenerated, ?_, ?_⟩
  -- every frame takes the same byte
  · have hbyte : ((q.microsecondsperframe.setWidth 64 / 1000#64).setWidth 8).toNat
        = q.microsecondsperframe.toNat / 1000 % 256 := by
      rw [BitVec.toNat_setWidth, BitVec.toNat_udiv, BitVec.toNat_setWidth_of_le (by decide)]
      rfl
    rw [sumMsec_eq hmsec, hbyte]
  -- no frame was made exactly when none was due
  · cases n with
    | zero =>
      obtain rfl := List.length_eq_zero_iff.mp hlength
      exact ⟨fun _ => hstop, fun _ => rfl⟩
    | succ n =>
      have hfirst : q.Due curtime := hdue 0 (Nat.succ_pos n)
      refine ⟨?_, fun hlate => absurd hfirst hlate⟩
      rintro rfl
      exact nomatch hlength

/-! ## Every run of calls -/

namespace Movement

/-- The calls from `q` to `m` keep the client connected, and no frame was given more time than
    passed. -/
structure Since (q : NetQW) (m : Movement) : Prop where
  state : m.netqw.state = .connected
  period : WholePeriod m.netqw
  counter : m.netqw.movetimecounter = 0#64
  frames : ∃ gs, generated m.netqw.trace = generated q.trace ++ gs ∧ 1000 * sumMsec gs ≤ m.elapsed

section

variable {q : NetQW} {m m' : Movement} {call : FrameCall}

theorem newFrames_eq {q q' : NetQW} {gs : List (Slot × Usercmd × BitVec 64)}
    (h : generated q'.trace = generated q.trace ++ gs) : newFrames q q' = gs := by
  rw [newFrames, h, List.drop_left]

/-- Time is lost between frames only by the byte. -/
theorem conserved_iff (hcounter : q.movetimecounter = 0#64)
    (hcounter' : m.netqw.movetimecounter = 0#64) {gs : List (Slot × Usercmd × BitVec 64)}
    (hgs : generated m.netqw.trace = generated q.trace ++ gs) :
    m.Conserved q ↔ 1000 * sumMsec gs = m.elapsed := by
  rw [Conserved, newFrames_eq hgs, hcounter, hcounter', BitVec.toNat_ofNat, Nat.zero_mod,
    Nat.add_zero, Nat.zero_add]

/-- `k` milliseconds in a byte, for each of `n` frames. -/
theorem byte_exact_iff {n k : Nat} (hn : n ≠ 0) : n * (k % 256) = n * k ↔ k < 256 := by
  constructor
  · intro heq
    have hmod := Nat.eq_of_mul_eq_mul_left (Nat.pos_of_ne_zero hn) heq
    omega
  · intro hlt
    rw [Nat.mod_eq_of_lt hlt]

/-- A call keeps the account, and it loses time exactly if a frame does not fit. -/
theorem Since.step (h : Since q m) (hcounter : q.movetimecounter = 0#64)
    (hstep : Movement.step call m = some m') :
    Since q m' ∧ (m'.Conserved q ↔ m.Conserved q ∧ FitsByte call m) := by
  obtain ⟨gs, hgs, hle⟩ := h.frames
  cases call with
  | setFPS fps =>
    obtain rfl := Option.some.inj hstep
    -- a new rate moves no time
    have hkeeps : Keeps (fun q => (q.state, q.movetimecounter, q.trace)) (fun _ => True) m.netqw
        (m.netqw.setFPS fps) := keeps_setFPS _ (fun _ _ => rfl) fps
    have hview := hkeeps.view
    simp only [Prod.mk.injEq] at hview
    obtain ⟨hstate, hcounter', htrace⟩ := hview
    have hgs' : generated (m.netqw.setFPS fps).trace = generated q.trace ++ gs := by
      rw [htrace]
      exact hgs
    refine ⟨⟨hstate.trans h.state, wholePeriod_setFPS h.period fps, hcounter'.trans h.counter, gs,
      hgs', hle⟩, ?_⟩
    rw [conserved_iff hcounter (hcounter'.trans h.counter) hgs', conserved_iff hcounter h.counter hgs]
    exact (and_iff_left trivial).symm
  | generateFrames curtime senttime fuel =>
    obtain ⟨q', hexec, rfl⟩ := Option.map_eq_some_iff.mp hstep
    obtain ⟨hstate, hperiod, hcounter', new, hnew, hsum, hnone⟩ :=
      framesOfCall_of_exec h.state h.counter h.period hexec
    have hgs' : generated q'.trace = generated q.trace ++ (gs ++ new) := by
      rw [hnew, hgs, List.append_assoc]
    -- the period is `k` milliseconds
    obtain ⟨k, hk⟩ : ∃ k, m.netqw.microsecondsperframe.toNat = 1000 * k :=
      ⟨_, (Nat.mul_div_cancel' (Nat.dvd_of_mod_eq_zero h.period.whole)).symm⟩
    have hdiv : m.netqw.microsecondsperframe.toNat / 1000 = k := by omega
    have hbyte : new.length * (k % 256) ≤ new.length * k :=
      Nat.mul_le_mul_left _ (Nat.mod_le k 256)
    have htotal : new.length * (1000 * k) = 1000 * (new.length * k) := Nat.mul_left_comm _ _ _
    rw [hdiv] at hsum
    refine ⟨⟨hstate, ⟨?_, ?_, ?_⟩, hcounter', _, hgs', ?_⟩, ?_⟩
    · rw [hperiod]
      exact h.period.whole
    · rw [hperiod]
      exact h.period.pos
    · rw [hperiod]
      exact h.period.le
    · rw [newFrames_eq hnew, sumMsec_append, hsum, hk, htotal]
      show _ ≤ m.elapsed + _
      omega
    · rw [conserved_iff hcounter hcounter' hgs', conserved_iff hcounter h.counter hgs,
        newFrames_eq hnew, sumMsec_append, hsum, hk, htotal, FitsByte]
      by_cases hdue : m.netqw.Due curtime
      · have hlength : new.length ≠ 0 := fun hzero =>
          hnone.mp (List.length_eq_zero_iff.mp hzero) hdue
        have hexact := byte_exact_iff (k := k) hlength
        have hfits : (m.netqw.Due curtime → m.netqw.microsecondsperframe.toNat ≤ 255000) ↔ k < 256 :=
          ⟨fun hfits => by have := hfits hdue; omega, fun hlt _ => by omega⟩
        rw [hfits, ← hexact]
        show _ = m.elapsed + _ ↔ _
        omega
      · -- no frame was generated
        obtain rfl := hnone.mpr hdue
        refine ⟨fun heq => ⟨?_, fun hdue' => absurd hdue' hdue⟩, fun heq => ?_⟩
        · simpa using heq
        · simpa using heq.1

theorem since (hstate : q.state = .connected) (hperiod : WholePeriod q)
    (hcounter : q.movetimecounter = 0#64) (h : (system q).Reachable m) : Since q m := by
  refine h.invariant ?_ fun call m m' hsince _ hstep => (hsince.step hcounter hstep).1
  rintro m rfl
  exact ⟨hstate, hperiod, hcounter, [], (List.append_nil _).symm, Nat.le_refl 0⟩

/-- No time is lost in a run exactly if all its frames fit. -/
theorem conserved_iff_reaches (hstate : q.state = .connected) (hperiod : WholePeriod q)
    (hcounter : q.movetimecounter = 0#64) (h : (system q).Reachable m) :
    m.Conserved q ↔ (system q).Reaches FitsByte m := by
  constructor
  · intro hconserved
    induction h with
    | init h => exact .init h
    | step hs _ hstep ih =>
      obtain ⟨-, hiff⟩ := (since hstate hperiod hcounter hs).step hcounter hstep
      obtain ⟨hbefore, hfits⟩ := hiff.mp hconserved
      exact .step (ih hbefore) hfits hstep
  · intro hreaches
    refine hreaches.invariant_of (fun m => since hstate hperiod hcounter) ?_ ?_
    · rintro m rfl
      exact (conserved_iff hcounter hcounter (List.append_nil _).symm).mpr rfl
    · intro call m m' hsince hbefore hfits hstep
      exact (hsince.step hcounter hstep).2.mpr ⟨hbefore, hfits⟩

end

end Movement

/-! ## The client between frames -/

/-- The period is whole, and while the client is connected nothing is left in the counter. -/
structure Paced (q : NetQW) : Prop where
  period : WholePeriod q
  counter : q.state = .connected → q.movetimecounter = 0#64

/-- What `Paced` looks at. -/
def NetQW.pace (q : NetQW) : ConnState × BitVec 32 × BitVec 64 :=
  (q.state, q.microsecondsperframe, q.movetimecounter)

/-- From `q` to `q'` the pace stays. -/
abbrev PaceSilent (q q' : NetQW) : Prop := Keeps NetQW.pace (fun _ => True) q q'

section

variable {q q' : NetQW}

theorem Paced.congr (h : Paced q) (hperiod : q'.microsecondsperframe = q.microsecondsperframe)
    (hcounter : q'.state = .connected → q'.movetimecounter = 0#64) : Paced q' := by
  refine ⟨⟨?_, ?_, ?_⟩, hcounter⟩
  · rw [hperiod]
    exact h.period.whole
  · rw [hperiod]
    exact h.period.pos
  · rw [hperiod]
    exact h.period.le

theorem Paced.silent (h : Paced q) (hkeeps : PaceSilent q q') : Paced q' := by
  obtain ⟨hstate, hrest⟩ := Prod.mk.inj hkeeps.view
  obtain ⟨hperiod, hcounter⟩ := Prod.mk.inj hrest
  apply h.congr hperiod
  rw [hstate, hcounter]
  exact h.counter

theorem Paced.generateFrames (h : Paced q) {curtime : BitVec 64} {senttime : Nat → BitVec 64}
    {fuel : Nat} (hexec : (generateFrames curtime senttime fuel).exec q = some q') : Paced q' := by
  by_cases hstate : q.state = .connected
  · have hgenerates := framesOfCall_of_exec hstate (h.counter hstate) h.period hexec
    exact h.congr hgenerates.period fun _ => hgenerates.counter
  · rw [RunM.exec, QwNet.generateFrames, RunM.get_bind, if_pos hstate] at hexec
    obtain rfl := Option.some.inj hexec
    exact h

theorem readsNoReplies_pace : ReadsNoReplies NetQW.pace fun _ => True :=
  ⟨fun _ _ => rfl, fun _ _ _ _ _ _ _ _ => rfl, fun _ _ => trivial⟩

theorem readsNoPackets_pace : ReadsNoPackets NetQW.pace fun _ => True :=
  ⟨fun _ _ => rfl, fun _ _ _ _ _ => rfl, fun _ _ => trivial⟩

theorem readsNoSending_pace : ReadsNoSending NetQW.pace fun _ => True :=
  ⟨fun _ _ => rfl, fun _ _ _ _ => rfl, fun _ => trivial⟩

/-- A datagram changes the pace only when it connects the client, and then the counter is
    cleared. -/
theorem Paced.receive (h : Paced q) (env : SendEnv) (source : NetAddr) (datagram : List Byte) :
    Paced (q.receive env source datagram) := by
  have henter : ∀ q : NetQW, Paced q → Paced (q.enterConnected env.now) := fun q h =>
    h.congr rfl fun _ => rfl
  unfold NetQW.receive
  dsimp only
  split
  · split
    · rename_i hstate
      have hkeeps : Keeps (fun q => (q.microsecondsperframe, q.movetimecounter)) (fun _ => True) q
          (q.receiveChallenge (q.receiveBuf env.stack datagram).1
            (q.receiveBuf env.stack datagram).2) :=
        keeps_receiveChallenge q (fun _ _ _ _ _ _ => rfl) _ _
      -- a challenge does not connect the client
      have hnot : (q.receiveChallenge (q.receiveBuf env.stack datagram).1
          (q.receiveBuf env.stack datagram).2).state ≠ .connected := by
        unfold receiveChallenge
        dsimp only
        split
        · split
          · exact nofun
          · exact hstate.trans_ne nofun
        · exact hstate.trans_ne nofun
      exact h.congr (congrArg Prod.fst hkeeps.view) fun hconnected => absurd hconnected hnot
    · unfold receiveConnection
      split
      · split
        · exact henter _ (h.congr rfl h.counter)
        · exact henter q h
      · exact h
    · exact h.silent (readsNoPackets_pace.receivePacket readsNoReplies_pace _ _ _ _)
  · exact h

end

namespace Client

variable {angle16 : BitVec 32 → BitVec 16} {a : Action} {c c' : Client}

theorem paced_step (hp : Paced c.netqw) (h : step angle16 a c = some c') : Paced c'.netqw := by
  have hsame : ∀ {q q' : NetQW}, q'.pace = q.pace → q'.trace = q.trace → PaceSilent q q' :=
    fun hview htrace => .of_eq hview htrace
  have hlog : ∀ (q : NetQW) e, PaceSilent q (q.log [e]) := fun q e =>
    .log_one (fun _ _ => rfl) trivial
  cases a
  -- the period is whole by its rounding, whatever number of frames is asked for
  case setFPS fps =>
    obtain rfl := Option.some.inj h
    have hkeeps : Keeps (fun q => (q.state, q.movetimecounter)) (fun _ => True) c.netqw
        (c.netqw.setFPS fps) := keeps_setFPS _ (fun _ _ => rfl) fps
    obtain ⟨hstate, hcounter⟩ := Prod.mk.inj hkeeps.view
    refine ⟨wholePeriod_setFPS hp.period fps, fun hconnected => ?_⟩
    exact hcounter.trans (hp.counter (hstate.symm.trans hconnected))
  case generate curtime senttime fuel =>
    obtain ⟨q', hq', rfl⟩ := Option.map_eq_some_iff.mp h
    exact hp.generateFrames hq'
  case netGenerate curtime senttime fuel =>
    obtain ⟨-, q', hq', rfl⟩ := netGenerate_spec h
    exact hp.generateFrames hq'
  case receive env source datagram =>
    obtain ⟨-, rfl⟩ := outside_total (f := NetQW.receive env source datagram) h
    exact hp.receive env source datagram
  -- all other steps keep the pace
  all_goals apply hp.silent
  case append buffer =>
    obtain rfl := Option.some.inj h
    exact ⟨rfl, [.append buffer], rfl, fun _ _ => trivial⟩
  case copyFrames =>
    obtain rfl := Option.some.inj h
    exact keeps_copyFrames _ (fun _ _ => rfl) (fun _ _ => trivial) (fun _ _ _ => trivial)
      fun _ _ _ => rfl
  case freePacket =>
    obtain ⟨q', hq', rfl⟩ := Option.map_eq_some_iff.mp h
    exact readsNoPackets_pace.freePacket hq'
  case clampDelays curtime =>
    obtain ⟨-, rfl⟩ := outside_total (f := NetQW.clampDelays curtime) h
    exact readsNoPackets_pace.clampDelays curtime
  case handleDelayed curtime =>
    obtain ⟨-, q', hq', rfl⟩ := outside_spec h
    exact readsNoPackets_pace.handleDelayed readsNoReplies_pace hq'
  case clampSends | sendDelayed | beginSend => exact (readsNoSending_pace.step rfl h).1
  case endSend =>
    obtain ⟨-, -, rfl⟩ := endSend_spec h
    exact .refl _
  case buildPacket =>
    obtain ⟨-, -, rfl⟩ := buildPacket_spec h
    exact hlog _ _
  case addDelta =>
    obtain ⟨buf, -, rfl⟩ := addDelta_spec h
    exact hlog _ _
  case addTmove =>
    obtain ⟨buf, -, rfl⟩ := addTmove_spec h
    exact hsame rfl rfl
  case addReliables =>
    obtain ⟨buf, -, rfl⟩ := addReliables_spec h
    exact keeps_rememberReliables _ (fun _ _ _ _ => rfl) _
  case submitPacket env =>
    exact readsNoSending_pace.submit (fun _ _ => trivial) (fun _ _ => rfl) h
  case finishPacket =>
    obtain ⟨-, rfl⟩ := finishPacket_spec h
    exact ⟨rfl, [_], rfl, fun _ _ => trivial⟩
  all_goals
    obtain rfl := Option.some.inj h
    exact hsame rfl rfl

theorem paced (h : (system angle16).Reachable c) : Paced c.netqw := by
  have hstep : ∀ a c c', Paced c.netqw → True → step angle16 a c = some c' → Paced c'.netqw :=
    fun a c c' hp _ hstep => paced_step hp hstep
  refine h.invariant ?_ hstep
  rintro c ⟨garbage, qport, userinfo, addr, rfl⟩
  -- `NetQW_Create` asks for 72 frames a second
  have hperiod : ((create garbage qport userinfo).threadInit addr).microsecondsperframe
      = framePeriod 72#32 := rfl
  have hvalue : framePeriod 72#32 = 14000#32 := by decide
  refine ⟨⟨?_, ?_, ?_⟩, nofun⟩
  all_goals
    rw [hperiod, hvalue]
    decide

end Client

/-- In every run of calls from a connected client on, no time is lost exactly if no frame is
    generated while the period is above 255 milliseconds; and a call catches up with the clock
    exactly if the clock can get past it. -/
theorem movement_time_iff (angle16 : BitVec 32 → BitVec 16) {c : Client}
    (h : (Client.system angle16).Reachable c) (hstate : c.netqw.state = .connected) {m : Movement}
    (hm : (Movement.system c.netqw).Reachable m) :
    (m.Conserved c.netqw ↔ (Movement.system c.netqw).Reaches FitsByte m) ∧
    ∀ curtime senttime, m.netqw.lastmovesendtime ≤ curtime →
      (CatchesUp curtime senttime m.netqw ↔ m.netqw.ClockRoom curtime) := by
  obtain ⟨hperiod, hcounter⟩ := Client.paced h
  have hsince := Movement.since hstate hperiod (hcounter hstate) hm
  refine ⟨Movement.conserved_iff_reaches hstate hperiod (hcounter hstate) hm, ?_⟩
  intro curtime senttime hlast
  exact catchesUp_iff hsince.state (Nat.lt_of_lt_of_le (by decide) hsince.period.pos) hlast

/-- Frames are generated, the frame rate changes, and frames are generated again. -/
def movementCalls : List FrameCall :=
  [.generateFrames 30000#64 (fun _ => 0) 3, .setFPS 40#32, .generateFrames 90000#64 (fun _ => 0) 3]

/-- Two frames of 14 milliseconds and two of 25. -/
theorem movement_time_iff_frames : ∃ m,
    (Movement.system Client.freshEstablished.netqw).runOk FitsByte movementCalls
      ⟨Client.freshEstablished.netqw, 0⟩ = some m ∧ m.elapsed = 78000 ∧
    m.Conserved Client.freshEstablished.netqw ∧ CatchesUp 200000#64 (fun _ => 0) m.netqw := by
  have heq : ((Movement.system Client.freshEstablished.netqw).runOk FitsByte movementCalls
      ⟨Client.freshEstablished.netqw, 0⟩).map (fun m =>
        (m.elapsed, m.netqw.lastmovesendtime, m.netqw.microsecondsperframe))
          = some (78000, 78000#64, 25000#32) := by
    decide +kernel
  obtain ⟨m, hrun, hread⟩ := Option.map_eq_some_iff.mp heq
  simp only [Prod.mk.injEq] at hread
  obtain ⟨helapsed, hlast, hperiod⟩ := hread
  have hreaches : (Movement.system Client.freshEstablished.netqw).Reaches FitsByte m :=
    Transitions.Reaches.runOk (.init rfl) hrun
  obtain ⟨hconserved, hcatches⟩ := movement_time_iff (fun _ => 0)
    (Client.freshEstablished_reachable _) rfl hreaches.reachable
  refine ⟨m, hrun, helapsed, hconserved.mpr hreaches, (hcatches _ _ ?_).mpr ?_⟩
  · rw [hlast]
    decide
  · rw [NetQW.ClockRoom, hlast, hperiod]
    apply WrapClock.room_of_lt <;> decide

/-- One frame a second: of a second, 232 milliseconds get into the byte.  And at the last value
    of the clock a call never ends. -/
theorem movement_time_lost : (∃ c m, (Client.system fun _ => 0).Reachable c ∧
      c.netqw.state = .connected ∧ (Movement.system c.netqw).run
        [.setFPS 1#32, .generateFrames 1000000#64 (fun _ => 0) 2] ⟨c.netqw, 0⟩ = some m ∧
      m.elapsed = 1000000 ∧ sumMsec (newFrames c.netqw m.netqw) = 232 ∧ ¬m.Conserved c.netqw) ∧
    ∃ c, (Client.system fun _ => 0).Reachable c ∧ c.netqw.state = .connected ∧
      c.netqw.lastmovesendtime ≤ BitVec.allOnes 64 ∧
      ¬CatchesUp (BitVec.allOnes 64) (fun _ => 0) c.netqw := by
  have hreachable := Client.freshEstablished_reachable fun _ => 0
  constructor
  · -- a period of a second does not fit in the byte: 1000 milliseconds are sent as 232
    have heq : ((Movement.system Client.freshEstablished.netqw).run
        [.setFPS 1#32, .generateFrames 1000000#64 (fun _ => 0) 2]
        ⟨Client.freshEstablished.netqw, 0⟩).map (fun m => (m.elapsed,
          sumMsec (newFrames Client.freshEstablished.netqw m.netqw), m.netqw.movetimecounter,
            Client.freshEstablished.netqw.movetimecounter))
          = some (1000000, 232, 0#64, 0#64) := by
      decide +kernel
    obtain ⟨m, hrun, hread⟩ := Option.map_eq_some_iff.mp heq
    simp only [Prod.mk.injEq] at hread
    obtain ⟨helapsed, hmsec, hcounter, hcounter'⟩ := hread
    refine ⟨_, m, hreachable, rfl, hrun, helapsed, hmsec, fun hconserved => ?_⟩
    rw [Movement.Conserved, helapsed, hmsec, hcounter, hcounter'] at hconserved
    exact absurd hconserved (by decide)
  · -- the clock stands at its end, and no later frame time can be reached
    have hlast : Client.freshEstablished.netqw.lastmovesendtime ≤ BitVec.allOnes 64 := by decide
    have hperiod : 0 < Client.freshEstablished.netqw.microsecondsperframe.toNat := by decide
    refine ⟨_, hreachable, rfl, hlast, fun hcatches => ?_⟩
    obtain ⟨x, hlow, hhigh, -⟩ := (catchesUp_iff rfl hperiod hlast).mp hcatches
    rw [BitVec.toNat_allOnes] at hlow
    omega

end QwNet
