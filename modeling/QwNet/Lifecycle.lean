/-
  QwNet.Lifecycle

  How a connection is made, unmade and quit.

  `struct qw_connection` owns a `NetQW`, the handle of its worker thread and the data of
  the network, and the functions that acquire and release them each clear some of its
  fields only.  A step is one call by the application, one turn of the worker's loop or
  the worker's end; what is done with the three resources is recorded.
-/
import QwNet.Channel.NetQW
import QwNet.Lib.Resource
import QwNet.Lib.Transition

namespace QwNet

open History Resource

/-- `enum qwc_state`. -/
inductive QwcState where
  | idle
  | connecting
  | connected
  deriving DecidableEq

/-- The macro `QWC_IDLE` is 1, which is not `qwc_state_idle`. -/
def qwcIdle : QwcState := .connecting

/-- The macro `QWC_CONNECTING` is 2. -/
def qwcConnecting : QwcState := .connected

/-- The fields of `struct qw_connection` that the three resources rest on.  A `NetQW` and a
    thread are numbered as they are created. -/
structure Lifecycle where
  netqw : Option Nat
  thread : Option Nat
  netdata : Option Nat
  state : QwcState
  runThread : Bool
  quit : Bool
  abort : Bool
  netqws : Nat
  threads : Nat
  /-- The threads that are in `QWC_Thread_Handler`. -/
  workers : List Nat
  netqwOps : List (Op Nat)
  threadOps : List (Op Nat)
  netdataOps : List (Op Nat)
  /-- `qwc->netqw` as each `QWC_Connect` that failed left it. -/
  failed : List (Option Nat)

namespace Lifecycle

/-! ## The functions -/

/-- `QWC_Create`; the `malloc` of `NET_Init` may have failed. -/
def qwcCreate (netdata : Option Nat) : Lifecycle where
  netqw := none
  thread := none
  netdata := netdata
  state := .idle
  runThread := false
  quit := false
  abort := false
  netqws := 0
  threads := 0
  workers := []
  netqwOps := []
  threadOps := []
  netdataOps := netdata.toList.map .acquire
  failed := []

/-- The `NetQW` is accessed. -/
def useNetqw (c : Lifecycle) : Lifecycle := { c with netqwOps := c.netqwOps ++ [.use c.netqw] }

/-- The data of the network is accessed. -/
def useNetdata (c : Lifecycle) : Lifecycle :=
  { c with netdataOps := c.netdataOps ++ [.use c.netdata] }

/-- `qwc->netqw = NetQW_Create(...)`. -/
def netqwCreate (created : Bool) (c : Lifecycle) : Lifecycle :=
  if created then
    { c with
      netqw := some c.netqws
      netqws := c.netqws + 1
      netqwOps := c.netqwOps ++ [.acquire c.netqws] }
  else { c with netqw := none }

/-- `NetQW_Delete(qwc->netqw)`, which leaves the pointer as it is. -/
def netqwDelete (c : Lifecycle) : Lifecycle :=
  { c with netqwOps := c.netqwOps ++ [.release c.netqw] }

/-- `qwc->thread = Sys_Thread_CreateThread(QWC_Thread_Handler, qwc)`. -/
def sysThreadCreateThread (started : Bool) (c : Lifecycle) : Lifecycle :=
  if started then
    { c with
      thread := some c.threads
      threads := c.threads + 1
      workers := c.workers ++ [c.threads]
      threadOps := c.threadOps ++ [.acquire c.threads] }
  else { c with thread := none }

/-- `Sys_Thread_DeleteThread(qwc->thread)`.  The thread that is joined has left its loop;
    with `abort` set, the `QWC_Quit` at its end is a step of its own. -/
def sysThreadDeleteThread (c : Lifecycle) : Lifecycle :=
  { c with
    threadOps := c.threadOps ++ [.release c.thread]
    workers := if c.abort then c.workers else c.workers.filter fun w => some w ≠ c.thread }

/-- `NET_Shutdown`.  `Sys_Error` sets `abort` and returns. -/
def netShutdown (c : Lifecycle) : Lifecycle :=
  let c := if c.netdata = none then { c with abort := true } else c
  let c := c.useNetdata
  { c with
    netdata := none
    netdataOps := c.netdataOps ++ [.release c.netdata] }

/-- `QWC_Disconnect`. -/
def qwcDisconnect (c : Lifecycle) : Lifecycle :=
  let c := { c.netqwDelete with
    netqw := none
    state := .idle
    runThread := false }
  { c.sysThreadDeleteThread with thread := none }

/-- `QWC_Destroy`, which begins with `NET_Shutdown`; the strings it frees are not modelled. -/
def qwcDestroy (c : Lifecycle) : Lifecycle := c.netShutdown

/-- `QWC_Quit`. -/
def qwcQuit (c : Lifecycle) : Lifecycle :=
  let c := if c.netqw.isSome then c.qwcDisconnect else c
  { c with
    quit := true
    runThread := false }.qwcDestroy

/-- `QWC_Connect` returns without a connection. -/
def noteFailed (c : Lifecycle) : Lifecycle := { c with failed := c.failed ++ [c.netqw] }

/-- The worker thread is started. -/
def startThread (started : Bool) (c : Lifecycle) : Lifecycle :=
  { c with
    state := qwcConnecting
    runThread := true }.sysThreadCreateThread started

/-- `QWC_Connect` for a host. -/
def qwcConnect (created started : Bool) (c : Lifecycle) : Lifecycle :=
  let c := c.netqwCreate created
  if c.netqw.isSome then
    let c := c.startThread started
    if c.thread = none then
      { c.netqwDelete with state := qwcIdle }.noteFailed
    else c
  else c.noteFailed

/-- `ReadPackets`, as far as it goes to the network and to the `NetQW`. -/
def readPackets (c : Lifecycle) : Lifecycle := c.useNetdata.useNetqw

/-- A turn of the loop of `QWC_Thread_Handler`; `st` is what `NetQW_GetState` returns. -/
def threadTurn (st : ConnState) (c : Lifecycle) : Lifecycle :=
  if c.netqw.isSome && !c.quit then
    let c := c.useNetqw
    if st ≠ .uninitialised then { c.readPackets with state := .connected }
    else
      -- asked again: is it at least `state_sendchallenge`, and at most `state_sendconnection`?
      let c := c.useNetqw
      if st = .sendchallenge ∨ st = .sendconnection then { c with state := .connecting } else c
  else { c with state := .idle }

/-- `QWC_Thread_Handler` behind its loop. -/
def threadEnd (c : Lifecycle) : Lifecycle := if c.abort then c.qwcQuit else c

/-! What `QWC_Connect` does as its two creations succeed or fail. -/

section

variable (c : Lifecycle)

theorem qwcConnect_not_created (started : Bool) :
    c.qwcConnect false started = (c.netqwCreate false).noteFailed := rfl

theorem qwcConnect_not_started :
    c.qwcConnect true false = { ((c.netqwCreate true).startThread false).netqwDelete with
      state := qwcIdle }.noteFailed := rfl

theorem qwcConnect_started :
    c.qwcConnect true true = (c.netqwCreate true).startThread true := rfl

end

end Lifecycle

/-! ## Steps -/

/-- What the application and the workers do, and what the system decides. -/
inductive LifecycleAction where
  | connect (created started : Bool)
  | disconnect
  | quit
  | turn (worker : Nat) (st : ConnState)
  | leave (worker : Nat)
  /-- `qwc->abort = 1`, by `Sys_Error` or by the parser. -/
  | abort

namespace Lifecycle

/-- What an action does; `none` where it is not taken. -/
def step (a : LifecycleAction) (c : Lifecycle) : Option Lifecycle :=
  match a with
  | .connect created started => some (c.qwcConnect created started)
  | .disconnect => if c.netqw.isSome then some c.qwcDisconnect else none
  | .quit => some c.qwcQuit
  | .turn w st =>
    if w ∈ c.workers ∧ c.runThread = true ∧ c.abort = false then some (c.threadTurn st) else none
  | .leave w =>
    if w ∈ c.workers ∧ ¬(c.runThread = true ∧ c.abort = false) then
      some { c with workers := c.workers.erase w }.threadEnd
    else none
  | .abort => some { c with abort := true }

/-- A connection from `QWC_Create` on. -/
def system : Transitions Lifecycle LifecycleAction where
  Init c := ∃ netdata, c = qwcCreate netdata
  step := step

end Lifecycle

/-! ## What is recorded -/

/-- An access comes before every `NET_Shutdown`. -/
def BeforeShutdown (past : List (Op Nat)) (op : Op Nat) : Prop :=
  (∃ r, op = .use r) → ∀ r, .release r ∉ past

/-- The three resources were released properly. -/
structure ReleasedOnce (c : Lifecycle) : Prop where
  /-- No `NetQW` went to `NetQW_Delete` twice, and none was used after it. -/
  netqw : Safe c.netqwOps
  /-- `Sys_Thread_DeleteThread` was given threads that had been created and not been joined. -/
  thread : Safe c.threadOps
  /-- The data of the network was not accessed after `NET_Shutdown`. -/
  netdata : AtEvery BeforeShutdown c.netdataOps
  /-- No `QWC_Connect` that failed left a `NetQW`. -/
  failed : ∀ p ∈ c.failed, p = none

/-- What was recorded stays, and more is recorded. -/
structure Records (c c' : Lifecycle) : Prop where
  netqw : c.netqwOps <+: c'.netqwOps
  thread : c.threadOps <+: c'.threadOps
  netdata : c.netdataOps <+: c'.netdataOps
  failed : c.failed <+: c'.failed

namespace Records

variable {c c₁ c₂ : Lifecycle}

theorem refl (c : Lifecycle) : Records c c :=
  ⟨List.prefix_refl _, List.prefix_refl _, List.prefix_refl _, List.prefix_refl _⟩

theorem useNetqw (h : Records c c₁) : Records c c₁.useNetqw :=
  { h with netqw := h.netqw.trans (List.prefix_append ..) }

theorem useNetdata (h : Records c c₁) : Records c c₁.useNetdata :=
  { h with netdata := h.netdata.trans (List.prefix_append ..) }

theorem noteFailed (h : Records c c₁) : Records c c₁.noteFailed :=
  { h with failed := h.failed.trans (List.prefix_append ..) }

theorem netqwDelete (h : Records c c₁) : Records c c₁.netqwDelete :=
  { h with netqw := h.netqw.trans (List.prefix_append ..) }

theorem netqwCreate (h : Records c c₁) (created : Bool) : Records c (c₁.netqwCreate created) := by
  cases created with
  | true => exact { h with netqw := h.netqw.trans (List.prefix_append ..) }
  | false => exact { h with }

theorem startThread (h : Records c c₁) (started : Bool) :
    Records c (c₁.startThread started) := by
  cases started with
  | true => exact { h with thread := h.thread.trans (List.prefix_append ..) }
  | false => exact { h with }

theorem netShutdown (h : Records c c₁) : Records c c₁.netShutdown := by
  unfold Lifecycle.netShutdown
  split
  all_goals
    refine { h with netdata := h.netdata.trans ?_ }
    exact (List.prefix_append _ [_]).trans (List.prefix_append _ [_])

theorem qwcDisconnect (h : Records c c₁) : Records c c₁.qwcDisconnect :=
  { h with
    netqw := h.netqw.trans (List.prefix_append ..)
    thread := h.thread.trans (List.prefix_append ..) }

theorem qwcQuit (h : Records c c₁) : Records c c₁.qwcQuit := by
  unfold Lifecycle.qwcQuit
  apply netShutdown
  split
  · exact { h.qwcDisconnect with }
  · exact { h with }

theorem qwcConnect (h : Records c c₁) (created started : Bool) :
    Records c (c₁.qwcConnect created started) := by
  -- without a `NetQW` nothing is held; with one its thread has to start too
  cases created with
  | false =>
    rw [Lifecycle.qwcConnect_not_created]
    exact (h.netqwCreate false).noteFailed
  | true =>
    have hstart := (h.netqwCreate true).startThread started
    cases started with
    | true => exact hstart
    | false =>
      rw [Lifecycle.qwcConnect_not_started]
      apply noteFailed
      exact { hstart.netqwDelete with }

theorem threadTurn (h : Records c c₁) (st : ConnState) : Records c (c₁.threadTurn st) := by
  unfold Lifecycle.threadTurn
  split
  · split
    · exact { h.useNetqw.useNetdata.useNetqw with }
    · split
      · exact { h.useNetqw.useNetqw with }
      · exact h.useNetqw.useNetqw
  · exact { h with }

theorem threadEnd (h : Records c c₁) : Records c c₁.threadEnd := by
  unfold Lifecycle.threadEnd
  split
  · exact h.qwcQuit
  · exact h

end Records

/-- No step takes back what was recorded. -/
theorem Lifecycle.step_records {a : LifecycleAction} {c c' : Lifecycle}
    (h : Lifecycle.step a c = some c') : Records c c' := by
  have hself := Records.refl c
  -- no call takes back what another has recorded
  cases a with
  | connect created started =>
    obtain rfl := Option.some.inj h
    exact hself.qwcConnect created started
  | disconnect =>
    obtain ⟨-, h⟩ := Option.ite_none_right_eq_some.mp h
    obtain rfl := Option.some.inj h
    exact hself.qwcDisconnect
  | quit =>
    obtain rfl := Option.some.inj h
    exact hself.qwcQuit
  | turn w st =>
    obtain ⟨-, h⟩ := Option.ite_none_right_eq_some.mp h
    obtain rfl := Option.some.inj h
    exact hself.threadTurn st
  | leave w =>
    obtain ⟨-, h⟩ := Option.ite_none_right_eq_some.mp h
    obtain rfl := Option.some.inj h
    exact Records.threadEnd { hself with }
  | abort =>
    obtain rfl := Option.some.inj h
    exact { hself with }

/-- What was released wrongly stays so. -/
theorem ReleasedOnce.of_records {c c' : Lifecycle} (h : ReleasedOnce c') (hrec : Records c c') :
    ReleasedOnce c where
  netqw pre op hpre := h.netqw pre op (hpre.trans hrec.netqw)
  thread pre op hpre := h.thread pre op (hpre.trans hrec.thread)
  netdata pre op hpre := h.netdata pre op (hpre.trans hrec.netdata)
  failed p hp := h.failed p (hrec.failed.subset hp)

/-! ## Orderly runs -/

/-- What the connection refers to is held, and what is recorded was proper. -/
structure Owned (c : Lifecycle) : Prop where
  netqws : Account c.netqwOps (Held c.netqwOps) c.netqws
  netqw : ∀ r, c.netqw = some r → Held c.netqwOps r
  threads : Account c.threadOps (Held c.threadOps) c.threads
  thread : ∀ r, c.thread = some r → Held c.threadOps r
  started : c.netqw.isSome = true → c.thread.isSome = true
  netdata : AtEvery BeforeShutdown c.netdataOps
  shutdown : c.quit = true ↔ ∃ r, .release r ∈ c.netdataOps
  failed : ∀ p ∈ c.failed, p = none

namespace Owned

variable {c : Lifecycle}

theorem releasedOnce (h : Owned c) : ReleasedOnce c :=
  ⟨h.netqws.safe, h.threads.safe, h.netdata, h.failed⟩

theorem qwcCreate (netdata : Option Nat) : Owned (.qwcCreate netdata) where
  netqws := account_nil.self
  netqw := nofun
  threads := account_nil.self
  thread := nofun
  started := nofun
  netdata := by
    cases netdata with
    | none => exact atEvery_nil _
    | some r => exact (atEvery_nil _).concat fun ⟨_, hop⟩ => (nomatch hop)
  shutdown := by
    refine iff_of_false nofun ?_
    rintro ⟨r, hr⟩
    obtain ⟨x, -, hx⟩ := List.mem_map.mp hr
    exact nomatch hx
  failed := nofun

/-- A `NetQW` that the connection has is accessed. -/
theorem useNetqw (h : Owned c) (hnetqw : c.netqw.isSome = true) : Owned c.useNetqw := by
  obtain ⟨r, hr⟩ := Option.isSome_iff_exists.mp hnetqw
  have huse : Account (c.netqwOps ++ [.use c.netqw]) (Held c.netqwOps) c.netqws := by
    rw [hr]
    exact h.netqws.use (h.netqw r hr)
  exact { h with
    netqws := huse.self
    netqw := fun x hx => (huse.held x).mpr (h.netqw x hx) }

theorem not_released (h : Owned c) (hquit : c.quit = false) (r : Option Nat) :
    .release r ∉ c.netdataOps := by
  intro hr
  rw [h.shutdown.mpr ⟨r, hr⟩] at hquit
  exact nomatch hquit

/-- The data of the network is accessed before it is shut down. -/
theorem useNetdata (h : Owned c) (hquit : c.quit = false) : Owned c.useNetdata := by
  refine { h with netdata := h.netdata.concat fun _ => h.not_released hquit, shutdown := ?_ }
  rw [Lifecycle.useNetdata]
  simp only [List.mem_append, List.mem_singleton, reduceCtorEq, or_false]
  exact h.shutdown

theorem noteFailed (h : Owned c) (hnetqw : c.netqw = none) : Owned c.noteFailed := by
  refine { h with failed := fun p hp => ?_ }
  rcases List.mem_append.mp hp with hp | hp
  · exact h.failed p hp
  · rw [List.mem_singleton.mp hp, hnetqw]

theorem qwcDisconnect (h : Owned c) (hnetqw : c.netqw.isSome = true) : Owned c.qwcDisconnect := by
  obtain ⟨r, hr⟩ := Option.isSome_iff_exists.mp hnetqw
  obtain ⟨t, ht⟩ := Option.isSome_iff_exists.mp (h.started hnetqw)
  have hdelete := (h.netqws.release (h.netqw r hr)).self
  have hjoin := (h.threads.release (h.thread t ht)).self
  rw [← hr] at hdelete
  rw [← ht] at hjoin
  exact { h with
    netqws := hdelete
    netqw := nofun
    threads := hjoin
    thread := nofun
    started := nofun }

/-- The first `QWC_Quit`. -/
theorem qwcQuit (h : Owned c) (hquit : c.quit = false) : Owned c.qwcQuit := by
  have hshut : ∀ {c₁ : Lifecycle}, Owned c₁ → c₁.quit = false → Owned { c₁ with
      quit := true
      runThread := false }.netShutdown := by
    intro c₁ h₁ hquit₁
    have haccess := (h₁.useNetdata hquit₁).netdata
    have hfree : AtEvery BeforeShutdown (c₁.netdataOps ++ [.use c₁.netdata] ++
        [.release c₁.netdata]) := haccess.concat fun ⟨_, hop⟩ => (nomatch hop)
    have hdown : true = true ↔ ∃ r, .release r ∈ c₁.netdataOps ++ [.use c₁.netdata] ++
        [.release c₁.netdata] :=
      iff_of_true rfl ⟨_, List.mem_append_right _ (List.mem_singleton.mpr rfl)⟩
    unfold Lifecycle.netShutdown
    split
    all_goals exact { h₁ with netdata := hfree, shutdown := hdown }
  unfold Lifecycle.qwcQuit
  split
  · rename_i hnetqw
    exact hshut (h.qwcDisconnect hnetqw) hquit
  · exact hshut h hquit

/-- A `QWC_Connect` whose thread starts, if it gets that far. -/
theorem qwcConnect (h : Owned c) {created started : Bool}
    (hstarted : ¬(created = true ∧ started = false)) : Owned (c.qwcConnect created started) := by
  cases created with
  | false =>
    rw [Lifecycle.qwcConnect_not_created]
    apply noteFailed _ rfl
    exact { h with netqw := nofun, started := nofun }
  | true =>
    cases started with
    | false => exact absurd ⟨rfl, rfl⟩ hstarted
    | true =>
      rw [Lifecycle.qwcConnect_started]
      have hnetqw := h.netqws.acquire
      have hthread := h.threads.acquire
      refine { h with
        netqws := hnetqw.self
        netqw := fun r hr => ?_
        threads := hthread.self
        thread := fun t ht => ?_
        started := fun _ => rfl }
      · exact (hnetqw.held r).mpr (.inr (Option.some.inj hr).symm)
      · exact (hthread.held t).mpr (.inr (Option.some.inj ht).symm)

theorem threadTurn (h : Owned c) (st : ConnState) : Owned (c.threadTurn st) := by
  unfold Lifecycle.threadTurn
  split
  · rename_i hgo
    obtain ⟨hnetqw, hquit⟩ := Bool.and_eq_true_iff.mp hgo
    have hopen : c.quit = false := Bool.not_eq_true' c.quit |>.mp hquit
    have hasked := h.useNetqw hnetqw
    split
    · exact { (hasked.useNetdata hopen).useNetqw hnetqw with }
    · split
      · exact { hasked.useNetqw hnetqw with }
      · exact hasked.useNetqw hnetqw
  · exact { h with }

end Owned

namespace LifecycleAction

/-- The action calls `QWC_Quit`. -/
def quits (a : LifecycleAction) (c : Lifecycle) : Bool :=
  match a with
  | .quit => true
  | .leave _ => c.abort
  | _ => false

/-- The action is a `QWC_Connect` that gets a `NetQW` and no thread. -/
def failsToStart : LifecycleAction → Bool
  | .connect created started => created && !started
  | _ => false

end LifecycleAction

/-- Threads start, and `QWC_Quit` is called only on a connection that was not quit. -/
def Orderly (a : LifecycleAction) (c : Lifecycle) : Prop :=
  a.failsToStart = false ∧ (a.quits c = true → c.quit = false)

instance (a : LifecycleAction) (c : Lifecycle) : Decidable (Orderly a c) :=
  inferInstanceAs (Decidable (_ ∧ _))

theorem Owned.step {a : LifecycleAction} {c c' : Lifecycle} (h : Owned c) (hok : Orderly a c)
    (hstep : Lifecycle.step a c = some c') : Owned c' := by
  obtain ⟨hstarts, hquits⟩ := hok
  -- the condition is asked for where the calls need it: at connecting and at quitting
  cases a with
  | connect created started =>
    obtain rfl := Option.some.inj hstep
    apply h.qwcConnect
    rintro ⟨rfl, rfl⟩
    exact nomatch hstarts
  | disconnect =>
    obtain ⟨hnetqw, hstep⟩ := Option.ite_none_right_eq_some.mp hstep
    obtain rfl := Option.some.inj hstep
    exact h.qwcDisconnect hnetqw
  | quit =>
    obtain rfl := Option.some.inj hstep
    exact h.qwcQuit (hquits rfl)
  | turn w st =>
    obtain ⟨-, hstep⟩ := Option.ite_none_right_eq_some.mp hstep
    obtain rfl := Option.some.inj hstep
    exact h.threadTurn st
  | leave w =>
    obtain ⟨-, hstep⟩ := Option.ite_none_right_eq_some.mp hstep
    obtain rfl := Option.some.inj hstep
    -- the worker that leaves last quits on the caller's behalf
    have hleft : Owned { c with workers := c.workers.erase w } := { h with }
    unfold Lifecycle.threadEnd
    split
    · rename_i habort
      exact hleft.qwcQuit (hquits habort)
    · exact hleft
  | abort =>
    obtain rfl := Option.some.inj hstep
    exact { h with }

/-- Every `QWC_Quit` goes to the data of the network and frees it. -/
theorem Lifecycle.netdataOps_qwcQuit (c : Lifecycle) :
    c.qwcQuit.netdataOps = c.netdataOps ++ [.use c.netdata] ++ [.release c.netdata] := by
  have hshut : ∀ c₁ : Lifecycle,
      c₁.netShutdown.netdataOps = c₁.netdataOps ++ [.use c₁.netdata] ++ [.release c₁.netdata] := by
    intro c₁
    unfold Lifecycle.netShutdown
    split
    all_goals rfl
  unfold Lifecycle.qwcQuit
  split
  all_goals exact hshut _

theorem not_releasedOnce_qwcQuit {c : Lifecycle} (h : Owned c) (hquit : c.quit = true) :
    ¬ReleasedOnce c.qwcQuit := by
  intro honce
  obtain ⟨r, hr⟩ := h.shutdown.mp hquit
  have hops : c.netdataOps ++ [.use c.netdata] <+: c.qwcQuit.netdataOps := by
    rw [c.netdataOps_qwcQuit]
    exact List.prefix_append _ _
  exact honce.netdata _ _ hops ⟨_, rfl⟩ r hr

/-- A step that is not orderly spoils what is recorded. -/
theorem Owned.spoiled {a : LifecycleAction} {c c' : Lifecycle} (h : Owned c) (hbad : ¬Orderly a c)
    (hstep : Lifecycle.step a c = some c') : ¬ReleasedOnce c' := by
  have hcases : a.failsToStart = true ∨ a.quits c = true ∧ c.quit = true := by
    simpa only [Orderly, not_and_or, Bool.not_eq_false, Classical.not_imp] using hbad
  rcases hcases with hfails | ⟨hquits, hquit⟩
  · -- the `NetQW` was deleted, and `qwc->netqw` still points to it
    intro honce
    cases a with
    | connect created started =>
      obtain ⟨rfl, hstarted⟩ := Bool.and_eq_true_iff.mp hfails
      obtain rfl := Bool.not_eq_true' started |>.mp hstarted
      obtain rfl := Option.some.inj hstep
      exact nomatch honce.failed _ (List.mem_append_right _ (List.mem_singleton.mpr rfl))
    | _ => exact nomatch hfails
  · cases a with
    | quit =>
      obtain rfl := Option.some.inj hstep
      exact not_releasedOnce_qwcQuit h hquit
    | leave w =>
      obtain ⟨-, hstep⟩ := Option.ite_none_right_eq_some.mp hstep
      obtain rfl := Option.some.inj hstep
      -- the second quit comes from the thread that sees the abort
      have hleft : Owned { c with workers := c.workers.erase w } := { h with }
      have hend : { c with workers := c.workers.erase w }.threadEnd
          = { c with workers := c.workers.erase w }.qwcQuit := if_pos hquits
      rw [hend]
      exact not_releasedOnce_qwcQuit hleft hquit
    | _ => exact nomatch hquits

/-- What a connection owns is released properly in exactly the runs in which every thread
    starts and `QWC_Quit` is called once at most. -/
theorem released_once_iff (netdata : Option Nat) (as : List LifecycleAction) (c : Lifecycle)
    (h : Lifecycle.system.run as (.qwcCreate netdata) = some c) :
    ReleasedOnce c ↔ Lifecycle.system.runOk Orderly as (.qwcCreate netdata) = some c := by
  have hstep : ∀ a c c', Owned c → Orderly a c → Lifecycle.system.step a c = some c' → Owned c' :=
    fun _ _ _ howned hok hstep => howned.step hok hstep
  have hbad : ∀ a c c', Owned c → ¬Orderly a c → Lifecycle.system.step a c = some c' →
      ¬ReleasedOnce c' := fun _ _ _ howned hbad hstep => howned.spoiled hbad hstep
  have hkeep : ∀ a c c', Lifecycle.system.step a c = some c' → ReleasedOnce c' →
      ReleasedOnce c := fun _ _ _ hstep honce => honce.of_records (Lifecycle.step_records hstep)
  apply Transitions.run_iff_runOk (fun _ => Owned.releasedOnce) hstep hbad hkeep _ h
  exact Owned.qwcCreate netdata

/-- Connected, disconnected, connected again and quit. -/
def Lifecycle.reconnect : List LifecycleAction :=
  [.connect true true, .turn 0 .connected, .disconnect, .connect true true, .turn 1 .sendchallenge,
    .quit]

theorem released_once_iff_reconnect : ∃ c,
    Lifecycle.system.run Lifecycle.reconnect (.qwcCreate (some 0)) = some c ∧ c.quit = true ∧
      ReleasedOnce c :=
  ⟨_, rfl, rfl, (released_once_iff (some 0) Lifecycle.reconnect _ rfl).mpr rfl⟩

/-- When no thread could be started, the `NetQW` that was deleted is deleted again with the
    connection, and a thread is joined that does not exist; a second `QWC_Quit` goes to the
    data of the network that the first one freed. -/
theorem not_released_once :
    (∃ c, Lifecycle.system.run [.connect true false, .disconnect] (.qwcCreate (some 0)) = some c ∧
      c.netqwOps.count (.release (some 0)) = 2 ∧ .release none ∈ c.threadOps ∧
      c.failed = [some 0] ∧ ¬ReleasedOnce c) ∧
    ∃ c, Lifecycle.system.run [.quit, .quit] (.qwcCreate (some 0)) = some c ∧
      c.netdataOps = [.acquire 0, .use (some 0), .release (some 0), .use none, .release none] ∧
      ¬ReleasedOnce c := by
  refine ⟨⟨_, rfl, by decide, List.mem_singleton.mpr rfl, rfl, fun honce => ?_⟩,
    ⟨_, rfl, rfl, fun honce => ?_⟩⟩
  · exact nomatch honce.failed (some 0) (List.mem_singleton.mpr rfl)
  · have hpast : [Op.acquire 0, .use (some 0), .release (some 0)] ++ [.use none] <+:
        [.acquire 0, .use (some 0), .release (some 0)] ++ [.use none] ++ [.release none] :=
      List.prefix_append ..
    exact honce.netdata _ _ hpast ⟨none, rfl⟩ (some 0) (by decide)

end QwNet
