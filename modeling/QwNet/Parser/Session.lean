/-
  QwNet.Parser.Session

  A connection over many messages.

  `ReadPackets` takes one message after the other and gives it to `ParseServerMessage`,
  whose loop makes one pass for every command.  A step begins a message or makes a
  pass.
-/
import QwNet.Lib.Transition
import QwNet.Parser.Switch

namespace QwNet

open RunM

/-- The connection, and the message that `ParseServerMessage` is in. -/
structure Session where
  conn : QwConnection
  reading : Option Message

/-- A step. -/
inductive SessionAction where
  /-- `Get_Message` returns `msg`, with the frames that were copied since. -/
  | receive (msg : Message) (frames : Nat → Frame) (outgoingSequence : BitVec 32)
  /-- One pass of the command loop. -/
  | pass (fuel : Nat)

/-- `MSG_BeginReading`. -/
def QwConnection.beginReading (q : QwConnection) : QwConnection :=
  { q with msgReadcount := 0, msgBadread := false }

/-- What `NetQW_CopyFrames` writes to. -/
def QwConnection.copyFrames (frames : Nat → Frame) (outgoingSequence : BitVec 32)
    (q : QwConnection) : QwConnection :=
  { q with frames := frames, netchan := { q.netchan with outgoingSequence := outgoingSequence } }

/-- `ReadPackets` in front of `ParseServerMessage`. -/
def readSequences (msg : Message) : Parser Unit := do
  RunM.modify QwConnection.beginReading
  let sequence ← msgReadLong msg
  RunM.modify fun q =>
    { q with netchan := { q.netchan with incomingSequence := sequence &&& 0x7fffffff#32 } }
  let acknowledged ← msgReadLong msg
  RunM.modify fun q =>
    { q with netchan := { q.netchan with incomingAcknowledged := acknowledged &&& 0x7fffffff#32 } }

/-- The message is neither connectionless nor a runt. -/
def Message.InBand (msg : Message) : Prop :=
  8 ≤ msg.cursize ∧ msg.data 3 ++ msg.data 2 ++ msg.data 1 ++ msg.data 0 ≠ -1#32

instance (msg : Message) : Decidable msg.InBand := inferInstanceAs (Decidable (_ ∧ _))

/-- The next message, up to the command loop. -/
def Session.receive (msg : Message) (frames : Nat → Frame) (outgoingSequence : BitVec 32)
    (s : Session) : Option Session :=
  match s.reading with
  | none =>
    if msg.InBand then
      some ⟨((readSequences msg) (s.conn.copyFrames frames outgoingSequence)).2.entered, some msg⟩
    else none
  | some _ => none

/-- The next command of the message, or its end. -/
def Session.pass (env : Env) (fuel : Nat) (s : Session) : Option Session :=
  match s.reading with
  | none => none
  | some msg =>
    match serverMessagePass msg env fuel s.conn with
    | (some none, q) => some ⟨q, some msg⟩
    | (some (some ()), q) => some ⟨q, none⟩
    | (none, _) => none

/-- What an action does; `none` if it is not enabled or never returns. -/
def Session.step (env : Env) (a : SessionAction) (s : Session) : Option Session :=
  match a with
  | .receive msg frames outgoingSequence => s.receive msg frames outgoingSequence
  | .pass fuel => s.pass env fuel

/-- The connection after `QWC_Create`, as a system. -/
def session (env : Env) : Transitions Session SessionAction where
  Init s := s = ⟨.fresh, none⟩
  step := Session.step env

theorem Session.receive_spec {msg : Message} {frames : Nat → Frame} {outgoing : BitVec 32}
    {s s' : Session} (h : s.receive msg frames outgoing = some s') :
    s' = ⟨((readSequences msg) (s.conn.copyFrames frames outgoing)).2.entered, some msg⟩ := by
  unfold Session.receive at h
  split at h
  · split at h
    · exact (Option.some.inj h).symm
    · exact nomatch h
  · exact nomatch h

theorem Session.pass_spec {env : Env} {fuel : Nat} {s s' : Session}
    (h : s.pass env fuel = some s') : ∃ msg r, s.reading = some msg ∧
      serverMessagePass msg env fuel s.conn = (some r, s'.conn) ∧
        s'.reading = if r = none then some msg else none := by
  unfold Session.pass at h
  split at h
  · exact nomatch h
  · rename_i msg hreading
    split at h
    · rename_i q hpass
      obtain rfl := Option.some.inj h
      exact ⟨msg, none, hreading, hpass, rfl⟩
    · rename_i q hpass
      obtain rfl := Option.some.inj h
      exact ⟨msg, some (), hreading, hpass, rfl⟩
    · exact nomatch h

/-- `ParseServerMessage` is a run of passes. -/
theorem session_parses {msg : Message} {env : Env} {fuel : Nat} {q q' : QwConnection}
    (h : parseServerMessage msg env fuel q = (some (), q')) :
    ∃ n, (session env).run (List.replicate n (.pass fuel)) ⟨q.entered, some msg⟩
      = some ⟨q', none⟩ := by
  rw [parseServerMessage_eq] at h
  -- Of the two uses of the fuel only the number of passes goes down
  have key : ∀ k q, RunM.loop (serverMessagePass msg env fuel) k q = (some (), q') →
      ∃ n, (session env).run (List.replicate n (.pass fuel)) ⟨q, some msg⟩ = some ⟨q', none⟩ := by
    intro k
    induction k with
    | zero => exact fun q h => nomatch (Prod.mk.inj h).1
    | succ k ih =>
      intro q h
      obtain ⟨r, q₁, hpass, hrest⟩ := bind_eq_some h
      cases r with
      | some r =>
        have hstep : (session env).step (.pass fuel) ⟨q, some msg⟩ = some ⟨q₁, none⟩ := by
          show Session.pass env fuel ⟨q, some msg⟩ = _
          rw [Session.pass]
          dsimp only
          rw [hpass]
        obtain rfl := (Prod.mk.inj hrest).2
        exact ⟨1, Transitions.run_cons.mpr ⟨_, hstep, rfl⟩⟩
      | none =>
        obtain ⟨n, hrun⟩ := ih q₁ hrest
        have hstep : (session env).step (.pass fuel) ⟨q, some msg⟩ = some ⟨q₁, some msg⟩ := by
          show Session.pass env fuel ⟨q, some msg⟩ = _
          rw [Session.pass]
          dsimp only
          rw [hpass]
        exact ⟨n + 1, Transitions.run_cons.mpr ⟨_, hstep, hrun⟩⟩
  exact key fuel q.entered h

end QwNet
