/-
  QwNet.Parser.Bounds

  When `ParseServerMessage` stays inside its message.

  Three arms can leave it: `MSG_ReadFloat` does not look at `cursize`, and
  `ParseDownload` hands on and skips as many bytes as the message says.  A cursor
  that was moved past the end without a short read makes the loop `break` as if the
  message had been consumed.
-/
import QwNet.Parser.Unchecked

namespace QwNet

open RunM

/-! ## What keeps an arm inside -/

/-- The cursor is inside the message, or the loop will be left with `abort` set. -/
def Sound (msg : Message) (aborted : Prop) (q : QwConnection) : Prop :=
  q.msgBadread = true ∨ q.msgReadcount.toNat ≤ msg.cursize ∨
    aborted ∧ ¬msg.Fits q.msgReadcount 1

section Arms

variable {msg : Message} {aborted : Prop} {q : QwConnection}

end Arms

/-! ## Passes of the command loop -/

section Passes

variable {msg : Message} {aborted : Prop} {q : QwConnection}

theorem Sound.mono {aborted' : Prop} (h : Sound msg aborted q) (himp : aborted → aborted') :
    Sound msg aborted' q := by
  rcases h with h | h | ⟨ha, h⟩
  · exact .inl h
  · exact .inr (.inl h)
  · exact .inr (.inr ⟨himp ha, h⟩)

/-- A sound connection in front of a byte has its cursor inside the message. -/
theorem Sound.inside (h : Sound msg aborted q) (hbad : q.msgBadread = false)
    (hfit : msg.Fits q.msgReadcount 1) : q.msgReadcount.toNat + 1 ≤ msg.cursize := by
  rcases h with h | h | ⟨-, h⟩
  · rw [hbad] at h
    exact absurd h Bool.false_ne_true
  · exact (Message.fits_iff h (by omega)).mp hfit
  · exact absurd hfit h

end Passes

/-! ## Whole messages -/

section Runs

variable {msg : Message} {env : Env} {q : QwConnection}

end Runs

end QwNet
