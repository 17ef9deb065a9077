/-
  QwNet.Parser.Effects

  What parsing leaves alone.

  A view is what an argument looks at: some fields of the connection, or some part of
  its trace.  Code leaves a view alone if every run of it, ended or not, does.
-/
import QwNet.Parser.ServerMessage

namespace QwNet

open RunM

variable {τ α β : Type} {V : QwConnection → τ}

/-- Every run of `m` leaves the view `V` alone. -/
def Leaves (V : QwConnection → τ) (m : Parser α) : Prop := Steps (fun q q' => V q' = V q) m

namespace Leaves

theorem pure (a : α) : Leaves V (Pure.pure a : Parser α) := fun _ => rfl

theorem modify {f : QwConnection → QwConnection} (h : ∀ q, V (f q) = V q) :
    Leaves V (RunM.modify f) := h

theorem bind {m : Parser α} {f : α → Parser β} (hm : Leaves V m) (hf : ∀ a, Leaves V (f a)) :
    Leaves V (m >>= f) := by
  refine steps_bind (R := fun q q' => V q' = V q) (fun _ _ _ h₁ h₂ => ?_) hm hf
  exact h₂.trans h₁

theorem seq {m : Parser α} {m' : Parser β} (hm : Leaves V m) (hm' : Leaves V m') :
    Leaves V (m >>= fun _ => m') := hm.bind fun _ => hm'

theorem get_bind {f : QwConnection → Parser β} (hf : ∀ q, Leaves V (f q)) :
    Leaves V (RunM.get >>= f) := fun q => hf q q

theorem ite {p : Prop} [Decidable p] {m₁ m₂ : Parser α} (h₁ : Leaves V m₁) (h₂ : Leaves V m₂) :
    Leaves V (if p then m₁ else m₂) := steps_ite h₁ h₂

theorem loop {body : Parser (Option β)} (hb : Leaves V body) (fuel : Nat) :
    Leaves V (RunM.loop body fuel) := by
  refine steps_loop (R := fun q q' => V q' = V q) (fun _ => rfl) (fun _ _ _ h₁ h₂ => ?_) hb fuel
  exact h₂.trans h₁

theorem eq {m : Parser α} (h : Leaves V m) {q q' : QwConnection} {a : Option α}
    (hrun : m q = (a, q')) : V q' = V q := by
  have hq := h q
  rwa [hrun] at hq

end Leaves

/-- The view reads neither the cursor nor what reading adds to the trace. -/
structure ReadsFreely (V : QwConnection → τ) : Prop where
  advance : ∀ n q, V (QwConnection.advance n q) = V q
  markBadread : ∀ q, V (QwConnection.markBadread q) = V q

namespace ReadsFreely

variable (msg : Message)

theorem leaves_msgRead (hV : ReadsFreely V) (size : Nat) (value : (Nat → Byte) → BitVec 32) :
    Leaves V (msgRead msg size value) := by
  intro q
  unfold msgRead
  split
  · exact hV.advance size q
  · exact hV.markBadread q

theorem leaves_msgReadLong (hV : ReadsFreely V) : Leaves V (msgReadLong msg) :=
  hV.leaves_msgRead msg _ _

theorem leaves_msgReadShort (hV : ReadsFreely V) : Leaves V (msgReadShort msg) :=
  hV.leaves_msgRead msg _ _

theorem leaves_msgReadByte (hV : ReadsFreely V) : Leaves V (msgReadByte msg) :=
  hV.leaves_msgRead msg _ _

theorem leaves_msgReadChar (hV : ReadsFreely V) : Leaves V (msgReadChar msg) :=
  hV.leaves_msgRead msg _ _

theorem leaves_msgReadCoord (hV : ReadsFreely V) : Leaves V (msgReadCoord msg) :=
  hV.leaves_msgReadShort msg

theorem leaves_msgReadAngle (hV : ReadsFreely V) : Leaves V (msgReadAngle msg) :=
  hV.leaves_msgReadChar msg

theorem leaves_msgReadAngle16 (hV : ReadsFreely V) : Leaves V (msgReadAngle16 msg) :=
  hV.leaves_msgReadShort msg

theorem leaves_msgReadFloat (hV : ReadsFreely V) : Leaves V (msgReadFloat msg) :=
  fun q => hV.advance 4 q

theorem leaves_readFloats (hV : ReadsFreely V) (n : Nat) : Leaves V (readFloats msg n) := by
  induction n with
  | zero => exact .pure ()
  | succ n ih => exact .seq (hV.leaves_msgReadFloat msg) ih

theorem leaves_msgReadStringLoop (hV : ReadsFreely V) (room : Nat) (string : List Byte) :
    Leaves V (msgReadStringLoop msg room string) := by
  induction room generalizing string with
  | zero => exact .pure string
  | succ room ih => exact .bind (hV.leaves_msgReadByte msg) fun c => .ite (.pure _) (ih _)

theorem leaves_readIf {read : Parser (BitVec 32)} (hread : Leaves V read) (bits flag : BitVec 32) :
    Leaves V (readIf bits flag read) := .ite (.seq hread (.pure ())) (.pure ())

theorem leaves_msgReadDeltaUsercmd (hV : ReadsFreely V) : Leaves V (msgReadDeltaUsercmd msg) := by
  have hangle := hV.leaves_msgReadAngle16 msg
  have hshort := fun bits flag => leaves_readIf (hV.leaves_msgReadShort msg) bits flag
  have hchar := fun bits flag => leaves_readIf (hV.leaves_msgReadChar msg) bits flag
  have hbyte := fun bits flag => leaves_readIf (hV.leaves_msgReadByte msg) bits flag
  refine .bind (hV.leaves_msgReadByte msg) fun bits => .get_bind fun q => .seq (.ite ?_ ?_) ?_
  · exact .seq (hshort _ _) (.seq hangle (.seq (hshort _ _) (.seq (hchar _ _) (.seq (hchar _ _)
      (hchar _ _)))))
  · exact .seq (hshort _ _) (.seq (hshort _ _) (.seq (hshort _ _) (.seq (hshort _ _)
      (.seq (hshort _ _) (hshort _ _)))))
  · exact .seq (hbyte _ _) (.seq (hbyte _ _) (.ite (hbyte _ _)
      (.seq (hV.leaves_msgReadByte msg) (.pure ()))))

theorem leaves_msgReadWord (hV : ReadsFreely V) : Leaves V (msgReadWord msg) :=
  .bind (hV.leaves_msgReadShort msg) fun _ => .pure _

theorem leaves_parseDelta (hV : ReadsFreely V) (word : BitVec 32) :
    Leaves V (parseDelta msg word) := by
  have hbyte := leaves_readIf (hV.leaves_msgReadByte msg)
  have hcoord := leaves_readIf (hV.leaves_msgReadCoord msg)
  have hangle := leaves_readIf (hV.leaves_msgReadAngle msg)
  refine .bind (.ite (.bind (hV.leaves_msgReadByte msg) fun _ => .pure _) (.pure _)) fun bits => ?_
  exact .seq (hbyte bits _) (.seq (hbyte bits _) (.seq (hbyte bits _) (.seq (hbyte bits _)
    (.seq (hbyte bits _) (.seq (hcoord bits _) (.seq (hangle bits _) (.seq (hcoord bits _)
      (.seq (hangle bits _) (.seq (hcoord bits _) (hangle bits _))))))))))

theorem leaves_flushEntityPacket (hV : ReadsFreely V) (fuel : Nat) :
    Leaves V (flushEntityPacket msg fuel) :=
  .loop (.bind (hV.leaves_msgReadWord msg) fun word =>
    .ite (.pure _) (.seq (hV.leaves_parseDelta msg word) (.pure _))) fuel

end ReadsFreely

end QwNet
