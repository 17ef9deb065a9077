/-
  QwNet.Parser.Unchecked

  The arms that reach the message past its checked readers: floats and downloads.

  A row of floats is a move of the cursor by its length, and a download is one write
  and one move between changes that do not touch the message.
-/
import QwNet.Parser.Switch

namespace QwNet

open RunM

/-! ## The events of a run -/

/-- What was added to the trace from `q` to `q'`. -/
def newEvents (q q' : QwConnection) : List Event := q'.trace.drop q.trace.length

@[simp] theorem newEvents_self (q : QwConnection) : newEvents q q = [] := List.drop_length

/-! ## Floats -/

end QwNet
