/-! # What is wrong with a JSON text -/

namespace LoopCapture.Json

/-- Why a text could not be read. -/
inductive Fault where
  /-- The text is not JSON, or nested too deeply. -/
  | malformed
  | truncated
  /-- The text is JSON but does not say what is expected of it. -/
  | unfit (message : String)
deriving DecidableEq, Repr

def Fault.text : Fault → String
  | .malformed => "json syntax"
  | .truncated => "json eof"
  | .unfit message => message

end LoopCapture.Json
