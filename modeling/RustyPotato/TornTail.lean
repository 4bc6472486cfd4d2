import RustyPotato.Replay
import RustyPotato.WriterFaults

/-!
# A log with a torn tail

A crash in the middle of a write leaves the beginning of a frame at the end of the file. The replay
stops there, but the file is opened for appending as it is: the next frames are read as part of the
torn one.
-/

namespace RustyPotato

open Lib.Stream

section
variable (u : CaseMap) (limits : CodecLimits)

end

/-! ## Two lifetimes of the server -/

end RustyPotato
