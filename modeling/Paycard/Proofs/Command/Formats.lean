import Paycard.Command.Run
import Paycard.Proofs.Json.RoundTrip

/-! # Answers in two formats

A command that looks a card number up prints its answer in words or as one line of JSON. Both tell of the
same scheme and the same verdicts, and the exit code does not depend on the format.
-/

namespace Paycard.Command

/-! ## What is shown -/

namespace Outcome

end Outcome

end Paycard.Command
