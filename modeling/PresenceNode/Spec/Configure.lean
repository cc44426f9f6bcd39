import PresenceNode.Spec.Wait

/-!
# `radar_configure`, with the arrays of `cli_wait` (`radar.c`)

The same program as in `Spec/Cli`, over the arrays. `buf` is on the stack and not initialised, so
what it holds may be anything else at each call; `cli_rx_head` is static. An access outside them ends
the program without a value.
-/

namespace PresenceNode

end PresenceNode
