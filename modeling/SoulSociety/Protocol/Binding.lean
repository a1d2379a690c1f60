import SoulSociety.Core.Sizes
import SoulSociety.Protocol.Results

/-! What `parse_result_event` does not bind. It checks the service of a success and the shape of its
    public input, and never compares the public input with the request. So the successes that carry
    one public input answer the request exactly when that input is the projection of the request,
    or cannot be in a statement about the service at all. -/

namespace SoulSociety.Protocol
open Lib SoulSociety.Core

end SoulSociety.Protocol
