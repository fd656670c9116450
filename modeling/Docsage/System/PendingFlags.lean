import Docsage.Api.Hidden
import Docsage.System.Keys
import Docsage.System.Review

/-! # Does the pending flag tell the truth?

Three endpoints tell a user which documents wait for a decision of theirs, each
with its own topics. The decision endpoint checks eligibility on its own, and it
alone refuses the uploader.
-/

namespace Docsage
open Effects Relational Transition

variable {order : TimeOrder} {s : Store} {user : User} {doc : Document} {summary : DocumentSummary}
  {request : ReviewRequest} {decision : Decision}

variable {w₀ w : World}

namespace Agency

end Agency

end Docsage
