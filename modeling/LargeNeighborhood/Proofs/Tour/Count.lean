import LargeNeighborhood.Proofs.Console.Refusal
import LargeNeighborhood.Proofs.Text.Table

set_option autoImplicit false

/-! # How many visits an instance file has

A file that says how many visits it has is read with just so many, or not at all. One that does not
say has a visit for each row with a number for its identifier, and one that says more than there are
such rows is refused (`Instance.read_counts`). The rows are those of the lines behind the header as
long as the table takes them one by one (`Instance.Regular`). A quote that a header line leaves open
takes them along instead, and then a file of three visits has none (`Instance.read_danglingQuote`).
-/

namespace LargeNeighborhood

namespace Instance

section Lines

variable {path text : String} {front body : List String} {mark : String}

end Lines

/-! ## Counts -/

section Counts

variable {tag : ℕ} {path : String} {content : ByteArray} {text : String} {front body : List String}
  {mark : String} {p : Problem}

end Counts

end Instance

end LargeNeighborhood
