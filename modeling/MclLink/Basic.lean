import Mathlib.Data.Vector.Basic

/-!
# Status codes

Every entry point of the library returns one `mcl_link_status_t`. Pointers that the C code
compares with `NULL` are `Option`s here, with `none` for `NULL`; an output parameter is the
`Option` holding what the caller's variable contained before, and is handed back with what it
contains after. The object an operation works on is passed by value and handed back: the
`NULL` test on it touches nothing and is the first test of every function.
-/

namespace MclLink

/-- `mcl_link_status_t`. -/
inductive MclLinkStatus where
  | ok
  | errInvalidArgument
  | errRange
  | errIncompatibleVersion
  | errContextMismatch
  | errNoActiveContext
  | errInvalidState
  | errFrameCheck
  | errTruncated
  deriving DecidableEq, Repr

end MclLink
