/-!
# The host

What a run takes from where it runs. It is left open here: whatever is proved of the program is
proved for any host.
-/

namespace Abacus

/-- What depends on the host. -/
class Host where
  /-- The most parentheses that can be open at a time: as many as the stack has room for. -/
  maxDepth : Nat
  /-- The reason given for refusing a configuration that is malformed. A run reads one configuration
  at most. -/
  malformedReason : String

/-- The host where the program is run here. Another one would do as well. -/
instance : Host where
  maxDepth := 500
  malformedReason := "malformed document"

end Abacus
