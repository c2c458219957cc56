/-!
# CacheService.Bytes

Values are byte arrays throughout, and equal if they have the same bytes.
-/

namespace CacheService

/-- Equality of values, by this instance whichever others are in scope. -/
instance (priority := 1100) decidableEqBytes : DecidableEq ByteArray := ByteArray.instDecidableEq

end CacheService
