/-!
# Why writing fails
-/

namespace Cbor.Writer

/-- The causes of a failed writer. -/
inductive Error
  /-- A call needs `needed` bytes in front of the written ones, and only `available` are free. -/
  | bufferTooSmall (needed available : Nat)
  /-- A container is opened while `max`, all that are allowed, are open. -/
  | nestingTooDeep (max : Nat)
  /-- A container is wrapped while none is open. -/
  | noOpenContainer
  /-- A map is wrapped that holds an odd number of items. -/
  | unmatchedMapKey
  /-- Writing ends while `count` containers are open. -/
  | unclosedContainers (count : Nat)
  deriving DecidableEq, Repr

/-- The text shown for the cause. -/
def Error.message : Error → String
  | bufferTooSmall needed available =>
    s!"Buffer too small: {needed} bytes needed, {available} available"
  | nestingTooDeep max => s!"Maximum nesting depth of {max} exceeded"
  | noOpenContainer => "No open array or map to wrap"
  | unmatchedMapKey => "Map has a key without a value"
  | unclosedContainers count => s!"{count} arrays or maps have not been wrapped"

end Cbor.Writer
