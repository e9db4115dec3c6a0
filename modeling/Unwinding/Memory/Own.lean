import Unwinding.Memory

/-!
# The memory of the unwinding process itself

Reads of the process's own memory differ from reads of a capture in two
places: the null address is never readable, whatever is mapped there, and a
read of no bytes touches nothing, so it succeeds anywhere else.
-/

namespace Unwinding.AddressSpace

/-- The process's own memory, of which `mapped` says what is mapped. -/
def own (mapped : AddressSpace) : AddressSpace where
  endian := mapped.endian
  read address count :=
    if address = 0 then .error (.unmapped address count)
    else if count = 0 then .ok []
    else mapped.read address count

end Unwinding.AddressSpace
