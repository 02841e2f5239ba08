/-
What of the client's memory reaches the TEE.

A buffer that is for output only need not be copied to shared memory, and for
registered blocks it is not: the direction is looked at first. The copy for a
temporary reference is made whatever its direction, so the old content of a
TEMP_OUTPUT buffer is in shared memory when the TEE is asked.
-/
import Microtrust.Teec.Copies

namespace Teec

open Lib

section
variable {s : State} {ctx : Addr} {op : Operation} {p : Prep}

end

/-- An operation with a buffer of eight bytes for output. -/
def outputOperation : Operation := ⟨0x6, fun _ => { tmpref := ⟨0x600, 8⟩ }, 0⟩

end Teec
