import ApueFormal.Printer.Signature
import ApueFormal.Printer.Submit

/-!
# A job from the client to the spool

The daemon takes apart the request that `print` has put together, however it is cut.
-/

namespace ApueFormal.Printer

open Libc

/-- The name of the file, or the end of a name that is too long. -/
def SubmitArgs.job (args : SubmitArgs) : Bytes :=
  if args.fname.strlen ≥ jobnmMax then
    ascii "... " ++ args.fname.bytes.drop (args.fname.strlen - jobnmMax + 5)
  else args.fname.bytes

variable (args : SubmitArgs)

section

variable {args : SubmitArgs} {chunks : List Bytes}
  (hchunks : ∀ chunk ∈ chunks, chunk ≠ [] ∧ chunk.length ≤ iobufsz) {later : List Tread}
  {writes : List Write} {response : List Tread} {result : Submitted}
  (hsubmit : submitFile args ⟨chunks.map .data ++ .data [] :: later, writes, response⟩ =
    some result) (hwaited : result.waited = true)
include hchunks hsubmit hwaited

end

end ApueFormal.Printer
