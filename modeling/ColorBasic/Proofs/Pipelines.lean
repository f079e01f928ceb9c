import ColorBasic.Proofs.CommandOptions
import ColorBasic.Proofs.RoundTrip

/-!
# Pipelines of commands

What one command writes is the input of the next one, and each makes its settings on its own.  A
container says at which address its program starts.  A dump does not, so the commands that write
and read it must be given the same address.

The program is nothing to warn about when it comes back.  The written settings may be, and each
command of a pipeline warns about them again.
-/

namespace ColorBasic

namespace Conversion

variable {table : TokenTable} {listing : Text}

end Conversion

namespace CommandLine

section RoundTrip

variable {input : Bytes} {listing : Text}

end RoundTrip

end CommandLine
end ColorBasic
