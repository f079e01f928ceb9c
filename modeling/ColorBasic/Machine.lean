import ColorBasic.Text.CharRanges

/-!
# The machines whose BASIC is understood

The dialects differ in their keyword tables only.
-/

namespace ColorBasic

/-- A machine, which selects the keyword table. -/
inductive Machine where
  /-- The Dragon 32. -/
  | dragon32
  /-- The Color Computer with Color BASIC. -/
  | coco
  /-- The Color Computer with Extended Color BASIC. -/
  | cocoExtended
  deriving DecidableEq, Repr

namespace Machine

/-- The name that selects a machine. -/
def name : Machine → Text
  | dragon32 => "dragon32".toList
  | coco => "coco".toList
  | cocoExtended => "cocoext".toList

/-- Every machine. -/
def all : List Machine := [dragon32, coco, cocoExtended]

/-- The machine of a given name, in exactly this spelling. -/
def ofName? (name : Text) : Option Machine := all.find? (·.name = name)

@[simp] theorem ofName?_name (machine : Machine) : ofName? machine.name = some machine := by
  cases machine <;> rfl

end Machine
end ColorBasic
