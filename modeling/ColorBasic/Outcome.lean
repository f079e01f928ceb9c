import ColorBasic.Container
import ColorBasic.Diagnostic
import ColorBasic.Error

/-!
# Outcomes of conversions

An outcome is a result or a failure, and beside either the reports that were made.

Reports are kept in three lists by what they are about, each in the order in which its reports were
made.
-/

namespace ColorBasic

/-- The reasons for which a conversion fails. -/
inductive Failure where
  /-- The program is at fault. -/
  | program (error : Error)
  /-- The container is at fault. -/
  | container (error : ContainerError)
  deriving DecidableEq, Repr

/-- The reports of conversions. -/
structure Reports where
  /-- Reports on whole programs: repeated lines and wrong file types. -/
  program : List Diagnostic := []
  /-- Reports on the code of lines: unknown tokens and unmapped characters. -/
  code : List Diagnostic := []
  /-- Reports on line numbers and jumps. -/
  references : List Diagnostic := []
  deriving DecidableEq, Repr

namespace Reports

/-- The reports followed by later ones. -/
def append (earlier later : Reports) : Reports where
  program := earlier.program ++ later.program
  code := earlier.code ++ later.code
  references := earlier.references ++ later.references

instance : Append Reports := ⟨append⟩

/-- All reports, grouped by what they are about. -/
def all (reports : Reports) : List Diagnostic :=
  reports.program ++ reports.code ++ reports.references

end Reports

/-- The outcome of a conversion. -/
structure Outcome (α : Type) where
  /-- The value, or the reason why there is none. -/
  result : Except Failure α
  /-- The reports that were made, also if there is no value. -/
  reports : Reports := {}

namespace Outcome

/-- An outcome with its value changed. -/
def map {α β : Type} (f : α → β) (outcome : Outcome α) : Outcome β :=
  ⟨outcome.result.map f, outcome.reports⟩

/-- An outcome of which the value is used in a step that may fail and reports nothing. -/
def andThen {α β : Type} (outcome : Outcome α) (f : α → Except Failure β) : Outcome β :=
  ⟨outcome.result.bind f, outcome.reports⟩

end Outcome
end ColorBasic
