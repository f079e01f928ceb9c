import ColorBasic.Text.CharRanges

/-!
# The log

A record is written to the log when something happens that is worth a line, whether or not there is
a result in the end.  Which records are shown, and in what form, is up to the logger that they are
given to.  What would only be of use for tracing is no record.
-/

namespace ColorBasic

/-- How serious a record of the log is. -/
inductive LogLevel where
  /-- Something went wrong. -/
  | error
  /-- Something is odd. -/
  | warn
  deriving DecidableEq, Repr

/-- The name of a level. -/
def LogLevel.name : LogLevel → Text
  | error => "ERROR".toList
  | warn => "WARN".toList

/-- A record of the log. -/
structure LogRecord where
  /-- How serious the record is. -/
  level : LogLevel
  /-- What the record says. -/
  message : Text
  deriving DecidableEq, Repr

/-- The line that shows a record, without what a logger may add to it, such as the time. -/
def LogRecord.line (record : LogRecord) : Text :=
  '[' :: record.level.name ++ "] ".toList ++ record.message ++ ['\n']

/-- A result, and the records that were written on the way to it. -/
structure Logged (ε α : Type) where
  /-- The value, or the error that was met. -/
  result : Except ε α
  /-- The records in the order in which they were written. -/
  log : List LogRecord := []

namespace Logged

variable {ε α β : Type}

/-- Goes on with the value, if there is one.  The records of both steps are kept. -/
def bind (first : Logged ε α) (next : α → Logged ε β) : Logged ε β :=
  match first.result with
  | .ok value => ⟨(next value).result, first.log ++ (next value).log⟩
  | .error error => ⟨.error error, first.log⟩

instance : Monad (Logged ε) where
  pure value := { result := .ok value }
  bind := bind

instance : LawfulMonad (Logged ε) := LawfulMonad.mk' (Logged ε)
  (fun steps => by
    obtain ⟨result, log⟩ := steps
    cases result with
    | error error => rfl
    | ok value => exact congrArg (Logged.mk (.ok value)) (List.append_nil log))
  (fun _ _ => rfl)
  (fun first next last => by
    obtain ⟨result, log⟩ := first
    cases result with
    | error error => rfl
    | ok value =>
        show (bind ⟨(next value).result, log ++ (next value).log⟩ last : Logged ε _) =
          ⟨(bind (next value) last).result, log ++ (bind (next value) last).log⟩
        obtain ⟨result, later⟩ := next value
        cases result with
        | error error => rfl
        | ok middle => exact congrArg (Logged.mk _) (List.append_assoc log later _))

/-- A result, without any records. -/
def ofResult (result : Except ε α) : Logged ε α := { result }

/-- Fails, and writes a record about it. -/
def fail (error : ε) (record : LogRecord) : Logged ε α := ⟨.error error, [record]⟩

/-- Writes records. -/
def write (records : List LogRecord) : Logged ε Unit := ⟨.ok (), records⟩

end Logged
end ColorBasic
