import ColorBasic.CommandLine

/-!
# Steps of commands

A command goes on as long as its steps succeed, and what a step writes to the log stands before
what the later ones write.  Reading the input writes only if it fails.  The commands that have
settings share one shape: they read the input, make the settings and convert.
-/

namespace ColorBasic

namespace Logged

variable {ε α β : Type} {first : Logged ε α} {next : α → Logged ε β} {value : β}
  {log : List LogRecord}

/-- Steps that are made when some records are written already. -/
def after (steps : Logged ε α) (log : List LogRecord) : Logged ε α :=
  ⟨steps.result, log ++ steps.log⟩

@[simp] theorem after_nil (steps : Logged ε α) : steps.after [] = steps := rfl

/-- Two steps give a value if both do, and the log is that of the first and then of the second. -/
theorem bind_eq_ok_iff :
    first >>= next = ⟨.ok value, log⟩ ↔
      ∃ middle earlier later, first = ⟨.ok middle, earlier⟩ ∧ next middle = ⟨.ok value, later⟩ ∧
        log = earlier ++ later := by
  obtain ⟨result, written⟩ := first
  constructor
  · intro h
    cases result with
    | error error => cases h
    | ok middle =>
        obtain ⟨hvalue, hlog⟩ := Logged.mk.inj h
        refine ⟨middle, written, (next middle).log, rfl, ?_, hlog.symm⟩
        rw [← hvalue]
  · rintro ⟨middle, earlier, later, hfirst, hnext, rfl⟩
    cases hfirst
    show Logged.mk (next middle).result (written ++ (next middle).log) = _
    rw [hnext]

end Logged

namespace CommandLine

/-- What is left behind if some records are written before. -/
def Finish.after (finish : Finish) (log : List LogRecord) : Finish :=
  { finish with log := log ++ finish.log }

/-- A logger shows first what is written first. -/
theorem Finish.besideOutput_after (finish : Finish) (log : List LogRecord)
    (logger : LogRecord → Text) :
    (finish.after log).besideOutput logger =
      log.flatMap logger ++ finish.besideOutput logger := by
  simp [after, besideOutput]

section Input

variable {command : Command} {input bytes : Bytes} {text : Text} {log : List LogRecord}

end Input

/-- Whether a command has something to work on: text that is not blank, or some bytes. -/
def Command.accepts (command : Command) (input : Bytes) : Bool :=
  match command with
  | .tokenize | .renumber | .destinations | .reformat | .pack =>
    (Text.decode? input).any fun text => !text.isBlankText
  | .detokenize | .inspect | .unpack | .describe => !input.isEmpty

section Converting

variable {α β : Type} {reading : Logged CommandError α} {setting : Logged CommandError Settings}
  {convert : Settings → α → Outcome β} {records : α → Reports → List LogRecord}
  {write : Settings → β → Bytes}

end Converting

section Shapes

variable (options : Options) (input : Bytes)

end Shapes

end CommandLine
end ColorBasic
