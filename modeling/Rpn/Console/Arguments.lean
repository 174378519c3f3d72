/-!
# Command-line arguments

The arguments are read from left to right, and the first one that is not a
plain option decides: asking for the version or for help is answered at
once, and so is a mistake, whatever comes after. There are three plain
options, each to be given at most once.

* `-v` or `--verbose` reports every evaluation;
* `--no-color` turns highlighting off;
* `--memory NAME` or `--memory=NAME` names the memory variable.

Letters after a single hyphen may be run together. Two hyphens by
themselves end the options, and since there are no other arguments nothing
may follow them. The value of an option can be empty. After a space it
cannot start with a hyphen, a hyphen by itself excepted, since it would
look like the next option.
-/

namespace Rpn

/-- **The plain options that were given.** -/
structure Options where
  /-- Whether every evaluation is to be reported. -/
  verbose : Bool
  /-- Whether highlighting is to be off. -/
  noColor : Bool
  /-- The name of the memory variable, if one was given. -/
  memory? : Option String
deriving DecidableEq, Repr

/-- **A mistake in the arguments.** -/
inductive Misuse where
  /-- There is no such option. -/
  | unknownOption (argument : String)
  /-- The option was given before. -/
  | repeated (option : String)
  /-- The option takes no value. -/
  | unwantedValue (option : String)
  /-- The option takes a value. -/
  | missingValue (option : String)
  /-- An argument that is no option. -/
  | unexpected (argument : String)
deriving DecidableEq, Repr

/-- **Why the arguments ask for something else than a session.** -/
inductive Detour where
  /-- The version was asked for. -/
  | version
  /-- Help was asked for. -/
  | help
  /-- The arguments are wrong. -/
  | misuse (error : Misuse)
deriving DecidableEq, Repr

/-- **The form of one argument.** -/
inductive Argument where
  /-- Two hyphens by themselves. -/
  | endOfOptions
  /-- A name after two hyphens, with a value if an equals sign follows. -/
  | long (name : String) (value? : Option String)
  /-- Letters after one hyphen. -/
  | short (letters : List Char)
  /-- Anything else. -/
  | plain
deriving DecidableEq, Repr

namespace Options

/-- No option was given. -/
def none : Options := ⟨false, false, .none⟩

/-- The name of the memory variable where none is given. -/
def defaultMemory : String := "M"

/-- **The name of the memory variable.** -/
def memory (given : Options) : String := given.memory?.getD defaultMemory

end Options

namespace Argument

/-- The value after an equals sign. -/
def valueOf? : List Char → Option String
  | '=' :: value => some (String.ofList value)
  | _ => none

/-- **The form of an argument.** -/
def ofString (argument : String) : Argument :=
  match argument.toList with
  | ['-', '-'] => endOfOptions
  | '-' :: '-' :: body =>
    long (String.ofList (body.takeWhile (· ≠ '='))) (valueOf? (body.dropWhile (· ≠ '=')))
  | '-' :: letter :: letters => short (letter :: letters)
  | _ => plain

/-- Whether an argument can be the value of the option before it. -/
def canBeValue (argument : String) : Bool := ofString argument = plain

end Argument

namespace Options

/-- Notes that every evaluation is to be reported. -/
def withVerbose (given : Options) : Except Detour Options :=
  if given.verbose then .error (.misuse (.repeated "--verbose"))
  else .ok { given with verbose := true }

/-- Notes that highlighting is to be off. -/
def withNoColor (given : Options) : Except Detour Options :=
  if given.noColor then .error (.misuse (.repeated "--no-color"))
  else .ok { given with noColor := true }

/-- Notes the name of the memory variable. -/
def withMemory (given : Options) (name : String) : Except Detour Options :=
  if given.memory?.isSome then .error (.misuse (.repeated "--memory"))
  else .ok { given with memory? := some name }

/-- **Reads letters after a hyphen.** -/
def readLetters (given : Options) : List Char → Except Detour Options
  | [] => .ok given
  | 'v' :: letters => do readLetters (← given.withVerbose) letters
  | 'V' :: _ => .error .version
  | 'h' :: _ => .error .help
  | letter :: _ => .error (.misuse (.unknownOption (String.ofList ['-', letter])))

/-- **Reads a long option that takes no value.** -/
def readFlag (given : Options) (name : String) : Except Detour Options :=
  match name with
  | "verbose" => given.withVerbose
  | "no-color" => given.withNoColor
  | "version" => .error .version
  | "help" => .error .help
  | name => .error (.misuse (.unknownOption ("--" ++ name)))

/-- The long options that take no value. -/
def flags : List String := ["verbose", "no-color", "version", "help"]

/-- **Reads arguments**, after the options that were given before them. -/
def readFrom (given : Options) : List String → Except Detour Options
  | [] => .ok given
  | argument :: rest =>
    match Argument.ofString argument with
    | .endOfOptions =>
      match rest with
      | [] => .ok given
      | extra :: _ => .error (.misuse (.unexpected extra))
    | .long "memory" (some name) => do readFrom (← given.withMemory name) rest
    | .long "memory" .none =>
      match rest with
      | [] => .error (.misuse (.missingValue "--memory"))
      | name :: rest =>
        if Argument.canBeValue name then do readFrom (← given.withMemory name) rest
        else .error (.misuse (.missingValue "--memory"))
    | .long name (some _) =>
      .error (.misuse (if name ∈ flags then .unwantedValue ("--" ++ name)
        else .unknownOption ("--" ++ name)))
    | .long name .none => do readFrom (← given.readFlag name) rest
    | .short letters => do readFrom (← given.readLetters letters) rest
    | .plain => .error (.misuse (.unexpected argument))

/-- **Reads the arguments of a program.** -/
def read (arguments : List String) : Except Detour Options := none.readFrom arguments

end Options

end Rpn
