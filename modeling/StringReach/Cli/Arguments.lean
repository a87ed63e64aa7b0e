import StringReach.Data.Digits

/-!
# Arguments of the command line

Arguments are read one after the other. Options stand before or after the operand, short ones may be
joined, and a value follows its option as the next argument, directly or after an equals sign. The
options for settings and for verbosity are known before the command and after it.

The first argument that is wrong, or asks for help or the version, decides. A value that is an
argument of its own is looked at when the next option or operand is met, and for the last option
before a command only after the arguments of the command.
-/

namespace StringReach.Cli

/-- How a report is written. -/
inductive ReportFormat where
  | text
  | json
deriving DecidableEq, Repr

/-- What can be asked for. -/
inductive CommandName where
  | solve
  | check
  | dump
deriving DecidableEq, Repr

/-- A command with its operand and options. -/
inductive Command where
  /-- Report the strings at every tracked point. -/
  | solve (program : String) (output : Option String) (format : ReportFormat) (depth : Option Nat)
      (once : Bool)
  /-- Say which tracked points have recursive terms. -/
  | check (program : String)
  /-- Write the terms and solutions of fields and tracked points. -/
  | dump (program : String) (output : Option String)
deriving DecidableEq, Repr

/-- What a command line asks for. -/
structure Invocation where
  /-- The file with the settings. -/
  settings : Option String
  /-- Whether a fuller log is asked for. -/
  verbose : Bool
  command : Command
deriving DecidableEq, Repr

/-- Why there is no command to run. -/
inductive Stop where
  /-- The arguments are wrong. -/
  | refused
  | help
  | version
deriving DecidableEq, Repr

/-- An option with a value. -/
inductive ValueOption where
  | config
  | output
  | format
  | depth
deriving DecidableEq, Repr

/-- An option without a value. -/
inductive Flag where
  | verbose
  | noIterate
  | help
  | version
deriving DecidableEq, Repr

/-- An option. -/
inductive Switch where
  | valued (option : ValueOption)
  | flag (flag : Flag)
deriving DecidableEq, Repr

namespace CommandName

/-- The command of a name. -/
def ofName? (name : String) : Option CommandName :=
  match name with
  | "solve" => some solve
  | "check" => some check
  | "dump" => some dump
  | _ => none

end CommandName

namespace Switch

/-- Whether an option is known after a command, or before any. -/
def isKnown (command : Option CommandName) : Switch → Bool
  | valued .config => true
  | valued .output => command = some .solve || command = some .dump
  | valued .format => command = some .solve
  | valued .depth => command = some .solve
  | flag .verbose => true
  | flag .noIterate => command = some .solve
  | flag .help => true
  | flag .version => command = none

/-- The option of a long name. -/
def ofLong? (command : Option CommandName) (name : String) : Option Switch :=
  let switch := match name with
    | "config" => some (valued .config)
    | "output" => some (valued .output)
    | "format" => some (valued .format)
    | "depth" => some (valued .depth)
    | "verbose" => some (flag .verbose)
    | "no-iterate" => some (flag .noIterate)
    | "help" => some (flag .help)
    | "version" => some (flag .version)
    | _ => none
  switch.filter (isKnown command)

/-- The option of a letter. -/
def ofShort? (command : Option CommandName) (letter : Char) : Option Switch :=
  let switch := match letter with
    | 'c' => some (valued .config)
    | 'o' => some (valued .output)
    | 'f' => some (valued .format)
    | 'v' => some (flag .verbose)
    | 'h' => some (flag .help)
    | 'V' => some (flag .version)
    | _ => none
  switch.filter (isKnown command)

end Switch

/-- The report format of a name. -/
def ReportFormat.ofName? (name : String) : Option ReportFormat :=
  match name with
  | "text" => some .text
  | "json" => some .json
  | _ => none

/-- The depth that a value stands for: digits after an optional plus sign. -/
def depth? (value : String) : Option Nat :=
  match value.toList with
  | '+' :: digits => Digits.word? 10 digits
  | digits => Digits.word? 10 digits

/-- Whether a value is one that an option takes. -/
def ValueOption.takes (option : ValueOption) (value : String) : Bool :=
  match option with
  | config => value ≠ ""
  | output => value ≠ ""
  | format => (ReportFormat.ofName? value).isSome
  | depth => (depth? value).isSome

/-- What has been read of the arguments at one level. -/
structure Reading where
  values : List (ValueOption × String) := []
  flags : List Flag := []
  operand : Option String := none
  /-- The last option, if its value is an argument of its own, with that value once it was met. -/
  pending : Option (ValueOption × Option String) := none

namespace Reading

/-- Give an option its value. -/
def give (reading : Reading) (option : ValueOption) (value : String) : Except Stop Reading :=
  if (reading.values.lookup option).isSome || !option.takes value then .error .refused
  else .ok { reading with values := (option, value) :: reading.values }

/-- Look at the value of the last option. -/
def settle (reading : Reading) : Except Stop Reading :=
  match reading.pending with
  | none => .ok reading
  | some (_, none) => .error .refused
  | some (option, some value) => { reading with pending := none }.give option value

/-- An option with its value in the same argument. -/
def attach (reading : Reading) (option : ValueOption) (value : List Char) :
    Except Stop Reading := do
  let reading ← reading.settle
  reading.give option (String.ofList value)

/-- An option whose value is to follow. -/
def await (reading : Reading) (option : ValueOption) : Except Stop Reading := do
  let reading ← reading.settle
  pure { reading with pending := some (option, none) }

/-- An option without a value. -/
def raise (reading : Reading) (flag : Flag) : Except Stop Reading := do
  let reading ← reading.settle
  match flag with
  | .help => throw .help
  | .version => throw .version
  | flag =>
      if reading.flags.contains flag then throw .refused
      else pure { reading with flags := flag :: reading.flags }

/-- The operand. -/
def operate (reading : Reading) (operand : String) : Except Stop Reading := do
  let reading ← reading.settle
  if reading.operand.isSome || operand = "" then throw .refused
  else pure { reading with operand := some operand }

/-- Joined short options; the letters after one with a value are its value. -/
def short (command : Option CommandName) : List Char → Reading → Except Stop Reading
  | [], reading => .ok reading
  | letter :: rest, reading =>
      match Switch.ofShort? command letter with
      | none => .error .refused
      | some (.flag flag) => do
          let reading ← reading.raise flag
          short command rest reading
      | some (.valued option) =>
          match rest with
          | [] => reading.await option
          | '=' :: value => reading.attach option value
          | value => reading.attach option value

/-- A long option, with or without a value after an equals sign. -/
def long (command : Option CommandName) (text : List Char) (reading : Reading) :
    Except Stop Reading :=
  let name := String.ofList (text.takeWhile (· ≠ '='))
  match Switch.ofLong? command name, text.dropWhile (· ≠ '=') with
  | some (.valued option), _ :: value => reading.attach option value
  | some (.valued option), [] => reading.await option
  | some (.flag flag), [] => reading.raise flag
  | _, _ => .error .refused

end Reading

/-- The shapes of an argument. -/
inductive Shape where
  /-- Two dashes, after which there are no options. -/
  | rule
  | long (text : List Char)
  | short (letters : List Char)
  | value
deriving DecidableEq

/-- The shape of an argument. -/
def Shape.of (argument : String) : Shape :=
  match argument.toList with
  | ['-', '-'] => rule
  | '-' :: '-' :: text => long text
  | '-' :: letter :: letters => short (letter :: letters)
  | _ => value

/-- Read the arguments after a command. After two dashes, all of them are operands. -/
def readCommand (name : CommandName) : List String → Bool → Reading → Except Stop Reading
  | [], _, reading => reading.settle
  | argument :: rest, literal, reading => do
      if literal then
        readCommand name rest literal (← reading.operate argument)
      else match Shape.of argument, reading.pending with
        | .rule, _ => readCommand name rest true reading
        | .long text, _ => readCommand name rest literal (← reading.long (some name) text)
        | .short letters, _ => readCommand name rest literal (← reading.short (some name) letters)
        | .value, some (option, none) =>
            readCommand name rest literal { reading with pending := some (option, some argument) }
        | .value, _ => readCommand name rest literal (← reading.operate argument)

/-- The command that the arguments after its name ask for. -/
def Reading.command? (reading : Reading) (name : CommandName) : Option Command := do
  let program ← reading.operand
  let output := reading.values.lookup .output
  match name with
  | .solve =>
      let format := (reading.values.lookup .format).bind ReportFormat.ofName?
      let depth := (reading.values.lookup .depth).bind depth?
      pure (.solve program output (format.getD .text) depth (reading.flags.contains .noIterate))
  | .check => pure (.check program)
  | .dump => pure (.dump program output)

/-- Whether help on the given arguments can be had: at most one name of a command. -/
def canHelp (arguments : List String) : Bool :=
  match arguments with
  | [] => true
  | [name] => name = "help" || (CommandName.ofName? name).isSome
  | _ => false

/-- Join what was read before a command with what was read after it, which goes first. -/
def invocation (name : CommandName) (outer inner : Reading) : Except Stop Invocation := do
  let outer ← outer.settle
  match inner.command? name with
  | none => throw .refused
  | some command =>
      pure {
        settings := (inner.values.lookup .config).or (outer.values.lookup .config)
        verbose := outer.flags.contains .verbose || inner.flags.contains .verbose
        command }

/-- Read the arguments, of which those before the command come first. -/
def readBefore : List String → Reading → Except Stop Invocation
  | [], _ => .error .refused
  | argument :: rest, reading =>
      match Shape.of argument, reading.pending with
      | .rule, _ => .error .refused
      | .long text, _ => do readBefore rest (← reading.long none text)
      | .short letters, _ => do readBefore rest (← reading.short none letters)
      | .value, some (option, none) =>
          readBefore rest { reading with pending := some (option, some argument) }
      | .value, _ =>
          if argument = "help" then
            if canHelp rest then .error .help else .error .refused
          else match CommandName.ofName? argument with
            | none => .error .refused
            | some name => do
                let inner ← readCommand name rest false {}
                invocation name reading inner

/-- What a command line asks for. -/
def Invocation.ofArguments (arguments : List String) : Except Stop Invocation :=
  readBefore arguments {}

end StringReach.Cli
