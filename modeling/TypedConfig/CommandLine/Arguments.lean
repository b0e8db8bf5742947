import TypedConfig.CommandLine.Command
import TypedConfig.Resolver
import TypedConfig.Text.Blank

/-!
# Arguments

How a command is spelled. A subcommand comes first, then options with their values. An option's
value is the next argument or attached to the option; the option for inputs takes all arguments up
to the next option. An option is checked when the next one, or the end, shows that it is complete.
-/

namespace TypedConfig.CommandLine

/-- Why arguments spell no command; asking for help or for the version is among the reasons. -/
inductive UsageFault
  | missingRequired
  | unknownSubcommand
  | unknownArgument
  | invalidValue
  | conflict
  | tooManyValues
  | help
  | version
  | helpOnMissing
deriving DecidableEq, Repr

/-- The subcommands that do something. -/
inductive Subcommand
  | resolve
  | check
deriving DecidableEq, Repr

/-- The subcommand of a name. -/
def Subcommand.ofName? : String → Option Subcommand
  | "resolve" => some resolve
  | "check" => some check
  | _ => none

/-- The names that are accepted in the place of a subcommand. -/
def isSubcommandName (s : String) : Bool := (Subcommand.ofName? s).isSome || s == "help"

/-- The options of the subcommands. -/
inductive Flag
  | schema
  | input
  | externals
  | assignment
  | selfName
  | outDirectory
  | compact
  | showOnly
  | help
deriving DecidableEq, Repr

namespace Flag

/-- The long spelling. -/
def long : Flag → String
  | schema => "schema"
  | input => "input"
  | externals => "vars"
  | assignment => "var"
  | selfName => "self-prefix"
  | outDirectory => "out-dir"
  | compact => "ndjson"
  | showOnly => "no-op"
  | help => "help"

/-- The spelling by one letter. -/
def short? : Flag → Option Char
  | schema => some 's'
  | input => some 'i'
  | help => some 'h'
  | _ => none

/-- Whether an option takes a value. -/
def hasValue : Flag → Bool
  | compact | showOnly | help => false
  | _ => true

/-- Whether an option may be given several times. -/
def isRepeatable : Flag → Bool
  | input | assignment => true
  | _ => false

/-- Whether the values of an option are paths, which are not empty. -/
def isPath : Flag → Bool
  | schema | externals | outDirectory => true
  | _ => false

end Flag

/-- The options of a subcommand. -/
def Subcommand.flags : Subcommand → List Flag
  | resolve =>
    [.schema, .input, .externals, .assignment, .selfName, .outDirectory, .compact, .showOnly, .help]
  | check => [.schema, .help]

/-- The options that must be given. -/
def Subcommand.required : Subcommand → List Flag
  | resolve => [.schema, .input]
  | check => [.schema]

/-- An argument by its form. -/
inductive Argument
  | separator
  | long (name : String) (attached : Option String)
  | short (letter : Char) (attached : Option String)
  | value (s : String)
deriving DecidableEq, Repr

/-- The form of an argument. A value is attached to a long option after an equals sign, and to a
short one with or without it. -/
def Argument.of (s : String) : Argument :=
  match s.toList with
  | ['-', '-'] => separator
  | '-' :: '-' :: cs =>
    let name := String.ofList (cs.takeWhile (· != '='))
    match cs.dropWhile (· != '=') with
    | _ :: attached => long name (some (String.ofList attached))
    | [] => long name none
  | ['-'] => value s
  | '-' :: c :: cs =>
    match cs with
    | [] => short c none
    | '=' :: attached => short c (some (String.ofList attached))
    | attached => short c (some (String.ofList attached))
  | _ => value s

/-- The options read so far: the complete ones with their values, and the last one while it may take
values. -/
structure Reading where
  given : List (Flag × List String)
  pending : Option (Flag × List String)

namespace Reading

/-- Nothing read. -/
def start : Reading := ⟨[], none⟩

/-- Checks an option that is complete, and keeps it. -/
def complete (r : Reading) (f : Flag) (values : List String) : Except UsageFault Reading :=
  if f.hasValue && values.isEmpty then .error .invalidValue
  else if !f.isRepeatable && r.given.any (·.1 = f) then .error .conflict
  else if f.isPath && values.contains "" then .error .invalidValue
  else .ok ⟨r.given ++ [(f, values)], none⟩

/-- Completes the pending option. -/
def settle (r : Reading) : Except UsageFault Reading :=
  match r.pending with
  | none => .ok r
  | some (f, values) => { r with pending := none }.complete f values

/-- Takes an option. -/
def takeFlag (r : Reading) (f : Flag) (attached : Option String) : Except UsageFault Reading := do
  let r ← r.settle
  match f, attached with
  | .help, _ => .error .help
  | f, some v => r.complete f [v]
  | f, none => if f.hasValue then .ok { r with pending := some (f, []) } else r.complete f []

/-- Takes a value for the pending option: one, or for inputs any number. -/
def takeValue (r : Reading) (v : String) : Except UsageFault Reading :=
  match r.pending with
  | some (f, values) =>
    if values.isEmpty || f = .input then .ok { r with pending := some (f, values ++ [v]) }
    else .error .unknownArgument
  | none => .error .unknownArgument

/-- Takes an argument. -/
def take (flags : List Flag) (r : Reading) : Argument → Except UsageFault Reading
  | .separator => .ok r
  | .long name attached =>
    match flags.find? fun f => f.long == name with
    | none => .error .unknownArgument
    | some f =>
      if !f.hasValue && attached.isSome then .error .tooManyValues else r.takeFlag f attached
  | .short letter attached =>
    match flags.find? fun f => f.short? == some letter with
    | none => .error .unknownArgument
    | some f => r.takeFlag f attached
  | .value v => r.takeValue v

/-- Takes all arguments. Nothing may follow a separator. -/
def takeAll (flags : List Flag) (r : Reading) : List Argument → Except UsageFault Reading
  | [] => r.settle
  | .separator :: _ :: _ => .error .unknownArgument
  | a :: rest => do takeAll flags (← r.take flags a) rest

/-- The values of an option. -/
def values (r : Reading) (f : Flag) : List String :=
  (r.given.filter (·.1 = f)).flatMap Prod.snd

/-- Whether an option was given. -/
def has (r : Reading) (f : Flag) : Bool := r.given.any (·.1 = f)

/-- The value of an option that is given once. -/
def value? (r : Reading) (f : Flag) : Option String := (r.values f).head?

/-- The command that the options make up. -/
def command (r : Reading) : Subcommand → Command
  | .resolve =>
    .resolve
      { schema := (r.value? .schema).getD ""
        inputs := r.values .input
        externals := r.value? .externals
        assignments := r.values .assignment
        selfName := (r.value? .selfName).getD Settings.initial.selfName
        outDirectory := r.value? .outDirectory
        compact := r.has .compact
        showOnly := r.has .showOnly }
  | .check => .check ((r.value? .schema).getD "")

end Reading

/-- The command of a subcommand and its arguments. -/
def Subcommand.read (s : Subcommand) (arguments : List String) : Except UsageFault Command := do
  let r ← Reading.start.takeAll s.flags (arguments.map .of)
  if s.required.all r.has then return r.command s else .error .missingRequired

/-- What asking for help about a subcommand comes to. -/
def helpFault : List String → UsageFault
  | [] => .help
  | [s] => if isSubcommandName s then .help else .unknownSubcommand
  | _ => .unknownSubcommand

/-- What a first argument that is no subcommand comes to. -/
def Argument.fault (rest : List String) : Argument → UsageFault
  | separator =>
    match rest with
    | [] => .helpOnMissing
    | s :: _ => if isSubcommandName s then .unknownArgument else .unknownSubcommand
  | long name attached =>
    if name = "help" ∨ name = "version" then
      if attached.isSome then .tooManyValues else if name = "help" then .help else .version
    else .unknownArgument
  | short letter _ =>
    if letter = 'h' then .help else if letter = 'V' then .version else .unknownArgument
  | value _ => .unknownSubcommand

/-- The command that arguments spell. -/
def Command.ofArguments : List String → Except UsageFault Command
  | [] => .error .helpOnMissing
  | first :: rest =>
    match Subcommand.ofName? first with
    | some s => s.read rest
    | none =>
      if first = "help" then .error (helpFault rest)
      else .error ((Argument.of first).fault rest)

end TypedConfig.CommandLine
