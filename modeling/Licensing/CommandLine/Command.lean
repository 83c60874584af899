import Licensing.Text.Split
import Licensing.Uuid

/-!
# Commands

What can be asked for on the command line, and how the arguments are read. Arguments are read from
left to right and the first fault is reported, except that the value of an option is only looked
at when the next option begins or the arguments end.
-/

namespace Licensing

/-- What is asked for. -/
inductive Command
  | serve
  | createKey (description : String) (productId : Option Uuid)
  | reconcile
  deriving DecidableEq

/-- What there is help on: the whole program, or one of its commands. -/
inductive HelpTopic
  | program
  | serve
  | createKey
  | reconcile
  | help
  deriving DecidableEq

namespace HelpTopic

/-- The commands. -/
def commands : List HelpTopic := [serve, createKey, reconcile, help]

/-- The name of a command. -/
def name : HelpTopic → String
  | program => "license-service"
  | serve => "serve"
  | createKey => "create-api-key"
  | reconcile => "reconcile"
  | help => "help"

/-- The command of that name. -/
def ofName? (text : String) : Option HelpTopic := commands.find? (·.name == text)

end HelpTopic

/-- Why arguments name no command. -/
inductive UsageFault
  | help (topic : HelpTopic)
  | version
  | noCommand
  | unknownCommand
  | unknownArgument
  | missingValue
  | badValue
  | surplusValue
  | repeated
  | missingOption
  deriving DecidableEq

namespace UsageFault

/-- The name of a fault. -/
def name : UsageFault → String
  | help _ => "DisplayHelp"
  | version => "DisplayVersion"
  | noCommand => "DisplayHelpOnMissingArgumentOrSubcommand"
  | unknownCommand => "InvalidSubcommand"
  | unknownArgument => "UnknownArgument"
  | missingValue => "InvalidValue"
  | badValue => "ValueValidation"
  | surplusValue => "TooManyValues"
  | repeated => "ArgumentConflict"
  | missingOption => "MissingRequiredArgument"

end UsageFault

namespace Command

/-! ### Arguments -/

/-- What an argument looks like: two hyphens alone, a long option that may have a value attached,
short options in a row, or a word. A single hyphen is a word. -/
inductive Argument
  | separator
  | long (name : String) (value : Option String)
  | short (first : Char)
  | word (text : String)
  deriving DecidableEq

/-- What an argument looks like. -/
def Argument.of (text : String) : Argument :=
  match text.toList with
  | ['-', '-'] => separator
  | '-' :: '-' :: rest =>
    match Text.cutFirst '=' rest with
    | some (name, value) => long (String.ofList name) (some (String.ofList value))
    | none => long (String.ofList rest) none
  | '-' :: first :: _ => short first
  | _ => word text

/-- What asking for help gives. -/
def helpFault (topic : HelpTopic) : Argument → Option UsageFault
  | .long "help" none => some (.help topic)
  | .long "help" (some _) => some .surplusValue
  | .short 'h' => some (.help topic)
  | _ => none

/-- Reads the arguments of a command that takes none. -/
def bare (topic : HelpTopic) (command : Command) : List String → Except UsageFault Command
  | [] => .ok command
  | argument :: rest =>
    match Argument.of argument with
    | .separator => if rest = [] then .ok command else .error .unknownArgument
    | argument => .error ((helpFault topic argument).getD .unknownArgument)

/-! ### Creating a key -/

/-- The options of the command that creates a key. -/
inductive KeyOption
  | description
  | productId
  deriving DecidableEq

/-- The name of an option. -/
def KeyOption.name : KeyOption → String
  | description => "description"
  | productId => "product-id"

/-- The option of that name. -/
def KeyOption.ofName? (text : String) : Option KeyOption :=
  [description, productId].find? (·.name == text)

/-- What was read so far: the values of the options, and the option whose value has not been
looked at yet, with its value if that has been read. -/
structure KeyOptions where
  description : Option String := none
  productId : Option Uuid := none
  pending : Option (KeyOption × Option String) := none

namespace KeyOptions

/-- Takes the value of an option in; an option may be given once. -/
def take (options : KeyOptions) (option : KeyOption) (value : String) :
    Except UsageFault KeyOptions :=
  match option with
  | .description =>
    if options.description.isSome then .error .repeated
    else .ok { options with description := some value }
  | .productId =>
    if options.productId.isSome then .error .repeated
    else match Uuid.ofText? value with
      | some id => .ok { options with productId := some id }
      | none => .error .badValue

/-- Looks at the value of the pending option. -/
def settle (options : KeyOptions) : Except UsageFault KeyOptions :=
  match options.pending with
  | none => .ok options
  | some (_, none) => .error .missingValue
  | some (option, some value) => take { options with pending := none } option value

/-- The command, when all arguments have been read. -/
def finish (options : KeyOptions) : Except UsageFault Command := do
  let options ← options.settle
  match options.description with
  | some description => return .createKey description options.productId
  | none => throw .missingOption

/-- Reads the arguments. -/
def read (options : KeyOptions) : List String → Except UsageFault Command
  | [] => options.finish
  | argument :: rest =>
    match Argument.of argument, options.pending with
    | .word text, some (option, none) =>
      read { options with pending := some (option, some text) } rest
    | .word _, _ => .error .unknownArgument
    | .separator, _ => if rest = [] then options.finish else .error .unknownArgument
    | .long name value, _ =>
      match KeyOption.ofName? name with
      | some option => do
        let options ← options.settle
        match value with
        | some value => read (← options.take option value) rest
        | none => read { options with pending := some (option, none) } rest
      | none => help options (.long name value)
    | .short first, _ => help options (.short first)
where
  /-- Ends the reading at an argument that is no option: help, or a fault. -/
  help (options : KeyOptions) (argument : Argument) : Except UsageFault Command :=
    match helpFault .createKey argument with
    | none => .error .unknownArgument
    | some .surplusValue => .error .surplusValue
    | some fault => do
      let _ ← options.settle
      throw fault

end KeyOptions

/-! ### The program -/

/-- What asking for help on commands by name gives; there are no commands of commands. -/
def helpOn : List String → UsageFault
  | [] => .help .program
  | [name] => ((HelpTopic.ofName? name).map .help).getD .unknownCommand
  | _ => .unknownCommand

/-- Reads the arguments of the program. -/
def parse : List String → Except UsageFault Command
  | [] => .error .noCommand
  | argument :: rest =>
    match HelpTopic.ofName? argument with
    | some .serve => bare .serve .serve rest
    | some .reconcile => bare .reconcile .reconcile rest
    | some .createKey => KeyOptions.read {} rest
    | some .help => .error (helpOn rest)
    | _ =>
      match Argument.of argument with
      | .separator => .error <|
        match rest with
        | [] => .noCommand
        | word :: _ => if (HelpTopic.ofName? word).isSome then .unknownArgument else .unknownCommand
      | .long "version" none => .error .version
      | .long "version" (some _) => .error .surplusValue
      | .short 'V' => .error .version
      | .word _ => .error .unknownCommand
      | argument => .error ((helpFault .program argument).getD .unknownArgument)

end Command

end Licensing
