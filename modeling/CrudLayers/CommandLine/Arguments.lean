import CrudLayers.CommandLine.Help

namespace CrudLayers.CommandLine

inductive LogFormat where
  | pretty
  | json
deriving DecidableEq

/-- What is asked for beside the command. -/
structure Globals where
  config : String
  verbose : Bool
  logFormat : LogFormat
deriving DecidableEq

inductive Action where
  | generate (entities : List String) (overrides : Overrides) (only : List Layer)
  | check (entities : List String) (overrides : Overrides)
  | bindings (entity : String) (overrides : Overrides)
  | catalog (entity : String)
deriving DecidableEq

structure Invocation where
  globals : Globals
  action : Action
deriving DecidableEq

inductive UsageFault where
  | unexpected (argument : String)
  | unneededValue (value option : String)
  | missingValue (option : String)
  | invalidValue (value option : String)
  | repeated (option : String)
  | unknownCommand (name : String)
  | missingOperand (label : String)
  | missingCommand
deriving DecidableEq

/-- The message up to its first line end of its own. -/
def UsageFault.message : UsageFault → String
  | unexpected argument => "unexpected argument '" ++ argument ++ "' found"
  | unneededValue value option =>
    "unexpected value '" ++ value ++ "' for '" ++ option ++ "' found; no more were expected"
  | missingValue option => "a value is required for '" ++ option ++ "' but none was supplied"
  | invalidValue value option => "invalid value '" ++ value ++ "' for '" ++ option ++ "'"
  | repeated option => "the argument '" ++ option ++ "' cannot be used multiple times"
  | unknownCommand name => "unrecognized subcommand '" ++ name ++ "'"
  | missingOperand _ => "the following required arguments were not provided:"
  | missingCommand =>
    "'" ++ programName ++ "' requires a subcommand but one was not provided"

/-- What ends the reading of arguments before there is an invocation. -/
inductive Stop where
  | fault (e : UsageFault)
  /-- A text that was asked for. -/
  | shown (text : String)
  /-- The help that is printed when nothing was asked for. -/
  | idle (text : String)
deriving DecidableEq

/-- What has been read of the arguments of one level. -/
structure Progress where
  given : List (Switch × String)
  /-- An option that has not been looked at, with its value as far as it is there. -/
  pending : Option (Switch × Option String)
  /-- Whether the next argument may be the value of the pending option. -/
  awaiting : Bool
  operands : List String

namespace Progress

def start : Progress :=
  ⟨[], none, false, []⟩

def isGiven (p : Progress) (o : Switch) : Bool :=
  p.given.any (fun g => g.1.long == o.long)

/-- Whether a kind admits a value, and which fault it is if not. -/
def valueFault? (o : Switch) (value : String) : Option UsageFault :=
  match o.value with
  | some (_, .path) => if value = "" then some (.missingValue o.label) else none
  | some (_, .choice values) =>
    if (values.map Prod.fst).contains value then none
    else if value = "" then some (.missingValue o.label)
    else some (.invalidValue value o.label)
  | _ => none

def take (p : Progress) (o : Switch) (value : String) : Except UsageFault Progress :=
  if p.isGiven o ∧ o.repeatable = false then .error (.repeated o.label)
  else
    match valueFault? o value with
    | some fault => .error fault
    | none => .ok { p with given := p.given ++ [(o, value)] }

/-- Looks at the pending option. -/
def resolve (p : Progress) : Except UsageFault Progress :=
  match p.pending with
  | none => .ok p
  | some (o, none) => .error (.missingValue o.label)
  | some (o, some value) => ({ p with pending := none, awaiting := false }).take o value

def values (p : Progress) (o : Switch) : List String :=
  (p.given.filter (fun g => g.1.long == o.long)).map Prod.snd

def value? (p : Progress) (o : Switch) : Option String :=
  (p.values o).getLast?

end Progress

/-- A level of the command line: what it takes, and the texts that it can be asked for. -/
structure Level where
  options : List Switch
  operand : Option Operand
  commands : List Command
  version : Option String
  help : Bool → String

/-- An argument that starts with two dashes, as its name and the value after an equals sign. -/
def longParts? (argument : String) : Option (String × Option String) :=
  match argument.toList with
  | '-' :: '-' :: c :: rest =>
    let name := (c :: rest).takeWhile (· != '=')
    match (c :: rest).drop name.length with
    | _ :: value => some (String.ofList name, some (String.ofList value))
    | [] => some (String.ofList name, none)
  | _ => none

def letters? (argument : String) : Option (List Char) :=
  match argument.toList with
  | '-' :: c :: rest => if c = '-' then none else some (c :: rest)
  | _ => none

namespace Level

def ofProgram : Level where
  options := Switch.everywhere
  operand := none
  commands := Command.all
  version := some (programName ++ " " ++ programVersion ++ "\n")
  help := Help.ofProgram

def ofCommand (c : Command) : Level where
  options := c.options
  operand := c.operand
  commands := []
  version := none
  help long := Help.ofCommand long c

def readLong (l : Level) (p : Progress) (name : String) (value : Option String) :
    Except Stop Progress :=
  match l.options.find? (fun o => o.long == name) with
  | some o =>
    if o.value.isSome then do
      let p ← p.resolve.mapError .fault
      match value with
      | some v => (p.take o v).mapError .fault
      | none => return { p with pending := some (o, none), awaiting := true }
    else
      match value with
      | some v => .error (.fault (.unneededValue v o.label))
      | none => do (((← p.resolve.mapError .fault).take o "").mapError .fault)
  | none =>
    if name = "help" then textOr p value name (l.help true)
    else
      match l.version with
      | some version =>
        if name = "version" then textOr p value name version
        else .error (.fault (.unexpected ("--" ++ name)))
      | none => .error (.fault (.unexpected ("--" ++ name)))
where
  /-- Shows a text, once the pending option is found to be in order. -/
  textOr (p : Progress) (value : Option String) (name text : String) : Except Stop Progress :=
    match value with
    | some v => .error (.fault (.unneededValue v ("--" ++ name)))
    | none => do
      let _ ← p.resolve.mapError Stop.fault
      .error (.shown text)

def readLetters (l : Level) (p : Progress) : List Char → Except Stop Progress
  | [] => .ok p
  | c :: rest =>
    match l.options.find? (fun o => o.short == some c) with
    | some o => do
      let p ← p.resolve.mapError .fault
      readLetters l (← (p.take o "").mapError .fault) rest
    | none =>
      if c = 'h' then do
        let _ ← p.resolve.mapError Stop.fault
        .error (.shown (l.help false))
      else
        match l.version with
        | some version =>
          if c = 'V' then do
            let _ ← p.resolve.mapError Stop.fault
            .error (.shown version)
          else .error (.fault (.unexpected ("-" ++ String.singleton c)))
        | none => .error (.fault (.unexpected ("-" ++ String.singleton c)))

/-- The fault of an argument that is neither an option nor an operand. -/
def surplus (l : Level) (dashed : Bool) (argument : String) : UsageFault :=
  if l.commands.isEmpty then .unexpected argument
  else if dashed ∧ (l.commands.any (·.name == argument) ∨ argument = helpName) then
    .unexpected argument
  else .unknownCommand argument

/-- Reads an operand; `dashed` tells whether two dashes alone came before it. -/
def readOperand (l : Level) (p : Progress) (dashed : Bool) (argument : String) :
    Except Stop Progress :=
  match l.operand with
  | none => .error (.fault (l.surplus dashed argument))
  | some a =>
    if a.many ∨ p.operands = [] then do
      let p ← p.resolve.mapError .fault
      return { p with operands := p.operands ++ [argument], awaiting := false }
    else .error (.fault (l.surplus dashed argument))

/-- What the arguments of a level end in: nothing more, or a command with its own arguments. -/
inductive Rest where
  | none
  | command (name : String) (arguments : List String)

/-- Reads arguments up to a command. -/
def read (l : Level) (p : Progress) : Bool → List String → Except Stop (Progress × Rest)
  | _, [] => .ok (p, .none)
  | true, argument :: rest => do
    l.read (← l.readOperand p true argument) true rest
  | false, argument :: rest =>
    if p.awaiting = false ∧
        (l.commands.any (·.name == argument) ∨ (l.commands ≠ [] ∧ argument = helpName)) then
      .ok (p, .command argument rest)
    else if argument = "--" then l.read p true rest
    else
      match longParts? argument with
      | some (name, value) => do l.read (← l.readLong p name value) false rest
      | none =>
        match letters? argument with
        | some letters => do l.read (← l.readLetters p letters) false rest
        | none =>
          match p.awaiting, p.pending with
          | true, some (o, _) =>
            l.read { p with pending := some (o, some argument), awaiting := false } false rest
          | _, _ => do l.read (← l.readOperand p false argument) false rest

end Level

def helpFor : List String → Stop
  | [] => .shown (Help.ofProgram true)
  | name :: rest =>
    match Command.all.find? (·.name == name), rest with
    | some c, [] => .shown (Help.ofCommand true c)
    | some _, next :: _ => .fault (.unknownCommand next)
    | none, [] => if name = helpName then .shown Help.ofHelp else .fault (.unknownCommand name)
    | none, next :: _ => .fault (.unknownCommand (if name = helpName then next else name))

def readCommand (c : Command) (arguments : List String) : Except Stop Progress := do
  let l := Level.ofCommand c
  let (p, _) ← l.read .start false arguments
  let p ← p.resolve.mapError Stop.fault
  match c.operand with
  | some a =>
    if a.required ∧ p.operands = [] then
      throw (.fault (.missingOperand (Help.operandLabel a)))
    else return p
  | none => return p

def overridesOf (p : Progress) : Overrides :=
  ⟨p.value? .baseDir, p.values .exclude, p.value? .moduleDir, p.value? .relations⟩

def layersOf (names : List String) : List Layer :=
  names.filterMap (fun name => Layer.all.find? (·.name == name))

def actionOf (c : Command) (p : Progress) : Action :=
  if c = .generate then .generate p.operands (overridesOf p) (layersOf (p.values .only))
  else if c = .check then .check p.operands (overridesOf p)
  else if c = .bindings then .bindings (p.operands.head?.getD "") (overridesOf p)
  else .catalog (p.operands.head?.getD "entity")

/-- What is given on the command's own level counts more than what is given before it. -/
def globalsOf (outer inner : Progress) : Globals where
  config := ((inner.value? .config).or (outer.value? .config)).getD Config.standardFile
  verbose := inner.isGiven .verbose || outer.isGiven .verbose
  logFormat :=
    if (inner.value? .logFormat).or (outer.value? .logFormat) = some "json" then .json else .pretty

def parse (arguments : List String) : Except Stop Invocation := do
  let l := Level.ofProgram
  match ← l.read .start false arguments with
  | (outer, .command name rest) =>
    match Command.all.find? (·.name == name) with
    | none => throw (helpFor rest)
    | some c =>
      let inner ← readCommand c rest
      let outer ← outer.resolve.mapError Stop.fault
      return ⟨globalsOf outer inner, actionOf c inner⟩
  | (outer, .none) =>
    let outer ← outer.resolve.mapError Stop.fault
    if outer.given = [] then throw (.idle (Help.ofProgram false))
    else throw (.fault .missingCommand)

end CrudLayers.CommandLine
