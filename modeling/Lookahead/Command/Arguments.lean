/-!
# Command line arguments

The program takes two options with a value (`--grammar FILE` and `--start NT`, the second only with
the first), two flags (`--print-table` and `--tree`), and one expression. The value of an option is
the next argument, or stands after `=` in the same one. After `--` all arguments are expressions.
Options may come in any order, none of them twice.
-/

set_option autoImplicit false

namespace Lookahead.Command

inductive ValueOption where
  | grammar
  | start
  deriving DecidableEq

inductive Flag where
  | printTable
  | tree
  deriving DecidableEq

/-- An option may lack its value, which is found out at the end. -/
inductive Item where
  | option (name : ValueOption) (value : Option String)
  | flag (name : Flag)
  | expression (text : String)
  deriving DecidableEq

inductive UsageError where
  | unknownArgument (argument : String)
  | missingValue (option : String)
  | repeated (option : String)
  | startWithoutGrammar
  deriving DecidableEq

def UsageError.message : UsageError → String
  | unknownArgument argument =>
      "error: Found argument '" ++ argument ++
        "' which wasn't expected, or isn't valid in this context\n"
  | missingValue option =>
      "error: The argument '" ++ option ++ "' requires a value but none was supplied\n"
  | repeated option =>
      "error: The argument '" ++ option ++
        "' was provided more than once, but cannot be used multiple times\n"
  | startWithoutGrammar =>
      "error: The following required arguments were not provided:\n    --grammar <FILE>\n"

def ValueOption.usage : ValueOption → String
  | grammar => "--grammar <FILE>"
  | start => "--start <NT>"

def Flag.usage : Flag → String
  | printTable => "--print-table"
  | tree => "--tree"

structure Settings where
  grammar : Option String
  start : Option String
  printTable : Bool
  tree : Bool
  expression : Option String
  deriving DecidableEq

inductive Request where
  | work (settings : Settings)
  | version
  | help
  deriving DecidableEq

inductive Named where
  | option (name : ValueOption)
  | flag (name : Flag)
  | version
  | help

def longName? (name : List Char) : Option Named :=
  if name = "grammar".toList then some (.option .grammar)
  else if name = "start".toList then some (.option .start)
  else if name = "print-table".toList then some (.flag .printTable)
  else if name = "tree".toList then some (.flag .tree)
  else if name = "version".toList then some .version
  else if name = "help".toList then some .help
  else none

def shortName? (letter : Char) : Option Named :=
  if letter = 'V' then some .version
  else if letter = 'h' then some .help
  else none

/-- The value after the first `=` of an argument, without any `=` at its start. -/
def attachedValue? (argument : List Char) : Option (List Char) :=
  match argument.dropWhile (· ≠ '=') with
  | [] => none
  | _ :: value => some (value.dropWhile (· = '='))

/-- A single dash is a value. -/
def startsOption (argument : List Char) : Bool :=
  argument.head? == some '-' && argument != ['-']

/-- Any number of dashes from two on starts a long name. -/
def named? (argument : List Char) : Option (Named × Option (List Char)) :=
  let text := argument.dropWhile (· = '-')
  if argument.take 2 = ['-', '-'] then
    (longName? (text.takeWhile (· ≠ '='))).map fun name => (name, attachedValue? text)
  else
    (text.head?.bind shortName?).map fun name => (name, none)

inductive Reading where
  | answer (request : Request)
  | items (items : List Item)

def Reading.cons (item : Item) : Reading → Reading
  | answer request => answer request
  | items rest => items (item :: rest)

def readExpressions (seen : Bool) : List String → Except UsageError Reading
  | [] => .ok (.items [])
  | argument :: rest =>
      if seen then .error (.unknownArgument argument)
      else (readExpressions true rest).map (Reading.cons (.expression argument))

/-- `waiting` is the option before the arguments if it has no value yet, `seen` tells whether there
was an expression. -/
def readItems (waiting : Option ValueOption) (seen : Bool) :
    List String → Except UsageError Reading
  | [] => .ok (.items (waiting.toList.map fun name => .option name none))
  | argument :: rest =>
      let text := argument.toList
      if text = ['-', '-'] then
        (readExpressions seen rest).map fun reading =>
          match waiting with
          | some name => reading.cons (.option name none)
          | none => reading
      else if startsOption text then
        let before := fun (reading : Reading) =>
          match waiting with
          | some name => reading.cons (.option name none)
          | none => reading
        match named? text with
        | none => .error (.unknownArgument argument)
        | some (.version, _) => .ok (.answer .version)
        | some (.help, _) => .ok (.answer .help)
        | some (.flag name, _) =>
            (readItems none seen rest).map fun reading => before (reading.cons (.flag name))
        | some (.option name, some value) =>
            (readItems none seen rest).map fun reading =>
              before (reading.cons (.option name (some (String.ofList value))))
        | some (.option name, none) => (readItems (some name) seen rest).map before
      else
        match waiting with
        | some name =>
            (readItems none seen rest).map (Reading.cons (.option name (some argument)))
        | none =>
            if seen then .error (.unknownArgument argument)
            else (readItems none true rest).map (Reading.cons (.expression argument))

def valuesOf (name : ValueOption) (items : List Item) : List (Option String) :=
  items.filterMap fun item =>
    match item with
    | .option other value => if other = name then some value else none
    | _ => none

def valueOf (name : ValueOption) (items : List Item) : Except UsageError (Option String) :=
  match valuesOf name items with
  | [] => .ok none
  | [some value] => .ok (some value)
  | [none] => .error (.missingValue name.usage)
  | _ => .error (.repeated name.usage)

def isGiven (name : Flag) (items : List Item) : Except UsageError Bool :=
  match items.count (.flag name) with
  | 0 => .ok false
  | 1 => .ok true
  | _ => .error (.repeated name.usage)

def expressionOf? (items : List Item) : Option String :=
  items.findSome? fun item =>
    match item with
    | .expression text => some text
    | _ => none

def settingsOf (items : List Item) : Except UsageError Settings :=
  match valueOf .grammar items, valueOf .start items, isGiven .printTable items,
    isGiven .tree items with
  | .error error, _, _, _ => .error error
  | _, .error error, _, _ => .error error
  | _, _, .error error, _ => .error error
  | _, _, _, .error error => .error error
  | .ok none, .ok (some _), _, _ => .error .startWithoutGrammar
  | .ok grammar, .ok start, .ok printTable, .ok tree =>
      .ok ⟨grammar, start, printTable, tree, expressionOf? items⟩

def readArguments (arguments : List String) : Except UsageError Request :=
  match readItems none false arguments with
  | .error error => .error error
  | .ok (.answer request) => .ok request
  | .ok (.items items) => (settingsOf items).map .work

end Lookahead.Command
