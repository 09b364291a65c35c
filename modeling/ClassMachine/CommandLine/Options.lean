import ClassMachine.Text.Split

/-!
# Command line options

One class file is given by its path. Directories for other classes may be given several times, and
several at a time with colons between them; the method and its descriptor once. The value of an
option stands behind an equals sign, behind the letter of a short option, or in the next argument,
which then does not look like an option. Behind `--` nothing is an option.
-/

namespace ClassMachine.CommandLine

structure Options where
  classFile : String
  classPath : List String
  method : String
  descriptor : String
deriving Repr, DecidableEq, Inhabited

inductive UsageError where
  | missingClassFile
  | unexpectedArgument (argument : String)
  | missingValue (option : String)
  | emptyValue (option : String)
  | repeated (option : String)
deriving Repr, DecidableEq, Inhabited

/-- What a command line asks for. -/
inductive Request where
  | run (options : Options)
  | version
  | help
deriving Repr, DecidableEq, Inhabited

/-- Options that take a value. -/
inductive Setting where
  | classPath
  | method
  | descriptor
deriving Repr, DecidableEq, Inhabited

def Setting.longName : Setting → String
  | classPath => "class-path"
  | method => "method"
  | descriptor => "descriptor"

def defaultMethod : String := "main"

def defaultDescriptor : String := "([Ljava/lang/String;)V"

/-- The options seen so far. -/
structure Partial where
  classFile : Option String := none
  classPath : List String := []
  method : Option String := none
  descriptor : Option String := none
deriving Repr, DecidableEq, Inhabited

namespace Partial

def set (seen : Partial) : Setting → String → Except UsageError Partial
  | .classPath, value =>
    let directories := Text.split ':' value
    if directories.contains "" then .error (.emptyValue Setting.classPath.longName)
    else .ok { seen with classPath := seen.classPath ++ directories }
  | .method, value =>
    if seen.method.isSome then .error (.repeated Setting.method.longName)
    else .ok { seen with method := some value }
  | .descriptor, value =>
    if seen.descriptor.isSome then .error (.repeated Setting.descriptor.longName)
    else .ok { seen with descriptor := some value }

def setClassFile (seen : Partial) (path : String) : Except UsageError Partial :=
  if seen.classFile.isSome then .error (.unexpectedArgument path)
  else if path = "" then .error (.emptyValue "class file")
  else .ok { seen with classFile := some path }

def finish (seen : Partial) : Except UsageError Request :=
  match seen.classFile with
  | none => .error .missingClassFile
  | some classFile => .ok (.run {
      classFile
      classPath := seen.classPath
      method := seen.method.getD defaultMethod
      descriptor := seen.descriptor.getD defaultDescriptor })

end Partial

/-- What an argument looks like before its value is known. -/
inductive Shape where
  | positional
  | setting (setting : Setting) (value : Option String)
  | version
  | help
  | unknown
deriving Repr, DecidableEq, Inhabited

/-- An option with a long name; the value follows the first equals sign. -/
def longShape (text : List Char) : Shape :=
  let name := String.ofList (text.takeWhile (· ≠ '='))
  let value := match text.dropWhile (· ≠ '=') with
    | [] => none
    | _ :: value => some (String.ofList value)
  match [Setting.classPath, .method, .descriptor].find? (·.longName = name) with
  | some setting => .setting setting value
  | none =>
    if value.isSome then .unknown
    else if name = "version" then .version
    else if name = "help" then .help
    else .unknown

def shape (argument : String) : Shape :=
  match argument.toList with
  | '-' :: '-' :: text => longShape text
  | ['-', 'c'] => .setting .classPath none
  | '-' :: 'c' :: '=' :: value => .setting .classPath (some (String.ofList value))
  | '-' :: 'c' :: value => .setting .classPath (some (String.ofList value))
  | '-' :: 'V' :: _ => .version
  | '-' :: 'h' :: _ => .help
  | '-' :: _ :: _ => .unknown
  | _ => .positional

/-- Whether an argument can be the value of the option before it. -/
def isValue (argument : String) : Bool :=
  shape argument == .positional

/-- Reads arguments from the left and stops at the first error. -/
def parseFrom (seen : Partial) : List String → Except UsageError Request
  | [] => seen.finish
  | argument :: rest =>
    if argument = "--" then rest.foldlM Partial.setClassFile seen >>= Partial.finish
    else
      match shape argument with
      | .positional => do parseFrom (← seen.setClassFile argument) rest
      | .setting setting (some value) => do parseFrom (← seen.set setting value) rest
      | .setting setting none =>
        match rest with
        | [] => .error (.missingValue setting.longName)
        | value :: rest => do
          if !isValue value then .error (.missingValue setting.longName)
          parseFrom (← seen.set setting value) rest
      | .version => .ok .version
      | .help => .ok .help
      | .unknown => .error (.unexpectedArgument argument)

def parse (arguments : List String) : Except UsageError Request :=
  parseFrom {} arguments

def UsageError.message : UsageError → String
  | missingClassFile => "a class file is required"
  | unexpectedArgument argument => "unexpected argument '" ++ argument ++ "'"
  | missingValue option => "a value is required for '" ++ option ++ "'"
  | emptyValue option => "an empty value is not allowed for '" ++ option ++ "'"
  | repeated option => "'" ++ option ++ "' cannot be given more than once"

end ClassMachine.CommandLine
