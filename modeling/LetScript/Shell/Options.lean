/-!
Arguments of the command line: `-v` or `--verbose` any number of times, `--prompt` with a text, and
at most one file. Behind `--` everything is taken as a file.
-/
namespace LetScript.Shell

structure Options where
  verbosity : Nat
  prompt : Option String
  file : Option String
  deriving DecidableEq, Repr

/-- What the arguments ask for. -/
inductive Command where
  | file (path : String)
  | repl (prompt : String)
  deriving DecidableEq, Repr

/-- Why the arguments ask for nothing of the kind. -/
inductive Halt where
  | help
  | unexpected (argument : String)
  | noValue (option : String)
  deriving DecidableEq, Repr

def Halt.message : Halt → String
  | help => "help was asked for"
  | unexpected argument => "unexpected argument: " ++ argument
  | noValue option => "a value is missing behind " ++ option

namespace Options

def defaultPrompt : String := ">> "

/-- The options when no argument is given. -/
def initial : Options := ⟨0, none, none⟩

/-- A lone hyphen is an ordinary text. -/
def isOption (argument : String) : Bool :=
  match argument.toList with
  | '-' :: _ :: _ => true
  | _ => false

def withFile (o : Options) (path : String) : Except Halt Options :=
  if o.file.isSome then .error (.unexpected path) else .ok { o with file := some path }

def withPrompt (o : Options) (prompt : String) : Except Halt Options :=
  if o.prompt.isSome then .error (.unexpected "--prompt")
  else .ok { o with prompt := some prompt }

/-- One-letter options can share a hyphen. -/
def withLetters (o : Options) : List Char → Except Halt Options
  | [] => .ok o
  | 'v' :: rest => withLetters { o with verbosity := o.verbosity + 1 } rest
  | 'h' :: _ => .error .help
  | c :: _ => .error (.unexpected (String.ofList ['-', c]))

/-- A long option that needs no argument behind it. -/
def withLong (o : Options) (argument : String) (text : List Char) : Except Halt Options :=
  match text.span (· ≠ '=') with
  | (name, []) =>
    if name = "verbose".toList then .ok { o with verbosity := o.verbosity + 1 }
    else if name = "help".toList then .error .help
    else .error (.unexpected argument)
  | (name, _ :: value) =>
    if name = "prompt".toList then o.withPrompt (String.ofList value)
    else .error (.unexpected argument)

def read (o : Options) : List String → Except Halt Options
  | [] => .ok o
  | "--" :: files => files.foldlM withFile o
  | ["--prompt"] => .error (.noValue "--prompt")
  | "--prompt" :: value :: rest => do
    if isOption value then throw (.noValue "--prompt")
    (← o.withPrompt value).read rest
  | argument :: rest => do
    let next ← match argument.toList with
      | '-' :: '-' :: long => o.withLong argument long
      | '-' :: c :: letters => o.withLetters (c :: letters)
      | _ => o.withFile argument
    next.read rest

def command (o : Options) : Command :=
  match o.file with
  | some path => .file path
  | none => .repl (o.prompt.getD defaultPrompt)

end Options

def Command.ofArguments (arguments : List String) : Except Halt Command :=
  return (← Options.initial.read arguments).command

end LetScript.Shell
