import SqlLowering.Codec.Expr
import SqlLowering.Command.Arguments
import SqlLowering.Command.Output
import SqlLowering.Config
import SqlLowering.Lowering.Root

/-!
# Running commands

A command reads its arguments, then the configuration, then the version given on the command line,
and then does its task. What it needs from its surroundings comes through a record of actions, so
that it runs in any monad. The first failure ends it.
-/

namespace SqlLowering.Command

open Dialect

/-- The name of a configuration file. -/
def configFile : String := "pushdown.toml"

/-- The name of the program and its version. -/
def programVersion : String := "pushdown 0.1.0"

/-- The variable of the environment that names a configuration file. -/
def configVariable : String := "PUSHDOWN_CONFIG"

/-- How the program is used. -/
def usage : String :=
  lines
    ["Usage: pushdown [-c <PATH>] [--dialect-version <VERSION>] <COMMAND>",
     "",
     "Commands:",
     "  translate <INPUT> [-f text|json]           translate an expression tree",
     "  format <PATTERN> [-m symbol|specifier]     convert a date format pattern",
     "  features                                   list features that depend on the version"]

/-- Why a command fails. -/
inductive Failure where
  /-- the arguments are not understood -/
  | misused
  /-- the configuration file named by an option or by the environment -/
  | config (path : String)
  /-- the configuration file found at its usual place -/
  | usualConfig
  | unreadable (path : String)
  | unreadableInput
  /-- the input is not an expression -/
  | notExpression
  | error (e : Error)
deriving DecidableEq, Repr

namespace Failure

/-- The exit code. -/
def code : Failure → UInt32
  | misused => 2
  | _ => 1

/-- The wording, if the failure has one of its own. -/
def message? : Failure → Option String
  | misused => none
  | config path => some ("Failed to load config from " ++ path)
  | usualConfig => some ("Failed to load " ++ configFile)
  | unreadable path => some ("Failed to read " ++ path)
  | unreadableInput => some "Failed to read expression from stdin"
  | notExpression => some "Input is not a valid expression tree"
  | error e => some e.message

end Failure

/-- What a command needs from its surroundings. -/
structure Host (m : Type → Type) where
  /-- the content of a file, if it can be read -/
  contentOf : String → m (Option String)
  /-- whether a path leads to a file -/
  isFile : String → m Bool
  /-- the standard input, if it can be read -/
  inputText : m (Option String)
  /-- the value of a variable of the environment -/
  environment : String → m (Option String)
  /-- the directory of the user's configuration files -/
  configDirectory : m (Option String)

variable {m : Type → Type} [Monad m]

/-- The configuration in a file. -/
def Host.configAt (host : Host m) (path : String) : m (Except Error Config) := do
  match ← host.contentOf path with
  | some text => pure (Config.ofText text)
  | none => pure (.error .unreadable)

/-- The usual place of a configuration file where there is one: the working directory, or else the
user's directory. -/
def Host.usualConfigPath? (host : Host m) : m (Option String) := do
  if ← host.isFile configFile then
    pure (some configFile)
  else
    match ← host.configDirectory with
    | some directory =>
      let path := directory ++ "/pushdown/" ++ configFile
      if ← host.isFile path then pure (some path) else pure none
    | none => pure none

/-- The configuration: the named file, the file at its usual place, or everything left out. -/
def Host.config (host : Host m) : Option String → m (Except Failure Config)
  | some path => do pure ((← host.configAt path).mapError fun _ => .config path)
  | none => do
    match ← host.usualConfigPath? with
    | some path => pure ((← host.configAt path).mapError fun _ => .usualConfig)
    | none => pure (.ok {})

/-- The version on the command line goes before the configured one. -/
def withVersion (config : Config) : Option String → Except Error Config
  | none => .ok config
  | some text => do
    let _ ← Version.parse text
    pure { config with declared := some text }

/-- The text of the expression: the standard input for a hyphen, a file otherwise. -/
def Host.input (host : Host m) (path : String) : m (Except Failure String) := do
  if path = "-" then
    pure ((← host.inputText).elim (.error .unreadableInput) .ok)
  else
    pure ((← host.contentOf path).elim (.error (.unreadable path)) .ok)

/-- Lower the expression in a text. -/
def lowerText (ctx : Context) (format : OutputFormat) (text : String) :
    Except Failure String := do
  let some e := Expr.ofText? text | .error .notExpression
  let rendered ← match (e.lowerRoot ctx).outcome with
    | .done f => pure (some f.render)
    | .untranslatable => pure none
    | .unknownWeekday name => .error (.error (.unknownWeekday name))
  match format with
  | .text => pure (loweredText ctx.version rendered)
  | .json => pure ((loweredJson ctx.version rendered).sorted.pretty ++ "\n")

/-- Do a task. The context is made before the expression is read. -/
def Host.perform (host : Host m) (config : Config) : Task → m (Except Failure String)
  | .translate path format =>
    match config.context with
    | .error e => pure (.error (.error e))
    | .ok ctx => do pure ((← host.input path).bind (lowerText ctx format))
  | .format pattern mode => pure (.ok (formatText (mode.notice pattern)))
  | .features =>
    pure ((config.version.map featuresText).mapError .error)

/-- Run a command line and say what it prints. -/
def Host.run (host : Host m) (words : List String) : m (Except Failure String) := do
  match Arguments.parse? (← host.environment configVariable) words with
  | none => pure (.error .misused)
  | some .version => pure (.ok (lines [programVersion]))
  | some .help => pure (.ok usage)
  | some (.run path version task) =>
    match (← host.config path).bind fun c => (withVersion c version).mapError .error with
    | .error failure => pure (.error failure)
    | .ok config => host.perform config task

end SqlLowering.Command
