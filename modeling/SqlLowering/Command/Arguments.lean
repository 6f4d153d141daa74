import SqlLowering.Format.Mode

/-!
# Arguments of the command line

A command with its options. The two general options may stand before and after the name of the
command; where both places give one, the later place wins, and within one place an option may be
given once. An option is written `--name value`, `--name=value`, `-n value`, `-nvalue` or
`-n=value`. A word that begins with a hyphen and has more than that is an option, up to the word
`--`.
-/

namespace SqlLowering.Command

open Format

/-- How a lowered expression is shown. -/
inductive OutputFormat where
  | text
  | json
deriving DecidableEq, Repr

/-- What is to be done. -/
inductive Task where
  | translate (input : String) (format : OutputFormat)
  | format (pattern : String) (mode : Mode)
  | features
deriving DecidableEq, Repr

/-- A request to the program. -/
inductive Request where
  /-- show the name and version of the program -/
  | version
  /-- show how the program is used -/
  | help
  | run (config : Option String) (dialectVersion : Option String) (task : Task)
deriving DecidableEq, Repr

namespace Arguments

/-- An option with a value. -/
inductive Opt where
  | config
  | dialectVersion
  | format
  | mode
deriving DecidableEq, Repr

/-- A word of the command line, read as far as it shows by itself. -/
inductive Word where
  /-- an option, perhaps with its value in the same word -/
  | opt (o : Opt) (value : Option String)
  | version
  | help
  /-- the end of options -/
  | divider
  | plain (text : String)
  | unknown
deriving DecidableEq, Repr

/-- The place of a word: before the name of the command, or after it. -/
inductive Place where
  | general
  | translate
  | format
  | features
deriving DecidableEq, Repr

/-- The options that a place knows, with their long and short names. -/
def Place.options : Place → List (Opt × String × Option Char)
  | .general | .features => general
  | .translate => (.format, "format", some 'f') :: general
  | .format => (.mode, "mode", some 'm') :: general
where
  general : List (Opt × String × Option Char) :=
    [(.config, "config", some 'c'), (.dialectVersion, "dialect-version", none)]

/-- Read a word after two hyphens. -/
def longWord (place : Place) (name : List Char) : Word :=
  let (name, value) := match name.dropWhile (· != '=') with
    | _ :: value => (name.takeWhile (· != '='), some (String.ofList value))
    | [] => (name, none)
  let name := String.ofList name
  match place.options.find? (·.2.1 == name) with
  | some (o, _, _) => .opt o value
  | none =>
    if name = "help" ∧ value = none then .help
    else if name = "version" ∧ value = none ∧ place = .general then .version
    else .unknown

/-- Read a word after one hyphen. -/
def shortWord (place : Place) (letter : Char) (rest : List Char) : Word :=
  match place.options.find? (·.2.2 == some letter) with
  | some (o, _, _) =>
    match rest with
    | [] => .opt o none
    | '=' :: value => .opt o (some (String.ofList value))
    | value => .opt o (some (String.ofList value))
  | none =>
    if letter = 'h' then .help
    else if letter = 'V' ∧ place = .general then .version
    else .unknown

/-- Read a word. -/
def Word.read (place : Place) (word : String) : Word :=
  match word.toList with
  | '-' :: '-' :: [] => .divider
  | '-' :: '-' :: name => longWord place name
  | '-' :: letter :: rest => shortWord place letter rest
  | _ => .plain word

/-- What the words of one place say: the options, and the words that are none. -/
structure Given where
  options : List (Opt × String) := []
  plain : List String := []

/-- How reading the words of a place ends. -/
inductive Reading where
  | given (g : Given)
  /-- a word that is the name of a command, and the words after it -/
  | command (g : Given) (place : Place) (words : List String)
  | version
  | help
  | misused

/-- A value that an option accepts. A file must have a name, and a choice must be one of its
names. -/
def Opt.accepts (value : String) : Opt → Bool
  | .config => !value.isEmpty
  | .dialectVersion => true
  | .format => value == "text" || value == "json"
  | .mode => (Mode.ofText? value).isSome

/-- Add an option; it must be new and its value acceptable. -/
def Given.add? (g : Given) (o : Opt) (value : String) : Option Given :=
  if (g.options.lookup o).isSome ∨ !o.accepts value then none
  else some { g with options := g.options ++ [(o, value)] }

/-- The place that a command's name leads to. -/
def Place.ofName? : String → Option Place
  | "translate" => some .translate
  | "format" => some .format
  | "features" => some .features
  | _ => none

/-- The number of words besides options that a place has room for. -/
def Place.room : Place → Nat
  | .translate | .format => 1
  | .general | .features => 0

/-- Whether help can be asked for with these words: on the whole, or on one command. -/
def isHelpTopic : List String → Bool
  | [] => true
  | [name] => name == "help" || (Place.ofName? name).isSome
  | _ => false

/-- Read the words of a place from left to right; the first word that is out of place decides. -/
def scan (place : Place) (g : Given) : List String → Reading
  | [] => .given g
  | word :: words =>
    match Word.read place word with
    | .version => .version
    | .help => .help
    | .unknown => .misused
    | .divider => .given { g with plain := g.plain ++ words }
    | .opt o (some value) =>
      match g.add? o value with
      | some g => scan place g words
      | none => .misused
    | .opt o none =>
      match words with
      | value :: words =>
        match Word.read place value with
        | .plain value =>
          match g.add? o value with
          | some g => scan place g words
          | none => .misused
        | _ => .misused
      | [] => .misused
    | .plain text =>
      if place = .general then
        match Place.ofName? text with
        | some command => .command g command words
        | none => if text = "help" ∧ isHelpTopic words then .help else .misused
      else if g.plain.length < place.room then
        scan place { g with plain := g.plain ++ [text] } words
      else
        .misused

/-- The task of a command, given the words after its name. -/
def task? (place : Place) (g : Given) : Option Task :=
  match place, g.plain with
  | .translate, [input] =>
    some (.translate input (if g.options.lookup .format = some "json" then .json else .text))
  | .format, [pattern] =>
    some (.format pattern (((g.options.lookup .mode).bind Mode.ofText?).getD .symbol))
  | .features, [] => some .features
  | _, _ => none

/-- The value of a general option: the one after the name of the command, or else the one before
it. -/
def general? (before after : Given) (o : Opt) : Option String :=
  after.options.lookup o <|> before.options.lookup o

/-- The configuration file that the environment names. It stands in wherever the option is absent,
so its name must not be empty unless both places have the option. -/
def environmentAccepted (before after : Given) (environment : Option String) : Bool :=
  environment.all fun value =>
    Opt.accepts value .config ||
      ((before.options.lookup .config).isSome && (after.options.lookup .config).isSome)

/-- Read the command line; the environment may name a configuration file. -/
def parse? (environment : Option String) (words : List String) : Option Request :=
  match scan .general {} words with
  | .version => some .version
  | .help => some .help
  | .command before place words =>
    match scan place {} words with
    | .help => some .help
    | .given after =>
      if environmentAccepted before after environment then
        (task? place after).map
          (.run (general? before after .config <|> environment)
            (general? before after .dialectVersion))
      else none
    | _ => none
  | _ => none

end Arguments

end SqlLowering.Command
