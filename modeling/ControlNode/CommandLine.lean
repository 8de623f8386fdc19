/-!
# The command line

The options that the program is called with. Words are read from left to right; the first
one at fault, or the first call for help, decides.
-/

namespace ControlNode.CommandLine

/-! ### Options -/

structure Options where
  config : Option String := none
  logLevel : Option String := none
  printConfig : Bool := false
  deriving Repr, DecidableEq

def Options.configPath (o : Options) : String := o.config.getD "qtoggleserver.toml"

inductive Request where
  | help
  | run (options : Options)
  deriving Repr, DecidableEq

inductive Setting where
  | config
  | logLevel
  deriving Repr, DecidableEq

/-- Sets an option, which can be done once. A path is not empty. -/
def Options.set? (o : Options) (s : Setting) (value : String) : Option Options :=
  match s with
  | .config => if o.config.isSome || value.isEmpty then none else some { o with config := value }
  | .logLevel => if o.logLevel.isSome then none else some { o with logLevel := value }

/-! ### Words -/

inductive Word where
  | help
  | printConfig
  /-- An option; its value is in the same word or in the next one. -/
  | option (s : Setting) (value : Option String)
  /-- The end of the options. -/
  | endOfOptions
  | unknown
  deriving Repr, DecidableEq

def Word.ofLong (cs : List Char) : Word :=
  let value := match cs.dropWhile (· != '=') with
    | [] => none
    | _ :: value => some (String.ofList value)
  match String.ofList (cs.takeWhile (· != '=')), value with
  | "config", value => .option .config value
  | "log-level", value => .option .logLevel value
  | "print-config", none => .printConfig
  | "help", none => .help
  | _, _ => .unknown

def Word.ofChars : List Char → Word
  | ['-', '-'] => .endOfOptions
  | '-' :: '-' :: cs => .ofLong cs
  | '-' :: 'h' :: _ => .help
  | ['-', 'c'] => .option .config none
  | '-' :: 'c' :: '=' :: value => .option .config (some (String.ofList value))
  | '-' :: 'c' :: value => .option .config (some (String.ofList value))
  | _ => .unknown

/-- Whether a word can be the value of the option in front of it: a lone hyphen can, an
option cannot. -/
def isValue (word : String) : Bool :=
  match word.toList with
  | '-' :: _ :: _ => false
  | _ => true

/-- Reads the words of a call that has set some options already. -/
def parse? (o : Options) : List String → Option Request
  | [] => some (.run o)
  | word :: words =>
    match Word.ofChars word.toList with
    | .help => some .help
    | .printConfig => if o.printConfig then none else parse? { o with printConfig := true } words
    | .option s (some value) => do parse? (← o.set? s value) words
    | .option s none =>
      match words with
      | value :: words => if isValue value then do parse? (← o.set? s value) words else none
      | [] => none
    | .endOfOptions => if words.isEmpty then some (.run o) else none
    | .unknown => none

/-! ### Help -/

def usage : String := "Usage: qtoggle [OPTIONS]"

def helpText : String :=
  "qToggle control node\n\n" ++ usage ++ "\n\nOptions:\n" ++
  "  -c, --config <CONFIG>        Path to the TOML configuration file " ++
  "[default: qtoggleserver.toml]\n" ++
  "      --log-level <LOG_LEVEL>  Log filter used when RUST_LOG is not set " ++
  "(overrides the config file)\n" ++
  "      --print-config           Print the effective configuration and exit\n" ++
  "  -h, --help                   Print help\n"

end ControlNode.CommandLine
