import GrowthOrder.Settings
/-!
What the program can be asked to do, and the options with which it is asked.
-/
namespace GrowthOrder

/-- The commands, by name. -/
inductive Action
  | analyze
  | tokens
  | tree
  | batch
  | initConfig
  deriving DecidableEq

namespace Action

def all : List Action :=
  [analyze, tokens, tree, batch, initConfig]

def name : Action → String
  | analyze => "analyze"
  | tokens => "tokens"
  | tree => "tree"
  | batch => "batch"
  | initConfig => "init-config"

def ofName? (name : String) : Option Action :=
  all.find? (·.name = name)

end Action

/-- The options that stand by themselves. -/
inductive Flag
  | verbose
  | quiet
  | help
  | version
  deriving DecidableEq

/-- The options that take a value. -/
inductive Parameter
  | config
  | grammar
  | format
  | output
  deriving DecidableEq

inductive Switch
  | flag (flag : Flag)
  | parameter (parameter : Parameter)
  deriving DecidableEq

namespace Switch

def all : List Switch :=
  [.flag .verbose, .flag .quiet, .flag .help, .flag .version,
    .parameter .config, .parameter .grammar, .parameter .format, .parameter .output]

def name : Switch → String
  | flag .verbose => "verbose"
  | flag .quiet => "quiet"
  | flag .help => "help"
  | flag .version => "version"
  | parameter .config => "config"
  | parameter .grammar => "grammar"
  | parameter .format => "format"
  | parameter .output => "output"

def letter : Switch → Char
  | flag .verbose => 'v'
  | flag .quiet => 'q'
  | flag .help => 'h'
  | flag .version => 'V'
  | parameter .config => 'c'
  | parameter .grammar => 'g'
  | parameter .format => 'f'
  | parameter .output => 'o'

/-- Whether an option can stand behind a command, or before any. -/
def allowed (action : Option Action) : Switch → Bool
  | flag .verbose | flag .quiet | flag .help | parameter .config => true
  | flag .version => action.isNone
  | parameter .grammar => action.any (· ≠ .initConfig)
  | parameter .format => action = some .analyze ∨ action = some .batch
  | parameter .output => action = some .analyze ∨ action = some .batch ∨ action = some .initConfig

end Switch

/-- Whether a parameter takes this value. -/
def Parameter.accepts (value : String) : Parameter → Bool
  | config | output => value ≠ ""
  | grammar => (GrammarChoice.ofName value).isOk
  | format => (OutputFormat.ofName? value).isSome

/-- How much is to be logged. -/
inductive Verbosity
  | quiet
  | normal
  | verbose
  deriving DecidableEq

namespace Verbosity

def name : Verbosity → String
  | quiet => "Quiet"
  | normal => "Normal"
  | verbose => "Verbose"

/-- The wish for more wins over the wish for less. -/
def ofFlags (wantsMore wantsLess : Bool) : Verbosity :=
  if wantsMore then verbose else if wantsLess then quiet else normal

end Verbosity

/-- A command with its options. -/
inductive Command
  | analyze (file : Option String) (output : Option String)
  | tokens (file : Option String)
  | tree (file : Option String)
  | batch (directory : String) (output : Option String)
  | initConfig (output : String)
  deriving DecidableEq

/-- A call of the program: the command, what of the settings the options replace, and the file from
which the settings come. -/
structure Invocation where
  command : Command
  config : Option String := none
  grammar : Option GrammarChoice := none
  format : Option OutputFormat := none
  verbosity : Verbosity := .normal
  deriving DecidableEq

/-- The settings as the options change them. -/
def Invocation.override (i : Invocation) (s : Settings) : Settings :=
  { s with grammar := i.grammar.getD s.grammar, format := i.format.getD s.format }

end GrowthOrder
