import GrowthOrder.Command
/-!
The words of a command line. Options stand before or behind the command; a value follows its option
or is attached to it, and letters of options can be joined. After two dashes all words are plain.
The words are read from left to right and the first that does not fit decides.
-/
namespace GrowthOrder

/-- Why nothing is to be run. -/
inductive Stop
  /-- The words are not a call of the program. -/
  | misuse
  | help
  | version
  deriving DecidableEq

/-- What was read of the words before the command or behind it. -/
structure Given where
  flags : List Flag := []
  values : List (Parameter × String) := []
  words : List String := []

namespace Given

/-- Adds a flag, which can be given once. -/
def addFlag (g : Given) (flag : Flag) : Except Stop Given :=
  if flag = .help then .error .help
  else if flag = .version then .error .version
  else if flag ∈ g.flags then .error .misuse
  else .ok { g with flags := flag :: g.flags }

/-- Adds a value, which a parameter can be given once. -/
def addValue (g : Given) (parameter : Parameter) (value : String) : Except Stop Given :=
  if parameter.accepts value ∧ (g.values.lookup parameter).isNone then
    .ok { g with values := (parameter, value) :: g.values }
  else .error .misuse

/-- Adds a word that is no option, where the command takes one more. -/
def addWord (g : Given) (action : Action) (word : String) : Except Stop Given :=
  if action ≠ .initConfig ∧ g.words = [] ∧ word ≠ "" then .ok { g with words := [word] }
  else .error .misuse

/-- Reads joined letters. The last can be one that awaits its value. -/
def addLetters (g : Given) (action : Option Action) :
    List Char → Except Stop (Given × Option Parameter)
  | [] => .ok (g, none)
  | c :: cs =>
    match Switch.all.find? fun switch => switch.allowed action && switch.letter == c with
    | none => .error .misuse
    | some (.flag flag) =>
      match g.addFlag flag with
      | .error stop => .error stop
      | .ok g => g.addLetters action cs
    | some (.parameter parameter) =>
      match cs with
      | [] => .ok (g, some parameter)
      | '=' :: value => (g.addValue parameter (String.ofList value)).map (·, none)
      | value => (g.addValue parameter (String.ofList value)).map (·, none)

/-- Reads an option by its name, which a value can follow behind a sign of equality. -/
def addNamed (g : Given) (action : Option Action) (cs : List Char) :
    Except Stop (Given × Option Parameter) :=
  let name := cs.takeWhile (· ≠ '=')
  let attached :=
    match cs.drop name.length with
    | [] => none
    | _ :: value => some (String.ofList value)
  match Switch.all.find? fun switch =>
      switch.allowed action && switch.name == String.ofList name, attached with
  | some (.flag flag), none => (g.addFlag flag).map (·, none)
  | some (.parameter parameter), none => .ok (g, some parameter)
  | some (.parameter parameter), some value => (g.addValue parameter value).map (·, none)
  | _, _ => .error .misuse

/-- Whether a word is an option or the end of the options. -/
def isOption : List Char → Bool
  | '-' :: _ :: _ => true
  | _ => false

/-- Reads an option, by its name or letters. -/
def addOption (g : Given) (action : Option Action) : List Char →
    Except Stop (Given × Option Parameter)
  | '-' :: '-' :: cs => g.addNamed action cs
  | '-' :: cs => g.addLetters action cs
  | _ => .error .misuse

/-- Reads the words behind a command. -/
def behind (action : Action) (g : Given) : List String → Except Stop Given
  | [] => .ok g
  | "--" :: rest => rest.foldlM (fun g word => g.addWord action word) g
  | word :: rest =>
    if isOption word.toList then
      match g.addOption (some action) word.toList, rest with
      | .error stop, _ => .error stop
      | .ok (g, none), rest => behind action g rest
      | .ok (_, some _), [] => .error .misuse
      | .ok (g, some parameter), value :: rest =>
        if isOption value.toList then .error .misuse
        else
          match g.addValue parameter value with
          | .error stop => .error stop
          | .ok g => behind action g rest
    else
      match g.addWord action word with
      | .error stop => .error stop
      | .ok g => behind action g rest

/-- Reads the words up to the command, then those behind it. -/
def before (g : Given) : List String → Except Stop (Given × Action × Given)
  | [] => .error .misuse
  | word :: rest =>
    if isOption word.toList then
      match g.addOption none word.toList, rest with
      | .error stop, _ => .error stop
      | .ok (g, none), rest => before g rest
      | .ok (_, some _), [] => .error .misuse
      | .ok (g, some parameter), value :: rest =>
        if isOption value.toList then .error .misuse
        else
          match g.addValue parameter value with
          | .error stop => .error stop
          | .ok g => before g rest
    else if word = "help" then .error .help
    else
      match Action.ofName? word with
      | none => .error .misuse
      | some action => (behind action {} rest).map (g, action, ·)

end Given

namespace Invocation

/-- The command with what stands behind it. -/
def commandOf (action : Action) (g : Given) : Except Stop Command :=
  let output := g.values.lookup .output
  match action, g.words with
  | .analyze, words => .ok (.analyze words.head? output)
  | .tokens, words => .ok (.tokens words.head?)
  | .tree, words => .ok (.tree words.head?)
  | .batch, directory :: _ => .ok (.batch directory output)
  | .batch, [] => .error .misuse
  | .initConfig, _ => .ok (.initConfig (output.getD "complexity.toml"))

/-- Reads the words of a command line. What stands behind the command wins over what stands before
it. -/
def ofWords (words : List String) : Except Stop Invocation := do
  let (outer, action, inner) ← Given.before {} words
  let command ← commandOf action inner
  let flags := inner.flags ++ outer.flags
  return {
    command
    config := (inner.values ++ outer.values).lookup .config
    grammar := (inner.values.lookup .grammar).bind fun name => (GrammarChoice.ofName name).toOption
    format := (inner.values.lookup .format).bind OutputFormat.ofName?
    verbosity := .ofFlags (.verbose ∈ flags) (.quiet ∈ flags) }

end Invocation

end GrowthOrder
