import GrowthOrder.Command.Arguments
import GrowthOrder.Output
import GrowthOrder.Settings.Load
import GrowthOrder.Tree.Outline
/-!
Running a command. The run sees files and standard streams through a host, so that the same run can
be made on a machine and on a tree of files in memory.
-/
namespace GrowthOrder

/-- The files and streams that a run uses. -/
structure Host (m : Type → Type) where
  /-- Whether there is anything at a path. -/
  contains : String → m Bool
  read : String → m (Except FileError (List UInt8))
  /-- The regular files at and below a path. -/
  walk : String → m (List String)
  /-- Writes a text to a file; gives whether that was possible. -/
  write : String → String → m Bool
  /-- All of standard input. -/
  input : m (List UInt8)
  print : String → m Unit
  /-- Writes a line for the user, apart from the output. -/
  warn : String → m Unit
  colored : Bool := false

/-- Why a run stops. -/
inductive Failure
  | settings (cause : SettingsError)
  | missing (what path : String)
  | unread (path : String)
  | unreadInput
  | uncreated (path : String)
  | unwritten (path : String)
  | analysis (cause : AnalysisError)
  deriving DecidableEq

namespace Failure

/-- The complaint that there is nothing at a path. -/
def missingText (what path : String) : String :=
  what ++ " does not exist: " ++ path

def message : Failure → String
  | settings cause => cause.message
  | missing what path => missingText what path
  | unread path => "Failed to read " ++ path
  | unreadInput => "Failed to read standard input"
  | uncreated path => "Failed to create " ++ path
  | unwritten path => "Failed to write config to " ++ path
  | analysis cause => cause.message

end Failure

namespace Host

variable {m : Type → Type} [Monad m]

/-- A run that may stop. -/
abbrev Run (m : Type → Type) := ExceptT Failure m

def fromAnalysis {α : Type} (result : Except AnalysisError α) : Run m α :=
  ExceptT.mk (pure (result.mapError .analysis))

/-- Fails where there is nothing at a path. -/
def demand (h : Host m) (what path : String) : Run m Unit := do
  unless ← h.contains path do
    throw (.missing what path)

/-- The source text: from a file, or typed. -/
def source (h : Host m) : Option String → Run m String
  | some path => do
    h.demand "Input file" path
    match ← h.read path with
    | .ok bytes => return Encoding.decode bytes
    | .error _ => throw (.unread path)
  | none => do
    match Encoding.decodeTyped? (← h.input) with
    | some text => return text
    | none => throw .unreadInput

/-- Tells the user that something has been done. -/
def succeed (h : Host m) (text : String) : Run m Unit :=
  h.print (Emphasis.success.apply h.colored "✅" ++ " " ++
    Emphasis.success.apply h.colored text ++ "\n")

def caution (h : Host m) (text : String) : Run m Unit :=
  h.warn (Emphasis.warning.apply h.colored "⚠️" ++ " " ++ Emphasis.warning.apply h.colored text)

/-- How results are written under these settings. -/
def output (h : Host m) (s : Settings) : Output where
  format := s.format
  pretty := s.pretty
  colored := h.colored

/-- Writes a result to a file, or prints it. -/
def deliver (h : Host m) (text : String) : Option String → Run m Unit
  | none => h.print text
  | some path => do
    unless ← h.write path text do
      throw (.uncreated path)

def runAnalyze (h : Host m) (s : Settings) (file output : Option String) : Run m Unit := do
  let source ← h.source file
  let report ← fromAnalysis (FileReport.analyze s source file)
  h.deliver ((h.output s).report report) output
  match output with
  | some path => h.succeed ("Report written to " ++ path)
  | none => pure ()

def runTokens (h : Host m) (s : Settings) (file : Option String) : Run m Unit := do
  let source ← h.source file
  let grammar ← fromAnalysis (s.grammar.resolve source file)
  let tokens := grammar.tokenize source
  h.print (String.join (tokens.map (·.line ++ "\n")) ++ "\n" ++ (Tally.ofTokens tokens).render)

def runTree (h : Host m) (s : Settings) (file : Option String) : Run m Unit := do
  let source ← h.source file
  let grammar ← fromAnalysis (s.grammar.resolve source file)
  let dialect := s.dialect grammar
  let tree ← fromAnalysis (SyntaxTree.ofTokens dialect (dialect.tokenize source))
  h.print tree.outline
  if 0 < tree.unclosedScopes then
    h.caution (Report.openScopes tree.unclosedScopes)

/-- The report on the source files at and below a path. -/
def batchReport (h : Host m) (s : Settings) (directory : String) : m BatchReport := do
  let paths := BatchReport.sourcePaths (← h.walk directory)
  return ⟨← paths.mapM fun path => return FileReport.ofBytes s path (← h.read path)⟩

def runBatch (h : Host m) (s : Settings) (directory : String) (output : Option String) :
    Run m Unit := do
  h.demand "Directory" directory
  let batch ← h.batchReport s directory
  h.deliver ((h.output s).batch batch) output
  if 0 < batch.failed then
    h.caution (toString batch.failed ++ " file(s) could not be analyzed")

def runInitConfig (h : Host m) (output : String) : Run m Unit := do
  unless ← h.write output ({} : Settings).toText do
    throw (.unwritten output)
  h.succeed ("Configuration written to " ++ output)

/-- The settings of a call: from their file, if one is given, as the options change them. -/
def settings (h : Host m) (i : Invocation) : Run m Settings := do
  match i.config with
  | none => return i.override {}
  | some path =>
    match Settings.load path (← h.read path) with
    | .ok s => return i.override s
    | .error cause => throw (.settings cause)

/-- Runs a call of the program. -/
def run (h : Host m) (i : Invocation) : Run m Unit := do
  let s ← h.settings i
  match i.command with
  | .analyze file output => h.runAnalyze s file output
  | .tokens file => h.runTokens s file
  | .tree file => h.runTree s file
  | .batch directory output => h.runBatch s directory output
  | .initConfig output => h.runInitConfig output

/-- The text that names the program and its version. -/
def versionText : String := "complexity-analyzer 0.1.0\n"

/-- The text that says how the program is called. -/
def usageText : String :=
  "Usage: complexity-analyzer [OPTIONS] <analyze|tokens|tree|batch|init-config>\n"

/-- What is left of a call: the number that the program ends with, and why it stopped. -/
structure Ending where
  exitCode : UInt32
  failure : Option Failure := none

/-- Makes the call that the words of a command line are. -/
def call (h : Host m) (words : List String) : m Ending := do
  match Invocation.ofWords words with
  | .error .misuse => return { exitCode := 2 }
  | .error .help =>
    h.print usageText
    return { exitCode := 0 }
  | .error .version =>
    h.print versionText
    return { exitCode := 0 }
  | .ok invocation =>
    match ← (h.run invocation).run with
    | .ok _ => return { exitCode := 0 }
    | .error failure => return { exitCode := 1, failure := some failure }

end Host

end GrowthOrder
