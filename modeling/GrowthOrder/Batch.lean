import GrowthOrder.Encoding
import GrowthOrder.Files
import GrowthOrder.Report
import GrowthOrder.Settings
/-!
Reports on many files. Every file is analyzed by itself, and the files come in the order of their
paths, so the order in which a directory lists them does not matter. A file that cannot be analyzed
is reported as such and stops nothing.
-/
namespace GrowthOrder

/-- Why a file has no report. -/
inductive FileFailure
  | unread (cause : FileError)
  | unanalyzed (cause : AnalysisError)
  deriving DecidableEq

namespace FileFailure

def code : FileFailure → String
  | unread _ => "io-error"
  | unanalyzed cause => cause.code

def message : FileFailure → String
  | unread cause => cause.message
  | unanalyzed cause => cause.message

end FileFailure

/-- What became of one file. -/
structure FileReport where
  path : String
  outcome : Except FileFailure Report

namespace FileReport

/-- The report on a text that was read from a path. -/
def analyze (s : Settings) (source : String) (path : Option String) :
    Except AnalysisError Report := do
  let grammar ← s.grammar.resolve source path
  (s.dialect grammar).analyze source

/-- What becomes of the file at a path, given its bytes. -/
def ofBytes (s : Settings) (path : String) (bytes : Except FileError (List UInt8)) :
    FileReport where
  path := path
  outcome :=
    match bytes with
    | .error cause => .error (.unread cause)
    | .ok bytes => (analyze s (Encoding.decode bytes) path).mapError .unanalyzed

def toJson (r : FileReport) : Json :=
  match r.outcome with
  | .ok report => .object [("path", .text r.path), ("report", report.toJson)]
  | .error failure =>
    .object [("path", .text r.path),
      ("error", .object [("code", .text failure.code), ("message", .text failure.message)])]

/-- The cells of a file in a table: path, grammar, time and space, or the code of the failure. -/
def cells (r : FileReport) : List String :=
  match r.outcome with
  | .ok report => [r.path, report.grammar.name, report.time.text, report.space.text]
  | .error failure => [r.path, "-", failure.code, ""]

end FileReport

structure BatchReport where
  files : List FileReport

namespace BatchReport

/-- The paths of source files among those met in a directory, in order. -/
def sourcePaths (met : List String) : List String :=
  (met.filter fun path => (Path.grammar? path).isSome).mergeSort Path.le

/-- The report on the source files among those met in a directory. -/
def ofWalk (s : Settings) (met : List String) (read : String → Except FileError (List UInt8)) :
    BatchReport where
  files := (sourcePaths met).map fun path => FileReport.ofBytes s path (read path)

/-- How many files were analyzed. -/
def analyzed (b : BatchReport) : Nat :=
  b.files.countP fun file => file.outcome.isOk

/-- How many files could not be. -/
def failed (b : BatchReport) : Nat :=
  b.files.length - b.analyzed

def toJson (b : BatchReport) : Json :=
  .object [("files", .array (b.files.map FileReport.toJson))]

end BatchReport

end GrowthOrder
