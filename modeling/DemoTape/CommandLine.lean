/-
# The command line

`CommandLine.run` says what a command writes and how it exits, given what is in its file. Records found before
a fault are written before it.
-/
import DemoTape.CommandLine.Arguments
import DemoTape.CommandLine.Listing

namespace DemoTape
set_option autoImplicit false

/-- Why the system could not read a file, with its number for that. -/
structure FileFailure where
  reason : String
  code : Nat
  deriving DecidableEq, Repr

namespace FileFailure

def notFound : FileFailure := ⟨"No such file or directory", 2⟩

def message (f : FileFailure) : String := f.reason ++ s!" (os error {f.code})"

end FileFailure

/-- What a command writes, line by line, and whether it succeeded. -/
structure Outcome where
  lines : List String
  errors : List String
  success : Bool
  deriving DecidableEq, Repr

namespace Outcome

def written (lines : List String) : Outcome := ⟨lines, [], true⟩

/-- The lines so far, and then an error. -/
def failed (label message : String) (lines : List String) : Outcome :=
  ⟨lines, [label ++ ": " ++ message], false⟩

def text (lines : List String) : String := String.join (lines.map (· ++ "\n"))

def stdout (o : Outcome) : String := text o.lines
def stderr (o : Outcome) : String := text o.errors
def exitCode (o : Outcome) : UInt32 := if o.success then 0 else 1

end Outcome

namespace CommandLine

def recordLine (style : OutputStyle) (r : Record) : String :=
  match style with
  | .json => r.json.compact
  | .pretty => Listing.recordLine r

def info (style : OutputStyle) (data : Bytes) : Outcome :=
  match Recording.ofBytes data with
  | .error fault => .failed "Error parsing header" fault.message []
  | .ok recording =>
    match recording.transcript.complete with
    | .error fault => .failed "Error decoding frames" fault.message []
    | .ok frames =>
      let header := recording.header
      let summary := Summary.ofFrames frames
      match style with
      | .json => .written [Json.indented (.object [
          ("file_size", .nat data.length), ("header", header.json), ("statistics", summary.json)])]
      | .pretty => .written (Listing.headerLines data.length header ++ Listing.summaryLines summary)

def unspool (options : SamplingOptions) (style : OutputStyle) (data : Bytes) : Outcome :=
  match options.sampler data with
  | .error fault => .failed "Error" fault.message []
  | .ok sampler =>
    let samples := Samples.ofTranscript sampler.query sampler.period sampler.recording.transcript
    let lines := samples.records.map (recordLine style)
    match samples.fault with
    | none => .written lines
    | some fault => .failed "Error" fault.message lines

def bounds (cls : String) (style : OutputStyle) (data : Bytes) : Outcome :=
  match changeLog data cls with
  | .error fault => .failed "Error" fault.message []
  | .ok records => .written (records.map (recordLine style))

def roster (style : OutputStyle) (data : Bytes) : Outcome :=
  match DemoTape.roster data with
  | .error fault => .failed "Error" fault.message []
  | .ok players =>
    match style with
    | .json => .written [Json.indented (.array (players.map Player.json))]
    | .pretty => .written (Listing.rosterLines players)

/-- An audit as it is shown; a file that cannot be read fails before any stage is passed. -/
def validate (file : String) (verbose : Bool) (data : Except FileFailure Bytes) : Outcome :=
  let (passed, problem, warnings) : Nat × Option String × List Warning :=
    match data with
    | .error failure => (0, some ("Failed to read file: " ++ failure.message), [])
    | .ok data =>
      let audit := Audit.ofBytes data
      (audit.passed, audit.problem, audit.warnings)
  let valid := Stage.completed passed problem
  { lines :=
      if verbose then Listing.auditLines file passed problem warnings
      else [file ++ ": " ++ Listing.verdict valid]
    errors := []
    success := valid }

/-- What a command does with the content of its file, or without it. -/
def run (invocation : Invocation) (data : Except FileFailure Bytes) : Outcome :=
  match invocation.command, data with
  | .validate verbose, data => validate invocation.file verbose data
  | _, .error failure => .failed "Error reading file" failure.message []
  | .info style, .ok data => info style data
  | .unspool options style, .ok data => unspool options style data
  | .bounds cls style, .ok data => bounds cls style data
  | .roster style, .ok data => roster style data

end CommandLine
end DemoTape
