/-
# Command line arguments

A command is named first; a file and the options of the command follow in any order. An option that takes a
value has it as the next argument, unless that looks like an option itself, or behind an equals sign, or
directly behind its letter. After `--` every argument is a file.
-/
import DemoTape.ChangeLog
import DemoTape.Sampling.Options

namespace DemoTape
set_option autoImplicit false

-- powers are those of the core library, whatever else is loaded
attribute [local instance (high)] instPowNat

inductive OutputStyle where
  | json
  | pretty
  deriving DecidableEq, Repr

inductive Command where
  | info (style : OutputStyle)
  | unspool (options : SamplingOptions) (style : OutputStyle)
  | bounds (cls : String) (style : OutputStyle)
  | roster (style : OutputStyle)
  | validate (verbose : Bool)
  deriving DecidableEq, Repr

structure Invocation where
  file : String
  command : Command
  deriving DecidableEq, Repr

namespace Arguments

/-- An option by its two names, and whether it takes a value. -/
structure Switch where
  long : String
  letter : Char
  takesValue : Bool

def output : Switch := ⟨"output", 'o', true⟩
def path : Switch := ⟨"path", 'p', true⟩
def tickFreq : Switch := ⟨"tick-freq", 't', true⟩
def cls : Switch := ⟨"class", 'c', true⟩
def verbose : Switch := ⟨"verbose", 'v', false⟩

/-- The arguments sorted: the files, and the options by their long names with their values. -/
structure Sorted where
  files : List String
  values : List (String × String)

def Sorted.file (file : String) (s : Sorted) : Sorted := { s with files := file :: s.files }

def Sorted.value (switch : Switch) (value : String) (s : Sorted) : Sorted :=
  { s with values := (switch.long, value) :: s.values }

/-- What stands behind an equals sign, if there is one in front. -/
def behindEquals : List Char → List Char
  | '=' :: rest => rest
  | text => text

/-- The option that an argument names and the value in the same argument, if it has one. -/
def named? (switches : List Switch) (argument : List Char) : Option (Switch × Option String) :=
  match argument with
  | '-' :: '-' :: text => do
    let name := text.takeWhile (· ≠ '=')
    let rest := text.dropWhile (· ≠ '=')
    let switch ← switches.find? (·.long.toList = name)
    some (switch, if rest.isEmpty then none else some (String.ofList (behindEquals rest)))
  | '-' :: letter :: rest => do
    let switch ← switches.find? (·.letter = letter)
    some (switch, if rest.isEmpty then none else some (String.ofList (behindEquals rest)))
  | _ => none

def isOption (argument : List Char) : Bool :=
  match argument with
  | '-' :: _ :: _ => true
  | _ => false

/-- Sorts the arguments behind the name of a command. -/
def sort? (switches : List Switch) : List String → Option Sorted
  | [] => some ⟨[], []⟩
  | "--" :: rest => some ⟨rest, []⟩
  | argument :: rest =>
    if isOption argument.toList then
      match named? switches argument.toList with
      | none => none
      | some (switch, value) =>
        match switch.takesValue, value, rest with
        | false, none, rest => (sort? switches rest).map (·.value switch "")
        | true, some value, rest => (sort? switches rest).map (·.value switch value)
        | true, none, value :: rest =>
          if isOption value.toList then none else (sort? switches rest).map (·.value switch value)
        | _, _, _ => none
    else (sort? switches rest).map (·.file argument)

/-- The value of an option read by `read?`, or its default. An option must not be there twice. -/
def Sorted.get {α : Type} (s : Sorted) (switch : Switch) (default : α) (read? : String → Option α) :
    Option α :=
  match s.values.filter (·.1 = switch.long) with
  | [] => some default
  | [(_, value)] => read? value
  | _ => none

def style? : String → Option OutputStyle
  | "json" => some .json
  | "pretty" => some .pretty
  | _ => none

/-- A number of ticks, read as a whole number with an optional sign: zero may have a minus in front. -/
def ticks? (text : String) : Option UInt32 := do
  let n ← readInt? text.toList
  if 0 ≤ n ∧ n < 2 ^ (32 : Nat) then some (UInt32.ofNat n.toNat) else none

/-- The switches of a command, and the command that its options ask for. -/
def command? : String → Option (List Switch × (Sorted → Option Command))
  | "info" => some ([output], fun s => do
      some (.info (← s.get output .pretty style?)))
  | "unspool" => some ([path, tickFreq, output], fun s => do
      let defaults : SamplingOptions := {}
      let path ← s.get path defaults.path some
      let ticks ← s.get tickFreq defaults.ticks ticks?
      some (.unspool { path, ticks } (← s.get output .json style?)))
  | "bounds" => some ([cls, output], fun s => do
      let cls ← s.get cls ChangeLog.worldClass some
      some (.bounds cls (← s.get output .json style?)))
  | "roster" => some ([output], fun s => do
      some (.roster (← s.get output .pretty style?)))
  | "validate" => some ([verbose], fun s => do
      some (.validate (← s.get verbose false fun _ => some true)))
  | _ => none

/-- The invocation that the arguments spell, if they are good. -/
def read? : List String → Option Invocation
  | [] => none
  | name :: rest => do
    let (switches, command?) ← command? name
    let sorted ← sort? switches rest
    let command ← command? sorted
    match sorted.files with
    | [file] => some { file, command }
    | _ => none

end Arguments
end DemoTape
