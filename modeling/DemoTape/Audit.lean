/-
# Audits

An audit takes a recording through three stages: reading the header, decoding the frames, applying them as they
are decoded once more. The first fault ends it, in the stage behind those that were passed. What is only
suspicious is a warning.
-/
import DemoTape.Recording
import DemoTape.Scene

namespace DemoTape
set_option autoImplicit false

inductive Stage where
  | header
  | frames
  | scene
  deriving DecidableEq, Repr

namespace Stage

def all : List Stage := [.header, .frames, .scene]

def label : Stage → String
  | .header => "Header parsing"
  | .frames => "Frame decoding"
  | .scene => "State reconstruction"

/-- Whether so many stages are all of them, and nothing went wrong. -/
def completed {α : Type} (passed : Nat) (problem : Option α) : Bool := passed = all.length && problem.isNone

end Stage

inductive Warning where
  | frameCount (declared : UInt32) (decoded : Nat)
  | noEntities
  deriving DecidableEq, Repr

def Warning.message : Warning → String
  | .frameCount declared decoded => s!"Frame count mismatch: header declares {declared}, decoded {decoded}"
  | .noEntities => "No entities alive at the end of the recording"

structure Audit where
  /-- How many stages were passed. -/
  passed : Nat
  /-- What went wrong in the next one. -/
  failure : Option Fault
  warnings : List Warning
  deriving DecidableEq, Repr

namespace Audit

def isValid (a : Audit) : Bool := Stage.completed a.passed a.failure

/-- What went wrong, under the name of the stage. -/
def problem (a : Audit) : Option String := do
  let fault ← a.failure
  let stage ← Stage.all[a.passed]?
  pure (stage.label ++ " failed: " ++ fault.message)

def frameWarnings (header : Header) (frames : List Frame) : List Warning :=
  if header.frameCount.toNat = frames.length then [] else [.frameCount header.frameCount frames.length]

def sceneWarnings (scene : Scene) : List Warning :=
  if scene.entities.entries.isEmpty then [.noEntities] else []

def ofBytes (data : Bytes) : Audit :=
  match Recording.ofBytes data with
  | .error fault => ⟨0, some fault, []⟩
  | .ok recording =>
    match recording.transcript.complete with
    | .error fault => ⟨1, some fault, []⟩
    | .ok frames =>
      let warnings := frameWarnings recording.header frames
      match Scene.empty.follow recording.transcript with
      | .error fault => ⟨2, some fault, warnings⟩
      | .ok scene => ⟨3, none, warnings ++ sceneWarnings scene⟩

end Audit
end DemoTape
