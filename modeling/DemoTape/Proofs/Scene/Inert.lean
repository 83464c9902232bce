/-
# Messages that say nothing of the world

A command carries the input of the player, and the payload of a message of a higher kind is skipped. Neither can fail,
and neither changes anything of a scene but the number of commands. So frames that say the same apart from such
messages (`Frame.heard`) do the same to scenes that are the same apart from that number: if the ones apply then the
others do, wherever they stand, and after every tick there are the same entities (`history_heard`). The records of a
query, the change log of a class and the roster look at nothing else.
-/
import DemoTape.Proofs.ChangeLog.Filter
import DemoTape.Proofs.Sampling.Thinning
import DemoTape.Proofs.Scene.Changes
import DemoTape.Roster
import Mathlib.Data.List.Basic

namespace DemoTape
set_option autoImplicit false

/-- Whether a message carries input or is skipped over. -/
def Message.inert : Message → Bool
  | .command _ _ => true
  | .other _ _ => true
  | _ => false

/-- How many commands a message adds. -/
def Message.commands : Message → UInt64
  | .command _ _ => 1
  | _ => 0

/-- The messages that are not inert. -/
def Message.heard (messages : List Message) : List Message := messages.filter fun m => !m.inert

/-- What a frame says apart from its place and inert messages. -/
def Frame.heard (f : Frame) : Tick × List Message := (f.tick, Message.heard f.messages)

theorem Message.heard_cons_inert {m : Message} (inert : m.inert = true) (rest : List Message) :
    heard (m :: rest) = heard rest := by
  rw [heard, List.filter_cons_of_neg (by simp [inert]), heard]

theorem Message.heard_cons {m : Message} (other : m.inert = false) (rest : List Message) :
    heard (m :: rest) = m :: heard rest := by
  rw [heard, List.filter_cons_of_pos (by simp [other]), heard]

/-! ## One message -/

namespace Scene

/-- The scene with another number of commands. -/
def recount (scene : Scene) (count : UInt64) : Scene := { scene with commandCount := count }

variable {offset : Nat} {scene after : Scene}

/-- An inert message counts at most. -/
theorem message_inert {m : Message} (inert : m.inert = true) (offset : Nat) (scene : Scene) :
    Change.message offset m scene = .ok () (scene.recount (scene.commandCount + m.commands)) := by
  cases m with
  | command => rfl
  | other => simp only [Message.commands, UInt64.add_zero]; rfl
  | baseline | delta | remove | table => cases inert

/-- A message does the same elsewhere, and to a scene with another number of commands. -/
theorem message_recount {m : Message} (done : Change.message offset m scene = .ok () after) (elsewhere : Nat)
    (count : UInt64) :
    Change.message elsewhere m (scene.recount count) = .ok () (after.recount (count + m.commands)) := by
  cases m with
  | baseline id cls assignments =>
    obtain ⟨sound, rfl⟩ := baseline_eq_ok.mp done
    have same := vetAll_of_sound sound elsewhere
    simp only [Message.commands, UInt64.add_zero]
    exact baseline_eq_ok.mpr ⟨same ▸ sound, by rw [← same]; rfl⟩
  | delta id assignments =>
    obtain ⟨entity, tracked, sound, rfl⟩ := delta_eq_ok.mp done
    have same := vetAll_of_sound sound elsewhere
    simp only [Message.commands, UInt64.add_zero]
    exact delta_eq_ok.mpr ⟨entity, tracked, same ▸ sound, by rw [← same]; rfl⟩
  | command =>
    obtain ⟨-, rfl⟩ := EStateM.Result.ok.inj done
    rfl
  | remove | table | other =>
    obtain ⟨-, rfl⟩ := EStateM.Result.ok.inj done
    simp only [Message.commands, UInt64.add_zero]
    rfl

/-! ## Frames -/

/-- Without its inert messages, a frame does the same. -/
theorem messages_heard {ms : List Message} (done : Change.messages offset ms scene = .ok () after)
    (elsewhere : Nat) (count : UInt64) :
    ∃ later, Change.messages elsewhere (Message.heard ms) (scene.recount count) = .ok () (after.recount later) := by
  induction ms generalizing scene count with
  | nil =>
    obtain ⟨-, rfl⟩ := EStateM.Result.ok.inj done
    exact ⟨count, rfl⟩
  | cons m rest ih =>
    obtain ⟨between, first, others⟩ := messages_cons_ok.mp done
    cases inert : m.inert with
    | true =>
      obtain ⟨-, rfl⟩ := EStateM.Result.ok.inj (first.symm.trans (message_inert inert offset scene))
      rw [Message.heard_cons_inert inert]
      exact ih others count
    | false =>
      obtain ⟨later, rest⟩ := ih others (count + m.commands)
      rw [Message.heard_cons inert]
      exact ⟨later, messages_cons_ok.mpr ⟨_, message_recount first elsewhere count, rest⟩⟩

/-- With inert messages among its own, a frame does the same. -/
theorem messages_of_heard {ms : List Message}
    (done : Change.messages offset (Message.heard ms) scene = .ok () after) (elsewhere : Nat) (count : UInt64) :
    ∃ later, Change.messages elsewhere ms (scene.recount count) = .ok () (after.recount later) := by
  induction ms generalizing scene count with
  | nil =>
    obtain ⟨-, rfl⟩ := EStateM.Result.ok.inj done
    exact ⟨count, rfl⟩
  | cons m rest ih =>
    cases inert : m.inert with
    | true =>
      rw [Message.heard_cons_inert inert] at done
      obtain ⟨later, others⟩ := ih done (count + m.commands)
      exact ⟨later, messages_cons_ok.mpr ⟨_, message_inert inert elsewhere (scene.recount count), others⟩⟩
    | false =>
      rw [Message.heard_cons inert] at done
      obtain ⟨between, first, others⟩ := messages_cons_ok.mp done
      obtain ⟨later, others⟩ := ih others (count + m.commands)
      exact ⟨later, messages_cons_ok.mpr ⟨_, message_recount first elsewhere count, others⟩⟩

theorem apply_heard {f g : Frame} (same : f.heard = g.heard) (done : scene.apply f = (none, after)) (count : UInt64) :
    ∃ later, (scene.recount count).apply g = (none, after.recount later) := by
  obtain ⟨tick, said⟩ := Prod.mk.inj same
  obtain ⟨between, messages, rfl⟩ := apply_ok.mp done
  obtain ⟨counted, heard⟩ := messages_heard messages f.offset count
  rw [said] at heard
  obtain ⟨later, others⟩ := messages_of_heard heard g.offset count
  exact ⟨later, apply_ok.mpr ⟨_, others, by rw [← tick]; rfl⟩⟩

/-! ## Histories -/

/-- The ticks of a history with the entities after them. -/
def moments (steps : List (Frame × Scene)) : List (Tick × Entities) :=
  steps.map fun step => (step.1.tick, step.2.entities)

/-- Frames that say the same apart from inert messages have the same history. -/
theorem history_heard {frames frames' : List Frame} (same : frames.map Frame.heard = frames'.map Frame.heard)
    (sound : (scene.history frames).2 = none) (count : UInt64) :
    ((scene.recount count).history frames').2 = none ∧
      moments ((scene.recount count).history frames').1 = moments (scene.history frames).1 := by
  induction frames generalizing scene frames' count with
  | nil =>
    obtain rfl := List.map_eq_nil_iff.mp same.symm
    exact ⟨rfl, rfl⟩
  | cons f rest ih =>
    obtain ⟨g, rest', rfl, here, others⟩ := List.map_eq_cons_iff.mp same.symm
    match applied : scene.apply f with
    | (some fault, left) =>
      rw [history_failed applied] at sound
      cases sound
    | (none, next) =>
      obtain ⟨counted, also⟩ := apply_heard here.symm applied count
      rw [history_applied applied] at sound ⊢
      rw [history_applied also]
      obtain ⟨good, later⟩ := ih others.symm sound counted
      have tick : g.tick = f.tick := (Prod.mk.inj here).1
      refine ⟨good, ?_⟩
      rw [moments, List.map_cons, tick, ← moments, later]
      rfl

end Scene

/-! ## What looks at a history -/

theorem Samples.every_eq (query : Query) (t : Transcript) :
    every query t = (Scene.moments (Scene.empty.history t.frames).1).flatMap fun moment =>
      (query.evaluate moment.2).map fun found => ⟨moment.1, found.entity, found.values⟩ := by
  rw [every, Scene.moments, List.flatMap_map]
  rfl

theorem ChangeLog.listedAll_eq (cls : String) (steps : List (Frame × Scene)) :
    listedAll cls steps = (Scene.moments steps).flatMap fun moment =>
      (moment.2.all.filter (·.cls = cls)).map fun e => ⟨moment.1, e.id, e.properties⟩ := by
  rw [listedAll, Scene.moments, List.flatMap_map]
  rfl

theorem Roster.named_inert {m : Message} (inert : m.inert = true) (tick : Tick) : named tick m = [] := by
  cases m with
  | command | other => rfl
  | baseline | delta | remove | table => cases inert

theorem Roster.flatMap_named (tick : Tick) (ms : List Message) :
    ms.flatMap (named tick) = (Message.heard ms).flatMap (named tick) := by
  induction ms with
  | nil => rfl
  | cons m rest ih =>
    cases inert : m.inert with
    | true => rw [List.flatMap_cons, named_inert inert, Message.heard_cons_inert inert, List.nil_append, ih]
    | false => rw [List.flatMap_cons, Message.heard_cons inert, List.flatMap_cons, ih]

theorem Roster.appearances_eq (frames : List Frame) :
    appearances frames = (frames.map Frame.heard).flatMap fun said => said.2.flatMap (named said.1) := by
  rw [appearances, List.flatMap_map]
  exact List.flatMap_congr fun f _ => flatMap_named f.tick f.messages

section Sound
variable {frames : List Frame} (sound : (Scene.empty.history frames).2 = none)
include sound

theorem Samples.items_of_sound (query : Query) (period : UInt32) :
    (batch query period ⟨frames, none⟩).items = (batch query period ⟨frames, none⟩).records.map .ok := by
  have fault : (batch query period ⟨frames, none⟩).fault = none := by
    rw [batch, sound]
    rfl
  rw [items, fault, Option.toList_none, List.map_nil, List.append_nil]

theorem ChangeLog.ofTranscript_of_sound (cls : String) :
    ofTranscript cls ⟨frames, none⟩ = .ok (changes (listedAll cls (Scene.empty.history frames).1)) := by
  rw [ofTranscript_eq, sound]
  rfl

end Sound

section Heard
variable {frames frames' : List Frame} (same : frames.map Frame.heard = frames'.map Frame.heard)
include same

theorem Roster.ofFrames_heard : ofFrames frames' = ofFrames frames := by
  rw [ofFrames, ofFrames, appearances_eq, ← same, ← appearances_eq]

theorem Samples.due_heard (period : UInt32) (tick : Tick) : due period frames' tick = due period frames tick := by
  have ticks : (frames.map Frame.heard).head?.map Prod.fst = (frames'.map Frame.heard).head?.map Prod.fst := by rw [same]
  simp only [List.head?_map, Option.map_map, Function.comp_def, Frame.heard] at ticks
  have grid (frames : List Frame) : due period frames tick =
      (frames.head?.map Frame.tick).any fun first => onGrid period first tick := by
    rw [due, Option.any_map]
  rw [grid, grid]
  exact congrArg _ ticks.symm

variable (sound : (Scene.empty.history frames).2 = none)
include sound

/-- Every query has the same records. -/
theorem Samples.records_heard (query : Query) (period : UInt32) :
    (batch query period ⟨frames', none⟩).records = (batch query period ⟨frames, none⟩).records := by
  obtain ⟨-, moments⟩ := Scene.history_heard same sound 0
  have every : every query ⟨frames', none⟩ = every query ⟨frames, none⟩ := by
    rw [every_eq, every_eq, ← moments]
    rfl
  rw [batch_records, batch_records, every]
  simp only [due_heard same]

/-- Every class has the same change log. -/
theorem ChangeLog.listedAll_heard (cls : String) :
    listedAll cls (Scene.empty.history frames').1 = listedAll cls (Scene.empty.history frames).1 := by
  obtain ⟨-, moments⟩ := Scene.history_heard same sound 0
  rw [listedAll_eq, listedAll_eq, ← moments]
  rfl

end Heard
end DemoTape
