/-
# Slots are short for names

A property can be named in full or by a slot of the table of property names. `Frame.inlined` writes the names out:
each slot becomes the name that it holds after the messages before the one that uses it, since a message may write the
slot anew for those behind it. A slot that holds no name stays as it is.

A key is only ever looked at through the name that it stands for, and to write names out changes none of these. So the
frame does the same to the scene, faults and all (`apply_inlined`), and if it applies at all then every key of it has
been written out.
-/
import DemoTape.Proofs.Scene.Changes

namespace DemoTape
set_option autoImplicit false

/-! ## Names written out -/

/-- The key with its name written out, if it stands for one. -/
def PropertyKey.inlined (tables : StringTables) (key : PropertyKey) : PropertyKey :=
  match tables.name? key with
  | some s => .name s
  | none => key

def Assignment.inlined (tables : StringTables) (assignment : Assignment) : Assignment :=
  { assignment with key := assignment.key.inlined tables }

def Message.inlined (tables : StringTables) : Message → Message
  | .baseline id cls assignments => .baseline id cls (assignments.map (Assignment.inlined tables))
  | .delta id assignments => .delta id (assignments.map (Assignment.inlined tables))
  | m => m

/-- The tables after a message. -/
def StringTables.heed (tables : StringTables) : Message → StringTables
  | .table name entries => tables.write name entries
  | _ => tables

/-- Each message with the names written out that the tables give after the messages before it. -/
def Message.inlineAll : StringTables → List Message → List Message
  | _, [] => []
  | tables, m :: rest => m.inlined tables :: inlineAll (tables.heed m) rest

def Frame.inlined (tables : StringTables) (frame : Frame) : Frame :=
  { frame with messages := Message.inlineAll tables frame.messages }

/-- The assignments of a message. -/
def Message.assignments : Message → List Assignment
  | .baseline _ _ assignments => assignments
  | .delta _ assignments => assignments
  | _ => []

/-- Whether no key of a frame is a slot. -/
def Frame.Plain (frame : Frame) : Prop :=
  ∀ m ∈ frame.messages, ∀ assignment ∈ m.assignments, ∃ name, assignment.key = .name name

/-! ## What a message does -/

namespace Scene
variable {offset : Nat} {tables : StringTables} {scene after : Scene}

theorem resolved_inlined (offset : Nat) (tables : StringTables) (key : PropertyKey) :
    resolved offset tables (key.inlined tables) = resolved offset tables key := by
  cases called : tables.name? key with
  | none => rw [PropertyKey.inlined, called]
  | some s =>
    rw [PropertyKey.inlined, called]
    exact (resolved_eq_ok.mpr called).symm

theorem vetAll_inlined (offset : Nat) (tables : StringTables) (cls : String) (kinds : Kinds)
    (assignments : List Assignment) :
    vetAll offset tables cls kinds (assignments.map (Assignment.inlined tables)) =
      vetAll offset tables cls kinds assignments := by
  induction assignments generalizing kinds with
  | nil => rfl
  | cons assignment rest ih =>
    simp only [List.map_cons, vetAll, vetted, Assignment.inlined, resolved_inlined, ih]

theorem message_inlined (offset : Nat) (m : Message) (scene : Scene) :
    Change.message offset (m.inlined scene.tables) scene = Change.message offset m scene := by
  cases m with
  | baseline id cls assignments => rw [Message.inlined, baseline_eq, baseline_eq, vetAll_inlined]
  | delta id assignments =>
    rw [Message.inlined]
    cases tracked : scene.entities.find? id with
    | none => rw [delta_untracked offset _ tracked, delta_untracked offset _ tracked]
    | some entity => rw [delta_eq offset _ tracked, delta_eq offset _ tracked, vetAll_inlined]
  | remove | table | command | other => rfl

/-- Only a message about a table writes one. -/
theorem tables_message {m : Message} (done : Change.message offset m scene = .ok () after) :
    after.tables = scene.tables.heed m := by
  cases m with
  | baseline id cls assignments =>
    obtain ⟨kinds, rfl⟩ := baseline_ok done
    rfl
  | delta id assignments =>
    obtain ⟨entity, kinds, -, rfl⟩ := delta_ok done
    rfl
  | remove | table | command | other =>
    obtain ⟨-, rfl⟩ := EStateM.Result.ok.inj done
    rfl

/-- Where nothing is refused, every key stands for a name. -/
theorem named_of_sound {cls : String} {kinds : Kinds} {assignments : List Assignment}
    (sound : (vetAll offset tables cls kinds assignments).fault = none) :
    ∀ assignment ∈ assignments, ∃ name, tables.name? assignment.key = some name := by
  induction assignments generalizing kinds with
  | nil => exact nofun
  | cons assignment rest ih =>
    obtain ⟨found, vet, later⟩ := vetAll_cons_sound.mp sound
    exact List.forall_mem_cons.mpr ⟨⟨found.1, (vetted_eq_ok.mp vet).1⟩, ih later⟩

theorem named_of_message {m : Message} (done : Change.message offset m scene = .ok () after) :
    ∀ assignment ∈ m.assignments, ∃ name, scene.tables.name? assignment.key = some name := by
  cases m with
  | baseline id cls assignments =>
    obtain ⟨sound, -⟩ := baseline_eq_ok.mp done
    exact named_of_sound sound
  | delta id assignments =>
    obtain ⟨entity, -, sound, -⟩ := delta_eq_ok.mp done
    exact named_of_sound sound
  | remove | table | command | other => exact List.forall_mem_nil _

theorem assignments_inlined (tables : StringTables) (m : Message) :
    (m.inlined tables).assignments = m.assignments.map (Assignment.inlined tables) := by cases m <;> rfl

/-- All the keys of a message that is done are written out. -/
theorem plain_inlined {m : Message} (done : Change.message offset m scene = .ok () after) :
    ∀ assignment ∈ (m.inlined scene.tables).assignments, ∃ name, assignment.key = .name name := by
  intro assignment mem
  rw [assignments_inlined] at mem
  obtain ⟨original, there, rfl⟩ := List.mem_map.mp mem
  obtain ⟨name, called⟩ := named_of_message done original there
  exact ⟨name, by rw [Assignment.inlined, PropertyKey.inlined, called]⟩

/-! ## What a frame does -/

theorem messages_inlined (offset : Nat) (ms : List Message) (scene : Scene) :
    Change.messages offset (Message.inlineAll scene.tables ms) scene = Change.messages offset ms scene := by
  induction ms generalizing scene with
  | nil => rfl
  | cons m rest ih =>
    simp only [Message.inlineAll, Change.messages, Change.bind_apply, message_inlined]
    cases done : Change.message offset m scene with
    | error fault left => rfl
    | ok result between =>
      dsimp only
      rw [← tables_message done, ih]

theorem plain_inlineAll {ms : List Message} (done : Change.messages offset ms scene = .ok () after) :
    ∀ m ∈ Message.inlineAll scene.tables ms, ∀ assignment ∈ m.assignments, ∃ name, assignment.key = .name name := by
  induction ms generalizing scene with
  | nil => exact nofun
  | cons m rest ih =>
    obtain ⟨between, first, others⟩ := messages_cons_ok.mp done
    rw [Message.inlineAll, ← tables_message first]
    exact List.forall_mem_cons.mpr ⟨plain_inlined first, ih others⟩

/-- A message has the names written out that the scene gives after the messages before it. -/
theorem getElem?_inlineAll {front : List Message} (done : Change.messages offset front scene = .ok () after)
    (m : Message) (back : List Message) :
    (Message.inlineAll scene.tables (front ++ m :: back))[front.length]? = some (m.inlined after.tables) := by
  induction front generalizing scene with
  | nil =>
    obtain ⟨-, rfl⟩ := EStateM.Result.ok.inj done
    rfl
  | cons first rest ih =>
    obtain ⟨between, one, others⟩ := messages_cons_ok.mp done
    rw [List.cons_append, Message.inlineAll, List.length_cons, List.getElem?_cons_succ, ← tables_message one]
    exact ih others

/-- **A frame does the same with its names written out.** Each message has the names that its slots hold in the scene
after the messages before it. The frame then leaves the same scene, and has the same fault if it has one, be it that a
property is to change its kind or another. And if it applies, then all its slots have been written out. -/
theorem apply_inlined (scene : Scene) (frame : Frame) :
    (∀ front m back between, frame.messages = front ++ m :: back →
      Change.messages frame.offset front scene = .ok () between →
      (frame.inlined scene.tables).messages[front.length]? = some (m.inlined between.tables)) ∧
    scene.apply (frame.inlined scene.tables) = scene.apply frame ∧
    ((scene.apply frame).1 = none → (frame.inlined scene.tables).Plain) := by
  refine ⟨?_, ?_, ?_⟩
  · intro front m back between split done
    rw [Frame.inlined, split]
    exact getElem?_inlineAll done m back
  · have messages : Change.frame (frame.inlined scene.tables) scene = Change.frame frame scene := by
      simp only [Change.frame, Change.bind_apply, Frame.inlined, messages_inlined]
    rw [apply, messages, apply]
  · intro sound
    obtain ⟨between, done, -⟩ := apply_ok.mp (Prod.ext sound rfl : scene.apply frame = (none, (scene.apply frame).2))
    exact plain_inlineAll done

/-- Two slots hold one name, until one of them gets another one. -/
def renamed : Frame := { tick := 5, offset := 1068, messages := [
  .table "propnames" [⟨0, "hp"⟩, ⟨1, "hp"⟩],
  .baseline 1 "tree" [⟨.slot 0, .integer 3⟩, ⟨.slot 1, .integer 4⟩],
  .table "propnames" [⟨0, "mp"⟩],
  .delta 1 [⟨.slot 0, .boolean true⟩, ⟨.slot 1, .integer 5⟩]] }

theorem apply_inlined_renamed :
    (renamed.inlined ∅).messages = [
      .table "propnames" [⟨0, "hp"⟩, ⟨1, "hp"⟩],
      .baseline 1 "tree" [⟨.name "hp", .integer 3⟩, ⟨.name "hp", .integer 4⟩],
      .table "propnames" [⟨0, "mp"⟩],
      .delta 1 [⟨.name "mp", .boolean true⟩, ⟨.name "hp", .integer 5⟩]] ∧
      (Scene.empty.apply renamed).1 = none ∧ (renamed.inlined ∅).Plain ∧
      Scene.empty.apply (renamed.inlined ∅) = Scene.empty.apply renamed := by
  have sound : (Scene.empty.apply renamed).1 = none := by decide +kernel
  obtain ⟨-, same, plain⟩ := apply_inlined .empty renamed
  exact ⟨by decide +kernel, sound, plain sound, same⟩

end Scene
end DemoTape
