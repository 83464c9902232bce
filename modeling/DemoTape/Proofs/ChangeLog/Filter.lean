/-
# A change log is the change filter of a sampler

A change log goes through the entities of a class after each frame and remembers what it recorded of them. It does
not know of queries, of a grid or of pending records. `changes` knows of nothing but records: it drops each one that
has the values of the record of its entity that was kept last. The change log of a class is the changes among what a
sampler gives of the class at every tick, and where the sampler finds a fault, or there is none, the change log is
that fault (`changeLog_eq_changes`).

Both sides go through the frames that can be applied (`Scene.history`). What the change log remembers of an entity
is what the kept records tell (`Recalls`).
-/
import DemoTape.ChangeLog
import DemoTape.Proofs.Query.Rendering
import DemoTape.Proofs.Sampling.Thinning

namespace DemoTape
set_option autoImplicit false

namespace ChangeLog

/-! ## Changes -/

/-- The record of an entity that was kept last. -/
def lastKept (kept : List Record) (id : EntityId) : Option Record := (kept.filter (·.entity = id)).getLast?

/-- Keeps a record, unless the one of its entity that was kept last has the same values. -/
def keep (kept : List Record) (r : Record) : List Record :=
  if (lastKept kept r.entity).any fun last => r.values.same last.values then kept else kept ++ [r]

/-- The records without those that repeat what was kept. -/
def changes (records : List Record) : List Record := records.foldl keep []

@[simp] theorem lastKept_concat (kept : List Record) (r : Record) (id : EntityId) :
    lastKept (kept ++ [r]) id = if r.entity = id then some r else lastKept kept id := by
  unfold lastKept
  by_cases same : r.entity = id
  · simp [same]
  · simp [same]

/-! ## What is remembered -/

/-- Whether what is remembered of the entities are the values of the records that were kept last. -/
def Recalls (recorded : Recorded) (kept : List Record) : Prop :=
  ∀ id, recorded.find? id = (lastKept kept id).map Record.values

theorem recalls_nil : Recalls ∅ [] := fun _ => rfl

theorem Recalls.note {recorded : Recorded} {kept : List Record} (recalls : Recalls recorded kept) (r : Record) :
    let noted := note r.tick recorded r.entity r.values
    keep kept r = kept ++ noted.1.toList ∧ Recalls noted.2 (keep kept r) := by
  unfold ChangeLog.note keep
  rw [recalls, Option.any_map]
  by_cases same : (lastKept kept r.entity).any fun last => r.values.same last.values
  · rw [if_pos same, if_pos same]
    exact ⟨(List.append_nil kept).symm, recalls⟩
  · rw [if_neg same, if_neg same]
    refine ⟨rfl, fun id => ?_⟩
    rw [SortedMap.find?_insert, lastKept_concat, recalls]
    by_cases here : id = r.entity
    · simp [here]
    · simp [here, Ne.symm here]

/-- What is noted of some entities is kept of their records. -/
theorem Recalls.noteAll {recorded : Recorded} {kept : List Record} (recalls : Recalls recorded kept) (tick : Tick)
    (entities : List Entity) :
    let noted := noteAll tick recorded entities
    let all := (entities.map fun e => (⟨tick, e.id, e.properties⟩ : Record)).foldl keep kept
    all = kept ++ noted.1 ∧ Recalls noted.2 all := by
  induction entities generalizing recorded kept with
  | nil => exact ⟨(List.append_nil kept).symm, recalls⟩
  | cons e rest ih =>
    obtain ⟨first, recalls⟩ := recalls.note ⟨tick, e.id, e.properties⟩
    obtain ⟨others, recalls⟩ := ih recalls
    refine ⟨?_, recalls⟩
    rw [List.map_cons, List.foldl_cons, others, first, List.append_assoc]
    rfl

/-! ## Change logs as changes -/

/-- The entities of a class. -/
def members (cls : String) (scene : Scene) : List Entity := scene.entities.all.filter (·.cls = cls)

/-- Their records at a tick. -/
def listed (cls : String) (scene : Scene) (tick : Tick) : List Record :=
  (members cls scene).map fun e => ⟨tick, e.id, e.properties⟩

/-- Their records after each frame. -/
def listedAll (cls : String) (steps : List (Frame × Scene)) : List Record :=
  steps.flatMap fun step => listed cls step.2 step.1.tick

theorem foldl_listedAll_cons (cls : String) (kept : List Record) (step : Frame × Scene)
    (rest : List (Frame × Scene)) :
    (listedAll cls (step :: rest)).foldl keep kept =
      (listedAll cls rest).foldl keep ((listed cls step.2 step.1.tick).foldl keep kept) := by
  rw [listedAll, List.flatMap_cons, List.foldl_append]
  rfl

theorem ofFrames_eq (cls : String) {recorded : Recorded} {kept : List Record} (recalls : Recalls recorded kept)
    (scene : Scene) (frames : List Frame) :
    (ofFrames cls recorded scene frames).map (kept ++ ·) =
      match (scene.history frames).2 with
      | some fault => .error fault
      | none => .ok ((listedAll cls (scene.history frames).1).foldl keep kept) := by
  induction frames generalizing recorded kept scene with
  | nil => simp [ofFrames, Scene.history, listedAll, Except.map]
  | cons frame rest ih =>
    rcases applied : scene.apply frame with ⟨_ | fault, later⟩
    · obtain ⟨here, recalls⟩ := recalls.noteAll frame.tick (members cls later)
      have others := ih recalls later
      rw [ofFrames, applied, Scene.history_applied applied]
      dsimp only
      rw [foldl_listedAll_cons, listed, ← others, here]
      show Except.map _ (ofFrames cls (noteAll frame.tick recorded (members cls later)).2 later rest >>= fun records =>
        pure ((noteAll frame.tick recorded (members cls later)).1 ++ records)) = _
      cases ofFrames cls (noteAll frame.tick recorded (members cls later)).2 later rest with
      | error fault => rfl
      | ok records => simp [Except.map, bind, Except.bind, pure, Except.pure]
    · rw [ofFrames, applied, Scene.history_failed applied]
      rfl

/-- A change log is all the changes in a class, if there is no fault. -/
theorem ofTranscript_eq (cls : String) (t : Transcript) :
    ofTranscript cls t =
      match (Scene.empty.history t.frames).2.or t.fault with
      | some fault => .error fault
      | none => .ok (changes (listedAll cls (Scene.empty.history t.frames).1)) := by
  have frames := ofFrames_eq cls recalls_nil .empty t.frames
  have added (found : Except Fault (List Record)) : found.map ([] ++ ·) = found := by cases found <;> rfl
  rw [added] at frames
  rw [ofTranscript, frames]
  cases (Scene.empty.history t.frames).2 with
  | some fault => rfl
  | none => cases t.fault <;> rfl

/-! ## Samplers of a class -/

/-- The path to a class, whatever its name is. -/
def classPath (cls : String) : String := "$[" ++ quoteName cls ++ "]"

theorem read_classPath (cls : String) : Query.read (classPath cls) = .ok ⟨[.field cls]⟩ := by
  obtain ⟨q, spelled, rfl⟩ := Grammar.exists_quoted cls
  refine Query.read_of_derives ⟨⟨.none, [(.none, .bracket .none (.name q) .none)], .none⟩, ?_, rfl⟩
  simp [Grammar.Tree.text, Grammar.spaced, Grammar.Step.text, Grammar.Inner.text, Grammar.Blanks.none, classPath,
    spelled]

theorem records_class {cls : String} (proper : cls ≠ Place.allEntities) (scene : Scene) (tick : Tick) :
    Query.records ⟨[.field cls]⟩ scene tick = listed cls scene tick := by
  have walk : Step.walkAll scene.entities [.root] [.field cls] = [.collection (some cls)] := by
    simp [Step.walkAll, Step.walk, Place.member?, proper]
  rw [Query.records, Query.evaluate, walk, listed, members]
  simp [Place.expand, Place.ofClass, Place.match?, List.filterMap_map, Function.comp_def]

/-- With a period of one, no frame is passed over. -/
theorem batch_class {cls : String} (proper : cls ≠ Place.allEntities) (t : Transcript) :
    (Samples.batch ⟨[.field cls]⟩ 1 t).records = listedAll cls (Scene.empty.history t.frames).1 := by
  rw [Samples.batch_one, Samples.every, listedAll]
  simp only [records_class proper]

end ChangeLog

theorem changeLog_of_recording {data : Bytes} {recording : Recording} (whole : Recording.ofBytes data = .ok recording)
    (cls : String) :
    changeLog data cls = ChangeLog.ofTranscript cls (FrameStream.ofBytes data Header.size).transcript := by
  rw [changeLog, whole, ← Recording.transcript_ofBytes whole]
  rfl

open ChangeLog in
/-- **A change log is the change filter of a sampler.** Let a sampler be built for the class, with a period of one.
If it cannot be built, the change log is that fault. Otherwise the sampler gives some records and then, perhaps, a
fault; and the change log is the fault, if there is one, and the changes among the records, if not. -/
theorem changeLog_eq_changes {cls : String} (proper : cls ≠ Place.allEntities) (data : Bytes) :
    (∀ fault, Sampler.ofBytes data (classPath cls) 1 = .error fault → changeLog data cls = .error fault) ∧
      ∀ s, Sampler.ofBytes data (classPath cls) 1 = .ok s → ∃ (records : List Record) (ending : Option Fault),
        Pulls.Yields Sampler.next s (records.map .ok ++ ending.toList.map .error) ∧
          changeLog data cls =
            match ending with
            | some fault => .error fault
            | none => .ok (changes records) := by
  have compiled := read_classPath cls
  have positive : Period.ofTicks 1 = .ok ⟨1, by decide⟩ := rfl
  rw [Sampler.ofBytes_eq_map positive compiled]
  cases whole : Recording.ofBytes data with
  | error fault =>
    refine ⟨fun found given => ?_, nofun⟩
    cases given
    rw [changeLog, whole]
    rfl
  | ok recording =>
    refine ⟨nofun, fun s built => ⟨s.rest.records, s.rest.fault, s.yields_rest, ?_⟩⟩
    have opened : Sampler.ofBytes data (classPath cls) 1 = .ok s := by
      rw [Sampler.ofBytes_eq_map positive compiled, whole]
      exact built
    have rest := Sampler.rest_ofBytes compiled opened
    rw [changeLog_of_recording whole, ofTranscript_eq, rest, batch_class proper]
    rfl

/-- A recording with an entity of class `it's`: its `hp` is 5, is set to 5 again and then to 6. -/
def steadyRecording : Bytes :=
  Header.signature ++ [3, 0, 0, 0] ++ List.replicate 1056 0 ++
    [0x02, 10, 0, 0, 0, 0x01, 1, 0, 0, 0, 4, 0, 0x69, 0x74, 0x27, 0x73, 1, 0, 0, 2, 0, 0x68, 0x70, 0, 5, 0, 0, 0, 0] ++
    [0x02, 11, 0, 0, 0, 0x02, 1, 0, 0, 0, 1, 0, 0, 2, 0, 0x68, 0x70, 0, 5, 0, 0, 0, 0] ++
    [0x02, 12, 0, 0, 0, 0x02, 1, 0, 0, 0, 1, 0, 0, 2, 0, 0x68, 0x70, 0, 6, 0, 0, 0, 0] ++ [0x07]

def steadyRecords : List Record :=
  [⟨10, 1, .singleton "hp" (.integer 5)⟩, ⟨11, 1, .singleton "hp" (.integer 5)⟩,
    ⟨12, 1, .singleton "hp" (.integer 6)⟩]

/-- The second record repeats the first. -/
theorem changeLog_eq_changes_steady :
    "it's" ≠ Place.allEntities ∧
      ∃ s, Sampler.ofBytes steadyRecording "$['it\\'s']" 1 = .ok s ∧
        Pulls.Yields Sampler.next s (steadyRecords.map .ok) ∧
        changeLog steadyRecording "it's" =
          .ok [⟨10, 1, .singleton "hp" (.integer 5)⟩, ⟨12, 1, .singleton "hp" (.integer 6)⟩] := by
  have proper : "it's" ≠ Place.allEntities := by decide
  have path : ChangeLog.classPath "it's" = "$['it\\'s']" := by decide +kernel
  have batch : (Samples.batch ⟨[.field "it's"]⟩ 1 (FrameStream.ofBytes steadyRecording Header.size).transcript).items =
      steadyRecords.map .ok := by decide +kernel
  have left : ChangeLog.changes steadyRecords =
      [⟨10, 1, .singleton "hp" (.integer 5)⟩, ⟨12, 1, .singleton "hp" (.integer 6)⟩] := by decide +kernel
  have good : (Sampler.ofBytes steadyRecording (ChangeLog.classPath "it's") 1).isOk := by decide +kernel
  cases built : Sampler.ofBytes steadyRecording (ChangeLog.classPath "it's") 1 with
  | error fault =>
    rw [built] at good
    cases good
  | ok s =>
    have given := s.yields_rest
    rw [Sampler.rest_ofBytes (ChangeLog.read_classPath "it's") built, batch] at given
    obtain ⟨records, ending, yields, log⟩ := (changeLog_eq_changes proper steadyRecording).2 s built
    obtain ⟨rfl, rfl⟩ := eq_of_items (yields.unique given)
    rw [left] at log
    exact ⟨proper, s, path ▸ built, given, log⟩

end DemoTape
