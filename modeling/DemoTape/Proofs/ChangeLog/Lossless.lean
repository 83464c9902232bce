/-
# A change log loses nothing

The records of a change log tell what the entities of its class are at every frame. An entity that is there after a
frame has a record up to the tick of the frame, and the last of these has its properties, as numbers, with a NaN for a
NaN (`Properties.alike`); and a record has the properties of an entity that is there at its tick
(`changeLog_lossless`).

An entity may have been removed in between, or have been of another class: the log does not look at that, nor does the
proof. Where an entity is there, the log has been asked for a record, and either the record was kept or it repeats the
one that was kept last (`ChangeLog.lastKept_changes`). What is kept of the frames up to a tick are the records up to
this tick (`ChangeLog.filter_changes`), since ticks ascend.
-/
import DemoTape.Proofs.ChangeLog.Quiet
import DemoTape.Proofs.Sampling.Truncation

namespace DemoTape
set_option autoImplicit false

/-! ## Values up to NaN -/

/-- Equality of numbers, with NaN taken as equal to NaN. -/
def Binary.alike {f : FloatFormat} (x y : Binary f) : Bool := x.same y || (x.isNaN && y.isNaN)

theorem Binary.alike_self {f : FloatFormat} (x : Binary f) : x.alike x := by
  rw [alike, same_self]
  cases x.isNaN <;> rfl

theorem Binary.alike_of_same {f : FloatFormat} {x y : Binary f} (same : x.same y) : x.alike y := by
  rw [alike, same, Bool.true_or]

def Vec3.alike (v w : Vec3) : Bool := v.x.alike w.x && v.y.alike w.y && v.z.alike w.z

theorem Vec3.alike_self (v : Vec3) : v.alike v := by
  simp [alike, Binary.alike_self]

theorem Vec3.alike_of_same {v w : Vec3} (same : v.same w) : v.alike w := by
  simp only [Vec3.same, Bool.and_eq_true] at same
  simp [alike, Binary.alike_of_same same.1.1, Binary.alike_of_same same.1.2, Binary.alike_of_same same.2]

namespace Value

def alike : Value → Value → Bool
  | .float x, .float y => x.alike y
  | .vector v, .vector w => v.alike w
  | v, w => v.same w

theorem alike_self (v : Value) : v.alike v := by
  cases v with
  | integer | text | boolean => exact decide_eq_true rfl
  | float x => exact x.alike_self
  | vector v => exact v.alike_self

theorem alike_of_same {v w : Value} (same : v.same w) : v.alike w := by
  cases v with
  | integer | text | boolean => exact same
  | float x => cases w with
    | float y => exact Binary.alike_of_same same
    | integer | text | boolean | vector => cases same
  | vector v => cases w with
    | vector w => exact Vec3.alike_of_same same
    | integer | float | text | boolean => cases same

end Value

theorem SortedMap.sameBy_mono {κ α : Type} [Ord κ] [DecidableEq κ] {same alike : α → α → Bool}
    (weaker : ∀ {a b}, same a b → alike a b) {m n : SortedMap κ α} (equal : sameBy same m n) : sameBy alike m n := by
  obtain ⟨keys, each⟩ := Bool.and_eq_true_iff.mp equal
  refine Bool.and_eq_true_iff.mpr ⟨keys, List.all_eq_true.mpr fun pair mem => ?_⟩
  exact weaker (List.all_eq_true.mp each pair mem)

namespace Properties

/-- Whether the same names have values that are alike. -/
def alike (p q : Properties) : Bool := SortedMap.sameBy Value.alike p q

theorem alike_self (p : Properties) : p.alike p := by
  rw [alike, SortedMap.sameBy_self]
  exact List.all_eq_true.mpr fun entry _ => entry.2.alike_self

theorem alike_of_same {p q : Properties} (same : p.same q) : p.alike q := SortedMap.sameBy_mono Value.alike_of_same same

end Properties

/-! ## Steps of a history -/

theorem exists_replay_of_mem_history {scene : Scene} {frames : List Frame} {step : Frame × Scene}
    (mem : step ∈ (scene.history frames).1) :
    ∃ before after, frames = before ++ step.1 :: after ∧ scene.replay (before ++ [step.1]) = .ok step.2 := by
  induction frames generalizing scene with
  | nil => cases mem
  | cons frame rest ih =>
    match applied : scene.apply frame with
    | (some fault, left) =>
      rw [Scene.history_failed applied] at mem
      cases mem
    | (none, later) =>
      rw [Scene.history_applied applied] at mem
      rcases List.mem_cons.mp mem with rfl | mem
      · exact ⟨[], rest, rfl, Scene.replay_cons_ok.mpr ⟨later, applied, rfl⟩⟩
      · obtain ⟨before, after, rfl, reached⟩ := ih mem
        exact ⟨frame :: before, after, rfl, Scene.replay_cons_ok.mpr ⟨later, applied, reached⟩⟩

namespace ChangeLog

/-! ## The log of the first frames -/

/-- Of the first frames are kept the records up to the tick of the last of them. -/
theorem filter_changes (cls : String) {before after : List Frame} {frame : Frame}
    (sound : (Scene.empty.history (before ++ [frame] ++ after)).2 = none)
    (ascending : (before ++ [frame] ++ after).Pairwise fun f g => f.tick < g.tick) :
    (changes (listedAll cls (Scene.empty.history (before ++ [frame] ++ after)).1)).filter (·.tick ≤ frame.tick) =
      changes (listedAll cls (Scene.empty.history (before ++ [frame])).1) := by
  obtain ⟨scene, reached⟩ := exists_replay_front sound
  obtain ⟨first, -, apart⟩ := List.pairwise_append.mp ascending
  obtain ⟨-, -, earlier⟩ := List.pairwise_append.mp first
  have steps : listedAll cls (Scene.empty.history (before ++ [frame] ++ after)).1 =
      listedAll cls (Scene.empty.history (before ++ [frame])).1 ++ listedAll cls (scene.history after).1 := by
    rw [history_append reached]
    simp [listedAll]
  obtain ⟨added, some, all⟩ := exists_foldl_keep
    (changes (listedAll cls (Scene.empty.history (before ++ [frame])).1)) (listedAll cls (scene.history after).1)
  have upTo : ∀ r ∈ changes (listedAll cls (Scene.empty.history (before ++ [frame])).1),
      decide (r.tick ≤ frame.tick) := by
    intro r mem
    obtain ⟨f, inside, same⟩ := tick_of_mem_listedAll (mem_of_mem_changes mem)
    rw [← same]
    rcases List.mem_append.mp inside with inside | inside
    · exact decide_eq_true (UInt32.le_of_lt (earlier f inside frame (List.mem_singleton_self frame)))
    · exact decide_eq_true (List.mem_singleton.mp inside ▸ UInt32.le_refl _)
  have beyond : ∀ r ∈ added, ¬ decide (r.tick ≤ frame.tick) := by
    intro r mem up
    obtain ⟨f, inside, same⟩ := tick_of_mem_listedAll (some.subset mem)
    have later := apart frame (List.mem_append_right _ (List.mem_singleton_self frame)) f inside
    rw [same] at later
    exact absurd (of_decide_eq_true up) (UInt32.not_le.mpr later)
  rw [steps, changes_append, all, List.filter_append, List.filter_eq_self.mpr upTo, List.filter_eq_nil_iff.mpr beyond,
    List.append_nil]

/-- The last record of an entity that is there after the last frame tells its properties. -/
theorem lastKept_of_reached {cls : String} {before : List Frame} {frame : Frame} {scene : Scene}
    (reached : Scene.empty.replay (before ++ [frame]) = .ok scene) {id : EntityId} {e : Entity}
    (there : scene.entities.find? id = some e) (member : e.cls = cls) :
    ∃ r, lastKept (changes (listedAll cls (Scene.empty.history (before ++ [frame])).1)) id = some r ∧
      e.properties.alike r.values := by
  obtain ⟨front, back, split, -, others⟩ := listed_split there member frame.tick
  rw [listedAll_concat cls reached, split, ← List.append_assoc]
  have asked : ∃ last, lastKept (changes (listedAll cls (Scene.empty.history before).1 ++ front ++
      ⟨frame.tick, id, e.properties⟩ :: back)) id = some last ∧
        (last = ⟨frame.tick, id, e.properties⟩ ∨ e.properties.same last.values) :=
    lastKept_changes (r := ⟨frame.tick, id, e.properties⟩) others
  obtain ⟨last, found, told⟩ := asked
  refine ⟨last, found, ?_⟩
  rcases told with rfl | same
  · exact Properties.alike_self _
  · exact Properties.alike_of_same same

/-- What is recorded is there. -/
theorem exists_entity_of_mem_changes {cls : String} {frames : List Frame} {r : Record}
    (mem : r ∈ changes (listedAll cls (Scene.empty.history frames).1)) :
    ∃ before frame after scene e, frames = before ++ frame :: after ∧ frame.tick = r.tick ∧
      Scene.empty.replay (before ++ [frame]) = .ok scene ∧ scene.entities.find? r.entity = some e ∧ e.cls = cls ∧
      e.properties = r.values := by
  obtain ⟨step, there, listed⟩ := List.mem_flatMap.mp (mem_of_mem_changes mem)
  obtain ⟨before, after, split, reached⟩ := exists_replay_of_mem_history there
  obtain ⟨e, member, rfl⟩ := List.mem_map.mp listed
  obtain ⟨inside, cls_eq⟩ := List.mem_filter.mp member
  exact ⟨before, step.1, after, step.2, e, split, rfl, reached, Entities.mem_all.mp inside,
    of_decide_eq_true cls_eq, rfl⟩

end ChangeLog

/-- A recording with a change log is sound to its end. -/
theorem exists_framesOf_of_changeLog {data : Bytes} {cls : String} {records : List Record}
    (log : changeLog data cls = .ok records) :
    ∃ frames, framesOf data = .ok frames ∧ (Scene.empty.history frames).2 = none := by
  cases whole : Recording.ofBytes data with
  | error fault =>
    rw [changeLog, whole] at log
    cases log
  | ok recording =>
    rw [changeLog_of_recording whole, ChangeLog.ofTranscript_eq] at log
    split at log
    · cases log
    · rename_i sound
      obtain ⟨applied, ended⟩ := Option.or_eq_none_iff.mp sound
      refine ⟨_, framesOf_eq_ok.mpr ⟨recording, whole, ?_⟩, applied⟩
      rw [Recording.transcript_ofBytes whole, ← ended]

open ChangeLog in
/-- **A change log loses nothing.** Let a recording have a change log of a class. Then it is sound; after each of its
frames, the last record of each entity of the class, up to the tick of the frame, has the properties of the entity;
and every record has the properties of an entity that is of the class after the frame with the tick of the record. -/
theorem changeLog_lossless {data : Bytes} {cls : String} {records : List Record}
    (log : changeLog data cls = .ok records) :
    ∃ frames, framesOf data = .ok frames ∧
      (∀ before frame after, frames = before ++ frame :: after →
        ∃ scene, Scene.empty.replay (before ++ [frame]) = .ok scene ∧
          ∀ id e, scene.entities.find? id = some e → e.cls = cls →
            ∃ r, lastKept (records.filter (·.tick ≤ frame.tick)) id = some r ∧ e.properties.alike r.values) ∧
      ∀ r ∈ records, ∃ before frame after scene e, frames = before ++ frame :: after ∧ frame.tick = r.tick ∧
        Scene.empty.replay (before ++ [frame]) = .ok scene ∧ scene.entities.find? r.entity = some e ∧ e.cls = cls ∧
        e.properties = r.values := by
  obtain ⟨frames, read, sound⟩ := exists_framesOf_of_changeLog log
  obtain ⟨ascending, rfl⟩ := changeLog_eq_ok read log
  refine ⟨frames, read, fun before frame after split => ?_, fun r mem => exists_entity_of_mem_changes mem⟩
  obtain rfl : frames = before ++ [frame] ++ after := by rw [split, List.append_assoc, List.singleton_append]
  obtain ⟨scene, reached⟩ := exists_replay_front sound
  refine ⟨scene, reached, fun id e there member => ?_⟩
  rw [filter_changes cls sound ascending]
  exact lastKept_of_reached reached there member

/-- A recording in which an entity of class `p` is created, removed, and created again as it was. -/
def returningRecording : Bytes :=
  Header.signature ++ [3, 0, 0, 0] ++ List.replicate 1056 0 ++
    [0x02, 1, 0, 0, 0, 0x01, 1, 0, 0, 0, 1, 0, 0x70, 1, 0, 0, 2, 0, 0x68, 0x70, 0, 5, 0, 0, 0, 0] ++
    [0x02, 2, 0, 0, 0, 0x03, 1, 0, 0, 0, 0] ++
    [0x02, 3, 0, 0, 0, 0x01, 1, 0, 0, 0, 1, 0, 0x70, 1, 0, 0, 2, 0, 0x68, 0x70, 0, 5, 0, 0, 0, 0] ++ [0x07]

/-- A frame of it. -/
def returningFrame (tick : Tick) (offset : Nat) : Frame :=
  ⟨tick, [.baseline 1 "p" [⟨.name "hp", .integer 5⟩]], offset⟩

def returningFrames : List Frame := [returningFrame 1 1068, ⟨2, [.remove 1], 1094⟩, returningFrame 3 1105]

/-- After its third frame, the record of the first one tells what the entity is. -/
theorem changeLog_lossless_returning :
    changeLog returningRecording "p" = .ok [⟨1, 1, .singleton "hp" (.integer 5)⟩] ∧
      framesOf returningRecording = .ok returningFrames ∧
      ∃ scene, Scene.empty.replay returningFrames = .ok scene ∧
        scene.entities.find? 1 = some ⟨1, "p", .singleton "hp" (.integer 5)⟩ ∧
        ∃ r, ChangeLog.lastKept [⟨1, 1, .singleton "hp" (.integer 5)⟩] 1 = some r ∧
          Properties.alike (.singleton "hp" (.integer 5)) r.values := by
  have log : changeLog returningRecording "p" = .ok [⟨1, 1, .singleton "hp" (.integer 5)⟩] := by decide +kernel
  have read : framesOf returningRecording = .ok returningFrames := by decide +kernel
  have there : (Scene.empty.replay returningFrames).map (·.entities.find? 1) =
      .ok (some ⟨1, "p", .singleton "hp" (.integer 5)⟩) := by decide +kernel
  obtain ⟨frames, same, complete, -⟩ := changeLog_lossless log
  obtain rfl : returningFrames = frames := Except.ok.inj (read.symm.trans same)
  obtain ⟨scene, reached, told⟩ := complete (returningFrames.take 2) (returningFrame 3 1105) [] rfl
  have led : Scene.empty.replay returningFrames = .ok scene := reached
  rw [led] at there
  have found := Except.ok.inj there
  exact ⟨log, read, scene, led, found, told 1 _ found rfl⟩

end DemoTape
