/-
# Input and skipped payloads do not interfere

The bytes of commands and of skipped payloads can be anything, also what would end a frame or begin one, and they move
all that stands behind them. `Wire.Frame.heard` is what a stored frame says apart from such messages. Two recordings
with one header whose frames say the same so far are told apart by no query, no change log and no roster, if one of
them is sound (`noninterference`).

That the ticks of the first recording ascend need not be asked for: a stream that comes to the stop command has found
that they do. The second recording then has the same ticks, so that its stream comes to the stop command too.
-/
import DemoTape.Proofs.Agreement
import DemoTape.Proofs.Header.Extent
import DemoTape.Proofs.Scene.Inert
import DemoTape.Proofs.Wire.Reading
import DemoTape.Proofs.Wire.Spelling

namespace DemoTape
namespace Wire
set_option autoImplicit false

/-- Whether a message carries input or is skipped over. -/
def Message.inert : Message → Bool
  | .command _ _ => true
  | .other _ _ _ _ => true
  | _ => false

/-- What a stored frame says apart from inert messages. -/
def Frame.heard (f : Frame) : Tick × List Message := (f.tick, f.messages.filter fun m => !m.inert)

/-- A recording of these frames. What stands behind the stop command does not belong to it. -/
def recording (header : Bytes) (frames : List Frame) (back : Bytes) : Bytes :=
  header ++ (encode frames ++ DemoTape.Frame.stopCommand :: back)

/-! ## What is read of such a recording -/

theorem Message.inert_content (m : Message) : m.content.inert = m.inert := by cases m <;> rfl

theorem heard_placed (start : Nat) (frames : List Frame) : (placed start frames).map DemoTape.Frame.heard =
    (frames.map Frame.heard).map fun said => (said.1, said.2.map Message.content) := by
  have read : (placed start frames).map DemoTape.Frame.heard =
      (frames.map Frame.content).map fun c => (c.1, DemoTape.Message.heard c.2) := by
    rw [← content_placed start, List.map_map]
    rfl
  rw [read, List.map_map, List.map_map]
  refine List.map_congr_left fun f _ => Prod.ext rfl ?_
  show DemoTape.Message.heard (f.messages.map Message.content) = (f.messages.filter _).map Message.content
  rw [DemoTape.Message.heard, List.filter_map]
  simp only [Function.comp_def, Message.inert_content]

section Recordings
variable {header back : Bytes} {frames : List Frame}

theorem stream_recording (sized : header.length = Header.size) :
    (FrameStream.ofBytes (recording header frames back) Header.size).cursor.At
      (encode frames ++ [DemoTape.Frame.stopCommand]) := by
  have met := at_ofBytes header (encode frames ++ [DemoTape.Frame.stopCommand]) back
  rwa [List.append_assoc, List.singleton_append, sized] at met

theorem ascending_of_complete (sized : header.length = Header.size)
    (complete : (FrameStream.ofBytes (recording header frames back) Header.size).transcript.fault = none) :
    (frames.map Frame.tick).Pairwise (· < ·) :=
  (ready_of_complete rfl (stream_recording sized) complete).ascending

theorem transcript_recording (sized : header.length = Header.size)
    (ascending : (frames.map Frame.tick).Pairwise (· < ·)) (back : Bytes) :
    (FrameStream.ofBytes (recording header frames back) Header.size).transcript =
      ⟨placed Header.size frames, none⟩ :=
  transcript_of_ready ⟨rfl, stream_recording sized, ascending⟩

theorem read_recording (sized : header.length = Header.size) (frames : List Frame) (back : Bytes) :
    Header.read (recording header frames back) = Header.read header := by
  have front : (recording header frames back).take Header.size = header := by
    rw [← sized, recording, List.take_left]
  have there : Header.size ≤ (recording header frames back).length := by
    rw [recording, List.length_append, sized]
    omega
  rw [← Header.read_take there (Nat.le_refl _), front]

end Recordings

/-! ## What consumers give -/

section Consumers
variable {data : Bytes} {opened : Recording} {frames : List DemoTape.Frame} (there : Recording.ofBytes data = .ok opened)
  (whole : (FrameStream.ofBytes data Header.size).transcript = ⟨frames, none⟩)
include there whole

theorem yields_of_transcript {path : String} {ticks : UInt32} {query : Query} (compiled : Query.read path = .ok query)
    (positive : ticks ≠ 0) : ∃ s, Sampler.ofBytes data path ticks = .ok s ∧
      Pulls.Yields Sampler.next s (Samples.batch query ticks ⟨frames, none⟩).items := by
  obtain ⟨s, built⟩ := (sampler_ofBytes compiled positive).mpr ⟨opened, there⟩
  rw [← whole]
  exact Sampler.exists_yields compiled (built ▸ rfl)

theorem changeLog_of_transcript (cls : String) :
    changeLog data cls = ChangeLog.ofTranscript cls ⟨frames, none⟩ := by
  rw [changeLog_of_recording there, whole]

theorem roster_of_transcript : roster data = .ok (Roster.ofFrames frames) := by
  rw [← Recording.transcript_ofBytes there] at whole
  rw [roster, framesOf_eq_ok.mpr ⟨opened, there, whole⟩]
  rfl

end Consumers

theorem sound_of_sampled {data : Bytes} {path : String} {ticks : UInt32} (sampled : Sampled data path ticks) :
    ∃ header scene, Header.read data = .ok header ∧
      (FrameStream.ofBytes data Header.size).transcript.fault = none ∧
      Scene.empty.replay (FrameStream.ofBytes data Header.size).transcript.frames = .ok scene := by
  obtain ⟨s, built, clean⟩ := sampled
  obtain ⟨period, query, -, good, compiled, -⟩ := Sampler.ofBytes_eq_ok.mp built
  have positive : ticks ≠ 0 := Period.ticks_ofTicks good ▸ period.positive
  obtain ⟨recording, scene, there, followed⟩ := (sampled_iff compiled positive).mp ⟨s, built, clean⟩
  obtain ⟨header, read, rfl⟩ := Recording.ofBytes_eq_ok.mp there
  obtain ⟨replayed, complete⟩ := Scene.follow_ok.mp followed
  exact ⟨header, scene, read, complete, replayed⟩

/-- **Input and skipped payloads do not interfere.** Let a query be sampled on a recording without a fault. Then take
inert messages out of its frames, put others in, or change their bytes, and store the frames behind the same header:
every query has the same records with every period, every class has the same change log, and the roster is the same,
all without a fault. -/
theorem noninterference {header back back' : Bytes} {frames frames' : List Frame} {path : String} {ticks : UInt32}
    (sized : header.length = Header.size) (sampled : Sampled (recording header frames back) path ticks)
    (same : frames.map Frame.heard = frames'.map Frame.heard) :
    (∀ path query ticks, Query.read path = .ok query → ticks ≠ 0 → ∃ (s s' : Sampler) (records : List Record),
      Sampler.ofBytes (recording header frames back) path ticks = .ok s ∧
      Sampler.ofBytes (recording header frames' back') path ticks = .ok s' ∧
      Pulls.Yields Sampler.next s (records.map .ok) ∧ Pulls.Yields Sampler.next s' (records.map .ok)) ∧
    (∀ cls, ∃ log, changeLog (recording header frames back) cls = .ok log ∧
      changeLog (recording header frames' back') cls = .ok log) ∧
    ∃ players, roster (recording header frames back) = .ok players ∧
      roster (recording header frames' back') = .ok players := by
  obtain ⟨fields, scene, read, complete, replayed⟩ := sound_of_sampled sampled
  have read' : Header.read (recording header frames' back') = .ok fields := by
    rw [read_recording sized, ← read_recording sized frames back, read]
  have there := Recording.ofBytes_eq_ok.mpr ⟨fields, read, rfl⟩
  have there' := Recording.ofBytes_eq_ok.mpr ⟨fields, read', rfl⟩
  have ascending := ascending_of_complete sized complete
  have ticks_eq : frames.map Frame.tick = frames'.map Frame.tick := by
    have firsts := congrArg (List.map Prod.fst) same
    rwa [List.map_map, List.map_map] at firsts
  have whole := transcript_recording sized ascending back
  have whole' := transcript_recording sized (ticks_eq ▸ ascending) back'
  have heard : (placed Header.size frames).map DemoTape.Frame.heard =
      (placed Header.size frames').map DemoTape.Frame.heard := by
    rw [heard_placed, heard_placed, same]
  have sound : (Scene.empty.history (placed Header.size frames)).2 = none := by
    rw [whole] at replayed
    exact (history_fault _ _).mpr ⟨scene, replayed⟩
  have sound' : (Scene.empty.history (placed Header.size frames')).2 = none := (Scene.history_heard heard sound 0).1
  refine ⟨fun path query ticks compiled positive => ?_, fun cls => ?_, ?_⟩
  · obtain ⟨s, built, yields⟩ := yields_of_transcript there whole compiled positive
    obtain ⟨s', built', yields'⟩ := yields_of_transcript there' whole' compiled positive
    rw [Samples.items_of_sound sound] at yields
    rw [Samples.items_of_sound sound', Samples.records_heard heard sound] at yields'
    exact ⟨s, s', _, built, built', yields, yields'⟩
  · rw [changeLog_of_transcript there whole, changeLog_of_transcript there' whole', ChangeLog.ofTranscript_of_sound sound,
      ChangeLog.ofTranscript_of_sound sound', ChangeLog.listedAll_heard heard sound]
    exact ⟨_, rfl, rfl⟩
  · rw [roster_of_transcript there whole, roster_of_transcript there' whole', Roster.ofFrames_heard heard]
    exact ⟨_, rfl, rfl⟩

def ammo (value : Int32) : Counted Assignment := ⟨[⟨.name ⟨"ammo", by decide +kernel⟩, .integer value⟩], by simp⟩

/-- An entity of class `p`: its `ammo` is 5 and is then set to 6. The player in the first slot is called `bo`. -/
def tendered : List Frame :=
  [⟨10, [.table ⟨"userinfo", by decide +kernel⟩ ⟨[⟨0, ⟨"bo", by decide +kernel⟩⟩], by decide⟩,
      .baseline 1 ⟨"p", by decide +kernel⟩ (ammo 5)]⟩,
    ⟨11, [.command 7 ⟨[0x07], by decide⟩, .delta 1 (ammo 6)]⟩]

/-- The same among payloads that hold the stop command, the packet command, the end mark and the removal of the
entity, and without the input. -/
def disturbed : List Frame :=
  [⟨10, [.other 0x90 [0x07, 0x00, 0x02] (by decide) (by decide),
      .table ⟨"userinfo", by decide +kernel⟩ ⟨[⟨0, ⟨"bo", by decide +kernel⟩⟩], by decide⟩,
      .command 9 ⟨[0x00, 0x03, 1, 0, 0, 0], by decide⟩,
      .baseline 1 ⟨"p", by decide +kernel⟩ (ammo 5)]⟩,
    ⟨11, [.delta 1 (ammo 6), .other 0xFF [] (by decide) (by decide)]⟩]

theorem noninterference_disturbed :
    let header := Header.signature ++ [3, 0, 0, 0] ++ List.replicate 1056 0
    header.length = Header.size ∧ Sampled (recording header tendered []) "$.p" 1 ∧
      tendered.map Frame.heard = disturbed.map Frame.heard ∧
      (∃ s, Sampler.ofBytes (recording header disturbed [0x02]) "$.p" 1 = .ok s ∧ Pulls.Yields Sampler.next s
        [.ok ⟨10, 1, .singleton "ammo" (.integer 5)⟩, .ok ⟨11, 1, .singleton "ammo" (.integer 6)⟩]) ∧
      (∃ log, changeLog (recording header tendered []) "p" = .ok log ∧
        changeLog (recording header disturbed [0x02]) "p" = .ok log) ∧
      roster (recording header disturbed [0x02]) = .ok [⟨0, "bo", 10⟩] := by
  intro header
  have compiled : Query.read "$.p" = .ok ⟨[.field "p"]⟩ := by decide +kernel
  have batch : (Samples.batch ⟨[.field "p"]⟩ 1
      (FrameStream.ofBytes (recording header tendered []) Header.size).transcript).items =
      [.ok ⟨10, 1, .singleton "ammo" (.integer 5)⟩, .ok ⟨11, 1, .singleton "ammo" (.integer 6)⟩] := by decide +kernel
  have players : roster (recording header tendered []) = .ok [⟨0, "bo", 10⟩] := by decide +kernel
  have good : (Sampler.ofBytes (recording header tendered []) "$.p" 1).isOk := by decide +kernel
  have sized : header.length = Header.size := by decide +kernel
  have same : tendered.map Frame.heard = disturbed.map Frame.heard := rfl
  obtain ⟨s, built, given⟩ := Sampler.exists_yields compiled good
  rw [batch] at given
  have sampled : Sampled (recording header tendered []) "$.p" 1 := by
    refine ⟨s, built, fun n fault found => ?_⟩
    have member := List.mem_of_getElem? ((given n).symm.trans found)
    simp at member
  obtain ⟨every, logs, rosters⟩ := @noninterference header [] [0x02] tendered disturbed _ _ sized sampled same
  obtain ⟨t, t', records, first, second, yields, yields'⟩ := every "$.p" _ 1 compiled (by decide)
  obtain rfl : s = t := Except.ok.inj (built.symm.trans first)
  rw [yields.unique given] at yields'
  obtain ⟨named, here, there⟩ := rosters
  rw [← here, players] at there
  exact ⟨sized, sampled, same, ⟨t', second, yields'⟩, logs "p", there⟩

end Wire
end DemoTape
