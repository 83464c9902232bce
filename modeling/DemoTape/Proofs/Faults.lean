/-
# Faults are placed truly, and there are few of them

The fault of a stream tells where the bytes are at fault (`Fault.Truthful`), wherever the stream begins. Once a header
has been read, a recording can be at fault in two ways only: its data are corrupt, or a property changes its kind. A
sampler and a change log find both, a roster the first alone, since it applies no frame (`faults_located`).

What is known of a frame that cannot be decoded (`Decoder.truthful_of_frame`) holds of every pull, since no pull reaches
over the end of the bytes (`FrameStream.offset_le_size`). What can be wrong with a frame that is applied is what can be
wrong with one of its messages (`Scene.Fails.cause`).
-/
import DemoTape.Proofs.ChangeLog.Filter
import DemoTape.Proofs.Decoding.Located
import DemoTape.Proofs.Frames.Orderly
import DemoTape.Proofs.Header.Extent
import DemoTape.Proofs.Scene.Failing
import DemoTape.Roster

namespace DemoTape
set_option autoImplicit false

/-! ## Streams -/

namespace FrameStream
variable {s : FrameStream} {fault : Fault}

theorem frame_of_next_error (failed : s.next.1 = some (.error fault)) :
    ∃ left, Decoder.frame s.lastTick s.cursor = .error fault left := by
  unfold next at failed
  split at failed
  · cases failed
  · split at failed
    · cases failed
    · cases failed
    · rename_i found left read
      cases failed
      exact ⟨left, read⟩

/-- The fault that a stream gives is placed truly, for a frame that begins where the stream stood. -/
theorem truthful_of_item (begun : s.cursor.offset ≤ s.cursor.size) {n : Nat}
    (failed : Pulls.item next s n = some (.error fault)) :
    fault.Truthful (Pulls.after next n s).cursor.offset s.cursor.size := by
  obtain ⟨size, within⟩ := offset_le_size begun n
  obtain ⟨left, read⟩ := frame_of_next_error (s := Pulls.after next n s) failed
  rw [← size] at within ⊢
  exact Decoder.truthful_of_frame within read

theorem category_of_transcript (begun : s.cursor.offset ≤ s.cursor.size) (ending : s.transcript.fault = some fault) :
    fault.category = .corruptData := by
  have last : Pulls.item next s s.transcript.frames.length = some (.error fault) := by
    rw [s.yields_transcript, Transcript.items, ending]
    simp
  exact (truthful_of_item begun last).category

end FrameStream

/-! ## Scenes -/

theorem Scene.category_of_apply {scene after : Scene} {frame : Frame} {fault : Fault}
    (failed : scene.apply frame = (some fault, after)) :
    fault.category = .corruptData ∨ fault.category = .kindChange := by
  obtain ⟨j, between, m, stops⟩ := exists_stopsAt (apply_error.mp failed)
  rcases stops.fails.cause with ⟨id, rfl⟩ | ⟨index, rfl⟩ | ⟨cls, property, expected, found, rfl⟩
  · exact .inl rfl
  · exact .inl rfl
  · exact .inr rfl

theorem Scene.category_of_history {scene : Scene} {frames : List Frame} {fault : Fault}
    (ending : (scene.history frames).2 = some fault) :
    fault.category = .corruptData ∨ fault.category = .kindChange := by
  induction frames generalizing scene with
  | nil => cases ending
  | cons frame rest ih =>
    match applied : scene.apply frame with
    | (some found, after) =>
      rw [history_failed applied] at ending
      cases ending
      exact category_of_apply applied
    | (none, later) =>
      rw [history_applied applied] at ending
      exact ih ending

/-! ## Recordings -/

namespace Recording
variable {data : Bytes} {recording : Recording} {fault : Fault}

/-- A recording has a body, which may be empty. -/
theorem size_le_length (whole : ofBytes data = .ok recording) : Header.size ≤ data.length := by
  obtain ⟨header, read, -⟩ := ofBytes_eq_ok.mp whole
  obtain ⟨-, -, enough, -⟩ := Header.read_eq_ok.mp read
  exact enough

theorem category_of_transcript (whole : ofBytes data = .ok recording)
    (ending : (FrameStream.ofBytes data Header.size).transcript.fault = some fault) : fault.category = .corruptData :=
  FrameStream.category_of_transcript (s := .ofBytes data Header.size) (size_le_length whole) ending

/-- What ends the frames of a recording, or stops them from being applied. -/
theorem category_of_following (whole : ofBytes data = .ok recording)
    (ending : (Scene.empty.history (FrameStream.ofBytes data Header.size).transcript.frames).2.or
      (FrameStream.ofBytes data Header.size).transcript.fault = some fault) :
    fault.category = .corruptData ∨ fault.category = .kindChange := by
  rcases Option.or_eq_some_iff.mp ending with failed | ⟨-, ended⟩
  · exact Scene.category_of_history failed
  · exact .inl (category_of_transcript whole ended)

end Recording

theorem Sampler.fault_of_item {s : Sampler} {n : Nat} {fault : Fault}
    (failed : Pulls.item next s n = some (.error fault)) : s.rest.fault = some fault := by
  rw [s.yields_rest] at failed
  have given := List.mem_of_getElem? failed
  simpa [Samples.items] using given

/-- **Faults are placed truly, and there are few of them.** Wherever a stream begins in the data, its fault is one of
corrupt data and is placed truly: behind the place where the command of the frame was expected and in front of the
missing bytes, or at a byte of the frame, or at the end of the data, if there is no command any more. A sampler and a
change log of a recording find corrupt data or the change of a kind, and the roster finds corrupt data only. -/
theorem faults_located (data : Bytes) :
    (∀ start, start ≤ data.length → ∀ n fault,
      Pulls.item FrameStream.next (.ofBytes data start) n = some (.error fault) →
        fault.category = .corruptData ∧
          fault.Truthful (Pulls.after FrameStream.next n (.ofBytes data start)).cursor.offset data.length) ∧
    (∀ path ticks s n fault, Sampler.ofBytes data path ticks = .ok s →
      Pulls.item Sampler.next s n = some (.error fault) →
        fault.category = .corruptData ∨ fault.category = .kindChange) ∧
    ∀ recording, Recording.ofBytes data = .ok recording →
      (∀ cls fault, changeLog data cls = .error fault →
        fault.category = .corruptData ∨ fault.category = .kindChange) ∧
      ∀ fault, roster data = .error fault → fault.category = .corruptData := by
  refine ⟨fun start within n fault failed => ?stream, fun path ticks s n fault built failed => ?sampler,
    fun recording whole => ⟨fun cls fault failed => ?log, fun fault failed => ?roster⟩⟩
  case stream =>
    have truthful := FrameStream.truthful_of_item (s := .ofBytes data start) within failed
    exact ⟨truthful.category, truthful⟩
  case sampler =>
    obtain ⟨-, query, recording, -, compiled, whole, -⟩ := Sampler.ofBytes_eq_ok.mp built
    have ending := Sampler.fault_of_item failed
    rw [Sampler.rest_ofBytes compiled built] at ending
    exact Recording.category_of_following whole ending
  case log =>
    rw [changeLog_of_recording whole, ChangeLog.ofTranscript_eq] at failed
    split at failed
    · rename_i found ending
      cases failed
      exact Recording.category_of_following whole ending
    · cases failed
  case roster =>
    rw [roster, framesOf, whole] at failed
    change (recording.transcript.complete >>= _) = _ at failed
    rw [Recording.transcript_ofBytes whole, Transcript.complete] at failed
    split at failed
    · cases failed
    · rename_i found ending
      cases failed
      exact Recording.category_of_transcript whole ending

/-- A recording in which `hp` of an entity is 5 and then a truth value; the frame behind that has only a part of its
tick. -/
def retypedRecording : Bytes :=
  Header.signature ++ [3, 0, 0, 0] ++ List.replicate 1056 0 ++
    [0x02, 10, 0, 0, 0, 0x01, 1, 0, 0, 0, 1, 0, 0x70, 1, 0, 0, 2, 0, 0x68, 0x70, 0, 5, 0, 0, 0, 0] ++
    [0x02, 11, 0, 0, 0, 0x02, 1, 0, 0, 0, 1, 0, 0, 2, 0, 0x68, 0x70, 3, 1, 0] ++ [0x02, 12, 0]

/-- The stream finds that two bytes are lacking, behind the command of a frame; the log does not come so far. -/
theorem faults_located_retyped :
    Pulls.item FrameStream.next (.ofBytes retypedRecording Header.size) 2 = some (.error (.endOfData 1115 4 2)) ∧
      (Fault.endOfData 1115 4 2).Truthful 1114 1117 ∧
      changeLog retypedRecording "p" = .error (.kindChange "p" "hp" .integer .boolean) ∧
      roster retypedRecording = .error (.endOfData 1115 4 2) ∧
      (Fault.endOfData 1115 4 2).category = .corruptData := by
  have failed : Pulls.item FrameStream.next (.ofBytes retypedRecording Header.size) 2 =
      some (.error (.endOfData 1115 4 2)) := by decide +kernel
  have stood : (Pulls.after FrameStream.next 2 (.ofBytes retypedRecording Header.size)).cursor.offset = 1114 := by
    decide +kernel
  have size : retypedRecording.length = 1117 := by decide +kernel
  have log : changeLog retypedRecording "p" = .error (.kindChange "p" "hp" .integer .boolean) := by decide +kernel
  have listed : roster retypedRecording = .error (.endOfData 1115 4 2) := by decide +kernel
  obtain ⟨located, -⟩ := faults_located retypedRecording
  obtain ⟨category, truthful⟩ := located Header.size (by rw [size]; decide) 2 _ failed
  rw [stood, size] at truthful
  exact ⟨failed, truthful, log, listed, category⟩

end DemoTape
