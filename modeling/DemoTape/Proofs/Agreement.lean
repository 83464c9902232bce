/-
# Who finds a recording good

An audit decodes all the frames before it applies any, and then decodes them again. A sampler and a change log
decode and apply frame by frame; a roster and a summary apply nothing. So what stops them first differs, if a
recording has several faults. But whether anything stops them is one of two properties of the bytes: `Decodable`,
that there is a header and the frames come to the stop command, and `Sound`, that they also apply one after the
other.

`outcome_of_audit` says where an audit ends. `consumers_agree` says that all that goes through the frames agrees
with it.
-/
import DemoTape.ChangeLog
import DemoTape.CommandLine
import DemoTape.Proofs.Sampling.Batch
import DemoTape.Proofs.Scene.Changes
import Mathlib.Tactic.TFAE

namespace DemoTape
set_option autoImplicit false

/-- The header can be read and the frames come to the stop command. -/
def Decodable (data : Bytes) : Prop :=
  ∃ recording, Recording.ofBytes data = .ok recording ∧ recording.transcript.fault = none

/-- Also, the frames apply one after the other. -/
def Sound (data : Bytes) : Prop :=
  ∃ recording scene, Recording.ofBytes data = .ok recording ∧ Scene.empty.follow recording.transcript = .ok scene

theorem decodable_of_sound {data : Bytes} (sound : Sound data) : Decodable data := by
  obtain ⟨recording, scene, header, followed⟩ := sound
  exact ⟨recording, header, (Scene.follow_ok.mp followed).2⟩

section Recordings
variable {data : Bytes} {recording : Recording} {fault : Fault}

theorem not_decodable (refused : Recording.ofBytes data = .error fault) : ¬ Decodable data := by
  rintro ⟨recording, header, -⟩
  rw [refused] at header
  nomatch header

theorem decodable_iff (header : Recording.ofBytes data = .ok recording) :
    Decodable data ↔ recording.transcript.fault = none := by
  constructor
  · rintro ⟨other, same, complete⟩
    rw [header] at same
    obtain rfl := Except.ok.inj same
    exact complete
  · exact fun complete => ⟨recording, header, complete⟩

theorem sound_iff (header : Recording.ofBytes data = .ok recording) :
    Sound data ↔ ∃ scene, Scene.empty.follow recording.transcript = .ok scene := by
  constructor
  · rintro ⟨other, scene, same, followed⟩
    rw [header] at same
    obtain rfl := Except.ok.inj same
    exact ⟨scene, followed⟩
  · rintro ⟨scene, followed⟩
    exact ⟨recording, scene, header, followed⟩

end Recordings

/-! ## What decodes all the frames -/

theorem Transcript.complete_isOk (t : Transcript) : t.complete.isOk ↔ t.fault = none := by
  unfold complete
  cases t.fault <;> simp [Except.isOk, Except.toBool]

theorem complete_iff (data : Bytes) :
    (∃ recording frames, Recording.ofBytes data = .ok recording ∧ recording.transcript.complete = .ok frames) ↔
      Decodable data := by
  constructor
  · rintro ⟨recording, frames, header, complete⟩
    refine ⟨recording, header, (Transcript.complete_isOk _).mp ?_⟩
    rw [complete]
    rfl
  · rintro ⟨recording, header, complete⟩
    exact ⟨recording, _, header, by rw [Transcript.complete, complete]⟩

theorem framesOf_isOk (data : Bytes) : (framesOf data).isOk ↔ Decodable data := by
  unfold framesOf
  cases header : Recording.ofBytes data with
  | error fault => simp [bind, Except.bind, not_decodable header, Except.isOk, Except.toBool]
  | ok recording =>
    rw [decodable_iff header, ← Transcript.complete_isOk]
    rfl

theorem roster_isOk (data : Bytes) : (roster data).isOk ↔ Decodable data := by
  rw [← framesOf_isOk]
  unfold roster
  cases framesOf data <;> rfl

theorem info_success (style : OutputStyle) (data : Bytes) :
    (CommandLine.info style data).success ↔ Decodable data := by
  unfold CommandLine.info
  cases header : Recording.ofBytes data with
  | error fault => simp [not_decodable header, Outcome.failed]
  | ok recording =>
    rw [decodable_iff header]
    cases fault : recording.transcript.fault with
    | some fault => simp [Transcript.complete, fault, Outcome.failed]
    | none => cases style <;> simp [Transcript.complete, fault, Outcome.written]

/-! ## What applies frame by frame -/

theorem isOk_bind_pure {α β : Type} (found : Except Fault α) (f : α → β) :
    (do let a ← found; pure (f a)).isOk = found.isOk := by
  cases found <;> rfl

/-- What a change log records along the way cannot fail. -/
theorem ofFrames_isOk (cls : String) (recorded : ChangeLog.Recorded) (scene : Scene) (frames : List Frame) :
    (ChangeLog.ofFrames cls recorded scene frames).isOk ↔ ∃ after, scene.replay frames = .ok after := by
  induction frames generalizing recorded scene with
  | nil => exact ⟨fun _ => ⟨scene, rfl⟩, fun _ => rfl⟩
  | cons frame rest ih =>
    match applied : scene.apply frame with
    | (some fault, left) => simp [ChangeLog.ofFrames, Scene.replay, applied, Except.isOk, Except.toBool]
    | (none, next) =>
      simp only [ChangeLog.ofFrames, Scene.replay, applied, isOk_bind_pure]
      exact ih _ next

theorem changeLog_isOk (data : Bytes) (cls : String) : (changeLog data cls).isOk ↔ Sound data := by
  unfold changeLog
  cases header : Recording.ofBytes data with
  | error fault =>
    have unsound : ¬ Sound data := fun sound => not_decodable header (decodable_of_sound sound)
    simp [bind, Except.bind, unsound, Except.isOk, Except.toBool]
  | ok recording =>
    simp only [sound_iff header, Scene.follow_ok, exists_and_right, ← ofFrames_isOk cls ∅ .empty]
    unfold ChangeLog.ofTranscript
    simp only [bind, Except.bind]
    cases ChangeLog.ofFrames cls ∅ .empty recording.transcript.frames with
    | error fault => simp [Except.isOk, Except.toBool]
    | ok records =>
      cases recording.transcript.fault <;>
        simp [Except.isOk, Except.toBool, pure, Except.pure, throw, throwThe, MonadExceptOf.throw]

/-- The samples of a query come to the end of the recording without a fault. -/
def Sampled (data : Bytes) (path : String) (ticks : UInt32) : Prop :=
  ∃ s, Sampler.ofBytes data path ticks = .ok s ∧
    ∀ n fault, Pulls.item Sampler.next s n ≠ some (Except.error fault)

theorem items_fault (samples : Samples) :
    (∀ (n : Nat) (fault : Fault), samples.items[n]? ≠ some (Except.error fault)) ↔ samples.fault = none := by
  constructor
  · intro good
    cases ending : samples.fault with
    | none => rfl
    | some fault =>
      have member : Except.error fault ∈ samples.items := by simp [Samples.items, ending]
      obtain ⟨n, there⟩ := List.mem_iff_getElem?.mp member
      exact absurd there (good n fault)
  · intro ending n fault there
    have member := List.mem_of_getElem? there
    simp [Samples.items, ending] at member

/-- A sampler is made of a header, once the query and the period are good. -/
theorem sampler_ofBytes {data : Bytes} {path : String} {ticks : UInt32} {query : Query}
    (compiled : Query.read path = .ok query) (positive : ticks ≠ 0) :
    (∃ s, Sampler.ofBytes data path ticks = .ok s) ↔ ∃ recording, Recording.ofBytes data = .ok recording := by
  unfold Sampler.ofBytes
  cases Recording.ofBytes data <;> simp [Period.ofTicks, positive, compiled, bind, Except.bind, pure, Except.pure]

theorem sampled_iff {data : Bytes} {path : String} {ticks : UInt32} {query : Query}
    (compiled : Query.read path = .ok query) (positive : ticks ≠ 0) : Sampled data path ticks ↔ Sound data := by
  -- any sampler of these bytes has the batch to give, whose fault is that of a frame or else of the stream
  have good {s : Sampler} (built : Sampler.ofBytes data path ticks = .ok s) {recording : Recording}
      (header : Recording.ofBytes data = .ok recording) :
      (∀ n fault, Pulls.item Sampler.next s n ≠ some (Except.error fault)) ↔
        ∃ scene, Scene.empty.follow recording.transcript = .ok scene := by
    simp only [s.yields_rest _, items_fault, Sampler.rest_ofBytes compiled built, Samples.batch, Scene.follow_ok,
      exists_and_right, ← Recording.transcript_ofBytes header, Option.or_eq_none_iff, history_fault]
  constructor
  · rintro ⟨s, built, clean⟩
    obtain ⟨recording, header⟩ := (sampler_ofBytes compiled positive).mp ⟨s, built⟩
    exact (sound_iff header).mpr ((good built header).mp clean)
  · intro sound
    obtain ⟨recording, scene, header, followed⟩ := sound
    obtain ⟨s, built⟩ := (sampler_ofBytes compiled positive).mpr ⟨recording, header⟩
    exact ⟨s, built, (good built header).mpr ⟨scene, followed⟩⟩

/-! ## Audits -/

/-- Where an audit ends: at the header, at the frames, at a frame that does not apply, or well. -/
theorem outcome_of_audit (data : Bytes) :
    (∃ fault, Audit.ofBytes data = ⟨0, some fault, []⟩ ∧ ¬ Decodable data) ∨
    (∃ fault, Audit.ofBytes data = ⟨1, some fault, []⟩ ∧ ¬ Decodable data) ∨
    (∃ recording fault warnings, Audit.ofBytes data = ⟨2, some fault, warnings⟩ ∧
      Recording.ofBytes data = .ok recording ∧ recording.transcript.fault = none ∧
      Scene.empty.replay recording.transcript.frames = .error fault) ∨
    ∃ warnings, Audit.ofBytes data = ⟨3, none, warnings⟩ ∧ Sound data := by
  unfold Audit.ofBytes
  cases header : Recording.ofBytes data with
  | error fault => exact .inl ⟨fault, rfl, not_decodable header⟩
  | ok recording =>
    cases ending : recording.transcript.fault with
    | some fault =>
      refine .inr (.inl ⟨fault, by simp [Transcript.complete, ending], ?_⟩)
      rw [decodable_iff header, ending]
      exact Option.some_ne_none fault
    | none =>
      simp only [Transcript.complete, ending, Scene.follow_of_complete ending]
      cases replayed : Scene.empty.replay recording.transcript.frames with
      | error fault => exact .inr (.inr (.inl ⟨recording, fault, _, rfl, rfl, ending, replayed⟩))
      | ok scene =>
        exact .inr (.inr (.inr ⟨_, rfl, (sound_iff header).mpr ⟨scene, Scene.follow_ok.mpr ⟨replayed, ending⟩⟩⟩))

theorem not_sound_of_replay {data : Bytes} {recording : Recording} {fault : Fault}
    (header : Recording.ofBytes data = .ok recording)
    (failed : Scene.empty.replay recording.transcript.frames = .error fault) : ¬ Sound data := by
  rw [sound_iff header]
  rintro ⟨scene, followed⟩
  rw [(Scene.follow_ok.mp followed).1] at failed
  nomatch failed

theorem audit_completed (data : Bytes) :
    ((Audit.ofBytes data).passed = Stage.all.length ∧ (Audit.ofBytes data).failure = none) ↔ Sound data := by
  rcases outcome_of_audit data with ⟨fault, audit, bad⟩ | ⟨fault, audit, bad⟩ |
    ⟨recording, fault, warnings, audit, header, -, failed⟩ | ⟨warnings, audit, sound⟩
  · simp [audit, mt decodable_of_sound bad]
  · simp [audit, mt decodable_of_sound bad]
  · simp [audit, not_sound_of_replay header failed]
  · simp [audit, sound, Stage.all]

/-- The command that shows an audit succeeds if the audit does. -/
theorem validate_success (file : String) (verbose : Bool) (data : Bytes) :
    (CommandLine.validate file verbose (.ok data)).success ↔ Sound data := by
  unfold CommandLine.validate
  rcases outcome_of_audit data with ⟨fault, audit, bad⟩ | ⟨fault, audit, bad⟩ |
    ⟨recording, fault, warnings, audit, header, -, failed⟩ | ⟨warnings, audit, sound⟩
  · simp [audit, Stage.completed, Stage.all, mt decodable_of_sound bad]
  · simp [audit, Stage.completed, Stage.all, mt decodable_of_sound bad]
  · simp [audit, Stage.completed, Stage.all, not_sound_of_replay header failed]
  · simp [audit, Stage.completed, Stage.all, Audit.problem, sound]

theorem audit_decoded (data : Bytes) : 2 ≤ (Audit.ofBytes data).passed ↔ Decodable data := by
  rcases outcome_of_audit data with ⟨fault, audit, bad⟩ | ⟨fault, audit, bad⟩ |
    ⟨recording, fault, warnings, audit, header, complete, -⟩ | ⟨warnings, audit, sound⟩
  · simp [audit, bad]
  · simp [audit, bad]
  · simp [audit, (decodable_iff header).mpr complete]
  · simp [audit, decodable_of_sound sound]

/-- A fault is shown under the name of a stage. -/
theorem audit_stage {data : Bytes} {fault : Fault} (failed : (Audit.ofBytes data).failure = some fault) :
    ∃ stage, Stage.all[(Audit.ofBytes data).passed]? = some stage ∧
      (Audit.ofBytes data).problem = some (stage.label ++ " failed: " ++ fault.message) := by
  rcases outcome_of_audit data with ⟨found, audit, -⟩ | ⟨found, audit, -⟩ | ⟨_, found, _, audit, -⟩ | ⟨_, audit, -⟩
  all_goals
    rw [audit] at failed ⊢
    cases failed
  · exact ⟨.header, rfl, rfl⟩
  · exact ⟨.frames, rfl, rfl⟩
  · exact ⟨.scene, rfl, rfl⟩

/-- What fails in the last stage is a frame, after all the frames have been decoded. -/
theorem audit_scene {data : Bytes} {fault : Fault} (passed : (Audit.ofBytes data).passed = 2)
    (failed : (Audit.ofBytes data).failure = some fault) :
    ∃ before frame after scene, framesOf data = .ok (before ++ frame :: after) ∧
      Scene.empty.replay before = .ok scene ∧ (scene.apply frame).1 = some fault := by
  rcases outcome_of_audit data with ⟨found, audit, -⟩ | ⟨found, audit, -⟩ |
    ⟨recording, found, warnings, audit, header, complete, refused⟩ | ⟨_, audit, -⟩
  · rw [audit] at passed
    cases passed
  · rw [audit] at passed
    cases passed
  · rw [audit] at failed
    cases failed
    obtain ⟨before, frame, after, scene, split, done, last⟩ := Scene.replay_error refused
    refine ⟨before, frame, after, scene, ?_, done, last⟩
    rw [framesOf, header, ← split]
    simp only [bind, Except.bind, Transcript.complete, complete]
  · rw [audit] at failed
    cases failed

/-- **All that goes through the frames agrees with the audit.** -/
theorem consumers_agree (data : Bytes) :
    [(Audit.ofBytes data).passed = Stage.all.length ∧ (Audit.ofBytes data).failure = none,
      (Audit.ofBytes data).isValid = true,
      ∀ file verbose, (CommandLine.validate file verbose (.ok data)).success = true,
      ∃ path ticks query, Query.read path = .ok query ∧ ticks ≠ 0 ∧ Sampled data path ticks,
      ∀ path ticks query, Query.read path = .ok query → ticks ≠ 0 → Sampled data path ticks,
      ∃ cls, (changeLog data cls).isOk = true,
      ∀ cls, (changeLog data cls).isOk = true].TFAE ∧
    [∃ recording frames, Recording.ofBytes data = .ok recording ∧ recording.transcript.complete = .ok frames,
      ∀ style, (CommandLine.info style data).success = true,
      (roster data).isOk = true,
      2 ≤ (Audit.ofBytes data).passed].TFAE ∧
    (∀ fault, (Audit.ofBytes data).passed = 2 → (Audit.ofBytes data).failure = some fault →
      ∃ before frame after scene, framesOf data = .ok (before ++ frame :: after) ∧
        Scene.empty.replay before = .ok scene ∧ (scene.apply frame).1 = some fault) ∧
    ∀ fault, (Audit.ofBytes data).failure = some fault →
      ∃ stage, Stage.all[(Audit.ofBytes data).passed]? = some stage ∧
        (Audit.ofBytes data).problem = some (stage.label ++ " failed: " ++ fault.message) := by
  refine ⟨?_, ?_, fun fault => audit_scene, fun fault => audit_stage⟩
  · have root : Query.read "$" = .ok ⟨[]⟩ := by decide +kernel
    have valid := audit_completed data
    tfae_have 1 ↔ 2 := by simp [Audit.isValid, Stage.completed]
    tfae_have 1 → 3 := fun good file verbose => (validate_success file verbose data).mpr (valid.mp good)
    tfae_have 3 → 1 := fun shown => valid.mpr ((validate_success "" false data).mp (shown "" false))
    tfae_have 1 → 5 := fun good path ticks query compiled positive => (sampled_iff compiled positive).mpr (valid.mp good)
    tfae_have 5 → 4 := fun every => ⟨"$", 1, ⟨[]⟩, root, by decide, every "$" 1 ⟨[]⟩ root (by decide)⟩
    tfae_have 4 → 1 := by
      rintro ⟨path, ticks, query, compiled, positive, sampled⟩
      exact valid.mpr ((sampled_iff compiled positive).mp sampled)
    tfae_have 1 → 7 := fun good cls => (changeLog_isOk data cls).mpr (valid.mp good)
    tfae_have 7 → 6 := fun every => ⟨ChangeLog.worldClass, every _⟩
    tfae_have 6 → 1 := by
      rintro ⟨cls, fine⟩
      exact valid.mpr ((changeLog_isOk data cls).mp fine)
    tfae_finish
  · have decoded := audit_decoded data
    tfae_have 1 ↔ 4 := (complete_iff data).trans decoded.symm
    tfae_have 2 → 4 := fun shown => decoded.mpr ((info_success .json data).mp (shown .json))
    tfae_have 4 → 2 := fun two style => (info_success style data).mpr (decoded.mp two)
    tfae_have 3 ↔ 4 := (roster_isOk data).trans decoded.symm
    tfae_finish

/-- A recording whose only frame changes an entity that is not there, with an unknown command behind it. -/
def twoFaults : Bytes :=
  Header.signature ++ [3, 0, 0, 0] ++ List.replicate 1056 0 ++ [0x02, 10, 0, 0, 0, 0x02, 1, 0, 0, 0, 0, 0, 0] ++ [0x05]

/-- The audit finds the command and a change log the entity; so a roster fails, and a change log of any class. -/
theorem consumers_agree_twoFaults :
    (Audit.ofBytes twoFaults).failure = some (.corrupt 1081 (.unknownCommand 5)) ∧
      changeLog twoFaults ChangeLog.worldClass = .error (.corrupt 1068 (.untrackedEntity 1)) ∧
      (roster twoFaults).isOk = false ∧ ∀ cls, (changeLog twoFaults cls).isOk = false := by
  have audit : (Audit.ofBytes twoFaults).passed = 1 ∧
      (Audit.ofBytes twoFaults).failure = some (.corrupt 1081 (.unknownCommand 5)) := by decide +kernel
  obtain ⟨good, decoded, -, -⟩ := consumers_agree twoFaults
  refine ⟨audit.2, by decide +kernel, ?_, ?_⟩
  · rw [Bool.eq_false_iff]
    intro fine
    have two : 2 ≤ (Audit.ofBytes twoFaults).passed := (decoded.out 2 3).mp fine
    rw [audit.1] at two
    exact absurd two (by decide)
  · intro cls
    rw [Bool.eq_false_iff]
    intro fine
    have any : ∃ cls, (changeLog twoFaults cls).isOk = true := ⟨cls, fine⟩
    have completed := (good.out 5 0).mp any
    rw [audit.1] at completed
    exact absurd completed.1 (by decide)

end DemoTape
