/-
# Sampling pull by pull is sampling at once

A sampler decodes one frame at a time, keeps the records of the current tick aside, and knows when it has
ended. `Samples.batch` knows nothing of that: it applies all the frames of a transcript to an empty scene,
keeps those on the grid of the first one, and takes their records. `yields_batch` says that the pulls of a
sampler give these records, then the fault if there is one, then nothing for ever.

The proof goes through `Sampler.rest`, what a sampler has still to give: its pending records and those of
`Samples.ofFrames` for the frames that are left. An advance keeps it, a pull takes its first item off.
-/
import DemoTape.Proofs.Frames.Transcript
import DemoTape.Sampling

namespace DemoTape
set_option autoImplicit false

/-! ## The batch -/

/-- The frames that can be applied one after the other, each with the scene after it, and the fault of the
first that cannot. -/
def Scene.history (scene : Scene) : List Frame → List (Frame × Scene) × Option Fault
  | [] => ([], none)
  | frame :: rest =>
    match scene.apply frame with
    | (some fault, _) => ([], some fault)
    | (none, scene) =>
      let later := scene.history rest
      ((frame, scene) :: later.1, later.2)

theorem Scene.history_applied {scene later : Scene} {frame : Frame} (applied : scene.apply frame = (none, later))
    (rest : List Frame) :
    scene.history (frame :: rest) = ((frame, later) :: (later.history rest).1, (later.history rest).2) := by
  rw [history, applied]

theorem Scene.history_failed {scene later : Scene} {frame : Frame} {fault : Fault}
    (failed : scene.apply frame = (some fault, later)) (rest : List Frame) :
    scene.history (frame :: rest) = ([], some fault) := by
  rw [history, failed]

theorem history_fault (scene : Scene) (frames : List Frame) :
    (scene.history frames).2 = none ↔ ∃ after, scene.replay frames = .ok after := by
  induction frames generalizing scene with
  | nil => exact ⟨fun _ => ⟨scene, rfl⟩, fun _ => rfl⟩
  | cons frame rest ih =>
    match applied : scene.apply frame with
    | (some fault, left) => simp [Scene.history_failed applied, Scene.replay, applied]
    | (none, next) => simp [Scene.history_applied applied, Scene.replay, applied, ih]

/-- A history goes through some of the frames, in their order. -/
theorem history_sublist (scene : Scene) (frames : List Frame) :
    ((scene.history frames).1.map Prod.fst).Sublist frames := by
  induction frames generalizing scene with
  | nil => exact .slnil
  | cons frame rest ih =>
    match applied : scene.apply frame with
    | (some fault, later) =>
      rw [Scene.history_failed applied]
      exact List.nil_sublist _
    | (none, later) =>
      rw [Scene.history_applied applied]
      exact (ih later).cons_cons frame

theorem mem_history {scene : Scene} {frames : List Frame} {step : Frame × Scene}
    (mem : step ∈ (scene.history frames).1) : step.1 ∈ frames :=
  (history_sublist scene frames).subset (List.mem_map_of_mem mem)

/-- Behind frames that can be applied, a history goes on from the scene that they lead to. -/
theorem history_append {scene later : Scene} {front : List Frame} (led : scene.replay front = .ok later)
    (back : List Frame) : scene.history (front ++ back) =
      ((scene.history front).1 ++ (later.history back).1, (later.history back).2) := by
  induction front generalizing scene with
  | nil =>
    cases led
    rfl
  | cons frame rest ih =>
    match applied : scene.apply frame with
    | (some fault, left) =>
      rw [Scene.replay, applied] at led
      cases led
    | (none, next) =>
      rw [Scene.replay, applied] at led
      rw [List.cons_append, Scene.history_applied applied, Scene.history_applied applied, ih led]
      rfl

/-- Whether a tick is a whole number of periods after the origin. -/
def onGrid (period : UInt32) (origin tick : Tick) : Bool :=
  ((tick.toNat : Int) - origin.toNat) % period.toNat = 0

theorem Query.tick_of_mem_records {q : Query} {scene : Scene} {tick : Tick} {r : Record}
    (mem : r ∈ q.records scene tick) : r.tick = tick := by
  obtain ⟨found, -, rfl⟩ := List.mem_map.mp mem
  rfl

namespace Samples

/-- What these frames give, when a frame that cannot be applied, or else `ending`, ends them: the matches at
the ticks on the grid of the first frame. -/
def batch (query : Query) (period : UInt32) (t : Transcript) : Samples :=
  let history := Scene.empty.history t.frames
  let due := history.1.filter fun step =>
    history.1.head?.any fun first => onGrid period first.1.tick step.1.tick
  { records := due.flatMap fun step =>
      (query.evaluate step.2.entities).map fun found => ⟨step.1.tick, found.entity, found.values⟩
    sampled := due.length
    fault := history.2.or t.fault }

/-- Records are taken at the ticks of frames, so that to choose among the frames is to choose among the records. -/
theorem filter_records_tick (query : Query) (chosen : Tick → Bool) (steps : List (Frame × Scene)) :
    (steps.flatMap fun step => query.records step.2 step.1.tick).filter (fun r => chosen r.tick) =
      (steps.filter fun step => chosen step.1.tick).flatMap fun step => query.records step.2 step.1.tick := by
  induction steps with
  | nil => rfl
  | cons step rest ih =>
    have tick : ∀ r ∈ query.records step.2 step.1.tick, chosen r.tick = chosen step.1.tick := by
      intro r mem
      rw [Query.tick_of_mem_records mem]
    rw [List.flatMap_cons, List.filter_append, ih, List.filter_cons]
    by_cases here : chosen step.1.tick
    · rw [if_pos here, List.flatMap_cons, List.filter_eq_self.mpr fun r mem => (tick r mem).trans here]
    · rw [if_neg here, List.filter_eq_nil_iff.mpr fun r mem => by rwa [tick r mem], List.nil_append]

/-- The records and the fault, as they are given one by one. -/
def items (s : Samples) : List (Except Fault Record) := s.records.map .ok ++ s.fault.toList.map .error

/-! ## The grid -/

theorem due_eq_onGrid (p : Period) {origin tick : Tick} (after : origin ≤ tick) :
    p.due origin tick = onGrid p.ticks origin tick := by
  have difference : ((tick.toNat : Int) - origin.toNat) = ((tick - origin).toNat : Nat) := by
    rw [UInt32.toNat_sub_of_le _ _ after, Int.ofNat_sub (UInt32.le_iff_toNat_le.mp after)]
  unfold Period.due onGrid
  rw [difference, ← Int.natCast_emod]
  simp only [← UInt32.toNat_inj, UInt32.toNat_mod, Int.natCast_eq_zero, UInt32.toNat_zero]

/-- From a known origin on, the frames give the matches at the ticks on its grid. -/
theorem ofFrames_of_origin (query : Query) (period : Period) (ending : Option Fault) (origin : Tick)
    (scene : Scene) (frames : List Frame) (ascending : ∀ f ∈ frames, origin ≤ f.tick) :
    ofFrames query period ending (some origin) scene frames =
      let history := scene.history frames
      let due := history.1.filter fun step => onGrid period.ticks origin step.1.tick
      ⟨due.flatMap fun step => query.records step.2 step.1.tick, due.length, history.2.or ending⟩ := by
  induction frames generalizing scene with
  | nil => rfl
  | cons frame rest ih =>
    obtain ⟨here, ascending⟩ := List.forall_mem_cons.mp ascending
    match applied : scene.apply frame with
    | (some fault, later) =>
      rw [ofFrames, applied, Scene.history_failed applied]
      rfl
    | (none, later) =>
      rw [ofFrames, applied, Scene.history_applied applied]
      simp only [ih _ ascending, Option.getD_some, due_eq_onGrid period here, List.filter_cons]
      split <;> simp

theorem ofTranscript_eq_batch (query : Query) (period : Period) (t : Transcript)
    (ascending : t.frames.Pairwise fun f g => f.tick < g.tick) :
    ofTranscript query period t = batch query period.ticks t := by
  unfold ofTranscript batch
  cases frames : t.frames with
  | nil => rfl
  | cons frame rest =>
    rw [frames] at ascending
    obtain ⟨following, -⟩ := List.pairwise_cons.mp ascending
    have later : ∀ f ∈ rest, frame.tick ≤ f.tick := fun f member => UInt32.le_of_lt (following f member)
    have here : period.due frame.tick frame.tick = onGrid period.ticks frame.tick frame.tick :=
      due_eq_onGrid period (UInt32.le_refl _)
    match applied : Scene.empty.apply frame with
    | (some fault, scene) =>
      rw [ofFrames, applied, Scene.history_failed applied]
      rfl
    | (none, scene) =>
      rw [ofFrames, applied, Scene.history_applied applied]
      simp only [Option.getD_none, ofFrames_of_origin query period t.fault frame.tick scene rest later,
        List.head?_cons, Option.any_some, here, List.filter_cons]
      split <;> simp [Query.records]

end Samples

/-! ## What a sampler is built from -/

theorem Period.ticks_ofTicks {ticks : UInt32} {p : Period} (good : Period.ofTicks ticks = .ok p) :
    p.ticks = ticks := by
  unfold ofTicks at good
  split at good <;> cases good
  rfl

theorem Recording.ofBytes_eq_map (data : Bytes) :
    Recording.ofBytes data = (Header.read data).map fun header => ⟨header, data⟩ := by
  unfold ofBytes
  cases Header.read data <;> rfl

theorem Recording.ofBytes_eq_ok {data : Bytes} {r : Recording} :
    Recording.ofBytes data = .ok r ↔ ∃ header, Header.read data = .ok header ∧ ⟨header, data⟩ = r := by
  rw [ofBytes_eq_map]
  cases Header.read data <;> simp [Except.map]

theorem Recording.data_ofBytes {data : Bytes} {r : Recording} (good : Recording.ofBytes data = .ok r) :
    r.data = data := by
  obtain ⟨header, -, rfl⟩ := ofBytes_eq_ok.mp good
  rfl

theorem Recording.transcript_ofBytes {data : Bytes} {r : Recording} (good : Recording.ofBytes data = .ok r) :
    r.transcript = (FrameStream.ofBytes data Header.size).transcript := by
  rw [transcript, stream, data_ofBytes good]

theorem framesOf_eq_ok {data : Bytes} {frames : List Frame} : framesOf data = .ok frames ↔
    ∃ recording, Recording.ofBytes data = .ok recording ∧ recording.transcript = ⟨frames, none⟩ := by
  unfold framesOf
  cases Recording.ofBytes data with
  | error fault => simp [bind, Except.bind]
  | ok recording =>
    cases transcript : recording.transcript with
    | mk read fault => cases fault <;> simp [bind, Except.bind, Transcript.complete, transcript]

/-- A sampler that has not been pulled. -/
def Sampler.initial (recording : Recording) (query : Query) (period : Period) : Sampler :=
  { recording, query, period, frames := recording.stream, scene := .empty, origin := none,
    pending := [], sampled := 0, finished := false }

theorem Sampler.ofBytes_eq_map {path : String} {ticks : UInt32} {period : Period} {query : Query}
    (positive : Period.ofTicks ticks = .ok period) (compiled : Query.read path = .ok query) (data : Bytes) :
    Sampler.ofBytes data path ticks =
      (Recording.ofBytes data).map fun recording => initial recording query period := by
  rw [ofBytes, positive, compiled]
  cases Recording.ofBytes data <;> rfl

theorem Sampler.ofBytes_eq_ok {data : Bytes} {path : String} {ticks : UInt32} {s : Sampler} :
    Sampler.ofBytes data path ticks = .ok s ↔ ∃ period query recording, Period.ofTicks ticks = .ok period ∧
      Query.read path = .ok query ∧ Recording.ofBytes data = .ok recording ∧
      initial recording query period = s := by
  cases positive : Period.ofTicks ticks with
  | error fault => simp [ofBytes, positive, bind, Except.bind]
  | ok period => cases compiled : Query.read path with
    | error fault => simp [ofBytes, positive, compiled, bind, Except.bind]
    | ok query =>
      rw [ofBytes_eq_map positive compiled]
      cases Recording.ofBytes data <;> simp [Except.map]

/-! ## What a sampler has still to give -/

namespace Sampler

/-- The samples still to come, with those that have been counted. -/
def rest (s : Sampler) : Samples :=
  if s.finished then ⟨s.pending, s.sampled, none⟩
  else
    let later := Samples.ofFrames s.query s.period s.frames.transcript.fault s.origin s.scene
      s.frames.transcript.frames
    ⟨s.pending ++ later.records, s.sampled + later.sampled, later.fault⟩

theorem rest_of_finished {s : Sampler} (ended : s.finished) : s.rest = ⟨s.pending, s.sampled, none⟩ :=
  if_pos ended

/-- An advance without a fault keeps what is to come, and ends the sampler or takes some bytes. -/
theorem rest_advance {s later : Sampler} (opened : s.finished = false) (drained : s.pending = [])
    (advanced : s.advance = (none, later)) :
    later.rest = s.rest ∧
      (later.finished ∨ later.frames.cursor.remaining < s.frames.cursor.remaining) := by
  unfold advance at advanced
  match given : s.frames.next with
  | (none, frames) =>
    rw [given] at advanced
    cases advanced
    refine ⟨?_, .inl rfl⟩
    simp [rest, opened, drained, FrameStream.transcript_of_end given, Samples.ofFrames]
  | (some (.error fault), frames) =>
    rw [given] at advanced
    cases advanced
  | (some (.ok frame), frames) =>
    obtain ⟨-, -, less⟩ := FrameStream.next_frame given
    simp only [given] at advanced
    match applied : s.scene.apply frame with
    | (some fault, scene) =>
      rw [applied] at advanced
      cases advanced
    | (none, scene) =>
      simp only [applied] at advanced
      have unfolded : s.rest =
          let later := Samples.ofFrames s.query s.period s.frames.transcript.fault s.origin s.scene
            s.frames.transcript.frames
          ⟨later.records, s.sampled + later.sampled, later.fault⟩ := by
        simp [rest, opened, drained]
      rw [unfolded, FrameStream.transcript_of_frame given]
      simp only [Samples.ofFrames, applied]
      split at advanced
      · rename_i due
        cases advanced
        refine ⟨?_, .inr less⟩
        simp [rest, opened, due]
        omega
      · rename_i skipped
        cases advanced
        refine ⟨?_, .inr less⟩
        simp [rest, opened, drained, skipped]

/-- A fault is all that is to come. -/
theorem rest_advance_fault {s later : Sampler} {fault : Fault} (opened : s.finished = false)
    (drained : s.pending = []) (advanced : s.advance = (some fault, later)) :
    s.rest = ⟨[], s.sampled, some fault⟩ ∧ later.rest = ⟨[], s.sampled, none⟩ ∧ later.finished := by
  unfold advance at advanced
  match given : s.frames.next with
  | (none, frames) =>
    rw [given] at advanced
    cases advanced
  | (some (.error found), frames) =>
    rw [given] at advanced
    cases advanced
    simp [rest, opened, drained, FrameStream.transcript_of_fault given, Samples.ofFrames]
  | (some (.ok frame), frames) =>
    simp only [given] at advanced
    match applied : s.scene.apply frame with
    | (some found, scene) =>
      rw [applied] at advanced
      cases advanced
      simp [rest, opened, drained, FrameStream.transcript_of_frame given, Samples.ofFrames, applied]
    | (none, scene) =>
      simp only [applied] at advanced
      split at advanced <;> cases advanced

/-! ## Pulls -/

/-- What a pull does to what is to come. -/
structure Took (s : Sampler) (pulled : Option (Except Fault Record) × Sampler) : Prop where
  first : pulled.1 = s.rest.items.head?
  others : pulled.2.rest.items = s.rest.items.tail
  sampled : pulled.2.rest.sampled = s.rest.sampled
  finished : (∀ record, pulled.1 ≠ some (.ok record)) → pulled.2.finished

theorem took_record {s : Sampler} {record : Record} {pending : List Record}
    (waiting : s.pending = record :: pending) : Took s (some (.ok record), { s with pending }) := by
  cases opened : s.finished with
  | true => constructor <;> simp [rest, opened, waiting, Samples.items]
  | false => constructor <;> simp [rest, opened, waiting, Samples.items]

/-- The rounds are enough to find a record or the end: an advance that leads on takes bytes. -/
theorem took_pull {rounds : Nat} {s : Sampler}
    (enough : (0 < rounds ∧ (s.pending ≠ [] ∨ s.finished)) ∨ s.frames.cursor.remaining + 2 ≤ rounds) :
    Took s (s.pull rounds) := by
  induction rounds generalizing s with
  | zero => omega
  | succ rounds ih =>
    rw [pull]
    match waiting : s.pending with
    | record :: pending => exact took_record waiting
    | [] =>
      dsimp only
      by_cases ended : s.finished
      · rw [if_pos ended]
        constructor <;> simp [rest_of_finished ended, waiting, ended, Samples.items]
      · have opened : s.finished = false := Bool.eq_false_iff.mpr ended
        rw [if_neg ended]
        match advanced : s.advance with
        | (some fault, later) =>
          obtain ⟨before, after, done⟩ := rest_advance_fault opened waiting advanced
          constructor <;> simp [before, after, done, Samples.items]
        | (none, later) =>
          obtain ⟨same, progress⟩ := rest_advance opened waiting advanced
          have took := ih (s := later) (by
            rcases progress with done | less
            · exact .inl ⟨by simp [waiting, opened] at enough; omega, .inr done⟩
            · exact .inr (by simp [waiting, opened] at enough; omega))
          exact ⟨same ▸ took.first, same ▸ took.others, same ▸ took.sampled, took.finished⟩

theorem took_next (s : Sampler) : Took s s.next := took_pull (.inr (Nat.le_refl _))

/-- A sampler yields what it has still to give. -/
theorem yields_rest (s : Sampler) : Pulls.Yields next s s.rest.items :=
  Pulls.yields_of_view (fun s => s.rest.items) (fun s => (took_next s).first) (fun s => (took_next s).others) s

theorem rest_after (n : Nat) (s : Sampler) :
    (Pulls.after next n s).rest.items = s.rest.items.drop n ∧
      (Pulls.after next n s).rest.sampled = s.rest.sampled := by
  induction n generalizing s with
  | zero => exact ⟨rfl, rfl⟩
  | succ n ih =>
    obtain ⟨items, sampled⟩ := ih s.next.2
    rw [(took_next s).others, List.drop_tail] at items
    rw [(took_next s).sampled] at sampled
    exact ⟨items, sampled⟩

/-- With the pull behind the last record, all the ticks have been counted. -/
theorem sampled_after {n : Nat} {s : Sampler} (beyond : s.rest.records.length < n) :
    (Pulls.after next n s).sampled = s.rest.sampled := by
  obtain ⟨m, rfl⟩ := Nat.exists_eq_succ_of_ne_zero (Nat.ne_of_gt (Nat.zero_lt_of_lt beyond))
  obtain ⟨items, sampled⟩ := rest_after m s
  rw [← Nat.add_one, Pulls.after_add]
  generalize Pulls.after next m s = t at items sampled
  have no_record : ∀ record, t.next.1 ≠ some (.ok record) := by
    intro record given
    rw [(took_next t).first, items, List.head?_drop, Samples.items,
      List.getElem?_append_right (by rw [List.length_map]; omega)] at given
    simpa using List.mem_of_getElem? given
  have ended := (took_next t).finished no_record
  have counted := (took_next t).sampled
  rw [rest_of_finished ended, sampled] at counted
  exact counted

/-! ## From the bytes on -/

/-- A new sampler has everything to give: the batch of the frames behind the header. -/
theorem rest_ofBytes {data : Bytes} {path : String} {ticks : UInt32} {query : Query} {s : Sampler}
    (compiled : Query.read path = .ok query) (built : Sampler.ofBytes data path ticks = .ok s) :
    s.rest = Samples.batch query ticks (FrameStream.ofBytes data Header.size).transcript := by
  obtain ⟨p, q, r, period, read, recording, rfl⟩ := ofBytes_eq_ok.mp built
  cases compiled.symm.trans read
  cases Period.ticks_ofTicks period
  have stream : r.stream = FrameStream.ofBytes data Header.size := by
    rw [Recording.stream, Recording.data_ofBytes recording]
  rw [← Samples.ofTranscript_eq_batch query p _ (FrameStream.ticks_ascend _), ← stream]
  simp [rest, initial, Samples.ofTranscript]

/-- A sampler that can be built yields the batch. -/
theorem exists_yields {data : Bytes} {path : String} {ticks : UInt32} {query : Query}
    (compiled : Query.read path = .ok query) (good : (Sampler.ofBytes data path ticks).isOk) :
    ∃ s, Sampler.ofBytes data path ticks = .ok s ∧
      Pulls.Yields next s (Samples.batch query ticks (FrameStream.ofBytes data Header.size).transcript).items := by
  cases built : Sampler.ofBytes data path ticks with
  | error fault =>
    rw [built] at good
    cases good
  | ok s => exact ⟨s, rfl, rest_ofBytes compiled built ▸ s.yields_rest⟩

/-- **The pulls give the batch.** Every pull of a sampler gives the next record of the batch, then comes its
fault, if it has one, then nothing for ever; and with the pull behind the last record all its ticks have been
counted. The batch is taken from all that the frame stream behind the header yields. -/
theorem yields_batch {data : Bytes} {path : String} {ticks : UInt32} {query : Query} {s : Sampler}
    (compiled : Query.read path = .ok query) (built : Sampler.ofBytes data path ticks = .ok s) :
    let body := FrameStream.ofBytes data Header.size
    let batch := Samples.batch query ticks body.transcript
    Pulls.Yields FrameStream.next body body.transcript.items ∧
      Pulls.Yields Sampler.next s batch.items ∧
      ∀ n, batch.records.length < n → (Pulls.after Sampler.next n s).sampled = batch.sampled := by
  intro body batch
  have all : s.rest = batch := rest_ofBytes compiled built
  refine ⟨body.yields_transcript, all ▸ s.yields_rest, fun n beyond => ?_⟩
  rw [← all] at beyond ⊢
  exact sampled_after beyond

/-- A recording of three frames without an end: one creates an entity of class `p` with `hp` 5, the others
set it to 6 and to 7. -/
def openRecording : Bytes :=
  Header.signature ++ [3, 0, 0, 0] ++ List.replicate 1056 0 ++
    [0x02, 10, 0, 0, 0, 0x01, 1, 0, 0, 0, 1, 0, 0x70, 1, 0, 0, 2, 0, 0x68, 0x70, 0, 5, 0, 0, 0, 0] ++
    [0x02, 11, 0, 0, 0, 0x02, 1, 0, 0, 0, 1, 0, 0, 2, 0, 0x68, 0x70, 0, 6, 0, 0, 0, 0] ++
    [0x02, 12, 0, 0, 0, 0x02, 1, 0, 0, 0, 1, 0, 0, 2, 0, 0x68, 0x70, 0, 7, 0, 0, 0, 0]

/-- At every second tick of it, `hp` is less than 7 once; then the missing end is found. -/
theorem yields_openRecording :
    ∃ query s, Query.read "$.p[?(@.hp < 7)]" = .ok query ∧
      Sampler.ofBytes openRecording "$.p[?(@.hp < 7)]" 2 = .ok s ∧
      Pulls.Yields Sampler.next s
        [.ok ⟨10, 1, .singleton "hp" (.integer 5)⟩, .error (.corrupt 1140 .missingStop)] ∧
      ∀ n, 1 < n → (Pulls.after Sampler.next n s).sampled = 2 := by
  have compiled : Query.read "$.p[?(@.hp < 7)]" =
      .ok ⟨[.field "p", .filter ⟨["hp"], .less, .integer 7⟩]⟩ := by decide +kernel
  have batch : Samples.batch ⟨[.field "p", .filter ⟨["hp"], .less, .integer 7⟩]⟩ 2
      (FrameStream.ofBytes openRecording Header.size).transcript =
      ⟨[⟨10, 1, .singleton "hp" (.integer 5)⟩], 2, some (.corrupt 1140 .missingStop)⟩ := by decide +kernel
  have good : (Sampler.ofBytes openRecording "$.p[?(@.hp < 7)]" 2).isOk := by decide +kernel
  cases built : Sampler.ofBytes openRecording "$.p[?(@.hp < 7)]" 2 with
  | error fault =>
    rw [built] at good
    cases good
  | ok s =>
    obtain ⟨-, yields, counted⟩ := yields_batch compiled built
    rw [batch] at yields counted
    exact ⟨_, s, compiled, rfl, yields, counted⟩

end Sampler
end DemoTape
