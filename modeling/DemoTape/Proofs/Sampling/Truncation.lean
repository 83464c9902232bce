/-
# Sampling a recording that was cut short

A recording whose last bytes are missing gives what is known of it, and no more. If the sampler of a whole recording
is drained without a fault, then a sampler of its first bytes gives the records of the frames that end before the
cut, in their order, and then one fault: the data are corrupt. If the header is not whole, there is no such sampler.
And a cut behind the stop command makes no difference (`yields_take`).

Two facts are behind this. A stream without its last bytes gives the frames that are whole
(`FrameStream.Drains.transcript_cut_short`); and the records of the first frames are the first records, namely those
at the ticks of these frames (`Samples.records_of_prefix`).
-/
import DemoTape.Proofs.Frames.Truncation
import DemoTape.Proofs.Header.Extent
import DemoTape.Proofs.Sampling.Batch

namespace DemoTape
set_option autoImplicit false

/-! ## The records of the first frames -/

/-- Of frames that can be applied, so can the first ones. -/
theorem exists_replay_front {scene : Scene} {front back : List Frame}
    (sound : (scene.history (front ++ back)).2 = none) : ∃ later, scene.replay front = .ok later := by
  obtain ⟨after, whole⟩ := (history_fault scene _).mp sound
  rw [Scene.replay_append] at whole
  cases led : scene.replay front with
  | error fault =>
    rw [led] at whole
    cases whole
  | ok later => exact ⟨later, rfl⟩

namespace Samples

/-- Records are taken at the ticks of frames, so that those of the first frames can be told from the others. -/
theorem filter_records (query : Query) {front : List Frame} {kept more : List (Frame × Scene)}
    (before : ∀ step ∈ kept, step.1 ∈ front) (behind : ∀ step ∈ more, ∀ f ∈ front, f.tick < step.1.tick) :
    ((kept ++ more).flatMap fun step => query.records step.2 step.1.tick).filter
        (fun r => front.any fun f => f.tick = r.tick) =
      kept.flatMap fun step => query.records step.2 step.1.tick := by
  have first : ∀ step ∈ kept, front.any fun f => f.tick = step.1.tick := by
    intro step there
    exact List.any_eq_true.mpr ⟨step.1, before step there, decide_eq_true rfl⟩
  have others : ∀ step ∈ more, ¬ front.any fun f => f.tick = step.1.tick := by
    intro step there found
    obtain ⟨f, member, same⟩ := List.any_eq_true.mp found
    have less := behind step there f member
    rw [of_decide_eq_true same] at less
    exact UInt32.lt_irrefl _ less
  rw [filter_records_tick query (fun tick => front.any fun f => f.tick = tick), List.filter_append,
    List.filter_eq_self.mpr first, List.filter_eq_nil_iff.mpr others, List.append_nil]

/-- The records of the first frames are those at their ticks, whatever ends the frames. -/
theorem records_of_prefix (query : Query) (period : UInt32) (ending also : Option Fault) {front back : List Frame}
    (sound : (Scene.empty.history (front ++ back)).2 = none)
    (ascending : (front ++ back).Pairwise fun f g => f.tick < g.tick) :
    (batch query period ⟨front, ending⟩).records =
      (batch query period ⟨front ++ back, also⟩).records.filter fun r => front.any fun f => f.tick = r.tick := by
  obtain ⟨later, led⟩ := exists_replay_front sound
  have before : ∀ step ∈ (Scene.empty.history front).1, step.1 ∈ front := fun step => mem_history
  have behind : ∀ step ∈ (later.history back).1, step.1 ∈ back := fun step => mem_history
  obtain ⟨-, -, apart⟩ := List.pairwise_append.mp ascending
  unfold batch
  dsimp only
  rw [history_append led, List.filter_append]
  generalize (Scene.empty.history front).1 = steps at before
  generalize (later.history back).1 = more at behind
  -- the grid begins at the same frame, if there is one at all
  have origin : (steps.filter fun step => (steps ++ more).head?.any fun first =>
      onGrid period first.1.tick step.1.tick) = steps.filter fun step => steps.head?.any fun first =>
      onGrid period first.1.tick step.1.tick := by cases steps <;> rfl
  rw [origin]
  refine (filter_records query ?kept ?more).symm
  case kept =>
    intro step mem
    exact before step (List.mem_filter.mp mem |>.1)
  case more =>
    intro step mem f member
    exact apart f member step.1 (behind step (List.mem_filter.mp mem |>.1))

end Samples

/-! ## The first bytes of a recording -/

namespace Sampler

/-- Without the bytes from a cut behind the header on, there is a sampler too. -/
theorem ofBytes_take {data : Bytes} {path : String} {ticks : UInt32} {period : Period} {query : Query}
    {header : Header} {cut : Nat} (positive : Period.ofTicks ticks = .ok period)
    (compiled : Query.read path = .ok query) (read : Header.read data = .ok header) (kept : Header.size ≤ cut) :
    ∃ t, ofBytes (data.take cut) path ticks = .ok t ∧ t.recording.header = header ∧
      t.rest = Samples.batch query ticks ((FrameStream.ofBytes data Header.size).cut cut).transcript := by
  have built : ofBytes (data.take cut) path ticks = .ok (initial ⟨header, data.take cut⟩ query period) := by
    obtain ⟨-, -, there, -⟩ := Header.read_eq_ok.mp read
    rw [ofBytes_eq_map positive compiled, Recording.ofBytes_eq_map, Header.read_take there kept, read]
    rfl
  refine ⟨_, built, rfl, ?_⟩
  rw [rest_ofBytes compiled built, FrameStream.ofBytes_take]

theorem ofBytes_take_short {data : Bytes} {path : String} {ticks : UInt32} {period : Period} {query : Query}
    {header : Header} {cut : Nat} (positive : Period.ofTicks ticks = .ok period)
    (compiled : Query.read path = .ok query) (read : Header.read data = .ok header) (short : cut < Header.size) :
    ∃ fault, ofBytes (data.take cut) path ticks = .error fault ∧
      fault.category = if cut < Header.signature.length then .format else .corruptData := by
  obtain ⟨fault, failed, category⟩ := Header.read_take_short read short
  refine ⟨fault, ?_, category⟩
  rw [ofBytes_eq_map positive compiled, Recording.ofBytes_eq_map, failed]
  rfl

/-- **Of a recording that was cut short, whole frames are sampled, and then one fault is found.** Let a sampler of
these bytes give these records and then nothing. Every frame ends with the end mark, and the stream behind the stop
command. Of the first bytes, up to a cut in front of that, there is no sampler if the header is not whole; otherwise
a sampler gives the records of the frames that end before the cut, and the fault. From there on, a cut changes
nothing. -/
theorem yields_take {data : Bytes} {path : String} {ticks : UInt32} {s : Sampler} {records : List Record}
    (built : ofBytes data path ticks = .ok s) (drained : Pulls.Yields next s (records.map .ok)) :
    let body := FrameStream.ofBytes data Header.size
    Pulls.Yields FrameStream.next body (body.ends.map fun e => .ok e.1) ∧
      (∀ e ∈ body.ends, data[e.2 - 1]? = some Message.endMark) ∧
      data[body.stop - 1]? = some Frame.stopCommand ∧
      ∀ cut,
        (cut < body.stop → cut < Header.size →
          ∃ fault, ofBytes (data.take cut) path ticks = .error fault ∧
            fault.category = if cut < Header.signature.length then .format else .corruptData) ∧
        (cut < body.stop → Header.size ≤ cut →
          ∃ t fault, ofBytes (data.take cut) path ticks = .ok t ∧ fault.category = .corruptData ∧
            Pulls.Yields next t ((records.filter fun r => body.ends.any fun e => e.2 ≤ cut && e.1.tick = r.tick).map
              .ok ++ [.error fault])) ∧
        (body.stop ≤ cut →
          ∃ t, ofBytes (data.take cut) path ticks = .ok t ∧ t.recording.header = s.recording.header ∧
            Pulls.Yields next t (records.map .ok) ∧
            ∀ n, records.length < n → (Pulls.after next n t).sampled = (Pulls.after next n s).sampled) := by
  intro body
  obtain ⟨period, query, recording, positive, compiled, whole, rfl⟩ := ofBytes_eq_ok.mp built
  obtain ⟨header, read, rfl⟩ := Recording.ofBytes_eq_ok.mp whole
  have all : (initial ⟨header, data⟩ query period).rest = Samples.batch query ticks body.transcript :=
    rest_ofBytes compiled built
  obtain ⟨same, sound⟩ := eq_of_items ((yields_rest _).unique drained)
  rw [all] at same sound
  obtain ⟨applied, ended⟩ := Option.or_eq_none_iff.mp sound
  have drains : body.Drains := FrameStream.drains_of_transcript rfl ended
  have transcript : body.transcript = ⟨body.transcript.frames, none⟩ := by rw [← ended]
  obtain ⟨marks, stop⟩ := drains.marks rfl
  refine ⟨?_, marks, stop, fun cut => ⟨fun _ short => ?header, fun short kept => ?frames, fun kept => ?beyond⟩⟩
  · have yields := body.yields_transcript
    rw [Transcript.items, ended, Option.toList_none, List.map_nil, List.append_nil, ← drains.map_fst_ends,
      List.map_map] at yields
    exact yields
  case header => exact ofBytes_take_short positive compiled read short
  case frames =>
    obtain ⟨t, opened, -, rest⟩ := ofBytes_take positive compiled read kept
    obtain ⟨⟨back, frames⟩, fault, category, left⟩ := drains.transcript_cut_short kept short
    rw [left] at rest
    have yields := t.yields_rest
    have ascending := body.ticks_ascend
    rw [← frames] at applied ascending
    have taken := Samples.records_of_prefix query ticks (some fault) none applied ascending
    rw [frames, ← transcript, same] at taken
    have failed : t.rest.fault = some fault := by
      obtain ⟨later, led⟩ := exists_replay_front applied
      rw [rest, Samples.batch, (history_fault _ _).mpr ⟨later, led⟩, Option.none_or]
    refine ⟨t, fault, opened, category, ?_⟩
    rw [Samples.items, failed, rest, taken] at yields
    simp only [List.any_map, List.any_filter, Function.comp_def] at yields
    exact yields
  case beyond =>
    have header_kept : Header.size ≤ cut := Nat.le_trans body.offset_le_stop kept
    obtain ⟨t, opened, same_header, rest⟩ := ofBytes_take positive compiled read header_kept
    rw [drains.transcript_cut kept, ← all] at rest
    refine ⟨t, opened, same_header, ?_, fun n beyond => ?_⟩
    · have yields := t.yields_rest
      rwa [rest, (yields_rest _).unique drained] at yields
    · rw [← same, ← all] at beyond
      rw [sampled_after beyond, sampled_after (rest ▸ beyond), rest]

/-- The recording without an end, with one. -/
def closedRecording : Bytes := openRecording ++ [Frame.stopCommand]

/-- What it gives of its class. -/
def closedRecords : List Record :=
  [⟨10, 1, .singleton "hp" (.integer 5)⟩, ⟨11, 1, .singleton "hp" (.integer 6)⟩,
    ⟨12, 1, .singleton "hp" (.integer 7)⟩]

/-- Cut within its third frame, it gives the records of the first two, and a fault. -/
theorem yields_take_thirdFrame :
    ∃ s, ofBytes closedRecording "$.p" 1 = .ok s ∧ Pulls.Yields next s (closedRecords.map .ok) ∧
      ∃ t fault, ofBytes (closedRecording.take 1130) "$.p" 1 = .ok t ∧ fault.category = .corruptData ∧
        Pulls.Yields next t ((closedRecords.take 2).map .ok ++ [.error fault]) := by
  have compiled : Query.read "$.p" = .ok ⟨[.field "p"]⟩ := by decide +kernel
  have batch : (Samples.batch ⟨[.field "p"]⟩ 1 (FrameStream.ofBytes closedRecording Header.size).transcript).items =
      closedRecords.map .ok := by decide +kernel
  have good : (ofBytes closedRecording "$.p" 1).isOk := by decide +kernel
  have stop : (FrameStream.ofBytes closedRecording Header.size).stop = 1141 := by decide +kernel
  have left : (closedRecords.filter fun r => (FrameStream.ofBytes closedRecording Header.size).ends.any fun e =>
      e.2 ≤ 1130 && e.1.tick = r.tick) = closedRecords.take 2 := by decide +kernel
  cases built : ofBytes closedRecording "$.p" 1 with
  | error fault =>
    rw [built] at good
    cases good
  | ok s =>
    have drained : Pulls.Yields next s (closedRecords.map .ok) := by
      rw [← batch, ← rest_ofBytes compiled built]
      exact s.yields_rest
    obtain ⟨-, -, -, cuts⟩ := yields_take built drained
    obtain ⟨t, fault, opened, category, yields⟩ := (cuts 1130).2.1 (by rw [stop]; decide) (by decide)
    rw [left] at yields
    exact ⟨s, rfl, drained, t, fault, opened, category, yields⟩

end Sampler
end DemoTape
