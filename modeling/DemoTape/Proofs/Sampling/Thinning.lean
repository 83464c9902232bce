/-
# A longer period only thins

A sampler applies every frame, whether its tick is due or not, and its grid begins at the first frame, whether that has
a match or not. So a longer period changes nothing but which records are kept: `Samples.batch_records` says that they
are those on the grid among the records of all the frames, and `Samples.batch_one` that with a period of one they are
all kept. Where one period divides another, the longer one keeps a part of what the shorter one keeps.

A grid is told by a difference and a remainder of ticks. Ticks ascend, so that the difference is never taken of an
earlier tick (`Passes.measures`): this is said of every state that a sampler passes through, within its pulls too.
Both together are `yields_thinned`.
-/
import DemoTape.Proofs.Sampling.Batch

namespace DemoTape
set_option autoImplicit false

/-! ## Grids within grids -/

theorem onGrid_one (origin tick : Tick) : onGrid 1 origin tick := by simp [onGrid]

theorem onGrid_of_dvd {short long : UInt32} {origin tick : Tick} (divides : short.toNat ∣ long.toNat)
    (on : onGrid long origin tick) : onGrid short origin tick := by
  simp only [onGrid, decide_eq_true_eq] at on ⊢
  have divisible : (long.toNat : Int) ∣ (tick.toNat : Int) - origin.toNat := Int.dvd_of_emod_eq_zero on
  exact Int.emod_eq_zero_of_dvd (Int.dvd_trans (Int.natCast_dvd_natCast.mpr divides) divisible)

/-- What a history begins with is the first frame, if it can be applied at all. -/
theorem history_head (scene : Scene) (frames : List Frame) :
    (scene.history frames).1 = [] ∨ (scene.history frames).1.head?.map Prod.fst = frames.head? := by
  cases frames with
  | nil => exact .inl rfl
  | cons frame rest =>
    match applied : scene.apply frame with
    | (some fault, later) =>
      rw [Scene.history_failed applied]
      exact .inl rfl
    | (none, later) =>
      rw [Scene.history_applied applied]
      exact .inr rfl

namespace Samples

/-- Whether a tick is on the grid of the first of these frames. -/
def due (period : UInt32) (frames : List Frame) (tick : Tick) : Bool :=
  frames.head?.any fun first => onGrid period first.tick tick

/-- The records after each frame. -/
def every (query : Query) (t : Transcript) : List Record :=
  (Scene.empty.history t.frames).1.flatMap fun step => query.records step.2 step.1.tick

theorem batch_records (query : Query) (period : UInt32) (t : Transcript) :
    (batch query period t).records = (every query t).filter fun r => due period t.frames r.tick := by
  rw [every, filter_records_tick]
  show (((Scene.empty.history t.frames).1.filter fun step => _).flatMap fun step => _) = _
  rcases history_head .empty t.frames with none_applied | head
  · rw [none_applied]
    rfl
  · unfold due
    rw [← head]
    simp only [Option.any_map]
    rfl

theorem batch_one (query : Query) (t : Transcript) : (batch query 1 t).records = every query t := by
  rw [batch_records, List.filter_eq_self]
  intro r mem
  cases first : t.frames with
  | nil => simp [every, first, Scene.history] at mem
  | cons frame rest => exact onGrid_one frame.tick r.tick

/-- A longer period keeps a part of what a shorter one keeps, if it is a multiple of it. -/
theorem filter_due_sublist {short long : UInt32} (divides : short.toNat ∣ long.toNat) (frames : List Frame)
    (records : List Record) :
    (records.filter fun r => due long frames r.tick).Sublist (records.filter fun r => due short frames r.tick) := by
  have coarser (r : Record) : (due long frames r.tick && due short frames r.tick) = due long frames r.tick := by
    rw [Bool.and_eq_left_iff_imp]
    unfold due
    cases frames.head? with
    | none => exact id
    | some first => exact onGrid_of_dvd divides
  have twice : (records.filter fun r => due long frames r.tick) =
      (records.filter fun r => due short frames r.tick).filter fun r => due long frames r.tick := by
    rw [List.filter_filter]
    simp only [coarser]
  rw [twice]
  exact List.filter_sublist

end Samples

/-! ## Differences of ticks -/

namespace Sampler

/-- What a sampler passes through, within its pulls too: a pending record is given, or, where there is none and the
sampler has not ended, a frame is decoded. -/
inductive Passes (s : Sampler) : Sampler → Prop
  | start : Passes s s
  | give {t : Sampler} {record : Record} {pending : List Record} (on : Passes s t)
      (waiting : t.pending = record :: pending) : Passes s { t with pending }
  | advance {t : Sampler} (on : Passes s t) (drained : t.pending = []) (opened : t.finished = false) :
      Passes s t.advance.2

/-- The tick of the grid and that of a frame, where an advance takes their difference: the frame is decoded and
applied. -/
def Measures (s : Sampler) (origin tick : Tick) : Prop :=
  s.pending = [] ∧ s.finished = false ∧ ∃ frame frames scene,
    s.frames.next = (some (.ok frame), frames) ∧ s.scene.apply frame = (none, scene) ∧
      s.origin.getD frame.tick = origin ∧ frame.tick = tick

theorem Passes.pull {s t : Sampler} (on : Passes s t) (rounds : Nat) : Passes s (t.pull rounds).2 := by
  induction rounds generalizing t with
  | zero => exact on
  | succ rounds ih =>
    rw [Sampler.pull]
    cases waiting : t.pending with
    | cons record pending => exact on.give waiting
    | nil =>
      dsimp only
      by_cases ended : t.finished
      · rw [if_pos ended]
        exact on
      · rw [if_neg ended]
        have further := on.advance waiting (Bool.eq_false_iff.mpr ended)
        rcases advanced : t.advance with ⟨_ | fault, later⟩
        · rw [advanced] at further
          exact ih further
        · rw [advanced] at further
          exact further

theorem Passes.after {s t : Sampler} (on : Passes s t) (n : Nat) : Passes s (Pulls.after next n t) := by
  induction n generalizing t with
  | zero => exact on
  | succ n ih => exact ih (on.pull _)

/-- The grid of an open sampler begins no later than the last tick that was read, and its period never changes. -/
structure Grounded (period : Period) (s : Sampler) : Prop where
  period : s.period = period
  origin : s.finished = false → ∀ origin ∈ s.origin, ∃ last ∈ s.frames.lastTick, origin ≤ last

/-- The next frame is behind the beginning of the grid, or begins it. -/
theorem Grounded.le {period : Period} {s : Sampler} {frame : Frame} {frames : FrameStream}
    (grounded : Grounded period s) (opened : s.finished = false)
    (given : s.frames.next = (some (.ok frame), frames)) : s.origin.getD frame.tick ≤ frame.tick := by
  cases begun : s.origin with
  | none => exact UInt32.le_refl _
  | some origin =>
    obtain ⟨last, read, le⟩ := grounded.origin opened origin begun
    obtain ⟨ascends, -, -⟩ := FrameStream.next_frame given
    exact UInt32.le_of_lt (UInt32.lt_of_le_of_lt le (ascends last read))

theorem Grounded.advance {period : Period} {s : Sampler} (grounded : Grounded period s)
    (opened : s.finished = false) : Grounded period s.advance.2 := by
  unfold Sampler.advance
  match given : s.frames.next with
  | (none, frames) => exact ⟨grounded.period, nofun⟩
  | (some (.error fault), frames) => exact ⟨grounded.period, nofun⟩
  | (some (.ok frame), frames) =>
    obtain ⟨-, read, -⟩ := FrameStream.next_frame given
    have begun : ∀ origin ∈ some (s.origin.getD frame.tick), ∃ last ∈ frames.lastTick, origin ≤ last := by
      rintro _ ⟨⟩
      exact ⟨frame.tick, read, grounded.le opened given⟩
    dsimp only
    match applied : s.scene.apply frame with
    | (some fault, scene) => exact ⟨grounded.period, nofun⟩
    | (none, scene) =>
      dsimp only
      split
      · exact ⟨grounded.period, fun _ => begun⟩
      · exact ⟨grounded.period, fun _ => begun⟩

theorem Passes.grounded {period : Period} {s t : Sampler} (on : Passes s t) (grounded : Grounded period s) :
    Grounded period t := by
  induction on with
  | start => exact grounded
  | give on waiting ih => exact ⟨ih.period, ih.origin⟩
  | advance on drained opened ih => exact ih.advance opened

/-- No difference is taken of a tick in front of the grid. -/
theorem Passes.measures {recording : Recording} {query : Query} {period : Period} {s : Sampler} {origin tick : Tick}
    (on : Passes (initial recording query period) s) (measures : s.Measures origin tick) :
    s.period = period ∧ origin ≤ tick := by
  have grounded : Grounded period s := on.grounded ⟨rfl, nofun⟩
  obtain ⟨-, opened, frame, frames, scene, given, -, rfl, rfl⟩ := measures
  exact ⟨grounded.period, grounded.le opened given⟩

/-! ## Samplers -/

/-- **A longer period only thins.** Let a sampler be built from these bytes with a period of one. It gives some records
and then, perhaps, a fault. With any other period there is a sampler too, which gives those of the records that are a
whole number of periods after the first frame, and the same fault. Whatever states it passes through, its pulls do not
leave them; and wherever it takes the difference of two ticks, the first is not the later one, and it divides by its
period, which is not zero. And what it gives with a multiple of the period is a part of that, in the same order. -/
theorem yields_thinned {data : Bytes} {path : String} {whole : Sampler} (built : ofBytes data path 1 = .ok whole) :
    let frames := (FrameStream.ofBytes data Header.size).transcript.frames
    ∃ (records : List Record) (ending : Option Fault),
      Pulls.Yields next whole (records.map .ok ++ ending.toList.map .error) ∧
      ∀ ticks, ticks ≠ 0 → ∃ s, ofBytes data path ticks = .ok s ∧
        Pulls.Yields next s
          ((records.filter fun r => frames.head?.any fun first => onGrid ticks first.tick r.tick).map .ok ++
            ending.toList.map .error) ∧
        (∀ n, Passes s (Pulls.after next n s)) ∧
        (∀ u origin tick, Passes s u → u.Measures origin tick →
          origin ≤ tick ∧ u.period.ticks = ticks ∧ u.period.ticks ≠ 0) ∧
        ∀ longer, longer ≠ 0 → ticks.toNat ∣ longer.toNat → ∃ t more fewer, ofBytes data path longer = .ok t ∧
          Pulls.Yields next s more ∧ Pulls.Yields next t fewer ∧ fewer.Sublist more := by
  intro frames
  obtain ⟨-, query, recording, -, compiled, read, -⟩ := ofBytes_eq_ok.mp built
  let t := (FrameStream.ofBytes data Header.size).transcript
  have kept (ticks : UInt32) : (Samples.batch query ticks t).items =
      ((Samples.every query t).filter fun r => Samples.due ticks frames r.tick).map .ok ++
        (Samples.batch query 1 t).fault.toList.map .error := by
    rw [Samples.items, Samples.batch_records]
    rfl
  have opened (ticks : UInt32) (positive : ticks ≠ 0) : ∃ period : Period, period.ticks = ticks ∧
      ofBytes data path ticks = .ok (initial recording query period) ∧
      Pulls.Yields next (initial recording query period) (Samples.batch query ticks t).items := by
    have good : Period.ofTicks ticks = .ok ⟨ticks, positive⟩ := dif_neg positive
    have sampler : ofBytes data path ticks = .ok (initial recording query ⟨ticks, positive⟩) := by
      rw [ofBytes_eq_map good compiled, read]
      rfl
    exact ⟨_, rfl, sampler, rest_ofBytes compiled sampler ▸ yields_rest _⟩
  refine ⟨Samples.every query t, (Samples.batch query 1 t).fault, ?_, fun ticks positive => ?_⟩
  · rw [← Samples.batch_one, ← Samples.items, ← rest_ofBytes compiled built]
    exact whole.yields_rest
  · obtain ⟨period, same, sampler, yields⟩ := opened ticks positive
    refine ⟨_, sampler, kept ticks ▸ yields, fun n => Passes.start.after n, fun u origin tick on measures => ?_, ?_⟩
    · obtain ⟨constant, le⟩ := on.measures measures
      exact ⟨le, by rw [constant, same], u.period.positive⟩
    · intro longer also divides
      obtain ⟨_, -, coarse, fewer⟩ := opened longer also
      refine ⟨_, _, _, coarse, yields, fewer, ?_⟩
      rw [kept, kept]
      exact ((Samples.filter_due_sublist divides frames _).map _).append_right _

/-- A recording with ticks up to the largest one and gaps between them. The first frame is empty, the next one creates
an entity of class `p`, and there is no end. -/
def gappedRecording : Bytes :=
  Header.signature ++ [3, 0, 0, 0] ++ List.replicate 1056 0 ++
    [0x02, 0xF0, 0xFF, 0xFF, 0xFF, 0] ++
    [0x02, 0xF2, 0xFF, 0xFF, 0xFF, 0x01, 1, 0, 0, 0, 1, 0, 0x70, 1, 0, 0, 2, 0, 0x68, 0x70, 0, 5, 0, 0, 0, 0] ++
    [0x02, 0xF4, 0xFF, 0xFF, 0xFF, 0x02, 1, 0, 0, 0, 1, 0, 0, 2, 0, 0x68, 0x70, 0, 6, 0, 0, 0, 0] ++
    [0x02, 0xFF, 0xFF, 0xFF, 0xFF, 0x02, 1, 0, 0, 0, 1, 0, 0, 2, 0, 0x68, 0x70, 0, 7, 0, 0, 0, 0]

def gappedRecords : List Record :=
  [⟨0xFFFFFFF2, 1, .singleton "hp" (.integer 5)⟩, ⟨0xFFFFFFF4, 1, .singleton "hp" (.integer 6)⟩,
    ⟨0xFFFFFFFF, 1, .singleton "hp" (.integer 7)⟩]

/-- The grid begins at the empty frame: with a period of two the last record is left out, and with one of four the
first is as well. -/
theorem yields_thinned_gapped :
    ∃ whole s, ofBytes gappedRecording "$.p" 1 = .ok whole ∧ (2 : UInt32) ≠ 0 ∧
      Pulls.Yields next whole (gappedRecords.map .ok ++ [.error (.corrupt 1146 .missingStop)]) ∧
      ofBytes gappedRecording "$.p" 2 = .ok s ∧
      Pulls.Yields next s ((gappedRecords.take 2).map .ok ++ [.error (.corrupt 1146 .missingStop)]) ∧
      (∀ u origin tick, Passes s u → u.Measures origin tick → origin ≤ tick) ∧
      (4 : UInt32) ≠ 0 ∧ (2 : UInt32).toNat ∣ (4 : UInt32).toNat ∧
      ∃ t fewer, ofBytes gappedRecording "$.p" 4 = .ok t ∧ Pulls.Yields next t fewer ∧
        fewer.Sublist ((gappedRecords.take 2).map .ok ++ [.error (.corrupt 1146 .missingStop)]) := by
  have compiled : Query.read "$.p" = .ok ⟨[.field "p"]⟩ := by decide +kernel
  have batch : (Samples.batch ⟨[.field "p"]⟩ 1 (FrameStream.ofBytes gappedRecording Header.size).transcript).items =
      gappedRecords.map .ok ++ [.error (.corrupt 1146 .missingStop)] := by decide +kernel
  have left : (gappedRecords.filter fun r => (FrameStream.ofBytes gappedRecording Header.size).transcript.frames.head?.any
      fun first => onGrid 2 first.tick r.tick) = gappedRecords.take 2 := by decide +kernel
  have good : (ofBytes gappedRecording "$.p" 1).isOk := by decide +kernel
  obtain ⟨whole, built, given⟩ := exists_yields compiled good
  rw [batch] at given
  obtain ⟨records, ending, yields, thinned⟩ := yields_thinned built
  obtain ⟨rfl, rfl⟩ : records = gappedRecords ∧ ending = some (.corrupt 1146 .missingStop) :=
    items_inj (yields.unique given)
  obtain ⟨s, sampler, fewer, -, measures, multiples⟩ := thinned 2 (by decide)
  rw [left] at fewer
  obtain ⟨t, more, fewest, coarse, again, last, part⟩ := multiples 4 (by decide) (by decide)
  rw [again.unique fewer] at part
  exact ⟨whole, s, built, by decide, given, sampler, fewer, fun u origin tick on at_ => (measures u origin tick on at_).1,
    by decide, by decide, t, fewest, coarse, last, part⟩

end Sampler
end DemoTape
