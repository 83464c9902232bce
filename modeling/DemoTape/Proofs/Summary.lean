/-
# A summary accounts for all of its frames

A summary says of the frames of a stream how many there are, from which tick to which, and what their messages are
(`count_ofFrames`, `sum_counts`). Each message takes some of the bytes that the stream goes over, and so does all that
it holds, so no number in a summary is greater than the number of these bytes (`drained_accounts`). The ticks ascend,
so the frames are no more than the ticks between the first and the last (`length_le_tickSpan`).

`Tally` counts one message after the other in words of 64 bits, as the frames come. It is the summary up to multiples
of `2 ^ 64` (`Tally.foldl_frame`), and the summary itself as long as the bytes are fewer than that (`tally_of_prefix`).
`summary_accounts` is all of it for any bytes.
-/
import DemoTape.Proofs.Wire.Sizes
import DemoTape.Proofs.Wire.Spelling

namespace DemoTape
set_option autoImplicit false

-- sums begin with the zero of the core library, whatever else is loaded
attribute [local instance (high)] Zero.ofOfNat0
-- powers are those of the core library, whatever else is loaded
attribute [local instance (high)] instPowNat

/-- The length of a skipped payload. -/
def Message.skippedLength : Message → Option Nat
  | .other _ length => some length.toNat
  | _ => none

theorem Message.sum_skippedBytes (ms : List Message) :
    (ms.map Message.skippedBytes).sum = (ms.filterMap Message.skippedLength).sum := by
  induction ms with
  | nil => rfl
  | cons m ms ih =>
    cases m <;> simp [Message.skippedBytes, Message.skippedLength, List.filterMap_cons, ih]

namespace Summary

/-! ## Counts -/

theorem lookup_map (n : MessageSort → Nat) (sorts : List MessageSort) (sort : MessageSort) :
    (sorts.map fun sort => (sort, n sort)).lookup sort = if sort ∈ sorts then some (n sort) else none := by
  induction sorts with
  | nil => rfl
  | cons first rest ih =>
    by_cases same : sort = first
    · simp [same]
    · simp [List.lookup_cons, beq_eq_false_iff_ne.mpr same, same, ih]

/-- A number that is left out is zero. -/
theorem lookup_nonzero (n : MessageSort → Nat) {sorts : List MessageSort} {sort : MessageSort} (there : sort ∈ sorts) :
    (((sorts.map fun sort => (sort, n sort)).filter (·.2 ≠ 0)).lookup sort).getD 0 = n sort := by
  rw [List.filter_map, lookup_map]
  by_cases zero : n sort = 0 <;> simp [there, zero]

variable {frames : List Frame}

theorem count_ofFrames (frames : List Frame) (sort : MessageSort) :
    (ofFrames frames).count sort = (frames.flatMap Frame.messages).countP (·.sort = sort) := by
  have found := lookup_nonzero (fun sort => (frames.flatMap Frame.messages).countP (·.sort = sort)) sort.mem_all
  exact found

/-- Every message is of one sort. -/
theorem sum_counts (ms : List Message) :
    (MessageSort.all.map fun sort => ms.countP (·.sort = sort)).sum = ms.length := by
  induction ms with
  | nil => rfl
  | cons m ms ih =>
    simp only [MessageSort.all, List.map_cons, List.map_nil, List.sum_cons, List.sum_nil, List.countP_cons,
      List.length_cons] at ih ⊢
    cases m.sort <;> simp <;> omega

/-! ## Ticks -/

/-- Numbers that ascend are no more than those from the first to the last. -/
theorem length_le_of_ascending {ns : List Nat} {first last : Nat} (ascending : ns.Pairwise (· < ·))
    (head : ns.head? = some first) (back : ns.getLast? = some last) : first + ns.length ≤ last + 1 := by
  induction ns generalizing first with
  | nil => cases head
  | cons n rest ih =>
    obtain rfl : n = first := Option.some.inj head
    obtain ⟨below, ascending⟩ := List.pairwise_cons.mp ascending
    cases rest with
    | nil =>
      obtain rfl : n = last := Option.some.inj back
      exact Nat.le_refl _
    | cons m rest =>
      have later := ih ascending rfl back
      have less := below m List.mem_cons_self
      simp only [List.length_cons] at later ⊢
      omega

/-- The first tick is the least. -/
theorem firstTick_least (ascending : frames.Pairwise fun f g => f.tick < g.tick) {first : Tick}
    (found : first ∈ (ofFrames frames).firstTick) :
    (∃ f ∈ frames, f.tick = first) ∧ ∀ f ∈ frames, first ≤ f.tick := by
  obtain ⟨f, head, rfl⟩ := Option.map_eq_some_iff.mp found
  obtain ⟨rest, rfl⟩ := List.head?_eq_some_iff.mp head
  refine ⟨⟨f, List.mem_cons_self, rfl⟩, List.forall_mem_cons.mpr ⟨UInt32.le_refl _, fun g later => ?_⟩⟩
  exact UInt32.le_of_lt ((List.pairwise_cons.mp ascending).1 g later)

/-- The last tick is the greatest. -/
theorem lastTick_greatest (ascending : frames.Pairwise fun f g => f.tick < g.tick) {last : Tick}
    (found : last ∈ (ofFrames frames).lastTick) :
    (∃ f ∈ frames, f.tick = last) ∧ ∀ f ∈ frames, f.tick ≤ last := by
  obtain ⟨l, back, rfl⟩ := Option.map_eq_some_iff.mp found
  obtain ⟨front, rfl⟩ := List.getLast?_eq_some_iff.mp back
  refine ⟨⟨l, by simp, rfl⟩, fun f member => ?_⟩
  rcases List.mem_append.mp member with earlier | last
  · exact UInt32.le_of_lt ((List.pairwise_append.mp ascending).2.2 f earlier l List.mem_cons_self)
  · rw [List.mem_singleton.mp last]
    exact UInt32.le_refl _

/-- Subtracting the first tick from the last does not go below zero. -/
theorem tickSpan_ofFrames (ascending : frames.Pairwise fun f g => f.tick < g.tick) {first last : Tick}
    (head : first ∈ (ofFrames frames).firstTick) (back : last ∈ (ofFrames frames).lastTick) :
    first ≤ last ∧ (ofFrames frames).tickSpan = (last - first).toNat + 1 := by
  obtain ⟨⟨l, there, rfl⟩, -⟩ := lastTick_greatest ascending back
  have le := (firstTick_least ascending head).2 l there
  refine ⟨le, ?_⟩
  rw [tickSpan, Option.mem_def.mp head, Option.mem_def.mp back, UInt32.toNat_sub_of_le _ _ le]

theorem length_le_tickSpan (ascending : frames.Pairwise fun f g => f.tick < g.tick) :
    frames.length ≤ (ofFrames frames).tickSpan ∧ (ofFrames frames).tickSpan ≤ 2 ^ (32 : Nat) := by
  cases frames with
  | nil => exact ⟨Nat.le_refl _, Nat.zero_le _⟩
  | cons f rest =>
    obtain ⟨l, back⟩ : ∃ l, (f :: rest).getLast? = some l := ⟨_, List.getLast?_cons⟩
    have head : (ofFrames (f :: rest)).firstTick = some f.tick := rfl
    have last : (ofFrames (f :: rest)).lastTick = some l.tick := congrArg (Option.map Frame.tick) back
    have numbers : ((f :: rest).map (·.tick.toNat)).Pairwise (· < ·) := List.pairwise_map.mpr ascending
    have ends : ((f :: rest).map (·.tick.toNat)).getLast? = some l.tick.toNat := by
      rw [List.getLast?_map, back]
      rfl
    have enough : f.tick.toNat + _ ≤ _ := length_le_of_ascending numbers rfl ends
    have bound := l.tick.toNat_lt
    rw [List.length_map] at enough
    simp only [tickSpan, head, last]
    omega

end Summary

/-! ## Counting in words -/

/-- The numbers of a summary as they are kept while frames come, in words of 64 bits. -/
structure Tally where
  frameCount : UInt64
  firstTick : Option Tick
  lastTick : Option Tick
  counts : MessageSort → UInt64
  skippedBytes : UInt64

namespace Tally

def empty : Tally := { frameCount := 0, firstTick := none, lastTick := none, counts := fun _ => 0, skippedBytes := 0 }

def message (t : Tally) (m : Message) : Tally := { t with
  counts := fun sort => if m.sort = sort then t.counts sort + 1 else t.counts sort
  skippedBytes := t.skippedBytes + UInt64.ofNat m.skippedBytes }

def frame (t : Tally) (f : Frame) : Tally := f.messages.foldl message { t with
  frameCount := t.frameCount + 1
  firstTick := t.firstTick.or (some f.tick)
  lastTick := some f.tick }

def ofFrames (frames : List Frame) : Tally := frames.foldl frame empty

def summary (t : Tally) : Summary where
  frameCount := t.frameCount.toNat
  firstTick := t.firstTick
  lastTick := t.lastTick
  counts := (MessageSort.all.map fun sort => (sort, (t.counts sort).toNat)).filter (·.2 ≠ 0)
  skippedBytes := t.skippedBytes.toNat

/-- Some messages count as many as they are, up to multiples of `2 ^ 64`. -/
theorem foldl_message (t : Tally) (ms : List Message) : ms.foldl message t = { t with
    counts := fun sort => t.counts sort + UInt64.ofNat (ms.countP (·.sort = sort))
    skippedBytes := t.skippedBytes + UInt64.ofNat (ms.map Message.skippedBytes).sum } := by
  induction ms generalizing t with
  | nil => simp
  | cons m ms ih =>
    rw [List.foldl_cons, ih]
    simp only [message, List.map_cons, List.sum_cons, List.countP_cons, UInt64.ofNat_add, UInt64.add_assoc]
    congr 1
    funext sort
    by_cases same : m.sort = sort
    · simp only [same, if_true, decide_true, UInt64.ofNat_one]
      ac_rfl
    · simp [same]

theorem foldl_frame (t : Tally) (frames : List Frame) : frames.foldl frame t = {
    frameCount := t.frameCount + UInt64.ofNat frames.length
    firstTick := t.firstTick.or (frames.head?.map Frame.tick)
    lastTick := (frames.getLast?.map Frame.tick).or t.lastTick
    counts := fun sort => t.counts sort + UInt64.ofNat ((frames.flatMap Frame.messages).countP (·.sort = sort))
    skippedBytes := t.skippedBytes +
      UInt64.ofNat ((frames.flatMap Frame.messages).map Message.skippedBytes).sum } := by
  induction frames generalizing t with
  | nil => simp
  | cons f rest ih =>
    rw [List.foldl_cons, ih, frame, foldl_message]
    simp [List.getLast?_cons, UInt64.ofNat_add, UInt64.add_assoc]
    exact UInt64.add_comm _ _

/-- As long as no number is too great for a word, the words are the numbers. -/
theorem summary_ofFrames {frames : List Frame} (few : frames.length < 2 ^ (64 : Nat))
    (fewer : (frames.flatMap Frame.messages).length < 2 ^ (64 : Nat))
    (short : ((frames.flatMap Frame.messages).map Message.skippedBytes).sum < 2 ^ (64 : Nat)) :
    (ofFrames frames).summary = Summary.ofFrames frames := by
  have whole {n : Nat} (small : n < 2 ^ (64 : Nat)) : (UInt64.ofNat n).toNat = n := UInt64.toNat_ofNat_of_lt' small
  have counts (sort : MessageSort) : (frames.flatMap Frame.messages).countP (·.sort = sort) < 2 ^ (64 : Nat) :=
    Nat.lt_of_le_of_lt List.countP_le_length fewer
  simp only [ofFrames, foldl_frame, empty, summary, Summary.ofFrames, UInt64.zero_add, Option.none_or, Option.or_none,
    whole few, whole short, whole (counts _)]

end Tally

/-! ## All bytes of a stream -/

/-- A stream that is drained without a fault has gone over what its frames hold, and as many bytes at least. -/
theorem drained_accounts {data : Bytes} {start : Nat} {frames : List Frame}
    (drained : (FrameStream.ofBytes data start).transcript = ⟨frames, none⟩) :
    ∃ consumed ≤ data.length - start,
      (∀ n, frames.length < n →
        (Pulls.after FrameStream.next n (.ofBytes data start)).cursor.offset = start + consumed) ∧
      6 * frames.length + ((frames.flatMap Frame.messages).map Message.least).sum + 1 ≤ consumed := by
  obtain ⟨stored, rfl, passed⟩ := Wire.stored_of_transcript rfl drained
  have least := Wire.least_le_frames start stored
  refine ⟨(Wire.encode stored ++ [Frame.stopCommand]).length, ?_, fun n beyond => ?_, ?_⟩
  · obtain ⟨here, -⟩ := passed _ (Nat.lt_succ_self _)
    have length := congrArg List.length here
    rw [List.length_append, Cursor.length_rest] at length
    exact Nat.le_of_add_right_le (Nat.le_of_eq length.symm)
  · rw [(passed n beyond).2]
    rfl
  · rw [List.length_append, List.length_singleton]
    exact Nat.succ_le_succ least

/-- Of frames that take fewer bytes than a word can count, the words are the summary, however many have come. -/
theorem tally_of_prefix {frames read : List Frame} (part : read <+: frames)
    (few : 6 * frames.length + ((frames.flatMap Frame.messages).map Message.least).sum < 2 ^ (64 : Nat)) :
    (Tally.ofFrames read).summary = Summary.ofFrames read := by
  obtain ⟨rest, rfl⟩ := part
  rw [Message.sum_least] at few
  simp only [List.flatMap_append, List.map_append, List.sum_append, List.length_append] at few
  exact Tally.summary_ofFrames (by omega) (by omega) (by omega)

/-- A summary is made of a stream that is drained without a fault. -/
theorem Summary.of_complete {t : Transcript} {s : Summary} (counted : ofFrames <$> t.complete = .ok s) :
    ∃ frames, t = ⟨frames, none⟩ ∧ s = ofFrames frames := by
  obtain ⟨frames, fault⟩ := t
  cases fault with
  | none => exact ⟨frames, rfl, (Except.ok.inj counted).symm⟩
  | some fault => cases counted

/-- **A summary accounts for every frame and message of a stream and for the bytes that it goes over**, and so its
numbers can be kept in words. -/
theorem summary_accounts {data : Bytes} {start : Nat} {s : Summary}
    (counted : Summary.ofFrames <$> (FrameStream.ofBytes data start).transcript.complete = .ok s) :
    ∃ frames, Pulls.Yields FrameStream.next (.ofBytes data start) (frames.map .ok) ∧
      let messages := frames.flatMap Frame.messages
      s.frameCount = frames.length ∧
      (s.firstTick = none ↔ frames = []) ∧ (s.lastTick = none ↔ frames = []) ∧
      (∀ first ∈ s.firstTick, (∃ f ∈ frames, f.tick = first) ∧ ∀ f ∈ frames, first ≤ f.tick) ∧
      (∀ last ∈ s.lastTick, (∃ f ∈ frames, f.tick = last) ∧ ∀ f ∈ frames, f.tick ≤ last) ∧
      (∀ sort, s.count sort = messages.countP (·.sort = sort)) ∧
      (MessageSort.all.map s.count).sum = messages.length ∧
      s.skippedBytes = (messages.filterMap Message.skippedLength).sum ∧
      (∃ consumed ≤ data.length - start,
        (∀ n, frames.length < n →
          (Pulls.after FrameStream.next n (.ofBytes data start)).cursor.offset = start + consumed) ∧
        6 * s.frameCount + 5 * messages.length + s.skippedBytes + 1 ≤ consumed ∧
        (messages.map Message.held).sum ≤ consumed) ∧
      (data.length < 2 ^ (64 : Nat) → ∀ read, read <+: frames → (Tally.ofFrames read).summary = Summary.ofFrames read) ∧
      (∀ first ∈ s.firstTick, ∀ last ∈ s.lastTick, first ≤ last ∧ s.tickSpan = (last - first).toNat + 1) ∧
      s.frameCount ≤ s.tickSpan ∧ s.tickSpan ≤ 2 ^ (32 : Nat) := by
  obtain ⟨frames, drained, rfl⟩ := Summary.of_complete counted
  have ascending := (FrameStream.ofBytes data start).ticks_ascend
  have yields := FrameStream.yields_transcript (.ofBytes data start)
  rw [drained] at ascending yields
  obtain ⟨consumed, within, place, taken⟩ := drained_accounts drained
  have counts : (MessageSort.all.map (Summary.ofFrames frames).count).sum = (frames.flatMap Frame.messages).length := by
    rw [← Summary.sum_counts]
    exact congrArg List.sum (List.map_congr_left fun sort _ => Summary.count_ofFrames frames sort)
  refine ⟨frames, ?_, rfl, ?_, ?_, fun first => Summary.firstTick_least ascending,
    fun last => Summary.lastTick_greatest ascending, Summary.count_ofFrames frames, counts,
    Message.sum_skippedBytes _, ⟨consumed, within, place, ?_⟩, fun small read part => ?_,
    fun first head last back => Summary.tickSpan_ofFrames ascending head back, Summary.length_le_tickSpan ascending⟩
  · rwa [Transcript.items, Option.toList_none, List.map_nil, List.append_nil] at yields
  · exact Option.map_eq_none_iff.trans List.head?_eq_none_iff
  · exact Option.map_eq_none_iff.trans List.getLast?_eq_none_iff
  · -- each message takes five bytes besides those skipped and those of what it holds
    rw [Message.sum_least] at taken
    show 6 * frames.length + _ + ((frames.flatMap Frame.messages).map Message.skippedBytes).sum + 1 ≤ _ ∧ _
    omega
  · exact tally_of_prefix part (by omega)

/-- Two frames with the whole range of ticks between them, and a message of every sort in the first. -/
def varied : Bytes :=
  [0x02, 0, 0, 0, 0, 0x04, 1, 0, 0x74, 1, 0, 7, 0, 1, 0, 0x75, 0x01, 1, 0, 0, 0, 1, 0, 0x70, 1, 0, 0x00, 1, 0, 0x78,
    0x03, 1, 0x02, 1, 0, 0, 0, 0, 0, 0x03, 1, 0, 0, 0, 0x05, 9, 0, 0, 0, 1, 0, 0xFF, 0x90, 3, 0, 0, 0, 1, 2, 3, 0x00,
    0x02, 0xFF, 0xFF, 0xFF, 0xFF, 0x90, 0, 0, 0, 0, 0x00, 0x07]

theorem summary_accounts_varied : ∃ (s : Summary) (frames : List Frame),
    Summary.ofFrames <$> (FrameStream.ofBytes varied 0).transcript.complete = .ok s ∧
    Pulls.Yields FrameStream.next (.ofBytes varied 0) (frames.map .ok) ∧
    s.count .other = 2 ∧ s.skippedBytes = 3 ∧ s.tickSpan = 2 ^ (32 : Nat) ∧
    (frames.flatMap Frame.messages).length = 7 ∧
    ∃ consumed ≤ varied.length, 6 * 2 + 5 * (frames.flatMap Frame.messages).length + 3 + 1 ≤ consumed := by
  have counted : Summary.ofFrames <$> (FrameStream.ofBytes varied 0).transcript.complete = .ok
      { frameCount := 2, firstTick := some 0, lastTick := some 0xFFFFFFFF, skippedBytes := 3,
        counts := [(.baseline, 1), (.delta, 1), (.remove, 1), (.table, 1), (.command, 1), (.other, 2)] } := by
    decide +kernel
  obtain ⟨frames, yields, -, -, -, -, -, -, total, -, ⟨consumed, within, -, taken, -⟩, -⟩ := summary_accounts counted
  exact ⟨_, frames, counted, yields, rfl, rfl, rfl, total.symm, consumed, within, taken⟩

end DemoTape
