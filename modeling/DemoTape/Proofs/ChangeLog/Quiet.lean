/-
# When a change log is quiet

The change log of a class is to have a record of an entity only where its properties have changed. Say that a frame
leaves an entity of the class as it was, bit for bit. Then there is no record of it at the tick of the frame, unless
it has a NaN; and if it has one, there is such a record (`changeLog_quiet_iff`). For properties are compared as
numbers, and a NaN is not equal to itself.

As a statement about records this is short. The record of the entity after the frame is kept unless it repeats the
one that was kept last (`quiet_iff_repeats`), and this is the record before the frame, or that one repeats it
(`lastKept_changes`). Records of one entity at one tick are not met twice, since ticks ascend and a class has each of
its entities once.
-/
import DemoTape.Proofs.ChangeLog.Filter
import DemoTape.Proofs.Scene.Changes

namespace DemoTape
set_option autoImplicit false

/-! ## NaN -/

namespace Binary
variable {f : FloatFormat}

theorem same_self (x : Binary f) : x.same x = !x.isNaN := by
  unfold same compare
  cases x.isNaN <;> simp [Std.ReflCmp.compare_self]

theorem isNaN_of_same {x y : Binary f} (same : x.same y) : x.isNaN = false := by
  unfold Binary.same compare at same
  by_cases nan : x.isNaN
  · simp [nan] at same
  · exact Bool.eq_false_iff.mpr nan

end Binary

namespace Vec3

def hasNaN (v : Vec3) : Bool := v.x.isNaN || v.y.isNaN || v.z.isNaN

theorem same_self (v : Vec3) : v.same v = !v.hasNaN := by
  simp [same, hasNaN, Binary.same_self]

theorem hasNaN_of_same {v w : Vec3} (same : v.same w) : v.hasNaN = false := by
  simp only [Vec3.same, Bool.and_eq_true] at same
  simp [hasNaN, Binary.isNaN_of_same same.1.1, Binary.isNaN_of_same same.1.2, Binary.isNaN_of_same same.2]

end Vec3

namespace Value

def hasNaN : Value → Bool
  | .float x => x.isNaN
  | .vector v => v.hasNaN
  | _ => false

/-- A value is the same as itself, unless it has a NaN. -/
theorem same_self (v : Value) : v.same v = !v.hasNaN := by
  cases v with
  | integer i => simp [same, hasNaN]
  | float x => exact Binary.same_self x
  | text s => simp [same, hasNaN]
  | boolean b => simp [same, hasNaN]
  | vector v => exact Vec3.same_self v

/-- A value with a NaN is not the same as any. -/
theorem hasNaN_of_same {v w : Value} (same : v.same w) : v.hasNaN = false := by
  cases v with
  | integer i => rfl
  | text s => rfl
  | boolean b => rfl
  | float x => cases w with
    | float y => exact Binary.isNaN_of_same same
    | integer | text | boolean | vector => cases same
  | vector v => cases w with
    | vector w => exact Vec3.hasNaN_of_same same
    | integer | float | text | boolean => cases same

end Value

namespace SortedMap
variable {κ α : Type} [Ord κ] [DecidableEq κ]

theorem sameBy_self (same : α → α → Bool) (m : SortedMap κ α) :
    sameBy same m m = m.entries.all fun entry => same entry.2 entry.2 := by
  have pairs (entries : List (κ × α)) : ((entries.zip entries).all fun pair => same pair.1.2 pair.2.2) =
      entries.all fun entry => same entry.2 entry.2 := by
    induction entries with
    | nil => rfl
    | cons entry rest ih => rw [List.zip_cons_cons, List.all_cons, List.all_cons, ih]
  rw [sameBy, pairs]
  simp

theorem exists_of_sameBy {same : α → α → Bool} {m n : SortedMap κ α} (equal : sameBy same m n) {entry : κ × α}
    (mem : entry ∈ m.entries) : ∃ a, same entry.2 a := by
  obtain ⟨keys, each⟩ := Bool.and_eq_true_iff.mp equal
  have lengths := congrArg List.length (of_decide_eq_true keys)
  rw [List.length_map, List.length_map] at lengths
  obtain ⟨i, inside, rfl⟩ := List.mem_iff_getElem.mp mem
  have pair : (m.entries[i], n.entries[i]) ∈ m.entries.zip n.entries :=
    List.mem_iff_getElem.mpr ⟨i, by rw [List.length_zip]; omega, List.getElem_zip⟩
  exact ⟨_, List.all_eq_true.mp each _ pair⟩

end SortedMap

namespace Properties

/-- Whether one of these properties has a NaN. -/
def hasNaN (p : Properties) : Bool := p.entries.any fun entry => entry.2.hasNaN

theorem same_self (p : Properties) : p.same p = !p.hasNaN := by
  rw [same, SortedMap.sameBy_self, hasNaN, List.not_any_eq_all_not]
  simp only [Value.same_self]

theorem hasNaN_of_same {p q : Properties} (same : p.same q) : p.hasNaN = false := by
  refine List.any_eq_false.mpr fun entry mem => ?_
  obtain ⟨v, equal⟩ := SortedMap.exists_of_sameBy same mem
  rw [Value.hasNaN_of_same equal]
  exact Bool.false_ne_true

end Properties

/-! ## Which records are kept -/

namespace ChangeLog

/-- More records only add to what is kept, and nothing but some of them. -/
theorem exists_foldl_keep (kept records : List Record) :
    ∃ added, added.Sublist records ∧ records.foldl keep kept = kept ++ added := by
  induction records generalizing kept with
  | nil => exact ⟨[], .refl _, (List.append_nil kept).symm⟩
  | cons r rest ih =>
    obtain ⟨added, some, all⟩ := ih (keep kept r)
    rw [List.foldl_cons, all, keep]
    by_cases repeats : (lastKept kept r.entity).any fun last => r.values.same last.values
    · rw [if_pos repeats]
      exact ⟨added, some.cons _, rfl⟩
    · rw [if_neg repeats, List.append_assoc]
      exact ⟨r :: added, some.cons_cons _, rfl⟩

theorem changes_append (front back : List Record) : changes (front ++ back) = back.foldl keep (changes front) :=
  List.foldl_append

theorem mem_of_mem_changes {records : List Record} {r : Record} (mem : r ∈ changes records) : r ∈ records := by
  obtain ⟨added, some, all⟩ := exists_foldl_keep [] records
  rw [changes, all, List.nil_append] at mem
  exact some.subset mem

theorem lastKept_keep_other {kept : List Record} {r : Record} {id : EntityId} (other : r.entity ≠ id) :
    lastKept (keep kept r) id = lastKept kept id := by
  unfold keep
  split
  · rfl
  · rw [lastKept_concat, if_neg other]

theorem lastKept_foldl_other {kept records : List Record} {id : EntityId}
    (others : ∀ r ∈ records, r.entity ≠ id) : lastKept (records.foldl keep kept) id = lastKept kept id := by
  induction records generalizing kept with
  | nil => rfl
  | cons r rest ih =>
    obtain ⟨here, others⟩ := List.forall_mem_cons.mp others
    rw [List.foldl_cons, ih others, lastKept_keep_other here]

/-- The last record of an entity was kept, or it repeats the one that was kept last. -/
theorem lastKept_changes {front back : List Record} {r : Record} (others : ∀ s ∈ back, s.entity ≠ r.entity) :
    ∃ last, lastKept (changes (front ++ r :: back)) r.entity = some last ∧
      (last = r ∨ r.values.same last.values) := by
  rw [changes_append, List.foldl_cons, lastKept_foldl_other others, keep]
  by_cases repeats : (lastKept (changes front) r.entity).any fun last => r.values.same last.values
  · obtain ⟨last, found, same⟩ := (Option.any_eq_true _ _).mp repeats
    rw [if_pos repeats]
    exact ⟨last, found, .inr same⟩
  · rw [if_neg repeats, lastKept_concat, if_pos rfl]
    exact ⟨r, rfl, .inl rfl⟩

/-- Where no other record is of the same entity and tick, a record leaves no trace exactly if it repeats. -/
theorem quiet_iff_repeats {front back : List Record} {r : Record}
    (alone : ∀ s ∈ front ++ back, s.entity = r.entity → s.tick ≠ r.tick) :
    (∀ s ∈ changes (front ++ r :: back), s.entity = r.entity → s.tick ≠ r.tick) ↔
      (lastKept (changes front) r.entity).any fun last => r.values.same last.values := by
  obtain ⟨added, some, all⟩ := exists_foldl_keep (keep (changes front) r) back
  rw [changes_append, List.foldl_cons, all, keep]
  by_cases repeats : (lastKept (changes front) r.entity).any fun last => r.values.same last.values
  · rw [if_pos repeats]
    refine ⟨fun _ => repeats, fun _ s mem => alone s ?_⟩
    rcases List.mem_append.mp mem with mem | mem
    · exact List.mem_append_left _ (mem_of_mem_changes mem)
    · exact List.mem_append_right _ (some.subset mem)
  · rw [if_neg repeats]
    refine ⟨fun quiet => ?_, fun repeated => absurd repeated repeats⟩
    exact absurd rfl (quiet r (by simp) rfl)

/-- Where the previous record of the entity has the same values, this depends on these alone. -/
theorem quiet_iff_number {front mid back : List Record} {r₀ r : Record} (entity : r₀.entity = r.entity)
    (values : r₀.values = r.values) (others : ∀ s ∈ mid, s.entity ≠ r.entity)
    (alone : ∀ s ∈ front ++ r₀ :: mid ++ back, s.entity = r.entity → s.tick ≠ r.tick) :
    (∀ s ∈ changes (front ++ r₀ :: mid ++ r :: back), s.entity = r.entity → s.tick ≠ r.tick) ↔
      r.values.hasNaN = false := by
  have previous : ∃ last, lastKept (changes (front ++ r₀ :: mid)) r₀.entity = some last ∧
      (last = r₀ ∨ r₀.values.same last.values) := lastKept_changes (by rwa [entity])
  obtain ⟨last, found, before⟩ := previous
  rw [quiet_iff_repeats alone, ← entity, found, Option.any_some]
  rcases before with rfl | same
  · rw [values, Properties.same_self, Bool.not_eq_true']
  · rw [values] at same
    exact iff_of_true same (Properties.hasNaN_of_same same)

/-! ## Frames that change nothing -/

theorem tick_of_mem_listed {cls : String} {scene : Scene} {tick : Tick} {r : Record}
    (mem : r ∈ listed cls scene tick) : r.tick = tick := by
  obtain ⟨entry, -, rfl⟩ := List.mem_map.mp mem
  rfl

theorem tick_of_mem_listedAll {cls : String} {scene : Scene} {frames : List Frame} {r : Record}
    (mem : r ∈ listedAll cls (scene.history frames).1) : ∃ f ∈ frames, f.tick = r.tick := by
  obtain ⟨step, there, mem⟩ := List.mem_flatMap.mp mem
  exact ⟨step.1, mem_history there, (tick_of_mem_listed mem).symm⟩

/-- An entity of a class has one record among those of the class. -/
theorem listed_split {cls : String} {scene : Scene} {id : EntityId} {e : Entity}
    (there : scene.entities.find? id = some e) (member : e.cls = cls) (tick : Tick) :
    ∃ front back, listed cls scene tick = front ++ ⟨tick, id, e.properties⟩ :: back ∧
      (∀ r ∈ front, r.entity ≠ id) ∧ ∀ r ∈ back, r.entity ≠ id := by
  obtain rfl := Entities.id_of_find? there
  have mem : e ∈ members cls scene := List.mem_filter.mpr ⟨Entities.mem_all.mpr there, decide_eq_true member⟩
  have distinct : (members cls scene).Pairwise fun a b => a.id ≠ b.id :=
    (scene.entities.all_ascending.sublist List.filter_sublist).imp UInt32.ne_of_lt
  obtain ⟨front, back, split⟩ := List.append_of_mem mem
  rw [split] at distinct
  obtain ⟨-, behind, before⟩ := List.pairwise_append.mp distinct
  refine ⟨_, _, by rw [listed, split, List.map_append, List.map_cons], ?_, ?_⟩
  · intro r there
    obtain ⟨other, inside, rfl⟩ := List.mem_map.mp there
    exact before other inside e (List.mem_cons_self ..)
  · intro r there
    obtain ⟨other, inside, rfl⟩ := List.mem_map.mp there
    exact ((List.pairwise_cons.mp behind).1 other inside).symm

/-- The records of a class up to a frame: those of the frames before, and those of the scene behind it. -/
theorem listedAll_concat (cls : String) {before : List Frame} {frame : Frame} {scene : Scene}
    (reached : Scene.empty.replay (before ++ [frame]) = .ok scene) :
    listedAll cls (Scene.empty.history (before ++ [frame])).1 =
      listedAll cls (Scene.empty.history before).1 ++ listed cls scene frame.tick := by
  rw [Scene.replay_append] at reached
  cases led : Scene.empty.replay before with
  | error fault =>
    rw [led] at reached
    cases reached
  | ok between =>
    rw [led] at reached
    obtain ⟨_, there, same⟩ := Scene.replay_cons_ok.mp reached
    cases same
    rw [history_append led, Scene.history_applied there]
    simp [listedAll, Scene.history]

/-- The records of a class around a frame: those of the frames before, the last of them with the scene that the frame
meets, those of the scene behind the frame, and those of the frames after. -/
theorem listedAll_split (cls : String) {front after : List Frame} {last frame : Frame} {scene later : Scene}
    (reached : Scene.empty.replay (front ++ [last]) = .ok scene) (applied : scene.apply frame = (none, later)) :
    listedAll cls (Scene.empty.history (front ++ [last] ++ frame :: after)).1 =
      listedAll cls (Scene.empty.history front).1 ++ listed cls scene last.tick ++
        (listed cls later frame.tick ++ listedAll cls (later.history after).1) := by
  rw [history_append reached, Scene.history_applied applied, ← listedAll_concat cls reached]
  simp [listedAll]

/-- No other frame gives records at the tick of this one. -/
theorem ticks_apart (cls : String) (first scene later : Scene) {front after : List Frame} {last frame : Frame}
    (ascending : (front ++ [last] ++ frame :: after).Pairwise fun f g => f.tick < g.tick) :
    (∀ r ∈ listedAll cls (first.history front).1 ++ listed cls scene last.tick, r.tick ≠ frame.tick) ∧
      ∀ r ∈ listedAll cls (later.history after).1, r.tick ≠ frame.tick := by
  obtain ⟨-, following, apart⟩ := List.pairwise_append.mp ascending
  constructor
  · intro r mem
    rcases List.mem_append.mp mem with mem | mem
    · obtain ⟨f, inside, same⟩ := tick_of_mem_listedAll mem
      exact same ▸ UInt32.ne_of_lt (apart f (List.mem_append_left _ inside) frame (List.mem_cons_self ..))
    · exact tick_of_mem_listed mem ▸ UInt32.ne_of_lt (apart last (by simp) frame (List.mem_cons_self ..))
  · intro r mem
    obtain ⟨f, inside, same⟩ := tick_of_mem_listedAll mem
    exact same ▸ (UInt32.ne_of_lt ((List.pairwise_cons.mp following).1 f inside)).symm

end ChangeLog

open ChangeLog in
theorem changeLog_eq_ok {data : Bytes} {cls : String} {frames : List Frame} {records : List Record}
    (read : framesOf data = .ok frames) (log : changeLog data cls = .ok records) :
    (frames.Pairwise fun f g => f.tick < g.tick) ∧
      changes (listedAll cls (Scene.empty.history frames).1) = records := by
  obtain ⟨recording, whole, transcript⟩ := framesOf_eq_ok.mp read
  have ascending := recording.stream.ticks_ascend
  rw [show recording.stream.transcript = _ from transcript] at ascending
  refine ⟨ascending, ?_⟩
  rw [changeLog, whole] at log
  have found := ofTranscript_eq cls recording.transcript
  rw [show ofTranscript cls recording.transcript = .ok records from log, transcript, Option.or_none] at found
  dsimp only at found
  cases applied : (Scene.empty.history frames).2 with
  | some fault =>
    rw [applied] at found
    cases found
  | none =>
    rw [applied] at found
    exact (Except.ok.inj found).symm

open ChangeLog in
/-- **A change log is quiet about an entity that stays as it was, if it has no NaN, and only then.** Let a frame of a
recording lead from one scene to the next, with the same entity of a class in both. The change log of the class has
no record of it at the tick of the frame exactly if its properties have no NaN. -/
theorem changeLog_quiet_iff {data : Bytes} {cls : String} {records : List Record} {before after : List Frame}
    {frame : Frame} {scene later : Scene} {id : EntityId} {e : Entity}
    (log : changeLog data cls = .ok records) (frames : framesOf data = .ok (before ++ frame :: after))
    (reached : Scene.empty.replay before = .ok scene) (applied : scene.apply frame = (none, later))
    (member : e.cls = cls) (was : scene.entities.find? id = some e) (stays : later.entities.find? id = some e) :
    (∀ r ∈ records, r.entity = id → r.tick ≠ frame.tick) ↔ e.properties.hasNaN = false := by
  obtain ⟨ascending, rfl⟩ := changeLog_eq_ok frames log
  obtain rfl | ⟨front, last, rfl⟩ := List.eq_nil_or_concat before
  · cases reached
    cases was
  rw [List.concat_eq_append] at reached ascending ⊢
  obtain ⟨front₀, back₀, split₀, -, apart₀⟩ := listed_split was member last.tick
  obtain ⟨front₁, back₁, split₁, apart₁, apart₂⟩ := listed_split stays member frame.tick
  have steps : listedAll cls (Scene.empty.history (front ++ [last] ++ frame :: after)).1 =
      listedAll cls (Scene.empty.history front).1 ++ front₀ ++ ⟨last.tick, id, e.properties⟩ :: (back₀ ++ front₁) ++
        ⟨frame.tick, id, e.properties⟩ :: (back₁ ++ listedAll cls (later.history after).1) := by
    rw [listedAll_split cls reached applied, split₀, split₁]
    simp
  rw [steps]
  refine quiet_iff_number rfl rfl ?others ?alone
  case others =>
    intro s mem
    rcases List.mem_append.mp mem with mem | mem
    · exact apart₀ s mem
    · exact apart₁ s mem
  case alone =>
    obtain ⟨before, behind⟩ := ticks_apart cls Scene.empty scene later ascending
    rw [split₀] at before
    intro s mem entity
    have places : s ∈ listedAll cls (Scene.empty.history front).1 ++
        (front₀ ++ ⟨last.tick, id, e.properties⟩ :: back₀) ∨ s ∈ front₁ ∨ s ∈ back₁ ∨
        s ∈ listedAll cls (later.history after).1 := by
      simp only [List.mem_append, List.mem_cons] at mem ⊢
      grind
    rcases places with mem | mem | mem | mem
    · exact before s mem
    · exact absurd entity (apart₁ s mem)
    · exact absurd entity (apart₂ s mem)
    · exact behind s mem

/-- A recording with two entities of class `p`, whose `x` is a NaN and 1; its second frame has no messages. -/
def nanRecording : Bytes :=
  Header.signature ++ [3, 0, 0, 0] ++ List.replicate 1056 0 ++
    [0x02, 1, 0, 0, 0, 0x01, 1, 0, 0, 0, 1, 0, 0x70, 1, 0, 0, 1, 0, 0x78, 1, 0, 0, 0xC0, 0x7F,
      0x01, 2, 0, 0, 0, 1, 0, 0x70, 1, 0, 0, 1, 0, 0x78, 1, 0, 0, 0x80, 0x3F, 0] ++
    [0x02, 2, 0, 0, 0, 0] ++ [0x07]

/-- An entity of it, with these bits in its `x`. -/
def nanEntity (id : EntityId) (word : Nat) : Entity :=
  ⟨id, "p", .singleton "x" (.float (Binary.ofWord .single word).widen)⟩

def nanFirst : Frame :=
  ⟨1, [.baseline 1 "p" [⟨.name "x", .float (Binary.ofWord .single 0x7FC00000).widen⟩],
    .baseline 2 "p" [⟨.name "x", .float (Binary.ofWord .single 0x3F800000).widen⟩]], 1068⟩

def nanSecond : Frame := ⟨2, [], 1112⟩

def nanScene : Scene := (Scene.empty.apply nanFirst).2

def nanRecords : List Record :=
  [⟨1, 1, (nanEntity 1 0x7FC00000).properties⟩, ⟨1, 2, (nanEntity 2 0x3F800000).properties⟩,
    ⟨2, 1, (nanEntity 1 0x7FC00000).properties⟩]

/-- The log is quiet about the second entity at the second frame, and not about the first. -/
theorem changeLog_quiet_iff_nan :
    changeLog nanRecording "p" = .ok nanRecords ∧ framesOf nanRecording = .ok ([nanFirst] ++ nanSecond :: []) ∧
      (∀ r ∈ nanRecords, r.entity = 2 → r.tick ≠ nanSecond.tick) ∧
      ¬ ∀ r ∈ nanRecords, r.entity = 1 → r.tick ≠ nanSecond.tick := by
  have log : changeLog nanRecording "p" = .ok nanRecords := by decide +kernel
  have frames : framesOf nanRecording = .ok ([nanFirst] ++ nanSecond :: []) := by decide +kernel
  have reached : Scene.empty.replay [nanFirst] = .ok nanScene := by decide +kernel
  have applied : nanScene.apply nanSecond = (none, { nanScene with tick := some 2 }) := by decide +kernel
  have number : nanScene.entities.find? 2 = some (nanEntity 2 0x3F800000) := by decide +kernel
  have other : nanScene.entities.find? 1 = some (nanEntity 1 0x7FC00000) := by decide +kernel
  refine ⟨log, frames, ?_, ?_⟩
  · exact (changeLog_quiet_iff log frames reached applied rfl number number).mpr (by decide +kernel)
  · rw [changeLog_quiet_iff log frames reached applied rfl other other]
    decide +kernel

/-- The second frame has no messages and leaves the first entity as it is, and yet there is a record of it. -/
theorem changeLog_repeats_nan :
    changeLog nanRecording "p" = .ok nanRecords ∧ framesOf nanRecording = .ok [nanFirst, nanSecond] ∧
      nanSecond.messages = [] ∧ Scene.empty.replay [nanFirst] = .ok nanScene ∧
      nanScene.apply nanSecond = (none, { nanScene with tick := some 2 }) ∧ (nanEntity 1 0x7FC00000).cls = "p" ∧
      nanScene.entities.find? 1 = some (nanEntity 1 0x7FC00000) ∧ ∃ r ∈ nanRecords, r.entity = 1 ∧ r.tick = 2 := by
  decide +kernel

end DemoTape
