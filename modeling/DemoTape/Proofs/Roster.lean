/-
# A roster is the first writes of the players

The table of players is written entry by entry, along the messages of one frame after the other. An entry is at a
`Place`: which frame, which message of it, which entry of that. `WrittenAt` says what stands at a place, and
`FirstWrite` that a slot is given a name there and nowhere before. A roster has each slot and name that is ever
written, at the tick of its first write and in the order of the first writes (`roster_first_writes`), so what the table
of players holds in the end is in the roster, if the frames apply.

Two things are shown apart. Of a list of players, those that stay are the first of their seat (`pairwise_firsts`,
`seat_mem_firsts`). And the writes of a recording, listed with their places, are in the order of these
(`writes_ordered`), so that what comes first in the list is written first.
-/
import DemoTape.Proofs.Sampling.Batch
import DemoTape.Proofs.Scene.History
import DemoTape.Roster
import Mathlib.Data.List.Basic

namespace DemoTape
set_option autoImplicit false

/-- A slot and a name, by which players are told apart. -/
abbrev Seat := UInt16 × String

def Player.seat (p : Player) : Seat := (p.slot, p.name)

namespace Roster

/-! ## The first of each seat -/

section Firsts
variable {seen : List Seat} {players : List Player}

theorem firsts_cons_seen {p : Player} (known : p.seat ∈ seen) : firsts seen (p :: players) = firsts seen players :=
  if_pos (List.contains_iff_mem.mpr known)

theorem firsts_cons_new {p : Player} (new : p.seat ∉ seen) :
    firsts seen (p :: players) = p :: firsts (p.seat :: seen) players :=
  if_neg (mt List.contains_iff_mem.mp new)

/-- A player is the first of its seat, and that of another player comes behind it. -/
def Ahead (players : List Player) (p q : Player) : Prop :=
  p.seat ≠ q.seat ∧ ∃ before after, players = before ++ p :: after ∧ ∀ r ∈ before, r.seat ≠ p.seat ∧ r.seat ≠ q.seat

theorem Ahead.cons {p q r : Player} (ahead : Ahead players p q) (first : r.seat ≠ p.seat) (second : r.seat ≠ q.seat) :
    Ahead (r :: players) p q := by
  obtain ⟨apart, before, after, rfl, earlier⟩ := ahead
  refine ⟨apart, r :: before, after, rfl, ?_⟩
  exact List.forall_mem_cons.mpr ⟨⟨first, second⟩, earlier⟩

theorem seat_of_mem_firsts {p : Player} (member : p ∈ firsts seen players) : p.seat ∉ seen := by
  induction players generalizing seen with
  | nil => cases member
  | cons r rest ih =>
    by_cases known : r.seat ∈ seen
    · rw [firsts_cons_seen known] at member
      exact ih member
    · rw [firsts_cons_new known] at member
      rcases List.mem_cons.mp member with rfl | later
      · exact known
      · exact fun there => ih later (List.mem_cons_of_mem _ there)

/-- Who stays is the first of its seat. -/
theorem first_of_mem_firsts {p : Player} (member : p ∈ firsts seen players) :
    ∃ before after, players = before ++ p :: after ∧ ∀ r ∈ before, r.seat ≠ p.seat := by
  induction players generalizing seen with
  | nil => cases member
  | cons r rest ih =>
    -- a seat that was seen is none of those that stay
    have further {seen' : List Seat} (known : r.seat ∈ seen') (later : p ∈ firsts seen' rest) :
        ∃ before after, r :: rest = before ++ p :: after ∧ ∀ s ∈ before, s.seat ≠ p.seat := by
      obtain ⟨before, after, rfl, earlier⟩ := ih later
      refine ⟨r :: before, after, rfl, List.forall_mem_cons.mpr ⟨fun same => ?_, earlier⟩⟩
      exact seat_of_mem_firsts later (same ▸ known)
    by_cases known : r.seat ∈ seen
    · rw [firsts_cons_seen known] at member
      exact further known member
    · rw [firsts_cons_new known] at member
      rcases List.mem_cons.mp member with rfl | later
      · exact ⟨[], rest, rfl, nofun⟩
      · exact further List.mem_cons_self later

theorem pairwise_firsts : (firsts seen players).Pairwise (Ahead players) := by
  induction players generalizing seen with
  | nil => exact .nil
  | cons r rest ih =>
    have further {seen' : List Seat} (known : r.seat ∈ seen') : (firsts seen' rest).Pairwise (Ahead (r :: rest)) := by
      refine ih.imp_of_mem fun first second ahead => ahead.cons ?_ ?_
      · exact fun same => seat_of_mem_firsts first (same ▸ known)
      · exact fun same => seat_of_mem_firsts second (same ▸ known)
    by_cases known : r.seat ∈ seen
    · rw [firsts_cons_seen known]
      exact further known
    · rw [firsts_cons_new known]
      refine List.pairwise_cons.mpr ⟨fun q later => ?_, further List.mem_cons_self⟩
      have apart : r.seat ≠ q.seat := fun same => seat_of_mem_firsts later (same ▸ List.mem_cons_self)
      exact ⟨apart, [], rest, rfl, nofun⟩

/-- No seat is lost but those that were seen. -/
theorem seat_mem_firsts {seat : Seat} :
    seat ∈ (firsts seen players).map Player.seat ↔ seat ∉ seen ∧ seat ∈ players.map Player.seat := by
  induction players generalizing seen with
  | nil => simp [firsts]
  | cons r rest ih =>
    by_cases known : r.seat ∈ seen
    · rw [firsts_cons_seen known, ih, List.map_cons, List.mem_cons]
      constructor
      · rintro ⟨new, there⟩
        exact ⟨new, .inr there⟩
      · rintro ⟨new, rfl | there⟩
        · exact absurd known new
        · exact ⟨new, there⟩
    · rw [firsts_cons_new known, List.map_cons, List.mem_cons, ih, List.map_cons, List.mem_cons, List.mem_cons]
      by_cases same : seat = r.seat
      · simp [same, known]
      · simp [same]

end Firsts

/-! ## Places -/

/-- Where an entry stands: which frame, which message of the frame, which entry of the message. -/
structure Place where
  frame : Nat
  message : Nat
  entry : Nat

def Place.Before (a b : Place) : Prop :=
  a.frame < b.frame ∨ a.frame = b.frame ∧ (a.message < b.message ∨ a.message = b.message ∧ a.entry < b.entry)

/-- Whether a slot of the table of players is given a name at a place. -/
def WrittenAt (frames : List Frame) (seat : Seat) (place : Place) : Prop :=
  ∃ frame entries, frames[place.frame]? = some frame ∧
    frame.messages[place.message]? = some (.table StringTables.players entries) ∧
    entries[place.entry]? = some ⟨seat.1, seat.2⟩

/-- Whether a slot is given a name at a place and nowhere before. -/
def FirstWrite (frames : List Frame) (seat : Seat) (place : Place) : Prop :=
  WrittenAt frames seat place ∧ ∀ other, WrittenAt frames seat other → other = place ∨ place.Before other

theorem Place.Before.asymm {a b : Place} (before : a.Before b) : ¬ b.Before a := by
  unfold Place.Before at *
  omega

theorem FirstWrite.unique {frames : List Frame} {seat : Seat} {a b : Place} (first : FirstWrite frames seat a)
    (also : FirstWrite frames seat b) : a = b := by
  rcases first.2 b also.1 with same | before
  · exact same.symm
  · rcases also.2 a first.1 with same | behind
    · exact same
    · exact absurd behind before.asymm

theorem exists_writtenAt {frames : List Frame} {seat : Seat} :
    (∃ place, WrittenAt frames seat place) ↔ ∃ frame ∈ frames, ∃ entries,
      Message.table StringTables.players entries ∈ frame.messages ∧ (⟨seat.1, seat.2⟩ : TableEntry) ∈ entries := by
  constructor
  · rintro ⟨place, frame, entries, here, message, entry⟩
    exact ⟨frame, List.mem_of_getElem? here, entries, List.mem_of_getElem? message, List.mem_of_getElem? entry⟩
  · rintro ⟨frame, here, entries, message, entry⟩
    obtain ⟨i, here⟩ := List.mem_iff_getElem?.mp here
    obtain ⟨j, message⟩ := List.mem_iff_getElem?.mp message
    obtain ⟨k, entry⟩ := List.mem_iff_getElem?.mp entry
    exact ⟨⟨i, j, k⟩, frame, entries, here, message, entry⟩

/-! ## All writes -/

/-- The entries that a message writes to the table of players. -/
def entriesOf : Message → List TableEntry
  | .table name entries => if name = StringTables.players then entries else []
  | _ => []

/-- What some frames write to the table of players, in order, with the places. -/
def writes (frames : List Frame) : List (Place × Player) :=
  frames.zipIdx.flatMap fun frame => frame.1.messages.zipIdx.flatMap fun message =>
    ((entriesOf message.1).zipIdx.filter (·.1.text ≠ "")).map fun entry =>
      (⟨frame.2, message.2, entry.2⟩, ⟨entry.1.index, entry.1.text, frame.1.tick⟩)

/-- What does not look at the indices is the same of the list alone. -/
theorem flatMap_zipIdx {α β : Type} (l : List α) (f : α → List β) :
    (l.zipIdx.flatMap fun x => f x.1) = l.flatMap f := by
  rw [← List.flatMap_map Prod.fst f, List.zipIdx_map_fst]

theorem map_filter_zipIdx {α β : Type} (l : List α) (p : α → Bool) (f : α → β) :
    ((l.zipIdx.filter fun x => p x.1).map fun x => f x.1) = (l.filter p).map f := by
  have fronts := List.filter_map (f := Prod.fst) (p := p) (l := l.zipIdx)
  rw [List.zipIdx_map_fst] at fronts
  rw [fronts, List.map_map]
  rfl

theorem named_eq (tick : Tick) (m : Message) :
    named tick m = ((entriesOf m).filter (·.text ≠ "")).map fun entry => ⟨entry.index, entry.text, tick⟩ := by
  cases m with
  | table name entries => by_cases players : name = StringTables.players <;> simp [named, entriesOf, players]
  | _ => rfl

theorem map_writes (frames : List Frame) : (writes frames).map Prod.snd = appearances frames := by
  unfold writes appearances
  simp only [List.map_flatMap, List.map_map]
  rw [← flatMap_zipIdx frames]
  refine List.flatMap_congr fun frame _ => ?_
  rw [← flatMap_zipIdx frame.1.messages]
  refine List.flatMap_congr fun message _ => ?_
  rw [named_eq]
  exact map_filter_zipIdx (entriesOf message.1) (fun entry => decide (entry.text ≠ ""))
    fun entry => (⟨entry.index, entry.text, frame.1.tick⟩ : Player)

theorem pairwise_zipIdx {α : Type} (l : List α) : l.zipIdx.Pairwise fun x y => x.2 < y.2 := by
  rw [← List.pairwise_map (R := (· < ·)), List.zipIdx_map_snd]
  exact List.pairwise_lt_range'

/-- Writes are listed in the order of their places. -/
theorem writes_ordered (frames : List Frame) : (writes frames).Pairwise fun a b => a.1.Before b.1 := by
  refine List.pairwise_flatMap.mpr ⟨fun frame _ => List.pairwise_flatMap.mpr ⟨fun message _ => ?_, ?_⟩, ?_⟩
  · refine List.pairwise_map.mpr (((pairwise_zipIdx _).filter _).imp fun less => ?_)
    exact .inr ⟨rfl, .inr ⟨rfl, less⟩⟩
  · refine (pairwise_zipIdx _).imp fun less a first b second => ?_
    obtain ⟨_, -, rfl⟩ := List.mem_map.mp first
    obtain ⟨_, -, rfl⟩ := List.mem_map.mp second
    exact .inr ⟨rfl, .inl less⟩
  · refine (pairwise_zipIdx _).imp fun less a first b second => ?_
    obtain ⟨_, -, first⟩ := List.mem_flatMap.mp first
    obtain ⟨_, -, second⟩ := List.mem_flatMap.mp second
    obtain ⟨_, -, rfl⟩ := List.mem_map.mp first
    obtain ⟨_, -, rfl⟩ := List.mem_map.mp second
    exact .inl less

theorem mem_entriesOf {m : Message} {k : Nat} {entry : TableEntry} : (entriesOf m)[k]? = some entry ↔
    ∃ entries, m = .table StringTables.players entries ∧ entries[k]? = some entry := by
  cases m with
  | table name entries => by_cases players : name = StringTables.players <;> simp [entriesOf, players]
  | _ => simp [entriesOf]

/-- A write is listed with its place and the tick of its frame, if it is not empty. -/
theorem mem_writes {frames : List Frame} {place : Place} {p : Player} : (place, p) ∈ writes frames ↔
    p.name ≠ "" ∧ WrittenAt frames p.seat place ∧
      ∀ frame, frames[place.frame]? = some frame → p.firstTick = frame.tick := by
  simp only [writes, List.mem_flatMap, List.mem_map, List.mem_filter, List.mem_zipIdx_iff_getElem?, decide_eq_true_eq]
  constructor
  · rintro ⟨⟨frame, i⟩, here, ⟨message, j⟩, there, ⟨entry, k⟩, ⟨found, named⟩, same⟩
    obtain ⟨rfl, rfl⟩ := Prod.mk.inj same
    obtain ⟨entries, rfl, found⟩ := mem_entriesOf.mp found
    refine ⟨named, ⟨frame, entries, here, there, found⟩, fun other also => ?_⟩
    rw [here] at also
    rw [Option.some.inj also]
  · rintro ⟨named, ⟨frame, entries, here, there, found⟩, tick⟩
    refine ⟨(frame, place.frame), here, (.table StringTables.players entries, place.message), there,
      (⟨p.slot, p.name⟩, place.entry), ⟨mem_entriesOf.mpr ⟨entries, rfl, found⟩, named⟩, ?_⟩
    rw [← tick frame here]

/-- A name that a slot is given is listed. -/
theorem exists_listed {frames : List Frame} {seat : Seat} {place : Place} (written : WrittenAt frames seat place)
    (named : seat.2 ≠ "") : ∃ p, p.seat = seat ∧ (place, p) ∈ writes frames := by
  obtain ⟨frame, entries, here, there, found⟩ := written
  refine ⟨⟨seat.1, seat.2, frame.tick⟩, rfl, mem_writes.mpr ⟨named, ⟨frame, entries, here, there, found⟩, ?_⟩⟩
  intro other also
  rw [here] at also
  rw [Option.some.inj also]

/-- What stands behind a part of the list is written behind it. -/
theorem split_writes {frames : List Frame} {before after : List Player} {p : Player}
    (split : appearances frames = before ++ p :: after) : ∃ place, (place, p) ∈ writes frames ∧
      ∀ place' q, (place', q) ∈ writes frames → q ∈ before ∨ (place' = place ∧ q = p) ∨ place.Before place' := by
  have ordered := writes_ordered frames
  rw [← map_writes] at split
  obtain ⟨front, rest, whole, rfl, back⟩ := List.map_eq_append_iff.mp split
  obtain ⟨⟨place, p'⟩, later, rfl, rfl, -⟩ := List.map_eq_cons_iff.mp back
  rw [whole] at ordered ⊢
  refine ⟨place, by simp, fun place' q member => ?_⟩
  rcases List.mem_append.mp member with earlier | member
  · exact .inl (List.mem_map_of_mem earlier)
  · rcases List.mem_cons.mp member with same | behind
    · exact .inr (.inl (Prod.mk.inj same))
    · exact .inr (.inr ((List.pairwise_cons.mp (List.pairwise_append.mp ordered).2.1).1 _ behind))

/-- Who is the first of its seat in the list is written first there, and before every seat that comes behind. -/
theorem exists_firstWrite {frames : List Frame} {before after : List Player} {p : Player}
    (split : appearances frames = before ++ p :: after) (first : ∀ r ∈ before, r.seat ≠ p.seat) :
    ∃ place, (place, p) ∈ writes frames ∧ FirstWrite frames p.seat place ∧
      ∀ seat other, seat.2 ≠ "" → seat ≠ p.seat → (∀ r ∈ before, r.seat ≠ seat) → WrittenAt frames seat other →
        place.Before other := by
  obtain ⟨place, member, least⟩ := split_writes split
  obtain ⟨named, written, -⟩ := mem_writes.mp member
  refine ⟨place, member, ⟨written, fun other also => ?_⟩, fun seat other called apart later also => ?_⟩
  · obtain ⟨q, same, there⟩ := exists_listed also named
    rcases least other q there with front | ⟨here, -⟩ | behind
    · exact absurd same (first q front)
    · exact .inl here
    · exact .inr behind
  · obtain ⟨q, same, there⟩ := exists_listed also called
    rcases least other q there with front | ⟨-, rfl⟩ | behind
    · exact absurd same (later q front)
    · exact absurd same.symm apart
    · exact behind

/-! ## Rosters -/

variable {frames : List Frame}

/-- A player is listed at the tick of the frame that writes it first. -/
theorem tick_of_mem_ofFrames {p : Player} (member : p ∈ ofFrames frames) : ∃ place frame,
    FirstWrite frames p.seat place ∧ frames[place.frame]? = some frame ∧ p.firstTick = frame.tick := by
  obtain ⟨before, after, split, earlier⟩ := first_of_mem_firsts member
  obtain ⟨place, listed, first, -⟩ := exists_firstWrite split earlier
  obtain ⟨-, ⟨frame, entries, here, -⟩, tick⟩ := mem_writes.mp listed
  exact ⟨place, frame, first, here, tick frame here⟩

theorem seat_mem_ofFrames {seat : Seat} : seat ∈ (ofFrames frames).map Player.seat ↔
    seat.2 ≠ "" ∧ ∃ place, WrittenAt frames seat place := by
  rw [ofFrames, seat_mem_firsts, ← map_writes]
  constructor
  · rintro ⟨-, there⟩
    rw [List.map_map] at there
    obtain ⟨⟨place, p⟩, listed, rfl⟩ := List.mem_map.mp there
    obtain ⟨named, written, -⟩ := mem_writes.mp listed
    exact ⟨named, place, written⟩
  · rintro ⟨named, place, written⟩
    obtain ⟨p, rfl, listed⟩ := exists_listed written named
    exact ⟨List.not_mem_nil, List.mem_map_of_mem (List.mem_map_of_mem listed)⟩

theorem ofFrames_ordered : (ofFrames frames).Pairwise fun p q =>
    ∀ a b, FirstWrite frames p.seat a → FirstWrite frames q.seat b → a.Before b := by
  refine pairwise_firsts.imp_of_mem fun {p q} _ member ahead a b first second => ?_
  obtain ⟨apart, before, after, split, earlier⟩ := ahead
  obtain ⟨place, -, least, behind⟩ := exists_firstWrite split fun r there => (earlier r there).1
  have named : q.seat.2 ≠ "" := (seat_mem_ofFrames.mp (List.mem_map_of_mem member)).1
  rw [first.unique least]
  exact behind q.seat b named (Ne.symm apart) (fun r there => (earlier r there).2) second.1

/-- The tick of what is written before is not greater. -/
theorem tick_le_of_before {a b : Place} {f g : Frame} (ascending : frames.Pairwise fun f g => f.tick < g.tick)
    (before : a.Before b) (here : frames[a.frame]? = some f) (there : frames[b.frame]? = some g) : f.tick ≤ g.tick := by
  rcases before with less | ⟨same, -⟩
  · obtain ⟨inside, rfl⟩ := List.getElem?_eq_some_iff.mp here
    obtain ⟨within, rfl⟩ := List.getElem?_eq_some_iff.mp there
    exact UInt32.le_of_lt (List.pairwise_iff_getElem.mp ascending _ _ inside within less)
  · rw [same, there] at here
    rw [Option.some.inj here]
    exact UInt32.le_refl _

theorem ticks_ordered (ascending : frames.Pairwise fun f g => f.tick < g.tick) :
    (ofFrames frames).Pairwise fun p q => p.firstTick ≤ q.firstTick := by
  refine ofFrames_ordered.imp_of_mem fun left right before => ?_
  obtain ⟨a, f, first, here, tick⟩ := tick_of_mem_ofFrames left
  obtain ⟨b, g, second, there, tick'⟩ := tick_of_mem_ofFrames right
  rw [tick, tick']
  exact tick_le_of_before ascending (before a b first second) here there

/-- A slot of a table is written by a message. -/
theorem mem_slotWrites {messages : List Message} {table : String} {index : UInt16} {text : String}
    (written : (⟨table, index⟩, text) ∈ History.slotWrites messages) :
    ∃ entries, Message.table table entries ∈ messages ∧ (⟨index, text⟩ : TableEntry) ∈ entries := by
  obtain ⟨m, here, there⟩ := List.mem_flatMap.mp written
  cases m with
  | table name entries =>
    obtain ⟨entry, member, same⟩ := List.mem_map.mp there
    obtain ⟨slot, rfl⟩ := Prod.mk.inj same
    obtain ⟨rfl, rfl⟩ := SlotRef.mk.inj slot
    exact ⟨entries, here, member⟩
  | _ => cases there

/-- What the table of players holds in the end was written there. -/
theorem writtenAt_of_slots {scene : Scene} (done : Scene.empty.replay frames = .ok scene) {seat : Seat}
    (left : seat ∈ scene.tables.slots StringTables.players) : ∃ place, WrittenAt frames seat place := by
  obtain ⟨⟨⟨table, index⟩, text⟩, held, rfl⟩ := List.mem_map.mp left
  obtain ⟨held, players⟩ := List.mem_filter.mp held
  obtain rfl : table = StringTables.players := of_decide_eq_true players
  have remembers := Scene.remembers_replay Scene.remembers_empty done
  have last : History.lastText (frames.flatMap Frame.messages) StringTables.players index = some text := by
    rw [← List.nil_append (frames.flatMap Frame.messages), ← remembers.slots]
    exact (SortedMap.mem_entries_iff _ _ _).mp held
  obtain ⟨entries, message, entry⟩ := mem_slotWrites (mem_of_lastOf last)
  obtain ⟨frame, here, message⟩ := List.mem_flatMap.mp message
  exact exists_writtenAt.mpr ⟨frame, here, entries, message, entry⟩

theorem roster_eq_ok {data : Bytes} {players : List Player} :
    roster data = .ok players ↔ ∃ frames, framesOf data = .ok frames ∧ players = ofFrames frames := by
  unfold roster
  cases framesOf data <;> simp [bind, Except.bind, pure, Except.pure, eq_comm]

theorem framesOf_ascending {data : Bytes} (read : framesOf data = .ok frames) :
    frames.Pairwise fun f g => f.tick < g.tick := by
  obtain ⟨recording, -, transcript⟩ := framesOf_eq_ok.mp read
  have ascending := recording.stream.ticks_ascend
  rwa [show recording.stream.transcript = ⟨frames, none⟩ from transcript] at ascending

/-- **A roster has each slot and name that is written, at its first write and in the order of the first writes.** -/
theorem roster_first_writes {data : Bytes} {players : List Player} (listed : roster data = .ok players) :
    ∃ frames, framesOf data = .ok frames ∧
      (players.map Player.seat).Nodup ∧ (∀ p ∈ players, p.name ≠ "") ∧
      (∀ seat, seat ∈ players.map Player.seat ↔ seat.2 ≠ "" ∧ ∃ place, WrittenAt frames seat place) ∧
      (∀ p ∈ players, ∃ place frame,
        FirstWrite frames p.seat place ∧ frames[place.frame]? = some frame ∧ p.firstTick = frame.tick) ∧
      (players.Pairwise fun p q =>
        ∀ a b, FirstWrite frames p.seat a → FirstWrite frames q.seat b → a.Before b) ∧
      (players.Pairwise fun p q => p.firstTick ≤ q.firstTick) ∧
      ∀ scene, Scene.empty.replay frames = .ok scene →
        ∀ seat ∈ scene.tables.slots StringTables.players, seat.2 ≠ "" → seat ∈ players.map Player.seat := by
  obtain ⟨frames, read, rfl⟩ := roster_eq_ok.mp listed
  refine ⟨frames, read, ?_, ?_, fun seat => seat_mem_ofFrames, fun p => tick_of_mem_ofFrames, ofFrames_ordered,
    ticks_ordered (framesOf_ascending read), ?_⟩
  · exact List.pairwise_map.mpr (pairwise_firsts.imp fun ahead => ahead.1)
  · intro p member
    exact (seat_mem_ofFrames.mp (List.mem_map_of_mem member)).1
  · intro scene done seat left named
    exact seat_mem_ofFrames.mpr ⟨named, writtenAt_of_slots done left⟩

/-- A recording in which a slot is cleared and two names change their slots, one of them going back. -/
def returning : Bytes :=
  let players := [0x04, 8, 0] ++ Utf8.encode StringTables.players
  Header.signature ++ [3, 0, 0, 0] ++ List.replicate 1056 0 ++
    [0x02, 10, 0, 0, 0] ++ players ++ [3, 0, 3, 0, 3, 0, 0x41, 0x6E, 0x6E, 3, 0, 0, 0, 4, 0, 2, 0, 0x42, 0x6F, 0x00] ++
    [0x02, 12, 0, 0, 0] ++ players ++
    [3, 0, 4, 0, 3, 0, 0x41, 0x6E, 0x6E, 3, 0, 2, 0, 0x42, 0x6F, 3, 0, 3, 0, 0x41, 0x6E, 0x6E, 0x00] ++ [0x07]

/-- The name that goes back is not listed again, and a seat that is not listed was never written. -/
theorem roster_first_writes_returning :
    roster returning = .ok [⟨3, "Ann", 10⟩, ⟨4, "Bo", 10⟩, ⟨4, "Ann", 12⟩, ⟨3, "Bo", 12⟩] ∧
      ∃ frames, framesOf returning = .ok frames ∧
        (∃ place frame, FirstWrite frames (3, "Bo") place ∧ frames[place.frame]? = some frame ∧ 12 = frame.tick) ∧
        ¬ ∃ place, WrittenAt frames (5, "Ann") place := by
  have listed : roster returning = .ok [⟨3, "Ann", 10⟩, ⟨4, "Bo", 10⟩, ⟨4, "Ann", 12⟩, ⟨3, "Bo", 12⟩] := by
    decide +kernel
  obtain ⟨frames, read, -, -, seats, firsts, -⟩ := roster_first_writes listed
  refine ⟨listed, frames, read, firsts ⟨3, "Bo", 12⟩ (by decide), fun written => ?_⟩
  have there := (seats (5, "Ann")).mpr ⟨by decide, written⟩
  revert there
  decide

end Roster
end DemoTape
