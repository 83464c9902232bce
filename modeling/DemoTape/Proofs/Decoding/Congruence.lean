/-
# What decoders have in common

The decoders of a recording are put together in few ways: they read bytes or skip them, go on with what was read,
read a text as a whole, and report what they cannot understand, with the place where it stands. What these ways keep
holds of all of them. It is stated for relations between two decoders (`Congruence`): a relation that is kept holds
between each decoder and itself, where the two may report at different places (`Congruence.message`,
`Congruence.messages`). A property of decoders is a relation that looks at one of them only.

A place is noted before the bytes there are read, and a fault is reported there when they have been read and make no
sense. So a relation may rely on it that a place has bytes (`Congruence.noted`), and that it is not the missing stop
command that is reported. How many bytes are left is asked for only by a packet (`Congruence.packet`).
-/
import DemoTape.Frame

namespace DemoTape
namespace Decoder
set_option autoImplicit false

/-- A relation between decoders that is kept by the ways in which the decoders of a recording are put together.
Places at which faults are reported are related by `places`. -/
structure Congruence (related : (α : Type) → Decoder α → Decoder α → Prop) (places : Nat → Nat → Prop) : Prop where
  pure {α : Type} (a : α) : related α (Pure.pure a) (Pure.pure a)
  corrupt {α : Type} {place place' : Nat} {cause : Corruption} (present : cause ≠ .missingStop)
    (met : places place place') : related α (Decoder.corrupt place cause) (Decoder.corrupt place' cause)
  bytes (n : Nat) : related Bytes (Decoder.bytes n) (Decoder.bytes n)
  skip (n : Nat) : related Unit (Decoder.skip n) (Decoder.skip n)
  bind {α β : Type} {decoder decoder' : Decoder α} {next next' : α → Decoder β} (first : related α decoder decoder')
    (second : ∀ a, related β (next a) (next' a)) : related β (decoder >>= next) (decoder' >>= next')
  atomically {α : Type} {decoder decoder' : Decoder α} (whole : related α decoder decoder') :
    related α decoder.atomically decoder'.atomically
  /-- A place is noted, and then some bytes are read there. -/
  noted {α : Type} {n : Nat} {next : Nat → Bytes → Decoder α} (positive : 0 < n)
    (second : ∀ place place' read, places place place' → related α (next place read) (next place' read)) :
    related α (offset >>= fun place => Decoder.bytes n >>= next place)
      (offset >>= fun place => Decoder.bytes n >>= next place)

namespace Congruence
variable {related : (α : Type) → Decoder α → Decoder α → Prop} {places : Nat → Nat → Prop} {α β : Type}

/-! ## Sequences -/

theorem map (kept : Congruence related places) (f : α → β) {decoder decoder' : Decoder α}
    (same : related α decoder decoder') : related β (f <$> decoder) (f <$> decoder') := by
  rw [← bind_pure_comp, ← bind_pure_comp]
  exact kept.bind same fun a => kept.pure (f a)

theorem replicate (kept : Congruence related places) {decoder decoder' : Decoder α}
    (same : related α decoder decoder') (n : Nat) :
    related (List α) (Decoder.replicate decoder n) (Decoder.replicate decoder' n) := by
  induction n with
  | zero => exact kept.pure []
  | succ n ih => exact kept.bind same fun a => kept.bind ih fun rest => kept.pure (a :: rest)

/-- What is read behind a noted place may be made into something else. -/
theorem noted_word (kept : Congruence related places) {width : Nat} {f : Nat → β} {next : Nat → β → Decoder α}
    (positive : 0 < width)
    (second : ∀ place place' b, places place place' → related α (next place b) (next place' b)) :
    related α (offset >>= fun place => (f <$> word width) >>= next place)
      (offset >>= fun place => (f <$> word width) >>= next place) := by
  have read : related α (offset >>= fun place => Decoder.bytes width >>= fun read => next place (f (Bytes.toNat read)))
      (offset >>= fun place => Decoder.bytes width >>= fun read => next place (f (Bytes.toNat read))) :=
    kept.noted positive fun place place' read met => second place place' _ met
  simpa only [word, bind_map_left] using read

/-! ## Single reads -/

theorem word (kept : Congruence related places) (width : Nat) :
    related Nat (Decoder.word width) (Decoder.word width) := kept.map _ (kept.bytes width)

theorem u8 (kept : Congruence related places) : related UInt8 Decoder.u8 Decoder.u8 := kept.map _ (kept.word 1)

theorem u16 (kept : Congruence related places) : related UInt16 Decoder.u16 Decoder.u16 := kept.map _ (kept.word 2)

theorem u32 (kept : Congruence related places) : related UInt32 Decoder.u32 Decoder.u32 := kept.map _ (kept.word 4)

theorem f32 (kept : Congruence related places) : related Binary32 Decoder.f32 Decoder.f32 :=
  kept.map _ (kept.word 4)

theorem text (kept : Congruence related places) : related String Decoder.text Decoder.text := by
  refine kept.atomically (kept.noted_word (by decide) fun start start' size met => ?_)
  refine kept.bind (kept.bytes _) fun body => ?_
  split
  · exact kept.pure _
  · exact kept.corrupt nofun met

/-! ## The decoders of a recording -/

theorem propertyKey (kept : Congruence related places) :
    related PropertyKey Decoder.propertyKey Decoder.propertyKey := by
  refine kept.noted_word (by decide) fun start start' tag met => ?_
  split
  · exact kept.map _ kept.text
  · exact kept.map _ kept.u16
  · exact kept.corrupt nofun met

theorem boolean (kept : Congruence related places) : related Bool Decoder.boolean Decoder.boolean := by
  refine kept.noted_word (by decide) fun start start' byte met => ?_
  split
  · exact kept.pure _
  · exact kept.pure _
  · exact kept.corrupt nofun met

theorem vec3 (kept : Congruence related places) : related Vec3 Decoder.vec3 Decoder.vec3 :=
  kept.bind kept.f32 fun _ => kept.bind kept.f32 fun _ => kept.bind kept.f32 fun _ => kept.pure _

theorem value (kept : Congruence related places) : related Value Decoder.value Decoder.value := by
  refine kept.noted_word (by decide) fun start start' tag met => ?_
  split
  · exact kept.map _ (kept.map _ kept.u32)
  · exact kept.map _ kept.f32
  · exact kept.map _ kept.text
  · exact kept.map _ kept.boolean
  · exact kept.map _ kept.vec3
  · exact kept.corrupt nofun met

theorem assignments (kept : Congruence related places) :
    related (List Assignment) (counted assignment) (counted assignment) :=
  kept.bind kept.u16 fun _ => kept.replicate
    (kept.bind kept.propertyKey fun _ => kept.bind kept.value fun _ => kept.pure _) _

theorem tableEntries (kept : Congruence related places) :
    related (List TableEntry) (counted tableEntry) (counted tableEntry) :=
  kept.bind kept.u16 fun _ => kept.replicate
    (kept.bind kept.u16 fun _ => kept.bind kept.text fun _ => kept.pure _) _

theorem message (kept : Congruence related places) (start start' : Nat) (met : places start start') (kind : UInt8) :
    related Message (Decoder.message start kind) (Decoder.message start' kind) := by
  unfold Decoder.message
  split
  case isTrue =>
    exact kept.bind kept.u32 fun entity => kept.bind kept.text fun cls =>
      kept.bind kept.assignments fun properties => kept.pure _
  split
  case isTrue => exact kept.bind kept.u32 fun entity => kept.bind kept.assignments fun properties => kept.pure _
  split
  case isTrue => exact kept.map _ kept.u32
  split
  case isTrue => exact kept.bind kept.text fun name => kept.bind kept.tableEntries fun entries => kept.pure _
  split
  case isTrue =>
    exact kept.bind kept.u32 fun sequence => kept.bind kept.u16 fun size =>
      kept.bind (kept.bytes _) fun input => kept.pure _
  split
  case isTrue => exact kept.bind kept.u32 fun length => kept.bind (kept.skip _) fun _ => kept.pure _
  case isFalse => exact kept.corrupt nofun met

theorem messages (kept : Congruence related places) (rounds : Nat) :
    related (List Message) (Decoder.messages rounds) (Decoder.messages rounds) := by
  induction rounds with
  | zero => exact kept.pure []
  | succ rounds ih =>
    refine kept.noted_word (by decide) fun start start' kind met => ?_
    split
    · exact kept.pure []
    · exact kept.bind (kept.message start start' met kind) fun first =>
        kept.bind ih fun rest => kept.pure (first :: rest)

/-- A packet is put together in these ways too, but for the look at how much is left. -/
theorem packet (kept : Congruence related places) (left : related Nat remaining remaining) (last : Option Tick)
    (start : Nat) : related Frame (Decoder.packet last start) (Decoder.packet last start) := by
  refine kept.noted_word (by decide) fun tickStart tickStart' tick met => ?_
  have body : related Frame (remaining >>= fun left => Decoder.messages (left + 1) >>= fun messages =>
      Pure.pure { tick, messages, offset := start })
      (remaining >>= fun left => Decoder.messages (left + 1) >>= fun messages =>
        Pure.pure { tick, messages, offset := start }) :=
    kept.bind left fun left => kept.bind (kept.messages _) fun messages => kept.pure _
  cases last with
  | none => exact body
  | some last =>
    dsimp only
    split
    · exact kept.bind (kept.corrupt nofun met) fun _ => body
    · exact body

end Congruence
end Decoder
end DemoTape
