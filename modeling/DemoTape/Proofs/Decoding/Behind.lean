/-
# Decoders behind other bytes

`Cursor.behind` is a cursor before which more bytes stand. A decoder does there what it does without them, only that
it counts from further in front: the cursor that it leaves, the place of a frame and the place of a fault are behind
these bytes too, and what the fault says apart from its place is the same (`Moves`). So the place where a recording
begins does not matter, nor what stands before it (`frame_behind`).
-/
import DemoTape.Proofs.Decoding.Forward

namespace DemoTape
set_option autoImplicit false

/-- The cursor with so many bytes more in front of its bytes. -/
def Cursor.behind (c : Cursor) (n : Nat) : Cursor where
  size := n + c.size
  offset := n + c.offset
  rest := c.rest
  length_rest := by
    rw [c.length_rest]
    omega

namespace Cursor
variable (c : Cursor) (n : Nat)

@[simp] theorem remaining_behind : (c.behind n).remaining = c.remaining := Nat.add_sub_add_left n c.size c.offset

@[simp] theorem atEnd_behind : (c.behind n).atEnd = c.atEnd := by simp [atEnd, behind]

theorem advance_behind (k : Nat) : (c.behind n).advance k = (c.advance k).behind n := by
  simp [advance, behind, Nat.add_assoc]

theorem fits_behind (k : Nat) : (c.behind n).offset + k ≤ (c.behind n).size ↔ c.offset + k ≤ c.size := by
  simp only [behind]
  omega

theorem ofBytes_append (front data : Bytes) (start : Nat) :
    ofBytes (front ++ data) (front.length + start) = (ofBytes data start).behind front.length := by
  simp [ofBytes, behind, List.drop_append]

end Cursor

/-- A fault with its place behind so many bytes. Its cause stays as it is. -/
def Fault.behind (n : Nat) : Fault → Fault
  | .endOfData offset expected available => .endOfData (n + offset) expected available
  | .corrupt offset cause => .corrupt (n + offset) cause
  | fault => fault

/-- A frame with its place behind so many bytes. Its tick and its messages stay as they are. -/
def Frame.behind (n : Nat) (f : Frame) : Frame := { f with offset := n + f.offset }

namespace Decoder
variable {α β : Type} {n : Nat}

/-- What is found behind so many bytes, when this is found without them. -/
def behind (n : Nat) (move : α → α) : EStateM.Result Fault Cursor α → EStateM.Result Fault Cursor α
  | .ok a after => .ok (move a) (after.behind n)
  | .error fault left => .error (fault.behind n) (left.behind n)

/-- Whether one decoder does behind so many bytes what the other one does without them. -/
def Moves (n : Nat) (decoder decoder' : Decoder α) : Prop := ∀ c, decoder' (c.behind n) = behind n id (decoder c)

theorem moves_bytes (k : Nat) : Moves n (bytes k) (bytes k) := by
  intro c
  by_cases fits : c.offset + k ≤ c.size
  · rw [bytes_ok fits, bytes_ok ((c.fits_behind n k).mpr fits), Cursor.advance_behind]
    rfl
  · rw [bytes_error fits, bytes_error (mt (c.fits_behind n k).mp fits), Cursor.remaining_behind]
    rfl

theorem moves_skip (k : Nat) : Moves n (skip k) (skip k) := by
  intro c
  by_cases fits : c.offset + k ≤ c.size
  · rw [skip, skip, if_pos fits, if_pos ((c.fits_behind n k).mpr fits), Cursor.advance_behind]
    rfl
  · rw [skip, skip, if_neg fits, if_neg (mt (c.fits_behind n k).mp fits), Cursor.remaining_behind]
    rfl

theorem moves_bind {decoder decoder' : Decoder α} {next next' : α → Decoder β} (first : Moves n decoder decoder')
    (second : ∀ a, Moves n (next a) (next' a)) : Moves n (decoder >>= next) (decoder' >>= next') := by
  intro c
  rw [bind_apply, bind_apply, first c]
  cases decoder c with
  | ok a between => exact second a between
  | error fault between => rfl

theorem moves_atomically {decoder decoder' : Decoder α} (whole : Moves n decoder decoder') :
    Moves n decoder.atomically decoder'.atomically := by
  intro c
  rw [atomically, atomically, whole c]
  cases decoder c <;> rfl

/-- A place that is noted is noted behind these bytes. -/
theorem moves_offset {next next' : Nat → Decoder α} (second : ∀ place, Moves n (next place) (next' (n + place))) :
    Moves n (offset >>= next) (offset >>= next') :=
  fun c => second c.offset c

theorem moves_congruence : Congruence (fun _ => Moves n) fun place place' => place' = n + place where
  pure _ := fun _ => rfl
  corrupt _ met := fun _ => met ▸ rfl
  bytes := moves_bytes
  skip := moves_skip
  bind := moves_bind
  atomically := moves_atomically
  noted _ second := moves_offset fun place => moves_bind (moves_bytes _) fun read => second place _ read rfl

/-! ## Frames -/

theorem moves_packet (last : Option Tick) (start : Nat) : Moves n (packet last start) (packet last start) := by
  refine moves_congruence.packet (fun c => ?_) last start
  show EStateM.Result.ok (c.behind n).remaining _ = _
  rw [Cursor.remaining_behind]
  rfl

/-- The place of a packet is what it was given as such. -/
theorem packet_placed (last : Option Tick) (start place : Nat) :
    packet last place = (fun f : Frame => { f with offset := place }) <$> packet last start := by
  cases last with
  | none => simp only [packet, map_bind, map_pure]
  | some last => simp only [packet, map_bind, map_pure, apply_ite (Functor.map _)]

theorem packet_behind (last : Option Tick) (start : Nat) (c : Cursor) :
    packet last (n + start) (c.behind n) = behind n (Frame.behind n) (packet last start c) := by
  rw [packet_placed last start, map_apply, moves_packet last start c]
  cases read : packet last start c with
  | error fault left => rfl
  | ok f after =>
    obtain ⟨placed, -⟩ := packet_ok read
    simp only [behind, Frame.behind, id, placed]

theorem frame_behind (last : Option Tick) (c : Cursor) :
    frame last (c.behind n) = behind n (Option.map (Frame.behind n)) (frame last c) := by
  show (if (c.behind n).atEnd then corrupt (n + c.offset) .missingStop else _ : Decoder (Option Frame)) (c.behind n) =
    behind n _ ((if c.atEnd then corrupt c.offset .missingStop else _ : Decoder (Option Frame)) c)
  rw [Cursor.atEnd_behind]
  split
  · rfl
  · rw [bind_apply, bind_apply, moves_congruence.u8 c]
    cases u8 c with
    | error fault left => rfl
    | ok command between =>
      dsimp only [behind, id]
      split
      · rfl
      split
      · have moved : packet last (c.behind n).offset (between.behind n) = _ := packet_behind last c.offset between
        rw [map_apply, map_apply, moved]
        cases packet last c.offset between <;> rfl
      · rfl

end Decoder
end DemoTape
