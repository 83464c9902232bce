/-
# Where decoders fail

A decoder reports a fault at a place, and the place is right (`Fault.Truthful`): where data end too early, it stands
in front of the bytes that are missing, and so many are left there; where bytes make no sense, it is the place of one
of them. In a frame, both are behind the place where its command was expected, or at this place, if the command itself
makes no sense; and if there is no command at all, this place is the end of the data (`truthful_of_frame`).

This holds of all decoders whose cursor stands behind the command, since that cursor only moves on (`Located`).
-/
import DemoTape.Proofs.Decoding.Forward

namespace DemoTape
set_option autoImplicit false

/-- Whether a fault is placed truly, if it is that of a frame that begins at `start`, in data of so many bytes. -/
def Fault.Truthful (start size : Nat) : Fault → Prop
  | .endOfData offset expected available =>
    start < offset ∧ offset ≤ size ∧ available = size - offset ∧ available < expected
  | .corrupt offset .missingStop => offset = start ∧ offset = size
  | .corrupt offset _ => start ≤ offset ∧ offset < size
  | _ => False

theorem Fault.Truthful.category {start size : Nat} {fault : Fault} (truthful : fault.Truthful start size) :
    fault.category = .corruptData := by
  cases fault with
  | endOfData | corrupt => rfl
  | signature | protocol | kindChange | query | period => cases truthful

theorem Fault.truthful_of_present {start size offset : Nat} {cause : Corruption} (present : cause ≠ .missingStop)
    (inside : start ≤ offset ∧ offset < size) : (Fault.corrupt offset cause).Truthful start size := by
  cases cause with
  | missingStop => exact absurd rfl present
  | shortHeader | unknownCommand | tickNotAfter | unknownMessage | unknownKeyTag | unknownValueTag | invalidBoolean
  | invalidText | untrackedEntity | unnamedProperty => exact inside

/-- Whether a cursor stands behind a start, in data of so many bytes. -/
structure Cursor.Inside (start size : Nat) (c : Cursor) : Prop where
  size_eq : c.size = size
  behind : start < c.offset
  within : c.offset ≤ size

theorem Cursor.Inside.advance {start size : Nat} {c : Cursor} (inside : c.Inside start size) {n : Nat}
    (fits : c.offset + n ≤ c.size) : (c.advance n).Inside start size :=
  ⟨inside.size_eq, Nat.lt_add_right n inside.behind, inside.size_eq ▸ fits⟩

namespace Decoder
variable {α β : Type} {start size : Nat}

/-- Whether a decoder keeps its cursor behind the start and within the data, or places its fault truly. -/
def Located (start size : Nat) (decoder : Decoder α) : Prop :=
  ∀ ⦃c⦄, c.Inside start size → match decoder c with
    | .ok _ after => after.Inside start size
    | .error fault _ => fault.Truthful start size

theorem Located.truthful {decoder : Decoder α} (located : decoder.Located start size) {c left : Cursor} {fault : Fault}
    (inside : c.Inside start size) (failed : decoder c = .error fault left) : fault.Truthful start size := by
  have here := located inside
  rw [failed] at here
  exact here

/-- Missing bytes are those behind the cursor. -/
theorem truthful_endOfData {c : Cursor} {n : Nat} (inside : c.Inside start size) (short : ¬ c.offset + n ≤ c.size) :
    (Fault.endOfData c.offset n c.remaining).Truthful start size := by
  obtain ⟨rfl, behind, within⟩ := inside
  refine ⟨behind, within, rfl, ?_⟩
  unfold Cursor.remaining
  omega

theorem located_bytes (n : Nat) : (bytes n).Located start size := by
  intro c inside
  by_cases fits : c.offset + n ≤ c.size
  · rw [bytes_ok fits]
    exact inside.advance fits
  · rw [bytes_error fits]
    exact truthful_endOfData inside fits

theorem located_skip (n : Nat) : (skip n).Located start size := by
  intro c inside
  unfold skip
  by_cases fits : c.offset + n ≤ c.size
  · rw [if_pos fits]
    exact inside.advance fits
  · rw [if_neg fits]
    exact truthful_endOfData inside fits

theorem located_bind {decoder : Decoder α} {next : α → Decoder β} (first : decoder.Located start size)
    (second : ∀ a, (next a).Located start size) : (decoder >>= next).Located start size := by
  intro c inside
  have here := first inside
  rw [bind_apply]
  cases read : decoder c with
  | ok a between =>
    rw [read] at here
    exact second a here
  | error fault left =>
    rw [read] at here
    exact here

theorem located_atomically {decoder : Decoder α} (whole : decoder.Located start size) :
    decoder.atomically.Located start size := by
  intro c inside
  have here := whole inside
  rw [atomically]
  cases read : decoder c with
  | ok a after =>
    rw [read] at here
    exact here
  | error fault left =>
    rw [read] at here
    exact here

/-- A place that has been noted is that of a byte, once the bytes there have been read. -/
theorem located_noted {n : Nat} {next : Nat → Bytes → Decoder α} (positive : 0 < n)
    (second : ∀ place read, start ≤ place ∧ place < size → (next place read).Located start size) :
    (offset >>= fun place => bytes n >>= next place).Located start size := by
  intro c inside
  show match (bytes n >>= next c.offset) c with
    | .ok _ after => after.Inside start size
    | .error fault _ => fault.Truthful start size
  rw [bind_apply]
  by_cases fits : c.offset + n ≤ c.size
  · have moved := inside.advance fits
    have placed : start ≤ c.offset ∧ c.offset < size :=
      ⟨Nat.le_of_lt inside.behind, Nat.lt_of_lt_of_le (Nat.lt_add_of_pos_right positive) moved.within⟩
    rw [bytes_ok fits]
    exact second c.offset _ placed moved
  · rw [bytes_error fits]
    exact truthful_endOfData inside fits

theorem located_congruence :
    Congruence (fun _ decoder _ => decoder.Located start size) fun place _ => start ≤ place ∧ place < size where
  pure _ := fun _ inside => inside
  corrupt present placed := fun _ _ => Fault.truthful_of_present present placed
  bytes := located_bytes
  skip := located_skip
  bind := located_bind
  atomically := located_atomically
  noted positive second := located_noted positive fun place read placed => second place place read placed

/-! ## Frames -/

/-- What stands behind the command of a frame. -/
theorem located_command (last : Option Tick) {place : Nat} (placed : start ≤ place ∧ place < size) (command : UInt8) :
    (if command = Frame.stopCommand then pure none
      else if command = Frame.packetCommand then some <$> packet last place
      else corrupt place (.unknownCommand command) : Decoder (Option Frame)).Located start size := by
  split
  · exact located_congruence.pure none
  split
  · rw [← bind_pure_comp]
    exact located_bind (located_congruence.packet (fun _ inside => inside) last place) fun f =>
      located_congruence.pure (some f)
  · exact fun _ _ => Fault.truthful_of_present nofun placed

/-- A frame that cannot be decoded is reported truly. -/
theorem truthful_of_frame {last : Option Tick} {c left : Cursor} {fault : Fault} (within : c.offset ≤ c.size)
    (failed : frame last c = .error fault left) : fault.Truthful c.offset c.size := by
  change (if c.atEnd then corrupt c.offset .missingStop else u8 >>= _ : Decoder (Option Frame)) c = _ at failed
  split at failed
  · rename_i ended
    cases failed
    exact ⟨rfl, Nat.le_antisymm within (of_decide_eq_true ended)⟩
  · rename_i more
    have begun : c.offset < c.size := Nat.lt_of_not_le fun ended => more (decide_eq_true ended)
    have read : u8 c = .ok (UInt8.ofNat (Bytes.toNat (c.rest.take 1))) (c.advance 1) := by
      rw [u8, word, map_apply, map_apply, bytes_ok begun]
    have inside : (c.advance 1).Inside c.offset c.size := ⟨rfl, Nat.lt_succ_self _, begun⟩
    rw [bind_apply, read] at failed
    exact (located_command last ⟨Nat.le_refl c.offset, begun⟩ _).truthful inside failed

end Decoder
end DemoTape
