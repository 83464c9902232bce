/-
# What a message takes

Whatever a message holds has been stored: a skipped byte, a byte of a text, and every property and entry, behind
five bytes for the kind and the numbers or lengths that no message is without. So a stored message takes
`Message.least` bytes at least (`least_le_encode`), and a frame six more, for its command, its tick and its end mark
(`least_le_frames`). A count or a length that claims more than there is, is not read.
-/
import DemoTape.Proofs.Wire.Layout
import DemoTape.Summary

namespace DemoTape
set_option autoImplicit false

-- sums begin with the zero of the core library, whatever else is loaded
attribute [local instance (high)] Zero.ofOfNat0

/-! ## What messages hold -/

/-- How many bytes a text has. -/
def textSize (s : String) : Nat := (Utf8.encode s).length

def PropertyKey.textBytes : PropertyKey → Nat
  | .name s => textSize s
  | .slot _ => 0

def Value.textBytes : Value → Nat
  | .text s => textSize s
  | _ => 0

def Assignment.textBytes (a : Assignment) : Nat := a.key.textBytes + a.value.textBytes

def TableEntry.textBytes (e : TableEntry) : Nat := textSize e.text

namespace Message

/-- The bytes of all the texts of a message. -/
def textBytes : Message → Nat
  | .baseline _ cls properties => textSize cls + (properties.map Assignment.textBytes).sum
  | .delta _ properties => (properties.map Assignment.textBytes).sum
  | .table name entries => textSize name + (entries.map TableEntry.textBytes).sum
  | _ => 0

/-- How many properties or entries a message has. -/
def items : Message → Nat
  | .baseline _ _ properties => properties.length
  | .delta _ properties => properties.length
  | .table _ entries => entries.length
  | _ => 0

/-- The properties, entries and bytes of texts of a message, taken together. -/
def held (m : Message) : Nat := m.items + m.textBytes

def least (m : Message) : Nat := 5 + m.skippedBytes + m.held

theorem sum_least (ms : List Message) :
    (ms.map least).sum = 5 * ms.length + (ms.map skippedBytes).sum + (ms.map held).sum := by
  induction ms with
  | nil => rfl
  | cons m ms ih =>
    simp only [List.map_cons, List.sum_cons, List.length_cons, ih, least]
    omega

end Message

namespace Wire

/-! ## What is stored -/

theorem length_text (t : Text) : t.encode.length = 2 + textSize t.content := by
  rw [Text.encode, List.length_append, Bytes.length_ofNat, textSize]

theorem textBytes_le_key (k : Key) : 1 + k.content.textBytes ≤ k.encode.length := by
  cases k with
  | name t =>
    simp only [Key.content, Key.encode, PropertyKey.textBytes, List.length_cons, length_text]
    omega
  | slot index =>
    simp only [Key.content, Key.encode, PropertyKey.textBytes, List.length_cons]
    omega

theorem textBytes_le_value (v : Value) : v.content.textBytes ≤ v.encode.length := by
  cases v with
  | text t =>
    simp only [Value.content, Value.encode, DemoTape.Value.textBytes, List.length_cons, length_text]
    omega
  | _ => exact Nat.zero_le _

theorem textBytes_le_assignment (a : Assignment) : 1 + a.content.textBytes ≤ a.encode.length := by
  have key := textBytes_le_key a.key
  have value := textBytes_le_value a.value
  simp only [Assignment.content, Assignment.encode, DemoTape.Assignment.textBytes, List.length_append]
  omega

theorem textBytes_le_tableEntry (e : TableEntry) : 1 + e.content.textBytes ≤ e.encode.length := by
  simp only [TableEntry.content, TableEntry.encode, DemoTape.TableEntry.textBytes, List.length_append,
    Bytes.length_ofNat, length_text]
  omega

/-- Items that take a byte each beyond what they hold. -/
theorem items_le {α : Type} {item : α → Bytes} {size : α → Nat} (each : ∀ a, 1 + size a ≤ (item a).length)
    (c : Counted α) : 2 + c.items.length + (c.items.map size).sum ≤ (c.encode item).length := by
  have all : c.items.length + (c.items.map size).sum ≤ (c.items.flatMap item).length := by
    induction c.items with
    | nil => exact Nat.zero_le _
    | cons a items ih =>
      have first := each a
      simp only [List.length_cons, List.map_cons, List.sum_cons, List.flatMap_cons, List.length_append]
      omega
  rw [Counted.encode, List.length_append, Bytes.length_ofNat]
  omega

section Messages

attribute [local simp] Message.content Message.encode Message.body DemoTape.Message.skippedBytes
  DemoTape.Message.items DemoTape.Message.textBytes Bytes.length_ofNat length_text

theorem least_le_encode (m : Message) : m.content.least ≤ m.encode.length := by
  unfold DemoTape.Message.least DemoTape.Message.held
  cases m with
  | baseline entity cls properties =>
    have assignments := items_le textBytes_le_assignment properties
    simp [Function.comp_def]
    omega
  | delta entity properties =>
    have assignments := items_le textBytes_le_assignment properties
    simp [Function.comp_def]
    omega
  | remove entity => simp
  | table name entries =>
    have items := items_le textBytes_le_tableEntry entries
    simp [Function.comp_def]
    omega
  | command sequence input => simp
  | other kind payload skipped short =>
    have size : (UInt32.ofNat payload.length).toNat = payload.length := UInt32.toNat_ofNat_of_lt' short
    simp [size]
    omega

end Messages

theorem least_le_frame (f : Frame) : 6 + (f.content.2.map DemoTape.Message.least).sum ≤ f.encode.length := by
  have all : ((f.messages.map Message.content).map DemoTape.Message.least).sum ≤
      (f.messages.flatMap Message.encode).length := by
    induction f.messages with
    | nil => exact Nat.zero_le _
    | cons m ms ih =>
      have first := least_le_encode m
      simp only [List.map_cons, List.sum_cons, List.flatMap_cons, List.length_append]
      omega
  simp only [Frame.content, Frame.encode, List.length_cons, List.length_append, Bytes.length_ofNat, List.length_nil]
  omega

/-- Frames take what their messages take at least, and six bytes each. -/
theorem least_le_frames (start : Nat) (frames : List Frame) :
    6 * (placed start frames).length +
        (((placed start frames).flatMap DemoTape.Frame.messages).map DemoTape.Message.least).sum ≤
      (encode frames).length := by
  induction frames generalizing start with
  | nil => exact Nat.zero_le _
  | cons f frames ih =>
    have first := least_le_frame f
    have rest := ih (start + f.encode.length)
    simp only [placed, encode_cons, List.flatMap_cons, List.map_append, List.sum_append, List.length_append,
      List.length_cons]
    omega

end Wire
end DemoTape
