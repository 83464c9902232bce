/-
# What frames do not tell

Of a stored frame the reader is not told the bytes of skipped payloads and, of a NaN, the bits. `Frame.masked`
forgets these two on the stored side; the read side has only the bits of NaN to forget. Frames that are read
alike up to the bits of NaN are stored alike up to both (`Frame.masked_of_content`), since everything else that
can be stored is told apart by what is read.
-/
import DemoTape.Proofs.Number.Widening
import DemoTape.Proofs.Wire.Layout

namespace DemoTape
set_option autoImplicit false

/-! ## What is forgotten -/

/-- The same vector, but every NaN is one and the same. -/
def Vec3.masked (v : Vec3) : Vec3 := ⟨v.x.masked, v.y.masked, v.z.masked⟩

def Value.masked : Value → Value
  | .float x => .float x.masked
  | .vector v => .vector v.masked
  | v => v

def Assignment.masked (a : Assignment) : Assignment := { a with value := a.value.masked }

/-- What a message says apart from the bits of NaN. -/
def Message.masked : Message → Message
  | .baseline entity cls properties => .baseline entity cls (properties.map Assignment.masked)
  | .delta entity properties => .delta entity (properties.map Assignment.masked)
  | m => m

/-- What a frame says apart from its place and the bits of NaN. -/
def Frame.masked (f : Frame) : Tick × List Message := (f.tick, f.messages.map Message.masked)

namespace Wire

def Value.masked : Value → Value
  | .float x => .float x.masked
  | .vector v => .vector v.masked
  | v => v

def Assignment.masked (a : Assignment) : Assignment := { a with value := a.value.masked }

def Counted.map {α β : Type} (f : α → β) (c : Counted α) : Counted β where
  items := c.items.map f
  few := by rw [List.length_map]; exact c.few

/-- The same message, but every skipped byte is zero and every NaN is one and the same. -/
def Message.masked : Message → Message
  | .baseline entity cls properties => .baseline entity cls (properties.map Assignment.masked)
  | .delta entity properties => .delta entity (properties.map Assignment.masked)
  | .other kind payload skipped short =>
    .other kind (List.replicate payload.length 0) skipped (by rw [List.length_replicate]; exact short)
  | m => m

def Frame.masked (f : Frame) : Frame := { f with messages := f.messages.map Message.masked }

/-! ## Contents tell all the rest -/

theorem map_eq_of_map {α β γ : Type} {f : α → β} {g : α → γ} (finer : ∀ a b, f a = f b → g a = g b)
    {as bs : List α} (same : as.map f = bs.map f) : as.map g = bs.map g := by
  induction as generalizing bs with
  | nil =>
    cases bs with
    | nil => rfl
    | cons b bs => cases same
  | cons a as ih =>
    cases bs with
    | nil => cases same
    | cons b bs =>
      simp only [List.map_cons, List.cons.injEq] at same ⊢
      exact ⟨finer a b same.1, ih same.2⟩

theorem Text.eq_of_content {s t : Text} (same : s.content = t.content) : s = t := by
  cases s
  cases t
  cases same
  rfl

theorem Counted.eq_of_items {α : Type} {c d : Counted α} (same : c.items = d.items) : c = d := by
  cases c
  cases d
  cases same
  rfl

theorem Key.eq_of_content {k l : Key} (same : k.content = l.content) : k = l := by
  cases k with
  | name s =>
    cases l with
    | name t => rw [Text.eq_of_content (PropertyKey.name.inj same)]
    | slot index => cases same
  | slot index =>
    cases l with
    | name t => cases same
    | slot other => rw [PropertyKey.slot.inj same]

theorem Value.masked_of_content {v w : Value} (same : v.content.masked = w.content.masked) :
    v.masked = w.masked := by
  cases v <;> cases w <;> simp only [content, DemoTape.Value.masked, reduceCtorEq] at same
  case integer.integer i j =>
    have numbers := congrArg Int64.toInt (DemoTape.Value.integer.inj same)
    rw [Int32.toInt_toInt64, Int32.toInt_toInt64] at numbers
    rw [Int32.toInt_inj.mp numbers]
  case float.float x y => exact congrArg Value.float (Binary.masked_of_widen (DemoTape.Value.float.inj same))
  case text.text s t => rw [Text.eq_of_content (DemoTape.Value.text.inj same)]
  case boolean.boolean b c => rw [DemoTape.Value.boolean.inj same]
  case vector.vector v w => exact congrArg Value.vector (DemoTape.Value.vector.inj same)

theorem Assignment.masked_of_content {a b : Assignment} (same : a.content.masked = b.content.masked) :
    a.masked = b.masked := by
  obtain ⟨key, value⟩ := a
  obtain ⟨key', value'⟩ := b
  simp only [content, DemoTape.Assignment.masked, DemoTape.Assignment.mk.injEq] at same
  simp only [masked, Assignment.mk.injEq]
  exact ⟨Key.eq_of_content same.1, Value.masked_of_content same.2⟩

theorem TableEntry.eq_of_content {e f : TableEntry} (same : e.content = f.content) : e = f := by
  obtain ⟨index, text⟩ := e
  obtain ⟨index', text'⟩ := f
  simp only [content, DemoTape.TableEntry.mk.injEq] at same
  rw [same.1, Text.eq_of_content same.2]

theorem properties_masked {p q : Counted Assignment}
    (same : (p.items.map Assignment.content).map DemoTape.Assignment.masked =
      (q.items.map Assignment.content).map DemoTape.Assignment.masked) :
    p.map Assignment.masked = q.map Assignment.masked := by
  rw [List.map_map, List.map_map] at same
  apply Counted.eq_of_items
  exact map_eq_of_map (fun _ _ => Assignment.masked_of_content) same

/-- Messages that are read alike, up to the bits of NaN, are stored alike, up to these and to skipped bytes. -/
theorem Message.masked_of_content {m n : Message} (same : m.content.masked = n.content.masked) :
    m.masked = n.masked := by
  cases m <;> cases n <;>
    simp only [content, DemoTape.Message.masked, reduceCtorEq, DemoTape.Message.baseline.injEq,
      DemoTape.Message.delta.injEq, DemoTape.Message.remove.injEq, DemoTape.Message.table.injEq,
      DemoTape.Message.command.injEq, DemoTape.Message.other.injEq] at same
  case baseline.baseline =>
    obtain ⟨rfl, cls, properties⟩ := same
    rw [masked, masked, Text.eq_of_content cls, properties_masked properties]
  case delta.delta =>
    obtain ⟨rfl, properties⟩ := same
    rw [masked, masked, properties_masked properties]
  case remove.remove => rw [same]
  case table.table entity entries _ entries' =>
    obtain ⟨name, items⟩ := same
    have stored : entries = entries' := by
      apply Counted.eq_of_items
      have equal := map_eq_of_map (g := id) (fun _ _ => TableEntry.eq_of_content) items
      rwa [List.map_id, List.map_id] at equal
    rw [Text.eq_of_content name, stored]
  case command.command =>
    obtain ⟨rfl, items⟩ := same
    rw [Counted.eq_of_items items]
  case other.other kind payload _ short kind' payload' _ short' =>
    obtain ⟨rfl, length⟩ := same
    have size : payload.length = payload'.length := by
      have words := congrArg UInt32.toNat length
      rwa [UInt32.toNat_ofNat_of_lt' short, UInt32.toNat_ofNat_of_lt' short'] at words
    simp only [masked, size]

theorem Frame.masked_of_content {f g : Frame} (tick : f.content.1 = g.content.1)
    (messages : f.content.2.map DemoTape.Message.masked = g.content.2.map DemoTape.Message.masked) :
    f.masked = g.masked := by
  simp only [content, List.map_map] at tick messages
  rw [masked, masked, tick, map_eq_of_map (fun _ _ => Message.masked_of_content) messages]

end Wire
end DemoTape
