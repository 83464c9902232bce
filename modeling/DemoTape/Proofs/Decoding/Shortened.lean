/-
# Decoders on the first bytes alone

`Cursor.cut` takes away the bytes from a limit on. A decoder that is run on what is left does what it does on all the
bytes, up to the cursor, or it runs out of data: it never reads anything else, and never fails for another reason
(`Decoder.Local`). The ways in which decoders are put together keep this too (`local_congruence`), with one exception:
the messages of a frame are read in as many rounds as there are bytes left, and without the bytes behind the limit
there are fewer. But the rounds are enough in either case (`messages_of_lt`), so a packet is read alike
(`local_packet`).
-/
import DemoTape.Proofs.Decoding.Forward

namespace DemoTape
set_option autoImplicit false

namespace Cursor

/-- The cursor without the bytes from the limit on. -/
def cut (c : Cursor) (limit : Nat) : Cursor where
  size := min limit c.size
  offset := c.offset
  rest := c.rest.take (limit - c.offset)
  length_rest := by
    rw [List.length_take, c.length_rest]
    omega

@[simp] theorem size_cut (c : Cursor) (limit : Nat) : (c.cut limit).size = min limit c.size := rfl

@[simp] theorem offset_cut (c : Cursor) (limit : Nat) : (c.cut limit).offset = c.offset := rfl

@[simp] theorem rest_cut (c : Cursor) (limit : Nat) : (c.cut limit).rest = c.rest.take (limit - c.offset) := rfl

theorem cut_advance (c : Cursor) (limit n : Nat) : (c.cut limit).advance n = (c.advance n).cut limit := by
  simp [cut, advance, List.drop_take, Nat.sub_add_eq]

theorem remaining_cut_le (c : Cursor) (limit : Nat) : (c.cut limit).remaining ≤ c.remaining := by
  simp only [remaining, size_cut, offset_cut]
  omega

theorem ofBytes_take (data : Bytes) (limit offset : Nat) :
    ofBytes (data.take limit) offset = (ofBytes data offset).cut limit := by
  simp [cut, ofBytes, List.drop_take]

end Cursor

namespace Decoder
variable {α β : Type}

/-! ## The same, or out of data -/

/-- How a run ends without the bytes from a limit on, when the run on all of them ends like this. -/
inductive Shortened (limit : Nat) :
    EStateM.Result Fault Cursor α → EStateM.Result Fault Cursor α → Prop where
  | ok {a : α} {after : Cursor} (within : after.offset ≤ limit) :
    Shortened limit (.ok a after) (.ok a (after.cut limit))
  | error {fault : Fault} {left : Cursor} : Shortened limit (.error fault left) (.error fault (left.cut limit))
  | endOfData {whole : EStateM.Result Fault Cursor α} {offset expected available : Nat} {left : Cursor} :
    Shortened limit whole (.error (.endOfData offset expected available) left)

/-- Whether a decoder that begins before a limit depends on the bytes behind it only in that it may miss them. -/
def Local (decoder : Decoder α) : Prop :=
  ∀ (c : Cursor) (limit : Nat), c.offset ≤ limit → Shortened limit (decoder c) (decoder (c.cut limit))

theorem local_pure (a : α) : (pure a : Decoder α).Local := by
  intro c limit before
  exact .ok before

theorem local_corrupt (offset : Nat) (cause : Corruption) : (corrupt offset cause : Decoder α).Local := by
  intro c limit before
  exact .error

theorem local_offset : offset.Local := by
  intro c limit before
  exact .ok before

theorem local_bytes (n : Nat) : (bytes n).Local := by
  intro c limit before
  by_cases fits : c.offset + n ≤ min limit c.size
  · have whole : c.offset + n ≤ c.size := by omega
    have few : n ≤ limit - c.offset := by omega
    rw [bytes_ok whole, bytes_ok (c := c.cut limit) fits, Cursor.cut_advance, Cursor.rest_cut, List.take_take,
      Nat.min_eq_left few]
    refine .ok ?_
    rw [Cursor.offset_advance]
    omega
  · rw [bytes_error (c := c.cut limit) fits]
    exact .endOfData

theorem local_skip (n : Nat) : (skip n).Local := by
  intro c limit before
  by_cases fits : c.offset + n ≤ min limit c.size
  · have whole : c.offset + n ≤ c.size := by omega
    rw [skip, skip, if_pos whole, Cursor.size_cut, Cursor.offset_cut, if_pos fits, Cursor.cut_advance]
    refine .ok ?_
    rw [Cursor.offset_advance]
    omega
  · rw [skip, skip, Cursor.size_cut, Cursor.offset_cut, if_neg fits]
    exact .endOfData

theorem local_bind {decoder : Decoder α} {next : α → Decoder β} (first : decoder.Local)
    (second : ∀ a, (next a).Local) : (decoder >>= next).Local := by
  intro c limit before
  rw [bind_apply, bind_apply]
  have alike := first c limit before
  generalize decoder c = whole, decoder (c.cut limit) = short at alike ⊢
  cases alike with
  | ok within => exact second _ _ limit within
  | error => exact .error
  | endOfData => exact .endOfData

theorem local_map {decoder : Decoder α} (f : α → β) (alike : decoder.Local) : (f <$> decoder).Local := by
  rw [← bind_pure_comp]
  exact local_bind alike fun a => local_pure (f a)

theorem local_ite {left right : Decoder α} {p : Prop} [Decidable p] (yes : left.Local) (no : right.Local) :
    (if p then left else right).Local := by
  split
  · exact yes
  · exact no

theorem local_atomically {decoder : Decoder α} (alike : decoder.Local) : decoder.atomically.Local := by
  intro c limit before
  rw [atomically, atomically]
  have alike := alike c limit before
  generalize decoder c = whole, decoder (c.cut limit) = short at alike ⊢
  cases alike with
  | ok within => exact .ok within
  | error => exact .error
  | endOfData => exact .endOfData

/-! ## The decoders of a recording -/

theorem local_congruence : Congruence (fun _ decoder _ => decoder.Local) fun _ _ => True where
  pure := local_pure
  corrupt _ _ := local_corrupt _ _
  bytes := local_bytes
  skip := local_skip
  bind first second := local_bind first second
  atomically whole := local_atomically whole
  noted _ second := local_bind local_offset fun place =>
    local_bind (local_bytes _) fun read => second place place read trivial

/-! ## Packets -/

/-- A round more than there are bytes left is enough, and more change nothing. -/
theorem messages_of_lt {m n : Nat} {c : Cursor} (enough : c.remaining < m) (also : c.remaining < n) :
    messages m c = messages n c := by
  induction m generalizing n c with
  | zero => cases enough
  | succ m ih =>
    obtain ⟨n, rfl⟩ := Nat.exists_eq_succ_of_ne_zero (Nat.ne_of_gt (Nat.zero_lt_of_lt also))
    -- the first message is the same, and each takes its kind at least from what the others have left
    have others {kind : UInt8} {between : Cursor} (taken : u8 c = .ok kind between) :
        (do let first ← message c.offset kind; let rest ← messages m; pure (first :: rest)) between =
          (do let first ← message c.offset kind; let rest ← messages n; pure (first :: rest)) between := by
      obtain ⟨left, rfl⟩ := u8_moves taken
      rw [bind_apply, bind_apply]
      cases one : message c.offset kind (c.advance 1) with
      | error fault behind => rfl
      | ok first behind =>
        obtain ⟨k, -, rfl⟩ := (forward_message c.offset kind).of_ok one
        have fewer : ((c.advance 1).advance k).remaining < c.remaining := by
          rw [Cursor.remaining_advance, Cursor.remaining_advance]
          omega
        dsimp only
        rw [bind_apply, bind_apply, ih (n := n) (by omega) (by omega)]
    rw [messages, messages, bind_apply, bind_apply]
    show (u8 >>= _) c = (u8 >>= _) c
    rw [bind_apply, bind_apply]
    cases taken : u8 c with
    | error fault between => rfl
    | ok kind between =>
      dsimp only
      split
      · rfl
      · exact others taken

theorem local_packet (last : Option Tick) (start : Nat) : (packet last start).Local := by
  refine local_bind local_offset fun tickStart => local_bind local_congruence.u32 fun tick => ?_
  have body : (do
      let left ← remaining
      let messages ← messages (left + 1)
      pure { tick, messages, offset := start } : Decoder Frame).Local := by
    intro c limit before
    have rounds : messages ((c.cut limit).remaining + 1) (c.cut limit) =
        messages (c.remaining + 1) (c.cut limit) :=
      messages_of_lt (Nat.lt_succ_self _) (Nat.lt_succ_of_le (Cursor.remaining_cut_le c limit))
    have whole : (messages (c.remaining + 1) >>= fun messages =>
        pure { tick, messages, offset := start } : Decoder Frame).Local :=
      local_bind (local_congruence.messages _) fun ms => local_pure _
    have alike := whole c limit before
    rw [bind_apply, bind_apply, ← rounds] at alike
    rw [bind_apply, bind_apply]
    show Shortened limit ((messages (c.remaining + 1) >>= _) c)
      ((messages ((c.cut limit).remaining + 1) >>= _) (c.cut limit))
    rw [bind_apply, bind_apply]
    exact alike
  cases last with
  | none => exact body
  | some l => exact local_ite (local_bind (local_corrupt _ _) fun _ => body) body

end Decoder
end DemoTape
