import ColorBasic.Proofs.DumpGrammar

/-!
# Reading a dump by offsets

A walk takes what it reads from the front of the bytes that it has not read.  A cursor keeps no
bytes but an offset and an address, and looks everything up in the dump.  Looking up a byte, cutting
out a part and taking one address from another can each fail.  None of it does: the cursor of a walk
goes every step with the walk.
-/

namespace ColorBasic

namespace Dump

/-- The word at an offset, unless one of its bytes is outside of the dump. -/
def wordAt? (dump : Bytes) (offset : Nat) : Option UInt16 := do
  let high ← dump[offset]?
  let low ← dump[offset + 1]?
  return wordOfBytes high low

/-- The bytes between two offsets, unless these are in the wrong order or outside of the dump. -/
def slice? (dump : Bytes) (first last : Nat) : Option Bytes :=
  if first ≤ last ∧ last ≤ dump.length then some ((dump.take last).drop first) else none

/-- How far it is from one address to another, unless that comes before it. -/
def distance? (address next : UInt16) : Option Nat :=
  if address ≤ next then some (next - address).toNat else none

section Lookup

variable {dump rest : Bytes} {offset : Nat} {high low : UInt8}

theorem wordAt?_of_drop (h : dump.drop offset = high :: low :: rest) :
    wordAt? dump offset = some (wordOfBytes high low) := by
  have hhigh : dump[offset]? = some high := by
    rw [← Nat.add_zero offset, ← List.getElem?_drop, h]
    rfl
  have hlow : dump[offset + 1]? = some low := by
    rw [← List.getElem?_drop, h]
    rfl
  rw [wordAt?, hhigh, hlow]
  rfl

theorem slice?_add {first last : Nat} (hfirst : first ≤ last)
    (hlast : offset + last ≤ dump.length) :
    slice? dump (offset + first) (offset + last) =
      some (((dump.drop offset).take last).drop first) := by
  have hlength : offset + last - (offset + first) = last - first := by omega
  rw [slice?, if_pos ⟨by omega, hlast⟩, List.drop_take, List.drop_take, List.drop_drop, hlength]

theorem distance?_of_le {address next : UInt16} (h : address ≤ next) :
    distance? address next = some (next.toNat - address.toNat) := by
  rw [distance?, if_pos h, UInt16.toNat_sub_of_le _ _ h]

end Lookup

end Dump

/-- A place in a dump, as a reader by offsets keeps it. -/
structure Cursor where
  /-- The offset of the first unread byte. -/
  offset : Nat
  /-- The address of the first unread byte. -/
  address : UInt16
  /-- Whether reading has come to an end. -/
  stopped : Bool
  /-- Whether the end mark has been read. -/
  foundEnd : Bool
  deriving DecidableEq, Repr

namespace Cursor

/-- The cursor at the start of a dump that is loaded at the given address. -/
def start (address : UInt16) : Cursor := ⟨0, address, false, false⟩

/-- Ends reading where the cursor is. -/
def stop (cursor : Cursor) : Cursor := { cursor with stopped := true }

/-- Reads the record with the given address word.  There is no result if this looks for something
outside of the dump or takes an address from an earlier one. -/
def readRecord? (dump : Bytes) (cursor : Cursor) (next : UInt16) : Option (Step × Cursor) :=
  if dump.length < cursor.offset + 4 then some (.fault (.truncated dump.length), cursor.stop)
  else do
    let number ← Dump.wordAt? dump (cursor.offset + 2)
    let length ← Dump.distance? cursor.address next
    let last := cursor.offset + length
    if dump.length < last then some (.fault (.truncated dump.length), cursor.stop)
    else if last < cursor.offset + 5 then
      let record ← Dump.slice? dump cursor.offset last
      some (.fault (.missingTerminator record), cursor.stop)
    else
      let tokens ← Dump.slice? dump (cursor.offset + 4) last
      some (.record ⟨next, number, tokens⟩, { cursor with offset := last, address := next })

/-- One step of reading a dump, with no result under the same conditions. -/
def step? (dump : Bytes) (cursor : Cursor) : Option (Step × Cursor) :=
  if cursor.stopped then some (.finish, cursor)
  else if dump.length < cursor.offset + 2 then some (.finish, cursor.stop)
  else do
    let next ← Dump.wordAt? dump cursor.offset
    if next = 0 then
      some (.finish, { cursor.stop with offset := cursor.offset + 2, foundEnd := true })
    else if next ≤ cursor.address then
      some (.fault (.addressOrder next cursor.address), cursor.stop)
    else cursor.readRecord? dump next

/-- What the first steps of reading a dump find, and the cursor after them. -/
def run? (dump : Bytes) (cursor : Cursor) : Nat → Option (List Step × Cursor)
  | 0 => some ([], cursor)
  | count + 1 => do
    let (found, current) ← cursor.run? dump count
    let (step, next) ← current.step? dump
    some (found ++ [step], next)

end Cursor

namespace Walk

/-- What a cursor in the place of a walk keeps. -/
def cursor (walk : Walk) : Cursor := ⟨walk.offset, walk.address, walk.stopped, walk.foundEnd⟩

@[simp] theorem cursor_offset (walk : Walk) : walk.cursor.offset = walk.offset := rfl

@[simp] theorem cursor_address (walk : Walk) : walk.cursor.address = walk.address := rfl

@[simp] theorem cursor_stopped (walk : Walk) : walk.cursor.stopped = walk.stopped := rfl

/-- The unread bytes of a walk are what follows its offset in the dump. -/
structure Reads (walk : Walk) (dump : Bytes) : Prop where
  offset_le : walk.offset ≤ dump.length
  unread_eq : walk.unread = dump.drop walk.offset

namespace Reads

variable {walk : Walk} {dump rest : Bytes} {high low : UInt8}

theorem length_unread (h : walk.Reads dump) : walk.offset + walk.unread.length = dump.length := by
  rw [h.unread_eq, List.length_drop, Nat.add_sub_cancel' h.offset_le]

/-- What stands at the front of the unread bytes is what follows in the dump. -/
theorem pass {passed : Bytes} (h : walk.Reads dump) (hunread : walk.unread = passed ++ rest) :
    walk.offset + passed.length ≤ dump.length ∧
      rest = dump.drop (walk.offset + passed.length) ∧
        dump.take (walk.offset + passed.length) = dump.take walk.offset ++ passed := by
  have hlength := h.length_unread
  have hdrop := h.unread_eq
  rw [hunread] at hlength hdrop
  rw [List.length_append] at hlength
  refine ⟨by omega, ?_, ?_⟩
  · rw [← List.drop_drop, ← hdrop, List.drop_left]
  · rw [List.take_add, ← hdrop, List.take_left]

theorem wordAt? (h : walk.Reads dump) (skip : Nat)
    (hunread : walk.unread.drop skip = high :: low :: rest) :
    Dump.wordAt? dump (walk.offset + skip) = some (wordOfBytes high low) := by
  have hdrop : dump.drop (walk.offset + skip) = high :: low :: rest := by
    rw [← List.drop_drop, ← h.unread_eq, hunread]
  exact Dump.wordAt?_of_drop hdrop

theorem slice? (h : walk.Reads dump) {first last : Nat} (hfirst : first ≤ last)
    (hlast : walk.offset + last ≤ dump.length) :
    Dump.slice? dump (walk.offset + first) (walk.offset + last) =
      some ((walk.unread.take last).drop first) := by
  rw [Dump.slice?_add hfirst hlast, h.unread_eq]

theorem readRecord? (h : walk.Reads dump) {next : UInt16}
    (hunread : walk.unread = high :: low :: rest) (hnext : ¬next ≤ walk.address) :
    walk.cursor.readRecord? dump next = some ((walk.readRecord next rest).map id cursor) := by
  have hlength := h.length_unread
  have hsize : walk.size = dump.length := hlength
  have hrest : walk.offset + (rest.length + 2) = dump.length := by
    rw [← hlength, hunread]
    rfl
  have hdistance := Dump.distance?_of_le (UInt16.le_of_lt (UInt16.not_le.1 hnext))
  unfold readRecord
  generalize next.toNat - walk.address.toNat = length at hdistance ⊢
  split
  · rename_i numberHigh numberLow code
    have hnumber := h.wordAt? 2 (congrArg (List.drop 2) hunread)
    have hnumbered : ¬dump.length < walk.offset + 4 := by
      rw [List.length_cons, List.length_cons] at hrest
      omega
    rw [Cursor.readRecord?, cursor_offset, cursor_address, if_neg hnumbered, hnumber, hdistance]
    dsimp only [Option.bind_eq_bind, Option.bind_some]
    -- Both ask first whether the record is whole and then whether it has room for a terminator.
    have hcut : (walk.unread.take length).length < length ↔
        dump.length < walk.offset + length := by
      rw [List.length_take]
      omega
    simp only [hcut, Nat.add_lt_add_iff_left]
    by_cases hlarge : dump.length < walk.offset + length
    · rw [if_pos hlarge, if_pos hlarge, hsize]
      rfl
    · rw [if_neg hlarge, if_neg hlarge]
      by_cases hsmall : length < 5
      · have hrecord : Dump.slice? dump walk.offset (walk.offset + length) =
            some (walk.unread.take length) := h.slice? (Nat.zero_le length) (by omega)
        rw [if_pos hsmall, if_pos hsmall, hrecord]
        rfl
      · rw [if_neg hsmall, if_neg hsmall, h.slice? (by omega) (by omega)]
        rfl
  · rename_i hshort
    have hfew := length_lt_two hshort
    rw [Cursor.readRecord?, cursor_offset, if_pos (by omega), hsize]
    rfl

/-- The distance of a record that comes before its address cannot be taken. -/
example : (Cursor.start 0x1E01).readRecord? [0x1E, 0x00, 0x00, 0x0A, 0x00] 0x1E00 = none := by
  decide

/-- A cursor goes one step with its walk. -/
theorem step? (h : walk.Reads dump) :
    walk.cursor.step? dump = some (walk.step.map id cursor) := by
  have hlength := h.length_unread
  cases hstopped : walk.stopped with
  | true =>
      rw [Cursor.step?, cursor_stopped, if_pos hstopped, step_of_stopped hstopped]
      rfl
  | false =>
      have hrunning : ¬walk.stopped = true := by simp [hstopped]
      rw [step, if_neg hrunning]
      split
      · rename_i high low rest hunread
        have hnext : Dump.wordAt? dump walk.offset = some (wordOfBytes high low) :=
          h.wordAt? 0 hunread
        rw [hunread, List.length_cons, List.length_cons] at hlength
        rw [Cursor.step?, cursor_stopped, if_neg hrunning, cursor_offset, if_neg (by omega), hnext]
        dsimp only [Option.bind_eq_bind, Option.bind_some]
        split
        · rfl
        · rw [cursor_address]
          split
          · rfl
          · rename_i hlater
            exact h.readRecord? hunread hlater
      · rename_i hshort
        have hfew := length_lt_two hshort
        rw [Cursor.step?, cursor_stopped, if_neg hrunning, cursor_offset, if_pos (by omega)]
        rfl

end Reads

end Walk
end ColorBasic
