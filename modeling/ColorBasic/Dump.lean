import ColorBasic.Program

/-!
# Memory dumps of programs

A dump is a chain of records.  Each record holds the address of the following record, the line
number, the stored code and a zero byte, all words high byte first.  The word zero in place of an
address ends the program, and what follows it is never read.
-/

namespace ColorBasic

/-- One record of a dump. -/
structure Record where
  /-- The address of the following record. -/
  next : UInt16
  /-- The line number. -/
  number : UInt16
  /-- The stored code with its terminator. -/
  tokens : Bytes
  deriving DecidableEq, Repr

namespace Record

/-- The bytes of a record. -/
def bytes (record : Record) : Bytes :=
  wordBytes record.next ++ wordBytes record.number ++ record.tokens

/-- The line that a record holds. -/
def line (record : Record) : Except Error Line := Line.ofTerminated record.number record.tokens

end Record

/-- The state of reading a dump record by record. -/
structure Walk where
  /-- The offset of the first unread byte. -/
  offset : Nat
  /-- The unread bytes. -/
  unread : Bytes
  /-- The address of the first unread byte. -/
  address : UInt16
  /-- Whether reading has come to an end. -/
  stopped : Bool
  /-- Whether the word zero that ends a program has been read. -/
  foundEnd : Bool
  deriving DecidableEq, Repr

/-- What one step of a walk finds. -/
inductive Step where
  /-- A record. -/
  | record (record : Record)
  /-- A record that cannot be read. -/
  | fault (error : Error)
  /-- No further record. -/
  | finish
  deriving DecidableEq, Repr

namespace Walk

/-- The walk over a dump that is loaded at the given address. -/
def start (dump : Bytes) (address : UInt16) : Walk := ⟨0, dump, address, false, false⟩

/-- Ends a walk where it is. -/
def stop (walk : Walk) : Walk := { walk with stopped := true }

/-- The number of bytes of the whole dump. -/
def size (walk : Walk) : Nat := walk.offset + walk.unread.length

/-- Reads the record with the given address word, whose other bytes are `rest`. -/
def readRecord (walk : Walk) (next : UInt16) (rest : Bytes) : Step × Walk :=
  let length := next.toNat - walk.address.toNat
  let unread := walk.unread
  match rest with
  | high :: low :: _ =>
    let record := unread.take length
    if record.length < length then (.fault (.truncated walk.size), walk.stop)
    else if length < 5 then (.fault (.missingTerminator record), walk.stop)
    else
      (.record ⟨next, wordOfBytes high low, record.drop 4⟩,
        { walk with offset := walk.offset + length, unread := unread.drop length, address := next })
  | _ => (.fault (.truncated walk.size), walk.stop)

/-- One step of a walk. -/
def step (walk : Walk) : Step × Walk :=
  if walk.stopped then (.finish, walk)
  else
    match walk.unread with
    | high :: low :: rest =>
      let next := wordOfBytes high low
      if next = 0 then
        (.finish,
          { walk.stop with offset := walk.offset + 2, unread := rest, foundEnd := true })
      else if next ≤ walk.address then (.fault (.addressOrder next walk.address), walk.stop)
      else walk.readRecord next rest
    | _ => (.finish, walk.stop)

theorem unread_readRecord_lt {walk after : Walk} {next : UInt16} {rest : Bytes} {record : Record}
    (h : walk.readRecord next rest = (.record record, after)) :
    after.unread.length < walk.unread.length := by
  unfold readRecord at h
  split at h
  · dsimp only at h
    split at h
    · simp at h
    · rename_i hlong
      split at h
      · simp at h
      · obtain rfl := (Prod.mk.inj h).2
        simp only [List.length_take, List.length_drop] at hlong ⊢
        omega
  · simp at h

theorem unread_step_lt {walk after : Walk} {record : Record}
    (h : walk.step = (.record record, after)) : after.unread.length < walk.unread.length := by
  unfold step at h
  split at h
  · simp at h
  · split at h
    · dsimp only at h
      split at h
      · simp at h
      · split at h
        · simp at h
        · exact unread_readRecord_lt h
    · simp at h

end Walk

/-- All that a walk finds in a dump. -/
structure Survey where
  /-- The records in their order. -/
  records : List Record
  /-- The error that ended the walk, if one did. -/
  fault : Option Error
  /-- The walk after its last step. -/
  final : Walk

namespace Walk

/-- Walks to the end. -/
def survey (walk : Walk) : Survey :=
  match _h : walk.step with
  | (.record record, after) =>
    let later := after.survey
    { later with records := record :: later.records }
  | (.fault error, after) => ⟨[], some error, after⟩
  | (.finish, after) => ⟨[], none, after⟩
termination_by walk.unread.length
decreasing_by exact unread_step_lt _h

end Walk

namespace Dump

/-- All that is found in a dump loaded at the given address. -/
def survey (dump : Bytes) (start : UInt16) : Survey := (Walk.start dump start).survey

/-- The lines of a dump loaded at the given address. -/
def readLines (dump : Bytes) (start : UInt16) : Except Error (List Line) := do
  let found := survey dump start
  let lines ← found.records.mapM Record.line
  match found.fault with
  | some error => throw error
  | none => return lines

/-- The records of the given lines from the given address on, and the end mark. -/
def writeFrom (address : Nat) : List Line → Except Error Bytes
  | [] => .ok [0, 0]
  | line :: lines => do
    let next := address + line.code.length + 5
    if next < UInt16.size then
      let rest ← writeFrom next lines
      return Record.bytes ⟨UInt16.ofNat next, line.number, line.code ++ [0]⟩ ++ rest
    else throw .programTooLarge

/-- The dump of the given lines in the given order, loaded at the given address. -/
def writeLines (lines : List Line) (start : UInt16) : Except Error Bytes :=
  writeFrom start.toNat lines

end Dump
end ColorBasic
