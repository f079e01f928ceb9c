import ColorBasic.Proofs.DumpCursor

/-!
# Walking over a dump record by record

However often a walk is asked for the next record, the records that it has found make up the bytes
before its offset, and its address has moved as far as its offset.  Only the end mark, which belongs
to no record, moves the offset alone.  The first step without a record ends the walk for good.
-/

namespace ColorBasic

/-- The record that a step finds, if it finds one. -/
def Step.record? : Step → Option Record
  | .record found => some found
  | _ => none

theorem Step.filterMap_record?_singleton (step : Step) :
    [step].filterMap record? = step.record?.toList := by
  cases step <;> rfl

namespace Record

variable {start address : UInt16} {records : List Record} {record : Record}

theorem StandsAt.five_le_length (h : record.StandsAt address) : 5 ≤ record.bytes.length := by
  have hpos := List.length_pos_iff.2 h.tokens_ne_nil
  rw [length_bytes]
  omega

/-- A chain goes on at the address that its bytes lead to. -/
theorem Chained.concat (h : Chained start records) (hrecord : record.StandsAt address)
    (haddress : address.toNat = start.toNat + (records.flatMap bytes).length) :
    Chained start (records ++ [record]) := by
  induction records generalizing start with
  | nil =>
      obtain rfl : address = start := UInt16.toNat_inj.1 haddress
      exact ⟨hrecord, trivial⟩
  | cons first records ih =>
      have hnext := h.1.next_eq
      rw [List.flatMap_cons, List.length_append] at haddress
      exact ⟨h.1, ih h.2 (by omega)⟩

theorem Chained.five_le_length (h : Chained start records) :
    ∀ record ∈ records, 5 ≤ record.bytes.length := by
  induction records generalizing start with
  | nil => simp
  | cons first records ih => exact List.forall_mem_cons.2 ⟨h.1.five_le_length, ih h.2⟩

theorem Chained.five_mul_length_le (h : Chained start records) :
    5 * records.length ≤ (records.flatMap bytes).length := by
  induction records generalizing start with
  | nil => exact Nat.le_refl 0
  | cons first records ih =>
      have hfirst := h.1.five_le_length
      have hlater := ih h.2
      rw [List.flatMap_cons, List.length_append, List.length_cons]
      omega

end Record

namespace Walk

/-- The walk after a number of steps. -/
def afterSteps (walk : Walk) : Nat → Walk
  | 0 => walk
  | count + 1 => (walk.afterSteps count).step.2

/-- What the first steps of a walk find. -/
def found (walk : Walk) : Nat → List Step
  | 0 => []
  | count + 1 => walk.found count ++ [(walk.afterSteps count).step.1]

/-- The end mark, if a walk has passed it. -/
def passedMark (walk : Walk) : Bytes := if walk.foundEnd then [0, 0] else []

theorem passedMark_of_not_foundEnd {walk : Walk} (h : walk.foundEnd = false) :
    walk.passedMark = [] := by
  rw [passedMark, h, if_neg Bool.false_ne_true]

theorem passedMark_of_foundEnd {walk : Walk} (h : walk.foundEnd = true) :
    walk.passedMark = [0, 0] := by
  rw [passedMark, if_pos h]

/-- What holds of a walk over a dump that has found the given records. -/
structure InStep (dump : Bytes) (start : UInt16) (records : List Record) (walk : Walk) : Prop where
  reads : walk.Reads dump
  chained : Record.Chained start records
  address_eq : walk.address.toNat = start.toNat + (records.flatMap Record.bytes).length
  take_eq : dump.take walk.offset = records.flatMap Record.bytes ++ walk.passedMark
  stopped_of_foundEnd : walk.foundEnd = true → walk.stopped = true

section Run

variable {dump rest : Bytes} {start : UInt16} {records : List Record} {walk : Walk}

theorem inStep_start (dump : Bytes) (start : UInt16) :
    InStep dump start [] (.start dump start) :=
  ⟨⟨Nat.zero_le _, rfl⟩, trivial, rfl, rfl, nofun⟩

namespace InStep

theorem foundEnd_eq_false (h : InStep dump start records walk) (hstopped : walk.stopped = false) :
    walk.foundEnd = false := by
  cases hend : walk.foundEnd with
  | true => simp [h.stopped_of_foundEnd hend] at hstopped
  | false => rfl

/-- Before the end mark is read, the records that were found are all that was read. -/
theorem take_eq_records (h : InStep dump start records walk) (hnew : walk.foundEnd = false) :
    dump.take walk.offset = records.flatMap Record.bytes := by
  rw [h.take_eq, passedMark_of_not_foundEnd hnew, List.append_nil]

theorem length_take (h : InStep dump start records walk) :
    (dump.take walk.offset).length = walk.offset :=
  List.length_take_of_le h.reads.offset_le

/-- Before the end mark is read, the address has moved as far as the offset. -/
theorem address_eq_offset (h : InStep dump start records walk) (hnew : walk.foundEnd = false) :
    walk.address.toNat = start.toNat + walk.offset := by
  rw [h.address_eq, ← h.take_eq_records hnew, h.length_take]

theorem length_records_le (h : InStep dump start records walk) :
    records.length ≤ dump.length / 5 := by
  have hrecords := h.chained.five_mul_length_le
  have hread := congrArg List.length h.take_eq
  have hoffset := h.reads.offset_le
  rw [h.length_take, List.length_append] at hread
  omega

theorem advance (h : InStep dump start records walk) (hnew : walk.foundEnd = false)
    {record : Record} (hrecord : record.StandsAt walk.address)
    (hunread : walk.unread = record.bytes ++ rest) :
    InStep dump start (records ++ [record]) (walk.advance record rest) := by
  obtain ⟨hle, hrest, htake⟩ := h.reads.pass hunread
  have hafter : (walk.advance record rest).foundEnd = false := hnew
  refine ⟨⟨hle, hrest⟩, h.chained.concat hrecord h.address_eq, ?_, ?_, h.stopped_of_foundEnd⟩
  · rw [List.flatMap_append, List.flatMap_singleton, List.length_append, ← Nat.add_assoc,
      ← h.address_eq]
    exact hrecord.next_eq
  · rw [passedMark_of_not_foundEnd hafter, List.append_nil, List.flatMap_append,
      List.flatMap_singleton, ← h.take_eq_records hnew]
    exact htake

theorem stop (h : InStep dump start records walk) : InStep dump start records walk.stop :=
  ⟨⟨h.reads.offset_le, h.reads.unread_eq⟩, h.chained, h.address_eq, h.take_eq, fun _ => rfl⟩

theorem passEnd (h : InStep dump start records walk) (hnew : walk.foundEnd = false)
    (hunread : walk.unread = [0, 0] ++ rest) :
    InStep dump start records (walk.passEnd rest) := by
  obtain ⟨hle, hrest, htake⟩ := h.reads.pass hunread
  refine ⟨⟨hle, hrest⟩, h.chained, h.address_eq, ?_, fun _ => rfl⟩
  rw [passedMark_of_foundEnd rfl, ← h.take_eq_records hnew]
  exact htake

/-- A step keeps a walk in step, with the record that it finds. -/
theorem step (h : InStep dump start records walk) :
    InStep dump start (records ++ walk.step.1.record?.toList) walk.step.2 := by
  cases hstopped : walk.stopped with
  | true =>
      rw [step_of_stopped hstopped]
      exact (List.append_nil records).symm ▸ h
  | false =>
      have hnew := h.foundEnd_eq_false hstopped
      have hproceeds := proceeds_step hstopped
      generalize walk.step = outcome at hproceeds ⊢
      cases hproceeds with
      | record hrecord hunread => exact h.advance hnew hrecord hunread
      | fault error hmore => exact (List.append_nil records).symm ▸ h.stop
      | exhausted hshort => exact (List.append_nil records).symm ▸ h.stop
      | ended hunread => exact (List.append_nil records).symm ▸ h.passEnd hnew hunread

end InStep

/-- A walk over a dump stays in step. -/
theorem inStep_afterSteps (dump : Bytes) (start : UInt16) (count : Nat) :
    InStep dump start (((Walk.start dump start).found count).filterMap Step.record?)
      ((Walk.start dump start).afterSteps count) := by
  induction count with
  | zero => exact inStep_start dump start
  | succ count ih =>
      rw [found, List.filterMap_append, Step.filterMap_record?_singleton]
      exact ih.step

/-- A cursor goes as many steps as a walk over the same dump. -/
theorem run?_start (dump : Bytes) (start : UInt16) (count : Nat) :
    (Cursor.start start).run? dump count =
      some ((Walk.start dump start).found count,
        ((Walk.start dump start).afterSteps count).cursor) := by
  induction count with
  | zero => rfl
  | succ count ih =>
      have hstep := (inStep_afterSteps dump start count).reads.step?
      rw [Cursor.run?, ih]
      dsimp only [Option.bind_eq_bind, Option.bind_some]
      rw [hstep]
      rfl

theorem stopped_step_iff (walk : Walk) :
    walk.step.2.stopped = true ↔ walk.step.1.record? = none := by
  cases hstopped : walk.stopped with
  | true =>
      rw [step_of_stopped hstopped]
      exact iff_of_true hstopped rfl
  | false =>
      have hproceeds := proceeds_step hstopped
      generalize walk.step = outcome at hproceeds ⊢
      cases hproceeds with
      | record hrecord hunread => simp [advance, hstopped, Step.record?]
      | fault error hmore => exact iff_of_true rfl rfl
      | exhausted hshort => exact iff_of_true rfl rfl
      | ended hunread => exact iff_of_true rfl rfl

/-- A walk comes to its end with the first step that finds no record. -/
theorem stopped_afterSteps_iff (walk : Walk) (hstopped : walk.stopped = false) (count : Nat) :
    (walk.afterSteps count).stopped = true ↔ ∃ step ∈ walk.found count, step.record? = none := by
  induction count with
  | zero => simp [afterSteps, found, hstopped]
  | succ count ih =>
      rw [afterSteps, stopped_step_iff]
      constructor
      · exact fun hlast => ⟨_, List.mem_append_right _ List.mem_cons_self, hlast⟩
      · rintro ⟨step, hmem, hnone⟩
        rcases List.mem_append.1 hmem with hearlier | hlast
        · rw [step_of_stopped (ih.2 ⟨step, hearlier, hnone⟩)]
          rfl
        · rw [← List.mem_singleton.1 hlast]
          exact hnone

/-- How a step moves the offset of a walk over a dump, and whether it reads the end mark. -/
def Moves (dump : Bytes) (walk : Walk) : Step × Walk → Prop
  | (.record record, after) =>
    ¬AtEnd (dump.drop walk.offset) ∧ after.offset = walk.offset + record.bytes.length ∧
      after.foundEnd = false
  | (.fault _, after) =>
    ¬AtEnd (dump.drop walk.offset) ∧ after.offset = walk.offset ∧ after.foundEnd = false
  | (.finish, after) =>
    (dump.length < walk.offset + 2 ∧ after.offset = walk.offset ∧ after.foundEnd = false) ∨
      ([0, 0] <+: dump.drop walk.offset ∧ after.offset = walk.offset + 2 ∧ after.foundEnd = true)

theorem InStep.moves (h : InStep dump start records walk) (hstopped : walk.stopped = false) :
    walk.Moves dump walk.step := by
  have hnew := h.foundEnd_eq_false hstopped
  have hlength := h.reads.length_unread
  have hproceeds := proceeds_step hstopped
  generalize walk.step = outcome at hproceeds ⊢
  cases hproceeds with
  | record hrecord hunread =>
      have hmore := hunread ▸ not_atEnd_of_standsAt hrecord _
      exact ⟨h.reads.unread_eq ▸ hmore, rfl, hnew⟩
  | fault error hmore => exact ⟨h.reads.unread_eq ▸ hmore, rfl, hnew⟩
  | exhausted hshort => exact .inl ⟨by omega, rfl, hnew⟩
  | ended hunread => exact .inr ⟨⟨_, (h.reads.unread_eq ▸ hunread).symm⟩, rfl, rfl⟩

end Run

/-- After any number of steps over any dump a cursor has kept up with the walk, without looking
outside of the dump or taking an address from an earlier one.  The records that were found follow
each other without a gap, and up to the end mark they are the bytes before the offset, which has
moved as far as the address.  The next step passes a record, fails before it, or ends before the
end of the dump or behind the end mark; and after a step without a record nothing changes. -/
theorem walk_keeps_in_step (dump : Bytes) (start : UInt16) (count : Nat) :
    let begun := Walk.start dump start
    let walk := begun.afterSteps count
    let records := (begun.found count).filterMap Step.record?
    ((Cursor.start start).run? dump count = some (begun.found count, walk.cursor) ∧
        walk.offset ≤ dump.length) ∧
      (walk.foundEnd = false →
        walk.address.toNat = start.toNat + walk.offset ∧
          records.flatMap Record.bytes = dump.take walk.offset) ∧
      (walk.foundEnd = true →
        records.flatMap Record.bytes ++ [0, 0] = dump.take walk.offset) ∧
      (Record.Chained start records ∧ (∀ record ∈ records, 5 ≤ record.bytes.length) ∧
        records.length ≤ dump.length / 5) ∧
      ((∀ step ∈ begun.found count, step.record? ≠ none) → walk.Moves dump walk.step) ∧
      ((∃ step ∈ begun.found count, step.record? = none) → walk.step = (.finish, walk)) := by
  intro begun walk records
  have h : InStep dump start records walk := inStep_afterSteps dump start count
  have hstopped : walk.stopped = true ↔ ∃ step ∈ begun.found count, step.record? = none :=
    stopped_afterSteps_iff begun rfl count
  refine ⟨⟨run?_start dump start count, h.reads.offset_le⟩, fun hnew => ?_, fun hend => ?_,
    ⟨h.chained, h.chained.five_le_length, h.length_records_le⟩, fun hall => ?_, fun hnone => ?_⟩
  · exact ⟨h.address_eq_offset hnew, (h.take_eq_records hnew).symm⟩
  · rw [h.take_eq, passedMark_of_foundEnd hend]
  · apply h.moves
    rw [← Bool.not_eq_true, hstopped]
    rintro ⟨step, hmem, hnone⟩
    exact hall step hmem hnone
  · exact step_of_stopped (hstopped.2 hnone)

/-- The end mark ends the walk, whatever follows it. -/
example :
    let walk := Walk.start [0x1E, 0x07, 0x00, 0x0A, 0xA0, 0x00, 0x00, 0x00, 0x12, 0x34] 0x1E01
    walk.found 3 = [.record ⟨0x1E07, 10, [0xA0, 0x00]⟩, .finish, .finish] ∧
      (walk.afterSteps 3).offset = 8 ∧ (walk.afterSteps 3).foundEnd = true := by
  decide

end Walk
end ColorBasic
