import ColorBasic.Dump
import ColorBasic.Proofs.Fallible
import ColorBasic.Proofs.TokenCoding

/-!
# The grammar of memory dumps

A dump consists of records whose addresses count the bytes, followed by the end mark or by too few
bytes for another address.  Reading accepts exactly these dumps and gives the lines of the records;
writing produces the records of the given lines and the end mark.
-/

namespace ColorBasic

namespace Record

@[simp] theorem length_bytes (record : Record) :
    record.bytes.length = record.tokens.length + 4 := by
  simp [bytes]
  omega

/-- A record that can stand at an address: it has a terminator at least, and the address of the
following record counts its bytes. -/
structure StandsAt (record : Record) (address : UInt16) : Prop where
  tokens_ne_nil : record.tokens ≠ []
  next_eq : record.next.toNat = address.toNat + record.bytes.length

/-- Records of which each begins where the one before it ends. -/
def Chained : UInt16 → List Record → Prop
  | _, [] => True
  | address, record :: records => record.StandsAt address ∧ Chained record.next records

/-- A record holds a line if its code is that of the line with the terminator. -/
theorem line_eq_ok_iff {record : Record} {line : Line} :
    record.line = .ok line ↔ record.number = line.number ∧ record.tokens = line.code ++ [0] := by
  unfold Record.line Line.ofTerminated
  split
  · rename_i hlast
    obtain ⟨code, htokens⟩ := List.getLast?_eq_some_iff.1 hlast
    cases line with
    | mk number lineCode =>
        rw [htokens, List.dropLast_concat, Except.ok.injEq, Line.mk.injEq]
        exact and_congr_right fun _ => (List.append_cancel_right_eq code [0] lineCode).symm.to_iff
  · rename_i hlast
    simp only [reduceCtorEq, false_iff, not_and]
    intro _ htokens
    apply hlast
    rw [htokens, List.getLast?_concat]

/-- The only record that can stand at an address and hold a line. -/
theorem standsAt_and_line_iff {record : Record} {address : UInt16} {line : Line} :
    record.StandsAt address ∧ record.line = .ok line ↔
      address.toNat + line.code.length + 5 < UInt16.size ∧
        record = ⟨UInt16.ofNat (address.toNat + line.code.length + 5), line.number,
          line.code ++ [0]⟩ := by
  rw [line_eq_ok_iff]
  constructor
  · rintro ⟨⟨-, hnext⟩, hnumber, htokens⟩
    obtain ⟨next, number, tokens⟩ := record
    dsimp only at hnext hnumber htokens
    subst hnumber htokens
    have hbound := next.toNat_lt
    rw [length_bytes, List.length_append, List.length_singleton] at hnext
    have hend : address.toNat + line.code.length + 5 = next.toNat := by omega
    rw [hend, UInt16.ofNat_toNat]
    exact ⟨hbound, rfl⟩
  · rintro ⟨hfits, rfl⟩
    refine ⟨⟨by simp, ?_⟩, rfl, rfl⟩
    rw [length_bytes, List.length_append, List.length_singleton]
    dsimp only
    rw [UInt16.toNat_ofNat_of_lt' hfits]
    omega

end Record

namespace Walk

/-- The walk after a record. -/
def advance (walk : Walk) (record : Record) (unread : Bytes) : Walk :=
  { walk with
    offset := walk.offset + record.bytes.length
    unread := unread
    address := record.next }

/-- The walk behind the end mark. -/
def passEnd (walk : Walk) (unread : Bytes) : Walk :=
  { walk.stop with offset := walk.offset + 2, unread := unread, foundEnd := true }

/-- What is left of a dump when no record follows: the end mark, or too few bytes for an address. -/
def AtEnd (unread : Bytes) : Prop := (∃ rest, unread = 0 :: 0 :: rest) ∨ unread.length < 2

/-- The bytes from the address on, cut where a record ends, are the bytes of that record. -/
theorem bytes_of_take (high low numberHigh numberLow : UInt8) (code : Bytes) {length : Nat}
    (h : 5 ≤ length) :
    Record.bytes
        ⟨wordOfBytes high low, wordOfBytes numberHigh numberLow,
          ((high :: low :: numberHigh :: numberLow :: code).take length).drop 4⟩ =
      (high :: low :: numberHigh :: numberLow :: code).take length := by
  obtain ⟨more, rfl⟩ : ∃ more, length = more + 4 := ⟨length - 4, by omega⟩
  simp [Record.bytes]

/-- An address is zero only if both of its bytes are. -/
theorem wordOfBytes_eq_zero_iff {high low : UInt8} :
    wordOfBytes high low = 0 ↔ high = 0 ∧ low = 0 := by
  constructor
  · intro hzero
    have hbytes := wordBytes_wordOfBytes high low
    rw [hzero] at hbytes
    obtain ⟨hhigh, hrest⟩ := List.cons.inj hbytes
    exact ⟨hhigh.symm, (List.cons.inj hrest).1.symm⟩
  · rintro ⟨rfl, rfl⟩
    rfl

theorem atEnd_cons_cons_iff {high low : UInt8} {rest : Bytes} :
    AtEnd (high :: low :: rest) ↔ wordOfBytes high low = 0 := by
  have hlong : ¬(high :: low :: rest).length < 2 := by
    rw [List.length_cons, List.length_cons]
    omega
  rw [AtEnd, or_iff_left hlong, wordOfBytes_eq_zero_iff]
  simp

/-- What does not begin with two bytes has fewer than that. -/
theorem length_lt_two {bytes : Bytes} (h : ∀ high low rest, bytes = high :: low :: rest → False) :
    bytes.length < 2 := by
  match hbytes : bytes with
  | [] => simp
  | [b] => simp
  | high :: low :: rest => exact (h high low rest rfl).elim

/-- A dump does not end where a record stands. -/
theorem not_atEnd_of_standsAt {record : Record} {address : UInt16}
    (h : record.StandsAt address) (rest : Bytes) : ¬AtEnd (record.bytes ++ rest) := by
  have hshape : record.bytes ++ rest = (record.next >>> 8).toUInt8 :: record.next.toUInt8 ::
      (wordBytes record.number ++ record.tokens ++ rest) := by
    simp [Record.bytes, wordBytes]
  rw [hshape, atEnd_cons_cons_iff, wordOfBytes_wordBytes]
  intro hzero
  have hnext := h.next_eq
  rw [hzero, Record.length_bytes, UInt16.toNat_zero] at hnext
  omega

/-- What a step does with a walk that has not come to its end. -/
inductive Proceeds (walk : Walk) : Step × Walk → Prop where
  /-- The walk passes a record. -/
  | record {record : Record} {rest : Bytes} (hrecord : record.StandsAt walk.address)
      (hunread : walk.unread = record.bytes ++ rest) :
      Proceeds walk (.record record, walk.advance record rest)
  /-- The walk ends before a record that cannot be read. -/
  | fault (error : Error) (hmore : ¬AtEnd walk.unread) : Proceeds walk (.fault error, walk.stop)
  /-- The walk ends before too few bytes. -/
  | exhausted (hshort : walk.unread.length < 2) : Proceeds walk (.finish, walk.stop)
  /-- The walk ends behind the end mark. -/
  | ended {rest : Bytes} (hunread : walk.unread = 0 :: 0 :: rest) :
      Proceeds walk (.finish, walk.passEnd rest)

theorem proceeds_readRecord {walk : Walk} {high low : UInt8} {rest : Bytes}
    (hunread : walk.unread = high :: low :: rest) (hnext : wordOfBytes high low ≠ 0) :
    walk.Proceeds (walk.readRecord (wordOfBytes high low) rest) := by
  have hmore : ¬AtEnd walk.unread := by rwa [hunread, atEnd_cons_cons_iff]
  unfold readRecord
  generalize hcut : (wordOfBytes high low).toNat - walk.address.toNat = length
  split
  · rename_i numberHigh numberLow code
    dsimp only
    split
    · exact .fault _ hmore
    · rename_i hlong
      split
      · exact .fault _ hmore
      · rename_i hshort
        -- The cut is neither too long for the dump nor too short for a terminator.
        have hbytes := bytes_of_take high low numberHigh numberLow code (Nat.not_lt.1 hshort)
        rw [← hunread] at hbytes
        generalize hrecord : Record.mk (wordOfBytes high low) (wordOfBytes numberHigh numberLow)
          ((walk.unread.take length).drop 4) = record at hbytes ⊢
        have hnextEq : record.next = wordOfBytes high low := by rw [← hrecord]
        have hlength : record.bytes.length = length := by
          rw [hbytes, List.length_take]
          rw [List.length_take] at hlong
          omega
        have hstands : record.StandsAt walk.address := by
          refine ⟨List.ne_nil_of_length_pos ?_, ?_⟩
          · rw [Record.length_bytes] at hlength
            omega
          · rw [hnextEq]
            omega
        have hpassed : walk.Proceeds
            (.record record, walk.advance record (walk.unread.drop length)) :=
          .record hstands (by rw [hbytes, List.take_append_drop])
        rwa [advance, hlength, hnextEq] at hpassed
  · exact .fault _ hmore

theorem proceeds_step {walk : Walk} (hstopped : walk.stopped = false) :
    walk.Proceeds walk.step := by
  unfold step
  rw [hstopped, if_neg (by simp)]
  split
  · rename_i high low rest hunread
    dsimp only
    split
    · rename_i hzero
      obtain ⟨rfl, rfl⟩ := wordOfBytes_eq_zero_iff.1 hzero
      exact .ended hunread
    · rename_i hnext
      split
      · refine .fault _ ?_
        rwa [hunread, atEnd_cons_cons_iff]
      · exact proceeds_readRecord hunread hnext
  · rename_i hshort
    exact .exhausted (length_lt_two hshort)

/-- A walk that has come to its end stays there. -/
theorem step_of_stopped {walk : Walk} (hstopped : walk.stopped = true) :
    walk.step = (.finish, walk) := by
  rw [step, if_pos hstopped]

/-- A walk ends where it is if too few bytes are left for another address. -/
theorem step_of_short {walk : Walk} (hstopped : walk.stopped = false)
    (hshort : walk.unread.length < 2) : walk.step = (.finish, walk.stop) := by
  unfold step
  rw [hstopped, if_neg (by simp)]
  split
  · rename_i high low rest hunread
    rw [hunread, List.length_cons, List.length_cons] at hshort
    omega
  · rfl

/-- A step that finds a record finds one that stands at the address of the walk, and leaves what
follows the record. -/
theorem step_eq_record {walk after : Walk} {record : Record}
    (h : walk.step = (.record record, after)) :
    walk.stopped = false ∧ record.StandsAt walk.address ∧
      walk.unread = record.bytes ++ after.unread ∧ after = walk.advance record after.unread := by
  cases hstopped : walk.stopped with
  | true => simp [step_of_stopped hstopped] at h
  | false =>
      have hproceeds := proceeds_step hstopped
      rw [h] at hproceeds
      cases hproceeds with
      | record hrecord hunread => exact ⟨rfl, hrecord, hunread, rfl⟩

/-- A record that stands at the address of a walk is found by its next step. -/
theorem step_of_standsAt {walk : Walk} {record : Record} {rest : Bytes}
    (hstopped : walk.stopped = false) (hrecord : record.StandsAt walk.address)
    (hunread : walk.unread = record.bytes ++ rest) :
    walk.step = (.record record, walk.advance record rest) := by
  obtain ⟨next, number, tokens⟩ := record
  obtain ⟨hne, hnext⟩ := hrecord
  -- The facts that the step tests, in its own terms.
  have hpos : 0 < tokens.length := List.length_pos_iff.2 hne
  have hlength : next.toNat - walk.address.toNat = tokens.length + 4 := by
    rw [Record.length_bytes] at hnext
    dsimp only at hnext
    omega
  have hzero : next ≠ 0 := by
    rintro rfl
    simp at hlength
  have horder : ¬ next ≤ walk.address := by
    rw [UInt16.le_iff_toNat_le]
    omega
  have htake : walk.unread.take (tokens.length + 4) = Record.bytes ⟨next, number, tokens⟩ := by
    rw [hunread]
    exact List.take_left' (Record.length_bytes _)
  have hdrop : walk.unread.drop (tokens.length + 4) = rest := by
    rw [hunread]
    exact List.drop_left' (Record.length_bytes _)
  have hlong : ¬ (Record.bytes ⟨next, number, tokens⟩).length < tokens.length + 4 := by simp
  have hshort : ¬ tokens.length + 4 < 5 := by omega
  have hshape : walk.unread = (next >>> 8).toUInt8 :: next.toUInt8 ::
      (number >>> 8).toUInt8 :: number.toUInt8 :: (tokens ++ rest) := by
    rw [hunread]
    simp [Record.bytes, wordBytes]
  unfold step
  rw [hstopped, if_neg (by simp), hshape]
  dsimp only
  rw [wordOfBytes_wordBytes, if_neg hzero, if_neg horder, readRecord,
    hlength, htake, if_neg hlong, if_neg hshort, hdrop, wordOfBytes_wordBytes]
  simp [Record.bytes, wordBytes, advance]

/-- A step that ends a walk without a fault stands at the end of the dump. -/
theorem step_eq_finish {walk after : Walk} (hstopped : walk.stopped = false)
    (h : walk.step = (.finish, after)) : AtEnd walk.unread := by
  have hproceeds := proceeds_step hstopped
  rw [h] at hproceeds
  cases hproceeds with
  | exhausted hshort => exact .inr hshort
  | ended hunread => exact .inl ⟨_, hunread⟩

theorem step_of_atEnd {walk : Walk} (hstopped : walk.stopped = false) (h : AtEnd walk.unread) :
    ∃ after, walk.step = (.finish, after) := by
  have hproceeds := proceeds_step hstopped
  generalize walk.step = outcome at hproceeds ⊢
  cases hproceeds with
  | record hrecord hunread => exact (not_atEnd_of_standsAt hrecord _ (hunread ▸ h)).elim
  | fault error hmore => exact (hmore h).elim
  | exhausted hshort => exact ⟨_, rfl⟩
  | ended hunread => exact ⟨_, rfl⟩

/-- A walk finds what its first step finds and then what the rest of the walk does. -/
theorem survey_eq (walk : Walk) :
    walk.survey =
      match walk.step with
      | (.record record, after) => { after.survey with records := record :: after.survey.records }
      | (.fault error, after) => ⟨[], some error, after⟩
      | (.finish, after) => ⟨[], none, after⟩ := by
  rw [survey]
  split <;> simp_all only

theorem survey_of_record {walk after : Walk} {record : Record}
    (h : walk.step = (.record record, after)) :
    walk.survey = { after.survey with records := record :: after.survey.records } := by
  rw [survey_eq, h]

theorem survey_of_fault {walk after : Walk} {error : Error}
    (h : walk.step = (.fault error, after)) : walk.survey = ⟨[], some error, after⟩ := by
  rw [survey_eq, h]

theorem survey_of_finish {walk after : Walk} (h : walk.step = (.finish, after)) :
    walk.survey = ⟨[], none, after⟩ := by
  rw [survey_eq, h]

/-- A walk without fault has passed a chain of records and come to the end of the dump. -/
theorem chained_survey (walk : Walk) (hstopped : walk.stopped = false)
    (hfault : walk.survey.fault = none) :
    Record.Chained walk.address walk.survey.records ∧
      ∃ tail, walk.unread = walk.survey.records.flatMap Record.bytes ++ tail ∧ AtEnd tail := by
  fun_induction survey walk with
  | case1 walk record after hstep later ih =>
      obtain ⟨-, hrecord, hunread, hafter⟩ := step_eq_record hstep
      have hrunning : after.stopped = false := by rw [hafter]; exact hstopped
      -- The rest of the walk starts where the record ends, at the address that it names.
      obtain ⟨hchained, tail, htail, hend⟩ := ih hrunning hfault
      have haddress : after.address = record.next := by rw [hafter]; rfl
      refine ⟨⟨hrecord, haddress ▸ hchained⟩, tail, ?_, hend⟩
      rw [List.flatMap_cons, List.append_assoc, ← htail, hunread]
  | case2 walk error after hstep => simp at hfault
  | case3 walk after hstep =>
      exact ⟨trivial, walk.unread, by simp, step_eq_finish hstopped hstep⟩

/-- A walk over a chain of records and the end of a dump finds the records and no fault. -/
theorem survey_of_chained (walk : Walk) {records : List Record} {tail : Bytes} (hend : AtEnd tail)
    (hstopped : walk.stopped = false) (hchained : Record.Chained walk.address records)
    (hunread : walk.unread = records.flatMap Record.bytes ++ tail) :
    walk.survey.records = records ∧ walk.survey.fault = none := by
  induction records generalizing walk with
  | nil =>
      have htail : walk.unread = tail := hunread
      obtain ⟨after, hstep⟩ := step_of_atEnd hstopped (htail ▸ hend)
      rw [survey_of_finish hstep]
      exact ⟨rfl, rfl⟩
  | cons record records ih =>
      rw [List.flatMap_cons, List.append_assoc] at hunread
      have hstep := step_of_standsAt hstopped hchained.1 hunread
      obtain ⟨hlater, hnone⟩ := ih (walk.advance record _) hstopped hchained.2 rfl
      rw [survey_of_record hstep, hlater]
      exact ⟨rfl, hnone⟩

end Walk

namespace Dump

/-- Reading succeeds exactly on a chain of records that hold lines, followed by the end. -/
theorem readLines_eq_ok_iff_records {dump : Bytes} {start : UInt16} {lines : List Line} :
    readLines dump start = .ok lines ↔
      ∃ records tail, Record.Chained start records ∧ records.mapM Record.line = .ok lines ∧
        dump = records.flatMap Record.bytes ++ tail ∧ Walk.AtEnd tail := by
  have hread : readLines dump start = .ok lines ↔
      (survey dump start).records.mapM Record.line = .ok lines ∧
        (survey dump start).fault = none := by
    unfold readLines
    dsimp only
    rw [bind_eq_ok_iff]
    cases (survey dump start).fault with
    | none => simp [pure, Except.pure]
    | some error => simp [throw, throwThe, MonadExceptOf.throw]
  rw [hread]
  constructor
  · rintro ⟨hlines, hfault⟩
    obtain ⟨hchained, tail, hunread, hend⟩ :=
      Walk.chained_survey (Walk.start dump start) rfl hfault
    exact ⟨_, tail, hchained, hlines, hunread, hend⟩
  · rintro ⟨records, tail, hchained, hlines, hdump, hend⟩
    have hfound := Walk.survey_of_chained (Walk.start dump start) hend rfl hchained hdump
    rw [survey, hfound.1]
    exact ⟨hlines, hfound.2⟩

theorem writeFrom_cons_eq_ok_iff {address : Nat} {line : Line} {lines : List Line}
    {image : Bytes} :
    writeFrom address (line :: lines) = .ok image ↔
      address + line.code.length + 5 < UInt16.size ∧
        ∃ rest, writeFrom (address + line.code.length + 5) lines = .ok rest ∧
          image = Record.bytes ⟨UInt16.ofNat (address + line.code.length + 5), line.number,
            line.code ++ [0]⟩ ++ rest := by
  rw [writeFrom]
  split
  · rename_i hfits
    rw [bind_eq_ok_iff]
    simp only [hfits, true_and, pure, Except.pure, Except.ok.injEq, eq_comm]
  · rename_i hlarge
    simp [hlarge, throw, throwThe, MonadExceptOf.throw]

/-- Writing succeeds exactly if the lines are held by a chain of records, and then writes these
and the end mark. -/
theorem writeFrom_eq_ok_iff_records {address : UInt16} {lines : List Line} {image : Bytes} :
    writeFrom address.toNat lines = .ok image ↔
      ∃ records, Record.Chained address records ∧ records.mapM Record.line = .ok lines ∧
        image = records.flatMap Record.bytes ++ [0, 0] := by
  simp only [mapM_eq_ok_iff]
  induction lines generalizing address image with
  | nil =>
      simp only [writeFrom, Except.ok.injEq, List.forall₂_nil_right_iff]
      constructor
      · rintro rfl
        exact ⟨[], trivial, rfl, rfl⟩
      · rintro ⟨records, -, rfl, rfl⟩
        rfl
  | cons line lines ih =>
      have hnext (hfits : address.toNat + line.code.length + 5 < UInt16.size) :
          (UInt16.ofNat (address.toNat + line.code.length + 5)).toNat =
            address.toNat + line.code.length + 5 := UInt16.toNat_ofNat_of_lt' hfits
      rw [writeFrom_cons_eq_ok_iff]
      constructor
      · rintro ⟨hfits, rest, hrest, rfl⟩
        rw [← hnext hfits] at hrest
        obtain ⟨records, hchained, hlines, rfl⟩ := ih.1 hrest
        obtain ⟨hstands, hline⟩ := Record.standsAt_and_line_iff.2 ⟨hfits, rfl⟩
        exact ⟨_ :: records, ⟨hstands, hchained⟩, .cons hline hlines, by simp⟩
      · rintro ⟨_, hchained, hall, rfl⟩
        obtain ⟨record, records, hline, hlines, rfl⟩ := List.forall₂_cons_right_iff.1 hall
        obtain ⟨hfits, rfl⟩ := Record.standsAt_and_line_iff.1 ⟨hchained.1, hline⟩
        have hrest := ih.2 ⟨records, hchained.2, hlines, rfl⟩
        rw [hnext hfits] at hrest
        exact ⟨hfits, _, hrest, by simp⟩

/-- Reading what was written gives the lines back. -/
theorem readLines_of_writeLines {lines : List Line} {start : UInt16} {dump : Bytes}
    (h : writeLines lines start = .ok dump) : readLines dump start = .ok lines := by
  obtain ⟨records, hchained, hlines, hdump⟩ := writeFrom_eq_ok_iff_records.1 h
  exact readLines_eq_ok_iff_records.2
    ⟨records, [0, 0], hchained, hlines, hdump, .inl ⟨[], rfl⟩⟩

/-- Reading a dump gives the lines from which writing makes the bytes that were read.  Beyond these
there is the end mark with anything after it, or a single byte, or nothing. -/
theorem readLines_eq_ok_iff_writeLines (dump : Bytes) (start : UInt16) (lines : List Line) :
    readLines dump start = .ok lines ↔
      ∃ body tail, writeLines lines start = .ok (body ++ [0, 0]) ∧ dump = body ++ tail ∧
        ((∃ rest, tail = [0, 0] ++ rest) ∨ tail.length < 2) := by
  rw [readLines_eq_ok_iff_records]
  constructor
  · rintro ⟨records, tail, hchained, hlines, hdump, hend⟩
    exact ⟨_, tail, writeFrom_eq_ok_iff_records.2 ⟨records, hchained, hlines, rfl⟩, hdump, hend⟩
  · rintro ⟨body, tail, hwritten, hdump, hend⟩
    obtain ⟨records, hchained, hlines, hbody⟩ := writeFrom_eq_ok_iff_records.1 hwritten
    rw [List.append_cancel_right hbody] at hdump
    exact ⟨records, tail, hchained, hlines, hdump, hend⟩

end Dump
end ColorBasic
