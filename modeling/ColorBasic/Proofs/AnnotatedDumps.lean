import ColorBasic.Proofs.CutDumps
import ColorBasic.Proofs.HexNumerals

/-!
# Annotated dumps tell their bytes

The annotated form of a dump determines the bytes that were read.  Each record has its address and
its number in digits of fixed width, and so has every token of its code.  The rows of the code begin
with a tab and no other rows do, so each record ends where its last token is shown.  What else the
rows say, such as the text of a token, is not needed.
-/

namespace ColorBasic

namespace TokenTable

variable {table : TokenTable}

/-- The column of values shows each token in its own way, and where it ends. -/
theorem valueColumn_append_inj {first second : Token} {s t : Text}
    (h : valueColumn first ++ s = valueColumn second ++ t) : first = second := by
  cases first with
  | byte a =>
      cases second with
      | byte b =>
          simp only [valueColumn, List.append_assoc, List.append_cancel_left_eq] at h
          obtain ⟨hvalue, -⟩ := Text.lowerHex_append_inj (by decide) a.toNat_lt b.toNat_lt h
          rw [UInt8.toNat_inj.1 hvalue]
      | word w => simp [valueColumn] at h
  | word v =>
      cases second with
      | byte b => simp [valueColumn] at h
      | word w =>
          simp only [valueColumn, List.append_assoc, List.append_cancel_left_eq] at h
          rw [Text.word_eq_of_lowerHex_append h]

theorem breakdownRow_injective (table : TokenTable) : Function.Injective table.breakdownRow := by
  intro first second h
  rw [breakdownRow, breakdownRow, List.append_assoc, List.append_assoc] at h
  exact valueColumn_append_inj h

theorem head?_breakdownRow (token : Token) : (table.breakdownRow token).head? = some '\t' := by
  cases token <;> rfl

/-- Rows that do not go on with a breakdown. -/
def AfterBreakdown (rows : List Text) : Prop := ∀ row ∈ rows.head?, row.head? ≠ some '\t'

theorem not_afterBreakdown_cons (token : Token) (rows : List Text) :
    ¬AfterBreakdown (table.breakdownRow token :: rows) :=
  fun h => h _ rfl (head?_breakdownRow token)

/-- A breakdown ends at the first row without a tab, and what it shows is the code. -/
theorem breakdown_append_inj {first second : Bytes} {rows others : List Text}
    (hrows : AfterBreakdown rows) (hothers : AfterBreakdown others)
    (h : table.breakdown first ++ rows = table.breakdown second ++ others) :
    first = second ∧ rows = others := by
  have hdecoded : Token.decode first = Token.decode second ∧ rows = others := by
    unfold breakdown at h
    generalize Token.decode first = tokens at h ⊢
    generalize Token.decode second = shown at h ⊢
    induction tokens generalizing shown with
    | nil =>
        cases shown with
        | nil => exact ⟨rfl, h⟩
        | cons token shown =>
            subst h
            exact (not_afterBreakdown_cons token _ hrows).elim
    | cons token tokens ih =>
        cases shown with
        | nil =>
            subst h
            exact (not_afterBreakdown_cons token _ hothers).elim
        | cons other shown =>
            rw [List.map_cons, List.map_cons, List.cons_append, List.cons_append,
              List.cons.injEq] at h
            obtain ⟨hlater, hrest⟩ := ih shown h.2
            rw [table.breakdownRow_injective h.1, hlater]
            exact ⟨rfl, hrest⟩
  -- Code is what its tokens are stored as.
  refine ⟨?_, hdecoded.2⟩
  rw [← Token.encode_decode first, hdecoded.1, Token.encode_decode]

end TokenTable

namespace Walk

/-- A walk that finds the end mark stands before it and reads it. -/
theorem step_of_foundEnd {walk after : Walk} (hstopped : walk.stopped = false)
    (hnew : walk.foundEnd = false) (h : walk.step = (.finish, after))
    (hend : after.foundEnd = true) :
    ∃ rest, walk.unread = [0, 0] ++ rest ∧ after.offset = walk.offset + 2 := by
  have hproceeds := proceeds_step hstopped
  rw [h] at hproceeds
  cases hproceeds with
  | exhausted hshort => simp [stop, hnew] at hend
  | ended hunread => exact ⟨_, hunread, rfl⟩

/-- A walk that ends with the end mark has read its records and the mark. -/
theorem survey_of_foundEnd (walk : Walk) (hstopped : walk.stopped = false)
    (hnew : walk.foundEnd = false) (hfault : walk.survey.fault = none)
    (hend : walk.survey.final.foundEnd = true) :
    ∃ rest, walk.unread = walk.survey.records.flatMap Record.bytes ++ [0, 0] ++ rest ∧
      walk.survey.final.offset =
        walk.offset + (walk.survey.records.flatMap Record.bytes ++ [0, 0]).length := by
  fun_induction survey walk with
  | case1 walk record after hstep later ih =>
      obtain ⟨-, -, hunread, hafter⟩ := step_eq_record hstep
      have hrunning : after.stopped = false := by rw [hafter]; exact hstopped
      have hunseen : after.foundEnd = false := by rw [hafter]; exact hnew
      obtain ⟨rest, hrest, hoffset⟩ := ih hrunning hunseen hfault hend
      have hpassed : after.offset = walk.offset + record.bytes.length := by rw [hafter]; rfl
      refine ⟨rest, ?_, ?_⟩
      · rw [hunread, hrest, List.flatMap_cons]
        simp only [List.append_assoc, later]
      · rw [hoffset, hpassed, List.flatMap_cons]
        simp only [List.length_append, later]
        omega
  | case2 walk error after hstep => cases hfault
  | case3 walk after hstep =>
      obtain ⟨rest, hunread, hoffset⟩ := step_of_foundEnd hstopped hnew hstep hend
      exact ⟨rest, hunread, hoffset⟩

end Walk

namespace Dump

variable {table : TokenTable} {start : UInt16}

/-- The row that ends an annotation. -/
def endRow : Text := "$0000 -> end address".toList

/-- No breakdown goes on with the rows from a record on. -/
theorem afterBreakdown_annotateRecords (address : UInt16) (records : List Record) :
    TokenTable.AfterBreakdown (annotateRecords table address records ++ [endRow]) := by
  cases records with
  | nil =>
      rintro row ⟨⟩
      decide
  | cons record records =>
      rintro row ⟨⟩
      simp

/-- A record and its end can be told from its annotation. -/
theorem annotateRecord_append_inj {address : UInt16} {first second : Record}
    {rows others : List Text} (hrows : TokenTable.AfterBreakdown rows)
    (hothers : TokenTable.AfterBreakdown others)
    (h : annotateRecord table address first ++ rows =
      annotateRecord table address second ++ others) : first = second ∧ rows = others := by
  obtain ⟨next, number, tokens⟩ := first
  obtain ⟨otherNext, otherNumber, otherTokens⟩ := second
  simp only [annotateRecord, List.cons_append, List.nil_append, List.append_assoc, List.cons.injEq,
    true_and] at h
  obtain ⟨hnext, hnumber, htokens⟩ := h
  obtain ⟨rfl, hlater⟩ := TokenTable.breakdown_append_inj hrows hothers htokens
  obtain rfl := Text.word_eq_of_lowerHex_append hnext
  obtain rfl := Text.word_eq_of_lowerHex_append hnumber
  exact ⟨rfl, hlater⟩

/-- A record has rows before the row that ends the annotation. -/
theorem annotateRecords_cons_ne_end (address : UInt16) (record : Record) (records : List Record) :
    annotateRecords table address (record :: records) ++ [endRow] ≠ [endRow] := by
  intro h
  have hlength := congrArg List.length h
  simp [annotateRecords, annotateRecord] at hlength

/-- Records can be told from their annotations up to the row that ends them. -/
theorem annotateRecords_append_inj {address : UInt16} {first second : List Record}
    (h : annotateRecords table address first ++ [endRow] =
      annotateRecords table address second ++ [endRow]) : first = second := by
  induction first generalizing address second with
  | nil =>
      cases second with
      | nil => rfl
      | cons record records => exact absurd h.symm (annotateRecords_cons_ne_end _ _ _)
  | cons record records ih =>
      cases second with
      | nil => exact absurd h (annotateRecords_cons_ne_end _ _ _)
      | cons other others =>
          rw [annotateRecords, annotateRecords, List.append_assoc, List.append_assoc] at h
          -- The later records begin at the same address, so the induction goes on with them.
          obtain ⟨rfl, hlater⟩ := annotateRecord_append_inj (afterBreakdown_annotateRecords _ _)
            (afterBreakdown_annotateRecords _ _) h
          rw [ih hlater]

/-- A dump is annotated exactly if the walk ends with the end mark, and then record by record. -/
theorem annotate_eq_ok_iff {dump : Bytes} {rows : List Text} :
    annotate table dump start = .ok rows ↔
      (survey dump start).fault = none ∧ (survey dump start).final.foundEnd = true ∧
        ("program start address: $".toList ++ Text.lowerHex 4 start.toNat) ::
          (annotateRecords table start (survey dump start).records ++ [endRow]) = rows := by
  unfold annotate
  dsimp only
  cases (survey dump start).fault with
  | some error =>
      constructor
      · rintro ⟨⟩
      · rintro ⟨⟨⟩, -⟩
  | none =>
      cases (survey dump start).final.foundEnd with
      | false =>
          constructor
          · rintro ⟨⟩
          · rintro ⟨-, ⟨⟩, -⟩
      | true => exact ⟨fun h => ⟨rfl, rfl, Except.ok.inj h⟩, fun h => congrArg Except.ok h.2.2⟩

/-- A dump that can be annotated begins with its records and the end mark, and these are what the
walk has read. -/
theorem prefix_of_annotate {dump : Bytes} {rows : List Text}
    (h : annotate table dump start = .ok rows) :
    (survey dump start).records.flatMap Record.bytes ++ [0, 0] <+: dump ∧
      (survey dump start).final.offset =
        ((survey dump start).records.flatMap Record.bytes ++ [0, 0]).length := by
  obtain ⟨hfault, hend, -⟩ := annotate_eq_ok_iff.1 h
  obtain ⟨rest, hdump, hoffset⟩ :=
    Walk.survey_of_foundEnd (Walk.start dump start) rfl rfl hfault hend
  exact ⟨⟨rest, hdump.symm⟩, hoffset.trans (Nat.zero_add _)⟩

/-- The annotated form of a dump loses nothing: two dumps that have the same one are read up to the
same offset, and begin with the same bytes up to there. -/
theorem annotate_loses_nothing {first second : Bytes} {rows : List Text}
    (hfirst : annotate table first start = .ok rows)
    (hsecond : annotate table second start = .ok rows) :
    (survey first start).final.offset = (survey second start).final.offset ∧
      ∃ read, read.length = (survey first start).final.offset ∧ read <+: first ∧
        read <+: second := by
  obtain ⟨-, -, hrows⟩ := annotate_eq_ok_iff.1 hfirst
  obtain ⟨-, -, hothers⟩ := annotate_eq_ok_iff.1 hsecond
  have hrecords : (survey first start).records = (survey second start).records :=
    annotateRecords_append_inj (List.cons.inj (hrows.trans hothers.symm)).2
  obtain ⟨hread, hoffset⟩ := prefix_of_annotate hfirst
  obtain ⟨hotherRead, hotherOffset⟩ := prefix_of_annotate hsecond
  rw [← hrecords] at hotherRead hotherOffset
  exact ⟨hoffset.trans hotherOffset.symm, _, hoffset.symm, hread, hotherRead⟩

/-- A record whose code has a word, a zero in the middle and a mark at its end, and the end mark. -/
def markedDump : Bytes := [0x1E, 0x0A, 0x00, 0x0A, 0xFF, 0x9A, 0x00, 0x41, 0xFF, 0x00, 0x00]

theorem annotate_loses_nothing_marked :
    annotate Machine.dragon32.table markedDump 0x1E01 =
        annotate Machine.dragon32.table (markedDump ++ [0x55, 0xAA]) 0x1E01 ∧
      (survey markedDump 0x1E01).final.offset =
        (survey (markedDump ++ [0x55, 0xAA]) 0x1E01).final.offset ∧
      ∃ read, read.length = (survey markedDump 0x1E01).final.offset ∧ read <+: markedDump ∧
        read <+: markedDump ++ [0x55, 0xAA] := by
  have hannotate : annotate Machine.dragon32.table markedDump 0x1E01 =
      .ok ["program start address: $1e01".toList, "$1e0a -> next address (length: 9)".toList,
        "$000a -> 10 (line number)".toList, "tokens:".toList, "\t$ff9a -> 'INKEY$'".toList,
        "\t  $00 -> '\\x00'".toList, "\t  $41 -> 'A'".toList, "\t  $ff -> 'ÿ'".toList,
        "$0000 -> end address".toList] := by decide +kernel
  have htrailing : annotate Machine.dragon32.table (markedDump ++ [0x55, 0xAA]) 0x1E01 =
      annotate Machine.dragon32.table markedDump 0x1E01 := by
    rw [hannotate]
    decide +kernel
  rw [hannotate] at htrailing
  exact ⟨hannotate.trans htrailing.symm, annotate_loses_nothing hannotate htrailing⟩

end Dump
end ColorBasic
