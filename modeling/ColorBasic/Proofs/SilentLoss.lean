import ColorBasic.Proofs.Reconvergence

/-!
# Lines that change without a report

Storing reports a character only if no byte can hold it.  A character of eight bits is stored
without a report also where its byte is a token or the mark of a word, and the line is then listed
as something else.  All other lines are listed as they were typed or reported on.
-/

namespace ColorBasic

namespace TokenTable

variable {table : TokenTable} {code : Text}

theorem reports_eq_charReports (hascii : table.Ascii) {lexeme : Lexeme}
    (hkeyword : ∀ keyword, lexeme = .keyword keyword → keyword ∈ table.keywords) :
    lexeme.reports = lexeme.text.flatMap Text.charReports := by
  cases lexeme with
  | plain c => exact (List.flatMap_singleton Text.charReports c).symm
  | keyword k =>
      symm
      rw [Lexeme.reports, List.flatMap_eq_nil_iff]
      intro c hc
      have hsmall := hascii k (hkeyword k rfl) c hc
      refine if_pos (decide_eq_true ?_)
      omega

/-- Storing a line reports on its characters one after another, in keywords or not. -/
theorem Ascii.storeCodeReports_eq (hascii : table.Ascii) (code : Text) :
    table.storeCodeReports code = code.flatMap Text.charReports := by
  conv_rhs => rw [← table.flatMap_text_lineLexemes code, List.flatMap_assoc]
  rw [storeCodeReports_eq_lexemes]
  refine List.flatMap_congr fun lexeme hmem => reports_eq_charReports hascii ?_
  rintro keyword rfl
  exact mem_keywords_of_mem_lineLexemes hmem

theorem Ascii.storeCodeReports_eq_nil_iff (hascii : table.Ascii) :
    table.storeCodeReports code = [] ↔ ∀ c ∈ code, c.toNat ≤ 0xFF := by
  rw [hascii.storeCodeReports_eq, List.flatMap_eq_nil_iff]
  refine forall₂_congr fun c _ => ?_
  simp [Text.charReports, Text.isStorable]

/-- Code is listed as it was typed exactly if it is lossless. -/
theorem Regular.listed_ofSource_iff (hregular : table.Regular) (hascii : table.Ascii)
    (source : UInt16 × Text) :
    (Line.ofSource table source).listed table = Line.typed source ↔ table.Lossless source.2 := by
  constructor
  · intro h
    -- Whatever a listing shows is lossless, so the code that it shows unchanged is.
    have hcode := (List.cons.inj (List.append_cancel_left h)).2
    rw [← hcode]
    exact lossless_detokenize hregular hascii _
  · exact fun h => (h.listed_ofSource hregular).1

end TokenTable

namespace Line

/-- A line is listed as it was typed or reported on exactly if it is lossless or has a character
that no byte can hold. -/
theorem listed_or_reported_iff (machine : Machine) (line : Text) (stored : Line)
    (h : parse machine.table line = .ok stored) :
    ∃ source, split line = .ok source ∧
      ((parseReports machine.table line = [] →
          stored.listed machine.table = typed source) ↔
        machine.table.Lossless source.2 ∨ ∃ c ∈ source.2, 0xFF < c.toNat) := by
  obtain ⟨source, hsplit, rfl⟩ := parse_eq_ok_iff.1 h
  have hascii : machine.table.Ascii := machine.keywords_text_ascii
  have hreports : parseReports machine.table line = machine.table.storeCodeReports source.2 := by
    rw [parseReports, hsplit]
  refine ⟨source, hsplit, ?_⟩
  rw [hreports, hascii.storeCodeReports_eq_nil_iff,
    machine.table_regular.listed_ofSource_iff hascii, imp_iff_not_or, or_comm]
  simp only [not_forall, Nat.not_le, exists_prop]

/-- A line with a character of eight bits that is no token of the machine. -/
def accentedLine : Text := "10 PRINT\"é\"ÿ".toList

theorem listed_or_reported_accented :
    parse Machine.dragon32.table accentedLine = .ok ⟨10, [0x87, 0x22, 0xE9, 0x22, 0xFF]⟩ ∧
      ∃ source, split accentedLine = .ok source ∧
        ((parseReports Machine.dragon32.table accentedLine = [] →
            (⟨10, [0x87, 0x22, 0xE9, 0x22, 0xFF]⟩ : Line).listed Machine.dragon32.table =
              typed source) ↔
          Machine.dragon32.table.Lossless source.2 ∨ ∃ c ∈ source.2, 0xFF < c.toNat) := by
  have hparse : parse Machine.dragon32.table accentedLine =
      .ok ⟨10, [0x87, 0x22, 0xE9, 0x22, 0xFF]⟩ := by decide +kernel
  exact ⟨hparse, listed_or_reported_iff .dragon32 _ _ hparse⟩

/-- A line with a character whose byte is a token: the minus sign. -/
def umlautLine : Text := "10 PRINT \"Ä\"".toList

theorem umlaut_lost_without_report :
    parse Machine.dragon32.table umlautLine = .ok ⟨10, [0x87, 0x20, 0x22, 0xC4, 0x22]⟩ ∧
      parseReports Machine.dragon32.table umlautLine = [] ∧
        split umlautLine = .ok (10, "PRINT \"Ä\"".toList) ∧
          (⟨10, [0x87, 0x20, 0x22, 0xC4, 0x22]⟩ : Line).listed Machine.dragon32.table =
            "10 PRINT \"-\"".toList ∧
          (⟨10, [0x87, 0x20, 0x22, 0xC4, 0x22]⟩ : Line).listed Machine.dragon32.table ≠
            typed (10, "PRINT \"Ä\"".toList) := by
  have hlisted : (⟨10, [0x87, 0x20, 0x22, 0xC4, 0x22]⟩ : Line).listed Machine.dragon32.table =
      "10 PRINT \"-\"".toList := by decide +kernel
  refine ⟨by decide +kernel, by decide +kernel, by decide +kernel, hlisted, ?_⟩
  rw [hlisted]
  decide +kernel

end Line
end ColorBasic
