import ColorBasic.CodeText
import ColorBasic.HiddenColon
import ColorBasic.Lexeme
import ColorBasic.Machine.Table
import ColorBasic.Proofs.TokenCoding
import Mathlib.Data.List.Nodup

/-!
# Looking up tokens and keywords

A keyword and its token find each other in every table.  A table is regular if its values keep out
of the way of ASCII characters and of the single mark; the tables of the machines are.
-/

namespace ColorBasic

namespace Token

@[simp] theorem value_ofValue (value : UInt16) : (ofValue value).value = value := by
  unfold ofValue
  split
  · rename_i hsmall
    have hsmall : value.toNat ≤ 255 := UInt16.le_iff_toNat_le.1 hsmall
    apply UInt16.toNat_inj.1
    simp only [Token.value, UInt8.toNat_toUInt16, UInt16.toNat_toUInt8]
    omega
  · rfl

end Token

namespace Keyword

@[simp] theorem value_token (keyword : Keyword) : keyword.token.value = keyword.value :=
  Token.value_ofValue keyword.value

/-- A value that is neither an ASCII character nor the single mark, and whose word begins with the
mark. -/
def IsRegular (keyword : Keyword) : Prop :=
  (0x80 ≤ keyword.value.toNat ∧ keyword.value.toNat ≤ 0xFE) ∨ 0xFF00 ≤ keyword.value.toNat

theorem IsRegular.selfDelimiting {keyword : Keyword} (h : keyword.IsRegular) :
    keyword.token.SelfDelimiting := by
  have hbound := keyword.value.toNat_lt
  unfold token Token.ofValue
  split
  · rename_i hsmall
    have hsmall : keyword.value.toNat ≤ 255 := UInt16.le_iff_toNat_le.1 hsmall
    intro hmark
    have hvalue := congrArg UInt8.toNat hmark
    rw [UInt16.toNat_toUInt8] at hvalue
    change keyword.value.toNat % 256 = 255 at hvalue
    rcases h with h | h <;> omega
  · rename_i hlarge
    have hlarge : ¬ keyword.value.toNat ≤ 255 := fun hle => hlarge (UInt16.le_iff_toNat_le.2 hle)
    apply UInt8.toNat_inj.1
    rw [toNat_highByte]
    change keyword.value.toNat / 256 = 255
    rcases h with h | h <;> omega

end Keyword

namespace TokenTable

/-- A table whose values are all regular. -/
def Regular (table : TokenTable) : Prop := ∀ keyword ∈ table.keywords, keyword.IsRegular

/-- Looking for a keyword by a property that tells all keywords apart finds it. -/
theorem find?_eq_some_of_nodup {β : Type} {key : Keyword → β} [DecidableEq β]
    {keywords : List Keyword} (hnodup : (keywords.map key).Nodup) {keyword : Keyword}
    (hmem : keyword ∈ keywords) :
    keywords.find? (fun other => key other = key keyword) = some keyword := by
  cases hfind : keywords.find? (fun other => key other = key keyword) with
  | none =>
      rw [List.find?_eq_none] at hfind
      simpa using hfind keyword hmem
  | some found =>
      have hkey : key found = key keyword := by simpa using List.find?_some hfind
      rw [List.inj_on_of_nodup_map hnodup (List.mem_of_find?_eq_some hfind) hmem hkey]

theorem keywordOfText?_text {table : TokenTable} {keyword : Keyword}
    (hmem : keyword ∈ table.keywords) : table.keywordOfText? keyword.text = some keyword :=
  find?_eq_some_of_nodup table.texts_nodup hmem

theorem keywordOfToken?_token {table : TokenTable} {keyword : Keyword}
    (hmem : keyword ∈ table.keywords) : table.keywordOfToken? keyword.token = some keyword := by
  rw [keywordOfToken?, Keyword.value_token]
  exact find?_eq_some_of_nodup table.values_nodup hmem

theorem keywordOfToken?_eq_none_iff {table : TokenTable} {token : Token} :
    table.keywordOfToken? token = none ↔
      ∀ keyword ∈ table.keywords, keyword.value ≠ token.value := by
  simp [keywordOfToken?]

/-- The token of a text is the token of a keyword of the table with this text. -/
theorem tokenOfText?_eq_some_iff {table : TokenTable} {text : Text} {token : Token} :
    table.tokenOfText? text = some token ↔
      ∃ keyword ∈ table.keywords, keyword.text = text ∧ keyword.token = token := by
  constructor
  · intro h
    obtain ⟨keyword, hfind, htoken⟩ := Option.map_eq_some_iff.1 h
    exact ⟨keyword, List.mem_of_find?_eq_some hfind, by simpa using List.find?_some hfind, htoken⟩
  · rintro ⟨keyword, hmem, rfl, rfl⟩
    rw [tokenOfText?, keywordOfText?_text hmem, Option.map_some]

theorem mem_colonTargets_iff {table : TokenTable} {token : Token} :
    token ∈ table.colonTargets ↔
      ∃ keyword ∈ table.keywords,
        (keyword.text = ['\''] ∨ keyword.text = ['E', 'L', 'S', 'E']) ∧ keyword.token = token := by
  simp only [colonTargets, List.mem_filterMap, List.mem_cons, List.not_mem_nil, or_false,
    tokenOfText?_eq_some_iff]
  constructor
  · rintro ⟨text, htext, keyword, hmem, rfl, htoken⟩
    exact ⟨keyword, hmem, htext, htoken⟩
  · rintro ⟨keyword, hmem, htext, htoken⟩
    exact ⟨keyword.text, htext, keyword, hmem, rfl, htoken⟩

/-- The colon is a keyword of the table or stands for itself. -/
theorem colon_cases (table : TokenTable) :
    (∃ keyword ∈ table.keywords, keyword.text = [':'] ∧ keyword.token = table.colon) ∨
      table.colon = .byte 0x3A := by
  unfold colon tokenOfChar
  cases h : table.tokenOfText? [':'] with
  | some token => exact .inl (tokenOfText?_eq_some_iff.1 h)
  | none => exact .inr rfl

theorem Regular.byte_ne_token {table : TokenTable} (h : table.Regular) {keyword : Keyword}
    (hmem : keyword ∈ table.keywords) {b : UInt8} (hb : b.toNat < 0x80) :
    keyword.token ≠ .byte b := by
  intro htoken
  have hvalue := congrArg Token.value htoken
  rw [Keyword.value_token, Token.value] at hvalue
  have hsmall : keyword.value.toNat < 0x80 := by
    rw [hvalue, UInt8.toNat_toUInt16]
    exact hb
  rcases h keyword hmem with hregular | hregular <;> omega

theorem Regular.colon_selfDelimiting {table : TokenTable} (h : table.Regular) :
    table.colon.SelfDelimiting := by
  rcases table.colon_cases with ⟨keyword, hmem, -, htoken⟩ | hcolon
  · exact htoken ▸ (h keyword hmem).selfDelimiting
  · rw [hcolon]
    change (0x3A : UInt8) ≠ wordMark
    decide

theorem Regular.colon_not_mem_colonTargets {table : TokenTable} (h : table.Regular) :
    table.colon ∉ table.colonTargets := by
  intro htarget
  obtain ⟨target, hmem, htext, htoken⟩ := mem_colonTargets_iff.1 htarget
  rcases table.colon_cases with ⟨keyword, hkeyword, hcolon, hcolonToken⟩ | hcolon
  · have hsame : target = keyword := by
      have hlookup := keywordOfToken?_token hmem
      rw [htoken, ← hcolonToken, keywordOfToken?_token hkeyword] at hlookup
      exact (Option.some.inj hlookup).symm
    subst hsame
    rw [hcolon] at htext
    simp at htext
  · exact h.byte_ne_token hmem (by decide) (htoken.trans hcolon)

/-- A character that storing keeps: a byte holds it and no keyword uses that byte. -/
def KeepsChar (table : TokenTable) (c : Char) : Prop :=
  c.toNat ≤ 0xFF ∧ ∀ keyword ∈ table.keywords, keyword.value.toNat ≠ c.toNat

theorem Regular.keepsChar {table : TokenTable} (h : table.Regular) {c : Char}
    (hc : c.toNat < 0x80) : table.KeepsChar c := by
  refine ⟨by omega, fun keyword hmem => ?_⟩
  rcases h keyword hmem with hregular | hregular <;> omega

theorem shown_token {table : TokenTable} {keyword : Keyword} (hmem : keyword ∈ table.keywords) :
    table.shown keyword.token = keyword.text ∧ table.shownReports keyword.token = [] := by
  simp [shown, shownReports, textOfToken?, keywordOfToken?_token hmem]

theorem toNat_storedByte {c : Char} (h : c.toNat ≤ 0xFF) :
    (Text.storedByte c).toNat = c.toNat := by
  rw [Text.storedByte, if_pos (by simpa [Text.isStorable] using h)]
  exact UInt8.toNat_ofNat_of_lt' (by simp only [UInt8.size]; omega)

theorem shown_storedByte {table : TokenTable} {c : Char} (h : table.KeepsChar c) :
    table.shown (.byte (Text.storedByte c)) = [c] ∧
      table.shownReports (.byte (Text.storedByte c)) = [] := by
  have hbyte := toNat_storedByte h.1
  have hnone : table.keywordOfToken? (.byte (Text.storedByte c)) = none := by
    rw [keywordOfToken?_eq_none_iff]
    intro keyword hmem hvalue
    apply h.2 keyword hmem
    rw [hvalue, Token.value, UInt8.toNat_toUInt16, hbyte]
  have hchar : Char.ofUInt8 (Text.storedByte c) = c := by
    apply Char.toNat_inj.1
    exact hbyte
  simp [shown, shownReports, textOfToken?, hnone, hchar]

theorem KeepsChar.byte_not_mem_colonTargets {table : TokenTable} {c : Char}
    (h : table.KeepsChar c) : Token.byte (Text.storedByte c) ∉ table.colonTargets := by
  intro htarget
  obtain ⟨keyword, hmem, -, htoken⟩ := mem_colonTargets_iff.1 htarget
  apply h.2 keyword hmem
  rw [← Keyword.value_token, htoken, Token.value, UInt8.toNat_toUInt16, toNat_storedByte h.1]

end TokenTable

namespace Machine

theorem table_regular (machine : Machine) : machine.table.Regular := by
  change ∀ keyword ∈ machine.keywords,
    (0x80 ≤ keyword.value.toNat ∧ keyword.value.toNat ≤ 0xFE) ∨ 0xFF00 ≤ keyword.value.toNat
  cases machine <;> decide +kernel

theorem keywords_text_ascii (machine : Machine) :
    ∀ keyword ∈ machine.keywords, ∀ c ∈ keyword.text, c.toNat < 0x80 := by
  have hall : ∀ keyword ∈ machine.keywords, keyword.text.all (·.toNat < 0x80) = true := by
    cases machine <;> decide +kernel
  intro keyword hmem c hc
  exact of_decide_eq_true (List.all_eq_true.1 (hall keyword hmem) c hc)

end Machine
end ColorBasic
