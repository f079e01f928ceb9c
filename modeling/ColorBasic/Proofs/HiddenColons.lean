import ColorBasic.Proofs.KeywordSearch
import ColorBasic.Proofs.StoredCode

/-!
# Putting hidden colons in and taking them out

Taking hidden colons out undoes putting them in, for any stored code.  The other way round the code
comes back exactly if no apostrophe and no `ELSE` lacks its colon.  Both passes work on tokens, and
neither moves the places where the code splits into tokens.
-/

namespace ColorBasic
namespace TokenTable

section Tokens

variable {colon : Token} {targets tokens : List Token} {previous : Option Token}

/-- Every target among the tokens stands directly after a colon, where `previous` is the token before
all of them. -/
def Accompanied (colon : Token) (targets : List Token) (previous : Option Token)
    (tokens : List Token) : Prop :=
  ∀ before token after, tokens = before ++ token :: after → token ∈ targets →
    before.getLast?.or previous = some colon

theorem accompanied_nil : Accompanied colon targets previous [] := by
  intro before token after hsplit
  simp at hsplit

/-- Each token becomes the one before all that follow it. -/
theorem accompanied_cons_iff {token : Token} :
    Accompanied colon targets previous (token :: tokens) ↔
      (token ∈ targets → previous = some colon) ∧
        Accompanied colon targets (some token) tokens := by
  constructor
  · intro h
    refine ⟨fun htarget => h [] token tokens rfl htarget, ?_⟩
    intro before next after hsplit htarget
    rw [← getLast?_cons_or]
    exact h (token :: before) next after (by rw [hsplit, List.cons_append]) htarget
  · rintro ⟨hfirst, hrest⟩ before next after hsplit htarget
    cases before with
    | nil =>
        obtain ⟨rfl, rfl⟩ := List.cons.inj hsplit
        exact hfirst htarget
    | cons head before =>
        obtain ⟨rfl, rfl⟩ := List.cons.inj hsplit
        rw [getLast?_cons_or]
        exact hrest before next after rfl htarget

/-- After colons are put in, every target has its own. -/
theorem accompanied_insertColons (hcolon : colon ∉ targets) (tokens : List Token) :
    Accompanied colon targets previous (insertColons colon targets tokens) := by
  induction tokens generalizing previous with
  | nil => exact accompanied_nil
  | cons token tokens ih =>
      rw [insertColons_cons]
      split
      · refine accompanied_cons_iff.2 ⟨fun htarget => (hcolon htarget).elim, ?_⟩
        exact accompanied_cons_iff.2 ⟨fun _ => rfl, ih⟩
      · rename_i htoken
        exact accompanied_cons_iff.2 ⟨fun htarget => (htoken htarget).elim, ih⟩

/-- Colons that are taken out are put in again.  Where the tokens go on after a colon and begin with
a target, that colon is put in with them. -/
theorem Accompanied.insertColons_removeColons (hcolon : colon ∉ targets)
    (h : Accompanied colon targets (some colon) tokens) :
    insertColons colon targets (removeColons colon targets tokens) =
      if ∃ first ∈ tokens.head?, first ∈ targets then colon :: tokens else tokens := by
  fun_induction removeColons colon targets tokens with
  | case1 => simp
  | case2 token => by_cases htoken : token ∈ targets <;> simp [htoken]
  | case3 token next rest hhidden ih =>
      obtain ⟨rfl, hnext⟩ := hhidden
      rw [ih (accompanied_cons_iff.1 h).2]
      simp [hcolon, hnext]
  | case4 token next rest hshown ih =>
      obtain ⟨-, hrest⟩ := accompanied_cons_iff.1 h
      obtain ⟨hnext, hlater⟩ := accompanied_cons_iff.1 hrest
      -- The token before `next` would have to be a colon that is taken out.
      have hplain : next ∉ targets := fun htarget =>
        hshown ⟨Option.some.inj (hnext htarget), htarget⟩
      have hsame := ih (accompanied_cons_iff.2 ⟨fun _ => rfl, hlater⟩)
      rw [if_neg (by simp [hplain])] at hsame
      rw [insertColons_cons, hsame]
      by_cases htoken : token ∈ targets <;> simp [htoken]

/-- Tokens come back exactly if each target has its colon. -/
theorem insertColons_removeColons_iff (hcolon : colon ∉ targets) (tokens : List Token) :
    insertColons colon targets (removeColons colon targets tokens) = tokens ↔
      Accompanied colon targets none tokens := by
  constructor
  · intro h
    rw [← h]
    exact accompanied_insertColons hcolon _
  · intro h
    have hfirst : ¬∃ first ∈ tokens.head?, first ∈ targets := by
      rintro ⟨first, hhead, htarget⟩
      obtain ⟨rest, rfl⟩ := List.head?_eq_some_iff.1 hhead
      exact absurd ((accompanied_cons_iff.1 h).1 htarget) (by simp)
    have hafter : Accompanied colon targets (some colon) tokens := by
      cases tokens with
      | nil => exact accompanied_nil
      | cons first rest =>
          exact accompanied_cons_iff.2 ⟨fun _ => rfl, (accompanied_cons_iff.1 h).2⟩
    rw [hafter.insertColons_removeColons hcolon, if_neg hfirst]

/-- The colons that are taken out are never the last token. -/
theorem decodable_removeColons (h : Token.Decodable tokens) :
    Token.Decodable (removeColons colon targets tokens) := by
  fun_induction removeColons colon targets tokens with
  | case1 => exact h
  | case2 token => exact h
  | case3 token next rest hhidden ih => exact ih h.tail
  | case4 token next rest hshown ih =>
      have htoken : token.SelfDelimiting := h.head.resolve_right (by simp)
      exact (ih h.tail).cons htoken

end Tokens

section Code

variable {table : TokenTable}

theorem decode_revealCode (table : TokenTable) (code : Bytes) :
    Token.decode (table.revealCode code) =
      removeColons table.colon table.colonTargets (Token.decode code) := by
  rw [revealCode, Token.decode_encode (decodable_removeColons (Token.decodable_decode code))]

theorem Regular.decode_hideColons (h : table.Regular) (code : Bytes) :
    Token.decode (table.hideColons code) =
      insertColons table.colon table.colonTargets (Token.decode code) := by
  rw [hideColons, Token.decode_encode
    (decodable_insertColons h.colon_selfDelimiting (Token.decodable_decode code))]

theorem Regular.revealCode_hideColons (h : table.Regular) (code : Bytes) :
    table.revealCode (table.hideColons code) = code := by
  rw [revealCode, h.decode_hideColons, removeColons_insertColons h.colon_not_mem_colonTargets,
    Token.encode_decode]

/-- Every apostrophe and every `ELSE` of the code stands directly after a colon. -/
def ColonsHidden (table : TokenTable) (code : Bytes) : Prop :=
  ∀ keyword ∈ table.keywords, keyword.text = ['\''] ∨ keyword.text = ['E', 'L', 'S', 'E'] →
    ∀ before after, Token.decode code = before ++ keyword.token :: after →
      before.getLast? = some table.colon

theorem colonsHidden_iff_accompanied {code : Bytes} :
    table.ColonsHidden code ↔
      Accompanied table.colon table.colonTargets none (Token.decode code) := by
  simp only [Accompanied, Option.or_none, mem_colonTargets_iff]
  constructor
  · rintro h before _ after hsplit ⟨keyword, hmem, htext, rfl⟩
    exact h keyword hmem htext before after hsplit
  · intro h keyword hmem htext before after hsplit
    exact h before _ after hsplit ⟨keyword, hmem, htext, rfl⟩

theorem Regular.hideColons_revealCode_iff (h : table.Regular) (code : Bytes) :
    table.hideColons (table.revealCode code) = code ↔ table.ColonsHidden code := by
  rw [colonsHidden_iff_accompanied,
    ← insertColons_removeColons_iff h.colon_not_mem_colonTargets, ← decode_revealCode,
    ← h.decode_hideColons]
  constructor
  · intro hcode
    rw [hcode]
  · intro htokens
    rw [← Token.encode_decode (table.hideColons (table.revealCode code)), htokens,
      Token.encode_decode]

end Code

/-- Hidden colons are put in and taken out consistently, with the table of any keywords of regular
values.  Taking them out undoes putting them in; putting them in undoes taking them out exactly
where none was missing; and code that went through both stays as it is from then on. -/
theorem hiddenColons_consistent {machine : Machine} {keywords : List Keyword} {table : TokenTable}
    (htable : ofKeywords machine keywords = .ok table)
    (hvalues : ∀ keyword ∈ keywords, keyword.IsRegular) (code : Bytes) :
    table.revealCode (table.hideColons code) = code ∧
      (table.hideColons (table.revealCode code) = code ↔ table.ColonsHidden code) ∧
      table.hideColons (table.revealCode (table.hideColons (table.revealCode code))) =
        table.hideColons (table.revealCode code) := by
  have hregular : table.Regular := by
    rw [Regular, (ofKeywords_eq_ok_iff.1 htable).2]
    exact hvalues
  refine ⟨hregular.revealCode_hideColons code, hregular.hideColons_revealCode_iff code, ?_⟩
  rw [hregular.revealCode_hideColons]

/-- An `ELSE` without its colon, the function whose second byte looks like it, an apostrophe after
two colons, and a mark with nothing after it. -/
def looseCode : Bytes := [0x84, 0xFF, 0x84, 0x3A, 0x3A, 0x83, 0xFF]

theorem hiddenColons_consistent_loose :
    ofKeywords .dragon32 Machine.dragon32.keywords = .ok Machine.dragon32.table ∧
      Machine.dragon32.table.hideColons looseCode =
        [0x3A, 0x84, 0xFF, 0x84, 0x3A, 0x3A, 0x3A, 0x83, 0xFF] ∧
      Machine.dragon32.table.revealCode
        [0x3A, 0x84, 0xFF, 0x84, 0x3A, 0x3A, 0x3A, 0x83, 0xFF] = looseCode ∧
      ¬Machine.dragon32.table.ColonsHidden looseCode := by
  have htable : ofKeywords .dragon32 Machine.dragon32.keywords = .ok Machine.dragon32.table :=
    ofKeywords_eq_ok_iff.2 ⟨rfl, rfl⟩
  have hhidden : Machine.dragon32.table.hideColons looseCode =
      [0x3A, 0x84, 0xFF, 0x84, 0x3A, 0x3A, 0x3A, 0x83, 0xFF] := by decide +kernel
  obtain ⟨hreveal, hhide, -⟩ :=
    hiddenColons_consistent htable Machine.dragon32.table_regular looseCode
  refine ⟨htable, hhidden, hhidden ▸ hreveal, fun hloose => ?_⟩
  have hback := hhide.2 hloose
  revert hback
  decide +kernel

end TokenTable
end ColorBasic
