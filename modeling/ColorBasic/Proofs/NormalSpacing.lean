import ColorBasic.Proofs.SettledSpacing

/-!
# The normal form of spacing

Respacing brings code without two spaces in a row to a normal form: a space stands alone, never
where punctuation takes it, and every keyword has one on either side unless punctuation, an operator
or the other word of a jump stands there.

All of this can be seen between neighbours.  A gap that is respaced has one space or none, and what
stands beside it decides which: so the neighbours of every gap are as the normal form wants them, and
with them those of the whole code.
-/

namespace ColorBasic

namespace Token

theorem decodable_replicate_append {tokens : List Token} (h : Decodable tokens) (n : Nat) :
    Decodable (List.replicate n space ++ tokens) := by
  induction n with
  | zero => exact h
  | succ n ih => exact ih.cons clean_space.selfDelimiting

/-- Tokens are read back also after a change of the spaces between them, if no space is put behind a
mark that comes last. -/
theorem decodable_regap {rule : Gap Token → Nat} (hrule : rule ⟨some (.byte wordMark), none, 0⟩ = 0)
    {left : Option Token} {count : Nat} {tokens : List Token} (h : Decodable tokens) :
    Decodable (Gap.regap space rule left count tokens) := by
  induction tokens generalizing left count with
  | nil =>
      rw [Gap.regap_nil, ← List.append_nil (List.replicate _ _)]
      exact decodable_replicate_append decodable_nil _
  | cons token rest ih =>
      by_cases htoken : token = .space
      · subst htoken
        rw [Gap.regap_space]
        exact ih h.tail
      · rw [Gap.regap_item htoken]
        refine decodable_replicate_append ?_ _
        rcases h.head with hself | ⟨rfl, rfl⟩
        · exact (ih h.tail).cons hself
        · rw [Gap.regap_nil, hrule]
          exact decodable_mark

end Token

namespace TokenTable

/-- The two words of a jump. -/
def IsJump (table : TokenTable) (first second : Token) : Prop :=
  table.tokenOfText? ['G', 'O'] = some first ∧
    (table.tokenOfText? ['T', 'O'] = some second ∨
      table.tokenOfText? ['S', 'U', 'B'] = some second)

/-- A keyword that is no operator. -/
def IsWord (table : TokenTable) (token : Token) : Prop :=
  table.isKeyword token = true ∧
    token ∉ ['+', '-', '*', '/', '^', '<', '=', '>'].map table.tokenOfChar

/-- What may stand directly before a word. -/
def MayPrecede (table : TokenTable) (first word : Token) : Prop :=
  first = .space ∨ first ∈ [':', '(', ','].map table.tokenOfChar ∨ table.IsJump first word

/-- What may stand directly after a word. -/
def MayFollow (table : TokenTable) (word next : Token) : Prop :=
  next = .space ∨ next = table.tokenOfChar ',' ∨
    next ∈ [':', '(', ')', '+', '-', '*', '/', '^', '<', '=', '>'].map table.tokenOfChar ∨
    table.IsJump word next

/-- Code in the normal form of spacing. -/
structure WellSpaced (table : TokenTable) (tokens : List Token) : Prop where
  single : ¬[.space, .space] <:+: tokens
  after : ∀ c ∈ [':', '(', ','], ¬[table.tokenOfChar c, .space] <:+: tokens
  before : ¬[.space, table.tokenOfChar ','] <:+: tokens
  joined : ∀ first second, table.IsJump first second → ¬[first, .space, second] <:+: tokens
  preceded : ∀ first word, [first, word] <:+: tokens → table.IsWord word →
    table.MayPrecede first word
  followed : ∀ word rest, word :: rest <:+ tokens → table.IsWord word →
    ∃ next, rest.head? = some next ∧ table.MayFollow word next

/-- A regular table in which the punctuation is no keyword and the jumps have all of their words. -/
structure Punctuated (table : TokenTable) : Prop where
  regular : table.Regular
  plain : ∀ c ∈ [':', '(', ')', ','], table.tokenOfText? [c] = none
  jumps : ∀ word ∈ [['G', 'O'], ['T', 'O'], ['S', 'U', 'B']], (table.tokenOfText? word).isSome

variable {table : TokenTable} {tokens : List Token} {gap : Gap Token}

section Words

theorem Punctuated.mem_jumpPairs_iff (h : table.Punctuated) {first second : Token} :
    (first, second) ∈ table.jumpPairs ↔ table.IsJump first second := by
  obtain ⟨goToken, hgo⟩ := Option.isSome_iff_exists.1 (h.jumps ['G', 'O'] (by simp))
  obtain ⟨toToken, hto⟩ := Option.isSome_iff_exists.1 (h.jumps ['T', 'O'] (by simp))
  obtain ⟨subToken, hsub⟩ := Option.isSome_iff_exists.1 (h.jumps ['S', 'U', 'B'] (by simp))
  simp only [jumpPairs, IsJump, hgo, hto, hsub, List.mem_cons, List.not_mem_nil, or_false,
    Prod.mk.injEq, Option.some.injEq]
  grind

theorem Punctuated.splitsJump_iff (h : table.Punctuated) {first second : Token} {count : Nat} :
    table.splitsJump ⟨some first, some second, count⟩ = true ↔ table.IsJump first second := by
  rw [← h.mem_jumpPairs_iff, splitsJump, List.any_eq_true]
  simp only [Option.some.injEq, decide_eq_true_eq, Prod.exists]
  grind

/-- Punctuation is no keyword. -/
theorem Punctuated.isKeyword_tokenOfChar (h : table.Punctuated) {c : Char}
    (hc : c ∈ [':', '(', ')', ',']) : table.isKeyword (table.tokenOfChar c) = false := by
  have hsmall : c.toNat < 0x80 := by
    have hall : [':', '(', ')', ','].all (·.toNat < 0x80) = true := by decide
    exact of_decide_eq_true (List.all_eq_true.1 hall c hc)
  cases hfound : table.keywordOfToken? (table.tokenOfChar c) with
  | none => rw [isKeyword, hfound]; rfl
  | some keyword =>
      -- The keyword would be shown as the character, and so it would be listed with this text.
      have hshown := h.regular.shown_tokenOfChar hsmall
      simp only [shown, textOfToken?, hfound, Option.getD_some] at hshown
      have hlisted := tokenOfText?_eq_some_iff.2
        ⟨keyword, List.mem_of_find?_eq_some hfound, hshown, rfl⟩
      rw [h.plain c hc] at hlisted
      cases hlisted

theorem Punctuated.ne_tokenOfChar (h : table.Punctuated) {word : Token} (hword : table.IsWord word)
    {c : Char} (hc : c ∈ [':', '(', ')', ',']) : word ≠ table.tokenOfChar c := by
  rintro rfl
  have hkeyword := hword.1
  rw [h.isKeyword_tokenOfChar hc] at hkeyword
  cases hkeyword

/-- The words are the tokens that get a space on either side. -/
theorem Punctuated.spaced (h : table.Punctuated) {word : Token} (hword : table.IsWord word) :
    (SpacingRules.ofTable table).spaced word = true := by
  show (table.isKeyword word && !(SpacingRules.ofTable table).tight.contains word) = true
  rw [hword.1, Bool.true_and, Bool.not_eq_true', ← Bool.not_eq_true, List.contains_iff_mem]
  intro htight
  obtain ⟨c, hc, rfl⟩ := List.mem_map.1 htight
  have hkind : c ∈ [':', '(', ')', ','] ∨ c ∈ ['+', '-', '*', '/', '^', '<', '=', '>'] := by
    simp only [List.mem_cons, List.not_mem_nil, or_false] at hc ⊢
    tauto
  rcases hkind with hpunctuation | hoperator
  · exact h.ne_tokenOfChar hword hpunctuation rfl
  · exact hword.2 (List.mem_map_of_mem hoperator)

theorem Punctuated.not_isWord_space (h : table.Punctuated) : ¬table.IsWord .space := by
  intro hword
  have hspaced := h.spaced hword
  rw [h.regular.spaceIsPlain.spaced] at hspaced
  cases hspaced

end Words

section Beside

theorem drops_pos_iff :
    0 < table.drops gap ↔
      gap.left ∈ [some table.colon, some (table.tokenOfChar '('), some (table.tokenOfChar ',')] ∨
        gap.right = some (table.tokenOfChar ',') := by
  unfold drops
  split_ifs <;> simp_all

/-- A space that is not left in a gap was the space of a jump or beside punctuation. -/
theorem splitsJump_or_drops (hspread : (SpacingRules.ofTable table).spreadCount gap = 1)
    (hnone : table.spacing gap = 0) : table.splitsJump gap = true ∨ 0 < table.drops gap := by
  by_cases hjump : table.splitsJump gap = true
  · exact .inl hjump
  · simp only [spacing, hspread] at hnone
    rw [if_neg fun hone => hjump hone.1] at hnone
    exact .inr (by omega)

/-- A gap beside a keyword is spread to a single space, unless an operator follows the keyword. -/
theorem spreadCount_eq_one {rules : SpacingRules} (hcount : gap.count ≤ 1)
    (hbeside : (gap.left.any rules.spaced ∧ ¬gap.right.any rules.tight.contains) ∨
      (gap.left.isSome ∧ gap.right.any rules.spaced)) : rules.spreadCount gap = 1 := by
  unfold SpacingRules.spreadCount
  by_cases hpos : 0 < gap.count
  · rw [if_pos hpos]
    omega
  · rw [if_neg hpos, if_pos hbeside]

theorem spacing_le_one (hcount : gap.count ≤ 1) : table.spacing gap ≤ 1 := by
  have hspread : (SpacingRules.ofTable table).spreadCount gap ≤ 1 := by
    unfold SpacingRules.spreadCount
    split_ifs <;> omega
  unfold spacing
  dsimp only
  split_ifs <;> omega

/-- No space is left before a word only if punctuation or the first word of a jump stands there. -/
theorem Punctuated.mayPrecede (h : table.Punctuated) {first word : Token} {count : Nat}
    (hword : table.IsWord word) (hcount : count ≤ 1)
    (hnone : table.spacing ⟨some first, some word, count⟩ = 0) : table.MayPrecede first word := by
  have hspread :
      (SpacingRules.ofTable table).spreadCount ⟨some first, some word, count⟩ = 1 :=
    spreadCount_eq_one hcount (.inr ⟨rfl, h.spaced hword⟩)
  rcases splitsJump_or_drops hspread hnone with hjump | hdrops
  · exact .inr (.inr (h.splitsJump_iff.1 hjump))
  · rcases drops_pos_iff.1 hdrops with hleft | hright
    · exact .inr (.inl (by simpa [colon] using hleft))
    · exact (h.ne_tokenOfChar hword (by simp) (Option.some.inj hright)).elim

/-- No space is left after a word only if something stands there that needs none. -/
theorem Punctuated.exists_mayFollow (h : table.Punctuated) {word : Token} {right : Option Token}
    {count : Nat} (hword : table.IsWord word) (hcount : count ≤ 1)
    (hnone : table.spacing ⟨some word, right, count⟩ = 0) :
    ∃ next, right = some next ∧ table.MayFollow word next := by
  by_cases htight : right.any (SpacingRules.ofTable table).tight.contains = true
  · obtain ⟨next, hnext, hmem⟩ := (Option.any_eq_true _ _).1 htight
    exact ⟨next, hnext, .inr (.inr (.inl (List.contains_iff_mem.1 hmem)))⟩
  · have hspread : (SpacingRules.ofTable table).spreadCount ⟨some word, right, count⟩ = 1 :=
      spreadCount_eq_one hcount (.inl ⟨h.spaced hword, htight⟩)
    rcases splitsJump_or_drops hspread hnone with hjump | hdrops
    · cases right with
      | none => simp [splitsJump] at hjump
      | some next => exact ⟨next, rfl, .inr (.inr (.inr (h.splitsJump_iff.1 hjump)))⟩
    · rcases drops_pos_iff.1 hdrops with hleft | hright
      · have hpunctuation : word ∈ [':', '(', ','].map table.tokenOfChar := by
          simpa [colon] using hleft
        obtain ⟨c, hc, rfl⟩ := List.mem_map.1 hpunctuation
        refine (h.ne_tokenOfChar hword ?_ rfl).elim
        simp only [List.mem_cons, List.not_mem_nil, or_false] at hc ⊢
        tauto
      · exact ⟨table.tokenOfChar ',', hright, .inr (.inl rfl)⟩

/-- Neighbours of code in the normal form. -/
structure Neighbours (table : TokenTable) (first second : Token) : Prop where
  single : ¬(first = .space ∧ second = .space)
  preceded : table.IsWord second → table.MayPrecede first second
  followed : table.IsWord first → table.MayFollow first second

/-- Respacing leaves a single space or none in a gap, and what it leaves is in the normal form. -/
theorem Punctuated.isChain_gap (h : table.Punctuated) (hcount : gap.count ≤ 1)
    (hleft : gap.left ≠ some .space) (hright : gap.right ≠ some .space) :
    (gap.left.toList ++
      (List.replicate (table.spacing gap) Token.space ++ gap.right.toList)).IsChain
        table.Neighbours := by
  obtain ⟨left, right, count⟩ := gap
  rcases Nat.le_one_iff_eq_zero_or_eq_one.1 (@spacing_le_one table _ hcount) with hnone | hone
  · rw [hnone]
    cases left with
    | none => cases right <;> simp
    | some first =>
        cases right with
        | none => simp
        | some second =>
            refine List.isChain_pair.2 ⟨fun hspaces => hleft (by rw [hspaces.1]), ?_, ?_⟩
            · exact fun hword => h.mayPrecede hword hcount hnone
            · intro hword
              obtain ⟨next, hnext, hfollow⟩ := h.exists_mayFollow hword hcount hnone
              rwa [Option.some.inj hnext]
  · have hbefore (first : Token) (hfirst : first ≠ .space) : table.Neighbours first .space :=
      ⟨fun hspaces => hfirst hspaces.1, fun hword => (h.not_isWord_space hword).elim,
        fun _ => .inl rfl⟩
    have hafter (second : Token) (hsecond : second ≠ .space) : table.Neighbours .space second :=
      ⟨fun hspaces => hsecond hspaces.2, fun _ => .inl rfl,
        fun hword => (h.not_isWord_space hword).elim⟩
    rw [hone]
    cases left with
    | none =>
        cases right with
        | none => simp
        | some second => exact List.isChain_pair.2 (hafter second (by simpa using hright))
    | some first =>
        have hfirst := hbefore first (by simpa using hleft)
        cases right with
        | none => exact List.isChain_pair.2 hfirst
        | some second =>
            exact List.isChain_cons_cons.2
              ⟨hfirst, List.isChain_pair.2 (hafter second (by simpa using hright))⟩

end Beside

section NormalForm

/-- Code without two spaces in a row is brought to the normal form gap by gap. -/
theorem Punctuated.wellSpaced_regap (h : table.Punctuated)
    (hsingle : ¬[.space, .space] <:+: tokens) :
    table.WellSpaced (Gap.regap .space table.spacing none 0 tokens) := by
  have hcount {gap : Gap Token} (hgap : gap ∈ Gap.gaps .space none 0 tokens) : gap.count ≤ 1 :=
    Gap.count_le_one_of_single hsingle hgap
  have hchain : (Gap.regap .space table.spacing none 0 tokens).IsChain table.Neighbours := by
    refine (Gap.isChain_regap_iff none 0 tokens).2 fun gap hgap => ?_
    obtain ⟨hleft, hright⟩ := Gap.ne_space_of_mem_gaps (by simp) hgap
    exact h.isChain_gap (hcount hgap) hleft hright
  have hsettled := IsSpacing.settled_of_single h.regular (.inl rfl) hsingle
  rw [Settled, joints_ofTable, List.forall_mem_append] at hsettled
  obtain ⟨hjumps, hpunctuation⟩ := hsettled
  have hpair {first second : Token}
      (hbeside : [first, second] <:+: Gap.regap .space table.spacing none 0 tokens) :
      table.Neighbours first second := by
    have hpart : [first, second].IsChain table.Neighbours := List.IsChain.infix hchain hbeside
    exact List.isChain_pair.1 hpart
  refine ⟨?_, ?_, ?_, ?_, ?_, ?_⟩
  · exact fun hbeside => (hpair hbeside).single ⟨rfl, rfl⟩
  · intro c hc
    refine hpunctuation ([table.tokenOfChar c, .space], [table.tokenOfChar c]) ?_
    simp only [List.mem_cons, List.not_mem_nil, or_false] at hc
    rcases hc with rfl | rfl | rfl <;> simp [punctuationJoints, colon]
  · exact hpunctuation ([.space, table.tokenOfChar ','], [table.tokenOfChar ','])
      (by simp [punctuationJoints])
  · intro first second hjump
    exact hjumps ([first, .space, second], [first, second])
      (List.mem_map.2 ⟨(first, second), h.mem_jumpPairs_iff.2 hjump, rfl⟩)
  · exact fun first word hbeside hword => (hpair hbeside).preceded hword
  · intro word rest hsuffix hword
    cases rest with
    | nil =>
        -- A word that came last would stand before a gap without a space, and nothing after it.
        have hlast : ((none : Option Token).toList ++
            Gap.regap .space table.spacing none 0 tokens).getLast? = some word :=
          List.singleton_suffix_iff_getLast?_eq_some.1 hsuffix
        have hspace : word ≠ .space := by
          rintro rfl
          exact h.not_isWord_space hword
        obtain ⟨⟨left, right, count⟩, hgap, rfl, rfl, hnone⟩ :=
          Gap.exists_gap_of_getLast? hspace hlast
        obtain ⟨next, hnext, -⟩ := h.exists_mayFollow hword (hcount hgap) hnone
        cases hnext
    | cons next rest =>
        have hbeside : [word, next] <:+: Gap.regap .space table.spacing none 0 tokens :=
          (List.prefix_append [word, next] rest).isInfix.trans hsuffix.isInfix
        exact ⟨next, rfl, (hpair hbeside).followed hword⟩

/-- The single mark is no keyword. -/
theorem Regular.mark_not_spaced (h : table.Regular) :
    (SpacingRules.ofTable table).spaced (.byte wordMark) = false := by
  have hnone : table.keywordOfToken? (.byte wordMark) = none := by
    rw [keywordOfToken?_eq_none_iff]
    intro keyword hmem hvalue
    have hmark : keyword.value.toNat = 0xFF := by
      rw [hvalue]
      rfl
    rcases h keyword hmem with hregular | hregular <;> omega
  show (table.isKeyword _ && _) = false
  rw [isKeyword, hnone]
  rfl

/-- The tokens of respaced code are the respaced tokens of the code. -/
theorem Regular.decode_respace (h : table.Regular) (code : Bytes) :
    Token.decode (table.respace code) =
      Gap.regap .space table.spacing none 0 (Token.decode code) := by
  have hmark : table.spacing ⟨some (.byte wordMark), none, 0⟩ = 0 := by
    have hspread :
        (SpacingRules.ofTable table).spreadCount ⟨some (.byte wordMark), none, 0⟩ = 0 := by
      simp [SpacingRules.spreadCount, h.mark_not_spaced]
    simp [spacing, hspread]
  rw [respace, h.respace_eq_regap]
  exact Token.decode_encode (Token.decodable_regap hmark (Token.decodable_decode code))

end NormalForm

end TokenTable

namespace Machine

theorem table_punctuated (machine : Machine) : machine.table.Punctuated where
  regular := machine.table_regular
  plain := by
    have htexts : ∀ keyword ∈ machine.keywords,
        [':', '(', ')', ','].all (fun c => keyword.text ≠ [c]) = true := by
      cases machine <;> decide +kernel
    intro c hc
    rw [Option.eq_none_iff_forall_ne_some]
    intro token htoken
    obtain ⟨keyword, hmem, htext, -⟩ := TokenTable.tokenOfText?_eq_some_iff.1 htoken
    exact of_decide_eq_true (List.all_eq_true.1 (htexts keyword hmem) c hc) htext
  jumps := by
    cases machine <;> decide +kernel

end Machine

namespace TokenTable

/-- Code without two spaces in a row is respaced to the normal form, with its other tokens as they
were. -/
theorem respace_wellSpaced (machine : Machine) (code : Bytes)
    (hsingle : ¬[.space, .space] <:+: Token.decode code) :
    SpacingRules.filled (Token.decode (machine.table.respace code)) =
        SpacingRules.filled (Token.decode code) ∧
      machine.table.WellSpaced (Token.decode (machine.table.respace code)) := by
  have hspaceable := machine.table_spaceable
  rw [machine.table_regular.decode_respace]
  constructor
  · rw [← machine.table_regular.respace_eq_regap]
    exact (hspaceable.steps_respace (Token.decode code)).filled_eq hspaceable.losesSpace
  · exact machine.table_punctuated.wellSpaced_regap hsingle

/-- Code with both jumps, with a space beside some of its punctuation, and with the mark at its
end. -/
def looseJumps : Bytes :=
  [0x88, 0x41, 0x28, 0x31, 0x20, 0x29, 0x81, 0x20, 0xBC, 0x31, 0x30, 0x20, 0x2C, 0x20, 0x81, 0xBD,
    0x32, 0x30, 0x3A, 0x20, 0x87, 0xFF]

theorem respace_wellSpaced_jumps :
    Machine.dragon32.table.respace looseJumps =
        [0x88, 0x20, 0x41, 0x28, 0x31, 0x20, 0x29, 0x20, 0x81, 0xBC, 0x20, 0x31, 0x30, 0x2C, 0x81,
          0xBD, 0x20, 0x32, 0x30, 0x3A, 0x87, 0x20, 0xFF] ∧
      ¬[.space, .space] <:+: Token.decode looseJumps ∧
      SpacingRules.filled (Token.decode (Machine.dragon32.table.respace looseJumps)) =
        SpacingRules.filled (Token.decode looseJumps) ∧
      Machine.dragon32.table.WellSpaced
        (Token.decode (Machine.dragon32.table.respace looseJumps)) := by
  have hsingle : ¬[.space, .space] <:+: Token.decode looseJumps := by decide +kernel
  exact ⟨by decide +kernel, hsingle, respace_wellSpaced .dragon32 looseJumps hsingle⟩

end TokenTable
end ColorBasic
