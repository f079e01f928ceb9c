import ColorBasic.Proofs.ListingLines
import ColorBasic.Proofs.SafeSpacing
import ColorBasic.Respacing

/-!
# Respaced lines are stored as they are listed

Respacing takes a line segment by segment and drops the spaces that meet a literal or the end of the
line.  Seen as tokens this is one run of spacing steps over the whole line, so the text of a respaced
line is scanned as the respaced tokens and storing it gives the respaced line again.
-/

namespace ColorBasic

open SpacingRules (Steps LosesSpace filled)

namespace Token

/-- A token that is read back whatever follows it, and that ends like a space only if it is one. -/
structure Clean (token : Token) : Prop where
  selfDelimiting : token.SelfDelimiting
  last : token.bytes.getLast? = some 0x20 → token = .space

theorem clean_space : Clean .space where
  selfDelimiting := by
    show (0x20 : UInt8) ≠ wordMark
    decide
  last _ := rfl

theorem decodable_of_clean {tokens : List Token} (h : ∀ token ∈ tokens, token.Clean) :
    Decodable tokens := by
  induction tokens with
  | nil => exact decodable_nil
  | cons token tokens ih =>
      rw [List.forall_mem_cons] at h
      exact (ih h.2).cons h.1.selfDelimiting

theorem bytes_ne_nil (token : Token) : token.bytes ≠ [] := by
  cases token <;> simp [bytes, wordBytes]

theorem getLast?_bytes_ofValue (value : UInt16) :
    (ofValue value).bytes.getLast? = some value.toUInt8 := by
  unfold ofValue
  split <;> rfl

end Token

namespace TokenTable

variable {table : TokenTable} {tokens : List Token}

/-- The stored form of tokens, with the hidden colons put in. -/
def storeTokens (table : TokenTable) (tokens : List Token) : Bytes :=
  Token.encode (insertColons table.colon table.colonTargets tokens)

@[simp] theorem storeTokens_append (table : TokenTable) (first second : List Token) :
    table.storeTokens (first ++ second) = table.storeTokens first ++ table.storeTokens second := by
  simp [storeTokens, insertColons]

theorem storeTokens_singleton (table : TokenTable) (token : Token) :
    ∃ front, table.storeTokens [token] = front ++ token.bytes := by
  by_cases htarget : token ∈ table.colonTargets
  · exact ⟨table.colon.bytes, by simp [storeTokens, htarget]⟩
  · exact ⟨[], by simp [storeTokens, htarget]⟩

theorem Regular.storeTokens_space (h : table.Regular) : table.storeTokens [.space] = [0x20] := by
  have htarget : Token.space ∉ table.colonTargets :=
    (h.keepsChar (show ' '.toNat < 0x80 by decide)).byte_not_mem_colonTargets
  rw [storeTokens, insertColons_eq_self (by simpa using htarget)]
  rfl

/-- Dropping the spaces at the end of stored code drops the space tokens. -/
theorem Regular.rdropWhile_storeTokens (h : table.Regular)
    (hclean : ∀ token ∈ tokens, token.Clean) :
    (table.storeTokens tokens).rdropWhile (· = 0x20) =
      table.storeTokens (tokens.rdropWhile (· = .space)) := by
  induction tokens using List.reverseRecOn with
  | nil => rfl
  | append_singleton tokens token ih =>
      rw [List.forall_mem_append, List.forall_mem_singleton] at hclean
      rw [storeTokens_append]
      by_cases hspace : token = .space
      · subst hspace
        rw [h.storeTokens_space, List.rdropWhile_concat_pos _ _ _ (by simp),
          List.rdropWhile_concat_pos _ _ _ (by simp), ih hclean.1]
      · -- The last token is no space, so its last byte is none either.
        obtain ⟨front, hfront⟩ := table.storeTokens_singleton token
        rw [List.rdropWhile_concat_neg _ _ _ (by simpa using hspace), storeTokens_append, hfront,
          List.rdropWhile_eq_self_iff]
        intro hne hlast
        apply hspace
        apply hclean.2.last
        have hend := List.getLast?_eq_some_getLast hne
        rw [of_decide_eq_true hlast, ← List.append_assoc,
          List.getLast?_append_of_ne_nil _ token.bytes_ne_nil] at hend
        exact hend

theorem Regular.revealCode_storeTokens (h : table.Regular)
    (hclean : ∀ token ∈ tokens, token.Clean) :
    table.revealCode (table.storeTokens tokens) = Token.encode tokens := by
  rw [revealCode, storeTokens,
    Token.decode_encode (decodable_insertColons h.colon_selfDelimiting
      (Token.decodable_of_clean hclean)),
    removeColons_insertColons h.colon_not_mem_colonTargets]

theorem Regular.spaceIsPlain (h : table.Regular) : (SpacingRules.ofTable table).SpaceIsPlain where
  tight hmem := by
    obtain ⟨c, hc, htoken⟩ := List.mem_map.1 hmem
    have hsmall : c.toNat < 0x80 ∧ c ≠ ' ' := by
      have hall : [':', '(', ')', '+', '-', '*', '/', '^', '<', '=', '>'].all
          (fun c => c.toNat < 0x80 ∧ c ≠ ' ') = true := by
        decide +kernel
      exact of_decide_eq_true (List.all_eq_true.1 hall c hc)
    have hshown := h.shown_tokenOfChar hsmall.1
    rw [htoken, h.shown_space] at hshown
    exact hsmall.2 (List.singleton_inj.1 hshown).symm
  spaced := by
    have hnone : table.keywordOfToken? .space = none := by
      rw [keywordOfToken?_eq_none_iff]
      intro keyword hmem hvalue
      exact h.byte_ne_token hmem (show (0x20 : UInt8).toNat < 0x80 by decide) (by
        rw [Keyword.token, hvalue]
        rfl)
    show (table.isKeyword .space && _) = false
    rw [isKeyword, hnone]
    rfl

theorem Spaceable.losesSpace (h : table.Spaceable) :
    ∀ joint ∈ table.lineJoints, LosesSpace joint :=
  fun joint hjoint => (h.safeJoint joint hjoint).losesSpace

theorem Spaceable.steps_respace (h : table.Spaceable) (tokens : List Token) :
    Steps table.lineJoints tokens ((SpacingRules.ofTable table).respace tokens) := by
  refine Steps.mono (List.subset_cons_self _ _)
    (SpacingRules.steps_respace h.regular.spaceIsPlain (fun joint hjoint => ?_) tokens)
  obtain ⟨first, second, hform⟩ := h.losesSpace joint (List.mem_cons_of_mem _ hjoint)
  simp [hform]

theorem Spaceable.clean_of_steps (h : table.Spaceable) {new : List Token}
    (hclean : ∀ token ∈ tokens, token.Clean) (hsteps : Steps table.lineJoints tokens new) :
    ∀ token ∈ new, token.Clean := by
  intro token hmem
  rcases hsteps.mem_or_eq_space h.losesSpace hmem with hold | rfl
  · exact hclean token hold
  · exact Token.clean_space

theorem Spaceable.respaceStored_storeTokens (h : table.Spaceable)
    (hclean : ∀ token ∈ tokens, token.Clean) :
    table.respaceStored (table.storeTokens tokens) =
      table.storeTokens ((SpacingRules.ofTable table).respace tokens) := by
  have hrespaced := h.clean_of_steps hclean (h.steps_respace tokens)
  rw [respaceStored, h.regular.revealCode_storeTokens hclean, respace,
    Token.decode_encode (Token.decodable_of_clean hclean), hideColons,
    Token.decode_encode (Token.decodable_of_clean hrespaced)]
  rfl

/-- The tokens of keywords and of characters of seven bits are clean. -/
theorem Spaceable.clean_token (h : table.Spaceable) {lexeme : Lexeme}
    (hkept : lexeme.KeptBy table) (hascii : ∀ c ∈ lexeme.text, c.toNat < 0x80) :
    lexeme.token.Clean := by
  cases lexeme with
  | keyword k =>
      refine ⟨(h.regular k hkept).selfDelimiting, fun hlast => ?_⟩
      rw [Lexeme.token, Keyword.token, Token.getLast?_bytes_ofValue] at hlast
      exact (h.low k hkept (Option.some.inj hlast)).elim
  | plain c =>
      constructor
      · intro hmark
        have hvalue := congrArg UInt8.toNat hmark
        rw [toNat_storedByte hkept.1] at hvalue
        have hsmall := hascii c (List.mem_singleton_self c)
        have hmarkValue : wordMark.toNat = 0xFF := rfl
        omega
      · intro hlast
        exact congrArg Token.byte (Option.some.inj hlast)

end TokenTable

namespace Segment

variable {table : TokenTable} {segment : Segment}

/-- The tokens of a segment, without hidden colons. -/
def tokens (table : TokenTable) (segment : Segment) : List Token :=
  (segment.lexemes table).map Lexeme.token

/-- A segment that is stored as its tokens. -/
structure Tokenized (table : TokenTable) (segment : Segment) : Prop where
  stored : segment.stored table = table.storeTokens (segment.tokens table)
  clean : ∀ token ∈ segment.tokens table, token.Clean
  ne_nil : segment.tokens table ≠ []

/-- The tokens of a segment, respaced if it is code. -/
def respacedTokens (table : TokenTable) (segment : Segment) : List Token :=
  match segment.kind with
  | .code => (SpacingRules.ofTable table).respace (segment.tokens table)
  | _ => segment.tokens table

theorem respacedTokens_of_literal (h : segment.kind ≠ .code) :
    segment.respacedTokens table = segment.tokens table := by
  unfold respacedTokens
  split
  · contradiction
  · rfl

theorem respaced_of_literal (h : segment.kind ≠ .code) :
    segment.respaced table = segment.stored table := by
  unfold respaced
  split
  · contradiction
  · rfl

theorem Tokenized.respaced_eq (htable : table.Spaceable) (h : segment.Tokenized table) :
    segment.respaced table = table.storeTokens (segment.respacedTokens table) := by
  by_cases hkind : segment.kind = .code
  · simp only [respaced, respacedTokens, hkind]
    rw [h.stored, htable.respaceStored_storeTokens h.clean]
  · rw [respaced_of_literal hkind, respacedTokens_of_literal hkind, h.stored]

theorem steps_respacedTokens (htable : table.Spaceable) (segment : Segment) :
    Steps table.lineJoints (segment.tokens table) (segment.respacedTokens table) := by
  unfold respacedTokens
  split
  · exact htable.steps_respace _
  · exact .refl

/-- A literal that begins with the byte of a space begins with a space. -/
theorem exists_space_of_literal (hkind : segment.kind ≠ .code)
    (hhead : (segment.stored table).head? = some 0x20) :
    ∃ rest, segment.tokens table = .space :: rest := by
  rw [stored_of_literal hkind, Text.stored, List.head?_map] at hhead
  obtain ⟨c, hc, hbyte⟩ := Option.map_eq_some_iff.1 hhead
  obtain ⟨others, htext⟩ := List.head?_eq_some_iff.1 hc
  refine ⟨others.map fun c => .byte (Text.storedByte c), ?_⟩
  rw [tokens, lexemes_of_literal hkind, htext, List.map_map, List.map_cons]
  congr 1
  exact congrArg Token.byte hbyte

end Segment

namespace RespacedPart

variable {table : TokenTable} {old new : List Token} {part : RespacedPart} {segment : Segment}

/-- The part of a line that is respaced so far, as a run of steps from its tokens. -/
structure Follows (table : TokenTable) (old new : List Token) (part : RespacedPart) : Prop where
  bytes : part.reversed.reverse = table.storeTokens new
  steps : Steps table.lineJoints old new
  last : part.endsInCode = false → new.getLast? = old.getLast?

theorem reverse_dropSpaces (part : RespacedPart) :
    part.dropSpaces.reverse = part.reversed.reverse.rdropWhile (· = 0x20) := by
  rw [dropSpaces, List.rdropWhile, List.reverse_reverse]

/-- Spaces in front of a space can be dropped. -/
theorem steps_rdropWhile (table : TokenTable) (tokens rest : List Token) :
    Steps table.lineJoints (tokens ++ .space :: rest)
      (tokens.rdropWhile (· = .space) ++ .space :: rest) := by
  induction tokens using List.reverseRecOn with
  | nil => exact .refl
  | append_singleton tokens token ih =>
      by_cases hspace : token = .space
      · subst hspace
        rw [List.rdropWhile_concat_pos _ _ _ (by simp), List.append_assoc]
        exact Relation.ReflTransGen.head (.join List.mem_cons_self tokens rest) ih
      · rw [List.rdropWhile_concat_neg _ _ _ (by simpa using hspace)]

theorem Follows.append (htable : table.Spaceable) (hclean : ∀ token ∈ old, token.Clean)
    (hpart : part.Follows table old new) (hsegment : segment.Tokenized table) :
    ∃ next, (part.append table segment).Follows table (old ++ segment.tokens table) next := by
  have hown := hsegment.respaced_eq htable
  have hsteps : Steps table.lineJoints (old ++ segment.tokens table)
      (new ++ segment.respacedTokens table) :=
    (hpart.steps.append_right _).trans
      ((Segment.steps_respacedTokens htable segment).append_left new)
  have hlast {kept : List Token} (hkind : segment.kind ≠ .code) :
      (kept ++ segment.respacedTokens table).getLast? =
        (old ++ segment.tokens table).getLast? := by
    rw [Segment.respacedTokens_of_literal hkind, List.getLast?_append_of_ne_nil _ hsegment.ne_nil,
      List.getLast?_append_of_ne_nil _ hsegment.ne_nil]
  -- Spaces are dropped only where the next segment brings one of its own.
  by_cases hdrop : part.endsInCode ∧ segment.kind ≠ .code ∧
      (segment.respaced table).head? = some 0x20
  · refine ⟨new.rdropWhile (· = .space) ++ segment.respacedTokens table, ?_, ?_, ?_⟩
    · have hreversed : (part.append table segment).reversed =
          (segment.respaced table).reverse ++ part.dropSpaces := by
        simp only [RespacedPart.append, if_pos hdrop]
      rw [hreversed, List.reverse_append, List.reverse_reverse, reverse_dropSpaces, hpart.bytes,
        hown, htable.regular.rdropWhile_storeTokens (htable.clean_of_steps hclean hpart.steps),
        TokenTable.storeTokens_append]
    · obtain ⟨-, hkind, hhead⟩ := hdrop
      rw [Segment.respaced_of_literal hkind] at hhead
      obtain ⟨rest, hrest⟩ := Segment.exists_space_of_literal hkind hhead
      rw [Segment.respacedTokens_of_literal hkind, hrest] at hsteps ⊢
      exact hsteps.trans (steps_rdropWhile table new rest)
    · exact fun _ => hlast hdrop.2.1
  · refine ⟨new ++ segment.respacedTokens table, ?_, hsteps, ?_⟩
    · have hreversed : (part.append table segment).reversed =
          (segment.respaced table).reverse ++ part.reversed := by
        simp only [RespacedPart.append, if_neg hdrop]
      rw [hreversed, List.reverse_append, List.reverse_reverse, hpart.bytes, hown,
        TokenTable.storeTokens_append]
    · intro hcode
      exact hlast (of_decide_eq_false hcode)

/-- The segments of a line are respaced one after another. -/
theorem Follows.foldl (htable : table.Spaceable) {segments : List Segment}
    (hclean : ∀ token ∈ old, token.Clean) (hpart : part.Follows table old new)
    (hsegments : ∀ segment ∈ segments, segment.Tokenized table) :
    ∃ next, (segments.foldl (RespacedPart.append table) part).Follows table
      (old ++ segments.flatMap (Segment.tokens table)) next := by
  induction segments generalizing part old new with
  | nil => exact ⟨new, by simpa using hpart⟩
  | cons segment segments ih =>
      rw [List.forall_mem_cons] at hsegments
      obtain ⟨next, hnext⟩ := hpart.append htable hclean hsegments.1
      rw [List.foldl_cons, List.flatMap_cons, ← List.append_assoc]
      refine ih ?_ hnext hsegments.2
      rw [List.forall_mem_append]
      exact ⟨hclean, hsegments.1.clean⟩

end RespacedPart

namespace TokenTable

variable {table : TokenTable} {code : Text}

/-- The tokens of the code of a line, without hidden colons. -/
def lineTokens (table : TokenTable) (code : Text) : List Token :=
  (table.lineLexemes code).map Lexeme.token

theorem lineTokens_eq (table : TokenTable) (code : Text) :
    table.lineTokens code = (Segment.classify table code).flatMap (Segment.tokens table) := by
  rw [lineTokens, lineLexemes, List.map_flatMap]
  rfl

/-- Every lexeme of a line is part of its text. -/
theorem subset_of_mem_lineLexemes {lexeme : Lexeme} (h : lexeme ∈ table.lineLexemes code) :
    lexeme.text ⊆ code := by
  intro c hc
  rw [← table.flatMap_text_lineLexemes code]
  exact List.mem_flatMap.2 ⟨lexeme, h, hc⟩

theorem Spaceable.tokenized (htable : table.Spaceable) (hcode : ∀ c ∈ code, c.toNat < 0x80)
    {segment : Segment} (hsegment : segment ∈ Segment.classify table code) :
    segment.Tokenized table := by
  have hlossless := lossless_of_ascii htable.regular hcode
  have hmem : ∀ lexeme ∈ segment.lexemes table, lexeme ∈ table.lineLexemes code :=
    fun lexeme hlexeme => List.mem_flatMap.2 ⟨segment, hsegment, hlexeme⟩
  refine ⟨hlossless.stored_segment htable.regular hsegment, fun token htoken => ?_, fun hnil => ?_⟩
  · obtain ⟨lexeme, hlexeme, rfl⟩ := List.mem_map.1 htoken
    refine htable.clean_token (hlossless.keptBy lexeme (hmem lexeme hlexeme)) fun c hc => ?_
    exact hcode c (subset_of_mem_lineLexemes (hmem lexeme hlexeme) hc)
  · apply Segment.text_ne_nil_of_mem_classify hsegment
    rw [← Segment.flatMap_text_lexemes table, List.map_eq_nil_iff.1 hnil]
    rfl

/-- A line of code does not end with a space token. -/
theorem Spaceable.getLast?_lineTokens (htable : table.Spaceable)
    (hcode : ∀ c ∈ code, c.toNat < 0x80) (hends : code.EndsFilled) :
    (table.lineTokens code).getLast? ≠ some .space := by
  intro hlast
  rw [lineTokens, List.getLast?_map] at hlast
  obtain ⟨lexeme, hlexeme, htoken⟩ := Option.map_eq_some_iff.1 hlast
  obtain ⟨front, hfront⟩ := List.getLast?_eq_some_iff.1 hlexeme
  have hkept := (lossless_of_ascii htable.regular hcode).keptBy lexeme (by simp [hfront])
  have hspace := htable.regular.eq_space_of_token_eq hkept htoken
  have hblank := hends ' ' (by
    rw [← table.flatMap_text_lineLexemes code, hfront, hspace, List.flatMap_append]
    exact List.getLast?_concat)
  exact absurd hblank (by decide)

/-- The respaced code of a line is what steps leave of its tokens, less the spaces at its end. -/
theorem Spaceable.exists_tokens_respaceCode (htable : table.Spaceable)
    (hcode : ∀ c ∈ code, c.toNat < 0x80) (hends : code.EndsFilled) :
    ∃ new trailing, Line.respaceCode table code = table.storeTokens new ∧
      Steps table.lineJoints (table.lineTokens code) (new ++ trailing) ∧
        (∀ token ∈ trailing, token = .space) ∧
          new.getLast? = (table.lineTokens code).getLast? := by
  have hstart : RespacedPart.Follows table [] [] ⟨[], false⟩ := ⟨rfl, .refl, fun _ => rfl⟩
  have hclean : ∀ token ∈ table.lineTokens code, token.Clean := by
    intro token htoken
    rw [lineTokens_eq] at htoken
    obtain ⟨segment, hsegment, hmem⟩ := List.mem_flatMap.1 htoken
    exact (htable.tokenized hcode hsegment).clean token hmem
  obtain ⟨mid, hmid⟩ := hstart.foldl htable (by simp) fun segment => htable.tokenized hcode
  rw [List.nil_append, ← lineTokens_eq] at hmid
  unfold Line.respaceCode RespacedPart.code
  generalize (Segment.classify table code).foldl (RespacedPart.append table) ⟨[], false⟩ = part
    at hmid ⊢
  by_cases hend : part.endsInCode = true
  · have htrailing : ∀ token ∈ mid.rtakeWhile (· = .space), token = .space := by
      intro token htoken
      simpa using List.mem_rtakeWhile_imp htoken
    refine ⟨mid.rdropWhile (· = .space), mid.rtakeWhile (· = .space), ?_, ?_, htrailing, ?_⟩
    · rw [if_pos hend, RespacedPart.reverse_dropSpaces, hmid.bytes,
        htable.regular.rdropWhile_storeTokens (htable.clean_of_steps hclean hmid.steps)]
    · rw [List.rdropWhile_append_rtakeWhile]
      exact hmid.steps
    · -- Neither the line nor what is kept ends with a space, and all else they have in common.
      have hkept : (mid.rdropWhile (· = .space)).getLast? ≠ some .space := by
        intro hlast
        obtain ⟨hne, hspace⟩ := List.mem_getLast?_eq_getLast hlast
        exact List.rdropWhile_last_not _ mid hne (by simp [← hspace])
      have hfilled : filled (mid.rdropWhile (· = .space)) = filled (table.lineTokens code) := by
        rw [← SpacingRules.filled_append_spaces htrailing, List.rdropWhile_append_rtakeWhile,
          hmid.steps.filled_eq htable.losesSpace]
      rw [← SpacingRules.getLast?_filled hkept, hfilled,
        SpacingRules.getLast?_filled (htable.getLast?_lineTokens hcode hends)]
  · rw [Bool.not_eq_true] at hend
    refine ⟨mid, [], ?_, ?_, by simp, hmid.last hend⟩
    · rw [if_neg (by simp [hend]), hmid.bytes]
    · rw [List.append_nil]
      exact hmid.steps

theorem Regular.filter_storeTokens (h : table.Regular) (tokens : List Token) :
    (table.storeTokens tokens).filter (· ≠ 0x20) =
      (table.storeTokens (filled tokens)).filter (· ≠ 0x20) := by
  induction tokens with
  | nil => rfl
  | cons token tokens ih =>
      rw [← List.singleton_append, storeTokens_append, SpacingRules.filled_append,
        storeTokens_append, List.filter_append, List.filter_append, ih]
      by_cases hspace : token = .space
      · subst hspace
        rw [h.storeTokens_space]
        rfl
      · have hself : filled [token] = [token] := by simp [filled, hspace]
        rw [hself]

/-- A text that is stored as the respaced form of a line, and that a listing line can hold. -/
structure Respaced (table : TokenTable) (code respaced : Text) : Prop where
  isCode : respaced.IsCode
  ascii : ∀ c ∈ respaced, c.toNat < 0x80
  stored : table.storeCode respaced = Line.respaceCode table code

theorem lineLexemes_of_scanned {lexemes : List Lexeme} (h : table.Scanned .code lexemes) :
    table.lineLexemes (lexemes.flatMap Lexeme.text) = lexemes := by
  rw [lineLexemes_eq_scan]
  exact h

/-- Lossless texts end alike if their tokens do. -/
theorem Lossless.getLast?_eq {other : Text} (hcode : table.Lossless code)
    (hother : table.Lossless other)
    (h : (table.lineTokens other).getLast? = (table.lineTokens code).getLast?) :
    other.getLast? = code.getLast? := by
  have hlast {text : Text} (htext : table.Lossless text) :
      text.getLast? = (table.lineTokens text).getLast?.bind fun token =>
        (table.shown token).getLast? := by
    conv_lhs => rw [← table.flatMap_text_lineLexemes text]
    rw [lineTokens]
    have hkept := htext.keptBy
    generalize table.lineLexemes text = lexemes at hkept
    induction lexemes using List.reverseRecOn with
    | nil => rfl
    | append_singleton front lexeme _ =>
        have hlexeme := hkept lexeme (by simp)
        rw [List.flatMap_append, List.flatMap_singleton,
          List.getLast?_append_of_ne_nil _ hlexeme.text_ne_nil, List.map_append,
          List.map_singleton, List.getLast?_concat, Option.bind_some, hlexeme.shown.1]
  rw [hlast hother, h, hlast hcode]

/-- The respaced form of a line is the stored form of a text. -/
theorem Spaceable.exists_respaced (htable : table.Spaceable)
    (hascii : ∀ c ∈ code, c.toNat < 0x80) (hcode : code.IsCode) :
    ∃ respaced, table.Respaced code respaced := by
  obtain ⟨new, trailing, hrespaced, hsteps, -, hlast⟩ :=
    htable.exists_tokens_respaceCode hascii hcode.last
  have hlossless := lossless_of_ascii htable.regular hascii
  have hscanned : table.Scanned .code (table.lineLexemes code) := by
    rw [Scanned, table.flatMap_text_lineLexemes code, lineLexemes_eq_scan]
  obtain ⟨lexemes, hlexemes, hmem, hnext⟩ :=
    htable.exists_scanned_of_steps hlossless.keptBy hscanned hsteps
  obtain ⟨kept, dropped, rfl, rfl, -⟩ := List.map_eq_append_iff.1 hlexemes
  -- Nothing comes in but spaces, so the text keeps to seven bits and to one line.
  have hchars : ∀ c ∈ kept.flatMap Lexeme.text, c ∈ code ∨ c = ' ' := by
    intro c hc
    obtain ⟨lexeme, hlexeme, hc⟩ := List.mem_flatMap.1 hc
    rcases hmem lexeme (List.mem_append_left _ hlexeme) with hold | rfl
    · exact .inl (subset_of_mem_lineLexemes hold hc)
    · exact .inr (List.mem_singleton.1 hc)
  have hkeptAscii : ∀ c ∈ kept.flatMap Lexeme.text, c.toNat < 0x80 := by
    intro c hc
    rcases hchars c hc with hold | rfl
    · exact hascii c hold
    · decide
  have hkeptLossless := lossless_of_ascii htable.regular hkeptAscii
  -- What is dropped stands at the end, so the rest is scanned alone as it is with it.
  have hlexemes := lineLexemes_of_scanned hnext.of_append
  have hends : (kept.flatMap Lexeme.text).getLast? = code.getLast? := by
    apply hlossless.getLast?_eq hkeptLossless
    rw [lineTokens, hlexemes, hlast]
  refine ⟨kept.flatMap Lexeme.text, ⟨?_, ?_, ?_⟩, hkeptAscii, ?_⟩
  · rw [Ne, ← List.getLast?_eq_none_iff, hends, List.getLast?_eq_none_iff]
    exact hcode.ne_nil
  · exact fun c hc => hcode.last c (hends ▸ hc)
  · intro hfeed
    rcases hchars _ hfeed with hold | hspace
    · exact hcode.no_feed hold
    · exact absurd hspace (by decide)
  · rw [hkeptLossless.storeCode_eq htable.regular, hlexemes, hrespaced]
    rfl

/-- Respacing a line keeps all of its stored code but the spaces. -/
theorem Spaceable.filter_respaceCode (htable : table.Spaceable)
    (hascii : ∀ c ∈ code, c.toNat < 0x80) (hcode : code.EndsFilled) :
    (Line.respaceCode table code).filter (· ≠ 0x20) =
      (table.storeCode code).filter (· ≠ 0x20) := by
  obtain ⟨new, trailing, hrespaced, hsteps, htrailing, -⟩ :=
    htable.exists_tokens_respaceCode hascii hcode
  have hfilled := hsteps.filled_eq htable.losesSpace
  rw [SpacingRules.filled_append_spaces htrailing] at hfilled
  rw [hrespaced, htable.regular.filter_storeTokens, hfilled, ← htable.regular.filter_storeTokens,
    (lossless_of_ascii htable.regular hascii).storeCode_eq htable.regular]
  rfl

end TokenTable
end ColorBasic
