import ColorBasic.Proofs.GapSpacing
import ColorBasic.Proofs.LineParts
import ColorBasic.Proofs.RespacedListing

/-!
# The parts of a respaced line

Respacing a line leaves its parts in their order and its strings as they are.  Code is respaced gap
by gap, and loses the spaces at its end unless a string follows.  What a keyword opens begins with a
space afterwards, whether it did before or not.
-/

namespace ColorBasic

namespace Lexeme

/-- Lexemes with as many spaces in each gap as the rule for their tokens says. -/
def regap (rule : Gap Token → Nat) (run : List Lexeme) : List Lexeme :=
  Gap.regap (.plain ' ') (fun gap => rule (gap.map token)) none 0 run

/-- The end of a line is the end of what remains of it. -/
theorem getLast?_ne_of_append {first second : List Lexeme} {lexeme : Lexeme}
    (h : (first ++ second).getLast? ≠ some lexeme) : second.getLast? ≠ some lexeme :=
  fun hlast => h (by simp [List.getLast?_append, hlast])

theorem map_token_regap {table : TokenTable} (hregular : table.Regular) {rule : Gap Token → Nat}
    {run : List Lexeme} (h : ∀ lexeme ∈ run, lexeme.KeptBy table) :
    (regap rule run).map token = Gap.regap .space rule none 0 (run.map token) := by
  have hspace : token (.plain ' ') = .space := rfl
  rw [regap, Gap.map_regap, hspace]
  · rfl
  · intro lexeme hmem heq
    exact hregular.eq_space_of_token_eq (h lexeme hmem) (heq.trans hspace)

end Lexeme

namespace Stretch

/-- A part of a respaced line, and the part that comes in between it and the next one. -/
def respaced (table : TokenTable) (next : Option Stretch) (part : Stretch) : List Stretch :=
  match part.kind, next.map kind with
  | .code, some .string => [code (Lexeme.regap table.spacing part.lexemes)]
  | .code, some .code =>
    [code (Lexeme.regap (Gap.closed table.spacing) part.lexemes), literal .data [' ']]
  | .code, _ => [code (Lexeme.regap (Gap.closed table.spacing) part.lexemes)]
  | .string, _ => [part]
  | kind, _ => [⟨kind, Gap.led (.plain ' ') part.lexemes⟩]

/-- The parts of a respaced line. -/
def respacedAll (table : TokenTable) : List Stretch → List Stretch
  | [] => []
  | part :: rest => part.respaced table rest.head? ++ respacedAll table rest

/-- The tokens of the parts of a line. -/
def allTokens (parts : List Stretch) : List Token := (allLexemes parts).map Lexeme.token

section Equations

variable {table : TokenTable} {next : Option Stretch} {run : List Lexeme}

theorem respaced_string {part : Stretch} (h : part.kind = .string) :
    part.respaced table next = [part] := by
  simp [respaced, h]

theorem respaced_literal {kind : SegmentKind} (hkind : kind = .comment ∨ kind = .data)
    (text : Text) :
    (literal kind text).respaced table next = [literal kind (Gap.led ' ' text)] := by
  have hinj : Function.Injective Lexeme.plain := fun _ _ h => Lexeme.plain.inj h
  rw [literal, literal, Gap.map_led hinj]
  rcases hkind with rfl | rfl <;> rfl

theorem respaced_before_string (h : next.map kind = some .string) :
    (code run).respaced table next = [code (Lexeme.regap table.spacing run)] := by
  rw [respaced, h]
  rfl

theorem respaced_before_code (h : next.map kind = some .code) :
    (code run).respaced table next =
      [code (Lexeme.regap (Gap.closed table.spacing) run), literal .data [' ']] := by
  rw [respaced, h]
  rfl

theorem respaced_before_literal (hcode : next.map kind ≠ some .code)
    (hstring : next.map kind ≠ some .string) :
    (code run).respaced table next = [code (Lexeme.regap (Gap.closed table.spacing) run)] := by
  unfold respaced
  cases hkind : next.map kind with
  | none => rfl
  | some kind =>
      cases kind with
      | code => exact (hcode hkind).elim
      | string => exact (hstring hkind).elim
      | comment | data => rfl

@[simp] theorem respacedAll_nil : respacedAll table [] = [] := rfl

@[simp] theorem allTokens_nil : allTokens [] = [] := rfl

@[simp] theorem allTokens_cons (part : Stretch) (parts : List Stretch) :
    allTokens (part :: parts) = part.lexemes.map Lexeme.token ++ allTokens parts := by
  simp [allTokens]

theorem allTokens_singleton (part : Stretch) :
    allTokens [part] = part.lexemes.map Lexeme.token := by
  simp

@[simp] theorem allTokens_append (first second : List Stretch) :
    allTokens (first ++ second) = allTokens first ++ allTokens second := by
  simp [allTokens]

@[simp] theorem allTokens_ofNonempty (kind : SegmentKind) (text : Text) :
    allTokens (ofNonempty kind text) = (text.map Lexeme.plain).map Lexeme.token := by
  rw [allTokens, allLexemes_ofNonempty]

/-- The parts of a respaced line from a keyword on that opens a literal. -/
theorem respacedAll_opened {kind : SegmentKind} (hkind : kind = .comment ∨ kind = .data)
    (text : Text) (rest : List Stretch) :
    respacedAll table (code run :: literal kind text :: rest) =
      code (Lexeme.regap (Gap.closed table.spacing) run) :: literal kind (Gap.led ' ' text) ::
        respacedAll table rest := by
  rw [respacedAll, respacedAll, respaced_literal hkind, respaced_before_literal]
  · rfl
  · rcases hkind with rfl | rfl <;> simp [literal]
  · rcases hkind with rfl | rfl <;> simp [literal]

/-- The parts of a respaced line from data on that have no items before the colon. -/
theorem respacedAll_before_colon {rest : List Stretch} (hrest : BeginsWithColon rest) :
    respacedAll table (code run :: rest) =
      code (Lexeme.regap (Gap.closed table.spacing) run) :: literal .data [' '] ::
        respacedAll table rest := by
  obtain ⟨first, others, later, rfl, -⟩ := hrest
  rw [respacedAll, respaced_before_code rfl]
  rfl

theorem ofNonempty_of_ne_nil {kind : SegmentKind} {text : Text} (h : text ≠ []) :
    ofNonempty kind text = [literal kind text] :=
  if_neg (by simpa using h)

/-- What a keyword opens at the end of a line begins with a space, if there is anything. -/
theorem respacedAll_ofNonempty {kind : SegmentKind} (hkind : kind = .comment ∨ kind = .data)
    (text : Text) :
    respacedAll table (code run :: ofNonempty kind text) =
      code (Lexeme.regap (Gap.closed table.spacing) run) ::
        ofNonempty kind (if text = [] then [] else Gap.led ' ' text) := by
  by_cases hempty : text = []
  · subst hempty
    exact congrArg (· ++ [])
      (respaced_before_literal (by simp [ofNonempty]) (by simp [ofNonempty]))
  · rw [if_neg hempty, ofNonempty_of_ne_nil hempty, ofNonempty_of_ne_nil (Gap.led_ne_nil _),
      respacedAll_opened hkind]
    rfl

/-- Data items begin with a space, also if there are none before the colon. -/
theorem respacedAll_data {rest : List Stretch} (hrest : BeginsWithColon rest) (items : Text) :
    respacedAll table (code run :: (ofNonempty .data items ++ rest)) =
      code (Lexeme.regap (Gap.closed table.spacing) run) ::
        (ofNonempty .data (Gap.led ' ' items) ++ respacedAll table rest) := by
  rw [ofNonempty_of_ne_nil (Gap.led_ne_nil _)]
  by_cases hempty : items = []
  · subst hempty
    exact respacedAll_before_colon hrest
  · rw [ofNonempty_of_ne_nil hempty]
    exact respacedAll_opened (.inr rfl) items rest

/-- Code stays one part, which is respaced with or without spaces at its end.  What comes in between
it and the next part is no code, and all this is so again when the parts are respaced again. -/
theorem exists_respaced_code (table : TokenTable) (next : Option Stretch) (run : List Lexeme) :
    ∃ rule extra, table.IsSpacing rule ∧ (∀ part ∈ extra, part.kind ≠ .code) ∧
      (code run).respaced table next = code (Lexeme.regap rule run) :: extra ∧
      ∀ later, later.head?.map kind = next.map kind →
        ∀ again, respacedAll table (code again :: (extra ++ later)) =
          code (Lexeme.regap rule again) :: (extra ++ respacedAll table later) := by
  by_cases hcode : next.map kind = some .code
  · refine ⟨_, _, .inr rfl, by simp [literal], respaced_before_code hcode, fun later _ again => ?_⟩
    exact respacedAll_opened (.inr rfl) [' '] later
  · by_cases hstring : next.map kind = some .string
    · refine ⟨_, _, .inl rfl, by simp, respaced_before_string hstring, fun later hlater again => ?_⟩
      rw [List.nil_append, respacedAll, respaced_before_string (hlater.trans hstring)]
      rfl
    · refine ⟨_, _, .inr rfl, by simp, respaced_before_literal hcode hstring,
        fun later hlater again => ?_⟩
      rw [List.nil_append, respacedAll,
        respaced_before_literal (hlater ▸ hcode) (hlater ▸ hstring)]
      rfl

end Equations

end Stretch

namespace RespacedPart

variable {table : TokenTable} {segment : Segment} {part : RespacedPart} {run : List Lexeme}
  {text : Text}

/-- The part of a line that stores the given tokens after the given bytes. -/
def after (table : TokenTable) (old : Bytes) (tokens : List Token) (endsInCode : Bool) :
    RespacedPart :=
  ⟨(table.storeTokens tokens).reverse ++ old, endsInCode⟩

/-- A run of code is appended respaced. -/
theorem append_code (htable : table.Spaceable) (hsegment : segment.Tokenized table)
    (hstretch : segment.stretch table = Stretch.code run) :
    part.append table segment =
      after table part.reversed (Gap.regap .space table.spacing none 0 (run.map Lexeme.token))
        true := by
  obtain ⟨hkind, hlexemes⟩ := Stretch.mk.inj hstretch
  have hown : segment.respaced table =
      table.storeTokens (Gap.regap .space table.spacing none 0 (run.map Lexeme.token)) := by
    rw [hsegment.respaced_eq htable, Segment.respacedTokens, hkind, ← hlexemes,
      htable.regular.respace_eq_regap]
    rfl
  simp [RespacedPart.append, after, hkind, hown]

theorem storedByte_eq_space_iff {c : Char} : Text.storedByte c = 0x20 ↔ c = ' ' := by
  constructor
  · intro hbyte
    unfold Text.storedByte at hbyte
    split at hbyte
    · rename_i hsmall
      have hvalue := congrArg UInt8.toNat hbyte
      rw [Text.isStorable, decide_eq_true_eq] at hsmall
      rw [UInt8.toNat_ofNat', Nat.mod_eq_of_lt (by omega)] at hvalue
      exact Char.toNat_inj.1 hvalue
    · exact absurd hbyte (by decide)
  · rintro rfl
    rfl

/-- A literal is appended as it is, in place of spaces at the end of code if it begins with one. -/
theorem append_literal {kind : SegmentKind} (hsegment : segment.Tokenized table)
    (hstretch : segment.stretch table = Stretch.literal kind text) (hkind : kind ≠ .code) :
    part.append table segment =
      after table (if part.endsInCode = true ∧ text.head? = some ' ' then part.dropSpaces
        else part.reversed) ((text.map Lexeme.plain).map Lexeme.token) false := by
  obtain ⟨rfl, hlexemes⟩ := Stretch.mk.inj hstretch
  have hown : segment.respaced table =
      table.storeTokens ((text.map Lexeme.plain).map Lexeme.token) := by
    rw [Segment.respaced_of_literal hkind, hsegment.stored, Segment.tokens, hlexemes]
  have hspace : (segment.respaced table).head? = some 0x20 ↔ text.head? = some ' ' := by
    have htext : segment.text = text := by
      rw [← Segment.flatMap_text_lexemes table, hlexemes, Stretch.flatMap_text_plain]
    rw [Segment.respaced_of_literal hkind, Segment.stored_of_literal hkind, htext, Text.stored,
      List.head?_map]
    cases text.head? with
    | none => simp
    | some c => simp [storedByte_eq_space_iff]
  simp only [RespacedPart.append, hspace, ne_eq, hkind, not_false_eq_true, true_and, decide_false]
  rw [hown, after]

theorem storeTokens_ne_nil {tokens : List Token} (h : tokens ≠ []) :
    table.storeTokens tokens ≠ [] := by
  obtain ⟨first, rest, rfl⟩ := List.exists_cons_of_ne_nil h
  obtain ⟨front, hfront⟩ := table.storeTokens_singleton first
  rw [← List.singleton_append, TokenTable.storeTokens_append, hfront]
  simp [first.bytes_ne_nil]

/-- Spaces that are dropped are dropped from the tokens. -/
theorem dropSpaces_after (htable : table.Spaceable) {old : Bytes} {tokens : List Token}
    (hclean : ∀ token ∈ tokens, token.Clean)
    (hne : Gap.regap .space (Gap.closed table.spacing) none 0 tokens ≠ []) :
    (after table old (Gap.regap .space table.spacing none 0 tokens) true).dropSpaces =
      (table.storeTokens (Gap.regap .space (Gap.closed table.spacing) none 0 tokens)).reverse ++
        old := by
  have hrespaced : ∀ token ∈ Gap.regap .space table.spacing none 0 tokens, token.Clean := by
    intro token htoken
    rcases Gap.mem_of_mem_regap htoken with hold | rfl
    · exact hclean token hold
    · exact Token.clean_space
  have hdropped := htable.regular.rdropWhile_storeTokens hrespaced
  rw [Gap.rdropWhile_regap, List.rdropWhile, List.reverse_eq_iff] at hdropped
  have hkept := @storeTokens_ne_nil table _ hne
  rw [dropSpaces, after, List.dropWhile_append, hdropped, if_neg (by simpa using hkept)]

theorem after_after (old : Bytes) (first second : List Token) (ends endsInCode : Bool) :
    after table (after table old first ends).reversed second endsInCode =
      after table old (first ++ second) endsInCode := by
  simp [after]

/-- The tokens of a segment are clean also if the segment is given by its lexemes. -/
theorem clean_of_stretch (hsegment : segment.Tokenized table) {kind : SegmentKind}
    (hstretch : segment.stretch table = ⟨kind, run⟩) :
    ∀ token ∈ run.map Lexeme.token, token.Clean := by
  rw [← show segment.lexemes table = run from congrArg Stretch.lexemes hstretch]
  exact hsegment.clean

theorem reverse_reversed_after (old : Bytes) (tokens : List Token) (endsInCode : Bool) :
    (after table old tokens endsInCode).reversed.reverse =
      old.reverse ++ table.storeTokens tokens := by
  simp [after]

theorem code_after (old : Bytes) (tokens : List Token) :
    (after table old tokens false).code = old.reverse ++ table.storeTokens tokens := by
  simp [code, after]

/-- Code at the end of a line loses the spaces at its end. -/
theorem code_append_code (htable : table.Spaceable) (hsegment : segment.Tokenized table)
    (hstretch : segment.stretch table = Stretch.code run)
    (hkept : ∀ lexeme ∈ run, lexeme.KeptBy table) {lexeme : Lexeme} (hmem : lexeme ∈ run)
    (hspace : lexeme ≠ .plain ' ') :
    (part.append table segment).code =
      part.reversed.reverse ++
        table.storeTokens (Stretch.allTokens (Stretch.respacedAll table [Stretch.code run])) := by
  have hne : Gap.regap .space (Gap.closed table.spacing) none 0 (run.map Lexeme.token) ≠ [] := by
    have htoken : lexeme.token ≠ .space := fun heq =>
      hspace (htable.regular.eq_space_of_token_eq (hkept lexeme hmem) heq)
    exact List.ne_nil_of_mem (Gap.mem_regap_of_mem htoken (List.mem_map_of_mem hmem))
  have hcode {old : Bytes} {tokens : List Token} :
      (after table old tokens true).code = (after table old tokens true).dropSpaces.reverse := rfl
  rw [append_code htable hsegment hstretch, hcode,
    dropSpaces_after htable (clean_of_stretch hsegment hstretch) hne, List.reverse_append,
    List.reverse_reverse, Stretch.respacedAll, Stretch.respaced_before_literal (by simp) (by simp),
    Stretch.respacedAll_nil, List.append_nil, Stretch.allTokens_singleton, Stretch.code,
    Lexeme.map_token_regap htable.regular hkept]

section Openers

variable {keyword : Keyword} (hmem : keyword ∈ table.keywords)
  (hopens : Segment.opensComment keyword = true ∨ Segment.opensData keyword = true)

include hmem

/-- A run that ends with a keyword keeps it. -/
theorem regap_closed_keyword_ne_nil (hregular : table.Regular) :
    Gap.regap .space (Gap.closed table.spacing) none 0
      ((run ++ [Lexeme.keyword keyword]).map Lexeme.token) ≠ [] := by
  have hspace : keyword.token ≠ .space := hregular.byte_ne_token hmem (by decide)
  have hkept := @Gap.mem_regap_of_mem _ _ _ (Gap.closed table.spacing) none 0
    ((run ++ [Lexeme.keyword keyword]).map Lexeme.token) keyword.token hspace
    (by simp [Lexeme.token])
  exact List.ne_nil_of_mem hkept

include hopens

/-- A run that ends with a keyword which opens a literal gets one space at its end. -/
theorem regap_opener (hregular : table.Regular) :
    Gap.regap .space table.spacing none 0 ((run ++ [Lexeme.keyword keyword]).map Lexeme.token) =
      Gap.regap .space (Gap.closed table.spacing) none 0
        ((run ++ [Lexeme.keyword keyword]).map Lexeme.token) ++ [.space] := by
  have hconcat := @Gap.regap_concat Token _ .space table.spacing none 0 keyword.token
    (hregular.byte_ne_token hmem (by decide)) (run.map Lexeme.token)
  rw [hregular.spacing_opener hmem hopens] at hconcat
  rw [List.map_append, List.map_singleton]
  exact hconcat

/-- What a keyword opens is appended with a space in front. -/
theorem append_opened (htable : table.Spaceable) {opener opened : Segment}
    (hopener : opener.Tokenized table) (hopened : opened.Tokenized table)
    (hcode : opener.stretch table = Stretch.code (run ++ [Lexeme.keyword keyword]))
    {kind : SegmentKind} (hkind : kind ≠ .code)
    (hliteral : opened.stretch table = Stretch.literal kind text) :
    (part.append table opener).append table opened =
      after table part.reversed
        (Gap.regap .space (Gap.closed table.spacing) none 0
          ((run ++ [Lexeme.keyword keyword]).map Lexeme.token) ++
            ((Gap.led ' ' text).map Lexeme.plain).map Lexeme.token) false := by
  have hclean := clean_of_stretch hopener hcode
  rw [append_code htable hopener hcode, append_literal hopened hliteral hkind]
  by_cases hspace : text.head? = some ' '
  · rw [if_pos ⟨rfl, hspace⟩, Gap.led, if_pos hspace,
      dropSpaces_after htable hclean (regap_closed_keyword_ne_nil hmem htable.regular)]
    exact after_after _ _ _ true _
  · rw [if_neg fun h => hspace h.2, Gap.led, if_neg hspace, after_after,
      regap_opener hmem hopens htable.regular, List.append_assoc]
    rfl

/-- A keyword at the end of a line is followed by what it opens, if anything. -/
theorem code_foldl_opened (htable : table.Spaceable) {kind : SegmentKind}
    (hkind : kind = .comment ∨ kind = .data) {segments : List Segment}
    (hsegments : segments.map (Segment.stretch table) =
      Stretch.code (run ++ [Lexeme.keyword keyword]) :: Stretch.ofNonempty kind text)
    (htokenized : ∀ segment ∈ segments, segment.Tokenized table)
    (hkept : ∀ lexeme ∈ run ++ [Lexeme.keyword keyword], lexeme.KeptBy table) :
    (segments.foldl (RespacedPart.append table) part).code =
      part.reversed.reverse ++
        table.storeTokens (Stretch.allTokens (Stretch.respacedAll table
          (Stretch.code (run ++ [Lexeme.keyword keyword]) :: Stretch.ofNonempty kind text))) := by
  have hliteral : kind ≠ .code := by rcases hkind with rfl | rfl <;> simp
  obtain ⟨opener, segments, rfl, hopener, hopened⟩ := List.map_eq_cons_iff.1 hsegments
  rw [List.forall_mem_cons] at htokenized
  rw [List.foldl_cons]
  cases htext : text with
  | nil =>
      rw [htext] at hopened
      rw [List.map_eq_nil_iff.1 hopened]
      have hlast : Lexeme.keyword keyword ∈ run ++ [Lexeme.keyword keyword] := by simp
      exact code_append_code htable htokenized.1 hopener hkept hlast (by simp)
  | cons c others =>
      rw [htext] at hopened
      obtain ⟨opened, rest, rfl, hopened, hnil⟩ := List.map_eq_cons_iff.1 hopened
      rw [List.forall_mem_cons] at htokenized
      rw [List.map_eq_nil_iff.1 hnil, List.foldl_cons, List.foldl_nil,
        append_opened hmem hopens htable htokenized.1 htokenized.2.1 hopener hliteral hopened,
        code_after, ← Lexeme.map_token_regap htable.regular hkept]
      have hparts : Stretch.ofNonempty kind (c :: others) =
          [Stretch.literal kind (c :: others)] := rfl
      rw [hparts, Stretch.respacedAll_opened hkind]
      simp [Stretch.code, Stretch.literal]

/-- Data items are appended with a space in front, also if there are none. -/
theorem exists_foldl_data (htable : table.Spaceable) {rest : List Stretch} {segments : List Segment}
    (hsegments : segments.map (Segment.stretch table) =
      Stretch.code (run ++ [Lexeme.keyword keyword]) :: (Stretch.ofNonempty .data text ++ rest))
    (htokenized : ∀ segment ∈ segments, segment.Tokenized table) :
    ∃ later endsInCode, later.map (Segment.stretch table) = rest ∧ later ⊆ segments ∧
      segments.foldl (RespacedPart.append table) part =
        later.foldl (RespacedPart.append table)
          (after table part.reversed
            (Gap.regap .space (Gap.closed table.spacing) none 0
              ((run ++ [Lexeme.keyword keyword]).map Lexeme.token) ++
                ((Gap.led ' ' text).map Lexeme.plain).map Lexeme.token) endsInCode) := by
  obtain ⟨opener, segments, rfl, hopener, hothers⟩ := List.map_eq_cons_iff.1 hsegments
  rw [List.forall_mem_cons] at htokenized
  cases text with
  | nil =>
      -- The space after the keyword stays, and is read as the data later.
      refine ⟨segments, true, hothers, List.subset_cons_self _ _, ?_⟩
      rw [List.foldl_cons, append_code htable htokenized.1 hopener,
        regap_opener hmem hopens htable.regular]
      rfl
  | cons c others =>
      obtain ⟨opened, segments, rfl, hopened, hrest⟩ := List.map_eq_cons_iff.1 hothers
      rw [List.forall_mem_cons] at htokenized
      refine ⟨segments, false, hrest, fun segment hsegment => by simp [hsegment], ?_⟩
      rw [List.foldl_cons, List.foldl_cons,
        append_opened hmem hopens htable htokenized.1 htokenized.2.1 hopener (by simp) hopened]

end Openers

/-- The respaced line is the stored form of its respaced parts. -/
theorem code_foldl_append (htable : table.Spaceable) {parts : List Stretch}
    (hparted : Stretch.Parted parts) {segments : List Segment}
    (hsegments : segments.map (Segment.stretch table) = parts)
    (htokenized : ∀ segment ∈ segments, segment.Tokenized table)
    (hkept : ∀ lexeme ∈ Stretch.allLexemes parts, lexeme.KeptBy table)
    (hends : (Stretch.allLexemes parts).getLast? ≠ some (.plain ' '))
    (hpart : parts = [] → part.endsInCode = false) :
    (segments.foldl (RespacedPart.append table) part).code =
      part.reversed.reverse ++
        table.storeTokens (Stretch.allTokens (Stretch.respacedAll table parts)) := by
  have hregular := htable.regular
  induction hparted generalizing segments part with
  | nil =>
      rw [List.map_eq_nil_iff.1 hsegments, List.foldl_nil, code, if_neg (by simp [hpart rfl])]
      simp [Stretch.respacedAll, TokenTable.storeTokens]
  | @string inner rest hinner hrest ih =>
      obtain ⟨segment, segments, rfl, hsegment, rfl⟩ := List.map_eq_cons_iff.1 hsegments
      rw [List.forall_mem_cons] at htokenized
      rw [Stretch.allLexemes_cons] at hends hkept
      rw [List.forall_mem_append] at hkept
      rw [List.foldl_cons, append_literal htokenized.1 hsegment (by simp), if_neg (by simp),
        ih rfl htokenized.2 hkept.2 (Lexeme.getLast?_ne_of_append hends) fun _ => rfl,
        reverse_reversed_after,
        Stretch.respacedAll, Stretch.respaced_string rfl, Stretch.allTokens_append,
        Stretch.allTokens_singleton, TokenTable.storeTokens_append, List.append_assoc]
      rfl
  | @openString inner hinner =>
      obtain ⟨segment, segments, rfl, hsegment, hnil⟩ := List.map_eq_cons_iff.1 hsegments
      rw [List.forall_mem_cons] at htokenized
      rw [List.map_eq_nil_iff.1 hnil, List.foldl_cons, List.foldl_nil,
        append_literal htokenized.1 hsegment (by simp), if_neg (by simp), code_after,
        Stretch.respacedAll, Stretch.respaced_string rfl, Stretch.respacedAll_nil, List.append_nil,
        Stretch.allTokens_singleton]
      rfl
  | @code run rest hne hrun hnext hrest ih =>
      obtain ⟨segment, segments, rfl, hsegment, rfl⟩ := List.map_eq_cons_iff.1 hsegments
      rw [List.forall_mem_cons] at htokenized
      rw [Stretch.allLexemes_cons] at hends hkept
      rw [List.forall_mem_append] at hkept
      cases segments with
      | nil =>
          obtain ⟨front, last, rfl⟩ := (List.eq_nil_or_concat run).resolve_left hne
          have hlast : last ∈ front.concat last := by simp
          exact code_append_code htable htokenized.1 hsegment hkept.1 hlast
            fun heq => hends (by simp [heq, Stretch.code])
      | cons next segments =>
          have hstring : (Option.map Stretch.kind
              (List.map (Segment.stretch table) (next :: segments)).head?) = some .string := by
            simpa using hnext
          rw [List.foldl_cons, append_code htable htokenized.1 hsegment,
            ih rfl htokenized.2 hkept.2 (Lexeme.getLast?_ne_of_append hends) (by simp),
            reverse_reversed_after,
            Stretch.respacedAll, Stretch.respaced_before_string hstring, Stretch.allTokens_append,
            Stretch.allTokens_singleton, TokenTable.storeTokens_append, List.append_assoc]
          congr 3
          exact (Lexeme.map_token_regap hregular hkept.1).symm
  | @comment run keyword hrun hopens after =>
      rw [Stretch.allLexemes_cons, List.forall_mem_append] at hkept
      have hmem : keyword ∈ table.keywords := hkept.1 (.keyword keyword) (by simp [Stretch.code])
      exact code_foldl_opened hmem (.inl hopens) htable (.inl rfl) hsegments htokenized hkept.1
  | @data run keyword items rest hrun hopens hitems hnext hrest ih =>
      rw [Stretch.allLexemes_cons, Stretch.allLexemes_append] at hends hkept
      rw [List.forall_mem_append, List.forall_mem_append] at hkept
      have hmem : keyword ∈ table.keywords := hkept.1 (.keyword keyword) (by simp [Stretch.code])
      have hrunKept : ∀ lexeme ∈ run ++ [Lexeme.keyword keyword], lexeme.KeptBy table := hkept.1
      have hne : rest ≠ [] := by
        obtain ⟨first, others, later, rfl, -⟩ := hnext
        simp
      obtain ⟨later, endsInCode, hlater, hsubset, hfold⟩ :=
        @exists_foldl_data table part run items keyword hmem (.inr hopens) htable rest segments
          hsegments htokenized
      rw [hfold, ih hlater (fun segment hsegment => htokenized segment (hsubset hsegment)) hkept.2.2
          (Lexeme.getLast?_ne_of_append (Lexeme.getLast?_ne_of_append hends))
          fun hnil => (hne hnil).elim,
        reverse_reversed_after, ← Lexeme.map_token_regap hregular hrunKept,
        Stretch.respacedAll_data hnext, Stretch.allTokens_cons, Stretch.allTokens_append,
        Stretch.allTokens_ofNonempty, List.append_assoc, ← TokenTable.storeTokens_append,
        List.append_assoc]
      rfl
  | @lastData run keyword items hrun hopens hitems =>
      rw [Stretch.allLexemes_cons, List.forall_mem_append] at hkept
      have hmem : keyword ∈ table.keywords := hkept.1 (.keyword keyword) (by simp [Stretch.code])
      exact code_foldl_opened hmem (.inr hopens) htable (.inr rfl) hsegments htokenized hkept.1

end RespacedPart

namespace Lexeme

variable {rule : Gap Token → Nat} {run : List Lexeme}

theorem mem_of_mem_regap {lexeme : Lexeme} (h : lexeme ∈ regap rule run) :
    lexeme ∈ run ∨ lexeme = .plain ' ' :=
  Gap.mem_of_mem_regap h

theorem continues_regap (h : ∀ lexeme ∈ run, lexeme.Continues) :
    ∀ lexeme ∈ regap rule run, lexeme.Continues := by
  intro lexeme hmem
  rcases mem_of_mem_regap hmem with hold | rfl
  · exact h lexeme hold
  · show ' ' ≠ '"'
    decide

/-- A run that ends with a keyword still does if no space is put after it. -/
theorem exists_regap_closed_keyword (keyword : Keyword) (h : ∀ lexeme ∈ run, lexeme.Continues) :
    ∃ front,
      regap (Gap.closed rule) (run ++ [Lexeme.keyword keyword]) = front ++ [Lexeme.keyword keyword] ∧
      ∀ lexeme ∈ front, lexeme.Continues := by
  rw [regap, Gap.closed_map]
  obtain ⟨front, hfront, hmem⟩ := @Gap.exists_regap_closed_concat Lexeme _ (.plain ' ')
    (fun gap => rule (gap.map token)) none 0 (.keyword keyword) (by simp) run
  refine ⟨front, hfront, fun lexeme hlexeme => ?_⟩
  rcases hmem lexeme hlexeme with hold | rfl
  · exact h lexeme hold
  · show ' ' ≠ '"'
    decide

/-- A run that begins with a lexeme still does if no space is put in front. -/
theorem exists_regap_cons {first : Lexeme} (hfirst : first ≠ .plain ' ')
    (hrule : ∀ right, rule ⟨none, some right, 0⟩ = 0) :
    ∃ others, regap rule (first :: run) = first :: others :=
  List.head?_eq_some_iff.1 (Gap.head?_regap hfirst run (hrule _))

/-- Code that is respaced does not vanish. -/
theorem regap_spacing_ne_nil {table : TokenTable} (hne : run ≠ []) :
    regap table.spacing run ≠ [] := by
  by_cases hblank : ∀ lexeme ∈ run, lexeme = .plain ' '
  · -- A run of spaces alone stays as it is.
    obtain ⟨n, hn, rfl⟩ : ∃ n, 0 < n ∧ run = List.replicate n (.plain ' ') :=
      ⟨run.length, List.length_pos_iff.2 hne, List.eq_replicate_of_mem hblank⟩
    rw [regap, ← List.append_nil (List.replicate _ _), Gap.regap_replicate_append, Gap.regap_nil,
      Nat.zero_add]
    have hcount : table.spacing (Gap.map token ⟨none, none, n⟩) = n := table.spacing_blank hn
    rw [hcount]
    simp [Nat.ne_of_gt hn]
  · simp only [not_forall] at hblank
    obtain ⟨lexeme, hmem, hspace⟩ := hblank
    exact List.ne_nil_of_mem (Gap.mem_regap_of_mem hspace hmem)

end Lexeme

/-- A space in front of data items does not change where they end. -/
theorem Segment.spanData_led {items after : Text}
    (h : spanData false (items ++ after) = (items, after)) :
    spanData false (Gap.led ' ' items ++ after) = (Gap.led ' ' items, after) := by
  unfold Gap.led
  split
  · exact h
  · rw [List.cons_append, spanData, if_neg (by simp)]
    simp [h]

namespace Stretch

variable {table : TokenTable} {parts : List Stretch}

theorem mem_allLexemes_respaced {part : Stretch} {next : Option Stretch} {lexeme : Lexeme}
    (h : lexeme ∈ allLexemes (part.respaced table next)) :
    lexeme ∈ part.lexemes ∨ lexeme = .plain ' ' := by
  unfold respaced at h
  split at h
  all_goals simp only [allLexemes_cons, allLexemes_nil, List.append_nil] at h
  · exact Lexeme.mem_of_mem_regap h
  · rcases List.mem_append.1 h with h | h
    · exact Lexeme.mem_of_mem_regap h
    · exact .inr (List.mem_singleton.1 h)
  · exact Lexeme.mem_of_mem_regap h
  · exact .inl h
  · exact Gap.mem_led h

/-- Respacing brings in nothing but spaces. -/
theorem mem_allLexemes_respacedAll {lexeme : Lexeme}
    (h : lexeme ∈ allLexemes (respacedAll table parts)) :
    lexeme ∈ allLexemes parts ∨ lexeme = .plain ' ' := by
  induction parts with
  | nil => simp at h
  | cons part rest ih =>
      rw [respacedAll, allLexemes_append, List.mem_append] at h
      rw [allLexemes_cons, List.mem_append]
      rcases h with h | h
      · exact (mem_allLexemes_respaced h).imp_left .inl
      · exact (ih h).imp_left .inr

theorem BeginsWithColon.respacedAll (h : BeginsWithColon parts) :
    BeginsWithColon (respacedAll table parts) := by
  obtain ⟨first, run, rest, rfl, hfirst⟩ := h
  have hspace : first ≠ .plain ' ' := by
    rintro rfl
    exact absurd (Option.some.inj hfirst) (by decide)
  obtain ⟨rule, extra, hrule, -, hcode, -⟩ :=
    exists_respaced_code table rest.head? (first :: run)
  have hzero : ∀ right, rule ⟨none, some right, 0⟩ = 0 := by
    intro right
    rcases hrule with rfl | rfl <;> exact table.spacing_first (some right)
  obtain ⟨others, hothers⟩ := @Lexeme.exists_regap_cons rule run first hspace hzero
  refine ⟨first, others, extra ++ Stretch.respacedAll table rest, ?_, hfirst⟩
  rw [Stretch.respacedAll, hcode, hothers]
  rfl

/-- Respaced parts are in order. -/
theorem Parted.respacedAll (h : Parted parts)
    (hends : (allLexemes parts).getLast? ≠ some (.plain ' ')) :
    Parted (respacedAll table parts) := by
  induction h with
  | nil => exact .nil
  | @string inner rest hinner hrest ih =>
      exact .string hinner (ih (Lexeme.getLast?_ne_of_append hends))
  | @openString inner hinner => exact .openString hinner
  | @code run rest hne hrun hnext hrest ih =>
      cases rest with
      | nil =>
          rw [Stretch.respacedAll, respaced_before_literal (by simp) (by simp)]
          refine .code ?_ (Lexeme.continues_regap hrun) (by simp) .nil
          obtain ⟨front, last, rfl⟩ := (List.eq_nil_or_concat run).resolve_left hne
          have hlast : last ≠ .plain ' ' := fun heq => hends (by simp [heq, Stretch.code])
          exact List.ne_nil_of_mem (Gap.mem_regap_of_mem hlast (by simp))
      | cons next more =>
          have hstring : (next :: more).head?.map kind = some .string :=
            congrArg some (hnext next rfl)
          rw [Stretch.respacedAll, respaced_before_string hstring]
          refine .code (Lexeme.regap_spacing_ne_nil hne) (Lexeme.continues_regap hrun) ?_
            (ih (Lexeme.getLast?_ne_of_append hends))
          rw [Stretch.respacedAll, respaced_string (hnext next rfl)]
          rintro first hfirst
          exact Option.some.inj hfirst ▸ hnext next rfl
  | @comment run keyword hrun hopens after =>
      obtain ⟨front, hfront, hcontinues⟩ := @Lexeme.exists_regap_closed_keyword table.spacing run
        keyword hrun
      rw [respacedAll_ofNonempty (.inl rfl), hfront]
      exact .comment hcontinues hopens _
  | @data run keyword items rest hrun hopens hitems hnext hrest ih =>
      obtain ⟨front, hfront, hcontinues⟩ := @Lexeme.exists_regap_closed_keyword table.spacing run
        keyword hrun
      rw [respacedAll_data hnext, hfront]
      rw [allLexemes_cons, allLexemes_append] at hends
      exact .data hcontinues hopens (fun after => Segment.spanData_led (hitems after))
        hnext.respacedAll (ih (Lexeme.getLast?_ne_of_append (Lexeme.getLast?_ne_of_append hends)))
  | @lastData run keyword items hrun hopens hitems =>
      obtain ⟨front, hfront, hcontinues⟩ := @Lexeme.exists_regap_closed_keyword table.spacing run
        keyword hrun
      rw [respacedAll_ofNonempty (.inr rfl), hfront]
      refine .lastData hcontinues hopens ?_
      split
      · rfl
      · have hled := @Segment.spanData_led items [] (by rwa [List.append_nil])
        rwa [List.append_nil] at hled

end Stretch

namespace Lexeme

variable {table : TokenTable}

/-- Lexemes that storing keeps are told apart by their tokens. -/
theorem KeptBy.eq_of_token_eq {first second : Lexeme} (hfirst : first.KeptBy table)
    (hsecond : second.KeptBy table) (h : first.token = second.token) : first = second := by
  have hkeyword {k : Keyword} {c : Char} (hk : k ∈ table.keywords) (hc : table.KeepsChar c) :
      k.token ≠ .byte (Text.storedByte c) := by
    intro htoken
    apply hc.2 k hk
    rw [← Keyword.value_token, htoken, Token.value, UInt8.toNat_toUInt16,
      TokenTable.toNat_storedByte hc.1]
  cases first with
  | keyword k =>
      cases second with
      | keyword l =>
          have hlookup := TokenTable.keywordOfToken?_token hfirst
          rw [show k.token = l.token from h, TokenTable.keywordOfToken?_token hsecond] at hlookup
          rw [Option.some.inj hlookup]
      | plain c => exact (hkeyword hfirst hsecond h).elim
  | plain c =>
      cases second with
      | keyword l => exact (hkeyword hsecond hfirst h.symm).elim
      | plain d =>
          have hshown := hfirst.shown.1
          rw [h, hsecond.shown.1] at hshown
          exact congrArg plain (List.singleton_inj.1 hshown).symm

theorem eq_of_map_token_eq {first second : List Lexeme}
    (hfirst : ∀ lexeme ∈ first, lexeme.KeptBy table)
    (hsecond : ∀ lexeme ∈ second, lexeme.KeptBy table)
    (h : first.map token = second.map token) : first = second := by
  induction first generalizing second with
  | nil => exact (List.map_eq_nil_iff.1 h.symm).symm
  | cons lexeme rest ih =>
      obtain ⟨other, others, rfl, htoken, hrest⟩ := List.map_eq_cons_iff.1 h.symm
      rw [List.forall_mem_cons] at hfirst hsecond
      rw [hfirst.1.eq_of_token_eq hsecond.1 htoken.symm, ih hfirst.2 hsecond.2 hrest.symm]

end Lexeme

namespace TokenTable

variable {table : TokenTable} {code : Text}

theorem Regular.eq_of_storeTokens_eq (h : table.Regular) {first second : List Token}
    (hfirst : ∀ token ∈ first, token.Clean) (hsecond : ∀ token ∈ second, token.Clean)
    (heq : table.storeTokens first = table.storeTokens second) : first = second := by
  have hrevealed := congrArg table.revealCode heq
  rw [h.revealCode_storeTokens hfirst, h.revealCode_storeTokens hsecond] at hrevealed
  rw [← Token.decode_encode (Token.decodable_of_clean hfirst), hrevealed,
    Token.decode_encode (Token.decodable_of_clean hsecond)]

theorem Spaceable.clean_lineTokens (htable : table.Spaceable) (hcode : ∀ c ∈ code, c.toNat < 0x80) :
    ∀ token ∈ table.lineTokens code, token.Clean := by
  intro token htoken
  rw [lineTokens_eq] at htoken
  obtain ⟨segment, hsegment, hmem⟩ := List.mem_flatMap.1 htoken
  exact (htable.tokenized hcode hsegment).clean token hmem

theorem Spaceable.getLast?_lineLexemes (htable : table.Spaceable)
    (hascii : ∀ c ∈ code, c.toNat < 0x80) (hends : code.EndsFilled) :
    (Stretch.allLexemes (table.stretches code)).getLast? ≠ some (.plain ' ') := by
  intro hlast
  apply htable.getLast?_lineTokens hascii hends
  rw [lineTokens, List.getLast?_map, ← allLexemes_stretches, hlast]
  rfl

/-- A respaced line is stored as its respaced parts. -/
theorem Spaceable.respaceCode_eq (htable : table.Spaceable) (hascii : ∀ c ∈ code, c.toNat < 0x80)
    (hends : code.EndsFilled) :
    Line.respaceCode table code =
      table.storeTokens (Stretch.allTokens (Stretch.respacedAll table (table.stretches code))) := by
  have hkept := (lossless_of_ascii htable.regular hascii).keptBy
  rw [← allLexemes_stretches] at hkept
  exact RespacedPart.code_foldl_append htable (table.parted_stretches code) rfl
    (fun segment => htable.tokenized hascii) hkept (htable.getLast?_lineLexemes hascii hends)
    fun _ => rfl

/-- The lexemes of a respaced line are those of its respaced parts. -/
theorem Spaceable.lineLexemes_respacedText (htable : table.Spaceable)
    (hascii : ∀ c ∈ code, c.toNat < 0x80) (hcode : code.IsCode) :
    table.lineLexemes (Line.respacedText table code) =
      Stretch.allLexemes (Stretch.respacedAll table (table.stretches code)) := by
  have hrespaced := htable.respaced_respacedText hascii hcode
  have hlossless := lossless_of_ascii htable.regular hrespaced.ascii
  have hlexemes : ∀ lexeme ∈ Stretch.allLexemes (Stretch.respacedAll table (table.stretches code)),
      lexeme.KeptBy table ∧ ∀ c ∈ lexeme.text, c.toNat < 0x80 := by
    intro lexeme hmem
    rcases Stretch.mem_allLexemes_respacedAll hmem with hold | rfl
    · rw [allLexemes_stretches] at hold
      exact ⟨(lossless_of_ascii htable.regular hascii).keptBy lexeme hold,
        fun c hc => hascii c (subset_of_mem_lineLexemes hold hc)⟩
    · have hspace : ' '.toNat < 0x80 := by decide
      exact ⟨htable.regular.keepsChar hspace, fun c hc => List.mem_singleton.1 hc ▸ hspace⟩
  refine Lexeme.eq_of_map_token_eq hlossless.keptBy (fun lexeme hmem => (hlexemes lexeme hmem).1) ?_
  refine htable.regular.eq_of_storeTokens_eq (htable.clean_lineTokens hrespaced.ascii) ?_ ?_
  · intro token htoken
    obtain ⟨lexeme, hmem, rfl⟩ := List.mem_map.1 htoken
    exact htable.clean_token (hlexemes lexeme hmem).1 (hlexemes lexeme hmem).2
  · have hstored := hrespaced.stored
    rw [hlossless.storeCode_eq htable.regular, htable.respaceCode_eq hascii hcode.last] at hstored
    exact hstored

/-- The parts of a respaced line are the respaced parts of the line. -/
theorem Spaceable.stretches_respacedText (htable : table.Spaceable)
    (hascii : ∀ c ∈ code, c.toNat < 0x80) (hcode : code.IsCode) :
    table.stretches (Line.respacedText table code) =
      Stretch.respacedAll table (table.stretches code) := by
  have hlexemes := htable.lineLexemes_respacedText hascii hcode
  have htext : Stretch.allText (Stretch.respacedAll table (table.stretches code)) =
      Line.respacedText table code := by
    rw [Stretch.allText, ← hlexemes, flatMap_text_lineLexemes]
  have hscanned : table.Scanned .code
      (Stretch.allLexemes (Stretch.respacedAll table (table.stretches code))) := by
    rw [Scanned, ← hlexemes, flatMap_text_lineLexemes, lineLexemes_eq_scan]
  rw [← htext]
  exact hscanned.stretches_eq ((table.parted_stretches code).respacedAll
    (htable.getLast?_lineLexemes hascii hcode.last))

end TokenTable
end ColorBasic
