import ColorBasic.Proofs.RespacedParts

/-!
# Settled spacing

Respacing drops a space beside punctuation, but no more than one, so what has been respaced can have
spaces left that respacing drops the next time.  A reformatted listing stays as it is exactly if its
code has none of the sequences that lose a space.  A listing whose code has no two spaces in a row
has settled after it was reformatted once.
-/

namespace ColorBasic

namespace TokenTable

variable {table : TokenTable} {tokens : List Token}

/-- Code without a sequence that loses a space. -/
def Settled (table : TokenTable) (tokens : List Token) : Prop :=
  ∀ joint ∈ (SpacingRules.ofTable table).joints, ¬joint.1 <:+: tokens

section Punctuation

/-- Neighbours in code of which none is a space that the other one takes. -/
def Tolerates (table : TokenTable) (first second : Token) : Prop :=
  ∀ joint ∈ table.punctuationJoints, joint.1 ≠ [first, second]

theorem tolerates_iff {first second : Token} :
    table.Tolerates first second ↔
      (second = .space → first ∉ [table.colon, table.tokenOfChar '(', table.tokenOfChar ',']) ∧
        (first = .space → second ≠ table.tokenOfChar ',') := by
  rw [Tolerates, punctuationJoints, List.forall_mem_cons, List.forall_mem_cons,
    List.forall_mem_cons, List.forall_mem_singleton]
  simp only [List.mem_cons, List.not_mem_nil, ne_eq, List.cons.injEq]
  grind

theorem exists_eq_pair_of_mem_punctuationJoints {joint : SpacingRules.Joint}
    (h : joint ∈ table.punctuationJoints) : ∃ first second, joint.1 = [first, second] := by
  simp only [punctuationJoints, List.mem_cons, List.not_mem_nil, or_false] at h
  rcases h with rfl | rfl | rfl | rfl <;> exact ⟨_, _, rfl⟩

theorem isChain_tolerates_iff :
    tokens.IsChain table.Tolerates ↔ ∀ joint ∈ table.punctuationJoints, ¬joint.1 <:+: tokens := by
  rw [List.isChain_iff_forall_rel_of_append_cons_cons]
  constructor
  · rintro hchain joint hjoint ⟨front, back, rfl⟩
    obtain ⟨first, second, hold⟩ := exists_eq_pair_of_mem_punctuationJoints hjoint
    refine @hchain first second front back ?_ joint hjoint hold
    rw [hold, List.append_assoc]
    rfl
  · rintro hnone first second front back rfl joint hjoint hold
    refine hnone joint hjoint ⟨front, back, ?_⟩
    rw [hold, List.append_assoc]
    rfl

/-- Punctuation takes no space of a code exactly if no gap with spaces has one to drop. -/
theorem Regular.punctuation_iff (h : table.Regular) :
    (∀ joint ∈ table.punctuationJoints, ¬joint.1 <:+: tokens) ↔
      ∀ gap ∈ Gap.gaps .space none 0 tokens, 0 < gap.count → table.drops gap = 0 := by
  have hcolon : table.colon ≠ .space := h.tokenOfChar_ne_space (by decide) (by decide)
  have hopening : table.tokenOfChar '(' ≠ .space := h.tokenOfChar_ne_space (by decide) (by decide)
  have hcomma : table.tokenOfChar ',' ≠ .space := h.tokenOfChar_ne_space (by decide) (by decide)
  have hspace : table.Tolerates .space .space := by
    rw [tolerates_iff]
    simp [hcolon.symm, hopening.symm, hcomma.symm]
  have hitems (a b : Token) (ha : a ≠ .space) (hb : b ≠ .space) : table.Tolerates a b :=
    tolerates_iff.2 ⟨fun heq => (hb heq).elim, fun heq => (ha heq).elim⟩
  have hchain := @Gap.isChain_iff_gaps Token _ .space none table.Tolerates hspace hitems (by simp) 0
    tokens
  rw [← isChain_tolerates_iff]
  refine hchain.trans (forall₂_congr fun gap _ => imp_congr_right fun _ => ?_)
  -- Only the punctuation on either side decides.
  obtain ⟨left, right, count⟩ := gap
  cases left <;> cases right <;>
    simp [tolerates_iff, drops, hcolon.symm, hopening.symm, hcomma.symm]

end Punctuation

section Fixpoints

variable {rule : Gap Token → Nat}

/-- No jump is left apart by one space. -/
theorem IsSpacing.not_infix_jump (h : table.Regular) (hrule : table.IsSpacing rule)
    (tokens : List Token) :
    ∀ joint ∈ table.jumpJoints, ¬joint.1 <:+: Gap.regap .space rule none 0 tokens := by
  intro joint hjoint hinfix
  obtain ⟨pair, hpair, rfl⟩ := List.mem_map.1 hjoint
  obtain ⟨hgo, hword⟩ := shown_of_mem_jumpPairs hpair
  have hfirst : pair.1 ≠ .space := fun heq => by simp [heq, h.shown_space] at hgo
  have hsecond : pair.2 ≠ .space := fun heq => by simp [heq, h.shown_space] at hword
  have hmem := @Gap.mem_gaps_of_infix _ _ _ none 0 _ _ _ hfirst hsecond hinfix
  rw [Gap.gaps_regap] at hmem
  obtain ⟨gap, -, hgap⟩ := List.mem_map.1 hmem
  obtain ⟨hleft, hright, hcount⟩ := Gap.mk.inj hgap
  have hjump : table.splitsJump gap = true :=
    List.any_eq_true.2 ⟨pair, hpair, decide_eq_true ⟨hleft, hright⟩⟩
  have hne := h.spacing_ne_one hjump
  rcases hrule.eq_zero_or gap with hzero | hspacing
  · omega
  · omega

/-- What has been respaced has settled exactly if no gap that is left has a space to drop. -/
theorem IsSpacing.settled_regap_iff (h : table.Regular) (hrule : table.IsSpacing rule) :
    table.Settled (Gap.regap .space rule none 0 tokens) ↔
      ∀ gap ∈ Gap.gaps .space none 0 tokens, 0 < rule gap → table.drops gap = 0 := by
  have hjump := hrule.not_infix_jump h tokens
  rw [Settled, joints_ofTable, List.forall_mem_append, and_iff_right hjump, h.punctuation_iff,
    Gap.gaps_regap, List.forall_mem_map]
  rfl

/-- What has been respaced stays as it is exactly if it has settled. -/
theorem IsSpacing.regap_regap_iff (h : table.Regular) (hrule : table.IsSpacing rule) :
    Gap.regap .space rule none 0 (Gap.regap .space rule none 0 tokens) =
        Gap.regap .space rule none 0 tokens ↔
      table.Settled (Gap.regap .space rule none 0 tokens) := by
  rw [Gap.regap_regap, Gap.regap_eq_regap_iff, hrule.settled_regap_iff h]
  exact forall₂_congr fun gap _ => hrule.rule_rule_iff h

/-- Code without two spaces in a row has settled when it has been respaced. -/
theorem IsSpacing.settled_of_single (h : table.Regular) (hrule : table.IsSpacing rule)
    (hsingle : ¬[.space, .space] <:+: tokens) :
    table.Settled (Gap.regap .space rule none 0 tokens) := by
  rw [hrule.settled_regap_iff h]
  intro gap hgap hpos
  refine drops_eq_zero_of_count_le_one (Gap.count_le_one_of_single hsingle hgap) ?_
  rcases hrule.eq_zero_or gap with hzero | hspacing
  · omega
  · omega

end Fixpoints

end TokenTable

/-- Lexemes that have been respaced stay as they are exactly if their tokens have settled. -/
theorem Lexeme.regap_regap_iff {table : TokenTable} (h : table.Regular) {rule : Gap Token → Nat}
    (hrule : table.IsSpacing rule) {run : List Lexeme}
    (hkept : ∀ lexeme ∈ run, lexeme.KeptBy table) :
    regap rule (regap rule run) = regap rule run ↔ table.Settled ((regap rule run).map token) := by
  have hregap {run : List Lexeme} (hkept : ∀ lexeme ∈ run, lexeme.KeptBy table) :
      ∀ lexeme ∈ regap rule run, lexeme.KeptBy table := by
    intro lexeme hmem
    rcases mem_of_mem_regap hmem with hold | rfl
    · exact hkept lexeme hold
    · exact h.keepsChar (by decide)
  have htokens : regap rule (regap rule run) = regap rule run ↔
      (regap rule (regap rule run)).map token = (regap rule run).map token :=
    ⟨congrArg _, eq_of_map_token_eq (hregap (hregap hkept)) (hregap hkept)⟩
  rw [htokens, map_token_regap h (hregap hkept), map_token_regap h hkept, hrule.regap_regap_iff h]

namespace Stretch

variable {table : TokenTable} {parts : List Stretch}

theorem exists_eq_code {part : Stretch} (h : part.kind = .code) : ∃ run, part = code run :=
  ⟨part.lexemes, congrArg (Stretch.mk · part.lexemes) h⟩

/-- A literal is respaced once. -/
theorem exists_respaced_literal {part : Stretch} (h : part.kind ≠ .code) (next : Option Stretch) :
    ∃ new : Stretch, part.respaced table next = [new] ∧ new.kind = part.kind ∧
      ∀ other, new.respaced table other = [new] := by
  obtain ⟨kind, lexemes⟩ := part
  cases kind with
  | code => exact (h rfl).elim
  | string => exact ⟨_, rfl, rfl, fun _ => rfl⟩
  | comment | data =>
      refine ⟨_, rfl, rfl, fun other => ?_⟩
      rw [respaced]
      simp only [Gap.led_led]

/-- Respacing keeps the kind of the first part. -/
theorem kind_head?_respacedAll (parts : List Stretch) :
    (respacedAll table parts).head?.map kind = parts.head?.map kind := by
  cases parts with
  | nil => rfl
  | cons part rest =>
      by_cases hkind : part.kind = .code
      · obtain ⟨run, rfl⟩ := exists_eq_code hkind
        obtain ⟨rule, extra, -, -, hcode, -⟩ := exists_respaced_code table rest.head? run
        rw [respacedAll, hcode]
        rfl
      · obtain ⟨new, hnew, hsame, -⟩ := @exists_respaced_literal table part hkind rest.head?
        rw [respacedAll, hnew]
        exact congrArg some hsame

/-- Respaced parts stay as they are exactly if their code has settled. -/
theorem respacedAll_respacedAll_iff (h : table.Regular)
    (hkept : ∀ lexeme ∈ allLexemes parts, lexeme.KeptBy table) :
    respacedAll table (respacedAll table parts) = respacedAll table parts ↔
      ∀ part ∈ respacedAll table parts, part.kind = .code →
        table.Settled (part.lexemes.map Lexeme.token) := by
  induction parts with
  | nil => simp
  | cons part rest ih =>
      rw [allLexemes_cons, List.forall_mem_append] at hkept
      -- The kinds of the parts stay, so each is respaced by the same rule again.
      have hnext := @kind_head?_respacedAll table rest
      rw [respacedAll]
      by_cases hkind : part.kind = .code
      · obtain ⟨run, rfl⟩ := exists_eq_code hkind
        obtain ⟨rule, extra, hrule, hextra, hcode, htwice⟩ :=
          exists_respaced_code table rest.head? run
        have hsettled := @Lexeme.regap_regap_iff table h rule hrule run hkept.1
        have hothers : ∀ part ∈ extra, part.kind = .code →
            table.Settled (part.lexemes.map Lexeme.token) :=
          fun part hpart hcode => (hextra part hpart hcode).elim
        rw [hcode, List.cons_append, htwice _ hnext, List.cons.injEq, List.append_cancel_left_eq,
          ih hkept.2, List.forall_mem_cons, List.forall_mem_append, and_iff_right hothers]
        refine and_congr_left' ?_
        simpa [code] using hsettled
      · obtain ⟨new, hnew, hsame, hagain⟩ := @exists_respaced_literal table part hkind rest.head?
        rw [hnew, List.singleton_append, respacedAll, hagain, List.singleton_append,
          List.cons.injEq, and_iff_right rfl, ih hkept.2, List.forall_mem_cons, hsame]
        exact (and_iff_right fun hcode => (hkind hcode).elim).symm

/-- Code of a respaced line is respaced code of the line. -/
theorem exists_code_of_mem_respacedAll {part : Stretch} (hmem : part ∈ respacedAll table parts)
    (hkind : part.kind = .code) :
    ∃ old ∈ parts, old.kind = .code ∧ ∃ rule, table.IsSpacing rule ∧
      part.lexemes = Lexeme.regap rule old.lexemes := by
  induction parts with
  | nil => simp at hmem
  | cons first rest ih =>
      rw [respacedAll, List.mem_append] at hmem
      rcases hmem with hmem | hmem
      · by_cases hfirst : first.kind = .code
        · obtain ⟨run, rfl⟩ := exists_eq_code hfirst
          obtain ⟨rule, extra, hrule, hextra, hcode, -⟩ :=
            exists_respaced_code table rest.head? run
          rw [hcode, List.mem_cons] at hmem
          rcases hmem with rfl | hmem
          · exact ⟨_, List.mem_cons_self, rfl, rule, hrule, rfl⟩
          · exact (hextra part hmem hkind).elim
        · obtain ⟨new, hnew, hsame, -⟩ := @exists_respaced_literal table first hfirst rest.head?
          rw [hnew, List.mem_singleton] at hmem
          exact (hfirst (hsame ▸ hmem ▸ hkind)).elim
      · obtain ⟨old, hold, hcode⟩ := ih hmem
        exact ⟨old, List.mem_cons_of_mem _ hold, hcode⟩

end Stretch

namespace TokenTable

variable {table : TokenTable} {code : Text}

/-- The code of a line whose spacing does not change any more. -/
def SettledLine (table : TokenTable) (code : Text) : Prop :=
  ∀ segment ∈ Segment.classify table code, segment.kind = .code →
    table.Settled (segment.tokens table)

/-- A line is known by its parts. -/
theorem stretches_injective (table : TokenTable) : Function.Injective table.stretches :=
  Function.LeftInverse.injective table.allText_stretches

theorem settledLine_iff_stretches :
    table.SettledLine code ↔ ∀ part ∈ table.stretches code, part.kind = .code →
      table.Settled (part.lexemes.map Lexeme.token) := by
  rw [stretches, List.forall_mem_map]
  rfl

/-- A line that has been respaced stays as it is exactly if its spacing has settled. -/
theorem Spaceable.respacedText_respacedText_iff (htable : table.Spaceable)
    (hascii : ∀ c ∈ code, c.toNat < 0x80) (hcode : code.IsCode) :
    Line.respacedText table (Line.respacedText table code) = Line.respacedText table code ↔
      table.SettledLine (Line.respacedText table code) := by
  have hrespaced := htable.respaced_respacedText hascii hcode
  have hkept := (lossless_of_ascii htable.regular hascii).keptBy
  rw [← allLexemes_stretches] at hkept
  rw [← table.stretches_injective.eq_iff,
    htable.stretches_respacedText hrespaced.ascii hrespaced.isCode, settledLine_iff_stretches,
    htable.stretches_respacedText hascii hcode,
    Stretch.respacedAll_respacedAll_iff htable.regular hkept]

/-- A line whose code has no two spaces in a row has settled when it has been respaced. -/
theorem Spaceable.settledLine_respacedText (htable : table.Spaceable)
    (hascii : ∀ c ∈ code, c.toNat < 0x80) (hcode : code.IsCode)
    (hsingle : ∀ segment ∈ Segment.classify table code, segment.kind = .code →
      ¬[' ', ' '] <:+: segment.text) :
    table.SettledLine (Line.respacedText table code) := by
  rw [settledLine_iff_stretches, htable.stretches_respacedText hascii hcode]
  intro part hpart hkind
  obtain ⟨old, hold, holdKind, rule, hrule, hlexemes⟩ :=
    Stretch.exists_code_of_mem_respacedAll hpart hkind
  obtain ⟨segment, hsegment, rfl⟩ := List.mem_map.1 hold
  have hkept : ∀ lexeme ∈ segment.lexemes table, lexeme.KeptBy table := fun lexeme hlexeme =>
    (lossless_of_ascii htable.regular hascii).keptBy lexeme
      (List.mem_flatMap.2 ⟨segment, hsegment, hlexeme⟩)
  rw [hlexemes, Segment.stretch, Lexeme.map_token_regap htable.regular hkept]
  refine hrule.settled_of_single htable.regular fun hspaces => hsingle segment hsegment holdKind ?_
  -- Two spaces among the tokens are two spaces in the text.
  have hshown := hspaces.flatMap table.shown
  rw [flatMap_shown_tokens hkept, Segment.flatMap_text_lexemes] at hshown
  simpa [htable.regular.shown_space] using hshown

end TokenTable

namespace Conversion

variable {table : TokenTable} {listing text : Text}

/-- A reformatted listing stays as it is exactly if its lines do. -/
theorem reformat_again_iff (htable : table.Spaceable)
    (hascii : ∀ source ∈ Program.sources listing, ∀ c ∈ source.2, c.toNat < 0x80)
    (h : (reformat table listing).result = .ok text) :
    (reformat table text).result = .ok text ↔
      ∀ source ∈ Program.sources text, Line.respacedText table source.2 = source.2 := by
  have hrespaced : ∀ source ∈ Program.sources text,
      source.2.IsCode ∧ ∀ c ∈ source.2, c.toNat < 0x80 := by
    rw [sources_reformat htable hascii h, List.forall_mem_map]
    intro source hsource
    have hmem := Program.mem_of_mem_latest hsource
    have hnew := htable.respaced_respacedText (hascii source hmem)
      (Program.isCode_of_mem_sources hmem)
    exact ⟨hnew.isCode, hnew.ascii⟩
  have hagain : ∀ source ∈ (Program.sources text).map (Line.respacedSource table),
      source.2.IsCode := by
    rw [List.forall_mem_map]
    intro source hsource
    exact (htable.respaced_respacedText (hrespaced source hsource).2
      (hrespaced source hsource).1).isCode
  have hascending : Program.Ascending Prod.fst (Program.sources text) := by
    rw [sources_reformat htable hascii h]
    exact List.pairwise_map.2 (Program.ascending_latest Prod.fst (Program.sources listing))
  have htext : text = Text.joinLines ((Program.sources text).map Line.typed) := by
    rw [sources_reformat htable hascii h]
    exact (reformat_eq_ok htable hascii h).2
  have hreformat := reformat_joinLines_typed htable hrespaced hascending
  rw [← htext] at hreformat
  rw [hreformat, Except.ok.injEq]
  -- Listings in order have the same text exactly if they have the same entries.
  have hlines : Text.joinLines
        (((Program.sources text).map (Line.respacedSource table)).map Line.typed) = text ↔
      (Program.sources text).map (Line.respacedSource table) = (Program.sources text).map id := by
    rw [List.map_id]
    refine ⟨fun heq => ?_, fun heq => ?_⟩
    · rw [← Program.sources_joinLines_typed hagain, heq]
    · rw [heq, ← htext]
  rw [hlines, List.map_inj_left]
  exact forall₂_congr fun source _ => Prod.ext_iff.trans (and_iff_right rfl)

/-- A listing of seven bit characters that has been reformatted stays as it is exactly if no code in
it has a sequence that loses a space. -/
theorem reformat_reformat_iff_settled (machine : Machine) (listing text : Text)
    (hascii : ∀ c ∈ listing, c.toNat < 0x80)
    (h : (reformat machine.table listing).result = .ok text) :
    (reformat machine.table text).result = .ok text ↔
      ∀ source ∈ Program.sources text, machine.table.SettledLine source.2 := by
  have htable := machine.table_spaceable
  have hsources : ∀ source ∈ Program.sources listing, ∀ c ∈ source.2, c.toNat < 0x80 :=
    fun source hsource c hc => hascii c (Program.subset_of_mem_sources hsource hc)
  rw [reformat_again_iff htable hsources h, sources_reformat htable hsources h, List.forall_mem_map,
    List.forall_mem_map]
  refine forall₂_congr fun source hsource => ?_
  have hmem := Program.mem_of_mem_latest hsource
  exact htable.respacedText_respacedText_iff (hsources source hmem)
    (Program.isCode_of_mem_sources hmem)

/-- A program out of order with a line typed twice, and with spaces around its punctuation. -/
def crowdedListing : Text :=
  "20 GO TO10 : DATA A , B\n10 OLD\n10 IFA ( 1 , 2 )".toList

/-- The reformatted form of the crowded program. -/
def crowdedTidy : Text :=
  "10 IF A (1,2 )\n20 GOTO 10 :DATA A , B".toList

theorem reformat_reformat_crowded :
    (reformat Machine.dragon32.table crowdedListing).result = .ok crowdedTidy ∧
      ((reformat Machine.dragon32.table crowdedTidy).result = .ok crowdedTidy ↔
        ∀ source ∈ Program.sources crowdedTidy, Machine.dragon32.table.SettledLine source.2) := by
  have hreformat : (reformat Machine.dragon32.table crowdedListing).result = .ok crowdedTidy := by
    decide +kernel
  have hall : crowdedListing.all (·.toNat < 0x80) = true := by decide +kernel
  have hascii : ∀ c ∈ crowdedListing, c.toNat < 0x80 := fun c hc =>
    of_decide_eq_true (List.all_eq_true.1 hall c hc)
  exact ⟨hreformat, reformat_reformat_iff_settled .dragon32 _ _ hascii hreformat⟩

/-- Two spaces after a colon are dropped one at a time. -/
theorem not_forall_reformat_reformat :
    ¬∀ listing text, (reformat Machine.dragon32.table listing).result = .ok text →
      (reformat Machine.dragon32.table text).result = .ok text := by
  intro hsettles
  have hfirst : (reformat Machine.dragon32.table "10 A:  B".toList).result =
      .ok "10 A: B".toList := by
    decide +kernel
  have hsecond : (reformat Machine.dragon32.table "10 A: B".toList).result =
      .ok "10 A:B".toList := by
    decide +kernel
  have hsame := hsecond.symm.trans (hsettles _ _ hfirst)
  exact absurd (Except.ok.inj hsame) (by decide +kernel)

/-- A listing of seven bit characters whose code has no two spaces in a row stays as it is after it
was reformatted once. -/
theorem reformat_reformat_of_single (machine : Machine) (listing text : Text)
    (hascii : ∀ c ∈ listing, c.toNat < 0x80)
    (hsingle : ∀ source ∈ Program.latest Prod.fst (Program.sources listing),
      ∀ segment ∈ Segment.classify machine.table source.2, segment.kind = .code →
        ¬[' ', ' '] <:+: segment.text)
    (h : (reformat machine.table listing).result = .ok text) :
    (reformat machine.table text).result = .ok text := by
  have htable := machine.table_spaceable
  have hsources : ∀ source ∈ Program.sources listing, ∀ c ∈ source.2, c.toNat < 0x80 :=
    fun source hsource c hc => hascii c (Program.subset_of_mem_sources hsource hc)
  rw [reformat_again_iff htable hsources h, sources_reformat htable hsources h, List.forall_mem_map]
  intro source hsource
  have hmem := Program.mem_of_mem_latest hsource
  have hcode := Program.isCode_of_mem_sources hmem
  rw [Line.respacedSource, htable.respacedText_respacedText_iff (hsources source hmem) hcode]
  exact htable.settledLine_respacedText (hsources source hmem) hcode (hsingle source hsource)

end Conversion
end ColorBasic
