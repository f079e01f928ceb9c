import ColorBasic.Proofs.Rescan

/-!
# The parts of a line

The segments of a line, taken with their lexemes, follow each other in an order that can be told
from the lexemes alone: strings and code alternate, and what a keyword opens stands right after it.
Parts in this order whose lexemes are scanned again are the parts of their text.
-/

namespace ColorBasic

namespace Lexeme

/-- Whether code goes on after a lexeme of it. -/
def Continues : Lexeme → Prop
  | keyword k => Segment.opensComment k = false ∧ Segment.opensData k = false
  | plain c => c ≠ '"'

end Lexeme

/-- A part of a line with its lexemes. -/
structure Stretch where
  kind : SegmentKind
  lexemes : List Lexeme
  deriving DecidableEq

namespace Stretch

/-- The source text of a part. -/
def text (part : Stretch) : Text := part.lexemes.flatMap Lexeme.text

/-- The part without its lexemes. -/
def segment (part : Stretch) : Segment := ⟨part.kind, part.text⟩

/-- A part of plain characters. -/
def literal (kind : SegmentKind) (text : Text) : Stretch := ⟨kind, text.map .plain⟩

/-- A part of code. -/
def code (lexemes : List Lexeme) : Stretch := ⟨.code, lexemes⟩

/-- One part of plain characters, or none if there are no characters. -/
def ofNonempty (kind : SegmentKind) (text : Text) : List Stretch :=
  if text.isEmpty then [] else [literal kind text]

/-- Puts a lexeme of code in front of parts, into the first one if that is code. -/
def consCode (lexeme : Lexeme) : List Stretch → List Stretch
  | ⟨.code, lexemes⟩ :: rest => code (lexeme :: lexemes) :: rest
  | parts => code [lexeme] :: parts

/-- The lexemes of the parts of a line. -/
def allLexemes (parts : List Stretch) : List Lexeme := parts.flatMap lexemes

/-- The text of the parts of a line. -/
def allText (parts : List Stretch) : Text := (allLexemes parts).flatMap Lexeme.text

@[simp] theorem allLexemes_nil : allLexemes [] = [] := rfl

@[simp] theorem allLexemes_cons (part : Stretch) (parts : List Stretch) :
    allLexemes (part :: parts) = part.lexemes ++ allLexemes parts := rfl

@[simp] theorem allLexemes_append (first second : List Stretch) :
    allLexemes (first ++ second) = allLexemes first ++ allLexemes second :=
  List.flatMap_append

theorem flatMap_text_plain (text : Text) : (text.map Lexeme.plain).flatMap Lexeme.text = text := by
  rw [List.flatMap_map]
  exact List.flatMap_singleton' text

@[simp] theorem text_literal (kind : SegmentKind) (text : Text) : (literal kind text).text = text :=
  flatMap_text_plain text

@[simp] theorem allLexemes_ofNonempty (kind : SegmentKind) (text : Text) :
    allLexemes (ofNonempty kind text) = text.map .plain := by
  unfold ofNonempty
  split
  · rename_i hempty
    rw [List.isEmpty_iff.1 hempty]
    rfl
  · simp [allLexemes, literal]

/-- Whether parts begin with code that begins with a colon. -/
def BeginsWithColon (parts : List Stretch) : Prop :=
  ∃ first run rest, parts = code (first :: run) :: rest ∧ first.text.head? = some ':'

/-- Parts of a line in the order in which they can follow each other. -/
inductive Parted : List Stretch → Prop
  | nil : Parted []
  | string {inner : Text} {rest : List Stretch} (hinner : '"' ∉ inner) (hrest : Parted rest) :
      Parted (literal .string ('"' :: (inner ++ ['"'])) :: rest)
  | openString {inner : Text} (hinner : '"' ∉ inner) : Parted [literal .string ('"' :: inner)]
  | code {run : List Lexeme} {rest : List Stretch} (hne : run ≠ [])
      (hrun : ∀ lexeme ∈ run, lexeme.Continues)
      (hnext : ∀ next ∈ rest.head?, next.kind = .string) (hrest : Parted rest) :
      Parted (code run :: rest)
  | comment {run : List Lexeme} {keyword : Keyword} (hrun : ∀ lexeme ∈ run, lexeme.Continues)
      (hopens : Segment.opensComment keyword = true) (after : Text) :
      Parted (Stretch.code (run ++ [Lexeme.keyword keyword]) :: ofNonempty .comment after)
  | data {run : List Lexeme} {keyword : Keyword} {items : Text} {rest : List Stretch}
      (hrun : ∀ lexeme ∈ run, lexeme.Continues) (hopens : Segment.opensData keyword = true)
      (hitems : ∀ after, Segment.spanData false (items ++ ':' :: after) = (items, ':' :: after))
      (hnext : BeginsWithColon rest) (hrest : Parted rest) :
      Parted (Stretch.code (run ++ [Lexeme.keyword keyword]) :: (ofNonempty .data items ++ rest))
  | lastData {run : List Lexeme} {keyword : Keyword} {items : Text}
      (hrun : ∀ lexeme ∈ run, lexeme.Continues) (hopens : Segment.opensData keyword = true)
      (hitems : Segment.spanData false items = (items, [])) :
      Parted (Stretch.code (run ++ [Lexeme.keyword keyword]) :: ofNonempty .data items)

theorem BeginsWithColon.head?_allText {parts : List Stretch} (h : BeginsWithColon parts) :
    ∃ after, allText parts = ':' :: after := by
  obtain ⟨first, run, rest, rfl, hfirst⟩ := h
  obtain ⟨more, hmore⟩ := List.head?_eq_some_iff.1 hfirst
  refine ⟨more ++ (run ++ allLexemes rest).flatMap Lexeme.text, ?_⟩
  simp [allText, code, hmore]

/-- A line that begins with a colon begins with code. -/
theorem Parted.beginsWithColon {parts : List Stretch} (h : Parted parts) {first : Lexeme}
    {others : List Lexeme} (hlexemes : allLexemes parts = first :: others)
    (hfirst : first.text.head? = some ':') : BeginsWithColon parts := by
  have hquote : first ≠ .plain '"' := by
    rintro rfl
    exact absurd (Option.some.inj hfirst) (by decide)
  have hcode {run : List Lexeme} {rest : List Stretch} (hne : run ≠ [])
      (hrun : allLexemes (Stretch.code run :: rest) = first :: others) :
      BeginsWithColon (Stretch.code run :: rest) := by
    obtain ⟨head, tail, rfl⟩ := List.exists_cons_of_ne_nil hne
    obtain rfl : head = first := (List.cons.inj hrun).1
    exact ⟨head, tail, rest, rfl, hfirst⟩
  cases h with
  | nil => simp at hlexemes
  | string _ _ | openString _ => exact (hquote (List.cons.inj hlexemes).1.symm).elim
  | code hne _ _ _ => exact hcode hne hlexemes
  | comment _ _ _ | data _ _ _ _ _ | lastData _ _ _ => exact hcode (by simp) hlexemes

/-- Code may be put in front of parts. -/
theorem Parted.consCode {lexeme : Lexeme} (hlexeme : lexeme.Continues) {parts : List Stretch}
    (h : Parted parts) : Parted (Stretch.consCode lexeme parts) := by
  have hrun {run : List Lexeme} (h : ∀ lexeme ∈ run, lexeme.Continues) :
      ∀ other ∈ lexeme :: run, other.Continues := by
    rw [List.forall_mem_cons]
    exact ⟨hlexeme, h⟩
  have halone : ∀ other ∈ [lexeme], other.Continues := hrun (by simp)
  cases h with
  | nil => exact .code (List.cons_ne_nil _ _) halone (by simp) .nil
  | string hinner hrest =>
      exact .code (List.cons_ne_nil _ _) halone (by simp) (.string hinner hrest)
  | openString hinner =>
      exact .code (List.cons_ne_nil _ _) halone (by simp) (.openString hinner)
  | code hne hmore hnext hrest => exact .code (List.cons_ne_nil _ _) (hrun hmore) hnext hrest
  | comment hmore hopens after => exact .comment (hrun hmore) hopens after
  | data hmore hopens hitems hnext hrest => exact .data (hrun hmore) hopens hitems hnext hrest
  | lastData hmore hopens hitems => exact .lastData (hrun hmore) hopens hitems

end Stretch

namespace Segment

theorem spanString_of_quote {inner : Text} (h : '"' ∉ inner) (after : Text) :
    spanString (inner ++ '"' :: after) = (inner ++ ['"'], after) := by
  induction inner with
  | nil => rw [List.nil_append, TokenTable.spanString_cons, if_pos rfl, List.nil_append]
  | cons c inner ih =>
      rw [List.mem_cons, not_or] at h
      rw [List.cons_append, TokenTable.spanString_cons, if_neg (Ne.symm h.1), ih h.2]
      rfl

theorem spanString_of_not_mem {text : Text} (h : '"' ∉ text) : spanString text = (text, []) := by
  induction text with
  | nil => rfl
  | cons c text ih =>
      rw [List.mem_cons, not_or] at h
      rw [TokenTable.spanString_cons, if_neg (Ne.symm h.1), ih h.2]

/-- A string ends at a quote or with the line. -/
theorem spanString_cases (text : Text) :
    (∃ inner after, '"' ∉ inner ∧ spanString text = (inner ++ ['"'], after)) ∨
      ('"' ∉ text ∧ spanString text = (text, [])) := by
  by_cases hquote : '"' ∈ text
  · obtain ⟨inner, after, rfl, hinner⟩ := List.eq_append_cons_of_mem hquote
    exact .inl ⟨inner, after, hinner, spanString_of_quote hinner after⟩
  · exact .inr ⟨hquote, spanString_of_not_mem hquote⟩

/-- Data items end at a colon or with the line. -/
theorem spanData_cases (quoted : Bool) (text : Text) :
    (∃ items after, spanData quoted text = (items, ':' :: after) ∧
      ∀ more, spanData quoted (items ++ ':' :: more) = (items, ':' :: more)) ∨
      spanData quoted text = (text, []) := by
  induction text generalizing quoted with
  | nil => exact .inr rfl
  | cons c text ih =>
      by_cases hend : c = ':' ∧ quoted = false
      · obtain ⟨rfl, rfl⟩ := hend
        exact .inl ⟨[], text, rfl, fun _ => rfl⟩
      · simp only [spanData, if_neg hend]
        rcases ih (if c = '"' then !quoted else quoted) with ⟨items, after, hspan, hmore⟩ | hspan
        · refine .inl ⟨c :: items, after, by rw [hspan], fun more => ?_⟩
          rw [List.cons_append, spanData, if_neg hend, hmore]
        · exact .inr (by rw [hspan])

/-- A segment with its lexemes. -/
def stretch (table : TokenTable) (segment : Segment) : Stretch :=
  ⟨segment.kind, segment.lexemes table⟩

@[simp] theorem segment_stretch (table : TokenTable) (segment : Segment) :
    (segment.stretch table).segment = segment :=
  congrArg (Segment.mk segment.kind) (flatMap_text_lexemes table segment)

theorem stretch_ofNonempty {table : TokenTable} {kind : SegmentKind} (hkind : kind ≠ .code)
    (text : Text) :
    (ofNonempty kind text).map (stretch table) = Stretch.ofNonempty kind text := by
  unfold ofNonempty Stretch.ofNonempty
  split
  · rfl
  · rw [List.map_singleton, stretch, lexemes_of_literal hkind]
    rfl

/-- Code in front of segments is a lexeme in front of their parts, if the first segment is tokenized
to the same lexemes after it as alone. -/
theorem stretch_consCode {table : TokenTable} {lexeme : Lexeme} {segments : List Segment}
    (h : ∀ text : Text, text <+: segments.flatMap Segment.text →
      table.munch (lexeme.text ++ text) = lexeme :: table.munch text) :
    (consCode lexeme.text segments).map (stretch table) =
      Stretch.consCode lexeme (segments.map (stretch table)) := by
  have halone : table.munch lexeme.text = [lexeme] := by
    have hmunch := h [] List.nil_prefix
    rwa [List.append_nil, TokenTable.munch] at hmunch
  cases segments with
  | nil => simp [consCode, Stretch.consCode, stretch, lexemes, halone, Stretch.code]
  | cons segment rest =>
      obtain ⟨kind, first⟩ := segment
      cases kind with
      | code =>
          have hmunch := h first (by simp)
          simp [consCode, Stretch.consCode, stretch, lexemes, hmunch, Stretch.code]
      | string | comment | data =>
          simp [consCode, Stretch.consCode, stretch, lexemes, halone, Stretch.code]

theorem opensComment_of_opensData {keyword : Keyword} (h : opensData keyword = true) :
    opensComment keyword = false := by
  have htext : keyword.text = ['D', 'A', 'T', 'A'] := of_decide_eq_true h
  simp [opensComment, htext]

end Segment

namespace TokenTable

variable {table : TokenTable}

/-- The parts of the code of a line. -/
def stretches (table : TokenTable) (code : Text) : List Stretch :=
  (Segment.classify table code).map (Segment.stretch table)

theorem allLexemes_stretches (table : TokenTable) (code : Text) :
    Stretch.allLexemes (table.stretches code) = table.lineLexemes code := by
  rw [stretches, Stretch.allLexemes, List.flatMap_map]
  rfl

theorem allText_stretches (table : TokenTable) (code : Text) :
    Stretch.allText (table.stretches code) = code := by
  rw [Stretch.allText, allLexemes_stretches, flatMap_text_lineLexemes]

theorem map_segment_stretches (table : TokenTable) (code : Text) :
    (table.stretches code).map Stretch.segment = Segment.classify table code := by
  rw [stretches, List.map_map]
  exact List.map_id'' (Segment.segment_stretch table) _

theorem stretches_nil (table : TokenTable) : table.stretches [] = [] := by
  simp [stretches, Segment.classify]

theorem beginsWithColon_stretches (table : TokenTable) (after : Text)
    (hparted : Stretch.Parted (table.stretches (':' :: after))) :
    Stretch.BeginsWithColon (table.stretches (':' :: after)) := by
  have hlexemes := table.allLexemes_stretches (':' :: after)
  rw [lineLexemes_eq_scan, scan_cons] at hlexemes
  obtain ⟨more, -, hfirst, -⟩ := exists_text_read table .code ':' after
  exact hparted.beginsWithColon hlexemes (by rw [hfirst]; rfl)

/-- The parts of a line are in order. -/
theorem parted_stretches (table : TokenTable) (code : Text) :
    Stretch.Parted (table.stretches code) := by
  unfold stretches
  fun_induction Segment.classify table code with
  | case1 => exact .nil
  | case2 rest ih =>
      rcases Segment.spanString_cases rest with ⟨inner, after, hinner, hspan⟩ | ⟨hnone, hspan⟩
      · rw [hspan] at ih ⊢
        exact .string hinner ih
      · rw [hspan, Segment.classify]
        exact .openString hnone
  | case3 c rest hquote keyword hmatch after hcomment =>
      have hsplit := text_append_drop_of_longestMatch? hmatch
      rw [List.map_cons, Segment.stretch_ofNonempty (by simp), Segment.stretch,
        Segment.lexemes_of_code rfl, munch_keyword (hsplit.symm ▸ hmatch)]
      exact @Stretch.Parted.comment [] keyword (by simp) hcomment after
  | case4 c rest hquote keyword hmatch after hcomment hdata ih =>
      have hsplit := text_append_drop_of_longestMatch? hmatch
      rw [List.cons_append, List.map_cons, List.map_append, Segment.stretch_ofNonempty (by simp),
        Segment.stretch, Segment.lexemes_of_code rfl, munch_keyword (hsplit.symm ▸ hmatch)]
      rcases Segment.spanData_cases false after with ⟨items, later, hspan, hitems⟩ | hspan
      · rw [hspan] at ih ⊢
        exact @Stretch.Parted.data [] keyword _ _ (by simp) hdata hitems
          (table.beginsWithColon_stretches later ih) ih
      · rw [hspan, Segment.classify, List.map_nil, List.append_nil]
        exact @Stretch.Parted.lastData [] keyword _ (by simp) hdata hspan
  | case5 c rest hquote keyword hmatch after hcomment hdata ih =>
      have hsplit := text_append_drop_of_longestMatch? hmatch
      have hcons := @Segment.stretch_consCode table (.keyword keyword)
        (Segment.classify table after) fun text htext => by
          rw [Segment.flatMap_text_classify] at htext
          exact munch_keyword_append (hsplit.symm ▸ hmatch) htext
      rw [Bool.not_eq_true] at hcomment hdata
      have hcontinues : (Lexeme.keyword keyword).Continues := ⟨hcomment, hdata⟩
      exact hcons ▸ ih.consCode hcontinues
  | case6 c rest hquote hmatch ih =>
      have hcons := @Segment.stretch_consCode table (.plain c)
        (Segment.classify table rest) fun text htext => by
          rw [Segment.flatMap_text_classify] at htext
          exact munch_cons_of_no_match hmatch htext
      have hcontinues : (Lexeme.plain c).Continues := hquote
      exact hcons ▸ ih.consCode hcontinues

section Rereading

variable {lexemes : List Lexeme} {parts : List Stretch}

/-- A keyword that is read in code is the longest one there. -/
theorem Scanned.keyword {keyword : Keyword}
    (h : table.Scanned .code (.keyword keyword :: lexemes)) :
    ∃ c more, keyword.text = c :: more ∧ c ≠ '"' ∧
      table.longestMatch? (c :: (more ++ lexemes.flatMap Lexeme.text)) = some keyword ∧
        table.Scanned (.afterKeyword keyword) lexemes := by
  obtain ⟨c, more, next, htext, hread, hrest⟩ := scanned_cons_iff.1 h
  unfold read at hread
  dsimp only at hread
  split at hread
  · rename_i hcode
    split at hread
    · rename_i found hmatch
      obtain ⟨hfound, rfl⟩ := Prod.mk.inj hread
      obtain rfl := Lexeme.keyword.inj hfound
      exact ⟨c, more, htext, hcode.2, hmatch, hrest⟩
    · simp at hread
  · simp at hread

/-- A character that is read in code begins no keyword, unless it is a quote. -/
theorem Scanned.plain {c : Char} (h : table.Scanned .code (.plain c :: lexemes)) (hc : c ≠ '"') :
    table.longestMatch? (c :: lexemes.flatMap Lexeme.text) = none ∧
      table.Scanned .code lexemes := by
  obtain ⟨first, more, next, htext, hread, hrest⟩ := scanned_cons_iff.1 h
  obtain ⟨rfl, rfl⟩ := List.cons.inj htext
  rw [List.nil_append] at hread
  cases hmatch : table.longestMatch? (c :: lexemes.flatMap Lexeme.text) with
  | some keyword => simp [table.read_of_match (Mode.reading_code c) hc hmatch] at hread
  | none =>
      rw [table.read_of_no_match (Mode.reading_code c) hc hmatch] at hread
      exact ⟨rfl, (Prod.mk.inj hread).2 ▸ hrest⟩

theorem Scanned.quote (h : table.Scanned .code (.plain '"' :: lexemes)) :
    table.Scanned .string lexemes := by
  obtain ⟨first, more, next, htext, hread, hrest⟩ := scanned_cons_iff.1 h
  obtain ⟨rfl, rfl⟩ := List.cons.inj htext
  rw [table.read_quote rfl] at hread
  exact (Prod.mk.inj hread).2 ▸ hrest

/-- The code of a line that starts with a keyword. -/
theorem classify_of_match {keyword : Keyword} {c : Char} {more rest : Text}
    (htext : keyword.text = c :: more) (hc : c ≠ '"')
    (hmatch : table.longestMatch? (c :: (more ++ rest)) = some keyword) :
    Segment.classify table (keyword.text ++ rest) =
      if Segment.opensComment keyword then ⟨.code, keyword.text⟩ :: Segment.ofNonempty .comment rest
      else if Segment.opensData keyword then
        ⟨.code, keyword.text⟩ :: Segment.ofNonempty .data (Segment.spanData false rest).1 ++
          Segment.classify table (Segment.spanData false rest).2
      else Segment.consCode keyword.text (Segment.classify table rest) := by
  have hdrop : (more ++ rest).drop (keyword.text.length - 1) = rest := by simp [htext]
  conv_lhs => rw [htext, List.cons_append, Segment.classify, if_neg hc, hmatch]
  simp only [hdrop]

/-- A lexeme after which code goes on is put in front of the parts of the rest. -/
theorem Scanned.stretches_cons {lexeme : Lexeme} (h : table.Scanned .code (lexeme :: lexemes))
    (hlexeme : lexeme.Continues) :
    table.stretches (lexeme.text ++ lexemes.flatMap Lexeme.text) =
        Stretch.consCode lexeme (table.stretches (lexemes.flatMap Lexeme.text)) ∧
      table.Scanned .code lexemes := by
  cases lexeme with
  | keyword k =>
      obtain ⟨c, more, htext, hc, hmatch, hrest⟩ := h.keyword
      obtain ⟨hcomment, hdata⟩ := hlexeme
      rw [Mode.afterKeyword, if_neg (by simp [hcomment]), if_neg (by simp [hdata])] at hrest
      refine ⟨?_, hrest⟩
      rw [stretches, Lexeme.text, classify_of_match htext hc hmatch, if_neg (by simp [hcomment]),
        if_neg (by simp [hdata])]
      refine @Segment.stretch_consCode table (.keyword k) _ fun text hprefix => ?_
      rw [Segment.flatMap_text_classify] at hprefix
      rw [← List.cons_append, ← htext] at hmatch
      exact munch_keyword_append hmatch hprefix
  | plain c =>
      obtain ⟨hmatch, hrest⟩ := h.plain hlexeme
      refine ⟨?_, hrest⟩
      rw [stretches, Lexeme.text, List.singleton_append, Segment.classify, if_neg hlexeme, hmatch]
      refine @Segment.stretch_consCode table (.plain c) _ fun text hprefix => ?_
      rw [Segment.flatMap_text_classify] at hprefix
      exact munch_cons_of_no_match hmatch hprefix

/-- A run of code is put in front of the parts of the rest lexeme by lexeme. -/
theorem Scanned.stretches_run {run : List Lexeme} (h : table.Scanned .code (run ++ lexemes))
    (hrun : ∀ lexeme ∈ run, lexeme.Continues) :
    table.stretches ((run ++ lexemes).flatMap Lexeme.text) =
        run.foldr Stretch.consCode (table.stretches (lexemes.flatMap Lexeme.text)) ∧
      table.Scanned .code lexemes := by
  induction run with
  | nil => exact ⟨rfl, h⟩
  | cons lexeme run ih =>
      rw [List.forall_mem_cons] at hrun
      rw [List.cons_append] at h ⊢
      obtain ⟨hfirst, hmore⟩ := h.stretches_cons hrun.1
      obtain ⟨hothers, hrest⟩ := ih hmore hrun.2
      refine ⟨?_, hrest⟩
      rw [List.flatMap_cons, hfirst, hothers]
      rfl

theorem foldr_consCode_code (run lexemes : List Lexeme) (rest : List Stretch) :
    run.foldr Stretch.consCode (Stretch.code lexemes :: rest) =
      Stretch.code (run ++ lexemes) :: rest := by
  induction run with
  | nil => rfl
  | cons lexeme run ih =>
      rw [List.foldr_cons, ih]
      rfl

theorem foldr_consCode_of_ne_nil {run : List Lexeme} (hne : run ≠ []) {rest : List Stretch}
    (hnext : ∀ next ∈ rest.head?, next.kind = .string) :
    run.foldr Stretch.consCode rest = Stretch.code run :: rest := by
  induction run using List.reverseRecOn with
  | nil => exact (hne rfl).elim
  | append_singleton run lexeme _ =>
      have hlast : Stretch.consCode lexeme rest = Stretch.code [lexeme] :: rest := by
        match rest with
        | [] => rfl
        | ⟨.code, _⟩ :: _ => simp at hnext
        | ⟨.string, _⟩ :: _ | ⟨.comment, _⟩ :: _ | ⟨.data, _⟩ :: _ => rfl
      rw [List.foldr_append, List.foldr_cons, List.foldr_nil, hlast, foldr_consCode_code]

theorem Scanned.of_string {body : Text} (h : table.Scanned .string (body.map .plain ++ lexemes))
    (hbody : Segment.spanString (body ++ lexemes.flatMap Lexeme.text) =
      (body, lexemes.flatMap Lexeme.text)) : table.Scanned .code lexemes := by
  rw [Scanned, List.flatMap_append, Stretch.flatMap_text_plain, scan_string, hbody] at h
  exact List.append_cancel_left h

theorem Scanned.of_data {items : Text}
    (h : table.Scanned (.data false) (items.map .plain ++ lexemes))
    (hitems : Segment.spanData false (items ++ lexemes.flatMap Lexeme.text) =
      (items, lexemes.flatMap Lexeme.text)) : table.Scanned .code lexemes := by
  rw [Scanned, List.flatMap_append, Stretch.flatMap_text_plain, scan_data, hitems] at h
  exact List.append_cancel_left h

/-- A keyword that ends a run of code is followed by the parts that it opens. -/
theorem Scanned.stretches_opener {run : List Lexeme} {keyword : Keyword}
    (h : table.Scanned .code (run ++ [Lexeme.keyword keyword] ++ lexemes))
    (hrun : ∀ lexeme ∈ run, lexeme.Continues)
    (hopens : Segment.opensComment keyword = true ∨ Segment.opensData keyword = true) :
    table.stretches ((run ++ [Lexeme.keyword keyword] ++ lexemes).flatMap Lexeme.text) =
        Stretch.code (run ++ [Lexeme.keyword keyword]) ::
          (if Segment.opensComment keyword then
            Stretch.ofNonempty .comment (lexemes.flatMap Lexeme.text)
          else
            Stretch.ofNonempty .data (Segment.spanData false (lexemes.flatMap Lexeme.text)).1 ++
              table.stretches (Segment.spanData false (lexemes.flatMap Lexeme.text)).2) ∧
      table.Scanned (.afterKeyword keyword) lexemes := by
  rw [List.append_assoc, List.singleton_append] at h ⊢
  obtain ⟨hstretches, hscanned⟩ := h.stretches_run hrun
  obtain ⟨c, more, htext, hc, hmatch, hrest⟩ := hscanned.keyword
  refine ⟨?_, hrest⟩
  have hsegments := classify_of_match htext hc hmatch
  have halone : table.munch keyword.text = [Lexeme.keyword keyword] := by
    rw [← List.cons_append, ← htext] at hmatch
    exact munch_keyword hmatch
  rw [hstretches, ← foldr_consCode_code]
  congr 1
  rw [List.flatMap_cons, stretches, Lexeme.text, hsegments]
  by_cases hcomment : Segment.opensComment keyword = true
  · rw [if_pos hcomment, if_pos hcomment, List.map_cons, Segment.stretch_ofNonempty (by simp),
      Segment.stretch, Segment.lexemes_of_code rfl, halone]
    rfl
  · rw [if_neg hcomment, if_neg hcomment, if_pos (hopens.resolve_left hcomment), List.cons_append,
      List.map_cons, List.map_append, Segment.stretch_ofNonempty (by simp), Segment.stretch,
      Segment.lexemes_of_code rfl, halone]
    rfl

/-- Parts in order are the parts of their text, if it is scanned as their lexemes. -/
theorem Scanned.stretches_eq (h : table.Scanned .code (Stretch.allLexemes parts))
    (hparted : Stretch.Parted parts) : table.stretches (Stretch.allText parts) = parts := by
  induction hparted with
  | nil => exact table.stretches_nil
  | @string inner rest hinner hrest ih =>
      have hspan := Segment.spanString_of_quote hinner (Stretch.allText rest)
      rw [← List.singleton_append, ← List.append_assoc] at hspan
      have hscanned := (Scanned.quote h).of_string hspan
      rw [Stretch.allText, Stretch.allLexemes_cons, List.flatMap_append, ← Stretch.text,
        Stretch.text_literal, List.cons_append, stretches, Segment.classify, if_pos rfl,
        ← Stretch.allText, hspan, List.map_cons]
      exact congrArg _ (ih hscanned)
  | @openString inner hinner =>
      rw [Stretch.allText, Stretch.allLexemes_cons, List.flatMap_append, ← Stretch.text,
        Stretch.text_literal, Stretch.allLexemes_nil, List.flatMap_nil, List.append_nil, stretches,
        Segment.classify, if_pos rfl, Segment.spanString_of_not_mem hinner, Segment.classify]
      rfl
  | @code run rest hne hrun hnext hrest ih =>
      rw [Stretch.allLexemes_cons] at h
      obtain ⟨hstretches, hscanned⟩ := Scanned.stretches_run h hrun
      have hothers := ih hscanned
      rw [Stretch.allText] at hothers
      rw [Stretch.allText, Stretch.allLexemes_cons, hstretches, hothers]
      exact foldr_consCode_of_ne_nil hne hnext
  | @comment run keyword hrun hopens after =>
      rw [Stretch.allLexemes_cons, Stretch.allLexemes_ofNonempty] at h
      obtain ⟨hstretches, -⟩ := Scanned.stretches_opener h hrun (.inl hopens)
      rw [if_pos hopens, Stretch.flatMap_text_plain] at hstretches
      rw [Stretch.allText, Stretch.allLexemes_cons, Stretch.allLexemes_ofNonempty]
      exact hstretches
  | @data run keyword items rest hrun hopens hitems hnext hrest ih =>
      have hcomment := Segment.opensComment_of_opensData hopens
      rw [Stretch.allLexemes_cons, Stretch.allLexemes_append, Stretch.allLexemes_ofNonempty] at h
      obtain ⟨hstretches, hdata⟩ := Scanned.stretches_opener h hrun (.inr hopens)
      rw [Mode.afterKeyword, if_neg (by simp [hcomment]), if_pos hopens] at hdata
      have hspan : Segment.spanData false (items ++ Stretch.allText rest) =
          (items, Stretch.allText rest) := by
        obtain ⟨after, hafter⟩ := hnext.head?_allText
        rw [hafter, hitems]
      have htext : (items.map Lexeme.plain ++ Stretch.allLexemes rest).flatMap Lexeme.text =
          items ++ Stretch.allText rest := by
        rw [List.flatMap_append, Stretch.flatMap_text_plain]
        rfl
      rw [if_neg (by simp [hcomment]), htext, hspan, ih (hdata.of_data hspan)] at hstretches
      rw [Stretch.allText, Stretch.allLexemes_cons, Stretch.allLexemes_append,
        Stretch.allLexemes_ofNonempty]
      exact hstretches
  | @lastData run keyword items hrun hopens hitems =>
      have hcomment := Segment.opensComment_of_opensData hopens
      rw [Stretch.allLexemes_cons, Stretch.allLexemes_ofNonempty] at h
      obtain ⟨hstretches, -⟩ := Scanned.stretches_opener h hrun (.inr hopens)
      rw [if_neg (by simp [hcomment]), Stretch.flatMap_text_plain, hitems, stretches_nil,
        List.append_nil] at hstretches
      rw [Stretch.allText, Stretch.allLexemes_cons, Stretch.allLexemes_ofNonempty]
      exact hstretches

end Rereading

end TokenTable
end ColorBasic
