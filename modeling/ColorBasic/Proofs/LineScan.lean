import ColorBasic.Proofs.KeywordSearch
import ColorBasic.Proofs.StoredCode

/-!
# Storing a line in one scan

Storing cuts a line into segments first and looks for keywords in each code segment alone.  The same
bytes come from one scan of the whole line that only remembers what it is in the middle of: a
keyword that the whole line shows at some place lies inside one segment and is found there too.
-/

namespace ColorBasic

/-- What a scan of a line is in the middle of. -/
inductive Mode where
  /-- Code, in which keywords are looked for. -/
  | code
  /-- A string literal, which runs through the next quote. -/
  | string
  /-- A comment, which runs to the end of the line. -/
  | comment
  /-- Data items, which run up to a colon outside quotes. -/
  | data (quoted : Bool)
  deriving DecidableEq, Repr

namespace Mode

/-- The mode in which a character is read. -/
def reading (mode : Mode) (c : Char) : Mode :=
  if mode = .data false ∧ c = ':' then .code else mode

/-- The mode after a character that is copied. -/
def afterChar (c : Char) : Mode → Mode
  | code => if c = '"' then string else code
  | string => if c = '"' then code else string
  | comment => comment
  | data quoted => data (if c = '"' then !quoted else quoted)

/-- The mode after a keyword. -/
def afterKeyword (keyword : Keyword) : Mode :=
  if Segment.opensComment keyword then comment
  else if Segment.opensData keyword then data false
  else code

@[simp] theorem reading_code (c : Char) : code.reading c = code := by
  simp [reading]

@[simp] theorem reading_string (c : Char) : string.reading c = string := by
  simp [reading]

@[simp] theorem reading_comment (c : Char) : comment.reading c = comment := by
  simp [reading]

end Mode

namespace TokenTable

/-- The lexeme that a scan reads next, and the mode after it. -/
def read (table : TokenTable) (mode : Mode) (c : Char) (rest : Text) : Lexeme × Mode :=
  let copied := (.plain c, (mode.reading c).afterChar c)
  if mode.reading c = .code ∧ c ≠ '"' then
    match table.longestMatch? (c :: rest) with
    | some keyword => (.keyword keyword, .afterKeyword keyword)
    | none => copied
  else copied

/-- The lexemes of a text in one scan from left to right. -/
def scan (table : TokenTable) (mode : Mode) : Text → List Lexeme
  | [] => []
  | c :: rest =>
    (table.read mode c rest).1 ::
      scan table (table.read mode c rest).2
        (rest.drop ((table.read mode c rest).1.text.length - 1))
termination_by text => text.length
decreasing_by all_goals grind

section Reading

variable (table : TokenTable) {mode : Mode} {c : Char} {rest : Text}

theorem read_of_literal (h : mode.reading c ≠ .code) :
    table.read mode c rest = (.plain c, (mode.reading c).afterChar c) :=
  if_neg fun hcode => h hcode.1

theorem read_quote (h : mode.reading '"' = .code) :
    table.read mode '"' rest = (.plain '"', .string) := by
  rw [read, if_neg fun hcode => hcode.2 rfl, h]
  rfl

theorem read_of_match (h : mode.reading c = .code) (hc : c ≠ '"') {keyword : Keyword}
    (hmatch : table.longestMatch? (c :: rest) = some keyword) :
    table.read mode c rest = (.keyword keyword, .afterKeyword keyword) := by
  rw [read, if_pos ⟨h, hc⟩, hmatch]

theorem read_of_no_match (h : mode.reading c = .code) (hc : c ≠ '"')
    (hmatch : table.longestMatch? (c :: rest) = none) :
    table.read mode c rest = (.plain c, .code) := by
  rw [read, if_pos ⟨h, hc⟩, hmatch, h]
  simp [Mode.afterChar, hc]

@[simp] theorem scan_nil (mode : Mode) : table.scan mode [] = [] := by
  rw [scan]

theorem scan_cons (mode : Mode) (c : Char) (rest : Text) :
    table.scan mode (c :: rest) =
      (table.read mode c rest).1 ::
        table.scan (table.read mode c rest).2
          (rest.drop ((table.read mode c rest).1.text.length - 1)) := by
  rw [scan]

theorem scan_of_plain {next : Mode} (h : table.read mode c rest = (.plain c, next)) :
    table.scan mode (c :: rest) = .plain c :: table.scan next rest := by
  rw [scan_cons, h]
  rfl

end Reading

section Literals

variable (table : TokenTable)

theorem scan_comment (s : Text) : table.scan .comment s = s.map .plain := by
  induction s with
  | nil => simp
  | cons c rest ih =>
      rw [table.scan_of_plain (table.read_of_literal (by simp)), List.map_cons, ← ih]
      simp [Mode.afterChar]

theorem spanString_cons (c : Char) (rest : Text) :
    Segment.spanString (c :: rest) =
      if c = '"' then ([c], rest)
      else (c :: (Segment.spanString rest).1, (Segment.spanString rest).2) := by
  by_cases hc : c = '"' <;> simp [Segment.spanString, hc]

theorem scan_string (s : Text) :
    table.scan .string s =
      (Segment.spanString s).1.map .plain ++ table.scan .code (Segment.spanString s).2 := by
  induction s with
  | nil => simp [Segment.spanString]
  | cons c rest ih =>
      rw [table.scan_of_plain (table.read_of_literal (by simp)), spanString_cons,
        Mode.reading_string, Mode.afterChar]
      by_cases hc : c = '"'
      · rw [if_pos hc, if_pos hc]
        rfl
      · rw [if_neg hc, if_neg hc, ih]
        rfl

/-- The colon that ends data items is read as code. -/
theorem scan_data (quoted : Bool) (s : Text) :
    table.scan (.data quoted) s =
      (Segment.spanData quoted s).1.map .plain ++
        table.scan .code (Segment.spanData quoted s).2 := by
  induction s generalizing quoted with
  | nil => simp [Segment.spanData]
  | cons c rest ih =>
      rw [Segment.spanData]
      by_cases hend : c = ':' ∧ quoted = false
      · obtain ⟨rfl, rfl⟩ := hend
        have hread : table.read (.data false) ':' rest = table.read .code ':' rest := rfl
        simp [scan_cons, hread]
      · have hreading : (Mode.data quoted).reading c = .data quoted := by
          simp only [Mode.reading, Mode.data.injEq]
          exact if_neg fun h => hend ⟨h.2, h.1⟩
        rw [if_neg hend, table.scan_of_plain (table.read_of_literal (by simp [hreading])),
          hreading, Mode.afterChar, ih]
        rfl

end Literals

section Segments

variable {table : TokenTable}

/-- Code in front of segments adds its lexeme, if the first segment is tokenized to the same lexemes
after it as alone. -/
theorem lexemes_consCode {lexeme : Lexeme} {segments : List Segment}
    (h : ∀ text : Text, text <+: segments.flatMap Segment.text →
      table.munch (lexeme.text ++ text) = lexeme :: table.munch text) :
    (Segment.consCode lexeme.text segments).flatMap (Segment.lexemes table) =
      lexeme :: segments.flatMap (Segment.lexemes table) := by
  unfold Segment.consCode
  split
  · rename_i first rest
    rw [List.flatMap_cons, List.flatMap_cons, Segment.lexemes_of_code rfl,
      Segment.lexemes_of_code rfl, h first (by simp)]
    rfl
  · rw [List.flatMap_cons, Segment.lexemes_of_code rfl]
    have halone := h [] (List.nil_prefix)
    rw [List.append_nil] at halone
    rw [halone, munch]
    rfl

theorem munch_keyword_append {keyword : Keyword} {text whole : Text}
    (h : table.longestMatch? (keyword.text ++ whole) = some keyword) (htext : text <+: whole) :
    table.munch (keyword.text ++ text) = .keyword keyword :: table.munch text := by
  have hpart : table.longestMatch? (keyword.text ++ text) = some keyword :=
    longestMatch?_of_prefix h ((List.prefix_append_right_inj _).2 htext) (List.prefix_append _ _)
  have hne := table.text_ne_nil keyword (mem_and_prefix_of_longestMatch? h).1
  cases hkeyword : keyword.text with
  | nil => exact (hne hkeyword).elim
  | cons c others =>
      rw [hkeyword, List.cons_append] at hpart
      rw [List.cons_append, munch, hpart]
      simp [hkeyword]

theorem munch_cons_of_no_match {c : Char} {text whole : Text}
    (h : table.longestMatch? (c :: whole) = none) (htext : text <+: whole) :
    table.munch (c :: text) = .plain c :: table.munch text := by
  have hpart : table.longestMatch? (c :: text) = none :=
    longestMatch?_eq_none_of_prefix h (List.cons_prefix_cons.2 ⟨rfl, htext⟩)
  rw [munch, hpart]

theorem lexemes_ofNonempty {kind : SegmentKind} (hkind : kind ≠ .code) (text : Text) :
    (Segment.ofNonempty kind text).flatMap (Segment.lexemes table) = text.map .plain := by
  unfold Segment.ofNonempty
  split
  · rename_i hempty
    rw [List.isEmpty_iff.1 hempty]
    rfl
  · rw [List.flatMap_singleton, Segment.lexemes_of_literal hkind]

/-- A keyword alone in a segment is the only lexeme of it. -/
theorem munch_keyword {keyword : Keyword} {whole : Text}
    (h : table.longestMatch? (keyword.text ++ whole) = some keyword) :
    table.munch keyword.text = [.keyword keyword] := by
  have halone := munch_keyword_append h List.nil_prefix
  rwa [List.append_nil, munch] at halone

variable (table)

/-- The segments of a line have the lexemes that one scan of the line reads. -/
theorem lineLexemes_eq_scan (code : Text) : table.lineLexemes code = table.scan .code code := by
  unfold lineLexemes
  fun_induction Segment.classify table code with
  | case1 => simp
  | case2 rest ih =>
      rw [List.flatMap_cons, Segment.lexemes_of_literal (by simp), ih,
        table.scan_of_plain (table.read_quote rfl), scan_string]
      rfl
  | case3 c rest hquote keyword hmatch after hcomment =>
      have hsplit := text_append_drop_of_longestMatch? hmatch
      rw [List.flatMap_cons, Segment.lexemes_of_code rfl, lexemes_ofNonempty (by simp),
        scan_cons, table.read_of_match rfl hquote hmatch, Mode.afterKeyword, if_pos hcomment,
        scan_comment, munch_keyword (hsplit.symm ▸ hmatch)]
      rfl
  | case4 c rest hquote keyword hmatch after hcomment hdata ih =>
      have hsplit := text_append_drop_of_longestMatch? hmatch
      rw [List.cons_append, List.flatMap_cons, List.flatMap_append, Segment.lexemes_of_code rfl,
        lexemes_ofNonempty (by simp), ih, scan_cons, table.read_of_match rfl hquote hmatch,
        Mode.afterKeyword, if_neg hcomment, if_pos hdata, scan_data,
        munch_keyword (hsplit.symm ▸ hmatch)]
      rfl
  | case5 c rest hquote keyword hmatch after hcomment hdata ih =>
      have hsplit := text_append_drop_of_longestMatch? hmatch
      have hfirst : (Segment.consCode keyword.text (Segment.classify table after)).flatMap
          (Segment.lexemes table) = .keyword keyword ::
            (Segment.classify table after).flatMap (Segment.lexemes table) := by
        refine @lexemes_consCode table (.keyword keyword) _ fun text htext => ?_
        rw [Segment.flatMap_text_classify] at htext
        exact munch_keyword_append (hsplit.symm ▸ hmatch) htext
      rw [scan_cons, table.read_of_match rfl hquote hmatch, Mode.afterKeyword, if_neg hcomment,
        if_neg hdata]
      exact hfirst.trans (congrArg _ ih)
  | case6 c rest hquote hmatch ih =>
      have hfirst : (Segment.consCode [c] (Segment.classify table rest)).flatMap
          (Segment.lexemes table) = .plain c ::
            (Segment.classify table rest).flatMap (Segment.lexemes table) := by
        refine @lexemes_consCode table (.plain c) _ fun text htext => ?_
        rw [Segment.flatMap_text_classify] at htext
        exact munch_cons_of_no_match hmatch htext
      rw [table.scan_of_plain (table.read_of_no_match rfl hquote hmatch)]
      exact hfirst.trans (congrArg _ ih)

end Segments

end TokenTable

namespace Lexeme

/-- What a scan stores for a lexeme: a colon goes before the apostrophe and before `ELSE`. -/
def scanned (table : TokenTable) : Lexeme → Bytes
  | keyword k =>
    (if k.text = ['\''] ∨ k.text = ['E', 'L', 'S', 'E'] then table.colon.bytes else []) ++
      k.token.bytes
  | plain c => [Text.storedByte c]

/-- The hidden colon of a lexeme is put in by its text or by its token alike. -/
theorem KeptBy.encode_insertColons {table : TokenTable} {lexeme : Lexeme}
    (h : lexeme.KeptBy table) :
    Token.encode (TokenTable.insertColons table.colon table.colonTargets [lexeme.token]) =
      lexeme.scanned table := by
  cases lexeme with
  | plain c =>
      rw [TokenTable.insertColons_eq_self]
      · rfl
      · intro token htoken
        rw [List.mem_singleton.1 htoken]
        exact TokenTable.KeepsChar.byte_not_mem_colonTargets h
  | keyword k =>
      have htarget : k.token ∈ table.colonTargets ↔
          k.text = ['\''] ∨ k.text = ['E', 'L', 'S', 'E'] := by
        rw [TokenTable.mem_colonTargets_iff]
        constructor
        · rintro ⟨target, hmem, htext, htoken⟩
          have hlookup := TokenTable.keywordOfToken?_token hmem
          rw [htoken, TokenTable.keywordOfToken?_token h] at hlookup
          exact Option.some.inj hlookup ▸ htext
        · exact fun htext => ⟨k, h, htext, rfl⟩
      rw [token, TokenTable.insertColons_cons, TokenTable.insertColons_nil, List.append_nil, scanned]
      by_cases hhidden : k.text = ['\''] ∨ k.text = ['E', 'L', 'S', 'E']
      · rw [if_pos (htarget.2 hhidden), if_pos hhidden]
        simp
      · rw [if_neg fun hmem => hhidden (htarget.1 hmem), if_neg hhidden]
        simp

end Lexeme

namespace TokenTable

/-- The stored form of a line in one scan from left to right. -/
def scanStored (table : TokenTable) (code : Text) : Bytes :=
  (table.scan .code code).flatMap (Lexeme.scanned table)

theorem encode_insertColons_tokens {table : TokenTable} {lexemes : List Lexeme}
    (h : ∀ lexeme ∈ lexemes, lexeme.KeptBy table) :
    Token.encode (insertColons table.colon table.colonTargets (lexemes.map Lexeme.token)) =
      lexemes.flatMap (Lexeme.scanned table) := by
  rw [List.map_eq_flatMap, insertColons_flatMap, Token.encode, List.flatMap_assoc]
  exact List.flatMap_congr fun lexeme hmem => (h lexeme hmem).encode_insertColons

theorem Lossless.storeCode_eq_scan {table : TokenTable} {code : Text} (hregular : table.Regular)
    (h : table.Lossless code) : table.storeCode code = table.scanStored code := by
  rw [h.storeCode_eq hregular, encode_insertColons_tokens h.keptBy, lineLexemes_eq_scan]
  rfl

/-- Code in characters of seven bits is stored as one scan of the whole line stores it, with the
table of any keywords of regular values and so with the table of each machine. -/
theorem storeCode_eq_scanStored (code : Text) (hcode : ∀ c ∈ code, c.toNat < 0x80) :
    (∀ machine keywords table, ofKeywords machine keywords = .ok table →
      (∀ keyword ∈ keywords, keyword.IsRegular) →
        table.storeCode code = table.scanStored code) ∧
      ∀ machine : Machine, machine.table.storeCode code = machine.table.scanStored code := by
  constructor
  · intro machine keywords table htable hvalues
    have hregular : table.Regular := by
      rw [Regular, (ofKeywords_eq_ok_iff.1 htable).2]
      exact hvalues
    exact (lossless_of_ascii hregular hcode).storeCode_eq_scan hregular
  · intro machine
    exact (lossless_of_ascii machine.table_regular hcode).storeCode_eq_scan machine.table_regular

/-- A table with a colon of two bytes and a keyword that ends with a quote. -/
def quotingTable : TokenTable where
  machine := .coco
  keywords :=
    [⟨0x83, ['\'']⟩, ⟨0x84, ['E', 'L', 'S', 'E']⟩, ⟨0x86, ['D', 'A', 'T', 'A']⟩,
     ⟨0xFF3A, [':']⟩, ⟨0xFF22, ['S', '"']⟩]
  text_ne_nil := by decide
  texts_nodup := by decide
  values_nodup := by decide

/-- Code with an `ELSE` and an apostrophe inside and outside of literals. -/
def quotingCode : Text := "S\":ELSE\"'ELSE\"DATA\":\":ELSE'\"".toList

theorem storeCode_quoting :
    ofKeywords .coco quotingTable.keywords = .ok quotingTable ∧
      quotingTable.storeCode quotingCode =
        [0xFF, 0x22, 0xFF, 0x3A, 0xFF, 0x3A, 0x84, 0x22, 0x27, 0x45, 0x4C, 0x53, 0x45, 0x22, 0x86,
          0x22, 0x3A, 0x22, 0xFF, 0x3A, 0xFF, 0x3A, 0x84, 0xFF, 0x3A, 0x83, 0x22] := by
  have htable : ofKeywords .coco quotingTable.keywords = .ok quotingTable :=
    ofKeywords_eq_ok_iff.2 ⟨rfl, rfl⟩
  have hvalues : ∀ keyword ∈ quotingTable.keywords, keyword.IsRegular := by
    change ∀ keyword ∈ quotingTable.keywords,
      (0x80 ≤ keyword.value.toNat ∧ keyword.value.toNat ≤ 0xFE) ∨ 0xFF00 ≤ keyword.value.toNat
    decide
  have hall : quotingCode.all (·.toNat < 0x80) = true := by decide +kernel
  have hcode : ∀ c ∈ quotingCode, c.toNat < 0x80 := fun c hc =>
    of_decide_eq_true (List.all_eq_true.1 hall c hc)
  refine ⟨htable, ?_⟩
  rw [(storeCode_eq_scanStored quotingCode hcode).1 _ _ _ htable hvalues]
  decide +kernel

end TokenTable
end ColorBasic
