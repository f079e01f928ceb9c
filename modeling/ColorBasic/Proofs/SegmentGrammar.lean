import ColorBasic.Proofs.LineParts
import Mathlib.Data.List.Permutation

/-!
# The grammar of the segments of a line

Each segment of a line is told by what it holds and by its neighbours: where a string closes, which
keyword opened a comment or data items, and what has to follow such a keyword.  All this is read off
the order of the parts of a line.
-/

namespace ColorBasic

namespace Segment

/-- Code whose last lexeme is a keyword that opens what is asked for. -/
def EndsIn (table : TokenTable) (opens : Keyword → Bool) (segment : Segment) : Prop :=
  segment.kind = .code ∧ ∃ keyword,
    (table.munch segment.text).getLast? = some (.keyword keyword) ∧ opens keyword = true

/-- Code that begins with a colon. -/
def StartsWithColon (segment : Segment) : Prop :=
  segment.kind = .code ∧ segment.text.head? = some ':'

/-- What the grammar of a line asks of a segment between its neighbours. -/
def InPlace (table : TokenTable) (previous : Option Segment) (segment : Segment)
    (next : Option Segment) : Prop :=
  match segment.kind with
  | .code =>
    '"' ∉ segment.text ∧
      (∀ keyword, .keyword keyword ∈ (table.munch segment.text).dropLast →
        opensComment keyword = false ∧ opensData keyword = false) ∧
      (segment.EndsIn table opensComment → ∀ following ∈ next, following.kind = .comment) ∧
      (segment.EndsIn table opensData → ∀ following ∈ next,
        following.kind = .data ∨ following.StartsWithColon)
  | .string =>
    ∃ inner, '"' ∉ inner ∧
      (segment.text = '"' :: (inner ++ ['"']) ∨ segment.text = '"' :: inner ∧ next = none)
  | .comment => next = none ∧ ∃ opener ∈ previous, opener.EndsIn table opensComment
  | .data =>
    (∃ opener ∈ previous, opener.EndsIn table opensData) ∧
      (∀ items rest, segment.text = items ++ ':' :: rest → items.count '"' % 2 = 1) ∧
      ∀ following ∈ next, following.StartsWithColon

/-- Every segment is in its place, where `previous` stands before all of them. -/
def AllInPlace (table : TokenTable) : Option Segment → List Segment → Prop
  | _, [] => True
  | previous, segment :: rest =>
    InPlace table previous segment rest.head? ∧ AllInPlace table (some segment) rest

theorem AllInPlace.inPlace {table : TokenTable} {previous : Option Segment}
    {before after : List Segment} {segment : Segment}
    (h : AllInPlace table previous (before ++ segment :: after)) :
    InPlace table (before.getLast?.or previous) segment after.head? := by
  induction before generalizing previous with
  | nil => exact h.1
  | cons first before ih =>
      rw [getLast?_cons_or]
      exact ih h.2

/-- A colon among data items has an odd number of quotes before it, counting the one that the items
start in. -/
theorem count_quotes_of_spanData {quoted : Bool} {text items rest : Text}
    (h : (spanData quoted text).1 = items ++ ':' :: rest) :
    (items.count '"' + quoted.toNat) % 2 = 1 := by
  induction text generalizing quoted items with
  | nil => simp [spanData] at h
  | cons c text ih =>
      rw [spanData] at h
      split at h
      · simp at h
      · rename_i hinside
        cases items with
        | nil =>
            obtain ⟨rfl, -⟩ := List.cons.inj h
            have hquoted : quoted = true := by simpa using hinside
            simp [hquoted]
        | cons first items =>
            obtain ⟨rfl, htail⟩ := List.cons.inj h
            have hcount := ih htail
            by_cases hc : c = '"'
            · rw [if_pos hc] at hcount
              rw [hc, List.count_cons_self]
              cases quoted <;> simp at hcount ⊢ <;> omega
            · rw [if_neg hc] at hcount
              rw [List.count_cons_of_ne hc]
              exact hcount

end Segment

namespace Stretch

variable {table : TokenTable}

/-- A part with the lexemes that its segment has in the table. -/
def OfTable (table : TokenTable) (part : Stretch) : Prop :=
  part.segment.lexemes table = part.lexemes

theorem ofTable_stretch (table : TokenTable) (segment : Segment) :
    OfTable table (segment.stretch table) := by
  rw [OfTable, Segment.segment_stretch]
  rfl

section Code

variable {run : List Lexeme} {keyword : Keyword} {previous next : Option Segment}

/-- Code ends in the last lexeme that it has. -/
theorem OfTable.endsIn_iff (h : OfTable table (code run)) (opens : Keyword → Bool) :
    (code run).segment.EndsIn table opens ↔
      ∃ keyword, run.getLast? = some (.keyword keyword) ∧ opens keyword = true := by
  have hmunch : table.munch (code run).segment.text = run := h
  rw [Segment.EndsIn, hmunch]
  exact and_iff_right rfl

theorem OfTable.endsIn_concat_iff
    (h : OfTable table (code (run ++ [Lexeme.keyword keyword]))) (opens : Keyword → Bool) :
    (code (run ++ [Lexeme.keyword keyword])).segment.EndsIn table opens ↔ opens keyword = true := by
  rw [h.endsIn_iff, List.getLast?_concat]
  constructor
  · rintro ⟨last, hlast, hopens⟩
    rwa [Lexeme.keyword.inj (Option.some.inj hlast)]
  · exact fun hopens => ⟨keyword, rfl, hopens⟩

/-- Code is in its place if only its last lexeme may open something and what it opens follows. -/
theorem OfTable.inPlace_code (hquote : ∀ keyword ∈ table.keywords, '"' ∉ keyword.text)
    (h : OfTable table (code run)) (hplain : Lexeme.plain '"' ∉ run)
    (hopeners : ∀ keyword, Lexeme.keyword keyword ∈ run.dropLast →
      Segment.opensComment keyword = false ∧ Segment.opensData keyword = false)
    (hcomment : (code run).segment.EndsIn table Segment.opensComment →
      ∀ following ∈ next, following.kind = .comment)
    (hdata : (code run).segment.EndsIn table Segment.opensData →
      ∀ following ∈ next, following.kind = .data ∨ following.StartsWithColon) :
    Segment.InPlace table previous (code run).segment next := by
  have hmunch : table.munch (code run).segment.text = run := h
  refine ⟨fun hmem => ?_, ?_, hcomment, hdata⟩
  · obtain ⟨lexeme, hlexeme, hmem⟩ := List.mem_flatMap.1 hmem
    cases lexeme with
    | keyword found =>
        exact hquote found (TokenTable.mem_keywords_of_mem_munch (hmunch.symm ▸ hlexeme)) hmem
    | plain c =>
        obtain rfl : '"' = c := List.mem_singleton.1 hmem
        exact hplain hlexeme
  · rw [hmunch]
    exact hopeners

theorem plain_quote_not_mem (hrun : ∀ lexeme ∈ run, lexeme.Continues) :
    Lexeme.plain '"' ∉ run := fun hmem => hrun _ hmem rfl

/-- Code that opens nothing may stand before anything. -/
theorem OfTable.inPlace_run (hquote : ∀ keyword ∈ table.keywords, '"' ∉ keyword.text)
    (h : OfTable table (code run)) (hrun : ∀ lexeme ∈ run, lexeme.Continues) :
    Segment.InPlace table previous (code run).segment next := by
  have hlast {keyword : Keyword} (hkeyword : run.getLast? = some (.keyword keyword)) :
      Segment.opensComment keyword = false ∧ Segment.opensData keyword = false :=
    hrun _ (List.mem_of_getLast? hkeyword)
  refine h.inPlace_code hquote (plain_quote_not_mem hrun)
    (fun keyword hmem => hrun _ (List.mem_of_mem_dropLast hmem)) ?_ ?_
  · intro hends
    obtain ⟨keyword, hkeyword, hopens⟩ := (h.endsIn_iff _).1 hends
    exact absurd hopens (by simp [(hlast hkeyword).1])
  · intro hends
    obtain ⟨keyword, hkeyword, hopens⟩ := (h.endsIn_iff _).1 hends
    exact absurd hopens (by simp [(hlast hkeyword).2])

/-- Code that ends in a keyword stands before what the keyword opens. -/
theorem OfTable.inPlace_opener (hquote : ∀ keyword ∈ table.keywords, '"' ∉ keyword.text)
    (h : OfTable table (code (run ++ [Lexeme.keyword keyword])))
    (hrun : ∀ lexeme ∈ run, lexeme.Continues)
    (hcomment : Segment.opensComment keyword = true →
      ∀ following ∈ next, following.kind = .comment)
    (hdata : Segment.opensData keyword = true →
      ∀ following ∈ next, following.kind = .data ∨ following.StartsWithColon) :
    Segment.InPlace table previous (code (run ++ [Lexeme.keyword keyword])).segment next := by
  refine h.inPlace_code hquote ?_ ?_ ?_ ?_
  · rw [List.mem_append, not_or]
    exact ⟨plain_quote_not_mem hrun, by simp⟩
  · rw [List.dropLast_concat]
    exact fun keyword hmem => hrun _ hmem
  · exact fun hends => hcomment ((h.endsIn_concat_iff _).1 hends)
  · exact fun hends => hdata ((h.endsIn_concat_iff _).1 hends)

end Code

theorem BeginsWithColon.startsWithColon {parts : List Stretch} (h : BeginsWithColon parts) :
    ∀ following ∈ (parts.map segment).head?, following.StartsWithColon := by
  obtain ⟨first, run, rest, rfl, hfirst⟩ := h
  intro following hfollowing
  obtain rfl : (code (first :: run)).segment = following := Option.some.inj hfollowing
  obtain ⟨more, hmore⟩ := List.head?_eq_some_iff.1 hfirst
  refine ⟨rfl, ?_⟩
  show ((first :: run).flatMap Lexeme.text).head? = some ':'
  rw [List.flatMap_cons, hmore]
  rfl

section Opened

variable {run : List Lexeme} {keyword : Keyword} {previous : Option Segment}

theorem allInPlace_comment (hquote : ∀ keyword ∈ table.keywords, '"' ∉ keyword.text)
    (hopener : OfTable table (code (run ++ [Lexeme.keyword keyword])))
    (hrun : ∀ lexeme ∈ run, lexeme.Continues) (hopens : Segment.opensComment keyword = true)
    (after : Text) :
    Segment.AllInPlace table previous
      ((code (run ++ [Lexeme.keyword keyword]) :: ofNonempty .comment after).map segment) := by
  have hdata : Segment.opensData keyword ≠ true := fun hdata => by
    simp [Segment.opensComment_of_opensData hdata] at hopens
  unfold ofNonempty
  split
  · exact ⟨hopener.inPlace_opener hquote hrun (by simp) (by simp), trivial⟩
  · refine ⟨hopener.inPlace_opener hquote hrun ?_ (fun h => (hdata h).elim), ?_, trivial⟩
    · rintro _ following ⟨⟩
      rfl
    · exact ⟨rfl, _, rfl, (hopener.endsIn_concat_iff _).2 hopens⟩

/-- Data items, if there are any, are in place before a colon or at the end of the line. -/
theorem allInPlace_data (hquote : ∀ keyword ∈ table.keywords, '"' ∉ keyword.text)
    (hopener : OfTable table (code (run ++ [Lexeme.keyword keyword])))
    (hrun : ∀ lexeme ∈ run, lexeme.Continues) (hopens : Segment.opensData keyword = true)
    {text items : Text} (hitems : (Segment.spanData false text).1 = items) {rest : List Stretch}
    (hnext : ∀ following ∈ (rest.map segment).head?, following.StartsWithColon)
    (hrest : ∀ previous, Segment.AllInPlace table previous (rest.map segment)) :
    Segment.AllInPlace table previous
      ((code (run ++ [Lexeme.keyword keyword]) :: (ofNonempty .data items ++ rest)).map
        segment) := by
  have hcomment := Segment.opensComment_of_opensData hopens
  unfold ofNonempty
  split
  · refine ⟨hopener.inPlace_opener hquote hrun (by simp [hcomment]) ?_, hrest _⟩
    exact fun _ following hfollowing => .inr (hnext following hfollowing)
  · refine ⟨hopener.inPlace_opener hquote hrun (by simp [hcomment]) ?_, ?_, hrest _⟩
    · rintro _ following ⟨⟩
      exact .inl rfl
    · refine ⟨⟨_, rfl, (hopener.endsIn_concat_iff _).2 hopens⟩, ?_, hnext⟩
      intro front back hsplit
      have hfront : items = front ++ ':' :: back := (text_literal .data items).symm.trans hsplit
      exact Segment.count_quotes_of_spanData (hitems.trans hfront)

end Opened

/-- Parts in order are in their places. -/
theorem Parted.allInPlace (hquote : ∀ keyword ∈ table.keywords, '"' ∉ keyword.text)
    {parts : List Stretch} (h : Parted parts) (hparts : ∀ part ∈ parts, OfTable table part)
    (previous : Option Segment) : Segment.AllInPlace table previous (parts.map segment) := by
  induction h generalizing previous with
  | nil => trivial
  | string hinner hrest ih =>
      rw [List.forall_mem_cons] at hparts
      exact ⟨⟨_, hinner, .inl (text_literal _ _)⟩, ih hparts.2 _⟩
  | openString hinner => exact ⟨⟨_, hinner, .inr ⟨text_literal _ _, rfl⟩⟩, trivial⟩
  | code hne hrun hnext hrest ih =>
      rw [List.forall_mem_cons] at hparts
      exact ⟨hparts.1.inPlace_run hquote hrun, ih hparts.2 _⟩
  | comment hrun hopens after =>
      rw [List.forall_mem_cons] at hparts
      exact allInPlace_comment hquote hparts.1 hrun hopens after
  | data hrun hopens hitems hnext hrest ih =>
      rw [List.forall_mem_cons, List.forall_mem_append] at hparts
      exact allInPlace_data hquote hparts.1 hrun hopens (congrArg Prod.fst (hitems []))
        hnext.startsWithColon (ih hparts.2.2)
  | lastData hrun hopens hitems =>
      rw [List.forall_mem_cons] at hparts
      have hplaced := @allInPlace_data table _ _ previous hquote hparts.1 hrun hopens _ _
        (congrArg Prod.fst hitems) [] (by simp) (fun _ => trivial)
      rwa [List.append_nil] at hplaced

end Stretch

namespace TokenTable

/-- The segments of a line are in their places if no keyword holds a quote. -/
theorem allInPlace_classify {table : TokenTable}
    (hquote : ∀ keyword ∈ table.keywords, '"' ∉ keyword.text) (code : Text) :
    Segment.AllInPlace table none (Segment.classify table code) := by
  rw [← table.map_segment_stretches code]
  refine (table.parted_stretches code).allInPlace hquote (fun part hpart => ?_) none
  obtain ⟨segment, -, rfl⟩ := List.mem_map.1 hpart
  exact Stretch.ofTable_stretch table segment

end TokenTable

namespace Machine

theorem quote_not_mem_text (machine : Machine) :
    ∀ keyword ∈ machine.keywords, '"' ∉ keyword.text := by
  cases machine <;> decide +kernel

end Machine

namespace Segment

/-- The segments of a line of any machine spell the line, none of them is empty, and each is in its
place between the one before it and the one after it. -/
theorem classify_in_place (machine : Machine) (code : Text) :
    (classify machine.table code).flatMap Segment.text = code ∧
      ∀ before segment after, classify machine.table code = before ++ segment :: after →
        segment.text ≠ [] ∧
          InPlace machine.table before.getLast? segment after.head? := by
  refine ⟨flatMap_text_classify machine.table code, ?_⟩
  intro before segment after hsplit
  have hplaced :=
    @TokenTable.allInPlace_classify machine.table machine.quote_not_mem_text code
  rw [hsplit] at hplaced
  have hmem : segment ∈ classify machine.table code := by simp [hsplit]
  refine ⟨text_ne_nil_of_mem_classify hmem, ?_⟩
  rw [← Option.or_none (o := before.getLast?)]
  exact hplaced.inPlace

/-- Code with data items in and out of quotes, `DATA` without items, and a comment with a quote. -/
def mixedCode : Text := "A\"B:\"DATA1,\":\",2:DATA:REM\"'".toList

theorem classify_in_place_mixed :
    classify Machine.dragon32.table mixedCode =
        [⟨.code, "A".toList⟩, ⟨.string, "\"B:\"".toList⟩, ⟨.code, "DATA".toList⟩,
          ⟨.data, "1,\":\",2".toList⟩, ⟨.code, ":DATA".toList⟩, ⟨.code, ":REM".toList⟩,
          ⟨.comment, "\"'".toList⟩] ∧
      InPlace Machine.dragon32.table (some ⟨.code, "DATA".toList⟩) ⟨.data, "1,\":\",2".toList⟩
        (some ⟨.code, ":DATA".toList⟩) ∧
      InPlace Machine.dragon32.table (some ⟨.code, ":DATA".toList⟩) ⟨.code, ":REM".toList⟩
        (some ⟨.comment, "\"'".toList⟩) := by
  have hclassify : classify Machine.dragon32.table mixedCode =
      [⟨.code, "A".toList⟩, ⟨.string, "\"B:\"".toList⟩, ⟨.code, "DATA".toList⟩,
        ⟨.data, "1,\":\",2".toList⟩, ⟨.code, ":DATA".toList⟩, ⟨.code, ":REM".toList⟩,
        ⟨.comment, "\"'".toList⟩] := by cbv
  obtain ⟨-, hplaces⟩ := classify_in_place .dragon32 mixedCode
  rw [hclassify] at hplaces
  refine ⟨hclassify, ?_, ?_⟩
  · exact (hplaces [⟨.code, "A".toList⟩, ⟨.string, "\"B:\"".toList⟩, ⟨.code, "DATA".toList⟩] _ _
      rfl).2
  · exact (hplaces [⟨.code, "A".toList⟩, ⟨.string, "\"B:\"".toList⟩, ⟨.code, "DATA".toList⟩,
      ⟨.data, "1,\":\",2".toList⟩, ⟨.code, ":DATA".toList⟩] _ _ rfl).2

end Segment
end ColorBasic
