import ColorBasic.Proofs.RespacedParts
import Mathlib.Algebra.GroupWithZero.Nat

/-!
# Literals in a reformatted listing

Respacing copies the literals of a line, but the space that it leaves after a keyword becomes part
of what the keyword opens when the line is read again.  The literals of a line are therefore the
same afterwards exactly if all that keywords open begins with a space already, and no data item is
missing in front of a colon.
-/

namespace ColorBasic

namespace Segment

/-- The segments that are not code. -/
def literals (segments : List Segment) : List Segment := segments.filter (·.kind ≠ .code)

/-- The literals that respacing leaves of a segment before the next one. -/
def respacedLiteral (next : Option Segment) (segment : Segment) : List Segment :=
  match segment.kind, next.map kind with
  | .code, some .code => [⟨.data, [' ']⟩]
  | .code, _ => []
  | .string, _ => [segment]
  | kind, _ => [⟨kind, Gap.led ' ' segment.text⟩]

/-- The literals that respacing leaves of the segments of a line. -/
def respacedLiterals : List Segment → List Segment
  | [] => []
  | segment :: rest => segment.respacedLiteral rest.head? ++ respacedLiterals rest

/-- Whether all that keywords open begins with a space, and is there. -/
structure SpacedLiterals (segments : List Segment) : Prop where
  opened : ∀ segment ∈ segments, segment.kind = .comment ∨ segment.kind = .data →
    segment.text.head? = some ' '
  present : segments.IsChain fun first second => ¬(first.kind = .code ∧ second.kind = .code)

/-- The number of characters of segments. -/
def size (segments : List Segment) : Nat := (segments.map fun segment => segment.text.length).sum

theorem size_append (first second : List Segment) :
    size (first ++ second) = size first + size second := by
  simp [size]

theorem literals_cons (segment : Segment) (rest : List Segment) :
    literals (segment :: rest) = literals [segment] ++ literals rest := by
  rw [← List.singleton_append, literals, List.filter_append]
  rfl

/-- Whether respacing leaves the literals of a segment before the next one as they are. -/
def KeepsLiteral (next : Option Segment) (segment : Segment) : Prop :=
  (segment.kind = .comment ∨ segment.kind = .data → segment.text.head? = some ' ') ∧
    ∀ other ∈ next, ¬(segment.kind = .code ∧ other.kind = .code)

theorem spacedLiterals_cons_iff {segment : Segment} {rest : List Segment} :
    SpacedLiterals (segment :: rest) ↔
      segment.KeepsLiteral rest.head? ∧ SpacedLiterals rest := by
  constructor
  · rintro ⟨hopened, hpresent⟩
    rw [List.forall_mem_cons] at hopened
    rw [List.isChain_cons] at hpresent
    exact ⟨⟨hopened.1, hpresent.1⟩, hopened.2, hpresent.2⟩
  · rintro ⟨⟨hfirst, hnext⟩, hopened, hpresent⟩
    exact ⟨List.forall_mem_cons.2 ⟨hfirst, hopened⟩, List.isChain_cons.2 ⟨hnext, hpresent⟩⟩

variable {segment : Segment} {next : Option Segment}

theorem KeepsLiteral.respacedLiteral_eq (h : segment.KeepsLiteral next) :
    segment.respacedLiteral next = literals [segment] := by
  obtain ⟨hopened, hpresent⟩ := h
  obtain ⟨kind, text⟩ := segment
  cases kind with
  | code =>
      match next with
      | none => rfl
      | some ⟨.code, _⟩ => exact (hpresent _ rfl ⟨rfl, rfl⟩).elim
      | some ⟨.string, _⟩ | some ⟨.comment, _⟩ | some ⟨.data, _⟩ => rfl
  | string => rfl
  | comment =>
      rw [respacedLiteral, Gap.led_eq_self_iff.2 (hopened (.inl rfl))]
      rfl
  | data =>
      rw [respacedLiteral, Gap.led_eq_self_iff.2 (hopened (.inr rfl))]
      rfl

/-- A literal that does not stay as it is grows. -/
theorem size_literals_lt (h : ¬segment.KeepsLiteral next) :
    size (literals [segment]) < size (segment.respacedLiteral next) := by
  have hgrows {kind : SegmentKind} {text : Text} (hspace : text.head? ≠ some ' ') :
      size [⟨kind, text⟩] < size [⟨kind, Gap.led ' ' text⟩] := by
    simp [size, Gap.led, hspace]
  obtain ⟨kind, text⟩ := segment
  cases kind with
  | code =>
      cases next with
      | none => simp [KeepsLiteral] at h
      | some following =>
          obtain ⟨kind, _⟩ := following
          cases kind with
          | code => exact Nat.zero_lt_one
          | string | comment | data => simp [KeepsLiteral] at h
  | string => simp [KeepsLiteral] at h
  | comment => exact hgrows fun hspace => h ⟨fun _ => hspace, by simp⟩
  | data => exact hgrows fun hspace => h ⟨fun _ => hspace, by simp⟩

theorem size_literals_le (segments : List Segment) :
    size (literals segments) ≤ size (respacedLiterals segments) := by
  induction segments with
  | nil => exact le_refl _
  | cons segment rest ih =>
      rw [literals_cons, respacedLiterals, size_append, size_append]
      by_cases hkeeps : segment.KeepsLiteral rest.head?
      · rw [hkeeps.respacedLiteral_eq]
        omega
      · have hgrows := size_literals_lt hkeeps
        omega

/-- Respacing leaves the literals of a line as they are exactly if all that keywords open begins
with a space. -/
theorem respacedLiterals_eq_literals_iff {segments : List Segment} :
    respacedLiterals segments = literals segments ↔ SpacedLiterals segments := by
  induction segments with
  | nil => exact ⟨fun _ => ⟨by simp, .nil⟩, fun _ => rfl⟩
  | cons segment rest ih =>
      rw [spacedLiterals_cons_iff, ← ih, literals_cons, respacedLiterals]
      constructor
      · intro h
        by_cases hkeeps : segment.KeepsLiteral rest.head?
        · rw [hkeeps.respacedLiteral_eq] at h
          exact ⟨hkeeps, List.append_cancel_left h⟩
        · -- What has grown here cannot have shrunk elsewhere.
          have hgrows := size_literals_lt hkeeps
          have hothers := size_literals_le rest
          have hsize := congrArg size h
          rw [size_append, size_append] at hsize
          omega
      · rintro ⟨hkeeps, hrest⟩
        rw [hkeeps.respacedLiteral_eq, hrest]

theorem literals_respaced (table : TokenTable) (next : Option Segment) (segment : Segment) :
    literals (((segment.stretch table).respaced table (next.map (stretch table))).map
      Stretch.segment) = segment.respacedLiteral next := by
  have hliteral (kind : SegmentKind) (text : Text) :
      (Stretch.literal kind text).segment = ⟨kind, text⟩ :=
    congrArg (Segment.mk kind) (Stretch.text_literal kind text)
  obtain ⟨kind, text⟩ := segment
  cases kind with
  | code =>
      match next with
      | none | some ⟨.code, _⟩ | some ⟨.string, _⟩ | some ⟨.comment, _⟩ | some ⟨.data, _⟩ => rfl
  | string =>
      rw [Stretch.respaced_string rfl, List.map_singleton, segment_stretch]
      rfl
  | comment =>
      have hstretch : stretch table ⟨.comment, text⟩ = Stretch.literal .comment text := rfl
      rw [hstretch, Stretch.respaced_literal (.inl rfl), List.map_singleton, hliteral]
      rfl
  | data =>
      have hstretch : stretch table ⟨.data, text⟩ = Stretch.literal .data text := rfl
      rw [hstretch, Stretch.respaced_literal (.inr rfl), List.map_singleton, hliteral]
      rfl

/-- The literals of respaced parts are the respaced literals. -/
theorem literals_respacedAll (table : TokenTable) (segments : List Segment) :
    literals ((Stretch.respacedAll table (segments.map (stretch table))).map Stretch.segment) =
      respacedLiterals segments := by
  induction segments with
  | nil => rfl
  | cons segment rest ih =>
      rw [List.map_cons, Stretch.respacedAll, List.map_append, literals, List.filter_append,
        List.head?_map, respacedLiterals, ← ih, ← literals_respaced table]
      rfl

end Segment

namespace TokenTable

variable {table : TokenTable} {code : Text}

/-- The literals of a respaced line are the respaced literals of the line. -/
theorem Spaceable.literals_classify_respacedText (htable : table.Spaceable)
    (hascii : ∀ c ∈ code, c.toNat < 0x80) (hcode : code.IsCode) :
    Segment.literals (Segment.classify table (Line.respacedText table code)) =
      Segment.respacedLiterals (Segment.classify table code) := by
  rw [← map_segment_stretches, htable.stretches_respacedText hascii hcode]
  exact Segment.literals_respacedAll table _

end TokenTable

namespace Conversion

/-- Whether a reformatted listing has the literals of the listing: for each number those of the last
line with this number. -/
def KeepsLiterals (table : TokenTable) (listing text : Text) : Prop :=
  List.Forall₂
    (fun old new => new.1 = old.1 ∧
      Segment.literals (Segment.classify table new.2) =
        Segment.literals (Segment.classify table old.2))
    (Program.latest Prod.fst (Program.sources listing)) (Program.sources text)

/-- A listing of seven bit characters keeps its literals when it is reformatted exactly if in each
line that is kept all that keywords open begins with a space. -/
theorem keepsLiterals_iff (machine : Machine) (listing text : Text)
    (hascii : ∀ c ∈ listing, c.toNat < 0x80)
    (h : (reformat machine.table listing).result = .ok text) :
    KeepsLiterals machine.table listing text ↔
      ∀ source ∈ Program.latest Prod.fst (Program.sources listing),
        Segment.SpacedLiterals (Segment.classify machine.table source.2) := by
  have htable := machine.table_spaceable
  have hsources : ∀ source ∈ Program.sources listing, ∀ c ∈ source.2, c.toNat < 0x80 :=
    fun source hsource c hc => hascii c (Program.subset_of_mem_sources hsource hc)
  rw [KeepsLiterals, sources_reformat htable hsources h, List.forall₂_map_right_iff,
    List.forall₂_same]
  refine forall₂_congr fun source hsource => ?_
  have hmem := Program.mem_of_mem_latest hsource
  have hliterals := htable.literals_classify_respacedText (hsources source hmem)
    (Program.isCode_of_mem_sources hmem)
  rw [← Segment.respacedLiterals_eq_literals_iff, ← hliterals]
  exact and_iff_right rfl

/-- A program out of order with literals of all kinds and a line typed twice. -/
def literalListing : Text :=
  "20 PRINT\"A  B\"  ;X '  FORI\n10 REMOLD\n10 DATA 1 , 2:PRINT\"GOTO\"".toList

/-- The reformatted form of the program. -/
def literalTidy : Text :=
  "10 DATA 1 , 2:PRINT \"GOTO\"\n20 PRINT \"A  B\"  ;X '  FORI".toList

theorem keepsLiterals_literalListing :
    (reformat Machine.dragon32.table literalListing).result = .ok literalTidy ∧
      (KeepsLiterals Machine.dragon32.table literalListing literalTidy ↔
        ∀ source ∈ Program.latest Prod.fst (Program.sources literalListing),
          Segment.SpacedLiterals (Segment.classify Machine.dragon32.table source.2)) := by
  have hreformat : (reformat Machine.dragon32.table literalListing).result = .ok literalTidy := by
    decide +kernel
  have hall : literalListing.all (·.toNat < 0x80) = true := by decide +kernel
  have hascii : ∀ c ∈ literalListing, c.toNat < 0x80 := fun c hc =>
    of_decide_eq_true (List.all_eq_true.1 hall c hc)
  exact ⟨hreformat, keepsLiterals_iff .dragon32 _ _ hascii hreformat⟩

/-- A comment that follows its keyword without a space. -/
def closeComment : Text := "10 REMHELLO".toList

theorem not_keepsLiterals_closeComment :
    (reformat Machine.dragon32.table closeComment).result = .ok "10 REM HELLO".toList ∧
      ¬KeepsLiterals Machine.dragon32.table closeComment "10 REM HELLO".toList := by
  have hold : Program.latest Prod.fst (Program.sources closeComment) =
      [(10, "REMHELLO".toList)] := by
    decide +kernel
  have hnew : Program.sources "10 REM HELLO".toList = [(10, "REM HELLO".toList)] := by
    decide +kernel
  refine ⟨by decide +kernel, fun hkeeps => ?_⟩
  rw [KeepsLiterals, hold, hnew, List.forall₂_cons] at hkeeps
  exact absurd hkeeps.1.2 (by decide +kernel)

end Conversion
end ColorBasic
