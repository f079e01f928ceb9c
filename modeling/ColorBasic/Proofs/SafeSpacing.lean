import ColorBasic.Proofs.Rescan
import ColorBasic.Proofs.SpacingSteps

/-!
# Respacing is safe to scan again

Keywords keep clear of the places where respacing drops a space: none holds a space, goes on after a
colon, a parenthesis or a comma, or reaches across the two words of `GO TO` and `GO SUB`.  A line
that is respaced step by step is therefore scanned again as the same lexemes with other spaces.
-/

namespace ColorBasic
namespace TokenTable

open SpacingRules (Joint Steps LosesSpace)

/-- A table whose keywords keep clear of the places where respacing drops a space. -/
structure Spaceable (table : TokenTable) : Prop where
  regular : table.Regular
  blank : ∀ keyword ∈ table.keywords, ' ' ∉ keyword.text
  ends : ∀ keyword ∈ table.keywords, ':' ∉ keyword.text.dropLast ∧
    '(' ∉ keyword.text.dropLast ∧ ',' ∉ keyword.text.dropLast
  comma : ∀ keyword ∈ table.keywords, ',' ∉ keyword.text.tail
  jump : ∀ keyword ∈ table.keywords, ∀ i < keyword.text.length,
    (keyword.text.take i = ['O'] ∨ ['G', 'O'] <:+ keyword.text.take i) →
      (keyword.text.drop i).head? ≠ some 'T' ∧ (keyword.text.drop i).head? ≠ some 'S'
  low : ∀ keyword ∈ table.keywords, keyword.value.toUInt8 ≠ 0x20

/-- Tokens between which no space is needed, whatever stands around them. -/
def Apart (table : TokenTable) (first second : List Token) : Prop :=
  ∀ before after : Text, table.Uncrossed (before ++ first.flatMap table.shown)
    (second.flatMap table.shown ++ after)

/-- A joint that loses a space which is not needed. -/
def SafeJoint (table : TokenTable) (joint : Joint) : Prop :=
  ∃ first second, joint = (first ++ .space :: second, first ++ second) ∧ table.Apart first second

/-- The joints of a whole line: those of its code, and two spaces, which meet where a literal brings
a space of its own. -/
def lineJoints (table : TokenTable) : List Joint :=
  ([.space, .space], [.space]) :: (SpacingRules.ofTable table).joints

theorem SafeJoint.losesSpace {table : TokenTable} {joint : Joint} (h : table.SafeJoint joint) :
    LosesSpace joint := by
  obtain ⟨first, second, hjoint, -⟩ := h
  exact ⟨first, second, hjoint⟩

variable {table : TokenTable}

section Characters

/-- The token of a character of seven bits is shown as this character. -/
theorem Regular.shown_tokenOfChar (h : table.Regular) {c : Char} (hc : c.toNat < 0x80) :
    table.shown (table.tokenOfChar c) = [c] := by
  unfold tokenOfChar
  cases htoken : table.tokenOfText? [c] with
  | some token =>
      obtain ⟨keyword, hmem, htext, rfl⟩ := tokenOfText?_eq_some_iff.1 htoken
      rw [Option.getD_some, (shown_token hmem).1, htext]
  | none =>
      have hbyte : UInt8.ofNat c.toNat = Text.storedByte c := by
        rw [Text.storedByte, if_pos (by simp only [Text.isStorable, decide_eq_true_eq]; omega)]
      rw [Option.getD_none, hbyte, (shown_storedByte (h.keepsChar hc)).1]

theorem Regular.shown_space (h : table.Regular) : table.shown .space = [' '] :=
  (shown_storedByte (h.keepsChar (show ' '.toNat < 0x80 by decide))).1

/-- The only lexeme that is stored as a space is the space. -/
theorem Regular.eq_space_of_token_eq (h : table.Regular) {lexeme : Lexeme}
    (hkept : lexeme.KeptBy table) (htoken : lexeme.token = .space) : lexeme = .plain ' ' := by
  cases lexeme with
  | keyword k => exact (h.byte_ne_token hkept (by decide) htoken).elim
  | plain c =>
      have hbyte : Text.storedByte c = 0x20 := Token.byte.inj htoken
      have hchar : c.toNat = ' '.toNat := by
        rw [← toNat_storedByte hkept.1, hbyte]
        rfl
      rw [Char.toNat_inj.1 hchar]

end Characters

section Joints

theorem apart_of_dropLast {token : Token} {c : Char} (hshown : table.shown token = [c])
    (h : ∀ keyword ∈ table.keywords, c ∉ keyword.text.dropLast) : table.Apart [token] [] := by
  intro before after
  simpa [hshown] using uncrossed_concat h before after

theorem apart_of_tail {token : Token} {c : Char} (hshown : table.shown token = [c])
    (h : ∀ keyword ∈ table.keywords, c ∉ keyword.text.tail) : table.Apart [] [token] := by
  intro before after
  simpa [hshown] using uncrossed_cons h before after

/-- No keyword reaches from `GO` into a word that begins with a `T` or an `S`. -/
theorem Spaceable.apart_go (h : table.Spaceable) {go word : Token} {c : Char} {others : Text}
    (hgo : table.shown go = ['G', 'O']) (hword : table.shown word = c :: others)
    (hc : c = 'T' ∨ c = 'S') : table.Apart [go] [word] := by
  intro before after keyword hmem first second htext hfirst hsecond hends hbegin
  simp only [List.flatMap_singleton, hgo, hword, List.cons_append] at hends hbegin
  have hhead : second.head? = some c := by
    cases second with
    | nil => exact (hsecond rfl).elim
    | cons d rest => rw [(List.cons_prefix_cons.1 hbegin).1]; rfl
  have hsplit : first = ['O'] ∨ ['G', 'O'] <:+ first := by
    -- The keyword starts with the `O` or at the `G` or before it.
    by_cases hlong : 2 ≤ first.length
    · exact .inr (List.suffix_of_suffix_length_le (List.suffix_append _ _) hends hlong)
    · have hone : first.length = 1 := by
        have hpos := List.length_pos_iff.2 hfirst
        omega
      have hlast : first <:+ ['O'] := by
        refine List.suffix_of_suffix_length_le hends ?_ (by simp [hone])
        exact ⟨before ++ ['G'], by simp⟩
      exact .inl (hlast.eq_of_length hone)
  have hplace := h.jump keyword hmem first.length (by
    rw [htext, List.length_append]
    have hpos := List.length_pos_iff.2 hsecond
    omega)
  rw [htext, List.take_left, List.drop_left, hhead] at hplace
  rcases hc with rfl | rfl
  · exact (hplace hsplit).1 rfl
  · exact (hplace hsplit).2 rfl

/-- Every joint of a line loses a space that is not needed. -/
theorem Spaceable.safeJoint (h : table.Spaceable) :
    ∀ joint ∈ table.lineJoints, table.SafeJoint joint := by
  have hafter {c : Char} (hc : c.toNat < 0x80)
      (hends : ∀ keyword ∈ table.keywords, c ∉ keyword.text.dropLast) :
      table.SafeJoint ([table.tokenOfChar c, .space], [table.tokenOfChar c]) :=
    ⟨[table.tokenOfChar c], [], rfl, apart_of_dropLast (h.regular.shown_tokenOfChar hc) hends⟩
  have hgo {go word : Token} {text : Text}
      (hgoToken : table.tokenOfText? ['G', 'O'] = some go)
      (hwordToken : table.tokenOfText? text = some word)
      (htext : ∃ c others, text = c :: others ∧ (c = 'T' ∨ c = 'S')) :
      table.SafeJoint ([go, .space, word], [go, word]) := by
    obtain ⟨goKeyword, hgoMem, hgoText, rfl⟩ := tokenOfText?_eq_some_iff.1 hgoToken
    obtain ⟨wordKeyword, hwordMem, hwordText, rfl⟩ := tokenOfText?_eq_some_iff.1 hwordToken
    obtain ⟨c, others, hcons, hc⟩ := htext
    have hgoShown : table.shown goKeyword.token = ['G', 'O'] :=
      (shown_token hgoMem).1.trans hgoText
    have hwordShown : table.shown wordKeyword.token = c :: others :=
      ((shown_token hwordMem).1.trans hwordText).trans hcons
    exact ⟨[goKeyword.token], [wordKeyword.token], rfl, h.apart_go hgoShown hwordShown hc⟩
  intro joint hjoint
  rcases List.mem_cons.1 hjoint with rfl | hjoint
  · exact ⟨[], [.space], rfl, apart_of_tail h.regular.shown_space
      fun keyword hmem hc => h.blank keyword hmem (List.mem_of_mem_tail hc)⟩
  rcases List.mem_append.1 hjoint with hjoint | hjoint
  · split at hjoint
    · rename_i go word sub hgoToken hwordToken hsubToken
      simp only [List.mem_cons, List.not_mem_nil, or_false] at hjoint
      rcases hjoint with rfl | rfl
      · exact hgo hgoToken hwordToken ⟨'T', ['O'], rfl, .inl rfl⟩
      · exact hgo hgoToken hsubToken ⟨'S', ['U', 'B'], rfl, .inr rfl⟩
    · simp at hjoint
  · simp only [List.mem_cons, List.not_mem_nil, or_false] at hjoint
    rcases hjoint with rfl | rfl | rfl | rfl
    · exact hafter (by decide) fun keyword hmem => (h.ends keyword hmem).1
    · exact hafter (by decide) fun keyword hmem => (h.ends keyword hmem).2.1
    · exact hafter (by decide) fun keyword hmem => (h.ends keyword hmem).2.2
    · exact ⟨[], [table.tokenOfChar ','], rfl,
        apart_of_tail (h.regular.shown_tokenOfChar (by decide)) h.comma⟩

end Joints

section Lexemes

variable {mode : Mode} {lexemes : List Lexeme}

theorem flatMap_shown_tokens (h : ∀ lexeme ∈ lexemes, lexeme.KeptBy table) :
    (lexemes.map Lexeme.token).flatMap table.shown = lexemes.flatMap Lexeme.text := by
  rw [List.flatMap_map]
  exact List.flatMap_congr fun lexeme hmem => (h lexeme hmem).shown.1

/-- After one step the tokens are those of lexemes that are scanned again. -/
theorem Spaceable.exists_scanned_of_step (h : table.Spaceable)
    (hkept : ∀ lexeme ∈ lexemes, lexeme.KeptBy table) (hscanned : table.Scanned mode lexemes)
    {tokens : List Token}
    (hstep : SpacingRules.Step table.lineJoints (lexemes.map Lexeme.token) tokens) :
    ∃ next : List Lexeme, next.map Lexeme.token = tokens ∧
      (∀ lexeme ∈ next, lexeme ∈ lexemes ∨ lexeme = .plain ' ') ∧ table.Scanned mode next := by
  generalize hold : lexemes.map Lexeme.token = old at hstep
  cases hstep with
  | insert before after =>
      obtain ⟨first, second, rfl, rfl, rfl⟩ := List.map_eq_append_iff.1 hold
      refine ⟨first ++ .plain ' ' :: second, by simp; rfl, ?_, hscanned.insert_space h.blank⟩
      intro lexeme hmem
      simp only [List.mem_append, List.mem_cons] at hmem ⊢
      tauto
  | join hjoint before after =>
      -- The lexemes are cut around the joint, whose space is a lexeme of its own.
      obtain ⟨first, second, rfl, hapart⟩ := h.safeJoint _ hjoint
      obtain ⟨front, rest, rfl, rfl, hrest⟩ := List.map_eq_append_iff.1 hold
      obtain ⟨middle, back, rfl, hmiddle, rfl⟩ := List.map_eq_append_iff.1 hrest
      obtain ⟨start, others, rfl, rfl, hothers⟩ := List.map_eq_append_iff.1 hmiddle
      obtain ⟨space, finish, rfl, hspace, rfl⟩ := List.map_eq_cons_iff.1 hothers
      obtain rfl := h.regular.eq_space_of_token_eq (hkept space (by simp)) hspace
      refine ⟨front ++ (start ++ finish ++ back), by simp, ?_, ?_⟩
      · intro lexeme hmem
        simp only [List.mem_append, List.mem_cons] at hmem ⊢
        tauto
      · have hplace := hapart (front.flatMap Lexeme.text) (back.flatMap Lexeme.text)
        rw [flatMap_shown_tokens fun lexeme hmem => hkept lexeme (by simp [hmem]),
          flatMap_shown_tokens fun lexeme hmem => hkept lexeme (by simp [hmem])] at hplace
        rw [← List.flatMap_append, ← List.flatMap_append] at hplace
        have hsplit : front ++ (start ++ .plain ' ' :: finish ++ back) =
            (front ++ start) ++ .plain ' ' :: (finish ++ back) := by simp
        rw [hsplit] at hscanned
        simpa using hscanned.drop_space h.blank hplace

/-- After any number of steps the tokens are those of lexemes that are scanned again. -/
theorem Spaceable.exists_scanned_of_steps (h : table.Spaceable)
    (hkept : ∀ lexeme ∈ lexemes, lexeme.KeptBy table) (hscanned : table.Scanned mode lexemes)
    {tokens : List Token} (hsteps : Steps table.lineJoints (lexemes.map Lexeme.token) tokens) :
    ∃ next : List Lexeme, next.map Lexeme.token = tokens ∧
      (∀ lexeme ∈ next, lexeme ∈ lexemes ∨ lexeme = .plain ' ') ∧ table.Scanned mode next := by
  induction hsteps with
  | refl => exact ⟨lexemes, rfl, fun _ hmem => .inl hmem, hscanned⟩
  | tail _ hstep ih =>
      obtain ⟨middle, rfl, hmiddle, hscannedMiddle⟩ := ih
      have hkeptMiddle : ∀ lexeme ∈ middle, lexeme.KeptBy table := by
        intro lexeme hmem
        rcases hmiddle lexeme hmem with hold | rfl
        · exact hkept lexeme hold
        · exact h.regular.keepsChar (show ' '.toNat < 0x80 by decide)
      obtain ⟨next, hnext, hmem, hscannedNext⟩ :=
        h.exists_scanned_of_step hkeptMiddle hscannedMiddle hstep
      refine ⟨next, hnext, fun lexeme hlexeme => ?_, hscannedNext⟩
      rcases hmem lexeme hlexeme with hold | hspace
      · exact hmiddle lexeme hold
      · exact .inr hspace

end Lexemes

end TokenTable

namespace Machine

theorem table_spaceable (machine : Machine) : machine.table.Spaceable where
  regular := machine.table_regular
  blank := by
    change ∀ keyword ∈ machine.keywords, ' ' ∉ keyword.text
    cases machine <;> decide +kernel
  ends := by
    change ∀ keyword ∈ machine.keywords, ':' ∉ keyword.text.dropLast ∧
      '(' ∉ keyword.text.dropLast ∧ ',' ∉ keyword.text.dropLast
    cases machine <;> decide +kernel
  comma := by
    change ∀ keyword ∈ machine.keywords, ',' ∉ keyword.text.tail
    cases machine <;> decide +kernel
  jump := by
    change ∀ keyword ∈ machine.keywords, ∀ i < keyword.text.length,
      (keyword.text.take i = ['O'] ∨ ['G', 'O'] <:+ keyword.text.take i) →
        (keyword.text.drop i).head? ≠ some 'T' ∧ (keyword.text.drop i).head? ≠ some 'S'
    cases machine <;> decide +kernel
  low := by
    change ∀ keyword ∈ machine.keywords, keyword.value.toUInt8 ≠ 0x20
    cases machine <;> decide +kernel

end Machine
end ColorBasic
