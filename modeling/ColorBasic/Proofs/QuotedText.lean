import ColorBasic.Proofs.HexNumerals
import ColorBasic.Text.Quoted
import Mathlib.Tactic.SplitIfs

/-!
# Reading quoted text back

The first character of quoted text says which quote ends it.  Up to there every character stands
for itself or is escaped, and what follows a backslash tells the escapes apart: a letter, an `x` and
two hexadecimal digits, or the escaped character itself.  So quoted text is read back from left to
right, and the closing quote is the first one that no backslash escapes.
-/

namespace ColorBasic.Text

/-- The character that a single character after a backslash stands for. -/
def escaped? (quote c : Char) : Option Char :=
  if c = 'n' then some '\n'
  else if c = 'r' then some '\r'
  else if c = 't' then some '\t'
  else if c = '\\' ∨ c = quote then some c
  else none

/-- Reads text up to the closing quote; the rest is what follows the quote. -/
def readQuoted (quote : Char) : Text → Option (Text × Text)
  | '\\' :: 'x' :: high :: low :: rest => do
    let value ← readNumeral? 16 [high, low]
    let (s, after) ← readQuoted quote rest
    return (Char.ofNat value :: s, after)
  | '\\' :: c :: rest => do
    let escaped ← escaped? quote c
    let (s, after) ← readQuoted quote rest
    return (escaped :: s, after)
  | c :: rest =>
    if c = quote then some ([], rest)
    else do
      let (s, after) ← readQuoted quote rest
      return (c :: s, after)
  | [] => none

/-- The text that stands between quotes, `none` if something follows the closing quote. -/
def unquoted? : Text → Option Text
  | [] => none
  | quote :: rest =>
    match readQuoted quote rest with
    | some (s, []) => some s
    | _ => none

/-- Whether a text ends with a backslash that escapes the next character, since no backslash escapes
it. -/
def endsEscaping (s : Text) : Bool := s.foldl (fun escaping c => !escaping && c == '\\') false

/-- The characters that quoted text may stand between. -/
def IsQuote (quote : Char) : Prop := quote = '\'' ∨ quote = '"'

theorem isQuote_quoteFor (s : Text) : IsQuote (quoteFor s) := by
  unfold quoteFor
  split
  · exact .inr rfl
  · exact .inl rfl

/-- The forms that a character can have inside quoted text. -/
inductive QuotedForm (quote c : Char) : Text → Prop where
  /-- A character without escape. -/
  | plain (hquote : c ≠ quote) (hbackslash : c ≠ '\\') : QuotedForm quote c [c]
  /-- A backslash and a single character. -/
  | single (sign : Char) (hsign : escaped? quote sign = some c) : QuotedForm quote c ['\\', sign]
  /-- A backslash and the number of a control character. -/
  | numbered (high low : Char) (hhigh : ∃ d < 16, high = Nat.digitChar d)
      (hlow : ∃ d < 16, low = Nat.digitChar d)
      (hvalue : readNumeral? 16 [high, low] = some c.toNat) :
      QuotedForm quote c ['\\', 'x', high, low]

theorem quotedForm_quotedChar {quote : Char} (hquote : IsQuote quote) (c : Char) :
    QuotedForm quote c (quotedChar quote c) := by
  unfold quotedChar
  split_ifs with hbackslash hfeed hreturn htab hsame hcontrol
  · subst hbackslash
    exact .single '\\' (by simp [escaped?])
  · subst hfeed
    exact .single 'n' rfl
  · subst hreturn
    exact .single 'r' rfl
  · subst htab
    exact .single 't' rfl
  · subst hsame
    refine .single c ?_
    rcases hquote with rfl | rfl <;> rfl
  · -- A control character is below `$A0`, so two digits hold its number.
    have hvalue : readNumeral? 16 (lowerHex 2 c.toNat) = some c.toNat := by
      refine readNumeral?_lowerHex (by decide) ?_
      simp only [isControl, Bool.or_eq_true, Bool.and_eq_true, decide_eq_true_eq] at hcontrol
      omega
    exact .numbered _ _ ⟨_, Nat.mod_lt _ (by decide), rfl⟩ ⟨_, Nat.mod_lt _ (by decide), rfl⟩ hvalue
  · exact .plain hsame hbackslash

section Reading

variable {quote c : Char} {form : Text}

theorem ne_x_of_escaped? {sign : Char} (hquote : IsQuote quote)
    (h : escaped? quote sign = some c) : sign ≠ 'x' := by
  rintro rfl
  rcases hquote with rfl | rfl <;> cases h

/-- One character is read from its form, whatever follows. -/
theorem QuotedForm.readQuoted_append (hquote : IsQuote quote) (h : QuotedForm quote c form)
    (rest : Text) :
    readQuoted quote (form ++ rest) =
      (readQuoted quote rest).map fun read => (c :: read.1, read.2) := by
  cases h with
  | plain hplain hbackslash =>
      rw [List.singleton_append, readQuoted, if_neg hplain]
      · cases readQuoted quote rest <;> rfl
      · exact fun _ _ _ hc _ => hbackslash hc
      · exact fun _ _ hc _ => hbackslash hc
  | single sign hsign =>
      change readQuoted quote ('\\' :: sign :: rest) = _
      rw [readQuoted, hsign]
      · cases readQuoted quote rest <;> rfl
      · exact fun _ _ _ hx _ => ne_x_of_escaped? hquote hsign hx
  | numbered high low _ _ hvalue =>
      change readQuoted quote ('\\' :: 'x' :: high :: low :: rest) = _
      rw [readQuoted, hvalue]
      simp only [Option.bind_eq_bind, Option.bind_some, Char.ofNat_toNat]
      cases readQuoted quote rest <;> rfl

theorem readQuoted_quote (hquote : IsQuote quote) (rest : Text) :
    readQuoted quote (quote :: rest) = some ([], rest) := by
  rcases hquote with rfl | rfl <;> simp [readQuoted]

/-- Quoted characters are read back up to the closing quote. -/
theorem readQuoted_flatMap (hquote : IsQuote quote) (s rest : Text) :
    readQuoted quote (s.flatMap (quotedChar quote) ++ quote :: rest) = some (s, rest) := by
  induction s with
  | nil => exact readQuoted_quote hquote rest
  | cons c s ih =>
      rw [List.flatMap_cons, List.append_assoc,
        (quotedForm_quotedChar hquote c).readQuoted_append hquote, ih, Option.map_some]

theorem unquoted?_quoted (s : Text) : unquoted? (quoted s) = some s := by
  have hread := readQuoted_flatMap (isQuote_quoteFor s) s []
  simp only [quoted, unquoted?, List.cons_append, hread]

end Reading

section Escaping

variable {quote c : Char} {form : Text}

/-- A text that ends no escape leaves what follows it as it is. -/
theorem endsEscaping_append {s : Text} (h : endsEscaping s = false) (t : Text) :
    endsEscaping (s ++ t) = endsEscaping t := by
  rw [endsEscaping] at h
  rw [endsEscaping, List.foldl_append, h, endsEscaping]

theorem digitChar_ne_marks :
    ∀ d < 16, Nat.digitChar d ≠ '\\' ∧ Nat.digitChar d ≠ '\'' ∧ Nat.digitChar d ≠ '"' := by
  decide

/-- The form of a character ends what it escapes. -/
theorem QuotedForm.endsEscaping_eq (h : QuotedForm quote c form) : endsEscaping form = false := by
  cases h with
  | plain _ hbackslash => simp [endsEscaping, hbackslash]
  | single sign _ => simp [endsEscaping]
  | numbered high low hhigh hlow _ =>
      obtain ⟨d, hd, rfl⟩ := hhigh
      obtain ⟨e, he, rfl⟩ := hlow
      simp [endsEscaping, (digitChar_ne_marks d hd).1, (digitChar_ne_marks e he).1]

/-- A quote stands in the form of a character only if a backslash escapes it. -/
theorem QuotedForm.endsEscaping_before (hquote : IsQuote quote) (h : QuotedForm quote c form)
    {before after : Text} (hform : form = before ++ quote :: after) :
    endsEscaping before = true := by
  have hmem : quote ∈ form := by simp [hform]
  cases h with
  | plain hplain _ =>
      exact absurd (List.mem_singleton.1 hmem).symm hplain
  | single sign _ =>
      cases before with
      | nil =>
          have hhead := (List.cons.inj hform).1
          rcases hquote with rfl | rfl <;> cases hhead
      | cons b before =>
          -- Only one character stands before the last one of the form.
          rw [List.cons_append, List.cons.injEq] at hform
          obtain ⟨rfl, htail⟩ := hform
          have hlength := congrArg List.length htail
          rw [List.length_singleton, List.length_append, List.length_cons] at hlength
          obtain rfl : before = [] := List.eq_nil_of_length_eq_zero (by omega)
          rfl
  | numbered high low hhigh hlow _ =>
      obtain ⟨d, hd, rfl⟩ := hhigh
      obtain ⟨e, he, rfl⟩ := hlow
      obtain ⟨-, hdsingle, hddouble⟩ := digitChar_ne_marks d hd
      obtain ⟨-, hesingle, hedouble⟩ := digitChar_ne_marks e he
      rcases hquote with rfl | rfl
      · simp [hdsingle.symm, hesingle.symm] at hmem
      · simp [hddouble.symm, hedouble.symm] at hmem

/-- Quoted characters end all that they escape. -/
theorem endsEscaping_flatMap (hquote : IsQuote quote) (s : Text) :
    endsEscaping (s.flatMap (quotedChar quote)) = false := by
  induction s with
  | nil => rfl
  | cons c s ih =>
      rw [List.flatMap_cons,
        endsEscaping_append (quotedForm_quotedChar hquote c).endsEscaping_eq, ih]

/-- Every quote among quoted characters is escaped. -/
theorem endsEscaping_before_quote (hquote : IsQuote quote) {s before after : Text}
    (h : s.flatMap (quotedChar quote) = before ++ quote :: after) :
    endsEscaping before = true := by
  induction s generalizing before with
  | nil => simp at h
  | cons c s ih =>
      have hform := quotedForm_quotedChar hquote c
      rw [List.flatMap_cons, List.append_eq_append_iff] at h
      -- The quote stands behind the form of the first character or in it.
      rcases h with ⟨later, rfl, hlater⟩ | ⟨part, hpart, hrest⟩
      · rw [endsEscaping_append hform.endsEscaping_eq]
        exact ih hlater
      · cases part with
        | nil =>
            have hfirst : s.flatMap (quotedChar quote) = [] ++ quote :: after := hrest.symm
            cases ih hfirst
        | cons q part =>
            obtain ⟨rfl, -⟩ := List.cons.inj hrest
            exact hform.endsEscaping_before hquote hpart

end Escaping

/-- Quoted text is read back as the text that was quoted, so no two texts are quoted alike.  It ends
at the first quote that is not escaped. -/
theorem quoted_unambiguous :
    (∀ s, unquoted? (quoted s) = some s) ∧ Function.Injective quoted ∧
      ∀ s, ∃ quote body, quoted s = quote :: body ++ [quote] ∧
        endsEscaping (quote :: body) = false ∧
        ∀ before after, body = before ++ quote :: after →
          endsEscaping (quote :: before) = true := by
  refine ⟨unquoted?_quoted, fun s t h => ?_, fun s => ?_⟩
  · have hread := unquoted?_quoted s
    rw [h, unquoted?_quoted] at hread
    exact (Option.some.inj hread).symm
  · have hquote := isQuote_quoteFor s
    -- The opening quote is no backslash, so it escapes nothing.
    have hopening : endsEscaping [quoteFor s] = false := by
      rcases hquote with h | h <;> rw [h] <;> rfl
    refine ⟨quoteFor s, s.flatMap (quotedChar (quoteFor s)), rfl, ?_, fun before after h => ?_⟩
    · rw [← List.singleton_append, endsEscaping_append hopening]
      exact endsEscaping_flatMap hquote s
    · rw [← List.singleton_append, endsEscaping_append hopening]
      exact endsEscaping_before_quote hquote h

/-- A text with both quotes, a backslash before one of them, and control characters. -/
def mixedText : Text := "'\\\"\n\x7fé".toList

/-- What stands between the quotes of the quoted text. -/
def mixedBody : Text := "\\'\\\\\"\\n\\x7fé".toList

theorem quoted_unambiguous_mixedText :
    quoted mixedText = '\'' :: mixedBody ++ ['\''] ∧
      unquoted? (quoted mixedText) = some mixedText ∧
      (∀ s, quoted s = quoted mixedText → s = mixedText) ∧
      endsEscaping ('\'' :: mixedBody) = false ∧ endsEscaping ['\'', '\\'] = true := by
  obtain ⟨hread, hinjective, hquotes⟩ := quoted_unambiguous
  have hquoted : quoted mixedText = '\'' :: mixedBody ++ ['\''] := by decide
  refine ⟨hquoted, hread mixedText, fun s h => hinjective h, ?_⟩
  obtain ⟨quote, body, hbody, hclosing, hescaped⟩ := hquotes mixedText
  rw [hquoted] at hbody
  obtain ⟨rfl, hrest⟩ := List.cons.inj hbody
  obtain rfl : mixedBody = body := List.append_cancel_right hrest
  exact ⟨hclosing, hescaped ['\\'] _ rfl⟩

end ColorBasic.Text
