import ColorBasic.Container.Metadata
import ColorBasic.Json
import ColorBasic.Proofs.ListingText

/-!
# Reading written JSON text back

Objects are written with or without layout, and the strict reader gets the same value from both.
Reading is followed piece by piece: a piece of text takes the reader from one state to another,
whatever state it is in before the piece and whatever text follows.  Only what follows a number
matters, since it must not continue the number.
-/

namespace ColorBasic.Json

namespace Symbol

variable {s t rest : Text} {symbols : List Symbol}

/-- More fuel does not change the symbols. -/
theorem readAllWith_succ {fuel : Nat} (h : readAllWith fuel s = some symbols) :
    readAllWith (fuel + 1) s = some symbols := by
  induction fuel generalizing s symbols with
  | zero =>
      cases s with
      | nil => exact h
      | cons c s => cases h
  | succ fuel ih =>
      cases s with
      | nil => exact h
      | cons c s =>
          rw [readAllWith] at h ⊢
          split at h
          · rename_i hspace
            rw [if_pos hspace]
            exact ih h
          · rename_i hspace
            rw [if_neg hspace]
            simp only [Option.bind_eq_bind, Option.bind_eq_some_iff] at h ⊢
            obtain ⟨⟨symbol, after⟩, hread, later, hlater, heq⟩ := h
            exact ⟨(symbol, after), hread, later, ih hlater, heq⟩

theorem readAllWith_add {fuel : Nat} (h : readAllWith fuel s = some symbols) (more : Nat) :
    readAllWith (fuel + more) s = some symbols := by
  induction more with
  | zero => exact h
  | succ more ih => exact readAllWith_succ ih

/-- Before `rest`, the text `s` is cut into the given symbols. -/
def Spells (s : Text) (symbols : List Symbol) (rest : Text) : Prop :=
  ∀ fuel later, readAllWith fuel rest = some later →
    readAllWith (fuel + s.length) (s ++ rest) = some (symbols ++ later)

theorem Spells.append {more : List Symbol} (hs : Spells s symbols (t ++ rest))
    (ht : Spells t more rest) : Spells (s ++ t) (symbols ++ more) rest := by
  intro fuel later h
  have hlater := hs _ _ (ht fuel later h)
  rw [List.append_assoc, List.append_assoc, List.length_append, Nat.add_comm s.length,
    ← Nat.add_assoc]
  exact hlater

theorem spells_of_spaces (h : ∀ c ∈ s, isSpace c = true) (rest : Text) : Spells s [] rest := by
  induction s with
  | nil => exact fun _ _ h => h
  | cons c s ih =>
      intro fuel later hlater
      obtain ⟨hc, hs⟩ := List.forall_mem_cons.1 h
      rw [List.length_cons, ← Nat.add_assoc, List.cons_append, readAllWith, if_pos hc]
      exact ih hs fuel later hlater

/-- A symbol is read in one step, for which the text has fuel enough. -/
theorem spells_of_read {c : Char} {symbol : Symbol} (hspace : isSpace c = false)
    (h : Symbol.read (c :: s ++ rest) = some (symbol, rest)) : Spells (c :: s) [symbol] rest := by
  intro fuel later hlater
  rw [List.cons_append] at h
  rw [List.length_cons, ← Nat.add_assoc, List.cons_append, readAllWith,
    if_neg (by simp [hspace]), h]
  simp [readAllWith_add hlater]

/-- Text of which every character stands for itself in a string. -/
def Plain (s : Text) : Prop := ∀ c ∈ s, c ≠ '"' ∧ c ≠ '\\' ∧ 0x20 ≤ c.toNat

/-- A text is looked through for characters that do not stand for themselves. -/
theorem plain_of_all (h : s.all (fun c => c ≠ '"' ∧ c ≠ '\\' ∧ 0x20 ≤ c.toNat) = true) :
    Plain s := by
  rw [List.all_eq_true] at h
  exact fun c hc => of_decide_eq_true (h c hc)

theorem readChar_of_plain {c : Char} (hquote : c ≠ '"') (hbackslash : c ≠ '\\')
    (hcontrol : 0x20 ≤ c.toNat) (rest : Text) : readChar (c :: rest) = some (some c, rest) := by
  unfold readChar
  split
  · rename_i h
    cases h
  · rename_i h
    exact absurd (List.cons.inj h).1 hquote
  · rename_i h
    exact absurd (List.cons.inj h).1 hbackslash
  · rename_i h
    exact absurd (List.cons.inj h).1 hbackslash
  · rename_i h
    obtain ⟨rfl, rfl⟩ := List.cons.inj h
    exact if_neg (not_or.2 ⟨hbackslash, Nat.not_lt.2 hcontrol⟩)

theorem readString_of_plain (h : Plain s) (rest : Text) :
    readString (s ++ '"' :: rest) = some (s, rest) := by
  induction s with
  | nil =>
      rw [readString]
      rfl
  | cons c s ih =>
      obtain ⟨⟨hquote, hbackslash, hcontrol⟩, hs⟩ := List.forall_mem_cons.1 h
      have hread := readChar_of_plain hquote hbackslash hcontrol (s ++ '"' :: rest)
      rw [List.cons_append, readString]
      split
      · rename_i hnone
        rw [hread] at hnone
        cases hnone
      · rename_i hend
        rw [hread] at hend
        cases hend
      · rename_i c' rest' hsome
        rw [hread] at hsome
        cases hsome
        rw [ih hs]
        rfl

theorem spells_jsonText (h : Plain s) (rest : Text) :
    Spells (Container.jsonText s) [.string s] rest := by
  refine spells_of_read (by decide) ?_
  change (readString (s ++ ['"'] ++ rest)).map _ = _
  rw [List.append_assoc, List.singleton_append, readString_of_plain h]
  rfl

end Symbol

namespace Numeral

theorem isDigit_of_mem_decimal {n : Nat} {c : Char} (h : c ∈ Text.decimal n) :
    isDigit c = true := by
  have hdigit := Text.isDigit_of_mem_decimal h
  rw [Char.isDigit, Bool.and_eq_true, decide_eq_true_eq, decide_eq_true_eq] at hdigit
  exact decide_eq_true hdigit

theorem head?_decimal_ne_zero {n : Nat} (hn : 0 < n) : (Text.decimal n).head? ≠ some '0' := by
  have hdigit : ∀ d < 10, 0 < d → Nat.digitChar d ≠ '0' := by decide
  induction n using Nat.strongRecOn with
  | ind n ih =>
      rw [Text.decimal, Nat.toDigits_eq_if (by decide)]
      split
      · rename_i hsmall
        rw [List.head?_singleton, ne_eq, Option.some.injEq]
        exact hdigit n hsmall hn
      · rw [List.head?_append_of_ne_nil _ Nat.toDigits_ne_nil]
        exact ih (n / 10) (by omega) (by omega)

/-- A decimal numeral has no zero before other digits, so it can be the integer part. -/
theorem isInteger_decimal (n : Nat) : isInteger (Text.decimal n) = true := by
  rcases Nat.eq_zero_or_pos n with rfl | hpos
  · rfl
  · have hhead := head?_decimal_ne_zero hpos
    unfold isInteger
    split
    · rename_i h
      exact absurd h Nat.toDigits_ne_nil
    · rfl
    · rename_i rest _ h
      exact absurd (by rw [h, List.head?_cons]) hhead
    · rfl

theorem absorb_append {start value : Nat} {s : Text} (h : absorb start s = (value, [])) (t : Text) :
    absorb start (s ++ t) = absorb value t := by
  induction s generalizing start with
  | nil =>
      cases h
      rfl
  | cons c s ih =>
      rw [absorb] at h
      split at h
      · rename_i hfits
        rw [List.cons_append, absorb, if_pos hfits]
        exact ih h
      · cases h

/-- All digits of a number of 64 bits go into the significand. -/
theorem absorb_decimal {n : Nat} (h : n < UInt64.size) : absorb 0 (Text.decimal n) = (n, []) := by
  have hdigit : ∀ d < 10, (Nat.digitChar d).toNat - '0'.toNat = d := by decide
  induction n using Nat.strongRecOn with
  | ind n ih =>
      rw [Text.decimal, Nat.toDigits_eq_if (by decide)]
      split
      · rename_i hsmall
        have hvalue : 0 * 10 + ((Nat.digitChar n).toNat - '0'.toNat) = n := by
          rw [hdigit n hsmall]
          omega
        rw [absorb, hvalue, if_pos h, absorb]
      · have hrest := ih (n / 10) (by omega) (by omega)
        have hvalue : n / 10 * 10 + ((Nat.digitChar (n % 10)).toNat - '0'.toNat) = n := by
          rw [hdigit (n % 10) (by omega)]
          omega
        rw [Text.decimal] at hrest
        rw [absorb_append hrest, absorb, hvalue, if_pos h, absorb]

theorem roundToDouble_of_word {n : Nat} (h : n < UInt16.size) : roundToDouble n = n := by
  have hlog : n.log2 - 52 = 0 := by
    rcases Nat.eq_zero_or_pos n with rfl | hpos
    · rfl
    · have hbits : n.log2 < 16 := (Nat.log2_lt (by omega)).2 h
      omega
  unfold roundToDouble
  rw [hlog]
  simp [Nat.mod_one]

/-- A double holds every word. -/
theorem isFinite_word {n : Nat} (h : n < UInt16.size) :
    isFinite ⟨false, Text.decimal n, none, none⟩ = true := by
  have hscale : scale ⟨false, Text.decimal n, none, none⟩ = (n, .ofNat 0) := by
    unfold scale
    dsimp only
    rw [absorb_decimal (h.trans (by decide))]
    rfl
  have hlimit : UInt16.size ≤ overflowLimit := by decide +kernel
  unfold isFinite
  rw [hscale]
  dsimp only
  split
  · rfl
  · have hone : roundToDouble (Nat.pow 10 0) = 1 := roundToDouble_of_word (by decide)
    rw [if_pos (by decide), roundToDouble_of_word h, hone, Nat.mul_one]
    exact decide_eq_true (h.trans_le hlimit)

/-- Text that does not continue a number. -/
def Delimited (rest : Text) : Prop :=
  ∀ c ∈ rest.head?, isDigit c = false ∧ c ≠ '.' ∧ c ≠ 'e' ∧ c ≠ 'E'

theorem Delimited.takeWhile_isDigit {rest : Text} (h : Delimited rest) :
    rest.takeWhile isDigit = [] ∧ rest.dropWhile isDigit = rest := by
  cases rest with
  | nil => exact ⟨rfl, rfl⟩
  | cons c rest =>
      have hc := (h c rfl).1
      exact ⟨List.takeWhile_cons_of_neg (by simp [hc]), List.dropWhile_cons_of_neg (by simp [hc])⟩

theorem Delimited.readFraction_eq {rest : Text} (h : Delimited rest) :
    readFraction rest = some (none, rest) := by
  unfold readFraction
  split
  · exact absurd rfl (h '.' rfl).2.1
  · rfl

theorem Delimited.readExponent_eq {rest : Text} (h : Delimited rest) :
    readExponent rest = some (none, rest) := by
  unfold readExponent
  split
  · exact if_neg (not_or.2 (h _ rfl).2.2)
  · rfl

/-- The numeral of a word is read as a number without fraction and exponent. -/
theorem read_decimal {n : Nat} (h : n < UInt16.size) {rest : Text} (hrest : Delimited rest) :
    read (Text.decimal n ++ rest) = some (⟨false, Text.decimal n, none, none⟩, rest) := by
  have hdigits : ∀ c ∈ Text.decimal n, isDigit c = true := fun c => isDigit_of_mem_decimal
  have hinteger : (Text.decimal n ++ rest).takeWhile isDigit = Text.decimal n := by
    rw [List.takeWhile_append_of_pos hdigits, hrest.takeWhile_isDigit.1, List.append_nil]
  have hafter : (Text.decimal n ++ rest).dropWhile isDigit = rest := by
    rw [List.dropWhile_append_of_pos hdigits, hrest.takeWhile_isDigit.2]
  have hunsigned : readUnsigned false (Text.decimal n ++ rest) =
      some (⟨false, Text.decimal n, none, none⟩, rest) := by
    unfold readUnsigned
    rw [hinteger, hafter, hrest.readFraction_eq]
    simp [isInteger_decimal, hrest.readExponent_eq, isFinite_word h]
  unfold read
  split
  · -- A numeral does not begin with a sign.
    rename_i after hminus
    obtain ⟨c, digits, hdecimal⟩ := List.exists_cons_of_ne_nil
      (show Text.decimal n ≠ [] from Nat.toDigits_ne_nil)
    rw [hdecimal, List.cons_append] at hminus
    have hc := hdigits c (by simp [hdecimal])
    rw [(List.cons.inj hminus).1] at hc
    exact absurd hc (by decide)
  · exact hunsigned

end Numeral

namespace Symbol

theorem read_of_digit {c : Char} (h : isDigit c = true) (s : Text) :
    read (c :: s) =
      (Numeral.read (c :: s)).map fun (numeral, rest) =>
        (.scalar (.number numeral.natural?), rest) := by
  unfold read
  -- No other symbol begins with a digit.
  split
  all_goals first
    | rfl
    | (rename_i heq
       rw [(List.cons.inj heq).1] at h
       exact absurd h (by decide))

theorem spells_decimal {n : Nat} (h : n < UInt16.size) {rest : Text}
    (hrest : Numeral.Delimited rest) :
    Spells (Text.decimal n) [.scalar (.number (some n))] rest := by
  obtain ⟨c, digits, hdecimal⟩ := List.exists_cons_of_ne_nil
    (show Text.decimal n ≠ [] from Nat.toDigits_ne_nil)
  have hdigit : isDigit c = true := Numeral.isDigit_of_mem_decimal (n := n) (by simp [hdecimal])
  have hspace : isSpace c = false := by
    rw [isSpace, decide_eq_false_iff_not]
    rintro (rfl | rfl | rfl | rfl) <;> exact absurd hdigit (by decide)
  have hread := Numeral.read_decimal h hrest
  rw [hdecimal] at hread ⊢
  refine spells_of_read hspace ?_
  rw [List.cons_append] at hread ⊢
  rw [read_of_digit hdigit, hread]
  simp [Numeral.natural?, ← hdecimal, Text.readNumeral?_decimal]

end Symbol

namespace Reading

/-- Before `rest`, the text `s` takes the reader from one state to another. -/
def Reads (s : Text) (first last : Reading) (rest : Text) : Prop :=
  ∃ symbols, Symbol.Spells s symbols rest ∧ symbols.foldlM step first = some last

variable {s t rest : Text} {first middle last : Reading} {stack : List Frame}

theorem Reads.append (hs : Reads s first middle (t ++ rest)) (ht : Reads t middle last rest) :
    Reads (s ++ t) first last rest := by
  obtain ⟨symbols, hspells, hsteps⟩ := hs
  obtain ⟨more, hmore, hlast⟩ := ht
  refine ⟨symbols ++ more, hspells.append hmore, ?_⟩
  rw [List.foldlM_append, hsteps]
  exact hlast

theorem reads_of_spaces (h : ∀ c ∈ s, Symbol.isSpace c = true) (state : Reading) (rest : Text) :
    Reads s state state rest :=
  ⟨[], Symbol.spells_of_spaces h rest, rfl⟩

theorem reads_of_symbol {symbol : Symbol} (h : Symbol.Spells s [symbol] rest)
    (hstep : first.step symbol = some last) : Reads s first last rest :=
  ⟨[symbol], h, by simp [hstep]⟩

/-- Text that is read as the given value wherever a value can stand and `depth` more arrays and
objects can be opened. -/
def Written (depth : Nat) (s : Text) (json : Json) : Prop :=
  ∀ stack rest, stack.length + depth ≤ depthLimit → Numeral.Delimited rest →
    Reads s ⟨stack, .value⟩ (place json stack) rest

theorem written_jsonText (depth : Nat) (h : Symbol.Plain s) :
    Written depth (Container.jsonText s) (.string s) :=
  fun _ rest _ _ => reads_of_symbol (Symbol.spells_jsonText h rest) rfl

theorem written_decimal (depth : Nat) {n : Nat} (h : n < UInt16.size) :
    Written depth (Text.decimal n) (.number (some n)) :=
  fun _ _ _ hrest => reads_of_symbol (Symbol.spells_decimal h hrest) rfl

theorem isSpace_of_mem_lineBreak {indent : Option Nat} {level : Nat} {c : Char}
    (h : c ∈ Container.lineBreak indent level) : Symbol.isSpace c = true := by
  unfold Container.lineBreak at h
  split at h
  · rcases List.mem_cons.1 h with rfl | h
    · rfl
    · rw [(List.mem_replicate.1 h).2]
      rfl
  · cases h

theorem reads_lineBreak (indent : Option Nat) (level : Nat) (state : Reading) (rest : Text) :
    Reads (Container.lineBreak indent level) state state rest :=
  reads_of_spaces (fun _ => isSpace_of_mem_lineBreak) state rest

theorem reads_colon (indent : Option Nat) (stack : List Frame) (rest : Text) :
    Reads (if indent.isSome then [':', ' '] else [':']) ⟨stack, .colon⟩ ⟨stack, .value⟩ rest := by
  have hcolon (after : Text) : Reads [':'] ⟨stack, .colon⟩ ⟨stack, .value⟩ after :=
    reads_of_symbol (Symbol.spells_of_read (by decide) rfl) rfl
  split
  · have hspace : ∀ c ∈ [' '], Symbol.isSpace c = true := fun c hc => by
      rw [List.mem_singleton.1 hc]
      rfl
    exact (hcolon _).append (reads_of_spaces hspace _ rest)
  · exact hcolon rest

/-- A state of an open object in which the name of a member may come next. -/
def AwaitsName (expects : Expectation) : Prop := expects = .name ∨ expects = .nameOrEnd

/-- A member is read into the innermost object. -/
theorem reads_jsonMember {indent : Option Nat} {depth : Nat} {name value : Text} {json : Json}
    {members : List (Text × Json)} {previous : Text} {expects : Expectation}
    (hname : Symbol.Plain name) (hvalue : Written depth value json)
    (hexpects : AwaitsName expects) (hdepth : stack.length + 1 + depth ≤ depthLimit)
    (hrest : Numeral.Delimited rest) :
    Reads (Container.jsonMember indent name value) ⟨.object members previous :: stack, expects⟩
      ⟨.object ((name, json) :: members) name :: stack, .commaOrEnd⟩ rest := by
  have hread (after : Text) :
      Reads (Container.jsonText name) ⟨.object members previous :: stack, expects⟩
        ⟨.object members name :: stack, .colon⟩ after := by
    refine reads_of_symbol (Symbol.spells_jsonText hname after) ?_
    rcases hexpects with rfl | rfl <;> rfl
  unfold Container.jsonMember
  exact ((hread _).append (reads_colon indent _ _)).append (hvalue _ rest hdepth hrest)

/-- A name and the text of a value that are read as a member of an object. -/
inductive MemberWritten (depth : Nat) : Text × Text → Text × Json → Prop where
  | intro {name value : Text} {json : Json} (hname : Symbol.Plain name)
      (hvalue : Written depth value json) : MemberWritten depth (name, value) (name, json)

theorem delimited_cons {c : Char} (h : c = ',' ∨ c = '\n' ∨ c = '}') (rest : Text) :
    Numeral.Delimited (c :: rest) := by
  rintro c' ⟨⟩
  rcases h with rfl | rfl | rfl <;> decide

theorem delimited_lineBreak (indent : Option Nat) (level : Nat) (rest : Text) :
    Numeral.Delimited (Container.lineBreak indent level ++ (['}'] ++ rest)) := by
  cases indent with
  | none => exact delimited_cons (by simp) rest
  | some spaces => exact delimited_cons (by simp) _

/-- Members with commas between them are read into the innermost object, last member first. -/
theorem reads_members (indent : Option Nat) (level : Nat) {depth : Nat}
    {members : List (Text × Text)} {values : List (Text × Json)}
    (h : List.Forall₂ (MemberWritten depth) members values) (hne : members ≠ [])
    (hdepth : stack.length + 1 + depth ≤ depthLimit) (hrest : Numeral.Delimited rest)
    (earlier : List (Text × Json)) (previous : Text) {expects : Expectation}
    (hexpects : AwaitsName expects) :
    ∃ name, Reads
      ((',' :: Container.lineBreak indent level).intercalate
        (members.map fun member => Container.jsonMember indent member.1 member.2))
      ⟨.object earlier previous :: stack, expects⟩
      ⟨.object (values.reverse ++ earlier) name :: stack, .commaOrEnd⟩ rest := by
  induction h generalizing earlier previous expects with
  | nil => exact absurd rfl hne
  | @cons member value members values hmember hmembers ih =>
      obtain @⟨name, text, json, hname, hvalue⟩ := hmember
      rw [List.reverse_cons, List.append_assoc, List.singleton_append, List.map_cons]
      cases members with
      | nil =>
          cases hmembers
          rw [List.map_nil, List.intercalate_singleton]
          exact ⟨name, reads_jsonMember hname hvalue hexpects hdepth hrest⟩
      | cons next members =>
          -- The comma after the member asks for the name of the next one.
          have hcomma (after : Text) : Reads [',']
              ⟨.object ((name, json) :: earlier) name :: stack, .commaOrEnd⟩
              ⟨.object ((name, json) :: earlier) name :: stack, .name⟩ after :=
            reads_of_symbol (Symbol.spells_of_read (by decide) rfl) rfl
          obtain ⟨last, hlater⟩ :=
            ih (List.cons_ne_nil _ _) ((name, json) :: earlier) name (.inl rfl)
          rw [List.map_cons, List.intercalate_cons_cons]
          refine ⟨last, ((reads_jsonMember hname hvalue hexpects hdepth ?_).append
            ((hcomma _).append (reads_lineBreak indent level _ _))).append hlater⟩
          exact delimited_cons (.inl rfl) _

/-- An object is read from its text, with or without layout. -/
theorem written_jsonObject (indent : Option Nat) (level : Nat) {depth : Nat}
    {members : List (Text × Text)} {values : List (Text × Json)}
    (h : List.Forall₂ (MemberWritten depth) members values) (hne : members ≠ []) :
    Written (depth + 1) (Container.jsonObject indent level members) (.object values) := by
  intro stack rest hdepth hrest
  have hroom : stack.length + 1 + depth ≤ depthLimit := by omega
  obtain ⟨name, hmembers⟩ := reads_members indent (level + 1) h hne hroom
    (delimited_lineBreak indent level rest) [] [] (.inr rfl)
  have hopen (after : Text) :
      Reads ['{'] ⟨stack, .value⟩ ⟨.object [] [] :: stack, .nameOrEnd⟩ after := by
    refine reads_of_symbol (Symbol.spells_of_read (by decide) rfl) (if_pos ?_)
    dsimp only
    omega
  have hclose : Reads ['}'] ⟨.object (values.reverse ++ []) name :: stack, .commaOrEnd⟩
      (place (.object values) stack) rest := by
    refine reads_of_symbol (Symbol.spells_of_read (by decide) rfl) ?_
    simp [step, finish]
  exact ((((hopen _).append (reads_lineBreak indent (level + 1) _ _)).append hmembers).append
    (reads_lineBreak indent level _ _)).append hclose

end Reading

/-- Text of a value is read as this value. -/
theorem parse?_of_written {depth : Nat} {s : Text} {json : Json} (h : Reading.Written depth s json)
    (hdepth : depth ≤ Reading.depthLimit) : parse? s = some json := by
  have hend : Numeral.Delimited [] := by rintro c ⟨⟩
  obtain ⟨symbols, hspells, hsteps⟩ := h [] [] (by simpa using hdepth) hend
  have hread := hspells 0 [] rfl
  rw [Nat.zero_add, List.append_nil, List.append_nil] at hread
  rw [parse?, Symbol.readAll, hread]
  change symbols.foldlM Reading.step Reading.start = _ at hsteps
  simp [hsteps, Reading.place, Reading.value?]

end ColorBasic.Json
