import ColorBasic.Proofs.Gaps
import ColorBasic.Proofs.RespacedLines

/-!
# Respacing gap by gap

The passes of respacing look at one gap at a time: how many spaces a gap keeps depends on the tokens
on either side of it and on the spaces that it has, and on nothing else of the code.  A gap that has
been respaced is respaced to another width exactly if it still has a space and one of its tokens
wants none.
-/

namespace ColorBasic

namespace Token

variable {old new : List Token} {token a b : Token}

theorem replaceAll_nil : replaceAll old new [] = [] := by
  rw [replaceAll]

theorem replaceAll_of_found (hne : old ≠ []) (rest : List Token) :
    replaceAll old new (old ++ rest) = new ++ replaceAll old new rest := by
  cases old with
  | nil => exact (hne rfl).elim
  | cons first others =>
      rw [List.cons_append, replaceAll, if_pos (by simp)]
      simp

theorem replaceAll_cons {rest : List Token} (h : ¬old <+: token :: rest) :
    replaceAll old new (token :: rest) = token :: replaceAll old new rest := by
  rw [replaceAll, if_neg (by simpa [List.isPrefixOf_iff_prefix] using h)]

/-- What does not start with a space is not found among spaces. -/
theorem replaceAll_spaces (h : old.head? = some a) (ha : a ≠ .space) (n : Nat) (rest : List Token) :
    replaceAll old new (List.replicate n .space ++ rest) =
      List.replicate n .space ++ replaceAll old new rest := by
  obtain ⟨others, rfl⟩ := List.head?_eq_some_iff.1 h
  induction n with
  | zero => rfl
  | succ n ih =>
      rw [List.replicate_succ, List.cons_append, replaceAll_cons, ih]
      · rfl
      · exact fun hfound => ha (List.cons_prefix_cons.1 hfound).1

/-- The number of spaces in a gap less one, if the given token stands before it. -/
def lessAfter (a : Token) (gap : Gap Token) : Nat :=
  if gap.left = some a then gap.count - 1 else gap.count

/-- The number of spaces in a gap less one, if the given token stands after it. -/
def lessBefore (a : Token) (gap : Gap Token) : Nat :=
  if gap.right = some a then gap.count - 1 else gap.count

/-- The number of spaces in a gap, but none in place of one between the given tokens. -/
def noneBetween (a b : Token) (gap : Gap Token) : Nat :=
  if gap.left = some a ∧ gap.right = some b ∧ gap.count = 1 then 0 else gap.count

theorem replaceAll_after (ha : a ≠ .space) (tokens : List Token) :
    replaceAll [a, .space] [a] tokens = Gap.regap .space (lessAfter a) none 0 tokens := by
  refine Gap.apply_eq_regap replaceAll_nil (fun left n tail hleft htail => ?_) tokens
  have hspaces := fun n => @replaceAll_spaces [a, .space] [a] a rfl ha n tail
  cases left with
  | none => simpa [lessAfter] using hspaces n
  | some first =>
      rw [Option.toList_some, List.singleton_append, List.singleton_append]
      by_cases hfirst : first = a
      · subst hfirst
        cases n with
        | zero =>
            rw [replaceAll_cons]
            · simp [lessAfter]
            · intro hfound
              obtain ⟨-, others, hothers⟩ := List.cons_prefix_cons.1 hfound
              exact htail (by rw [show tail = _ from hothers.symm]; rfl)
        | succ n =>
            have hfound := @replaceAll_of_found [first, .space] [first] (by simp)
              (List.replicate n .space ++ tail)
            rw [hspaces] at hfound
            simpa [lessAfter, List.replicate_succ] using hfound
      · rw [replaceAll_cons, hspaces]
        · simp [lessAfter, hfirst]
        · exact fun hfound => hfirst (List.cons_prefix_cons.1 hfound).1.symm

theorem replaceAll_before (ha : a ≠ .space) (tokens : List Token) :
    replaceAll [.space, a] [a] tokens = Gap.regap .space (lessBefore a) none 0 tokens := by
  refine Gap.apply_eq_regap replaceAll_nil (fun left n tail hleft htail => ?_) tokens
  -- Only the last of the spaces can be the one that is found.
  have hspaces : replaceAll [.space, a] [a] (List.replicate n .space ++ tail) =
      List.replicate (lessBefore a ⟨left, tail.head?, n⟩) .space ++
        replaceAll [.space, a] [a] tail := by
    induction n with
    | zero => simp [lessBefore]
    | succ n ih =>
        rw [List.replicate_succ, List.cons_append]
        cases n with
        | succ n =>
            rw [replaceAll_cons, ih]
            · by_cases htarget : tail.head? = some a <;>
                simp [lessBefore, htarget, List.replicate_succ]
            · simp [List.replicate_succ, ha]
        | zero =>
            by_cases htarget : tail.head? = some a
            · obtain ⟨rest, rfl⟩ := List.head?_eq_some_iff.1 htarget
              have hfound := @replaceAll_of_found [.space, a] [a] (by simp) rest
              rw [@replaceAll_cons _ _ a]
              · simpa [lessBefore] using hfound
              · simp [ha.symm]
            · rw [replaceAll_cons]
              · simp [lessBefore, htarget]
              · intro hfound
                obtain ⟨-, others, hothers⟩ := List.cons_prefix_cons.1 hfound
                exact htarget (by rw [show tail = _ from hothers.symm]; rfl)
  cases left with
  | none => simpa using hspaces
  | some first =>
      rw [Option.toList_some, List.singleton_append, List.singleton_append]
      rw [replaceAll_cons, hspaces]
      rintro hfound
      exact hleft (congrArg some (List.cons_prefix_cons.1 hfound).1.symm)

theorem replaceAll_between (ha : a ≠ .space) (hb : b ≠ .space) (hab : a ≠ b) (tokens : List Token) :
    replaceAll [a, .space, b] [a, b] tokens = Gap.regap .space (noneBetween a b) none 0 tokens := by
  refine Gap.apply_eq_regap replaceAll_nil (fun left n tail hleft htail => ?_) tokens
  have hspaces := @replaceAll_spaces [a, .space, b] [a, b] a rfl ha n tail
  cases left with
  | none => simpa [noneBetween] using hspaces
  | some first =>
      rw [Option.toList_some, List.singleton_append, List.singleton_append]
      by_cases hjoin : first = a ∧ tail.head? = some b ∧ n = 1
      · obtain ⟨rfl, hnext, rfl⟩ := hjoin
        obtain ⟨rest, rfl⟩ := List.head?_eq_some_iff.1 hnext
        have hfound := @replaceAll_of_found [first, .space, b] [first, b] (by simp) rest
        rw [@replaceAll_cons _ _ b]
        · simpa [noneBetween] using hfound
        · simp [hab]
      · rw [replaceAll_cons, hspaces]
        · simp [noneBetween, hjoin]
        · intro hfound
          obtain ⟨hfirst, others, hothers⟩ := List.cons_prefix_cons.1 hfound
          refine hjoin ⟨hfirst.symm, ?_⟩
          match n, hothers with
          | 0, hothers =>
              have hspace : tail = .space :: b :: others := hothers.symm
              exact (htail (by rw [hspace]; rfl)).elim
          | 1, hothers =>
              have htarget : tail = b :: others := (List.cons.inj hothers).2.symm
              exact ⟨by rw [htarget]; rfl, rfl⟩
          | _ + 2, hothers => exact (hb (List.cons.inj (List.cons.inj hothers).2).1).elim

end Token

namespace SpacingRules

variable {rules : SpacingRules} {last : Option Token} {tail : List Token}

/-- The number of spaces that spreading leaves in a gap: those that it has, else one beside a
keyword, unless the keyword comes first in the code or before an operator. -/
def spreadCount (rules : SpacingRules) (gap : Gap Token) : Nat :=
  if 0 < gap.count then gap.count
  else if (gap.left.any rules.spaced ∧ ¬gap.right.any rules.tight.contains) ∨
      (gap.left.isSome ∧ gap.right.any rules.spaced) then 1
  else 0

theorem spread_nil (last : Option Token) (follows : Bool) : rules.spread last follows [] = [] := rfl

theorem spread_spaced {token : Token} (h : rules.spaced token = true) (follows : Bool)
    (rest : List Token) :
    rules.spread last follows (token :: rest) =
      (if last.all (· = .space) then [] else [.space]) ++
        token :: (if rest.head?.any rules.tight.contains then rules.spread (some token) true rest
          else .space :: rules.spread (some .space) true rest) := by
  rw [spread, if_pos h]
  dsimp only
  split <;> rfl

theorem spread_unspaced {token : Token} (h : rules.spaced token = false) (htoken : token ≠ .space)
    (follows : Bool) (rest : List Token) :
    rules.spread last follows (token :: rest) = token :: rules.spread (some token) false rest := by
  rw [spread, if_neg (by simp [h]), if_neg fun hspace => htoken hspace.1]

theorem spread_spaces (hplain : rules.SpaceIsPlain) (n : Nat) (last : Option Token)
    (tail : List Token) :
    rules.spread last false (List.replicate n .space ++ tail) =
      List.replicate n .space ++ rules.spread (if n = 0 then last else some .space) false tail := by
  induction n generalizing last with
  | zero => rfl
  | succ n ih =>
      rw [List.replicate_succ, List.cons_append, spread, if_neg (by simp [hplain.spaced]),
        if_neg (by simp), ih]
      simp

/-- What was written before a token matters only for the space in front of it. -/
theorem spread_of_head (htail : tail.head? ≠ some .space) (follows : Bool) :
    rules.spread last follows tail =
      (if tail.head?.any rules.spaced ∧ ¬last.all (· = .space) then [.space] else []) ++
        rules.spread none false tail := by
  cases tail with
  | nil => simp [spread_nil]
  | cons token rest =>
      have htoken : token ≠ .space := by simpa using htail
      by_cases hspaced : rules.spaced token = true
      · rw [spread_spaced hspaced, spread_spaced hspaced]
        by_cases hlast : last.all (· = .space) = true <;> simp [hspaced, hlast]
      · rw [Bool.not_eq_true] at hspaced
        rw [spread_unspaced hspaced htoken, spread_unspaced hspaced htoken]
        simp [hspaced]

/-- The spaces after a keyword are kept, and one is put in if there are none and no operator
follows. -/
theorem spread_after_spaced (hplain : rules.SpaceIsPlain)
    (htight : ∀ token ∈ rules.tight, rules.spaced token = false) {first : Token}
    (hspaced : rules.spaced first = true) (htail : tail.head? ≠ some .space) (n : Nat) :
    (if (List.replicate n Token.space ++ tail).head?.any rules.tight.contains then
        rules.spread (some first) true (List.replicate n .space ++ tail)
      else .space :: rules.spread (some .space) true (List.replicate n .space ++ tail)) =
      List.replicate (rules.spreadCount ⟨some first, tail.head?, n⟩) .space ++
        rules.spread none false tail := by
  cases n with
  | zero =>
      rw [List.replicate_zero, List.nil_append]
      by_cases hnext : tail.head?.any rules.tight.contains = true
      · have hnone : tail.head?.any rules.spaced = false := by
          obtain ⟨next, hhead, hmem⟩ := (Option.any_eq_true _ _).1 hnext
          rw [hhead]
          exact htight next (List.contains_iff_mem.1 hmem)
        rw [if_pos hnext, spread_of_head htail]
        simp [spreadCount, hnext, hnone]
      · rw [if_neg hnext, spread_of_head htail]
        simp [spreadCount, hnext, hspaced]
  | succ n =>
      -- The first of the spaces is superfluous after the one that the keyword brings.
      rw [List.replicate_succ, List.cons_append, List.head?_cons,
        if_neg (by simpa using hplain.tight),
        spread, if_neg (by simp [hplain.spaced]), if_pos ⟨rfl, rfl⟩, spread_spaces hplain,
        spread_of_head htail]
      by_cases hn : n = 0 <;> simp [spreadCount, hn, List.replicate_succ]

/-- Spreading changes each gap alone. -/
theorem spread_eq_regap (hplain : rules.SpaceIsPlain)
    (htight : ∀ token ∈ rules.tight, rules.spaced token = false) (tokens : List Token) :
    rules.spread none false tokens = Gap.regap .space rules.spreadCount none 0 tokens := by
  refine Gap.apply_eq_regap rfl (fun left n tail hleft htail => ?_) tokens
  cases left with
  | none =>
      rw [Option.toList_none, List.nil_append, List.nil_append, spread_spaces hplain,
        spread_of_head htail]
      by_cases hn : n = 0 <;> simp [spreadCount, hn, Nat.pos_iff_ne_zero]
  | some first =>
      rw [Option.toList_some, List.singleton_append, List.singleton_append]
      by_cases hspaced : rules.spaced first = true
      · rw [spread_spaced hspaced, spread_after_spaced hplain htight hspaced htail]
        simp
      · rw [Bool.not_eq_true] at hspaced
        have hfirst : first ≠ .space := by simpa using hleft
        rw [spread_unspaced hspaced hfirst, spread_spaces hplain, spread_of_head htail]
        by_cases hn : n = 0
        · by_cases hnext : tail.head?.any rules.spaced = true <;>
            simp [spreadCount, hn, hspaced, hfirst, hnext]
        · simp [spreadCount, hn, Nat.pos_iff_ne_zero]

end SpacingRules

namespace TokenTable

variable {table : TokenTable}

/-- The pairs of words that are joined to a jump. -/
def jumpPairs (table : TokenTable) : List (Token × Token) :=
  match table.tokenOfText? ['G', 'O'], table.tokenOfText? ['T', 'O'],
    table.tokenOfText? ['S', 'U', 'B'] with
  | some goToken, some toToken, some subToken => [(goToken, toToken), (goToken, subToken)]
  | _, _, _ => []

/-- Whether a gap stands between the two words of a jump. -/
def splitsJump (table : TokenTable) (gap : Gap Token) : Bool :=
  table.jumpPairs.any fun pair => gap.left = some pair.1 ∧ gap.right = some pair.2

/-- The number of spaces that a gap loses to the punctuation beside it. -/
def drops (table : TokenTable) (gap : Gap Token) : Nat :=
  (if gap.left ∈ [some table.colon, some (table.tokenOfChar '('), some (table.tokenOfChar ',')]
    then 1 else 0) +
  (if gap.right = some (table.tokenOfChar ',') then 1 else 0)

/-- The number of spaces that respacing leaves in a gap. -/
def spacing (table : TokenTable) (gap : Gap Token) : Nat :=
  let spread := (SpacingRules.ofTable table).spreadCount gap
  (if table.splitsJump gap ∧ spread = 1 then 0 else spread) - table.drops gap

theorem Regular.tokenOfChar_inj (h : table.Regular) {c d : Char} (hc : c.toNat < 0x80)
    (hd : d.toNat < 0x80) (htoken : table.tokenOfChar c = table.tokenOfChar d) : c = d := by
  have hshown := h.shown_tokenOfChar hc
  rw [htoken, h.shown_tokenOfChar hd] at hshown
  exact (List.singleton_inj.1 hshown).symm

theorem Regular.tokenOfChar_ne_space (h : table.Regular) {c : Char} (hc : c.toNat < 0x80)
    (hspace : c ≠ ' ') : table.tokenOfChar c ≠ .space := by
  intro htoken
  have hshown := h.shown_tokenOfChar hc
  rw [htoken, h.shown_space] at hshown
  exact hspace (List.singleton_inj.1 hshown).symm

/-- The words of a jump are shown as such. -/
theorem shown_of_mem_jumpPairs {pair : Token × Token} (h : pair ∈ table.jumpPairs) :
    table.shown pair.1 = ['G', 'O'] ∧
      (table.shown pair.2 = ['T', 'O'] ∨ table.shown pair.2 = ['S', 'U', 'B']) := by
  have hword {text : Text} {token : Token} (htoken : table.tokenOfText? text = some token) :
      table.shown token = text := by
    obtain ⟨keyword, hmem, rfl, rfl⟩ := tokenOfText?_eq_some_iff.1 htoken
    exact (shown_token hmem).1
  unfold jumpPairs at h
  split at h
  · rename_i goToken toToken subToken hgo hto hsub
    simp only [List.mem_cons, List.not_mem_nil, or_false] at h
    rcases h with rfl | rfl
    · exact ⟨hword hgo, .inl (hword hto)⟩
    · exact ⟨hword hgo, .inr (hword hsub)⟩
  · simp at h

/-- A jump loses its space to no punctuation. -/
theorem Regular.drops_of_splitsJump (h : table.Regular) {gap : Gap Token}
    (hjump : table.splitsJump gap = true) : table.drops gap = 0 := by
  obtain ⟨pair, hpair, hsides⟩ := List.any_eq_true.1 hjump
  obtain ⟨hleft, hright⟩ := of_decide_eq_true hsides
  obtain ⟨hgo, hword⟩ := shown_of_mem_jumpPairs hpair
  have hne {token : Token} (hlong : 1 < (table.shown token).length) {c : Char}
      (hc : c.toNat < 0x80) : token ≠ table.tokenOfChar c := by
    rintro rfl
    rw [h.shown_tokenOfChar hc] at hlong
    simp at hlong
  have hfirst {c : Char} (hc : c.toNat < 0x80) : pair.1 ≠ table.tokenOfChar c :=
    hne (by rw [hgo]; decide) hc
  have hsecond {c : Char} (hc : c.toNat < 0x80) : pair.2 ≠ table.tokenOfChar c :=
    hne (by rcases hword with hword | hword <;> rw [hword] <;> decide) hc
  simp [drops, hleft, hright, colon, @hfirst ':' (by decide), @hfirst '(' (by decide),
    @hfirst ',' (by decide), @hsecond ',' (by decide)]

section Passes

/-- The joints of the jumps, in the order of dropping. -/
def jumpJoints (table : TokenTable) : List SpacingRules.Joint :=
  table.jumpPairs.map fun pair => ([pair.1, .space, pair.2], [pair.1, pair.2])

/-- The joints of the punctuation, in the order of dropping. -/
def punctuationJoints (table : TokenTable) : List SpacingRules.Joint :=
  [([table.colon, .space], [table.colon]),
   ([table.tokenOfChar '(', .space], [table.tokenOfChar '(']),
   ([table.tokenOfChar ',', .space], [table.tokenOfChar ',']),
   ([.space, table.tokenOfChar ','], [table.tokenOfChar ','])]

theorem joints_ofTable (table : TokenTable) :
    (SpacingRules.ofTable table).joints = table.jumpJoints ++ table.punctuationJoints := by
  simp only [SpacingRules.ofTable, jumpJoints, jumpPairs, punctuationJoints]
  cases table.tokenOfText? ['G', 'O'] <;> cases table.tokenOfText? ['T', 'O'] <;>
    cases table.tokenOfText? ['S', 'U', 'B'] <;> rfl

theorem foldl_between {pairs : List (Token × Token)}
    (h : ∀ pair ∈ pairs, pair.1 ≠ .space ∧ pair.2 ≠ .space ∧ pair.1 ≠ pair.2)
    (tokens : List Token) :
    (pairs.map fun pair => ([pair.1, .space, pair.2], [pair.1, pair.2])).foldl
        (fun tokens joint => Token.replaceAll joint.1 joint.2 tokens) tokens =
      Gap.regap .space
        (fun gap => if (pairs.any fun pair => gap.left = some pair.1 ∧ gap.right = some pair.2) ∧
          gap.count = 1 then 0 else gap.count) none 0 tokens := by
  induction pairs generalizing tokens with
  | nil => simpa using (Gap.regap_count none 0 tokens).symm
  | cons pair pairs ih =>
      rw [List.forall_mem_cons] at h
      obtain ⟨⟨hfirst, hsecond, hne⟩, hpairs⟩ := h
      rw [List.map_cons, List.foldl_cons, ih hpairs, Token.replaceAll_between hfirst hsecond hne,
        Gap.regap_regap]
      congr 1
      funext gap
      simp only [Token.noneBetween, Gap.resize, List.any_cons, Bool.or_eq_true, decide_eq_true_eq]
      grind

theorem Regular.foldl_jumpJoints (h : table.Regular) (tokens : List Token) :
    table.jumpJoints.foldl (fun tokens joint => Token.replaceAll joint.1 joint.2 tokens) tokens =
      Gap.regap .space
        (fun gap => if table.splitsJump gap ∧ gap.count = 1 then 0 else gap.count) none 0
        tokens := by
  refine foldl_between (fun pair hpair => ?_) tokens
  obtain ⟨hgo, hword⟩ := shown_of_mem_jumpPairs hpair
  have hspace := h.shown_space
  refine ⟨fun heq => ?_, fun heq => ?_, fun heq => ?_⟩
  · simp [heq, hspace] at hgo
  · simp [heq, hspace] at hword
  · simp [← heq, hgo] at hword

theorem Regular.foldl_punctuationJoints (h : table.Regular) (tokens : List Token) :
    table.punctuationJoints.foldl (fun tokens joint => Token.replaceAll joint.1 joint.2 tokens)
        tokens =
      Gap.regap .space (fun gap => gap.count - table.drops gap) none 0 tokens := by
  have hcolon : table.colon ≠ .space := h.tokenOfChar_ne_space (by decide) (by decide)
  have hopening : table.tokenOfChar '(' ≠ .space := h.tokenOfChar_ne_space (by decide) (by decide)
  have hcomma : table.tokenOfChar ',' ≠ .space := h.tokenOfChar_ne_space (by decide) (by decide)
  simp only [punctuationJoints, List.foldl_cons, List.foldl_nil]
  rw [Token.replaceAll_after hcolon, Token.replaceAll_after hopening, Token.replaceAll_after hcomma,
    Token.replaceAll_before hcomma, Gap.regap_regap, Gap.regap_regap, Gap.regap_regap]
  have hcolonOpening : table.colon ≠ table.tokenOfChar '(' := fun heq =>
    absurd (h.tokenOfChar_inj (by decide) (by decide) heq) (by decide)
  have hcolonComma : table.colon ≠ table.tokenOfChar ',' := fun heq =>
    absurd (h.tokenOfChar_inj (by decide) (by decide) heq) (by decide)
  have hopeningComma : table.tokenOfChar '(' ≠ table.tokenOfChar ',' := fun heq =>
    absurd (h.tokenOfChar_inj (by decide) (by decide) heq) (by decide)
  congr 1
  funext gap
  simp only [Token.lessAfter, Token.lessBefore, Gap.resize, drops, List.mem_cons, List.not_mem_nil,
    or_false]
  grind

/-- Respacing changes each gap alone. -/
theorem Regular.respace_eq_regap (h : table.Regular) (tokens : List Token) :
    (SpacingRules.ofTable table).respace tokens =
      Gap.regap .space table.spacing none 0 tokens := by
  have htight : ∀ token ∈ (SpacingRules.ofTable table).tight,
      (SpacingRules.ofTable table).spaced token = false := by
    intro token htoken
    show (table.isKeyword token && !(SpacingRules.ofTable table).tight.contains token) = false
    rw [List.contains_iff_mem.2 htoken]
    exact Bool.and_false _
  rw [SpacingRules.respace, joints_ofTable, List.foldl_append,
    SpacingRules.spread_eq_regap h.spaceIsPlain htight, h.foldl_jumpJoints,
    h.foldl_punctuationJoints, Gap.regap_regap, Gap.regap_regap]
  rfl

end Passes

section Settling

variable {gap : Gap Token}

theorem spacing_resize (n : Nat) :
    table.spacing (gap.resize n) =
      (if table.splitsJump gap ∧ (SpacingRules.ofTable table).spreadCount (gap.resize n) = 1 then 0
        else (SpacingRules.ofTable table).spreadCount (gap.resize n)) - table.drops gap := rfl

theorem spacing_resize_of_pos {n : Nat} (hn : 0 < n) :
    table.spacing (gap.resize n) =
      (if table.splitsJump gap ∧ n = 1 then 0 else n) - table.drops gap := by
  have hspread : (SpacingRules.ofTable table).spreadCount (gap.resize n) = n := if_pos hn
  rw [spacing_resize, hspread]

theorem spreadCount_resize_zero_le (rules : SpacingRules) :
    rules.spreadCount (gap.resize 0) ≤ 1 ∧
      rules.spreadCount (gap.resize 0) ≤ rules.spreadCount gap := by
  have hone : rules.spreadCount (gap.resize 0) ≤ 1 := by
    unfold SpacingRules.spreadCount
    split_ifs <;> simp_all [Gap.resize]
  refine ⟨hone, ?_⟩
  by_cases hcount : 0 < gap.count
  · rw [show rules.spreadCount gap = gap.count from if_pos hcount]
    omega
  · rw [show gap.resize 0 = gap by simp only [Gap.resize, ← Nat.eq_zero_of_not_pos hcount]]

/-- One space in a jump is dropped. -/
theorem Regular.spacing_ne_one (h : table.Regular) (hjump : table.splitsJump gap = true) :
    table.spacing gap ≠ 1 := by
  simp only [spacing, h.drops_of_splitsJump hjump, Nat.sub_zero]
  split_ifs with hone
  · exact Nat.zero_ne_one
  · exact fun heq => hone ⟨hjump, heq⟩

/-- A gap that has been respaced keeps its width exactly if it has no space left that its tokens do
not want. -/
theorem Regular.spacing_spacing_iff (h : table.Regular) :
    table.spacing (gap.resize (table.spacing gap)) = table.spacing gap ↔
      (0 < table.spacing gap → table.drops gap = 0) := by
  by_cases hpos : 0 < table.spacing gap
  · rw [spacing_resize_of_pos hpos]
    by_cases hjump : table.splitsJump gap = true
    · simp [h.drops_of_splitsJump hjump, h.spacing_ne_one hjump]
    · rw [if_neg fun hone => hjump hone.1]
      constructor
      · intro heq _
        omega
      · intro hdrops
        rw [hdrops hpos, Nat.sub_zero]
  · have hzero := Nat.eq_zero_of_not_pos hpos
    have hnone : table.spacing (gap.resize 0) = 0 := by
      obtain ⟨hone, hle⟩ := @spreadCount_resize_zero_le gap (SpacingRules.ofTable table)
      have hspacing := hzero
      rw [spacing_resize]
      simp only [spacing] at hspacing
      by_cases hjump : table.splitsJump gap = true
      · simp only [hjump, true_and]
        split_ifs <;> omega
      · rw [if_neg fun hone => hjump hone.1] at hspacing ⊢
        omega
    simp [hzero, hnone]

/-- The two ways of respacing code: with the spaces at its end and without them. -/
def IsSpacing (table : TokenTable) (rule : Gap Token → Nat) : Prop :=
  rule = table.spacing ∨ rule = Gap.closed table.spacing

section Rules

variable {rule : Gap Token → Nat}

theorem IsSpacing.eq_zero_or (hrule : table.IsSpacing rule) (gap : Gap Token) :
    rule gap = 0 ∨ rule gap = table.spacing gap := by
  rcases hrule with rfl | rfl
  · exact .inr rfl
  · unfold Gap.closed
    split
    · exact .inl rfl
    · exact .inr rfl

/-- Both ways of respacing keep the width of a gap under the same condition. -/
theorem IsSpacing.rule_rule_iff (h : table.Regular) (hrule : table.IsSpacing rule) :
    rule (gap.resize (rule gap)) = rule gap ↔ (0 < rule gap → table.drops gap = 0) := by
  rcases hrule with rfl | rfl
  · exact h.spacing_spacing_iff
  · by_cases hright : gap.right.isNone = true
    · simp [Gap.closed, Gap.resize, hright]
    · rw [show Gap.closed table.spacing gap = table.spacing gap from if_neg hright,
        ← h.spacing_spacing_iff]
      exact Eq.congr_left (if_neg hright)

end Rules

/-- A gap of a single space that is respaced has no space left that its tokens do not want. -/
theorem drops_eq_zero_of_count_le_one (hcount : gap.count ≤ 1) (hpos : 0 < table.spacing gap) :
    table.drops gap = 0 := by
  have hspread : (SpacingRules.ofTable table).spreadCount gap ≤ 1 := by
    unfold SpacingRules.spreadCount
    split_ifs <;> omega
  simp only [spacing] at hpos
  split_ifs at hpos <;> omega

/-- Code does not get a space in front. -/
theorem spacing_first (right : Option Token) : table.spacing ⟨none, right, 0⟩ = 0 := by
  have hspread : (SpacingRules.ofTable table).spreadCount ⟨none, right, 0⟩ = 0 := by
    simp [SpacingRules.spreadCount]
  simp [spacing, hspread]

/-- Code of spaces alone stays as it is. -/
theorem spacing_blank {n : Nat} (hn : 0 < n) : table.spacing ⟨none, none, n⟩ = n := by
  have hspread : (SpacingRules.ofTable table).spreadCount ⟨none, none, n⟩ = n := if_pos hn
  simp [spacing, hspread, splitsJump, drops]

/-- A keyword that opens a literal leaves one space behind. -/
theorem Regular.spacing_opener (h : table.Regular) {keyword : Keyword}
    (hmem : keyword ∈ table.keywords)
    (hopens : Segment.opensComment keyword = true ∨ Segment.opensData keyword = true) :
    table.spacing ⟨some keyword.token, none, 0⟩ = 1 := by
  have hne {c : Char} (hc : c.toNat < 0x80) (hquote : c ≠ '\'') :
      keyword.token ≠ table.tokenOfChar c := by
    intro heq
    have hshown := (shown_token hmem).1
    rw [heq, h.shown_tokenOfChar hc] at hshown
    simp [Segment.opensComment, Segment.opensData, ← hshown, hquote] at hopens
  have hspaced : (SpacingRules.ofTable table).spaced keyword.token = true := by
    have htight : keyword.token ∉ (SpacingRules.ofTable table).tight := by
      intro htight
      obtain ⟨c, hc, htoken⟩ := List.mem_map.1 htight
      have hsmall : c.toNat < 0x80 ∧ c ≠ '\'' := by
        have hall : [':', '(', ')', '+', '-', '*', '/', '^', '<', '=', '>'].all
            (fun c => c.toNat < 0x80 ∧ c ≠ '\'') = true := by
          decide +kernel
        exact of_decide_eq_true (List.all_eq_true.1 hall c hc)
      exact hne hsmall.1 hsmall.2 htoken.symm
    have hkeyword : table.isKeyword keyword.token = true := by
      rw [isKeyword, keywordOfToken?_token hmem]
      rfl
    show (table.isKeyword _ && !(SpacingRules.ofTable table).tight.contains _) = true
    rw [hkeyword, Bool.true_and, Bool.not_eq_true', ← Bool.not_eq_true, List.contains_iff_mem]
    exact htight
  have hspread : (SpacingRules.ofTable table).spreadCount ⟨some keyword.token, none, 0⟩ = 1 := by
    simp [SpacingRules.spreadCount, hspaced]
  simp [spacing, hspread, splitsJump, drops, colon, @hne ':' (by decide) (by decide),
    @hne '(' (by decide) (by decide), @hne ',' (by decide) (by decide)]

end Settling

end TokenTable
end ColorBasic
