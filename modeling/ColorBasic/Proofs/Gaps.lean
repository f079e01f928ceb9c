import Mathlib.Data.List.Chain
import Mathlib.Data.List.DropRight

/-!
# Gaps between items

A sequence with spaces in it consists of its other items and of the gaps around them.  Changing the
number of spaces gap by gap is a change of the whole sequence; two such changes make one, and they
have the same effect exactly if they agree on every gap that there is.
-/

namespace ColorBasic

/-- A place between two items that are no spaces, or at either end. -/
structure Gap (α : Type) where
  /-- The item before the gap. -/
  left : Option α
  /-- The item after the gap. -/
  right : Option α
  /-- The number of spaces in the gap. -/
  count : Nat

namespace Gap

variable {α β : Type}

/-- The gap with another number of spaces. -/
def resize (gap : Gap α) (count : Nat) : Gap α := { gap with count }

/-- The gap between the images of its items. -/
def map (f : α → β) (gap : Gap α) : Gap β := ⟨gap.left.map f, gap.right.map f, gap.count⟩

/-- The rule that leaves no space at the end and is otherwise the given one. -/
def closed (rule : Gap α → Nat) (gap : Gap α) : Nat := if gap.right.isNone then 0 else rule gap

variable [DecidableEq α] (space : α)

/-- A sequence with a space in front, unless it begins with one. -/
def led (items : List α) : List α := if items.head? = some space then items else space :: items

/-- The gaps of a sequence, of which `count` spaces after the item `left` have been read. -/
def gaps (left : Option α) (count : Nat) : List α → List (Gap α)
  | [] => [⟨left, none, count⟩]
  | item :: rest =>
    if item = space then gaps left (count + 1) rest
    else ⟨left, some item, count⟩ :: gaps (some item) 0 rest

/-- A sequence with as many spaces in each gap as the rule says, of which `count` spaces after the
item `left` have been read. -/
def regap (rule : Gap α → Nat) (left : Option α) (count : Nat) : List α → List α
  | [] => List.replicate (rule ⟨left, none, count⟩) space
  | item :: rest =>
    if item = space then regap rule left (count + 1) rest
    else
      List.replicate (rule ⟨left, some item, count⟩) space ++ item :: regap rule (some item) 0 rest

variable {space} {rule other : Gap α → Nat} {left : Option α} {count : Nat} {items : List α}

section Reading

@[simp] theorem regap_nil :
    regap space rule left count [] = List.replicate (rule ⟨left, none, count⟩) space := rfl

@[simp] theorem regap_space (rest : List α) :
    regap space rule left count (space :: rest) = regap space rule left (count + 1) rest :=
  if_pos rfl

theorem regap_item {item : α} (h : item ≠ space) (rest : List α) :
    regap space rule left count (item :: rest) =
      List.replicate (rule ⟨left, some item, count⟩) space ++
        item :: regap space rule (some item) 0 rest :=
  if_neg h

@[simp] theorem gaps_space (rest : List α) :
    gaps space left count (space :: rest) = gaps space left (count + 1) rest :=
  if_pos rfl

theorem gaps_item {item : α} (h : item ≠ space) (rest : List α) :
    gaps space left count (item :: rest) =
      ⟨left, some item, count⟩ :: gaps space (some item) 0 rest :=
  if_neg h

theorem regap_replicate_append (n : Nat) (rest : List α) :
    regap space rule left count (List.replicate n space ++ rest) =
      regap space rule left (count + n) rest := by
  induction n generalizing count with
  | zero => rfl
  | succ n ih =>
      rw [List.replicate_succ, List.cons_append, regap_space, ih]
      congr 1
      omega

/-- Keeping every gap as it is changes nothing. -/
theorem regap_count (left : Option α) (count : Nat) (items : List α) :
    regap space Gap.count left count items = List.replicate count space ++ items := by
  induction items generalizing left count with
  | nil => simp
  | cons item rest ih =>
      by_cases h : item = space
      · subst h
        rw [regap_space, ih, List.replicate_succ', List.append_assoc]
        rfl
      · rw [regap_item h, ih]
        rfl

end Reading

section Changes

/-- What changes the spaces before an item whatever it stands after, and then goes on with the item,
is a change gap by gap. -/
theorem apply_eq_regap {f : List α → List α} (hnil : f [] = [])
    (hgap : ∀ left count tail, left ≠ some space → tail.head? ≠ some space →
      f (left.toList ++ (List.replicate count space ++ tail)) =
        left.toList ++ (List.replicate (rule ⟨left, tail.head?, count⟩) space ++ f tail))
    (items : List α) : f items = regap space rule none 0 items := by
  have hread : ∀ left count, left ≠ some space →
      f (left.toList ++ (List.replicate count space ++ items)) =
        left.toList ++ regap space rule left count items := by
    induction items with
    | nil =>
        intro left count hleft
        rw [hgap left count [] hleft (by simp), hnil, List.append_nil, regap_nil, List.head?_nil]
    | cons item rest ih =>
        intro left count hleft
        by_cases h : item = space
        · subst h
          rw [regap_space, ← ih left _ hleft, List.replicate_succ', List.append_assoc]
          rfl
        · have hrest := ih (some item) 0 (by simpa using h)
          rw [hgap left count (item :: rest) hleft (by simpa using h), regap_item h]
          exact congrArg (fun tail => left.toList ++ (List.replicate _ space ++ tail)) hrest
  exact hread none 0 (by simp)

/-- Two changes one after the other are one change. -/
theorem regap_regap (left : Option α) (count : Nat) (items : List α) :
    regap space rule left 0 (regap space other left count items) =
      regap space (fun gap => rule (gap.resize (other gap))) left count items := by
  induction items generalizing left count with
  | nil =>
      have hspaces : regap space rule left 0
          (List.replicate (other ⟨left, none, count⟩) space ++ []) = _ :=
        regap_replicate_append _ []
      simpa [resize] using hspaces
  | cons item rest ih =>
      by_cases h : item = space
      · subst h
        rw [regap_space, regap_space, ih]
      · rw [regap_item h, regap_item h, regap_replicate_append, regap_item h, ih, Nat.zero_add]
        rfl

omit [DecidableEq α] in
/-- The first item that is no space ends the spaces before it. -/
theorem replicate_append_cons_inj {item : α} (hitem : item ≠ space) {m n : Nat}
    {rest later : List α}
    (h : List.replicate m space ++ item :: rest = List.replicate n space ++ item :: later) :
    m = n ∧ rest = later := by
  induction m generalizing n with
  | zero =>
      cases n with
      | zero => exact ⟨rfl, (List.cons.inj h).2⟩
      | succ n => exact (hitem (List.cons.inj h).1).elim
  | succ m ih =>
      cases n with
      | zero => exact (hitem (List.cons.inj h).1.symm).elim
      | succ n =>
          obtain ⟨hcount, hrest⟩ := ih (List.cons.inj h).2
          exact ⟨by rw [hcount], hrest⟩

/-- Two rules change a sequence alike exactly if they agree on its gaps. -/
theorem regap_eq_regap_iff :
    regap space rule left count items = regap space other left count items ↔
      ∀ gap ∈ gaps space left count items, rule gap = other gap := by
  induction items generalizing left count with
  | nil => simp [gaps, List.replicate_inj]
  | cons item rest ih =>
      by_cases h : item = space
      · subst h
        rw [regap_space, regap_space, gaps_space, ih]
      · rw [regap_item h, regap_item h, gaps_item h, List.forall_mem_cons, ← ih]
        constructor
        · exact replicate_append_cons_inj h
        · rintro ⟨hcount, hrest⟩
          rw [hcount, hrest]

/-- A change resizes every gap and keeps what stands on either side of it. -/
theorem gaps_regap (left : Option α) (count : Nat) (items : List α) :
    gaps space left 0 (regap space rule left count items) =
      (gaps space left count items).map fun gap => gap.resize (rule gap) := by
  have hspaces (left : Option α) (count n : Nat) (rest : List α) :
      gaps space left count (List.replicate n space ++ rest) =
        gaps space left (count + n) rest := by
    induction n generalizing count with
    | zero => rfl
    | succ n ih =>
        rw [List.replicate_succ, List.cons_append, gaps_space, ih]
        congr 1
        omega
  induction items generalizing left count with
  | nil =>
      rw [regap_nil, ← List.append_nil (List.replicate _ _), hspaces, Nat.zero_add]
      rfl
  | cons item rest ih =>
      by_cases h : item = space
      · subst h
        rw [regap_space, gaps_space, ih]
      · rw [regap_item h, hspaces, gaps_item h, gaps_item h, ih, Nat.zero_add]
        rfl

/-- A change brings in nothing but spaces. -/
theorem mem_of_mem_regap {item : α} (h : item ∈ regap space rule left count items) :
    item ∈ items ∨ item = space := by
  induction items generalizing left count with
  | nil => exact .inr (List.eq_of_mem_replicate h)
  | cons first rest ih =>
      by_cases hfirst : first = space
      · subst hfirst
        rw [regap_space] at h
        exact (ih h).imp_left (List.mem_cons_of_mem _)
      · rw [regap_item hfirst, List.mem_append, List.mem_cons] at h
        rcases h with h | rfl | h
        · exact .inr (List.eq_of_mem_replicate h)
        · exact .inl List.mem_cons_self
        · exact (ih h).imp_left (List.mem_cons_of_mem _)

theorem mem_regap_of_mem {item : α} (hitem : item ≠ space) (h : item ∈ items) :
    item ∈ regap space rule left count items := by
  induction items generalizing left count with
  | nil => simp at h
  | cons first rest ih =>
      by_cases hfirst : first = space
      · subst hfirst
        rw [regap_space]
        exact ih ((List.mem_cons.1 h).resolve_left hitem)
      · rw [regap_item hfirst, List.mem_append, List.mem_cons]
        rcases List.mem_cons.1 h with rfl | h
        · exact .inr (.inl rfl)
        · exact .inr (.inr (ih h))

/-- A change of the images of items is a change of the items, if only the space becomes a space. -/
theorem map_regap [DecidableEq β] {f : α → β} {items : List α} {rule : Gap β → Nat}
    (h : ∀ item ∈ items, f item = f space → item = space) :
    (regap space (fun gap => rule (gap.map f)) left count items).map f =
      regap (f space) rule (left.map f) count (items.map f) := by
  induction items generalizing left count with
  | nil => simp [map]
  | cons item rest ih =>
      rw [List.forall_mem_cons] at h
      rw [List.map_cons]
      by_cases hitem : item = space
      · subst hitem
        rw [regap_space, regap_space, ih h.2]
      · rw [regap_item hitem, regap_item (fun heq => hitem (h.1 heq)), List.map_append,
          List.map_cons, List.map_replicate, ih h.2]
        rfl

end Changes

section Ends

/-- The spaces after the last item belong to the last gap. -/
theorem rdropWhile_append_cons {item : α} (h : item ≠ space) (front back : List α) :
    (front ++ item :: back).rdropWhile (· = space) =
      front ++ item :: back.rdropWhile (· = space) := by
  induction back using List.reverseRecOn with
  | nil =>
      rw [List.rdropWhile_concat_neg _ _ _ (by simpa using h)]
      rfl
  | append_singleton back last ih =>
      rw [← List.cons_append, ← List.append_assoc]
      by_cases hlast : last = space
      · rw [List.rdropWhile_concat_pos _ _ _ (by simpa using hlast),
          List.rdropWhile_concat_pos _ _ _ (by simpa using hlast), ih]
      · rw [List.rdropWhile_concat_neg _ _ _ (by simpa using hlast),
          List.rdropWhile_concat_neg _ _ _ (by simpa using hlast), List.append_assoc]
        rfl

/-- Dropping the spaces at the end is leaving none in the last gap. -/
theorem rdropWhile_regap (left : Option α) (count : Nat) (items : List α) :
    (regap space rule left count items).rdropWhile (· = space) =
      regap space (closed rule) left count items := by
  induction items generalizing left count with
  | nil =>
      rw [regap_nil, regap_nil]
      exact List.rdropWhile_eq_nil_iff.2 fun item hitem => by
        simpa using List.eq_of_mem_replicate hitem
  | cons item rest ih =>
      by_cases h : item = space
      · subst h
        rw [regap_space, regap_space, ih]
      · rw [regap_item h, regap_item h, rdropWhile_append_cons h, ih]
        rfl

/-- Items that end without a space get at their end the spaces that the rule has for this place. -/
theorem regap_concat {item : α} (h : item ≠ space) (items : List α) :
    regap space rule left count (items ++ [item]) =
      regap space (closed rule) left count (items ++ [item]) ++
        List.replicate (rule ⟨some item, none, 0⟩) space := by
  induction items generalizing left count with
  | nil =>
      rw [List.nil_append, regap_item h, regap_item h]
      simp [closed]
  | cons first rest ih =>
      rw [List.cons_append]
      by_cases hfirst : first = space
      · subst hfirst
        rw [regap_space, regap_space, ih]
      · rw [regap_item hfirst, regap_item hfirst, ih]
        simp [closed]

/-- Items that end without a space end with the same item if none is put after it. -/
theorem exists_regap_closed_concat {item : α} (h : item ≠ space) (items : List α) :
    ∃ front, regap space (closed rule) left count (items ++ [item]) = front ++ [item] ∧
      ∀ other ∈ front, other ∈ items ∨ other = space := by
  induction items generalizing left count with
  | nil =>
      refine ⟨List.replicate (closed rule ⟨left, some item, count⟩) space, ?_, ?_⟩
      · rw [List.nil_append, regap_item h]
        rfl
      · exact fun other hother => .inr (List.eq_of_mem_replicate hother)
  | cons first rest ih =>
      rw [List.cons_append]
      by_cases hfirst : first = space
      · subst hfirst
        obtain ⟨front, hfront, hmem⟩ := @ih left (count + 1)
        refine ⟨front, by rw [regap_space, hfront], fun other hother => ?_⟩
        exact (hmem other hother).imp_left (List.mem_cons_of_mem _)
      · obtain ⟨front, hfront, hmem⟩ := @ih (some first) 0
        refine ⟨List.replicate (closed rule ⟨left, some first, count⟩) space ++ first :: front, ?_,
          fun other hother => ?_⟩
        · rw [regap_item hfirst, hfront, List.append_assoc]
          rfl
        · rw [List.mem_append, List.mem_cons] at hother
          rcases hother with hother | rfl | hother
          · exact .inr (List.eq_of_mem_replicate hother)
          · exact .inl List.mem_cons_self
          · exact (hmem other hother).imp_left (List.mem_cons_of_mem _)

/-- Items that start with one that is no space still start with it, if the rule leaves no space
there. -/
theorem head?_regap {item : α} (h : item ≠ space) (rest : List α)
    (hrule : rule ⟨none, some item, 0⟩ = 0) :
    (regap space rule none 0 (item :: rest)).head? = some item := by
  rw [regap_item h, hrule]
  rfl

theorem mem_led {item : α} (h : item ∈ led space items) : item ∈ items ∨ item = space := by
  unfold led at h
  split at h
  · exact .inl h
  · exact (List.mem_cons.1 h).symm

theorem led_ne_nil (items : List α) : led space items ≠ [] := by
  unfold led
  split
  · rename_i hhead
    rintro rfl
    simp at hhead
  · exact List.cons_ne_nil _ _

/-- Putting a space in front of images is putting one in front of the items. -/
theorem map_led [DecidableEq β] {f : α → β} (hf : Function.Injective f) (items : List α) :
    (led space items).map f = led (f space) (items.map f) := by
  have hhead : (items.map f).head? = some (f space) ↔ items.head? = some space := by
    cases items with
    | nil => simp
    | cons first rest => simp [hf.eq_iff]
  unfold led
  simp only [hhead]
  split <;> simp

theorem led_led (items : List α) : led space (led space items) = led space items := by
  by_cases h : items.head? = some space <;> simp [led, h]

theorem led_eq_self_iff : led space items = items ↔ items.head? = some space := by
  constructor
  · intro h
    by_contra hhead
    rw [led, if_neg hhead] at h
    have hlength := congrArg List.length h
    simp at hlength
  · exact fun h => if_pos h

omit [DecidableEq α] in
/-- The rule for the images of items that leaves no space at the end. -/
theorem closed_map {f : α → β} {rule : Gap β → Nat} :
    (fun gap => closed rule (gap.map f)) = closed fun gap => rule (gap.map f) := by
  funext gap
  simp [closed, map]

end Ends

section Neighbours

/-- What stands after an item has its gaps in any sequence. -/
theorem gaps_suffix {item : α} (h : item ≠ space) (left : Option α) (count : Nat)
    (front rest : List α) :
    gaps space (some item) 0 rest <:+ gaps space left count (front ++ item :: rest) := by
  induction front generalizing left count with
  | nil =>
      rw [List.nil_append, gaps_item h]
      exact List.suffix_cons _ _
  | cons first front ih =>
      rw [List.cons_append]
      by_cases hfirst : first = space
      · subst hfirst
        rw [gaps_space]
        exact ih left _
      · rw [gaps_item hfirst]
        exact (ih _ _).trans (List.suffix_cons _ _)

theorem mem_gaps_of_infix {a b : α} (ha : a ≠ space) (hb : b ≠ space)
    (h : [a, space, b] <:+: items) : ⟨some a, some b, 1⟩ ∈ gaps space left count items := by
  obtain ⟨front, back, rfl⟩ := h
  rw [List.append_assoc]
  refine (gaps_suffix ha left count front _).subset ?_
  show _ ∈ gaps space (some a) 0 (space :: b :: back)
  rw [gaps_space, gaps_item hb]
  exact List.mem_cons_self

/-- The spaces of a gap stand in the sequence. -/
theorem replicate_infix_of_mem_gaps {gap : Gap α} (h : gap ∈ gaps space left count items) :
    List.replicate gap.count space <:+: List.replicate count space ++ items := by
  induction items generalizing left count with
  | nil =>
      rw [List.mem_singleton.1 h]
      exact (List.prefix_append _ _).isInfix
  | cons item rest ih =>
      by_cases hitem : item = space
      · subst hitem
        rw [gaps_space] at h
        have hshift := ih h
        rwa [List.replicate_succ', List.append_assoc] at hshift
      · rw [gaps_item hitem, List.mem_cons] at h
        rcases h with rfl | h
        · exact (List.prefix_append _ _).isInfix
        · have hlater := @ih (some item) 0 h
          exact hlater.trans ((List.suffix_cons _ _).trans (List.suffix_append _ _)).isInfix

/-- No gap is as wide as two spaces if there are no two spaces in a row. -/
theorem count_le_one_of_single (hsingle : ¬[space, space] <:+: items) {gap : Gap α}
    (h : gap ∈ gaps space left 0 items) : gap.count ≤ 1 := by
  by_contra hmany
  have hspaces : [space, space] <+: List.replicate gap.count space :=
    List.prefix_replicate_iff.2 ⟨by simp; omega, rfl⟩
  exact hsingle (hspaces.isInfix.trans (replicate_infix_of_mem_gaps h))

/-- What stands on either side of a gap is no space. -/
theorem ne_space_of_mem_gaps (hleft : left ≠ some space) {gap : Gap α}
    (h : gap ∈ gaps space left count items) : gap.left ≠ some space ∧ gap.right ≠ some space := by
  induction items generalizing left count with
  | nil =>
      rw [List.mem_singleton.1 h]
      exact ⟨hleft, by simp⟩
  | cons item rest ih =>
      by_cases hitem : item = space
      · subst hitem
        rw [gaps_space] at h
        exact ih hleft h
      · rw [gaps_item hitem, List.mem_cons] at h
        rcases h with rfl | h
        · exact ⟨hleft, by simpa using hitem⟩
        · exact ih (by simpa using hitem) h

variable {R : α → α → Prop}

omit [DecidableEq α] in
/-- A relation that can fail only beside a space holds between neighbours in a gap with spaces
exactly if it holds on either side. -/
theorem isChain_gap_iff (hspace : R space space)
    (hitems : ∀ a b, a ≠ space → b ≠ space → R a b) {gap : Gap α} (hleft : gap.left ≠ some space)
    (hright : gap.right ≠ some space) :
    (gap.left.toList ++ (List.replicate gap.count space ++ gap.right.toList)).IsChain R ↔
      (0 < gap.count → (∀ a ∈ gap.left, R a space) ∧ ∀ b ∈ gap.right, R space b) := by
  obtain ⟨left, right, count⟩ := gap
  cases count with
  | zero => cases left <;> cases right <;> simp_all
  | succ n =>
      have hspaces : (List.replicate (n + 1) space).IsChain R :=
        List.isChain_replicate_of_rel (n + 1) hspace
      have hafter : (List.replicate (n + 1) space ++ right.toList).IsChain R ↔
          ∀ b ∈ right, R space b := by
        cases right <;> simp [List.isChain_append, hspaces, List.getLast?_replicate]
      have hhead : (List.replicate (n + 1) space ++ right.toList).head? = some space := rfl
      rw [List.isChain_append, hafter, hhead]
      cases left <;> simp [and_comm]

/-- A relation holds between all neighbours after a change exactly if it does in every gap. -/
theorem isChain_regap_iff (left : Option α) (count : Nat) (items : List α) :
    (left.toList ++ regap space rule left count items).IsChain R ↔
      ∀ gap ∈ gaps space left count items,
        (gap.left.toList ++ (List.replicate (rule gap) space ++ gap.right.toList)).IsChain R := by
  induction items generalizing left count with
  | nil => simp [gaps]
  | cons item rest ih =>
      by_cases h : item = space
      · subst h
        rw [regap_space, gaps_space]
        exact ih left (count + 1)
      · rw [regap_item h, gaps_item h, List.forall_mem_cons, ← ih (some item) 0,
          ← List.append_assoc, List.isChain_split, List.append_assoc]
        rfl

/-- A relation that can fail only beside a space holds between all neighbours exactly if it holds on
either side of every gap that has spaces. -/
theorem isChain_iff_gaps (hspace : R space space)
    (hitems : ∀ a b, a ≠ space → b ≠ space → R a b) (hleft : left ≠ some space)
    (count : Nat) (items : List α) :
    (left.toList ++ (List.replicate count space ++ items)).IsChain R ↔
      ∀ gap ∈ gaps space left count items, 0 < gap.count →
        (∀ a ∈ gap.left, R a space) ∧ ∀ b ∈ gap.right, R space b := by
  rw [← regap_count left, isChain_regap_iff]
  refine forall₂_congr fun gap hgap => ?_
  obtain ⟨hbefore, hafter⟩ := ne_space_of_mem_gaps hleft hgap
  exact isChain_gap_iff hspace hitems hbefore hafter

/-- An item that comes last after a change stands before the last gap, and no space is put there. -/
theorem exists_gap_of_getLast? {item : α} (hitem : item ≠ space)
    (h : (left.toList ++ regap space rule left count items).getLast? = some item) :
    ∃ gap ∈ gaps space left count items,
      gap.left = some item ∧ gap.right = none ∧ rule gap = 0 := by
  induction items generalizing left count with
  | nil =>
      rw [regap_nil] at h
      cases hcount : rule ⟨left, none, count⟩ with
      | zero =>
          rw [hcount, List.replicate_zero, List.append_nil] at h
          refine ⟨⟨left, none, count⟩, List.mem_singleton_self _, ?_, rfl, hcount⟩
          cases left with
          | none => simp at h
          | some first => simpa using h
      | succ n =>
          rw [hcount, List.replicate_succ', ← List.append_assoc, List.getLast?_concat] at h
          exact (hitem (Option.some.inj h).symm).elim
  | cons first rest ih =>
      by_cases hfirst : first = space
      · subst hfirst
        rw [regap_space] at h
        rw [gaps_space]
        exact ih h
      · rw [regap_item hfirst, ← List.append_assoc, List.getLast?_append_of_ne_nil _ (by simp)] at h
        obtain ⟨gap, hgap, hsides⟩ := @ih (some first) 0 h
        rw [gaps_item hfirst]
        exact ⟨gap, List.mem_cons_of_mem _ hgap, hsides⟩

end Neighbours

end Gap
end ColorBasic
