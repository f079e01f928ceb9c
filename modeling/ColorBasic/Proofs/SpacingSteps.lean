import ColorBasic.Spacing
import Mathlib.Data.List.Induction
import Mathlib.Logic.Relation

/-!
# Respacing step by step

Respacing is a run of small changes: a space is put in somewhere, or a joint loses its space.  Each
step may be made with other tokens around it, and no step touches a token that is not a space.
-/

namespace ColorBasic
namespace SpacingRules

/-- A joint of a list of joints: a sequence with a space to drop, and what remains of it. -/
abbrev Joint := List Token × List Token

/-- One change of the spaces among tokens. -/
inductive Step (joints : List Joint) : List Token → List Token → Prop
  | insert (before after : List Token) :
      Step joints (before ++ after) (before ++ .space :: after)
  | join {joint : Joint} (h : joint ∈ joints) (before after : List Token) :
      Step joints (before ++ (joint.1 ++ after)) (before ++ (joint.2 ++ after))

/-- Any number of changes. -/
abbrev Steps (joints : List Joint) : List Token → List Token → Prop :=
  Relation.ReflTransGen (Step joints)

section Context

variable {joints : List Joint} {old new : List Token}

theorem Step.append_left (front : List Token) (h : Step joints old new) :
    Step joints (front ++ old) (front ++ new) := by
  cases h with
  | insert before after => simpa using @Step.insert joints (front ++ before) after
  | join hjoint before after => simpa using Step.join hjoint (front ++ before) after

theorem Step.append_right (back : List Token) (h : Step joints old new) :
    Step joints (old ++ back) (new ++ back) := by
  cases h with
  | insert before after => simpa using @Step.insert joints before (after ++ back)
  | join hjoint before after => simpa using Step.join hjoint before (after ++ back)

theorem Steps.append_left (front : List Token) (h : Steps joints old new) :
    Steps joints (front ++ old) (front ++ new) :=
  Relation.ReflTransGen.lift (front ++ ·) (fun _ _ hstep => hstep.append_left front) _ _ h

theorem Steps.append_right (back : List Token) (h : Steps joints old new) :
    Steps joints (old ++ back) (new ++ back) :=
  Relation.ReflTransGen.lift (· ++ back) (fun _ _ hstep => hstep.append_right back) _ _ h

theorem Steps.cons (token : Token) (h : Steps joints old new) :
    Steps joints (token :: old) (token :: new) :=
  h.append_left [token]

/-- A space may be put in front. -/
theorem Steps.cons_space (h : Steps joints old new) : Steps joints old (.space :: new) :=
  h.tail (.insert [] new)

theorem Steps.mono {more : List Joint} (hsubset : joints ⊆ more) (h : Steps joints old new) :
    Steps more old new := by
  refine Relation.ReflTransGen.mono (fun _ _ hstep => ?_) _ _ h
  cases hstep with
  | insert before after => exact .insert before after
  | join hjoint before after => exact .join (hsubset hjoint) before after

end Context

section Passes

variable {joints : List Joint}

/-- Replacing a joint wherever it stands is a run of steps. -/
theorem steps_replaceAll {joint : Joint} (h : joint ∈ joints) (hne : joint.1 ≠ [])
    (tokens : List Token) : Steps joints tokens (Token.replaceAll joint.1 joint.2 tokens) := by
  fun_induction Token.replaceAll joint.1 joint.2 tokens with
  | case1 => exact .refl
  | case2 token rest hfound ih =>
      obtain ⟨after, hafter⟩ := List.isPrefixOf_iff_prefix.1 hfound
      have hrest : rest.drop (joint.1.length - 1) = after := by
        cases hjoint : joint.1 with
        | nil => exact (hne hjoint).elim
        | cons first others =>
            rw [hjoint, List.cons_append] at hafter
            rw [← (List.cons.inj hafter).2]
            simp
      rw [hrest] at ih ⊢
      rw [← hafter]
      exact Relation.ReflTransGen.head (.join h [] after) (ih.append_left joint.2)
  | case3 token rest hfound ih => exact ih.cons token

theorem steps_foldl_replaceAll {passes : List Joint} (hpasses : passes ⊆ joints)
    (hne : ∀ joint ∈ passes, joint.1 ≠ []) (tokens : List Token) :
    Steps joints tokens
      (passes.foldl (fun tokens joint => Token.replaceAll joint.1 joint.2 tokens) tokens) := by
  induction passes generalizing tokens with
  | nil => exact .refl
  | cons joint passes ih =>
      obtain ⟨hjoint, hrest⟩ := List.cons_subset.1 hpasses
      rw [List.forall_mem_cons] at hne
      exact (steps_replaceAll hjoint hne.1 tokens).trans (ih hrest hne.2 _)

variable {rules : SpacingRules}

/-- Rules for which the space is neither an operator nor a keyword. -/
structure SpaceIsPlain (rules : SpacingRules) : Prop where
  tight : Token.space ∉ rules.tight
  spaced : rules.spaced .space = false

theorem spread_of_head_ne {last : Option Token} {tokens : List Token}
    (h : tokens.head? ≠ some .space) :
    rules.spread last true tokens = rules.spread last false tokens := by
  cases tokens with
  | nil => rfl
  | cons token rest =>
      have htoken : token ≠ .space := fun heq => h (by rw [heq]; rfl)
      simp [spread, htoken]

/-- Spreading drops a space only where it has just written one, so it only puts spaces in. -/
theorem steps_spread (hplain : rules.SpaceIsPlain) (tokens : List Token) :
    (∀ last, Steps joints tokens (rules.spread last false tokens)) ∧
      ∀ last, Steps joints tokens (.space :: rules.spread last true tokens) := by
  induction tokens with
  | nil => exact ⟨fun _ => .refl, fun _ => Steps.cons_space .refl⟩
  | cons token rest ih =>
      obtain ⟨hkeep, hdrop⟩ := ih
      have hfalse : ∀ last, Steps joints (token :: rest)
          (rules.spread last false (token :: rest)) := by
        intro last
        by_cases hspaced : rules.spaced token = true
        · have hbefore {tail : List Token} (h : Steps joints rest tail) :
              Steps joints (token :: rest)
                ((if last.all (· = .space) then [] else [Token.space]) ++ token :: tail) := by
            split
            · exact h.cons token
            · exact (h.cons token).cons_space
          rw [spread, if_pos hspaced]
          dsimp only
          split
          · -- An operator follows the keyword, so there is no space to drop.
            rename_i htight
            obtain ⟨next, hnext, hmem⟩ := (Option.any_eq_true _ _).1 htight
            rw [spread_of_head_ne]
            · exact hbefore (hkeep _)
            · rw [hnext]
              intro heq
              rw [Option.some.inj heq, List.contains_iff_mem] at hmem
              exact hplain.tight hmem
          · exact hbefore (hdrop _)
        · rw [spread, if_neg hspaced, if_neg (by simp)]
          exact (hkeep _).cons token
      refine ⟨hfalse, fun last => ?_⟩
      by_cases htoken : token = .space
      · subst htoken
        rw [spread, if_neg (by simp [hplain.spaced]), if_pos ⟨rfl, rfl⟩]
        exact (hkeep last).cons .space
      · rw [spread_of_head_ne (by simpa using htoken)]
        exact (hfalse last).cons_space

/-- Respacing is a run of steps. -/
theorem steps_respace (hplain : rules.SpaceIsPlain) (hne : ∀ joint ∈ rules.joints, joint.1 ≠ [])
    (tokens : List Token) : Steps rules.joints tokens (rules.respace tokens) :=
  ((steps_spread hplain tokens).1 none).trans
    (steps_foldl_replaceAll (List.Subset.refl _) hne _)

end Passes

section Filled

/-- The tokens that are not spaces. -/
def filled (tokens : List Token) : List Token := tokens.filter (· ≠ .space)

@[simp] theorem filled_append (first second : List Token) :
    filled (first ++ second) = filled first ++ filled second :=
  List.filter_append ..

@[simp] theorem filled_space (tokens : List Token) : filled (.space :: tokens) = filled tokens := by
  simp [filled]

theorem filled_append_spaces {tokens spaces : List Token} (h : ∀ token ∈ spaces, token = .space) :
    filled (tokens ++ spaces) = filled tokens := by
  have hspaces : filled spaces = [] :=
    List.filter_eq_nil_iff.2 fun token htoken => by simp [h token htoken]
  rw [filled_append, hspaces, List.append_nil]

theorem getLast?_filled {tokens : List Token} (h : tokens.getLast? ≠ some .space) :
    (filled tokens).getLast? = tokens.getLast? := by
  induction tokens using List.reverseRecOn with
  | nil => rfl
  | append_singleton tokens token _ =>
      have htoken : token ≠ .space := fun heq => h (by simp [heq])
      have hself : filled [token] = [token] := by simp [filled, htoken]
      rw [filled_append, hself, List.getLast?_concat, List.getLast?_concat]

/-- A joint that loses one space and nothing else. -/
def LosesSpace (joint : Joint) : Prop :=
  ∃ before after, joint = (before ++ .space :: after, before ++ after)

variable {joints : List Joint} {old new : List Token}

theorem Steps.filled_eq (hjoints : ∀ joint ∈ joints, LosesSpace joint) (h : Steps joints old new) :
    filled new = filled old := by
  induction h with
  | refl => rfl
  | tail _ hstep ih =>
      rw [← ih]
      cases hstep with
      | insert before after => simp
      | join hjoint before after =>
          obtain ⟨first, second, heq⟩ := hjoints _ hjoint
          simp [heq]

/-- Steps bring in no token but spaces. -/
theorem Steps.mem_or_eq_space (hjoints : ∀ joint ∈ joints, LosesSpace joint)
    (h : Steps joints old new) {token : Token} (hmem : token ∈ new) :
    token ∈ old ∨ token = .space := by
  by_cases hspace : token = .space
  · exact .inr hspace
  · have hfilled : token ∈ filled new := List.mem_filter.2 ⟨hmem, by simpa using hspace⟩
    rw [h.filled_eq hjoints] at hfilled
    exact .inl (List.mem_filter.1 hfilled).1

end Filled

end SpacingRules
end ColorBasic
