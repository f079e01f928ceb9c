import ColorBasic.Token
import Mathlib.Data.List.Infix

/-!
# Reading tokens back from their stored form

Stored code always splits into tokens, and writing these tokens gives the code again.  In the other
direction a sequence of tokens is read back exactly if every word begins with the mark and a single
mark stands at most at the end.  These are the sequences that stored code splits into.
-/

namespace ColorBasic

/-- What is missing before the end of a list is missing before the end of each of its parts. -/
theorem dropLast_subset_of_isInfix {α : Type} {part whole : List α} (h : part <:+: whole) :
    part.dropLast ⊆ whole.dropLast := by
  obtain ⟨before, after, rfl⟩ := h
  by_cases hpart : part = []
  · simp [hpart]
  · rw [List.append_assoc, List.dropLast_append_of_ne_nil (by simp [hpart])]
    refine List.Subset.trans ?_ (List.subset_append_right _ _)
    by_cases hafter : after = []
    · simp [hafter]
    · rw [List.dropLast_append_of_ne_nil hafter]
      exact List.Subset.trans (List.dropLast_subset _) (List.subset_append_left _ _)

/-- What is missing before the end of a list stands at its end or nowhere. -/
theorem not_mem_dropLast_iff {α : Type} {item : α} {items : List α} :
    item ∉ items.dropLast ↔ ∀ before after, items = before ++ item :: after → after = [] := by
  constructor
  · intro hmissing before after hsplit
    by_contra hafter
    apply hmissing
    rw [hsplit, List.dropLast_append_of_ne_nil (List.cons_ne_nil _ _),
      List.dropLast_cons_of_ne_nil hafter]
    exact List.mem_append_right _ List.mem_cons_self
  · intro hlast hmem
    obtain ⟨before, after, hsplit⟩ := List.append_of_mem hmem
    have hne : items ≠ [] := by
      rintro rfl
      simp at hmem
    have hitems := List.dropLast_concat_getLast hne
    rw [hsplit, List.append_assoc, List.cons_append] at hitems
    exact List.append_ne_nil_of_right_ne_nil after (List.cons_ne_nil _ _)
      (hlast before _ hitems.symm)

/-- The item before a place, where `previous` stands before the whole list. -/
theorem getLast?_cons_or {α : Type} (item : α) (before : List α) (previous : Option α) :
    (item :: before).getLast?.or previous = before.getLast?.or (some item) := by
  rw [List.getLast?_cons]
  cases before.getLast? <;> rfl

theorem toNat_wordOfBytes (high low : UInt8) :
    (wordOfBytes high low).toNat = high.toNat * 256 + low.toNat := by
  have hhigh := high.toNat_lt
  have hlow : low.toNat < 2 ^ 8 := low.toNat_lt
  have hshift : high.toNat <<< 8 % 65536 = high.toNat <<< 8 := by
    rw [Nat.shiftLeft_eq]
    omega
  simp only [wordOfBytes, UInt16.toNat_or, UInt16.toNat_shiftLeft, UInt8.toNat_toUInt16]
  change high.toNat <<< 8 % 65536 ||| low.toNat = _
  rw [hshift, ← Nat.shiftLeft_add_eq_or_of_lt hlow, Nat.shiftLeft_eq]

theorem toNat_highByte (w : UInt16) : (w >>> 8).toUInt8.toNat = w.toNat / 256 := by
  have hbound := w.toNat_lt
  simp only [UInt16.toNat_toUInt8, UInt16.toNat_shiftRight]
  change w.toNat >>> 8 % 256 = _
  rw [Nat.shiftRight_eq_div_pow]
  omega

theorem wordOfBytes_wordBytes (w : UInt16) : wordOfBytes (w >>> 8).toUInt8 w.toUInt8 = w := by
  apply UInt16.toNat_inj.1
  rw [toNat_wordOfBytes, toNat_highByte, UInt16.toNat_toUInt8]
  omega

@[simp] theorem wordBytes_wordOfBytes (high low : UInt8) :
    wordBytes (wordOfBytes high low) = [high, low] := by
  have hlow := low.toNat_lt
  have hfirst : (wordOfBytes high low >>> 8).toUInt8 = high := by
    apply UInt8.toNat_inj.1
    rw [toNat_highByte, toNat_wordOfBytes]
    omega
  have hsecond : (wordOfBytes high low).toUInt8 = low := by
    apply UInt8.toNat_inj.1
    rw [UInt16.toNat_toUInt8, toNat_wordOfBytes]
    omega
  rw [wordBytes, hfirst, hsecond]

@[simp] theorem length_wordBytes (w : UInt16) : (wordBytes w).length = 2 := rfl

namespace Token

/-- Tokens that reading their stored form gives back. -/
structure Decodable (tokens : List Token) : Prop where
  /-- Every word begins with the mark. -/
  words : ∀ w, word w ∈ tokens → (w >>> 8).toUInt8 = wordMark
  /-- A single mark stands at the end or nowhere. -/
  marks : byte wordMark ∉ tokens.dropLast

/-- A token that is read back whatever follows it. -/
def SelfDelimiting : Token → Prop
  | byte b => b ≠ wordMark
  | word w => (w >>> 8).toUInt8 = wordMark

theorem decodable_nil : Decodable [] := ⟨by simp, by simp⟩

theorem decodable_mark : Decodable [byte wordMark] := ⟨by simp, by simp⟩

theorem Decodable.cons {token : Token} {tokens : List Token} (htoken : token.SelfDelimiting)
    (htokens : Decodable tokens) : Decodable (token :: tokens) := by
  refine ⟨fun w hw => ?_, fun hmark => ?_⟩
  · rcases List.mem_cons.1 hw with rfl | hw
    · exact htoken
    · exact htokens.words w hw
  · cases tokens with
    | nil => simp at hmark
    | cons next rest =>
        rw [List.dropLast_cons_cons, List.mem_cons] at hmark
        rcases hmark with rfl | hmark
        · exact htoken rfl
        · exact htokens.marks hmark

theorem Decodable.tail {token : Token} {tokens : List Token} (h : Decodable (token :: tokens)) :
    Decodable tokens := by
  refine ⟨fun w hw => h.words w (List.mem_cons_of_mem _ hw), fun hmark => h.marks ?_⟩
  cases tokens with
  | nil => simp at hmark
  | cons next rest => exact List.mem_cons_of_mem _ hmark

/-- Only the last token of a decodable sequence may be a single mark. -/
theorem Decodable.head {token : Token} {tokens : List Token} (h : Decodable (token :: tokens)) :
    token.SelfDelimiting ∨ token = byte wordMark ∧ tokens = [] := by
  cases token with
  | word w => exact .inl (h.words w List.mem_cons_self)
  | byte b =>
      by_cases hb : b = wordMark
      · subst hb
        cases tokens with
        | nil => exact .inr ⟨rfl, rfl⟩
        | cons next rest => exact (h.marks List.mem_cons_self).elim
      · exact .inl hb

/-- A part of a decodable sequence is decodable. -/
theorem Decodable.of_isInfix {part tokens : List Token} (h : Decodable tokens)
    (hpart : part <:+: tokens) : Decodable part := by
  refine ⟨fun w hw => h.words w (hpart.subset hw), fun hmark => h.marks ?_⟩
  exact dropLast_subset_of_isInfix hpart hmark

theorem decode_bytes_append {token : Token} (htoken : token.SelfDelimiting) (rest : Bytes) :
    decode (token.bytes ++ rest) = token :: decode rest := by
  cases token with
  | byte b =>
      cases rest with
      | nil => rfl
      | cons next rest =>
          change decode (b :: next :: rest) = _
          rw [decode, if_neg htoken]
  | word w =>
      have hmark : (w >>> 8).toUInt8 = wordMark := htoken
      change decode ((w >>> 8).toUInt8 :: w.toUInt8 :: rest) = _
      rw [decode, if_pos hmark, wordOfBytes_wordBytes]

theorem decode_encode {tokens : List Token} (h : Decodable tokens) :
    decode (encode tokens) = tokens := by
  induction tokens with
  | nil => rfl
  | cons token tokens ih =>
      -- A token either delimits itself or is the mark that ends the code.
      rcases h.head with htoken | ⟨rfl, rfl⟩
      · rw [encode_cons, decode_bytes_append htoken, ih h.tail]
      · rfl

theorem encode_decode (code : Bytes) : encode (decode code) = code := by
  fun_induction decode code with
  | case1 => rfl
  | case2 b => rfl
  | case3 low rest ih =>
      rw [encode_cons, ih, bytes, wordBytes_wordOfBytes]
      rfl
  | case4 b low rest hb ih =>
      rw [encode_cons, ih]
      rfl

theorem decodable_decode (code : Bytes) : Decodable (decode code) := by
  fun_induction decode code with
  | case1 => exact decodable_nil
  | case2 b =>
      by_cases hb : b = wordMark
      · exact hb ▸ decodable_mark
      · exact decodable_nil.cons hb
  | case3 low rest ih =>
      refine ih.cons ?_
      have hbytes := wordBytes_wordOfBytes wordMark low
      exact (List.cons.inj hbytes).1
  | case4 b low rest hb ih => exact ih.cons hb

/-- The sequences that are read back are those that stored code splits into. -/
theorem decode_encode_iff {tokens : List Token} :
    decode (encode tokens) = tokens ↔ Decodable tokens :=
  ⟨fun h => h ▸ decodable_decode (encode tokens), decode_encode⟩

theorem decodable_iff {tokens : List Token} :
    Decodable tokens ↔
      (∀ w, word w ∈ tokens → (w >>> 8).toUInt8 = wordMark) ∧
        ∀ before after, tokens = before ++ byte wordMark :: after → after = [] := by
  rw [← not_mem_dropLast_iff]
  exact ⟨fun h => ⟨h.words, h.marks⟩, fun h => ⟨h.1, h.2⟩⟩

/-- Reading and writing tokens are exact in both directions: code is what its tokens are stored as,
and tokens are read back exactly if every word begins with the mark and nothing follows a single
mark. -/
theorem coding_exact :
    (∀ code, encode (decode code) = code) ∧
      ∀ tokens, decode (encode tokens) = tokens ↔
        (∀ w, word w ∈ tokens → (w >>> 8).toUInt8 = wordMark) ∧
          ∀ before after, tokens = before ++ byte wordMark :: after → after = [] := by
  refine ⟨encode_decode, fun tokens => ?_⟩
  rw [decode_encode_iff, decodable_iff]

end Token
end ColorBasic
