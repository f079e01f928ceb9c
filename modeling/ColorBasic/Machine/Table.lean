import ColorBasic.TokenTable

/-!
# The token tables of the machines

The keywords of each machine are unambiguous: values are distinct because they are numbered
consecutively in ranges that do not meet, and texts are distinct by inspection.
-/

namespace ColorBasic
namespace Keyword

theorem map_text_numberFrom (first : Nat) (texts : List Text) :
    (numberFrom first texts).map text = texts := by
  induction texts generalizing first with
  | nil => rfl
  | cons text texts ih => simp [numberFrom, ih]

theorem value_mem_numberFrom {first : Nat} {texts : List Text} {value : UInt16}
    (hsize : first + texts.length ≤ UInt16.size)
    (hmem : value ∈ (numberFrom first texts).map Keyword.value) :
    first ≤ value.toNat ∧ value.toNat < first + texts.length := by
  induction texts generalizing first with
  | nil => simp [numberFrom] at hmem
  | cons text texts ih =>
    simp only [numberFrom, List.map_cons, List.mem_cons, List.length_cons] at hmem hsize ⊢
    rcases hmem with rfl | hmem
    · rw [UInt16.toNat_ofNat_of_lt' (by omega)]
      omega
    · have := ih (by omega) hmem
      omega

theorem values_numberFrom_nodup {first : Nat} {texts : List Text}
    (hsize : first + texts.length ≤ UInt16.size) :
    ((numberFrom first texts).map Keyword.value).Nodup := by
  induction texts generalizing first with
  | nil => simp [numberFrom]
  | cons text texts ih =>
    simp only [numberFrom, List.map_cons, List.length_cons, List.nodup_cons] at hsize ⊢
    refine ⟨fun hmem => ?_, ih (by omega)⟩
    have hbounds := value_mem_numberFrom (by omega) hmem
    rw [UInt16.toNat_ofNat_of_lt' (by omega)] at hbounds
    omega

end Keyword

namespace Machine

theorem dragonTexts_nodup : (dragonStatements ++ dragonFunctions).Nodup := by decide +kernel

theorem extendedTexts_nodup :
    (colorStatements ++ colorFunctions ++ (extensionStatements ++ extensionFunctions)).Nodup := by
  decide +kernel

theorem keywords_text_ne_nil (machine : Machine) :
    ∀ keyword ∈ machine.keywords, keyword.text ≠ [] := by
  cases machine <;> decide +kernel

theorem keywords_texts_nodup (machine : Machine) :
    (machine.keywords.map Keyword.text).Nodup := by
  cases machine with
  | dragon32 =>
    simpa [keywords, dragonKeywords, Keyword.map_text_numberFrom] using dragonTexts_nodup
  | coco =>
    simpa [keywords, colorKeywords, Keyword.map_text_numberFrom] using
      (List.nodup_append.1 extendedTexts_nodup).1
  | cocoExtended =>
    simpa [keywords, colorKeywords, extensionKeywords, Keyword.map_text_numberFrom] using
      extendedTexts_nodup

theorem colorValues_nodup : (colorKeywords.map Keyword.value).Nodup := by
  rw [colorKeywords, List.map_append]
  refine List.nodup_append.2 ⟨Keyword.values_numberFrom_nodup (by decide),
    Keyword.values_numberFrom_nodup (by decide), ?_⟩
  rintro value hstatement _ hfunction rfl
  have hlow := Keyword.value_mem_numberFrom (by decide) hstatement
  have hhigh := Keyword.value_mem_numberFrom (by decide) hfunction
  simp only [colorStatements, List.length_cons, List.length_nil] at hlow
  omega

theorem keywords_values_nodup (machine : Machine) :
    (machine.keywords.map Keyword.value).Nodup := by
  cases machine with
  | dragon32 =>
    rw [keywords, dragonKeywords, List.map_append]
    refine List.nodup_append.2 ⟨Keyword.values_numberFrom_nodup (by decide),
      Keyword.values_numberFrom_nodup (by decide), ?_⟩
    rintro value hstatement _ hfunction rfl
    have hlow := Keyword.value_mem_numberFrom (by decide) hstatement
    have hhigh := Keyword.value_mem_numberFrom (by decide) hfunction
    simp only [dragonStatements, List.length_cons, List.length_nil] at hlow
    omega
  | coco => exact colorValues_nodup
  | cocoExtended =>
    rw [keywords, List.map_append]
    refine List.nodup_append.2 ⟨colorValues_nodup, ?_, ?_⟩
    · rw [extensionKeywords, List.map_append]
      refine List.nodup_append.2 ⟨Keyword.values_numberFrom_nodup (by decide),
        Keyword.values_numberFrom_nodup (by decide), ?_⟩
      rintro value hstatement _ hfunction rfl
      have hlow := Keyword.value_mem_numberFrom (by decide) hstatement
      have hhigh := Keyword.value_mem_numberFrom (by decide) hfunction
      simp only [extensionStatements, List.length_cons, List.length_nil] at hlow
      omega
    · rintro value hcolor _ hextension rfl
      rw [colorKeywords, List.map_append] at hcolor
      rw [extensionKeywords, List.map_append] at hextension
      rcases List.mem_append.1 hcolor with hcolor | hcolor <;>
      rcases List.mem_append.1 hextension with hextension | hextension <;>
      · have hfirst := Keyword.value_mem_numberFrom (by decide) hcolor
        have hsecond := Keyword.value_mem_numberFrom (by decide) hextension
        simp only [colorStatements, colorFunctions, extensionStatements, List.length_cons,
          List.length_nil] at hfirst hsecond
        omega

/-- The table of a machine's own keywords. -/
def table (machine : Machine) : TokenTable where
  machine := machine
  keywords := machine.keywords
  text_ne_nil := machine.keywords_text_ne_nil
  texts_nodup := machine.keywords_texts_nodup
  values_nodup := machine.keywords_values_nodup

end Machine
end ColorBasic
