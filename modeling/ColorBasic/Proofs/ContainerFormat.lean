import ColorBasic.Container
import ColorBasic.Proofs.TokenCoding

/-!
# The container format

Reading a container takes the header apart into the fields that it was made of, and the payload up
to the length that the header declares.  Exactly the bytes that begin with a consistent container
are read, and a container that is cut short is refused with the length that is left.
-/

namespace ColorBasic.Container

/-- The header tells the truth: its last byte is the mark and it declares the length of the data. -/
structure Consistent (container : Container) : Prop where
  tail_eq : container.header.tail = tailMark
  length_eq : container.data.length = container.header.length.toNat

/-- Packing takes any payload whose length a word holds. -/
theorem pack_eq_ok_iff {fileType : FileType} {load exec : UInt16} {data : Bytes}
    {container : Container} :
    pack fileType load exec data = .ok container ↔
      data.length < UInt16.size ∧
        container =
          ⟨⟨fileType.code, load, UInt16.ofNat data.length, exec, tailMark⟩, data⟩ := by
  unfold pack
  by_cases hsize : data.length < UInt16.size
  · rw [if_pos hsize]
    constructor
    · intro h
      exact ⟨hsize, (Except.ok.inj h).symm⟩
    · rintro ⟨-, rfl⟩
      rfl
  · rw [if_neg hsize]
    simp [hsize]

theorem consistent_of_pack {fileType : FileType} {load exec : UInt16} {data : Bytes}
    {container : Container} (h : pack fileType load exec data = .ok container) :
    container.Consistent := by
  obtain ⟨hsize, rfl⟩ := pack_eq_ok_iff.1 h
  exact ⟨rfl, (UInt16.toNat_ofNat_of_lt' hsize).symm⟩

/-- The fields of a header are read back from its bytes. -/
theorem ofBytes_headerBytes_append (header : Header) (rest : Bytes) :
    ofBytes (headerBytes header ++ rest) = withPayload header rest := by
  simp only [headerBytes, wordBytes, List.cons_append, List.nil_append, ofBytes,
    wordOfBytes_wordBytes, ne_eq, not_true_eq_false, if_false]

/-- The payload is taken exactly if the header ends with its mark and enough bytes follow it. -/
theorem withPayload_eq_ok_iff {header : Header} {rest : Bytes} {container : Container} :
    withPayload header rest = .ok container ↔
      container.Consistent ∧ container.header = header ∧ container.data <+: rest := by
  unfold withPayload
  dsimp only
  constructor
  · intro h
    split at h
    · cases h
    · rename_i htail
      split at h
      · cases h
      · rename_i hlong
        obtain rfl := Except.ok.inj h
        have hlength : (rest.take header.length.toNat).length = header.length.toNat := by
          rw [List.length_take] at hlong ⊢
          omega
        exact ⟨⟨not_not.1 htail, hlength⟩, rfl, List.take_prefix _ _⟩
  · rintro ⟨hconsistent, rfl, more, rfl⟩
    have htake : (container.data ++ more).take container.header.length.toNat = container.data :=
      List.take_left' hconsistent.length_eq
    rw [htake, if_neg (by simp [hconsistent.tail_eq]), if_neg (by simp [hconsistent.length_eq])]

/-- What can be read begins with a header. -/
theorem exists_header_of_ofBytes {bytes : Bytes} {container : Container}
    (h : ofBytes bytes = .ok container) :
    ∃ header rest, bytes = headerBytes header ++ rest ∧ withPayload header rest = .ok container := by
  unfold ofBytes at h
  split at h
  · split at h
    · cases h
    · rename_i head fileType load₁ load₀ length₁ length₀ exec₁ exec₀ tail rest hhead
      refine ⟨_, rest, ?_, h⟩
      rw [ne_eq, not_not] at hhead
      simp [headerBytes, hhead]
  · cases h

/-- Reading accepts exactly the bytes that begin with a consistent container, and gives it. -/
theorem ofBytes_eq_ok_iff {bytes : Bytes} {container : Container} :
    ofBytes bytes = .ok container ↔ container.Consistent ∧ container.toBytes <+: bytes := by
  constructor
  · intro h
    obtain ⟨header, rest, rfl, hpayload⟩ := exists_header_of_ofBytes h
    obtain ⟨hconsistent, rfl, hdata⟩ := withPayload_eq_ok_iff.1 hpayload
    exact ⟨hconsistent, (List.prefix_append_right_inj _).2 hdata⟩
  · rintro ⟨hconsistent, more, rfl⟩
    rw [toBytes, List.append_assoc, ofBytes_headerBytes_append]
    exact withPayload_eq_ok_iff.2 ⟨hconsistent, rfl, List.prefix_append _ _⟩

/-- A consistent container is read back, whatever follows its bytes. -/
theorem Consistent.ofBytes_toBytes_append {container : Container} (h : container.Consistent)
    (rest : Bytes) : ofBytes (container.toBytes ++ rest) = .ok container :=
  ofBytes_eq_ok_iff.2 ⟨h, List.prefix_append _ _⟩

/-- Telling the format by the first byte refuses nothing that can be read. -/
theorem load_eq_ok_iff {bytes : Bytes} {container : Container} :
    Container.load bytes = .ok container ↔ ofBytes bytes = .ok container := by
  constructor
  · intro h
    unfold Container.load at h
    split at h
    · cases h
    · split at h
      · exact h
      · split at h <;> cases h
  · intro h
    obtain ⟨-, more, rfl⟩ := ofBytes_eq_ok_iff.1 h
    show (if headMark = headMark then ofBytes (container.toBytes ++ more)
      else if headMark = 0x00 then .error (.unsupportedFormat diskFormat)
      else .error (.unknownFormat headMark)) = .ok container
    rw [if_pos rfl, h]

theorem Consistent.load_toBytes {container : Container} (h : container.Consistent) :
    Container.load container.toBytes = .ok container := by
  have hread := h.ofBytes_toBytes_append []
  rw [List.append_nil] at hread
  exact load_eq_ok_iff.2 hread

section Cutting

@[simp] theorem length_headerBytes (header : Header) :
    (headerBytes header).length = headerSize := by
  simp [headerBytes, headerSize]

theorem ofBytes_of_length_lt {bytes : Bytes} (h : bytes.length < headerSize) :
    ofBytes bytes = .error (.lengthMismatch headerSize bytes.length) := by
  unfold ofBytes
  split
  · simp only [List.length_cons, headerSize] at h
    omega
  · rfl

/-- The error for a file that is cut off, in its header or in its payload. -/
def cutError (header : Header) (size : Nat) : ContainerError :=
  if size < headerSize then .lengthMismatch headerSize size
  else .lengthMismatch header.length.toNat (size - headerSize)

/-- A file that is cut off anywhere is too short for its header or for the length it declares. -/
theorem Consistent.ofBytes_of_cut {container : Container} (h : container.Consistent) {part : Bytes}
    (hpart : part <+: container.toBytes) (hcut : part ≠ container.toBytes) :
    ofBytes part = .error (cutError container.header part.length) := by
  unfold cutError
  split
  · rename_i hshort
    exact ofBytes_of_length_lt hshort
  · rename_i hlong
    have hheader : headerBytes container.header <+: part := by
      refine List.prefix_of_prefix_length_le (List.prefix_append _ _) hpart ?_
      rw [length_headerBytes]
      omega
    obtain ⟨rest, rfl⟩ := hheader
    have hrest : rest <+: container.data := (List.prefix_append_right_inj _).1 hpart
    have hmissing : rest.length < container.data.length := by
      refine lt_of_le_of_ne hrest.length_le fun hlength => hcut ?_
      rw [hrest.eq_of_length hlength, toBytes]
    rw [ofBytes_headerBytes_append, withPayload]
    rw [h.length_eq] at hmissing
    rw [List.take_of_length_le hmissing.le, if_neg (by simp [h.tail_eq]), if_pos hmissing,
      List.length_append, length_headerBytes, Nat.add_sub_cancel_left]

end Cutting

/-- Files are decoded exactly.  What is read is what the bytes begin with, and looking at the first
byte for the format changes nothing.  Every payload that a word can count is packed and read back,
whatever follows it, and a file that is cut off anywhere is too short. -/
theorem container_decoded_exactly :
    (∀ bytes container, ofBytes bytes = .ok container ↔
        container.Consistent ∧ container.toBytes <+: bytes) ∧
      (∀ bytes container, Container.load bytes = .ok container ↔ ofBytes bytes = .ok container) ∧
      (∀ fileType load exec data,
        ((∃ container, pack fileType load exec data = .ok container) ↔ data.length ≤ 65535) ∧
          ∀ container, pack fileType load exec data = .ok container →
            container = ⟨⟨fileType.code, load, UInt16.ofNat data.length, exec, tailMark⟩, data⟩ ∧
              ∀ trailing, ofBytes (container.toBytes ++ trailing) = .ok container) ∧
      ∀ container : Container, container.Consistent →
        ∀ part, part <+: container.toBytes → part ≠ container.toBytes →
          ofBytes part = .error (cutError container.header part.length) := by
  refine ⟨fun bytes container => ofBytes_eq_ok_iff, fun bytes container => load_eq_ok_iff, ?_,
    fun container h part => h.ofBytes_of_cut⟩
  intro fileType load exec data
  refine ⟨?_, fun container hpack => ?_⟩
  · simp only [pack_eq_ok_iff, exists_and_left, exists_eq, and_true]
    exact Nat.lt_succ_iff
  · exact ⟨(pack_eq_ok_iff.1 hpack).2, (consistent_of_pack hpack).ofBytes_toBytes_append⟩

/-- The dump of a program of one line, packed with an exec address of its own. -/
def packedPrint : Container :=
  ⟨⟨0x01, 0x1234, 8, 0x5678, tailMark⟩, [0x12, 0x3A, 0x00, 0x0A, 0x87, 0x00, 0x00, 0x00]⟩

theorem container_decoded_exactly_packedPrint :
    pack .basic 0x1234 0x5678 packedPrint.data = .ok packedPrint ∧
      ofBytes (packedPrint.toBytes ++ [0x00, 0x55]) = .ok packedPrint ∧
      ofBytes (packedPrint.toBytes.take 5) = .error (.lengthMismatch 9 5) ∧
      ofBytes (packedPrint.toBytes.take 12) = .error (.lengthMismatch 8 3) := by
  obtain ⟨hread, -, hpacked, hcut⟩ := container_decoded_exactly
  have hpack : pack .basic 0x1234 0x5678 packedPrint.data = .ok packedPrint := rfl
  have htrailing := ((hpacked .basic 0x1234 0x5678 packedPrint.data).2 _ hpack).2 [0x00, 0x55]
  have hconsistent := ((hread _ _).1 htrailing).1
  refine ⟨hpack, htrailing, ?_, ?_⟩
  · exact hcut packedPrint hconsistent _ (List.take_prefix 5 _) (by decide)
  · exact hcut packedPrint hconsistent _ (List.take_prefix 12 _) (by decide)

end ColorBasic.Container
