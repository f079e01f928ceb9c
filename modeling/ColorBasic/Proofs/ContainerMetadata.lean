import ColorBasic.Proofs.ContainerFormat
import ColorBasic.Proofs.HexNumerals
import ColorBasic.Proofs.JsonText

/-!
# Containers described in JSON text

The JSON text of a container holds all of it.  It is JSON whatever its layout, the members of its
value are the fields of the header and the payload, and each of them can be read back.
-/

namespace ColorBasic.Container

/-- The JSON value that describes a container. -/
def description (container : Container) : Json :=
  let header := container.header
  .object
    [("dragondos".toList,
      .object
        [("file_type".toList, .string (Text.upperHex 2 header.fileType.toNat)),
         ("file_type_name".toList, .string container.typeName),
         ("load_address".toList, .string (Text.upperHex 4 header.load.toNat)),
         ("length".toList, .number (some header.length.toNat)),
         ("exec_address".toList, .string (Text.upperHex 4 header.exec.toNat))]),
     ("data".toList, .string (Text.hexDump container.data))]

section Text

open Json

theorem plain_upperHex (width n : Nat) : Symbol.Plain (Text.upperHex width n) := by
  have hdigit : ∀ d < 16, (Nat.digitChar d).toUpper ≠ '"' ∧ (Nat.digitChar d).toUpper ≠ '\\' ∧
      0x20 ≤ (Nat.digitChar d).toUpper.toNat := by decide
  intro c hc
  obtain ⟨lower, hlower, rfl⟩ := List.mem_map.1 hc
  obtain ⟨d, hd, rfl⟩ := Text.exists_digit_of_mem_lowerHex hlower
  exact hdigit d hd

theorem plain_hexDump (bytes : Bytes) : Symbol.Plain (Text.hexDump bytes) := by
  intro c hc
  obtain ⟨b, -, hb⟩ := List.mem_flatMap.1 hc
  exact plain_upperHex 2 b.toNat c hb

theorem plain_typeName (container : Container) : Symbol.Plain container.typeName := by
  unfold typeName
  split <;> exact Symbol.plain_of_all (by decide)

theorem textWritten {depth : Nat} {name value : Text} (hname : Symbol.Plain name)
    (hvalue : Symbol.Plain value) :
    Reading.MemberWritten depth (name, jsonText value) (name, .string value) :=
  .intro hname (Reading.written_jsonText depth hvalue)

/-- The text of a container is JSON for its description, with any layout. -/
theorem parse?_toJson (indent : Option Nat) (container : Container) :
    Json.parse? (container.toJson indent) = some container.description := by
  have hwritten : Reading.Written 2 (container.toJson indent) container.description := by
    refine Reading.written_jsonObject indent 0 (.cons (.intro ?_ ?_) (.cons ?_ .nil))
      (List.cons_ne_nil _ _)
    · exact Symbol.plain_of_all (by decide)
    · refine Reading.written_jsonObject indent 1
        (.cons ?_ (.cons ?_ (.cons ?_ (.cons ?_ (.cons ?_ .nil))))) (List.cons_ne_nil _ _)
      · exact textWritten (Symbol.plain_of_all (by decide)) (plain_upperHex _ _)
      · exact textWritten (Symbol.plain_of_all (by decide)) (plain_typeName container)
      · exact textWritten (Symbol.plain_of_all (by decide)) (plain_upperHex _ _)
      · exact .intro (Symbol.plain_of_all (by decide))
          (Reading.written_decimal 0 container.header.length.toNat_lt)
      · exact textWritten (Symbol.plain_of_all (by decide)) (plain_upperHex _ _)
    · exact textWritten (Symbol.plain_of_all (by decide)) (plain_hexDump container.data)
  exact parse?_of_written hwritten (by decide)

end Text

section Reading

/-- The word that a member holds as a hexadecimal numeral. -/
def hexMember? (json : Json) (name : Text) : Option UInt16 :=
  ((json.get? name).bind Json.text?).bind (Text.readWord? 16)

/-- The container that a JSON value describes. -/
def ofDescription? (json : Json) : Option Container := do
  let header ← json.get? "dragondos".toList
  let fileType ← hexMember? header "file_type".toList
  let load ← hexMember? header "load_address".toList
  let length ← (header.get? "length".toList).bind Json.word?
  let exec ← hexMember? header "exec_address".toList
  let digits ← (json.get? "data".toList).bind Json.text?
  let data ← Text.readBytes? digits
  return ⟨⟨fileType.toUInt8, load, length, exec, tailMark⟩, data⟩

/-- The container that a JSON text describes. -/
def ofJson? (s : Text) : Option Container := (Json.parse? s).bind ofDescription?

theorem ofDescription?_description {container : Container} (h : container.Consistent) :
    ofDescription? container.description = some container := by
  obtain ⟨⟨fileType, load, length, exec, tail⟩, data⟩ := container
  obtain rfl : tail = tailMark := h.tail_eq
  have hbyte : Text.readWord? 16 (Text.upperHex 2 fileType.toNat) =
      some (UInt16.ofNat fileType.toNat) :=
    Text.readWord?_upperHex (by decide) fileType.toNat_lt
      (fileType.toNat_lt.trans (by decide))
  have hword (w : UInt16) : Text.readWord? 16 (Text.upperHex 4 w.toNat) = some w := by
    rw [Text.readWord?_upperHex (by decide) w.toNat_lt w.toNat_lt, UInt16.ofNat_toNat]
  have hlength : Json.word? (.number (some length.toNat)) = some length := by
    rw [Json.word?, if_pos length.toNat_lt, UInt16.ofNat_toNat]
  change (do
    let fileType ← Text.readWord? 16 (Text.upperHex 2 fileType.toNat)
    let load ← Text.readWord? 16 (Text.upperHex 4 load.toNat)
    let length ← Json.word? (.number (some length.toNat))
    let exec ← Text.readWord? 16 (Text.upperHex 4 exec.toNat)
    let data ← Text.readBytes? (Text.hexDump data)
    return (⟨⟨fileType.toUInt8, load, length, exec, tailMark⟩, data⟩ : Container)) = _
  rw [hbyte, hword, hlength, hword, Text.readBytes?_hexDump]
  simp

theorem Consistent.ofJson?_toJson {container : Container} (h : container.Consistent)
    (indent : Option Nat) : ofJson? (container.toJson indent) = some container := by
  rw [ofJson?, parse?_toJson, Option.bind_some, ofDescription?_description h]

end Reading

/-- The JSON text of a container is faithful: the container is read back from it, and two containers
with the same text, with any one layout, are the same file. -/
theorem toJson_faithful {first second : Bytes} {container other : Container}
    (hfirst : ofBytes first = .ok container) (hsecond : ofBytes second = .ok other)
    (indent : Option Nat) :
    ofJson? (container.toJson indent) = some container ∧
      (container.toJson indent = other.toJson indent → container.toBytes = other.toBytes) := by
  have hread := (ofBytes_eq_ok_iff.1 hfirst).1.ofJson?_toJson indent
  refine ⟨hread, fun h => ?_⟩
  rw [h, (ofBytes_eq_ok_iff.1 hsecond).1.ofJson?_toJson indent] at hread
  rw [Option.some.inj hread]

/-- A file of a kind that has no name, with a payload of one byte. -/
def namelessFile (kind : UInt8) : Container := ⟨⟨kind, 0x2601, 1, 0xFFFF, tailMark⟩, [0x0A]⟩

theorem toJson_faithful_nameless :
    ofBytes ((namelessFile 0x03).toBytes ++ [0x55]) = .ok (namelessFile 0x03) ∧
      ofBytes (namelessFile 0xFF).toBytes = .ok (namelessFile 0xFF) ∧
      (namelessFile 0x03).typeName = (namelessFile 0xFF).typeName ∧
      ofJson? ((namelessFile 0x03).toJson (some 2)) = some (namelessFile 0x03) ∧
      (namelessFile 0x03).toJson (some 2) ≠ (namelessFile 0xFF).toJson (some 2) := by
  have hfirst : ofBytes ((namelessFile 0x03).toBytes ++ [0x55]) = .ok (namelessFile 0x03) := rfl
  have hsecond : ofBytes (namelessFile 0xFF).toBytes = .ok (namelessFile 0xFF) := rfl
  obtain ⟨hread, hinjective⟩ := toJson_faithful hfirst hsecond (some 2)
  exact ⟨hfirst, hsecond, rfl, hread, fun h => absurd (hinjective h) (by decide)⟩

end ColorBasic.Container
