import ColorBasic.Dump

/-!
# Annotated dumps

The annotated form of a dump shows every record with its addresses and the breakdown of its code.

Only a dump that ends with its end mark can be annotated.
-/

namespace ColorBasic.Dump

/-- The annotation of one record at the given address. -/
def annotateRecord (table : TokenTable) (address : UInt16) (record : Record) : List Text :=
  ['$' :: Text.lowerHex 4 record.next.toNat ++ " -> next address (length: ".toList ++
      Text.decimal (record.next.toNat - address.toNat) ++ [')'],
   '$' :: Text.lowerHex 4 record.number.toNat ++ " -> ".toList ++
      Text.decimal record.number.toNat ++ " (line number)".toList,
   "tokens:".toList] ++ table.breakdown record.tokens

/-- The annotations of consecutive records from the given address on. -/
def annotateRecords (table : TokenTable) (address : UInt16) : List Record → List Text
  | [] => []
  | record :: records =>
    annotateRecord table address record ++ annotateRecords table record.next records

/-- The annotated form of a dump loaded at the given address. -/
def annotate (table : TokenTable) (dump : Bytes) (start : UInt16) : Except Error (List Text) :=
  let found := survey dump start
  match found.fault with
  | some error => .error error
  | none =>
    if found.final.foundEnd then
      .ok (("program start address: $".toList ++ Text.lowerHex 4 start.toNat) ::
        annotateRecords table start found.records ++ ["$0000 -> end address".toList])
    else .error (.truncated found.final.offset)

/-- The reports about annotating a dump, which include those on records before a fault. -/
def annotateReports (table : TokenTable) (dump : Bytes) (start : UInt16) : List Diagnostic :=
  (survey dump start).records.flatMap fun record => table.detokenizeReports record.tokens

end ColorBasic.Dump
