import Carquet.Thrift.Fields
import Carquet.Thrift.SkipReads

/-!
# Page headers

`parquet_parse_page_header` (parquet_types.c:917-1075). The three headers of which a page has one
share their memory in C; here each has its own place. Statistics are skipped, not read.
-/

namespace Carquet

/-- `parquet_data_page_header_t` (parquet_types.h:347-363) as it is parsed. -/
structure ParsedDataPageHeader where
  numValues : Int
  encoding : Int
  definitionLevelEncoding : Int
  repetitionLevelEncoding : Int
  hasStatistics : Bool
  deriving DecidableEq, Repr

/-- `parquet_data_page_header_v2_t` (parquet_types.h:365-390) as it is parsed. -/
structure ParsedDataPageHeaderV2 where
  numValues : Int
  numNulls : Int
  numRows : Int
  encoding : Int
  definitionLevelsByteLength : Int
  repetitionLevelsByteLength : Int
  isCompressed : Bool
  hasStatistics : Bool
  deriving DecidableEq, Repr

/-- `parquet_dictionary_page_header_t` (parquet_types.h:392-401). -/
structure ParsedDictionaryPageHeader where
  numValues : Int
  encoding : Int
  isSorted : Bool
  deriving DecidableEq, Repr

/-- `parquet_page_header_t` (parquet_types.h:403-426). -/
structure ParsedPageHeader where
  type : Int
  uncompressedPageSize : Int
  compressedPageSize : Int
  hasCrc : Bool
  crc : Int
  dataPageHeader : ParsedDataPageHeader
  dataPageHeaderV2 : ParsedDataPageHeaderV2
  dictionaryPageHeader : ParsedDictionaryPageHeader
  deriving DecidableEq, Repr

/-- `memset(header, 0, sizeof(*header))`. -/
def ParsedPageHeader.zero : ParsedPageHeader :=
  ⟨0, 0, 0, false, 0, ⟨0, 0, 0, 0, false⟩, ⟨0, 0, 0, 0, 0, 0, false, false⟩, ⟨0, 0, false⟩⟩

/-- A field of `DataPageHeader` (parquet_types.c:968-991). -/
def dataPageHeaderField (id : Int) (type : ThriftType) (h : ParsedDataPageHeader) (d : Decoder) :
    Option (ParsedDataPageHeader × Decoder) :=
  match id with
  | 1 => storing (fun v => { h with numValues := v }) d.readI32
  | 2 => storing (fun v => { h with encoding := v }) d.readI32
  | 3 => storing (fun v => { h with definitionLevelEncoding := v }) d.readI32
  | 4 => storing (fun v => { h with repetitionLevelEncoding := v }) d.readI32
  | 5 => skipping { h with hasStatistics := true } type d
  | _ => skipping h type d

/-- A field of `DictionaryPageHeader` (parquet_types.c:999-1014). -/
def dictionaryPageHeaderField (id : Int) (type : ThriftType) (h : ParsedDictionaryPageHeader)
    (d : Decoder) : Option (ParsedDictionaryPageHeader × Decoder) :=
  match id with
  | 1 => storing (fun v => { h with numValues := v }) d.readI32
  | 2 => storing (fun v => { h with encoding := v }) d.readI32
  | 3 => storing (fun v => { h with isSorted := v }) d.readBool
  | _ => skipping h type d

/-- A field of `DataPageHeaderV2` (parquet_types.c:1023-1055). -/
def dataPageHeaderV2Field (id : Int) (type : ThriftType) (h : ParsedDataPageHeaderV2)
    (d : Decoder) : Option (ParsedDataPageHeaderV2 × Decoder) :=
  match id with
  | 1 => storing (fun v => { h with numValues := v }) d.readI32
  | 2 => storing (fun v => { h with numNulls := v }) d.readI32
  | 3 => storing (fun v => { h with numRows := v }) d.readI32
  | 4 => storing (fun v => { h with encoding := v }) d.readI32
  | 5 => storing (fun v => { h with definitionLevelsByteLength := v }) d.readI32
  | 6 => storing (fun v => { h with repetitionLevelsByteLength := v }) d.readI32
  | 7 => storing (fun v => { h with isCompressed := v }) d.readBool
  | 8 => skipping { h with hasStatistics := true } type d
  | _ => skipping h type d

/-- A field of `PageHeader` (parquet_types.c:940-1063). -/
def pageHeaderField (id : Int) (type : ThriftType) (h : ParsedPageHeader) (d : Decoder) :
    Option (ParsedPageHeader × Decoder) :=
  if d.status ≠ .ok then some (h, d)
  else
    match id with
    | 1 => storing (fun v => { h with type := v }) d.readI32
    | 2 => storing (fun v => { h with uncompressedPageSize := v }) d.readI32
    | 3 => storing (fun v => { h with compressedPageSize := v }) d.readI32
    | 4 => storing (fun v => { h with hasCrc := true, crc := v }) d.readI32
    | 5 => (d.readStruct dataPageHeaderField h.dataPageHeader).map
        fun r => ({ h with dataPageHeader := r.1 }, r.2)
    | 7 => (d.readStruct dictionaryPageHeaderField h.dictionaryPageHeader).map
        fun r => ({ h with dictionaryPageHeader := r.1 }, r.2)
    | 8 => (d.readStruct dataPageHeaderV2Field { h.dataPageHeaderV2 with isCompressed := true }).map
        fun r => ({ h with dataPageHeaderV2 := r.1 }, r.2)
    | _ => skipping h type d

/-- `parquet_parse_page_header` (parquet_types.c:917-1075): the header and `bytes_read`. -/
def parsePageHeader (data : Bytes) : Except Status (ParsedPageHeader × Nat) :=
  match (Decoder.init data).readStruct pageHeaderField .zero with
  | none => .error .internal
  | some (h, d) =>
    if d.status ≠ .ok then .error d.status else .ok (h, data.length - d.rest.length)

end Carquet
