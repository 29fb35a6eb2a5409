import Carquet.Thrift.Lists
import Carquet.Writer.PageFinalize

/-!
# The page index in the file

* `ColumnIndexBuilder.addPage`, `OffsetIndexBuilder.addPage` — `carquet_column_index_add_page` and
  `carquet_offset_index_add_page` (metadata/page_index.c:199-245, 405-430).
* `columnIndexSerialize`, `offsetIndexSerialize` — page_index.c:440-546.
* `columnIndexParse`, `offsetIndexParse` — page_index.c:651-865. Where these return a null pointer the
  result is `none`.

A builder's parallel arrays grow together, by one entry a page; here they are one list of entries.
-/

namespace Carquet

/-! ## Building -/

/-- One entry of the arrays of `carquet_column_index_builder` (page_index.c:77-92). -/
structure ColumnIndexEntry where
  nullCount : Int64
  minValue : Option StatBytes
  maxValue : Option StatBytes
  nullPage : Bool

/-- `carquet_column_index_builder`, as far as it is serialized. -/
structure ColumnIndexBuilder where
  pages : List ColumnIndexEntry
  boundaryOrder : Int32

/-- `carquet_column_index_builder_create` (page_index.c:97-127). -/
def ColumnIndexBuilder.create : ColumnIndexBuilder := ⟨[], 0⟩

/-- A copy of a bound, made where there is one and it is not empty. -/
def copyBound (bound : Option StatBytes) : Option StatBytes := bound.filter fun v => 0 < v.1.length

/-- The arguments of `carquet_column_index_add_page`; a null pointer is `none`. -/
structure ColumnPageArgs where
  nullCount : Int64
  minValue : Option StatBytes
  maxValue : Option StatBytes
  isNullPage : Bool

/-- `carquet_column_index_add_page` (page_index.c:199-245). -/
def ColumnIndexBuilder.addPage (b : ColumnIndexBuilder) (a : ColumnPageArgs) : ColumnIndexBuilder :=
  { b with pages := b.pages ++
      [⟨a.nullCount, copyBound a.minValue, copyBound a.maxValue, a.isNullPage⟩] }

/-- `carquet_column_index_set_boundary_order` (page_index.c:250-257). -/
def ColumnIndexBuilder.setBoundaryOrder (b : ColumnIndexBuilder) (order : Int32) :
    ColumnIndexBuilder := { b with boundaryOrder := order }

/-- The arguments of `carquet_offset_index_add_page`, and one entry of the builder's arrays
(page_index.c:313-322). -/
structure OffsetIndexEntry where
  offset : Int64
  compressedSize : Int32
  firstRowIndex : Int64
  uncompressedSize : Int32

/-- `carquet_offset_index_builder`. The uncompressed sizes are allocated where they are tracked. -/
structure OffsetIndexBuilder where
  pages : List OffsetIndexEntry
  trackUncompressed : Bool

/-- `carquet_offset_index_builder_create` (page_index.c:327-353). -/
def OffsetIndexBuilder.create (trackUncompressed : Bool) : OffsetIndexBuilder := ⟨[], trackUncompressed⟩

/-- `carquet_offset_index_add_page` (page_index.c:405-430). -/
def OffsetIndexBuilder.addPage (b : OffsetIndexBuilder) (a : OffsetIndexEntry) : OffsetIndexBuilder :=
  { b with pages := b.pages ++ [a] }

/-! ## Serializing -/

/-- The bytes behind a bound's pointer. -/
def boundBytes (bound : Option StatBytes) : Bytes := (bound.map Subtype.val).getD []

/-- `carquet_column_index_serialize` (page_index.c:440-492). -/
def columnIndexSerialize (b : ColumnIndexBuilder) : Encoder :=
  let e := Encoder.init.writeStructBegin
  let e := (e.writeFieldHeader .list 1).writeListBegin .boolTrue b.pages.length
  let e := b.pages.foldl (fun e p => e.writeBool p.nullPage) e
  let e := (e.writeFieldHeader .list 2).writeListBegin .binary b.pages.length
  let e := b.pages.foldl (fun e p => e.writeBinary (boundBytes p.minValue)) e
  let e := (e.writeFieldHeader .list 3).writeListBegin .binary b.pages.length
  let e := b.pages.foldl (fun e p => e.writeBinary (boundBytes p.maxValue)) e
  let e := (e.writeFieldHeader .i32 4).writeInt b.boundaryOrder.toInt
  let e := (e.writeFieldHeader .list 5).writeListBegin .i64 b.pages.length
  let e := b.pages.foldl (fun e p => e.writeInt p.nullCount.toInt) e
  e.writeStructEnd

/-- One `PageLocation` (page_index.c:517-531). -/
def writePageLocation (e : Encoder) (p : OffsetIndexEntry) : Encoder :=
  let e := e.writeStructBegin
  let e := (e.writeFieldHeader .i64 1).writeInt p.offset.toInt
  let e := (e.writeFieldHeader .i32 2).writeInt p.compressedSize.toInt
  let e := (e.writeFieldHeader .i64 3).writeInt p.firstRowIndex.toInt
  e.writeStructEnd

/-- `carquet_offset_index_serialize` (page_index.c:497-546). -/
def offsetIndexSerialize (b : OffsetIndexBuilder) : Encoder :=
  let e := Encoder.init.writeStructBegin
  let e := (e.writeFieldHeader .list 1).writeListBegin .struct b.pages.length
  let e := b.pages.foldl writePageLocation e
  let e :=
    if b.trackUncompressed then
      b.pages.foldl (fun e p => e.writeInt p.uncompressedSize.toInt)
        ((e.writeFieldHeader .list 2).writeListBegin .i32 b.pages.length)
    else e
  e.writeStructEnd

/-! ## Parsing -/

/-- The bound on a count (page_index.c:671). -/
def maxIndexCount : Nat := 1000000

/-- `struct carquet_column_index` (page_index.c:29-49): an array is there once its field was read, and
its length is the array's `num_` member. -/
structure ParsedColumnIndex where
  numPages : Nat
  nullCounts : Option (List Int)
  minValues : Option (List (Option Bytes))
  maxValues : Option (List (Option Bytes))
  nullPages : Option (List Bool)
  boundaryOrder : Int
  deriving DecidableEq, Repr

def ParsedColumnIndex.zero : ParsedColumnIndex := ⟨0, none, none, none, none, 0⟩

/-- `thrift_read_binary` and the copy made of data that is not empty (page_index.c:692-703). -/
def readBound (d : Decoder) : Option (Option Bytes × Decoder) :=
  some (d.readBinary.1.filter fun v => 0 < v.length, d.readBinary.2)

/-- A field of `ColumnIndex` (page_index.c:666-764). -/
def columnIndexField (id : Int) (type : ThriftType) (ci : ParsedColumnIndex) (d : Decoder) :
    Option (ParsedColumnIndex × Decoder) :=
  match id with
  | 1 => (d.readList maxIndexCount fun d => some d.readBool).map
      fun r => ({ ci with numPages := r.1.length, nullPages := some r.1 }, r.2)
  | 2 => (d.readList maxIndexCount readBound).map fun r => ({ ci with minValues := some r.1 }, r.2)
  | 3 => (d.readList maxIndexCount readBound).map fun r => ({ ci with maxValues := some r.1 }, r.2)
  | 4 => storing (fun v => { ci with boundaryOrder := v }) d.readI32
  | 5 => (d.readList maxIndexCount fun d => some d.readI64).map
      fun r => ({ ci with nullCounts := some r.1 }, r.2)
  | _ => skipping ci type d

/-- `if (array && num_array < num_pages) num_pages = num_array`. -/
def clampTo {α : Type} (array : Option (List α)) (numPages : Nat) : Nat :=
  match array with
  | none => numPages
  | some l => if l.length < numPages then l.length else numPages

/-- The number of pages that every array has (page_index.c:777-788). -/
def ParsedColumnIndex.clamp (ci : ParsedColumnIndex) : ParsedColumnIndex :=
  { ci with
    numPages := clampTo ci.nullCounts (clampTo ci.maxValues (clampTo ci.minValues
      (clampTo ci.nullPages ci.numPages))) }

/-- `carquet_column_index_parse` (page_index.c:651-791). -/
def columnIndexParse (data : Bytes) : Option ParsedColumnIndex :=
  if data = [] then none
  else
    match (Decoder.init data).readStruct columnIndexField .zero with
    | none => none
    | some (ci, d) => if d.status ≠ .ok then none else some ci.clamp

/-- `carquet_page_location_t`, as `carquet_offset_index_parse` fills it. -/
structure ParsedPageLocation where
  offset : Int
  compressedSize : Int
  firstRowIndex : Int
  deriving DecidableEq, Repr

/-- A field of `PageLocation` (page_index.c:828-843). -/
def pageLocationField (id : Int) (type : ThriftType) (l : ParsedPageLocation) (d : Decoder) :
    Option (ParsedPageLocation × Decoder) :=
  match id with
  | 1 => storing (fun v => { l with offset := v }) d.readI64
  | 2 => storing (fun v => { l with compressedSize := v }) d.readI32
  | 3 => storing (fun v => { l with firstRowIndex := v }) d.readI64
  | _ => skipping l type d

/-- A field of `OffsetIndex` (page_index.c:809-853); the state is `page_locations`, whose length is
`num_pages`. -/
def offsetIndexField (id : Int) (type : ThriftType) (locations : List ParsedPageLocation)
    (d : Decoder) : Option (List ParsedPageLocation × Decoder) :=
  match id with
  | 1 => d.readList maxIndexCount fun d => d.readStruct pageLocationField ⟨0, 0, 0⟩
  | _ => skipping locations type d

/-- `carquet_offset_index_parse` (page_index.c:808-865). -/
def offsetIndexParse (data : Bytes) : Option (List ParsedPageLocation) :=
  if data = [] then none
  else
    match (Decoder.init data).readStruct offsetIndexField [] with
    | none => none
    | some (locations, d) => if d.status ≠ .ok then none else some locations

end Carquet
