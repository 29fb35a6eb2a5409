import Carquet.Core.Float
import Carquet.Lib.Access
import Carquet.Thrift.ParquetTypes

/-!
# Geospatial statistics

`src/core/geo_wkb.c`: a walker over well-known binary that folds the coordinates and the type codes
of the geometries of a column into a bounding box and a list of codes.

* `geoStatsInit`, `geoStatsAddWkb`, `geoStatsMerge` — the functions of those names.
* `walk` — the walker. It is written over whatever it hands codes and coordinates to (`GeoSink`),
  in the code the statistics (`statsSink`).

A byte outside the value cannot be read, it is the fault `outside`. `size_t` does not overflow: an
offset lies in an object.
-/

open Access

namespace Carquet

open LittleEndian
open Parquet (GeospatialStatistics Double geoMaxTypes)

/-! ## Numbers -/

/-- The pattern of a `double`. -/
def Parquet.Double.bits (d : Double) : Nat := leNat d.val

/-- `isfinite`: in front of the pattern of infinity. -/
def Parquet.Double.isFinite (d : Double) : Bool :=
  FloatFormat.double.magnitude d.bits < (2 ^ 11 - 1) * 2 ^ 52

/-- `a < b`. -/
def Parquet.Double.lt (a b : Double) : Bool := FloatFormat.double.lt a.bits b.bits

/-! ## The accumulator -/

/-- `carquet_geo_stats_init` (geo_wkb.c:10-12). -/
def geoStatsInit : GeospatialStatistics := .zero

/-- `add_type` (geo_wkb.c:14-21). -/
def addType (s : GeospatialStatistics) (code : Int32) : GeospatialStatistics :=
  if code ∈ s.types.take s.numTypes then s
  else if s.numTypes < geoMaxTypes then
    { s with types := s.types ++ [code], numTypes := s.numTypes + 1 }
  else s

/-- What `add_coord` is given. -/
structure Position where
  x : Double
  y : Double
  hasZ : Bool
  z : Double
  hasM : Bool
  m : Double
  deriving DecidableEq, Repr

/-- `if (v < min) min = v;`. -/
def lower (min v : Double) : Double := if v.lt min then v else min

/-- `if (v > max) max = v;`. -/
def raise (max v : Double) : Double := if max.lt v then v else max

/-- The x and y ranges take in further ones (geo_wkb.c:27-36, 156-166). -/
def stretchXy (s : GeospatialStatistics) (xmin xmax ymin ymax : Double) : GeospatialStatistics :=
  if !s.valid then { s with xmin := xmin, xmax := xmax, ymin := ymin, ymax := ymax, valid := true }
  else
    { s with
      xmin := lower s.xmin xmin
      xmax := raise s.xmax xmax
      ymin := lower s.ymin ymin
      ymax := raise s.ymax ymax }

/-- The z range takes in a further one (geo_wkb.c:37-40, 167-171). -/
def stretchZ (s : GeospatialStatistics) (zmin zmax : Double) : GeospatialStatistics :=
  if !s.hasZ then { s with zmin := zmin, zmax := zmax, hasZ := true }
  else { s with zmin := lower s.zmin zmin, zmax := raise s.zmax zmax }

/-- The m range takes in a further one (geo_wkb.c:41-44, 172-176). -/
def stretchM (s : GeospatialStatistics) (mmin mmax : Double) : GeospatialStatistics :=
  if !s.hasM then { s with mmin := mmin, mmax := mmax, hasM := true }
  else { s with mmin := lower s.mmin mmin, mmax := raise s.mmax mmax }

/-- `add_coord` (geo_wkb.c:23-45). -/
def addCoord (s : GeospatialStatistics) (p : Position) : GeospatialStatistics :=
  if !p.x.isFinite || !p.y.isFinite then s
  else
    let s := stretchXy s p.x p.x p.y p.y
    let s := if p.hasZ && p.z.isFinite then stretchZ s p.z p.z else s
    if p.hasM && p.m.isFinite then stretchM s p.m p.m else s

/-- `carquet_geo_stats_merge` (geo_wkb.c:152-178). -/
def geoStatsMerge (dst src : GeospatialStatistics) : GeospatialStatistics :=
  if !src.valid && src.numTypes = 0 then dst
  else
    let dst := if src.valid then stretchXy dst src.xmin src.xmax src.ymin src.ymax else dst
    let dst := if src.hasZ then stretchZ dst src.zmin src.zmax else dst
    let dst := if src.hasM then stretchM dst src.mmin src.mmax else dst
    (src.types.take src.numTypes).foldl addType dst

/-! ## The walker -/

/-- `cur_t` (geo_wkb.c:47-52) but for the value it runs over. -/
structure GeoCursor where
  off : Nat
  bad : Bool
  deriving DecidableEq, Repr

def GeoCursor.fail (c : GeoCursor) : GeoCursor := { c with bad := true }

/-- What the walker hands codes and coordinates to. -/
structure GeoSink (σ : Type) where
  addType : σ → Int32 → σ
  addCoord : σ → Position → σ

def statsSink : GeoSink GeospatialStatistics := ⟨addType, addCoord⟩

/-- `rd_u32` (geo_wkb.c:54-63). -/
def rdU32 (wkb : Bytes) (le : Bool) (c : GeoCursor) : Except (Fault Empty) (Nat × GeoCursor) :=
  if c.bad || wkb.length < c.off + 4 then .ok (0, c.fail)
  else do
    let b ← sliceAt wkb c.off 4
    .ok (leNat (if le then b else b.reverse), { c with off := c.off + 4 })

/-- `rd_f64` (geo_wkb.c:65-75). -/
def rdF64 (wkb : Bytes) (le : Bool) (c : GeoCursor) : Except (Fault Empty) (Double × GeoCursor) :=
  if c.bad || wkb.length < c.off + 8 then .ok (.zero, c.fail)
  else do
    let b ← sliceAt wkb c.off 8
    let t := leBytes 8 (leNat (if le then b else b.reverse))
    .ok (⟨t, length_leBytes ..⟩, { c with off := c.off + 8 })

section Walker

variable {σ : Type} (sink : GeoSink σ) (wkb : Bytes)

/-- `for (i = 0; i < n && !c->bad; i++)`. -/
def geoLoop (body : σ × GeoCursor → Except (Fault Empty) (σ × GeoCursor)) :
    Nat → σ × GeoCursor → Except (Fault Empty) (σ × GeoCursor)
  | 0, r => .ok r
  | n + 1, r => if r.2.bad then .ok r else do geoLoop body n (← body r)

/-- `for (d = 0; d < ndim; d++) v[d] = rd_f64(c, le);`. -/
def rdDims (le : Bool) : Nat → GeoCursor → Except (Fault Empty) (List Double × GeoCursor)
  | 0, c => .ok ([], c)
  | n + 1, c => do
    let (d, c) ← rdF64 wkb le c
    let (ds, c) ← rdDims le n c
    .ok (d :: ds, c)

/-- The coordinates of a position, of an array that is zero behind what was read. -/
def positionOf (v : List Double) (hz hm : Bool) : Position where
  x := v.getD 0 .zero
  y := v.getD 1 .zero
  hasZ := hz
  z := if hz then v.getD 2 .zero else .zero
  hasM := hm
  m := if hm then v.getD (if hz then 3 else 2) .zero else .zero

/-- One turn of `read_points` (geo_wkb.c:80-85). -/
def readPoint (le : Bool) (ndim : Nat) (hz hm : Bool) (r : σ × GeoCursor) :
    Except (Fault Empty) (σ × GeoCursor) := do
  let (v, c) ← rdDims wkb le ndim r.2
  if c.bad then .ok (r.1, c) else .ok (sink.addCoord r.1 (positionOf v hz hm), c)

/-- `read_points` (geo_wkb.c:77-87). -/
def readPoints (le : Bool) (count ndim : Nat) (hz hm : Bool) :
    σ × GeoCursor → Except (Fault Empty) (σ × GeoCursor) :=
  geoLoop (readPoint sink wkb le ndim hz hm) count

/-- One ring (geo_wkb.c:126-129), or a line string (geo_wkb.c:119-123). -/
def readRing (le : Bool) (ndim : Nat) (hz hm : Bool) (r : σ × GeoCursor) :
    Except (Fault Empty) (σ × GeoCursor) := do
  let (npts, c) ← rdU32 wkb le r.2
  readPoints sink wkb le npts ndim hz hm (r.1, c)

/-- The type of a geometry, taken apart. -/
structure GeoHeader where
  base : Nat
  hz : Bool
  hm : Bool

/-- The flags of EWKB or the thousands of ISO WKB (geo_wkb.c:99-111). -/
def readHeader (le : Bool) (raw : Nat) (c : GeoCursor) :
    Except (Fault Empty) (GeoHeader × GeoCursor) :=
  if raw &&& 0xE0000000 ≠ 0 then do
    let head : GeoHeader := ⟨raw % 256, raw &&& 0x80000000 ≠ 0, raw &&& 0x40000000 ≠ 0⟩
    if raw &&& 0x20000000 ≠ 0 then
      let (_, c) ← rdU32 wkb le c
      .ok (head, c)
    else .ok (head, c)
  else
    let d := raw / 1000
    .ok (⟨raw % 1000, d = 1 || d = 3, d = 2 || d = 3⟩, c)

def GeoHeader.ndim (h : GeoHeader) : Nat := 2 + h.hz.toNat + h.hm.toNat

def GeoHeader.iso (h : GeoHeader) : Int32 :=
  .ofNat (h.base + (if h.hz then 1000 else 0) + if h.hm then 2000 else 0)

/-- The switch of `walk` (geo_wkb.c:116-142), over the walk of an inner geometry. -/
def walkBody (inner : σ × GeoCursor → Except (Fault Empty) (σ × GeoCursor)) (le : Bool)
    (head : GeoHeader) (r : σ × GeoCursor) : Except (Fault Empty) (σ × GeoCursor) :=
  match head.base with
  | 1 => readPoints sink wkb le 1 head.ndim head.hz head.hm r
  | 2 => readRing sink wkb le head.ndim head.hz head.hm r
  | 3 => do
    let (rings, c) ← rdU32 wkb le r.2
    geoLoop (readRing sink wkb le head.ndim head.hz head.hm) rings (r.1, c)
  | 4 | 5 | 6 | 7 => do
    let (n, c) ← rdU32 wkb le r.2
    geoLoop inner n (r.1, c)
  | _ => .ok (r.1, r.2.fail)

/-- `walk` (geo_wkb.c:89-143), with `33 - depth` levels left. -/
def walk : Nat → σ × GeoCursor → Except (Fault Empty) (σ × GeoCursor)
  | 0, (s, c) => .ok (s, c.fail)
  | left + 1, (s, c) =>
    if c.bad then .ok (s, c.fail)
    else if wkb.length < c.off + 1 then .ok (s, c.fail)
    else do
      let le := (← readAt wkb c.off) == 1
      let (raw, c) ← rdU32 wkb le { c with off := c.off + 1 }
      if c.bad then .ok (s, c)
      else do
        let (head, c) ← readHeader wkb le raw c
        if c.bad then .ok (s, c)
        else walkBody sink wkb (walk left) le head (sink.addType s head.iso, c)

/-- The walk of `carquet_geo_stats_add_wkb` (geo_wkb.c:145-150). -/
def walkWkb (s : σ) : Except (Fault Empty) σ :=
  if wkb.length < 5 then .ok s else (walk sink wkb 33 (s, ⟨0, false⟩)).map (·.1)

end Walker

/-- `carquet_geo_stats_add_wkb` (geo_wkb.c:145-150). -/
def geoStatsAddWkb (s : GeospatialStatistics) (wkb : Bytes) :
    Except (Fault Empty) GeospatialStatistics := walkWkb statsSink wkb s

end Carquet
