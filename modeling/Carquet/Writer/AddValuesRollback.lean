import Carquet.Writer.PageValues

/-!
# What a refused call leaves of a page

`carquet_page_writer_add_values` (page_writer.c:1026-1284) writes into the page while it goes: it
counts nulls, appends levels and values, and changes the bounds before it knows that all of it
succeeds. Here the call is its steps one after the other, each of which may run out of memory
(`Shortage`), and its label `fail` puts back what was there before.

`PageAccumulator` is a page as it is seen from outside; there a bound that is not set has no bytes.
-/

namespace Carquet

open LittleEndian Bounds

variable {γ : Type}

/-! ## The page in memory -/

/-- The statistics of `carquet_page_writer_t` (page_writer.c:141-160): the bytes in use of
`min_value` and `max_value`, whether or not they stand for bounds. -/
structure StatFields where
  hasMinMax : Bool
  minValue : Bytes
  maxValue : Bytes
  boolSeenFalse : Bool
  boolSeenTrue : Bool
  deriving DecidableEq, Repr

/-- The bounds that are set. -/
def StatFields.minMax (s : StatFields) : MinMax :=
  if s.hasMinMax then some (s.minValue, s.maxValue) else none

/-- The statistics as they are seen from outside. -/
def StatFields.toPageStats (s : StatFields) : PageStats :=
  ⟨s.minMax, s.boolSeenFalse, s.boolSeenTrue⟩

/-- `stats_set_min` and `stats_set_max` (page_writer.c:203-219), with the flags of a BOOLEAN. Where
there are no bounds none were set. -/
def StatFields.store (s : StatFields) (p : PageStats) : StatFields :=
  match p.minMax with
  | none => ⟨false, s.minValue, s.maxValue, p.boolSeenFalse, p.boolSeenTrue⟩
  | some (lo, hi) => ⟨true, lo, hi, p.boolSeenFalse, p.boolSeenTrue⟩

/-- `carquet_page_writer_t` (page_writer.c:112-170) but for its settings. -/
structure PageMemory (γ : Type) where
  valuesBuffer : Bytes
  defLevelsBuffer : Bytes
  repLevelsBuffer : Bytes
  encoding : Encoding
  numValues : Nat
  numNulls : Nat
  numRows : Nat
  stats : StatFields
  geoStats : γ
  deriving DecidableEq, Repr

/-- The page as it is seen from outside. -/
def PageMemory.toAccumulator (w : PageMemory γ) : PageAccumulator γ :=
  ⟨w.valuesBuffer, w.defLevelsBuffer, w.repLevelsBuffer, w.encoding, w.numValues, w.numNulls,
    w.numRows, w.stats.toPageStats, w.geoStats⟩

/-- Where a call runs out of memory or an encoder gives up on its way: the status it ends with and
what it has appended by then; for the bounds, what an update has made of them. -/
structure Shortage where
  defLevels : Option (Status × Bytes)
  repLevels : Option (Status × Bytes)
  values : Option (Status × Bytes)
  bounds : Option StatFields
  deriving DecidableEq, Repr

/-- There is memory for everything. -/
def Shortage.nowhere : Shortage := ⟨none, none, none, none⟩

/-! ## The steps of a call -/

/-- A step changes the page whether or not it succeeds. -/
abbrev PageStep (γ : Type) := PageMemory γ → Except Status Unit × PageMemory γ

/-- `if (status != CARQUET_OK) goto fail`. -/
def PageStep.andThen (s t : PageStep γ) : PageStep γ := fun w =>
  match s w with
  | (.error e, w) => (.error e, w)
  | (.ok (), w) => t w

/-- What an encoder appends to its buffer, and how it ends. -/
def runEncoder (shortage : Option (Status × Bytes)) (encoded : Except Status Bytes)
    (buffer : Bytes) : Except Status Unit × Bytes :=
  match shortage, encoded with
  | some (e, bytes), _ => (.error e, buffer ++ bytes)
  | none, .error e => (.error e, buffer)
  | none, .ok bytes => (.ok (), buffer ++ bytes)

namespace PageMemory

/-- The count of nulls (page_writer.c:1064-1070). -/
def countNulls (c : ChunkSettings) (args : ChunkArgs Value) : PageStep γ := fun w =>
  (.ok (), { w with
    numNulls := w.numNulls + (args.numValues - numNonNull c.column.maxDefLevel args) })

/-- The definition levels (page_writer.c:1075-1082). -/
def appendDefLevels (c : ChunkSettings) (short : Shortage) (args : ChunkArgs Value) :
    PageStep γ := fun w =>
  if 0 < c.column.maxDefLevel then
    let r := runEncoder short.defLevels
      (encodeLevels args.defLevels args.numValues c.column.maxDefLevel (!c.dataPageV2))
      w.defLevelsBuffer
    (r.1, { w with defLevelsBuffer := r.2 })
  else (.ok (), w)

/-- The repetition levels (page_writer.c:1084-1092). -/
def appendRepLevels (c : ChunkSettings) (short : Shortage) (args : ChunkArgs Value) :
    PageStep γ := fun w =>
  if 0 < c.column.maxRepLevel ∧ args.repLevels.isSome then
    let r := runEncoder short.repLevels
      (encodeLevels args.repLevels args.numValues c.column.maxRepLevel (!c.dataPageV2))
      w.repLevelsBuffer
    (r.1, { w with repLevelsBuffer := r.2 })
  else (.ok (), w)

/-- The encoder of the switch (page_writer.c:1102-1244). -/
def appendValues (c : ChunkSettings) (short : Shortage) (args : ChunkArgs Value) :
    PageStep γ := fun w =>
  let r := runEncoder short.values
    (encodeValues c.column c.collects w.encoding (args.present c.column.maxDefLevel))
    w.valuesBuffer
  (r.1, { w with valuesBuffer := r.2 })

/-- Whether the bounds are set by an encoder that reports when they are not, `stats_set_fixed` of
`encode_plain_i32_with_stats` and its like (page_writer.c:705-848). -/
def reportsBounds (c : ChunkSettings) (encoding : Encoding) (present : List Value) : Bool :=
  match c.kind with
  | .ordered (.int32 isUnsigned) | .ordered (.int64 isUnsigned) =>
    encoding = .plain && !isUnsigned
  | .floating f =>
    encoding ≠ .byteStreamSplit &&
      match present with
      | [] => false
      | v :: vs =>
        let chunk := ofList (compareFloat f) v vs
        !isNanValue f chunk.1 && !isNanValue f chunk.2
  | _ => false

/-- The statistics of the switch, with `update_statistics_i32` and its like (page_writer.c:397-703),
which report nothing. -/
def updateStatistics (c : ChunkSettings) (short : Shortage) (args : ChunkArgs Value) :
    PageStep γ := fun w =>
  let present := args.present c.column.maxDefLevel
  if c.collects then
    match short.bounds with
    | some left =>
      (if reportsBounds c w.encoding present then .error .outOfMemory else .ok (),
        { w with stats := left })
    | none =>
      (.ok (), { w with
        stats := w.stats.store (w.stats.toPageStats.add c.kind
          (isPlainFor c.column.type w.encoding) (.accepted (present.map some))) })
  else (.ok (), w)

/-- The geospatial statistics (page_writer.c:1170-1179), and the counts of a call that succeeds
(page_writer.c:1250-1260). -/
def finishCall (geo : GeoWalker γ) (c : ChunkSettings) (args : ChunkArgs Value) :
    PageStep γ := fun w =>
  (.ok (), { w with
    geoStats := w.toAccumulator.geoAfter geo c (args.present c.column.maxDefLevel)
    numValues := w.numValues + args.numValues
    numRows := w.numRows + rowsOfCall c args })

/-- The call up to its label `fail`. -/
def addSteps (geo : GeoWalker γ) (c : ChunkSettings) (short : Shortage) (args : ChunkArgs Value) :
    PageStep γ :=
  (countNulls c args).andThen ((appendDefLevels c short args).andThen
    ((appendRepLevels c short args).andThen ((appendValues c short args).andThen
      ((updateStatistics c short args).andThen (finishCall geo c args)))))

/-- `snapshot_ok` (page_writer.c:1055-1056). -/
def snapshotOk (w : PageMemory γ) : Bool :=
  w.stats.minValue.length ≤ statSnapshotSize && w.stats.maxValue.length ≤ statSnapshotSize

/-- The statistics behind the label `fail` (page_writer.c:1267-1283). The bytes of bounds that were
not set are what the call has made of them. -/
def restoreStats (before after : StatFields) (snapshotOk : Bool) : StatFields :=
  let s :=
    { after with boolSeenFalse := before.boolSeenFalse, boolSeenTrue := before.boolSeenTrue }
  if snapshotOk then
    if before.hasMinMax then
      { s with hasMinMax := true, minValue := before.minValue, maxValue := before.maxValue }
    else
      { s with
        hasMinMax := false
        minValue := (overlay s.minValue before.minValue).take before.minValue.length
        maxValue := (overlay s.maxValue before.maxValue).take before.maxValue.length }
  else { s with hasMinMax := false, minValue := [], maxValue := [] }

/-- The label `fail` (page_writer.c:1262-1284); buffers are cut to the sizes they had. -/
def rollback (before after : PageMemory γ) : PageMemory γ :=
  { after with
    valuesBuffer := after.valuesBuffer.take before.valuesBuffer.length
    defLevelsBuffer := after.defLevelsBuffer.take before.defLevelsBuffer.length
    repLevelsBuffer := after.repLevelsBuffer.take before.repLevelsBuffer.length
    numValues := before.numValues
    numNulls := before.numNulls
    stats := restoreStats before.stats after.stats before.snapshotOk }

/-- `carquet_page_writer_add_values` (page_writer.c:1026-1284); `none` is a call without values. -/
def addValues (geo : GeoWalker γ) (c : ChunkSettings) (short : Shortage) (w : PageMemory γ)
    (args : Option (ChunkArgs Value)) : Except Status Unit × PageMemory γ :=
  match args with
  | none => (.error .invalidArgument, w)
  | some args =>
    match addSteps geo c short args w with
    | (.ok (), after) => (.ok (), after)
    | (.error e, after) => (.error e, w.rollback after)

end PageMemory

/-! ## What the steps leave -/

/-- Bytes are appended to the buffers; rows and geospatial statistics are as they were. -/
structure Grown (before after : PageMemory γ) : Prop where
  values : before.valuesBuffer <+: after.valuesBuffer
  defLevels : before.defLevelsBuffer <+: after.defLevelsBuffer
  repLevels : before.repLevelsBuffer <+: after.repLevelsBuffer
  encoding : after.encoding = before.encoding
  numRows : after.numRows = before.numRows
  geoStats : after.geoStats = before.geoStats

theorem Grown.refl (w : PageMemory γ) : Grown w w :=
  ⟨List.prefix_rfl, List.prefix_rfl, List.prefix_rfl, rfl, rfl, rfl⟩

theorem Grown.trans {u v w : PageMemory γ} (h : Grown u v) (h' : Grown v w) : Grown u w :=
  ⟨h.values.trans h'.values, h.defLevels.trans h'.defLevels, h.repLevels.trans h'.repLevels,
    h'.encoding.trans h.encoding, h'.numRows.trans h.numRows, h'.geoStats.trans h.geoStats⟩

/-- A step that fails has only grown the page. -/
def GrowsOnError (s : PageStep γ) : Prop :=
  ∀ w e w', s w = (.error e, w') → Grown w w'

/-- A step that only grows the page. -/
def Grows (s : PageStep γ) : Prop := ∀ w, Grown w (s w).2

theorem Grows.onError {s : PageStep γ} (h : Grows s) : GrowsOnError s := by
  intro w e w' hs
  have hw := h w
  rwa [hs] at hw

theorem GrowsOnError.after {s t : PageStep γ} (h' : GrowsOnError t) (h : Grows s) :
    GrowsOnError (s.andThen t) := by
  intro w e w' hst
  rw [PageStep.andThen] at hst
  have hw := h w
  rcases hs : s w with ⟨status, v⟩
  rw [hs] at hst hw
  cases status with
  | error e' =>
    obtain ⟨-, rfl⟩ := Prod.mk.inj hst
    exact hw
  | ok _ => exact hw.trans (h' v e w' hst)

theorem prefix_runEncoder (shortage : Option (Status × Bytes)) (encoded : Except Status Bytes)
    (buffer : Bytes) : buffer <+: (runEncoder shortage encoded buffer).2 := by
  rcases shortage with _ | ⟨e, bytes⟩
  · cases encoded with
    | error e => exact List.prefix_rfl
    | ok bytes => exact List.prefix_append buffer bytes
  · exact List.prefix_append buffer bytes

namespace PageMemory

variable (geo : GeoWalker γ) (c : ChunkSettings) (short : Shortage) (args : ChunkArgs Value)

theorem grows_countNulls : Grows (γ := γ) (countNulls c args) :=
  fun _ => ⟨List.prefix_rfl, List.prefix_rfl, List.prefix_rfl, rfl, rfl, rfl⟩

theorem grows_appendDefLevels : Grows (γ := γ) (appendDefLevels c short args) := by
  intro w
  rw [appendDefLevels]
  split
  · exact ⟨List.prefix_rfl, prefix_runEncoder _ _ _, List.prefix_rfl, rfl, rfl, rfl⟩
  · exact .refl w

theorem grows_appendRepLevels : Grows (γ := γ) (appendRepLevels c short args) := by
  intro w
  rw [appendRepLevels]
  split
  · exact ⟨List.prefix_rfl, List.prefix_rfl, prefix_runEncoder _ _ _, rfl, rfl, rfl⟩
  · exact .refl w

theorem grows_appendValues : Grows (γ := γ) (appendValues c short args) :=
  fun _ => ⟨prefix_runEncoder _ _ _, List.prefix_rfl, List.prefix_rfl, rfl, rfl, rfl⟩

theorem grows_updateStatistics : Grows (γ := γ) (updateStatistics c short args) := by
  intro w
  simp only [updateStatistics]
  split
  · split
    · exact ⟨List.prefix_rfl, List.prefix_rfl, List.prefix_rfl, rfl, rfl, rfl⟩
    · exact ⟨List.prefix_rfl, List.prefix_rfl, List.prefix_rfl, rfl, rfl, rfl⟩
  · exact .refl w

/-- **A call that fails has only grown the page**, wherever it fails. -/
theorem growsOnError_addSteps : GrowsOnError (addSteps geo c short args) := by
  have hfinish : GrowsOnError (finishCall geo c args) := by
    intro w e w' h
    exact nomatch h
  exact ((((hfinish.after (grows_updateStatistics c short args)).after
    (grows_appendValues c short args)).after (grows_appendRepLevels c short args)).after
    (grows_appendDefLevels c short args)).after (grows_countNulls c args)

end PageMemory

/-! ## What the label puts back -/

/-- The bounds, if there are any, fit the snapshot. -/
def PageMemory.ShortBounds (w : PageMemory γ) : Prop :=
  ∀ b, w.stats.minMax = some b → b.1.length ≤ statSnapshotSize ∧ b.2.length ≤ statSnapshotSize

instance (w : PageMemory γ) : Decidable w.ShortBounds :=
  match h : w.stats.minMax with
  | none => .isTrue fun b hb => by rw [h] at hb; cases hb
  | some m =>
    decidable_of_iff (m.1.length ≤ statSnapshotSize ∧ m.2.length ≤ statSnapshotSize)
      ⟨fun hm b hb => by rw [h] at hb; cases hb; exact hm, fun hall => hall m h⟩

/-- Bounds that were set are there again if they fit the snapshot, and are given up if not. -/
theorem restoreStats_toPageStats (w : PageMemory γ) (after : StatFields) :
    (PageMemory.restoreStats w.stats after w.snapshotOk).toPageStats =
      if w.ShortBounds then w.stats.toPageStats
      else { w.stats.toPageStats with minMax := none } := by
  cases hset : w.stats.hasMinMax with
  | false =>
    have hnone : w.stats.minMax = none := by rw [StatFields.minMax, hset]; rfl
    have hshort : w.ShortBounds := by
      intro b hb
      rw [hnone] at hb
      cases hb
    rw [if_pos hshort, StatFields.toPageStats, StatFields.toPageStats, hnone]
    rw [PageMemory.restoreStats, hset]
    cases w.snapshotOk <;> rfl
  | true =>
    have hsome : w.stats.minMax = some (w.stats.minValue, w.stats.maxValue) := by
      rw [StatFields.minMax, hset]
      rfl
    have hiff : w.ShortBounds ↔ w.snapshotOk = true := by
      rw [PageMemory.ShortBounds, hsome, PageMemory.snapshotOk, Bool.and_eq_true, decide_eq_true_iff,
        decide_eq_true_iff]
      exact ⟨fun h => h _ rfl, fun h b hb => Option.some.inj hb ▸ h⟩
    rw [PageMemory.restoreStats, hset]
    cases hok : w.snapshotOk with
    | true =>
      rw [if_pos (hiff.mpr hok), StatFields.toPageStats, StatFields.toPageStats, hsome]
      rfl
    | false =>
      rw [if_neg fun h => Bool.noConfusion ((hiff.mp h).symm.trans hok)]
      rfl

theorem take_of_prefix {before after : Bytes} (h : before <+: after) :
    after.take before.length = before := (List.prefix_iff_eq_take.mp h).symm

/-- The label puts back a page that has only grown, but for bounds that do not fit. -/
theorem rollback_toAccumulator {w after : PageMemory γ} (h : Grown w after) :
    (w.rollback after).toAccumulator =
      if w.ShortBounds then w.toAccumulator
      else
        { w.toAccumulator with stats := { w.toAccumulator.stats with minMax := none } } := by
  have hstats := restoreStats_toPageStats w after.stats
  simp only [PageMemory.rollback, PageMemory.toAccumulator, take_of_prefix h.values,
    take_of_prefix h.defLevels, take_of_prefix h.repLevels, h.encoding, h.numRows, h.geoStats,
    hstats]
  by_cases hshort : w.ShortBounds
  · rw [if_pos hshort, if_pos hshort]
  · rw [if_neg hshort, if_neg hshort]

/-- **A refused call takes everything back**, but bounds that do not fit its snapshot are gone. A
call without values does nothing at all. -/
theorem addValues_takenBack (geo : GeoWalker γ) (c : ChunkSettings) (short : Shortage)
    (w : PageMemory γ) (args : Option (ChunkArgs Value)) {e : Status}
    (h : (w.addValues geo c short args).1 = .error e) :
    (w.addValues geo c short args).2.toAccumulator =
      if args = none ∨ w.ShortBounds then w.toAccumulator
      else
        { w.toAccumulator with stats := { w.toAccumulator.stats with minMax := none } } := by
  cases args with
  | none => rw [if_pos (.inl rfl)]; rfl
  | some args =>
    simp only [PageMemory.addValues] at h ⊢
    rcases hsteps : PageMemory.addSteps geo c short args w with ⟨status, after⟩
    rw [hsteps] at h
    cases status with
    | ok _ => exact nomatch h
    | error e' =>
      have hgrown := PageMemory.growsOnError_addSteps geo c short args w e' after hsteps
      have hiff : (some args = none ∨ w.ShortBounds) ↔ w.ShortBounds := by simp
      simp only [rollback_toAccumulator hgrown, hiff]

/-! ## With memory for everything -/

theorem toPageStats_store (s : StatFields) (p : PageStats) : (s.store p).toPageStats = p := by
  obtain ⟨minMax, seenFalse, seenTrue⟩ := p
  cases minMax <;> rfl

variable {env : ChunkEnv}

theorem encodeDefLevels_eq (henv : ∀ n, env.grow n = .ok ()) (c : ChunkSettings)
    (args : ChunkArgs Value) :
    encodeDefLevels env c args =
      if 0 < c.column.maxDefLevel then
        encodeLevels args.defLevels args.numValues c.column.maxDefLevel (!c.dataPageV2)
      else .ok [] := by
  rw [encodeDefLevels]
  split
  · cases encodeLevels args.defLevels args.numValues c.column.maxDefLevel (!c.dataPageV2) with
    | error e => rfl
    | ok bytes => simp [henv, bind, Except.bind, pure, Except.pure]
  · rfl

theorem encodeRepLevels_eq (henv : ∀ n, env.grow n = .ok ()) (c : ChunkSettings)
    (args : ChunkArgs Value) :
    encodeRepLevels env c args =
      if 0 < c.column.maxRepLevel ∧ args.repLevels.isSome then
        encodeLevels args.repLevels args.numValues c.column.maxRepLevel (!c.dataPageV2)
      else .ok [] := by
  rw [encodeRepLevels]
  split
  · cases encodeLevels args.repLevels args.numValues c.column.maxRepLevel (!c.dataPageV2) with
    | error e => rfl
    | ok bytes => simp [henv, bind, Except.bind, pure, Except.pure]
  · rfl

/-- A refused call as the statistics of the page see it. -/
theorem statsAfter_refused_eq {c : ChunkSettings} {w : PageMemory γ}
    (hcollects : c.collects = false → w.stats.hasMinMax = false) :
    w.toAccumulator.statsAfter c .refused =
      if w.ShortBounds then w.stats.toPageStats
      else { w.stats.toPageStats with minMax := none } := by
  have hrefused : w.stats.toPageStats.add c.kind (isPlainFor c.column.type w.encoding) .refused =
      match w.stats.minMax with
      | none => w.stats.toPageStats
      | some (lo, hi) =>
        if lo.length ≤ statSnapshotSize ∧ hi.length ≤ statSnapshotSize then w.stats.toPageStats
        else { w.stats.toPageStats with minMax := none } := by
    cases c.kind <;> rfl
  have hshort : w.stats.minMax = none → w.ShortBounds := by
    intro hnone b hb
    rw [hnone] at hb
    cases hb
  rw [PageAccumulator.statsAfter]
  split
  · show w.stats.toPageStats.add c.kind (isPlainFor c.column.type w.encoding) .refused = _
    rw [hrefused]
    cases hm : w.stats.minMax with
    | none => rw [if_pos (hshort hm)]
    | some b =>
      have hiff : w.ShortBounds ↔
          b.1.length ≤ statSnapshotSize ∧ b.2.length ≤ statSnapshotSize :=
        ⟨fun h => h b hm, fun h b' hb' => by rw [hm] at hb'; cases hb'; exact h⟩
      simp only [hiff]
  · rename_i hoff
    have hnone : w.stats.minMax = none := by
      rw [StatFields.minMax, hcollects (by simpa using hoff)]
      rfl
    rw [if_pos (hshort hnone)]
    rfl

namespace PageMemory

theorem appendDefLevels_nowhere (henv : ∀ n, env.grow n = .ok ()) (c : ChunkSettings)
    (args : ChunkArgs Value) (w : PageMemory γ) :
    appendDefLevels c .nowhere args w =
      match encodeDefLevels env c args with
      | .error e => (.error e, w)
      | .ok bytes => (.ok (), { w with defLevelsBuffer := w.defLevelsBuffer ++ bytes }) := by
  rw [appendDefLevels, encodeDefLevels_eq henv]
  split
  · cases encodeLevels args.defLevels args.numValues c.column.maxDefLevel (!c.dataPageV2) <;> rfl
  · simp

theorem appendRepLevels_nowhere (henv : ∀ n, env.grow n = .ok ()) (c : ChunkSettings)
    (args : ChunkArgs Value) (w : PageMemory γ) :
    appendRepLevels c .nowhere args w =
      match encodeRepLevels env c args with
      | .error e => (.error e, w)
      | .ok bytes => (.ok (), { w with repLevelsBuffer := w.repLevelsBuffer ++ bytes }) := by
  rw [appendRepLevels, encodeRepLevels_eq henv]
  split
  · cases encodeLevels args.repLevels args.numValues c.column.maxRepLevel (!c.dataPageV2) <;> rfl
  · simp

theorem appendValues_nowhere (c : ChunkSettings) (args : ChunkArgs Value) (w : PageMemory γ) :
    appendValues c .nowhere args w =
      match encodeValues c.column c.collects w.encoding (args.present c.column.maxDefLevel) with
      | .error e => (.error e, w)
      | .ok bytes => (.ok (), { w with valuesBuffer := w.valuesBuffer ++ bytes }) := by
  rw [appendValues]
  cases encodeValues c.column c.collects w.encoding (args.present c.column.maxDefLevel) <;> rfl

theorem updateStatistics_nowhere (c : ChunkSettings) (args : ChunkArgs Value) (w : PageMemory γ) :
    updateStatistics c .nowhere args w =
      (.ok (), { w with
        stats :=
          if c.collects then
            w.stats.store (w.stats.toPageStats.add c.kind (isPlainFor c.column.type w.encoding)
              (.accepted ((args.present c.column.maxDefLevel).map some)))
          else w.stats }) := by
  rw [updateStatistics]
  cases c.collects <;> rfl

/-- Where the encoders fail both refuse the call. -/
theorem addValues_of_error {geo : GeoWalker γ} {c : ChunkSettings} {w : PageMemory γ}
    {args : ChunkArgs Value} {e : Status}
    (hcollects : c.collects = false → w.stats.hasMinMax = false)
    (hcall : encodeCall env c w.encoding args = .error e)
    (hsteps : (addSteps geo c .nowhere args w).1 = .error e) :
    w.toAccumulator.addValues geo env c args =
      ((w.addValues geo c .nowhere (some args)).1,
        (w.addValues geo c .nowhere (some args)).2.toAccumulator) := by
  rcases hafter : addSteps geo c .nowhere args w with ⟨status, after⟩
  rw [hafter] at hsteps
  obtain rfl : status = .error e := hsteps
  have hgrown := growsOnError_addSteps geo c .nowhere args w e after hafter
  simp only [PageAccumulator.addValues, show w.toAccumulator.encoding = w.encoding from rfl, hcall,
    PageMemory.addValues, hafter, rollback_toAccumulator hgrown, statsAfter_refused_eq hcollects]
  split <;> rfl

/-- **With memory for everything the steps are the call** as `PageAccumulator` has it. -/
theorem addValues_nowhere (geo : GeoWalker γ) (c : ChunkSettings) (w : PageMemory γ)
    (args : ChunkArgs Value) (henv : ∀ n, env.grow n = .ok ())
    (hcollects : c.collects = false → w.stats.hasMinMax = false) :
    w.toAccumulator.addValues geo env c args =
      ((w.addValues geo c .nowhere (some args)).1,
        (w.addValues geo c .nowhere (some args)).2.toAccumulator) := by
  cases hdef : encodeDefLevels env c args with
  | error e =>
    refine addValues_of_error hcollects (e := e) ?_ ?_
    · rw [encodeCall, hdef]
      rfl
    · simp only [addSteps, PageStep.andThen, countNulls, appendDefLevels_nowhere henv, hdef]
  | ok defLevels =>
    cases hrep : encodeRepLevels env c args with
    | error e =>
      refine addValues_of_error hcollects (e := e) ?_ ?_
      · rw [encodeCall, hdef, hrep]
        rfl
      · simp only [addSteps, PageStep.andThen, countNulls, appendDefLevels_nowhere henv, hdef,
          appendRepLevels_nowhere henv, hrep]
    | ok repLevels =>
      cases hval : encodeValues c.column c.collects w.encoding
          (args.present c.column.maxDefLevel) with
      | error e =>
        refine addValues_of_error hcollects (e := e) ?_ ?_
        · rw [encodeCall, hdef, hrep, hval]
          rfl
        · simp only [addSteps, PageStep.andThen, countNulls, appendDefLevels_nowhere henv, hdef,
            appendRepLevels_nowhere henv, hrep, appendValues_nowhere, hval]
      | ok values =>
        have hcall : encodeCall env c w.encoding args = .ok ⟨values, defLevels, repLevels⟩ := by
          rw [encodeCall, hdef, hrep, hval]
          simp [henv, bind, Except.bind, pure, Except.pure]
        simp only [PageAccumulator.addValues, show w.toAccumulator.encoding = w.encoding from rfl,
          hcall, PageMemory.addValues, addSteps, PageStep.andThen, countNulls,
          appendDefLevels_nowhere henv, hdef, appendRepLevels_nowhere henv, hrep,
          appendValues_nowhere, hval, updateStatistics_nowhere, finishCall]
        refine Prod.ext rfl ?_
        simp only [toAccumulator, PageAccumulator.statsAfter]
        cases c.collects with
        | true => simp only [if_true, toPageStats_store]; rfl
        | false => rfl

end PageMemory

/-- A column of strings, PLAIN. -/
def plainStrings : ChunkSettings where
  options := ⟨⟨.byteArray, 0, 0, 0⟩, 0, 0, 0, false⟩
  logicalType := .unknown
  encoding := .plain
  compression := .uncompressed
  dataPageV2 := false
  writeCrc := true
  writeStatistics := true
  dictionaryPageSizeLimit := 0
  bloomFilterBytes := none
  pageIndexEnabled := false

/-- A column without geospatial statistics. -/
def noGeo : GeoWalker Unit := ⟨(), fun _ _ => ()⟩

/-- A page of `plainStrings` with one string of so many bytes. -/
def pageOf (length : Nat) : PageMemory Unit :=
  (PageMemory.addValues noGeo plainStrings .nowhere
    ⟨[], [], [], .plain, 0, 0, 0, ⟨false, [], [], false, false⟩, ()⟩
    (some ⟨[List.replicate length 0x61], 1, none, none⟩)).2

/-- There is no memory for the string behind its length. -/
def shortOfValues : Shortage := ⟨none, none, some (.outOfMemory, [1, 0, 0, 0]), none⟩

/-- A string of 257 bytes is a bound that a refused call gives up. -/
theorem longBounds_givenUp :
    ((pageOf 257).addValues noGeo plainStrings shortOfValues (some ⟨[[0x62]], 1, none, none⟩)).1 =
        .error .outOfMemory ∧
      ((pageOf 257).addValues noGeo plainStrings shortOfValues
        (some ⟨[[0x62]], 1, none, none⟩)).2.toAccumulator ≠ (pageOf 257).toAccumulator := by
  decide +kernel

/-- One of 256 bytes is kept. -/
theorem addValues_takenBack_sample :
    ((pageOf 256).addValues noGeo plainStrings shortOfValues
      (some ⟨[[0x62]], 1, none, none⟩)).2.toAccumulator = (pageOf 256).toAccumulator := by
  rw [addValues_takenBack noGeo plainStrings shortOfValues (pageOf 256) _
    (show _ = Except.error Status.outOfMemory by decide +kernel)]
  exact if_pos (.inr (by decide +kernel))

end Carquet
