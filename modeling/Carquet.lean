import Carquet.Lib.LittleEndian
import Carquet.Lib.Leb128
import Carquet.Lib.Chunks
import Carquet.Lib.LevelStream
import Carquet.Lib.Bounds
import Carquet.Lib.ByteOrder
import Carquet.Lib.Preorder
import Carquet.Lib.Cut
import Carquet.Lib.BackReference
import Carquet.Lib.BitPacking
import Carquet.Lib.MembershipFilter
import Carquet.Lib.ChainedTable
import Carquet.Lib.FirstOccurrences
import Carquet.Lib.RingBuffer
import Carquet.Lib.CondVar
import Carquet.Lib.Access
import Carquet.Lib.StoreLoop
import Carquet.Lib.Groups
import Carquet.Lib.BitFields
import Carquet.Lib.Lanes
import Carquet.Lib.Xxh64
import Carquet.Lib.SplitBlock
import Carquet.Lib.Mergeable
import Carquet.Core.Types
import Carquet.Core.Bitpack
import Carquet.Core.BitpackKernels
import Carquet.Core.BitpackTouch
import Carquet.Encoding.RleDecode
import Carquet.Encoding.RleDecodeSpec
import Carquet.Encoding.RleDefects
import Carquet.Encoding.RleCalls
import Carquet.Encoding.RleEncode
import Carquet.Encoding.RlePrefixed
import Carquet.Reader.PageDecode
import Carquet.Encoding.Plain
import Carquet.Encoding.ByteStreamSplit
import Carquet.Encoding.PlainByteArray
import Carquet.Encoding.Delta
import Carquet.Encoding.DeltaSpec
import Carquet.Encoding.DeltaCapacity
import Carquet.Encoding.DeltaFormat
import Carquet.Encoding.DeltaReads
import Carquet.Encoding.DeltaConformance
import Carquet.Encoding.DeltaStrings
import Carquet.Encoding.DeltaAccess
import Carquet.Encoding.DeltaSafety
import Carquet.Reader.PageDeterminism
import Carquet.Encoding.Dictionary
import Carquet.Encoding.DictionarySpec
import Carquet.Reader.DictionaryPage
import Carquet.Reader.DictionaryBounds
import Carquet.Core.Entries
import Carquet.Reader.ColumnReader
import Carquet.Reader.ColumnReaderSpec
import Carquet.Writer.ColumnWriter
import Carquet.Writer.ColumnWriterSpec
import Carquet.Writer.FileWriter
import Carquet.Writer.FileWriterSpec
import Carquet.Core.Float
import Carquet.Core.Crc32
import Carquet.Core.GeoWkb
import Carquet.Core.GeoWkbSpec
import Carquet.Core.XxHash
import Carquet.Core.XxHashSpec
import Carquet.Metadata.BloomFilter
import Carquet.Metadata.BloomFilterSpec
import Carquet.Metadata.BloomFilterFormat
import Carquet.Writer.BloomColumn
import Carquet.Writer.Statistics
import Carquet.Writer.PageStatistics
import Carquet.Writer.PageIndex
import Carquet.Reader.Statistics
import Carquet.Reader.StatisticsSpec
import Carquet.Writer.PageIndexSpec
import Carquet.Writer.NullPages
import Carquet.Metadata.PageFilter
import Carquet.Metadata.Schema
import Carquet.Metadata.SchemaSpec
import Carquet.Thrift.Decode
import Carquet.Thrift.Encode
import Carquet.Thrift.Wire
import Carquet.Thrift.Value
import Carquet.Thrift.Fields
import Carquet.Thrift.SkipReads
import Carquet.Thrift.SkipSpec
import Carquet.Thrift.SkipCut
import Carquet.Thrift.SkipNesting
import Carquet.Thrift.ReadBack
import Carquet.Thrift.PageHeader
import Carquet.Writer.PageFinalize
import Carquet.Writer.PageFinalizeSpec
import Carquet.Writer.PageValues
import Carquet.Writer.AddValuesRollback
import Carquet.Writer.DeltaReserve
import Carquet.Writer.ColumnChunk
import Carquet.Writer.RowGroups
import Carquet.Writer.RowGroupsSpec
import Carquet.Writer.RowGroupIndependence
import Carquet.Writer.BatchWriter
import Carquet.Writer.FailedBatches
import Carquet.Thrift.Lists
import Carquet.Thrift.Inside
import Carquet.Thrift.Window
import Carquet.Thrift.ParquetTypes
import Carquet.Thrift.ParquetParse
import Carquet.Thrift.ParquetSafety
import Carquet.Metadata.SchemaTraversal
import Carquet.Metadata.SchemaBuilding
import Carquet.Metadata.StatisticsBuilder
import Carquet.Metadata.StatisticsBuilderSpec
import Carquet.Metadata.PageIndexFormat
import Carquet.Metadata.PageIndexRoundTrip
import Carquet.Compression.Snappy
import Carquet.Compression.SnappyCopy
import Carquet.Compression.SnappyFormat
import Carquet.Compression.SnappyBounds
import Carquet.Compression.SnappyElements
import Carquet.Compression.SnappyRoundTrip
import Carquet.Compression.SnappyStream
import Carquet.Compression.SnappyStores
import Carquet.Reader.BatchReader
import Carquet.Reader.BatchColumn
import Carquet.Encoding.RleBitmap
import Carquet.Reader.BatchReaderSpec
import Carquet.Reader.BatchAlignment
import Carquet.Reader.BufferSizes
import Carquet.Reader.BufferSizesSpec
import Carquet.Reader.WorkerPool
import Carquet.Reader.WorkerPoolSpec
import Carquet.Reader.PageHeaderWindow
import Carquet.Writer.FooterBounds
import Carquet.Writer.TimestampUnits
import Carquet.Writer.SizeAccounting
import Carquet.Metadata.ListOffsets
import Carquet.Core.BitStream
import Carquet.Lib.FlatBuffer
import Carquet.Lib.Base64
import Carquet.Writer.ArrowSchema
import Carquet.Writer.FbbSpec
import Carquet.Writer.ArrowFormat
import Carquet.Writer.ArrowSchemaSpec
import Carquet.Thrift.StructWrites
import Carquet.Thrift.ParquetWrite
import Carquet.Thrift.FooterRoundTrip
import Carquet.Thrift.FooterRewrite
import Carquet.Reader.FileFooter
import Carquet.Reader.FileAccess
import Carquet.Lib.Regions
import Carquet.Writer.FileLayout
import Carquet.Writer.FileLayoutSpec
import Carquet.Writer.FileRuns
import Carquet.Reader.WrittenFile
import Carquet.Reader.PageContent
import Carquet.Reader.PageLoad
import Carquet.Reader.Block
import Carquet.Thrift.Truncation
import Carquet.Reader.WrittenPage
import Carquet.Reader.WrittenPageLoad
