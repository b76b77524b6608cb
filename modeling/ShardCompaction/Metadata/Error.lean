import ShardCompaction.Text.Decimal
import ShardCompaction.Value.ColumnType

namespace ShardCompaction

inductive MetadataError where
  | tableNotFound (table : Int64)
  | columnNotFound (table column : Int64)
  | unsupportedTemporalType (table column : Int64) (type : ColumnType)
  | unavailable (reason : String)
  | internal (reason : String)
  deriving DecidableEq

namespace MetadataError

def code : MetadataError → String
  | tableNotFound _ => "SHARD_METADATA_TABLE_NOT_FOUND"
  | columnNotFound _ _ => "SHARD_METADATA_COLUMN_NOT_FOUND"
  | unsupportedTemporalType _ _ _ => "SHARD_METADATA_UNSUPPORTED_TEMPORAL_TYPE"
  | unavailable _ => "SHARD_METADATA_UNAVAILABLE"
  | internal _ => "SHARD_METADATA_INTERNAL"

def message : MetadataError → String
  | tableNotFound table => "Table not found: " ++ Decimal.int64Text table
  | columnNotFound table column =>
    "Column " ++ Decimal.int64Text column ++ " not found in table " ++
      Decimal.int64Text table
  | unsupportedTemporalType table column type =>
    "Temporal column " ++ Decimal.int64Text column ++ " of table " ++
      Decimal.int64Text table ++ " has non-temporal type " ++ type.name
  | unavailable reason => "Metadata store unavailable: " ++ reason
  | internal reason => "Internal error: " ++ reason

end MetadataError

end ShardCompaction
