import SchemaGraph.Json

/-! # Primitive types

Host types with a wire form of their own. -/

namespace SchemaGraph

inductive Primitive where
  | boolean | byte | sByte | char
  | int16 | int32 | int64 | uInt16 | uInt32 | uInt64
  | single | double | decimal
  | string | dateTime | dateTimeOffset | timeSpan | guid
deriving Repr, DecidableEq, Inhabited

namespace Primitive

/-- Every primitive, in the order of their indices. -/
def all : List Primitive :=
  [.boolean, .byte, .sByte, .char, .int16, .int32, .int64, .uInt16, .uInt32, .uInt64, .single,
    .double, .decimal, .string, .dateTime, .dateTimeOffset, .timeSpan, .guid]

def label : Primitive → String
  | .boolean => "boolean"
  | .byte => "byte"
  | .sByte => "sbyte"
  | .char => "char"
  | .int16 => "int16"
  | .int32 => "int32"
  | .int64 => "int64"
  | .uInt16 => "uint16"
  | .uInt32 => "uint32"
  | .uInt64 => "uint64"
  | .single => "single"
  | .double => "double"
  | .decimal => "decimal"
  | .string => "string"
  | .dateTime => "date_time"
  | .dateTimeOffset => "date_time_offset"
  | .timeSpan => "time_span"
  | .guid => "guid"

def hostName : Primitive → String
  | .boolean => "Boolean"
  | .byte => "Byte"
  | .sByte => "SByte"
  | .char => "Char"
  | .int16 => "Int16"
  | .int32 => "Int32"
  | .int64 => "Int64"
  | .uInt16 => "UInt16"
  | .uInt32 => "UInt32"
  | .uInt64 => "UInt64"
  | .single => "Single"
  | .double => "Double"
  | .decimal => "Decimal"
  | .string => "String"
  | .dateTime => "DateTime"
  | .dateTimeOffset => "DateTimeOffset"
  | .timeSpan => "TimeSpan"
  | .guid => "Guid"

def keyword? : Primitive → Option String
  | .boolean => some "bool"
  | .byte => some "byte"
  | .sByte => some "sbyte"
  | .char => some "char"
  | .int16 => some "short"
  | .int32 => some "int"
  | .int64 => some "long"
  | .uInt16 => some "ushort"
  | .uInt32 => some "uint"
  | .uInt64 => some "ulong"
  | .single => some "float"
  | .double => some "double"
  | .decimal => some "decimal"
  | .string => some "string"
  | .dateTime | .dateTimeOffset | .timeSpan | .guid => none

theorem mem_all (p : Primitive) : p ∈ all := by cases p <;> decide

/-! ## Wire form -/

structure Shape where
  type : String
  format : Option String
  /-- The number of characters of every value, if all have the same. -/
  length : Option Nat
  sample : Option String
deriving Repr, DecidableEq, Inhabited

def emptyGuid : String := "00000000-0000-0000-0000-000000000000"

def shape : Primitive → Shape
  | .boolean => ⟨"boolean", none, none, none⟩
  | .byte => ⟨"string", some "byte", none, none⟩
  | .sByte | .int16 | .uInt16 | .int32 => ⟨"integer", some "int32", none, none⟩
  | .uInt32 | .int64 | .uInt64 => ⟨"integer", some "int64", none, none⟩
  | .single => ⟨"number", some "float", none, none⟩
  | .double | .decimal => ⟨"number", some "double", none, none⟩
  | .string | .timeSpan => ⟨"string", none, none, none⟩
  | .dateTime | .dateTimeOffset => ⟨"string", some "date-time", none, none⟩
  | .char => ⟨"string", none, some 1, none⟩
  | .guid => ⟨"string", some "uuid", some emptyGuid.length, some emptyGuid⟩

end Primitive
end SchemaGraph
