import Mathlib.Data.List.Basic

/-!
# The types of stored data (`pdc_generic.h`)

The enumeration every part of the library shares, in the order of its
values, and the size of each type.
-/

namespace Pdc

/-- `pdc_c_var_type_t`, in the order of its values. -/
inductive CVarType where
  | unknown | short | int | uint | long | int8 | uint8 | int16 | uint16 | int32 | uint32
  | int64 | uint64 | float | double | char | string | boolean | voidPtr | sizeT
  | bulki | bulkiEnt
  deriving DecidableEq, Repr

/-- `pdc_c_var_class_t`. -/
inductive CVarClass where
  | item | array
  deriving DecidableEq, Repr

namespace CVarType

def all : List CVarType :=
  [unknown, short, int, uint, long, int8, uint8, int16, uint16, int32, uint32, int64, uint64,
    float, double, char, string, boolean, voidPtr, sizeT, bulki, bulkiEnt]

/-- The number of a type in the enumeration. -/
def value (ty : CVarType) : Nat := ty.ctorIdx

def ofValue (n : Nat) : Option CVarType := all[n]?

end CVarType

/-- `get_size_by_dtype`, the table `DataTypeSizes`. -/
def getSizeByDtype : CVarType → Nat
  | .unknown => 0
  | .int8 | .uint8 | .char | .boolean => 1
  | .short | .int16 | .uint16 => 2
  | .int | .uint | .int32 | .uint32 | .float => 4
  | .long | .int64 | .uint64 | .double | .string | .voidPtr | .sizeT | .bulki | .bulkiEnt => 8

end Pdc
