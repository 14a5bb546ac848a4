import Pdc.Commons.Generic
import Pdc.Lib.Binary64
import Pdc.Lib.Codec

/-!
# Building data queries (`pdc_query.c`, `pdc_query.h`)

A query is a tree. A leaf is a constraint, one comparison of an object's
elements with a value, or two of them once `PDCquery_and` has made a range of
a lower and an upper bound on the same object; the inner nodes join two
queries with AND or OR.

The value of a constraint is a `double` used as eight bytes of storage:
`PDCquery_create` copies the bytes of the caller's value over it. It is kept
here as its 64 bits. `rawValue` reads a value of the constraint's type back
out of those bits; `castDouble` is what the code does in several places
instead, a conversion of the number that the bits spell as a `double`.

Converting a `double` that does not fit the integer type is undefined.
What a machine does then, and how it compares the bounds and the elements of
floating-point constraints, is a parameter of the model.
-/

namespace Pdc

open Lib

/-- `pdc_query_op_t`. -/
inductive QueryOp where
  | none | gt | lt | gte | lte | eq
  deriving DecidableEq, Repr

/-- `pdc_query_combine_op_t`, as it is passed to a leaf. -/
inductive CombineOp where
  | none | and | or
  deriving DecidableEq, Repr

/-- The combine operators an inner node can have. -/
inductive Connective where
  | and | or
  deriving DecidableEq, Repr

def Connective.combineOp : Connective → CombineOp
  | .and => .and
  | .or => .or

/-- `pdc_query_constraint_t`. The values are the bits of the two doubles. -/
structure Constraint where
  objId : UInt64
  op : QueryOp
  type : CVarType
  value : UInt64
  isRange : Bool
  op2 : QueryOp
  value2 : UInt64
  deriving DecidableEq, Repr

/-- A `pdc_query_t`: a constraint, or two queries and an operator. -/
inductive QueryTree (α : Type) where
  | leaf (a : α)
  | node (op : Connective) (left right : QueryTree α)
  deriving DecidableEq, Repr

abbrev Query := QueryTree Constraint

/-! ## Values -/

/-- `PDC_get_var_type_size`: the types it does not know have size zero. -/
def getVarTypeSize : CVarType → Nat
  | .char | .int8 | .uint8 => 1
  | .int16 | .uint16 => 2
  | .int | .uint | .float => 4
  | .int64 | .uint64 | .double => 8
  | _ => 0

def CVarType.signed : CVarType → Bool
  | .uint | .uint8 | .uint16 | .uint64 => false
  | _ => true

/-- The integer types a query can be made for. -/
def CVarType.IsInteger (ty : CVarType) : Prop :=
  ty ≠ .float ∧ ty ≠ .double ∧ 0 < getVarTypeSize ty

instance (ty : CVarType) : Decidable ty.IsInteger :=
  inferInstanceAs (Decidable (_ ∧ _ ∧ _))

/-- The smallest value of an integer type. -/
def CVarType.min (ty : CVarType) : Int :=
  if ty.signed then -2 ^ (8 * getVarTypeSize ty - 1) else 0

/-- The largest value of an integer type. -/
def CVarType.max (ty : CVarType) : Int :=
  if ty.signed then 2 ^ (8 * getVarTypeSize ty - 1) - 1 else 2 ^ (8 * getVarTypeSize ty) - 1

def CVarType.InRange (ty : CVarType) (n : Int) : Prop := ty.min ≤ n ∧ n ≤ ty.max

instance (ty : CVarType) (n : Int) : Decidable (ty.InRange n) :=
  inferInstanceAs (Decidable (_ ∧ _))

/-- The integer whose bytes a constraint's value starts with, `*(T *)&value`. -/
def rawValue (ty : CVarType) (bits : UInt64) : Int :=
  let n := bits.toNat % 2 ^ (8 * getVarTypeSize ty)
  if ty.signed then Int.bmod n (2 ^ (8 * getVarTypeSize ty)) else n

/-- What the C standard leaves to the machine, and its floating-point
comparisons: of two bounds, and of an element, by its bits, with a constraint. -/
structure Machine where
  conversion : CVarType → UInt64 → Int
  floatLe : CVarType → UInt64 → UInt64 → Bool
  floatTest : Constraint → Int → Bool

/-- A constraint's value converted to an integer type, `(T)value`. -/
def castDouble (m : Machine) (ty : CVarType) (bits : UInt64) : Int :=
  match truncBinary64 bits with
  | none => m.conversion ty bits
  | some n => if ty.InRange n then n else m.conversion ty bits

/-! ## Queries -/

/-- `PDCquery_create`, with the bytes its value points to. -/
def queryCreate (objId : UInt64) (op : QueryOp) (ty : CVarType) (value : Bytes) : Option Query :=
  if objId = 0 ∨ op = .none then none
  else some (.leaf
    { objId := objId, op := op, type := ty
      value := UInt64.ofNat (leNat (value.take (getVarTypeSize ty)))
      isRange := false, op2 := .none, value2 := 0 })

def QueryOp.isLower : QueryOp → Bool
  | .gt | .gte => true
  | _ => false

def QueryOp.isUpper : QueryOp → Bool
  | .lt | .lte => true
  | _ => false

/-- The `switch` of `PDCquery_and`: whether the bounds are in order. Other
types than these are an error. -/
def boundsInOrder (m : Machine) (ty : CVarType) (lo hi : UInt64) : Option Bool :=
  match ty with
  | .float | .double => some (m.floatLe ty lo hi)
  | .int | .uint | .int64 | .uint64 => some (castDouble m ty lo ≤ castDouble m ty hi)
  | _ => none

/-- Two constraints on one object, the lower bound first if there is one.
A lower and an upper bound in order become one range, which takes the second
comparison from the upper bound and everything else from the lower. -/
def combineConstraints (m : Machine) (c₁ c₂ : Constraint) : Option Query :=
  if c₁.op.isLower && c₂.op.isUpper then
    match boundsInOrder m c₁.type c₁.value c₂.value with
    | none => none
    | some true => some (.leaf { c₁ with isRange := true, op2 := c₂.op, value2 := c₂.value })
    | some false => some (.node .and (.leaf c₁) (.leaf c₂))
  else some (.node .and (.leaf c₁) (.leaf c₂))

/-- `PDCquery_and`. -/
def queryAnd (m : Machine) (q₁ q₂ : Query) : Option Query :=
  match q₁, q₂ with
  | .leaf c₁, .leaf c₂ =>
    if c₁.objId = c₂.objId ∧ c₁.type = c₂.type then
      if c₂.op.isLower && c₁.op.isUpper then combineConstraints m c₂ c₁
      else combineConstraints m c₁ c₂
    else some (.node .and q₁ q₂)
  | _, _ => some (.node .and q₁ q₂)

/-- `PDCquery_or`. -/
def queryOr (q₁ q₂ : Query) : Query := .node .or q₁ q₂

/-! ## What a query says -/

/-- A comparison of an element with a value. -/
def QueryOp.compare : QueryOp → Int → Int → Bool
  | .none, _, _ => false
  | .gt, x, v => decide (v < x)
  | .lt, x, v => decide (x < v)
  | .gte, x, v => decide (v ≤ x)
  | .lte, x, v => decide (x ≤ v)
  | .eq, x, v => decide (x = v)

/-- The elements a constraint on an integer object is about: those its
comparison holds of, and the second one too if it is a range. -/
def Constraint.holds (c : Constraint) (x : Int) : Bool :=
  c.op.compare x (rawValue c.type c.value) &&
    (!c.isRange || c.op2.compare x (rawValue c.type c.value2))

/-- The boolean formula of a tree. -/
def QueryTree.eval {α : Type} (leaf : α → Bool) : QueryTree α → Bool
  | .leaf a => leaf a
  | .node .and left right => left.eval leaf && right.eval leaf
  | .node .or left right => left.eval leaf || right.eval leaf

/-- Whether a query holds where the objects have these elements. -/
def QueryTree.denotes (q : Query) (element : UInt64 → Int) : Bool :=
  q.eval fun c => c.holds (element c.objId)

end Pdc
