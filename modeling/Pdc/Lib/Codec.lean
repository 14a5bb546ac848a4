import Mathlib.Data.List.Basic
import Mathlib.Tactic.Ring

/-!
# Byte formats

Writers here are functions to byte lists, and a reader takes what it needs
from the front of a byte list and returns the rest; it fails when it would
read past the end. `Reads p bs x` says that `p` takes exactly `bs` and
returns `x`, whatever follows. It is closed under sequencing
(`Reads.bind`) and repetition (`Reads.many`, `Reads.each`), so the reader of a
format is shown to undo its writer field by field.

Numbers are little endian, as on the machines this kind of code is written
for. `intBytes` is a 32-bit two's complement `int`: a value that does not fit
is written modulo `2 ^ 32` and read back as the `int` of the same bits.
-/

namespace Pdc.Lib

open List

variable {α γ β : Type} {bs rest : Bytes} {k n : Nat}

/-- A string of bytes. -/
abbrev Bytes := List UInt8

/-! ## Little endian numbers -/

/-- The `k` low bytes of a number, lowest first. -/
def leBytes : Nat → Nat → Bytes
  | 0, _ => []
  | k + 1, n => UInt8.ofNat n :: leBytes k (n / 256)

/-- The number a byte string spells, lowest byte first. -/
def leNat : Bytes → Nat
  | [] => 0
  | b :: bs => b.toNat + 256 * leNat bs

@[simp] theorem length_leBytes (k n : Nat) : (leBytes k n).length = k := by
  induction k generalizing n with
  | zero => rfl
  | succ k ih => rw [leBytes, length_cons, ih]

theorem leNat_leBytes (k n : Nat) : leNat (leBytes k n) = n % 256 ^ k := by
  induction k generalizing n with
  | zero => simp [leBytes, leNat, Nat.mod_one]
  | succ k ih =>
    have hmod : n % (256 * 256 ^ k) = n % 256 + 256 * (n / 256 % 256 ^ k) := Nat.mod_mul
    rw [leBytes, leNat, ih, Nat.pow_succ', hmod, UInt8.toNat_ofNat']

theorem leBytes_leNat (bs : Bytes) : leBytes bs.length (leNat bs) = bs := by
  induction bs with
  | nil => rfl
  | cons b bs ih =>
    have hlt := UInt8.toNat_lt b
    have hdiv : (b.toNat + 256 * leNat bs) / 256 = leNat bs := by omega
    have hbyte : UInt8.ofNat (b.toNat + 256 * leNat bs) = b := by
      rw [← UInt8.toNat_inj, UInt8.toNat_ofNat']
      omega
    rw [length_cons, leBytes, leNat, hdiv, ih, hbyte]

theorem length_flatMap_of_const {enc : γ → Bytes} {size : Nat} {xs : List γ}
    (h : ∀ x ∈ xs, (enc x).length = size) : (xs.flatMap enc).length = xs.length * size := by
  induction xs with
  | nil => simp
  | cons x xs ih =>
    rw [forall_mem_cons] at h
    rw [flatMap_cons, length_append, h.1, ih h.2, length_cons]
    ring

/-! ## Readers -/

/-- A reader of byte strings. -/
abbrev Reader (α : Type) := StateT Bytes Option α

/-- Take `k` bytes. -/
def readBytes (k : Nat) : Reader Bytes := fun bs =>
  if k ≤ bs.length then some (bs.take k, bs.drop k) else none

/-- Take a number of `k` bytes. -/
def readNat (k : Nat) : Reader Nat := do
  let bs ← readBytes k
  pure (leNat bs)

/-- Use a reader `k` times. -/
def readMany {α : Type} (p : Reader α) : Nat → Reader (List α)
  | 0 => pure []
  | k + 1 => do
      let x ← p
      let xs ← readMany p k
      pure (x :: xs)

/-- Use a reader that depends on it for each entry of a list. -/
def readEach {α β : Type} (p : α → Reader β) : List α → Reader (List β)
  | [] => pure []
  | x :: xs => do
      let y ← p x
      let ys ← readEach p xs
      pure (y :: ys)

theorem bind_apply (p : Reader α) (f : α → Reader β) (bs : Bytes) :
    (p >>= f) bs = (p bs).bind fun r => f r.1 r.2 := rfl

/-- The reader takes exactly `bs` and returns `x`, whatever follows. -/
def Reads {α : Type} (p : Reader α) (bs : Bytes) (x : α) : Prop :=
  ∀ rest, p (bs ++ rest) = some (x, rest)

namespace Reads

variable {α β : Type} {p : Reader α} {bs cs : Bytes} {x : α}

theorem pure (x : α) : Reads (Pure.pure x) [] x := fun _ => rfl

theorem bind_append (h : Reads p bs x) (f : α → Reader β) (rest : Bytes) :
    (p >>= f) (bs ++ rest) = f x rest := by
  rw [bind_apply, h, Option.bind_some]

theorem bind {f : α → Reader β} {y : β} (h : Reads p bs x) (h' : Reads (f x) cs y) :
    Reads (p >>= f) (bs ++ cs) y := by
  intro rest
  rw [append_assoc, h.bind_append, h']

theorem run_eq (h : Reads p bs x) : p bs = some (x, []) := by
  have hrun := h []
  rwa [append_nil] at hrun

theorem map (h : Reads p bs x) (f : α → β) : Reads (do let x ← p; Pure.pure (f x)) bs (f x) := by
  have hbind := h.bind (f := fun x => Pure.pure (f x)) (Reads.pure (f x))
  rwa [append_nil] at hbind

theorem map_eq (h : Reads p bs x) {f : α → β} {y : β} (hf : f x = y) :
    Reads (do let x ← p; Pure.pure (f x)) bs y := hf ▸ h.map f

theorem bytes (bs : Bytes) : Reads (readBytes bs.length) bs bs := by
  intro rest
  rw [readBytes, if_pos (by simp), take_left, drop_left]

theorem nat (hn : n < 256 ^ k) : Reads (readNat k) (leBytes k n) n := by
  have h := (Reads.bytes (leBytes k n)).map leNat
  rwa [length_leBytes, leNat_leBytes, Nat.mod_eq_of_lt hn] at h

theorem many {enc : γ → Bytes} {dec : γ → α} {xs : List γ} (h : ∀ x ∈ xs, Reads p (enc x) (dec x)) :
    Reads (readMany p xs.length) (xs.flatMap enc) (xs.map dec) := by
  induction xs with
  | nil => exact Reads.pure []
  | cons x xs ih =>
    rw [forall_mem_cons] at h
    exact h.1.bind ((ih h.2).map (dec x :: ·))

theorem each {p : α → Reader β} {enc : γ → Bytes} {known : γ → α} {dec : γ → β}
    {xs : List γ} (h : ∀ x ∈ xs, Reads (p (known x)) (enc x) (dec x)) :
    Reads (readEach p (xs.map known)) (xs.flatMap enc) (xs.map dec) := by
  induction xs with
  | nil => exact Reads.pure []
  | cons x xs ih =>
    rw [forall_mem_cons] at h
    exact h.1.bind ((ih h.2).map (dec x :: ·))

end Reads

theorem bind_eq_some {p : Reader α} {f : α → Reader β} {y : β} :
    (p >>= f) bs = some (y, rest) ↔ ∃ x cs, p bs = some (x, cs) ∧ f x cs = some (y, rest) := by
  rw [bind_apply, Option.bind_eq_some_iff, Prod.exists]

theorem pure_eq_some {x y : α} :
    (pure x : Reader α) bs = some (y, rest) ↔ x = y ∧ bs = rest := by
  have hrun : (pure x : Reader α) bs = some (x, bs) := rfl
  rw [hrun, Option.some.injEq, Prod.mk.injEq]

theorem failure_ne_some {res : α × Bytes} :
    (failure : Reader α) bs ≠ some res := (Option.some_ne_none res).symm

theorem readMany_eq_some {p : Reader α} {P : α → Prop}
    (hp : ∀ bs x rest, p bs = some (x, rest) → P x) :
    ∀ {k : Nat} {bs rest : Bytes} {xs : List α}, readMany p k bs = some (xs, rest) →
      xs.length = k ∧ ∀ x ∈ xs, P x := by
  intro k
  induction k with
  | zero =>
    intro bs rest xs h
    obtain ⟨rfl, _⟩ := pure_eq_some.mp h
    exact ⟨rfl, by simp⟩
  | succ k ih =>
    intro bs rest xs h
    obtain ⟨x, cs, hx, h⟩ := bind_eq_some.mp h
    obtain ⟨ys, ds, hys, h⟩ := bind_eq_some.mp h
    obtain ⟨rfl, _⟩ := pure_eq_some.mp h
    obtain ⟨hlen, hall⟩ := ih hys
    refine ⟨by rw [length_cons, hlen], ?_⟩
    rw [forall_mem_cons]
    exact ⟨hp _ _ _ hx, hall⟩

theorem readMany_add (p : Reader α) (k m : Nat) (bs : Bytes) :
    readMany p (k + m) bs = (readMany p k bs).bind fun r =>
      (readMany p m r.2).map fun r' => (r.1 ++ r'.1, r'.2) := by
  induction k generalizing bs with
  | zero =>
    rw [Nat.zero_add]
    exact (Option.map_id_apply).symm
  | succ k ih =>
    rw [Nat.add_right_comm]
    simp only [readMany, bind_apply, ih]
    cases p bs with
    | none => rfl
    | some r =>
      simp only [Option.bind_some]
      cases readMany p k r.2 with
      | none => rfl
      | some r' =>
        have hpure : (pure (r.1 :: r'.1) : Reader (List α)) r'.2 = some (r.1 :: r'.1, r'.2) := rfl
        simp only [Option.bind_some, hpure]
        cases readMany p m r'.2 <;> rfl

/-- There are no more records than have been read when nothing is left. -/
theorem readMany_eq_none {p : Reader α} {xs : List α}
    (h : readMany p k bs = some (xs, [])) (hp : p [] = none) (hn : k < n) :
    readMany p n bs = none := by
  obtain ⟨m, rfl⟩ := Nat.exists_eq_add_of_lt hn
  have hrest : readMany p (m + 1) [] = none := by
    rw [readMany, bind_apply, hp]
    rfl
  rw [Nat.add_assoc, readMany_add, h, Option.bind_some, hrest]
  rfl

/-! ## The machine's integers -/

/-- A `uint64_t`. -/
def u64Bytes (x : UInt64) : Bytes := leBytes 8 x.toNat

/-- A `uint32_t`. -/
def u32Bytes (x : UInt32) : Bytes := leBytes 4 x.toNat

/-- An `int`. -/
def intBytes (n : Int) : Bytes := leBytes 4 (n % 2 ^ 32).toNat

/-- Take a `uint64_t`. -/
def readU64 : Reader UInt64 := do
  let n ← readNat 8
  pure (UInt64.ofNat n)

/-- Take a `uint32_t`. -/
def readU32 : Reader UInt32 := do
  let n ← readNat 4
  pure (UInt32.ofNat n)

/-- Take an `int`. -/
def readInt : Reader Int := do
  let n ← readNat 4
  pure (Int.bmod n (2 ^ 32))

@[simp] theorem length_u64Bytes (x : UInt64) : (u64Bytes x).length = 8 := length_leBytes ..

@[simp] theorem length_u32Bytes (x : UInt32) : (u32Bytes x).length = 4 := length_leBytes ..

@[simp] theorem length_intBytes (n : Int) : (intBytes n).length = 4 := length_leBytes ..

theorem Reads.u64 (x : UInt64) : Reads readU64 (u64Bytes x) x := by
  have h := (Reads.nat (k := 8) (UInt64.toNat_lt x)).map UInt64.ofNat
  rwa [UInt64.ofNat_toNat] at h

theorem Reads.u32 (x : UInt32) : Reads readU32 (u32Bytes x) x := by
  have h := (Reads.nat (k := 4) (UInt32.toNat_lt x)).map UInt32.ofNat
  rwa [UInt32.ofNat_toNat] at h

theorem Reads.int_bmod (n : Int) : Reads readInt (intBytes n) (Int.bmod n (2 ^ 32)) := by
  have hlt : (n % 2 ^ 32).toNat < 256 ^ 4 := by
    have := Int.emod_lt_of_pos n (by decide : (0 : Int) < 2 ^ 32)
    omega
  have h := (Reads.nat hlt).map fun m => Int.bmod m (2 ^ 32)
  have hcast : ((n % 2 ^ 32).toNat : Int) = n % 2 ^ 32 := by omega
  rw [hcast] at h
  have hbmod : Int.bmod (n % 2 ^ 32) (2 ^ 32) = Int.bmod n (2 ^ 32) := by
    exact_mod_cast Int.emod_bmod n (2 ^ 32)
  rwa [hbmod] at h

theorem Reads.int {n : Int} (h₁ : -2 ^ 31 ≤ n) (h₂ : n < 2 ^ 31) :
    Reads readInt (intBytes n) n := by
  have h := Reads.int_bmod n
  rwa [Int.bmod_eq_of_le (by omega) (by omega)] at h

/-- A `uint64_t` array. -/
def u64sBytes (xs : List UInt64) : Bytes := xs.flatMap u64Bytes

theorem length_u64sBytes (xs : List UInt64) : (u64sBytes xs).length = 8 * xs.length := by
  rw [u64sBytes, length_flatMap_of_const fun x _ => length_u64Bytes x, Nat.mul_comm]

theorem Reads.u64s (xs : List UInt64) : Reads (readMany readU64 xs.length) (u64sBytes xs) xs := by
  have h : Reads _ (xs.flatMap u64Bytes) (xs.map id) := Reads.many fun x _ => Reads.u64 x
  rwa [map_id] at h

/-- The array of `k` numbers that bytes spell. -/
def u64sOf : Nat → Bytes → List UInt64
  | 0, _ => []
  | k + 1, bs => UInt64.ofNat (leNat (bs.take 8)) :: u64sOf k (bs.drop 8)

@[simp] theorem length_u64sOf (k : Nat) (bs : Bytes) : (u64sOf k bs).length = k := by
  induction k generalizing bs with
  | zero => rfl
  | succ k ih => rw [u64sOf, length_cons, ih]

theorem u64sBytes_u64sOf (h : bs.length = 8 * k) :
    u64sBytes (u64sOf k bs) = bs := by
  induction k generalizing bs with
  | zero =>
    rw [length_eq_zero_iff.mp h]
    rfl
  | succ k ih =>
    have htake : (bs.take 8).length = 8 := by rw [length_take]; omega
    have hfirst : u64Bytes (UInt64.ofNat (leNat (bs.take 8))) = bs.take 8 := by
      have hround := leBytes_leNat (bs.take 8)
      have hbound : leNat (bs.take 8) < 2 ^ 64 := by
        have hmod := leNat_leBytes 8 (leNat (bs.take 8))
        rw [htake] at hround
        rw [hround] at hmod
        rw [hmod]
        exact Nat.mod_lt _ (by decide)
      rw [u64Bytes, UInt64.toNat_ofNat', Nat.mod_eq_of_lt hbound]
      rwa [htake] at hround
    rw [u64sOf, u64sBytes, flatMap_cons, hfirst]
    have hrest := @ih (bs.drop 8) (by rw [length_drop]; omega)
    rw [u64sBytes] at hrest
    rw [hrest, take_append_drop]

theorem u64sBytes_inj {xs ys : List UInt64} (hlen : xs.length = ys.length)
    (h : u64sBytes xs = u64sBytes ys) : xs = ys := by
  have hx := (Reads.u64s xs).run_eq
  have hy := (Reads.u64s ys).run_eq
  rw [hlen, h, hy] at hx
  simpa using hx.symm

/-! ## Structs

A struct is written as it stands in memory. Its layout is the compiler's: a number
of bytes, from which another process reads back the values that are in the struct
itself. What it finds where there was a pointer is another matter, and `Kept`
says for a kind of struct what is known of the value that is read. -/

/-- A layout of a kind of struct, for values that fit their fields. -/
structure StructImage (α : Type) (Kept : α → α → Prop) where
  size : Nat
  Fits : α → Prop
  image : α → Bytes
  ofImage : Bytes → α
  length_image : ∀ {a}, Fits a → (image a).length = size
  kept : ∀ {a}, Fits a → Kept a (ofImage (image a))

/-- Take a struct. -/
def StructImage.read {α : Type} {Kept : α → α → Prop} (layout : StructImage α Kept) : Reader α := do
  let bs ← readBytes layout.size
  pure (layout.ofImage bs)

theorem StructImage.reads {Kept : α → α → Prop} (layout : StructImage α Kept) {a : α}
    (h : layout.Fits a) : Reads layout.read (layout.image a) (layout.ofImage (layout.image a)) := by
  have hread := (Reads.bytes (layout.image a)).map layout.ofImage
  rwa [layout.length_image h] at hread

end Pdc.Lib
