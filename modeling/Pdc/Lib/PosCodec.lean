import Pdc.Lib.Codec

/-!
# Byte formats that mention positions

Some formats write down where they are: a field holds its own offset in the
buffer, and the reader checks it. What a writer emits then depends on where
it starts, and a reader has to know its position. `PosReader` is a reader
over a cursor, the bytes that are left together with the position of the
first of them, and `ReadsAt p pos bs x` says that `p`, started at `pos`, takes
exactly `bs` and returns `x`, whatever follows. It is closed under sequencing
in the same way as `Reads`.

The numbers of such a format are usually varints: groups of seven bits, the
lowest first, with the high bit of a byte set when another group follows.
-/

namespace Pdc.Lib

/-- What is left of a buffer, and where in it that starts. -/
structure Cursor where
  pos : Nat
  rest : Bytes

/-- A reader that knows its position. -/
abbrev PosReader (α : Type) := StateT Cursor Option α

namespace PosReader

variable {α : Type}

def position : PosReader Nat := fun c => some (c.pos, c)

def bytes (k : Nat) : PosReader Bytes := fun c =>
  if k ≤ c.rest.length then some (c.rest.take k, ⟨c.pos + k, c.rest.drop k⟩) else none

def byte : PosReader UInt8 := fun c =>
  match c.rest with
  | [] => none
  | b :: rest => some (b, ⟨c.pos + 1, rest⟩)

/-- Fail unless a check passes. -/
def check (ok : Bool) : PosReader Unit := if ok then pure () else failure

/-- Use a reader `k` times. -/
def many (p : PosReader α) : Nat → PosReader (List α)
  | 0 => pure []
  | k + 1 => do
      let x ← p
      let xs ← many p k
      pure (x :: xs)

end PosReader

/-- Started at `pos`, the reader takes exactly `bs` and returns `x`. -/
def ReadsAt {α : Type} (p : PosReader α) (pos : Nat) (bs : Bytes) (x : α) : Prop :=
  ∀ rest, p ⟨pos, bs ++ rest⟩ = some (x, ⟨pos + bs.length, rest⟩)

namespace ReadsAt

variable {α β : Type} {p : PosReader α} {pos : Nat} {bs cs : Bytes} {x : α} {f : α → PosReader β}
  {y : β}

theorem pure (x : α) : ReadsAt (Pure.pure x) pos [] x := fun _ => rfl

theorem bind (h : ReadsAt p pos bs x)
    (h' : ReadsAt (f x) (pos + bs.length) cs y) : ReadsAt (p >>= f) pos (bs ++ cs) y := by
  intro rest
  have hrun : (p >>= f) ⟨pos, bs ++ (cs ++ rest)⟩ =
      (p ⟨pos, bs ++ (cs ++ rest)⟩).bind fun r => f r.1 r.2 := rfl
  rw [List.append_assoc, hrun, h, Option.bind_some, h', List.length_append, Nat.add_assoc]

theorem map (h : ReadsAt p pos bs x) (f : α → β) :
    ReadsAt (do let x ← p; Pure.pure (f x)) pos bs (f x) := by
  have hbind := h.bind (f := fun x => Pure.pure (f x)) (ReadsAt.pure (f x))
  rwa [List.append_nil] at hbind

theorem bind_nil (h : ReadsAt p pos [] x)
    (h' : ReadsAt (f x) pos cs y) : ReadsAt (p >>= f) pos cs y := by
  have hbind : ReadsAt (p >>= f) pos ([] ++ cs) y := h.bind h'
  rwa [List.nil_append] at hbind

theorem position : ReadsAt PosReader.position pos [] pos := fun _ => rfl

theorem check {ok : Bool} (h : ok = true) : ReadsAt (PosReader.check ok) pos [] () := by
  rw [h]
  exact ReadsAt.pure ()

theorem bytes (bs : Bytes) : ReadsAt (PosReader.bytes bs.length) pos bs bs := by
  intro rest
  rw [PosReader.bytes, if_pos (by simp), List.take_left, List.drop_left]

theorem byte (b : UInt8) : ReadsAt PosReader.byte pos [b] b := fun _ => rfl

theorem many_zero : ReadsAt (PosReader.many p 0) pos [] [] := ReadsAt.pure []

theorem many_succ {k : Nat} {xs : List α} (h : ReadsAt p pos bs x)
    (h' : ReadsAt (PosReader.many p k) (pos + bs.length) cs xs) :
    ReadsAt (PosReader.many p (k + 1)) pos (bs ++ cs) (x :: xs) := h.bind (h'.map (x :: ·))

theorem run_eq (h : ReadsAt p pos bs x) : p ⟨pos, bs⟩ = some (x, ⟨pos + bs.length, []⟩) := by
  have hrun := h []
  rwa [List.append_nil] at hrun

end ReadsAt

/-! ## Varints -/

/-- A number in at most `k + 1` groups of seven bits. -/
def varintBytes : Nat → Nat → Bytes
  | 0, n => [UInt8.ofNat (n % 128)]
  | k + 1, n =>
    if n / 128 = 0 then [UInt8.ofNat (n % 128)]
    else UInt8.ofNat (n % 128 + 128) :: varintBytes k (n / 128)

/-- The number at the front of a byte string, and how many bytes it takes. -/
def takeVarint : Bytes → Option (Nat × Nat)
  | [] => none
  | b :: bs =>
    if b.toNat < 128 then some (b.toNat, 1)
    else (takeVarint bs).map fun r => (b.toNat % 128 + 128 * r.1, r.2 + 1)

def PosReader.varint : PosReader Nat := fun c =>
  (takeVarint c.rest).map fun r => (r.1, ⟨c.pos + r.2, c.rest.drop r.2⟩)

theorem one_le_length_varintBytes (k n : Nat) : 1 ≤ (varintBytes k n).length := by
  cases k with
  | zero => exact Nat.le_refl 1
  | succ k =>
    rw [varintBytes]
    split
    · exact Nat.le_refl 1
    · rw [List.length_cons]
      omega

theorem length_varintBytes_le (k : Nat) {j n : Nat} (h : n < 128 ^ (j + 1)) :
    (varintBytes k n).length ≤ j + 1 := by
  induction k generalizing j n with
  | zero =>
    show 1 ≤ j + 1
    omega
  | succ k ih =>
    rw [varintBytes]
    split
    next => show 1 ≤ j + 1; omega
    next hn =>
      cases j with
      | zero => omega
      | succ j =>
        have hdiv : n / 128 < 128 ^ (j + 1) :=
          Nat.div_lt_of_lt_mul (by rwa [Nat.pow_succ'] at h)
        rw [List.length_cons]
        have := ih hdiv
        omega

theorem length_varintBytes_le_groups (k n : Nat) : (varintBytes k n).length ≤ k + 1 := by
  induction k generalizing n with
  | zero => exact Nat.le_refl 1
  | succ k ih =>
    rw [varintBytes]
    split
    · show 1 ≤ k + 2
      omega
    · rw [List.length_cons]
      have := ih (n / 128)
      omega

theorem takeVarint_append {k n : Nat} (h : n < 128 ^ (k + 1)) (rest : Bytes) :
    takeVarint (varintBytes k n ++ rest) = some (n, (varintBytes k n).length) := by
  have hlow : (UInt8.ofNat (n % 128)).toNat = n % 128 := by
    rw [UInt8.toNat_ofNat']
    omega
  induction k generalizing n with
  | zero =>
    have hn : n % 128 = n := Nat.mod_eq_of_lt (by omega)
    rw [varintBytes, List.singleton_append, takeVarint, hlow, if_pos (by omega), hn]
    rfl
  | succ k ih =>
    rw [varintBytes]
    split
    next hn =>
      have hn : n % 128 = n := Nat.mod_eq_of_lt (by omega)
      rw [List.singleton_append, takeVarint, hlow, if_pos (by omega), hn]
      rfl
    next =>
      have hhigh : (UInt8.ofNat (n % 128 + 128)).toNat = n % 128 + 128 := by
        rw [UInt8.toNat_ofNat']
        omega
      have hdiv : n / 128 < 128 ^ (k + 1) :=
        Nat.div_lt_of_lt_mul (by rwa [Nat.pow_succ'] at h)
      have hrest := ih hdiv (by rw [UInt8.toNat_ofNat']; omega)
      have hval : (n % 128 + 128) % 128 + 128 * (n / 128) = n := by omega
      rw [List.cons_append, takeVarint, hhigh, if_neg (by omega), hrest, Option.map_some,
        hval, List.length_cons]

theorem ReadsAt.varint {k n pos : Nat} (h : n < 128 ^ (k + 1)) :
    ReadsAt PosReader.varint pos (varintBytes k n) n := by
  intro rest
  rw [PosReader.varint, takeVarint_append h, Option.map_some, List.drop_left]

end Pdc.Lib
