import Pdc.Lib.Buffer

/-!
# The file under a storage object

The storage path assumes nothing of POSIX beyond a file that is an array of
bytes with a current position: `write` puts every byte it is given at the
position and moves it, a hole left behind the end reads as zeros, and
`pread` returns what is there, fewer bytes when the file ends.

`serverPosixWrite` is `PDC_Server_posix_write`, which cuts a write into
pieces of at most one gigabyte. On such a file the pieces add up to a single
write and no error path is taken; `serverPosixWrite_eq` is all the rest of
the model uses of it.
-/

namespace Pdc

open List Lib

variable {bytes data buf : List UInt8} {pos : Nat}

/-- `perr_t`. -/
inductive Perr where
  | succeed
  | fail
  deriving DecidableEq, Repr

/-- An open file: its bytes and the descriptor's position. -/
structure File where
  bytes : List UInt8
  pos : Nat
  deriving DecidableEq, Repr

/-- The bytes of a file after `data` is written at `pos`. -/
def pwrite (bytes : List UInt8) (pos : Nat) (data : List UInt8) : List UInt8 :=
  if data.isEmpty then bytes
  else
    memcpy (bytes ++ List.replicate (pos + data.length - bytes.length) 0) pos data 0 data.length

namespace File

/-- `lseek(fd, off, SEEK_SET)`. -/
def seekSet (f : File) (off : Nat) : File := { f with pos := off }

/-- `lseek(fd, 0, SEEK_END)`, with the offset it returns. -/
def seekEnd (f : File) : File × Nat := ({ f with pos := f.bytes.length }, f.bytes.length)

/-- `write(fd, buf + s, n)`, with the count it returns. -/
def write (f : File) (buf : List UInt8) (s n : Nat) : File × Int :=
  ({ bytes := pwrite f.bytes f.pos (slice buf s n), pos := f.pos + n }, n)

/-- The bytes `pread(fd, _, n, off)` delivers. -/
def pread (f : File) (n off : Nat) : List UInt8 := slice f.bytes off n

end File

/-- What `malloc(n)` returns: a block whose bytes nobody has set. -/
def malloc (junk : Nat → UInt8) (n : Nat) : List UInt8 := (List.range n).map junk

@[simp] theorem length_malloc (junk : Nat → UInt8) (n : Nat) : (malloc junk n).length = n := by
  simp [malloc]

/-- `pread(fd, buf + k, n, off)`. -/
def preadInto (f : File) (buf : List UInt8) (k n off : Nat) : List UInt8 :=
  memcpy buf k (f.pread n off) 0 (f.pread n off).length

/-- `max_write_size`, one gigabyte. -/
def maxWriteSize : Nat := 1073741824

/-- One `write` of `PDC_Server_posix_write` and the check of its result. -/
def posixWriteOnce (f : File) (buf : List UInt8) (s n : Nat) : File × Perr :=
  let (f', ret) := f.write buf s n
  (f', if ret < 0 ∨ ret ≠ n then .fail else .succeed)

/-- The loop of `PDC_Server_posix_write`, with the number of full pieces as
fuel. -/
def posixWriteLoop (buf : List UInt8) : Nat → File → Nat → Nat → File × Perr
  | 0, f, s, n => posixWriteOnce f buf s n
  | fuel + 1, f, s, n =>
    if n > maxWriteSize then
      match posixWriteOnce f buf s maxWriteSize with
      | (f', .fail) => (f', .fail)
      | (f', .succeed) => posixWriteLoop buf fuel f' (s + maxWriteSize) (n - maxWriteSize)
    else posixWriteOnce f buf s n

/-- `PDC_Server_posix_write(fd, buf + s, write_size)`. -/
def serverPosixWrite (f : File) (buf : List UInt8) (s writeSize : Nat) : File × Perr :=
  posixWriteLoop buf (writeSize / maxWriteSize) f s writeSize

/-! ## What the writes amount to -/

theorem pwrite_nil (bytes : List UInt8) (pos : Nat) : pwrite bytes pos [] = bytes := rfl

theorem pwrite_eq_memcpy (h : pos + data.length ≤ bytes.length) :
    pwrite bytes pos data = memcpy bytes pos data 0 data.length := by
  rw [pwrite, Nat.sub_eq_zero_of_le h]
  split
  · next hd =>
    rw [List.isEmpty_iff] at hd
    rw [hd, length_nil, memcpy_zero]
  · rw [replicate_zero, append_nil]

theorem length_pwrite_of_ne (h : data ≠ []) :
    (pwrite bytes pos data).length = max bytes.length (pos + data.length) := by
  rw [pwrite, if_neg (by simpa using h), length_memcpy, length_append, length_replicate]
  omega

theorem pwrite_getElem?_of_not {k : Nat} (hk : ¬(pos ≤ k ∧ k < pos + data.length))
    (hd : data ≠ []) :
    (pwrite bytes pos data)[k]? =
      if k < bytes.length then bytes[k]? else if k < pos then some 0 else none := by
  rw [pwrite, if_neg (by simpa using hd), memcpy_getElem?_of_not hk, getElem?_append]
  split
  · rfl
  · next hlt =>
    rw [getElem?_replicate]
    by_cases hp : k < pos
    · rw [if_pos (by omega), if_pos hp]
    · rw [if_neg (by omega), if_neg hp]

theorem pwrite_getElem?_of_mem {k : Nat} (h₁ : pos ≤ k) (h₂ : k < pos + data.length) :
    (pwrite bytes pos data)[k]? = data[k - pos]? := by
  have hd : ¬ data.isEmpty = true := by
    rw [List.isEmpty_iff]
    rintro rfl
    simp at h₂
    omega
  rw [pwrite, if_neg hd, memcpy_getElem?_of_mem (by
    rw [length_append, length_replicate]; omega) (by omega) h₁ h₂, Nat.zero_add]

theorem pwrite_end (bytes data : List UInt8) : pwrite bytes bytes.length data = bytes ++ data := by
  by_cases hd : data = []
  · rw [hd, pwrite_nil, append_nil]
  · refine ext_getElem? fun k => ?_
    by_cases hk : bytes.length ≤ k ∧ k < bytes.length + data.length
    · rw [pwrite_getElem?_of_mem hk.1 hk.2, getElem?_append_right hk.1]
    · rw [pwrite_getElem?_of_not hk hd]
      by_cases hlt : k < bytes.length
      · rw [if_pos hlt, getElem?_append_left hlt]
      · rw [if_neg hlt, if_neg hlt, List.getElem?_eq_none]
        rw [length_append]
        omega

theorem pwrite_pwrite_adjacent (bytes : List UInt8) (pos : Nat) (a b : List UInt8) :
    pwrite (pwrite bytes pos a) (pos + a.length) b = pwrite bytes pos (a ++ b) := by
  by_cases ha : a = []
  · subst ha; rfl
  by_cases hb : b = []
  · subst hb; rw [pwrite_nil, append_nil]
  refine ext_getElem? fun k => ?_
  have hlen : (a ++ b).length = a.length + b.length := length_append
  by_cases hkb : pos + a.length ≤ k ∧ k < pos + a.length + b.length
  · rw [pwrite_getElem?_of_mem hkb.1 hkb.2, pwrite_getElem?_of_mem (by omega) (by omega),
      getElem?_append_right (by omega)]
    congr 1
    omega
  · rw [pwrite_getElem?_of_not hkb hb, length_pwrite_of_ne ha]
    by_cases hka : pos ≤ k ∧ k < pos + a.length
    · rw [if_pos (by omega), pwrite_getElem?_of_mem hka.1 hka.2,
        pwrite_getElem?_of_mem hka.1 (by omega), getElem?_append_left (by omega)]
    · rw [pwrite_getElem?_of_not hka ha, pwrite_getElem?_of_not (by omega) (by simp [ha])]
      repeat' split
      all_goals first | rfl | omega

theorem posixWriteOnce_eq (f : File) (buf : List UInt8) (s n : Nat) :
    posixWriteOnce f buf s n =
      ({ bytes := pwrite f.bytes f.pos (slice buf s n), pos := f.pos + n }, .succeed) := by
  rw [posixWriteOnce, File.write]
  simp only []
  rw [if_neg (by omega)]

theorem posixWriteLoop_eq : ∀ {fuel : Nat} {f : File} {s n : Nat},
    s + n ≤ buf.length → n / maxWriteSize ≤ fuel →
    posixWriteLoop buf fuel f s n =
      ({ bytes := pwrite f.bytes f.pos (slice buf s n), pos := f.pos + n }, .succeed) := by
  intro fuel
  induction fuel with
  | zero => intro f s n _ _; exact posixWriteOnce_eq f buf s n
  | succ fuel ih =>
    intro f s n hb hfuel
    rw [posixWriteLoop]
    split
    · next hn =>
      rw [posixWriteOnce_eq]
      simp only []
      have hlen : (slice buf s maxWriteSize).length = maxWriteSize := length_slice (by omega)
      have hdiv : (n - maxWriteSize) / maxWriteSize ≤ fuel := by
        rw [maxWriteSize] at *
        omega
      rw [ih (by omega) hdiv]
      simp only [Prod.mk.injEq, File.mk.injEq, and_true]
      constructor
      · rw [← slice_append_slice (m := maxWriteSize) (by omega) hb,
          ← pwrite_pwrite_adjacent, hlen]
      · omega
    · exact posixWriteOnce_eq f buf s n

theorem serverPosixWrite_eq {f : File} {s n : Nat} (h : s + n ≤ buf.length) :
    serverPosixWrite f buf s n =
      ({ bytes := pwrite f.bytes f.pos (slice buf s n), pos := f.pos + n }, .succeed) :=
  posixWriteLoop_eq h (Nat.le_refl _)

theorem serverPosixWrite_inside {f : File} {s n : Nat} (h : s + n ≤ buf.length)
    (hf : f.pos + n ≤ f.bytes.length) :
    serverPosixWrite f buf s n =
      ({ bytes := memcpy f.bytes f.pos buf s n, pos := f.pos + n }, .succeed) := by
  rw [serverPosixWrite_eq h, pwrite_eq_memcpy (by rw [length_slice h]; exact hf),
    length_slice h, memcpy_slice_src hf (by omega) h, Nat.add_zero]

theorem preadInto_inside {f : File} {k n off : Nat} (hf : off + n ≤ f.bytes.length)
    (hb : k + n ≤ buf.length) : preadInto f buf k n off = memcpy buf k f.bytes off n := by
  rw [preadInto, File.pread, length_slice hf, memcpy_slice_src hb (by omega) hf, Nat.add_zero]

end Pdc
