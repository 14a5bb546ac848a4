import Pdc.Server.QueryRead
import Pdc.Proofs.QueryVisit
import Mathlib.Algebra.BigOperators.Ring.List
import Mathlib.Data.Fintype.Pi

/-!
# What is read for the selected coordinates

A region's buffer has the elements of its box one after another, the first
dimension fastest. Two things come between a coordinate and its element. A
region also claims the coordinates that lie just behind its box, and the first
region of the list that claims a coordinate is read. And in three dimensions
the offset leaves out the second one. So the element is the right one, whatever
the object has in it, just if the first region that claims the coordinate is
the one that has it, and it lies in the first plane of that region.

That is the loop. `PDC_Server_read_coords` finds its regions only if the object
is that of the leftmost leaf. `PDC_Server_recv_read_sel_obj_data` takes the size
of an element from the cache, where no type has ever been stored: it sends no
data at all.
-/

namespace Pdc

open List Lib

variable {c : Fin 1 → Nat}

/-! ## Objects in boxes -/

/-- The part of an object that a region has, in bytes. -/
structure Box (ndim : Nat) where
  start : Fin ndim → Nat
  count : Fin ndim → Nat

/-- The coordinate whose element has the byte at a position of the buffer. -/
def Box.coordAt {ndim : Nat} (unit : Nat) (b : Box ndim) (p : Nat) : Fin ndim → Nat := fun i =>
  (b.start i + p / ((List.ofFn b.count).take i).prod % b.count i) / unit

def Box.size {ndim : Nat} (b : Box ndim) : Nat := (List.ofFn b.count).prod

/-- The region of a box of an object, of which `data` has the bytes of each element. -/
def Box.region {ndim : Nat} (unit : Nat) (data : (Fin ndim → Nat) → Nat → UInt8) (b : Box ndim) :
    ReadRegion ndim where
  start := b.start
  count := b.count
  buf := (List.range b.size).map fun p => data (b.coordAt unit p) (p % unit)

def Box.Has {ndim : Nat} (unit : Nat) (b : Box ndim) (c : Fin ndim → Nat) : Prop :=
  ∀ i, b.start i ≤ c i * unit ∧ c i * unit < b.start i + b.count i

/-- An object of one to three dimensions in disjoint boxes. With more than one
dimension an element is one byte. -/
structure Tiles {ndim : Nat} (unit : Nat) (dims : Fin ndim → Nat) (boxes : List (Box ndim)) :
    Prop where
  ndim_pos : 0 < ndim
  ndim_le : ndim ≤ 3
  unit_pos : 0 < unit
  unit_eq : 1 < ndim → unit = 1
  aligned : ∀ b ∈ boxes, ∀ i, unit ∣ b.start i ∧ unit ∣ b.count i
  bound : ∀ b ∈ boxes, ∀ c, b.Has unit c → ∀ i, c i < dims i
  cover : ∀ c : Fin ndim → Nat, (∀ i, c i < dims i) → ∃ b ∈ boxes, b.Has unit c
  disjoint : boxes.Pairwise fun b b' => ∀ c, b.Has unit c → ¬ b'.Has unit c

def elementsAt {ndim : Nat} (unit : Nat) (data : (Fin ndim → Nat) → Nat → UInt8)
    (coords : List (Fin ndim → Nat)) : Bytes :=
  coords.flatMap fun c => (List.range unit).map (data c)

/-- The box claims a coordinate, its end included. -/
def Box.claims {ndim : Nat} (unit : Nat) (c : Fin ndim → Nat) (b : Box ndim) : Bool :=
  isCoordInRegion c unit ⟨b.start, b.count, []⟩

/-- The first box that claims the coordinate has it, in its first plane if there
are three dimensions. -/
def ReadExactly {ndim : Nat} (unit : Nat) (boxes : List (Box ndim)) (c : Fin ndim → Nat) : Prop :=
  ∃ b, boxes.find? (Box.claims unit c) = some b ∧ b.Has unit c ∧
    ∀ i : Fin ndim, ndim = 3 → i.val = 1 → c i = b.start i

section

variable {ndim unit : Nat} {dims : Fin ndim → Nat} {boxes : List (Box ndim)} {b : Box ndim}
  {c : Fin ndim → Nat} {data : (Fin ndim → Nat) → Nat → UInt8}
  {stray : ReadRegion ndim → Nat → UInt8}

theorem length_element (r : ReadRegion ndim) : (r.element stray unit c).length = unit := by
  rw [ReadRegion.element, length_map, length_range]

theorem Box.claims_of_has (hdim : 0 < ndim) (h : b.Has unit c) : b.claims unit c = true := by
  rw [Box.claims, isCoordInRegion, decide_eq_true hdim]
  refine decide_eq_true fun i hout => ?_
  have hi := h i
  dsimp only at hout
  omega

theorem find?_region (boxes : List (Box ndim)) :
    (boxes.map (Box.region unit data)).find? (isCoordInRegion c unit) =
      (boxes.find? (Box.claims unit c)).map (Box.region unit data) := by
  rw [find?_map]
  rfl

theorem Tiles.exists_claims (h : Tiles unit dims boxes) (hc : ∀ i, c i < dims i) :
    ∃ b ∈ boxes, boxes.find? (Box.claims unit c) = some b := by
  obtain ⟨b, hb, hhas⟩ := h.cover c hc
  cases hfind : boxes.find? (Box.claims unit c) with
  | none =>
    exact absurd (Box.claims_of_has h.ndim_pos hhas) (find?_eq_none.mp hfind b hb)
  | some b' => exact ⟨b', mem_of_find?_eq_some hfind, rfl⟩

/-! ## Offsets -/

theorem Box.getD_buf (p : Nat) (v : UInt8) :
    (b.region unit data).buf.getD p v =
      if p < b.size then data (b.coordAt unit p) (p % unit) else v := by
  rw [Box.region, getD_eq_getElem?_getD, getElem?_map]
  split
  · next hp => rw [getElem?_range hp]; rfl
  · next hp => rw [getElem?_eq_none (by rw [length_range]; omega)]; rfl

end

section

variable {n unit p : Nat}

theorem coordAt_zero (b : Box (n + 1)) :
    b.coordAt unit p 0 = (b.start 0 + p % b.count 0) / unit := by
  simp [Box.coordAt]

theorem coordAt_one (b : Box (n + 2)) :
    b.coordAt unit p 1 = (b.start 1 + p / b.count 0 % b.count 1) / unit := by
  simp [Box.coordAt, ofFn_succ]

theorem coordAt_two (b : Box 3) :
    b.coordAt unit p 2 = (b.start 2 + p / (b.count 0 * b.count 1) % b.count 2) / unit := by
  simp [Box.coordAt, ofFn_succ]

theorem size_one (b : Box 1) : b.size = b.count 0 := by
  simp [Box.size]

theorem size_two (b : Box 2) : b.size = b.count 0 * b.count 1 := by
  simp [Box.size, ofFn_succ]

theorem size_three (b : Box 3) : b.size = b.count 0 * (b.count 1 * b.count 2) := by
  simp [Box.size, ofFn_succ]

end

/-- The offset of a coordinate leads to its element. -/
def OffsetRight {ndim : Nat} (unit : Nat) (b : Box ndim) (c : Fin ndim → Nat) : Prop :=
  ∀ k < unit, coordToOffset ndim c b.start b.count unit + k < b.size ∧
    b.coordAt unit (coordToOffset ndim c b.start b.count unit + k) = c ∧
    (coordToOffset ndim c b.start b.count unit + k) % unit = k

theorem offsetRight_one {unit : Nat} {b : Box 1} (hstart : unit ∣ b.start 0)
    (hcount : unit ∣ b.count 0) (h : b.Has unit c) : OffsetRight unit b c := by
  intro k hk
  obtain ⟨a, ha⟩ := hstart
  obtain ⟨l, hl⟩ := hcount
  have hunit : 0 < unit := by omega
  obtain ⟨hlo, hhi⟩ := h 0
  rw [ha, Nat.mul_comm unit a] at hlo hhi
  rw [hl, Nat.mul_comm unit l, ← Nat.add_mul] at hhi
  have hle : a ≤ c 0 := Nat.le_of_mul_le_mul_right hlo hunit
  have hlt : c 0 < a + l := Nat.lt_of_mul_lt_mul_right hhi
  have hoff : coordToOffset 1 c b.start b.count unit = (c 0 - a) * unit := by
    show c 0 * unit - b.start 0 = _
    rw [ha, Nat.mul_comm unit a, Nat.sub_mul]
  have hend : (c 0 - a) * unit + k < l * unit :=
    calc (c 0 - a) * unit + k < (c 0 - a) * unit + unit := Nat.add_lt_add_left hk _
      _ = (c 0 - a + 1) * unit := by ring
      _ ≤ l * unit := Nat.mul_le_mul_right unit (by omega)
  refine ⟨?_, funext fun i => ?_, ?_⟩
  · rw [hoff, size_one, hl, Nat.mul_comm unit l]
    exact hend
  · obtain rfl : i = 0 := Subsingleton.elim i 0
    rw [coordAt_zero, hoff, hl, ha, Nat.mul_comm unit l, Nat.mod_eq_of_lt hend,
      Nat.mul_comm unit a, ← Nat.add_assoc, ← Nat.add_mul, Nat.add_comm _ k,
      Nat.add_mul_div_right _ _ hunit, Nat.div_eq_of_lt hk]
    omega
  · rw [hoff, Nat.add_comm, Nat.add_mul_mod_self_right, Nat.mod_eq_of_lt hk]

theorem offsetRight_two {b : Box 2} {c : Fin 2 → Nat} (h : b.Has 1 c) : OffsetRight 1 b c := by
  intro k hk
  obtain rfl : k = 0 := by omega
  have h0 := h 0
  have h1 := h 1
  have hoff : coordToOffset 2 c b.start b.count 1 =
      (c 1 - b.start 1) * b.count 0 + (c 0 - b.start 0) := by
    simp only [coordToOffset, Nat.mul_one]
  have hpos : 0 < b.count 0 := by omega
  have hmod : ((c 1 - b.start 1) * b.count 0 + (c 0 - b.start 0)) % b.count 0 =
      c 0 - b.start 0 := by
    rw [Nat.mul_add_mod_self_right, Nat.mod_eq_of_lt (by omega)]
  have hdiv : ((c 1 - b.start 1) * b.count 0 + (c 0 - b.start 0)) / b.count 0 =
      c 1 - b.start 1 := by
    rw [Nat.add_comm, Nat.add_mul_div_right _ _ hpos, Nat.div_eq_of_lt (by omega), Nat.zero_add]
  simp only [Nat.add_zero]
  refine ⟨?_, funext fun i => ?_, Nat.mod_one _⟩
  · rw [hoff, size_two, Nat.mul_comm (b.count 0)]
    calc (c 1 - b.start 1) * b.count 0 + (c 0 - b.start 0)
        < (c 1 - b.start 1) * b.count 0 + b.count 0 := by omega
      _ = (c 1 - b.start 1 + 1) * b.count 0 := by ring
      _ ≤ b.count 1 * b.count 0 := Nat.mul_le_mul_right _ (by omega)
  · match i with
    | 0 =>
      rw [coordAt_zero, hoff]
      omega
    | 1 =>
      rw [coordAt_one, hoff, Nat.mod_eq_of_lt (by omega)]
      omega

theorem coordToOffset_three {b : Box 3} {c : Fin 3 → Nat} (h : b.Has 1 c) :
    coordToOffset 3 c b.start b.count 1 % b.count 0 = c 0 - b.start 0 ∧
      coordToOffset 3 c b.start b.count 1 / b.count 0 = (c 2 - b.start 2) * b.count 1 ∧
      coordToOffset 3 c b.start b.count 1 / (b.count 0 * b.count 1) = c 2 - b.start 2 := by
  have h0 := h 0
  have h1 := h 1
  have hoff : coordToOffset 3 c b.start b.count 1 =
      (c 2 - b.start 2) * b.count 1 * b.count 0 + (c 0 - b.start 0) := by
    simp only [coordToOffset, Nat.mul_one]
    ring
  have hpos : 0 < b.count 0 := by omega
  have hdiv : coordToOffset 3 c b.start b.count 1 / b.count 0 = (c 2 - b.start 2) * b.count 1 := by
    rw [hoff, Nat.add_comm, Nat.add_mul_div_right _ _ hpos, Nat.div_eq_of_lt (by omega),
      Nat.zero_add]
  refine ⟨?_, hdiv, ?_⟩
  · rw [hoff, Nat.mul_add_mod_self_right, Nat.mod_eq_of_lt (by omega)]
  · rw [← Nat.div_div_eq_div_mul, hdiv, Nat.mul_div_cancel _ (by omega)]

theorem offsetRight_three {b : Box 3} {c : Fin 3 → Nat} (h : b.Has 1 c)
    (hplane : c 1 = b.start 1) : OffsetRight 1 b c := by
  intro k hk
  obtain rfl : k = 0 := by omega
  obtain ⟨hmod, hdiv, hdiv₂⟩ := coordToOffset_three h
  have h0 := h 0
  have h1 := h 1
  have h2 := h 2
  simp only [Nat.add_zero]
  refine ⟨?_, funext fun i => ?_, Nat.mod_one _⟩
  · have hplanes : coordToOffset 3 c b.start b.count 1 / (b.count 0 * b.count 1) < b.count 2 := by
      omega
    rw [Nat.div_lt_iff_lt_mul (Nat.mul_pos (by omega) (by omega))] at hplanes
    rwa [size_three, ← Nat.mul_assoc, Nat.mul_comm]
  · match i with
    | 0 =>
      rw [coordAt_zero]
      omega
    | 1 =>
      rw [coordAt_one, hdiv, Nat.mul_mod_left, Nat.div_one, hplane]
      rfl
    | 2 =>
      rw [coordAt_two, Nat.mod_eq_of_lt (by omega)]
      omega

section

variable {ndim unit : Nat} {dims : Fin ndim → Nat} {boxes : List (Box ndim)} {b : Box ndim}
  {c : Fin ndim → Nat} {data : (Fin ndim → Nat) → Nat → UInt8}
  {stray : ReadRegion ndim → Nat → UInt8} {junk : Nat → UInt8} {coords : List (Fin ndim → Nat)}
  {objId : UInt64} {α β : Type} {f : α → List β} {q : Query}

section

variable (h : Tiles unit dims boxes) (hb : b ∈ boxes)
include h hb

theorem Tiles.offsetRight (hhas : b.Has unit c)
    (hplane : ∀ i : Fin ndim, ndim = 3 → i.val = 1 → c i = b.start i) : OffsetRight unit b c := by
  match ndim, h.ndim_pos, h.ndim_le with
  | 1, _, _ => exact offsetRight_one (h.aligned b hb 0).1 (h.aligned b hb 0).2 hhas
  | 2, _, _ =>
    obtain rfl := h.unit_eq (by decide)
    exact offsetRight_two hhas
  | 3, _, _ =>
    obtain rfl := h.unit_eq (by decide)
    exact offsetRight_three hhas (hplane 1 rfl rfl)

theorem Tiles.has_coordAt {p : Nat} (hp : p < b.size) : b.Has unit (b.coordAt unit p) := by
  intro i
  have hpos : 0 < b.count i := by
    refine Nat.pos_of_ne_zero fun hzero => ?_
    have hprod : b.size = 0 := prod_eq_zero (mem_ofFn.mpr ⟨i, hzero⟩)
    omega
  obtain ⟨⟨a, ha⟩, ⟨l, hl⟩⟩ := h.aligned b hb i
  have hunit := h.unit_pos
  -- The place of the byte in this dimension.
  obtain ⟨q, hq⟩ : ∃ q, q = p / ((ofFn b.count).take i).prod % b.count i := ⟨_, rfl⟩
  have hlt : q / unit < l := by
    rw [Nat.div_lt_iff_lt_mul hunit, Nat.mul_comm, ← hl, hq]
    exact Nat.mod_lt _ hpos
  have hentry : b.coordAt unit p i = a + q / unit := by
    rw [Box.coordAt, ← hq, ha, Nat.add_comm, Nat.add_mul_div_left _ _ hunit, Nat.add_comm]
  rw [hentry, ha, hl, ← Nat.mul_add, Nat.mul_comm _ unit]
  exact ⟨Nat.mul_le_mul_left unit (Nat.le_add_right _ _),
    Nat.mul_lt_mul_of_pos_left (Nat.add_lt_add_left hlt a) hunit⟩

theorem Tiles.has_of_coordAt (hlt : coordToOffset ndim c b.start b.count unit < b.size)
    (hat : b.coordAt unit (coordToOffset ndim c b.start b.count unit) = c) :
    b.Has unit c ∧ ∀ i : Fin ndim, ndim = 3 → i.val = 1 → c i = b.start i := by
  have hhas : b.Has unit c := by
    have := h.has_coordAt hb hlt
    rwa [hat] at this
  refine ⟨hhas, fun i hdim hi => ?_⟩
  subst hdim
  obtain rfl := h.unit_eq (by decide)
  obtain rfl : i = 1 := Fin.ext hi
  have hentry := congrFun hat 1
  rw [coordAt_one, (coordToOffset_three hhas).2.1, Nat.mul_mod_left, Nat.div_one] at hentry
  exact hentry.symm

end

theorem element_of_offsetRight (h : OffsetRight unit b c) :
    (b.region unit data).element stray unit c = (range unit).map (data c) := by
  refine map_congr_left fun k hk => ?_
  obtain ⟨hlt, hat, hmod⟩ := h k (mem_range.mp hk)
  show (b.region unit data).buf.getD (coordToOffset ndim c b.start b.count unit + k) _ = _
  rw [Box.getD_buf, if_pos hlt, hat, hmod]

/-- What is read for a coordinate is right for every object just if the first
box that claims it has it, in its first plane. -/
theorem Tiles.element_iff (h : Tiles unit dims boxes) (hb : b ∈ boxes) :
    (∀ (data : (Fin ndim → Nat) → Nat → UInt8) (stray : ReadRegion ndim → Nat → UInt8),
        (b.region unit data).element stray unit c = (range unit).map (data c)) ↔
      b.Has unit c ∧ ∀ i : Fin ndim, ndim = 3 → i.val = 1 → c i = b.start i := by
  refine ⟨fun hall => ?_, fun ⟨hhas, hplane⟩ data stray =>
    element_of_offsetRight (h.offsetRight hb hhas hplane)⟩
  -- An object that is one at the coordinate and zero elsewhere, with zeros behind the buffers.
  have hone := hall (fun c' _ => if c' = c then 1 else 0) fun _ _ => 0
  have hfirst := congrArg (fun l : Bytes => l[0]?) hone
  simp only [ReadRegion.element, getElem?_map, getElem?_range h.unit_pos,
    Option.map_some, Option.some.injEq, Nat.add_zero, if_true] at hfirst
  rw [Box.getD_buf] at hfirst
  split at hfirst
  · next hlt =>
    split at hfirst
    · next hat => exact h.has_of_coordAt hb hlt hat
    · exact absurd hfirst (by decide)
  · exact absurd hfirst (by decide)

/-! ## The loop -/

def readBlock (unit : Nat) (data : (Fin ndim → Nat) → Nat → UInt8)
    (stray : ReadRegion ndim → Nat → UInt8) (boxes : List (Box ndim)) (c : Fin ndim → Nat) :
    Bytes :=
  ((boxes.find? (Box.claims unit c)).map fun b =>
    (b.region unit data).element stray unit c).getD []

theorem Tiles.length_readBlock (h : Tiles unit dims boxes) (hc : ∀ i, c i < dims i) :
    (readBlock unit data stray boxes c).length = unit := by
  obtain ⟨b, -, hfind⟩ := h.exists_claims hc
  rw [readBlock, hfind]
  exact length_element _

theorem length_flatMap_eq {l : List α} {k : Nat}
    (h : ∀ a ∈ l, (f a).length = k) : (l.flatMap f).length = l.length * k := by
  rw [length_flatMap, map_congr_left h, map_const', sum_replicate_nat]

theorem Tiles.assembleData_eq (h : Tiles unit dims boxes)
    (hcoords : ∀ c ∈ coords, ∀ i, c i < dims i) :
    assembleData stray junk unit (boxes.map (Box.region unit data)) coords =
      some (coords.flatMap (readBlock unit data stray boxes)) := by
  have hstart : Fill.Filled (coords.length * unit) []
      (⟨(range (coords.length * unit)).map junk, 0⟩ : Fill UInt8) :=
    .start (by rw [length_map, length_range])
  have hstep : ∀ f, ∀ c ∈ coords, readCoord stray unit (boxes.map (Box.region unit data)) f c =
      f.puts (readBlock unit data stray boxes c) := by
    intro f c hc
    obtain ⟨b, -, hfind⟩ := h.exists_claims (hcoords c hc)
    rw [readCoord, find?_region, readBlock, hfind]
    rfl
  have hlen : (coords.flatMap (readBlock unit data stray boxes)).length = coords.length * unit :=
    length_flatMap_eq fun c hc => h.length_readBlock (hcoords c hc)
  obtain ⟨f', hrun, hfilled⟩ := hstart.foldlM_puts hstep (by rw [hlen, length_nil, Nat.zero_add])
  rw [nil_append] at hfilled
  rw [assembleData, hrun, Option.map_some, hfilled.cells_eq hlen]

theorem flatMap_eq_flatMap_iff {g : α → List β} : ∀ {l : List α},
    (∀ a ∈ l, (f a).length = (g a).length) → (l.flatMap f = l.flatMap g ↔ ∀ a ∈ l, f a = g a)
  | [], _ => by simp
  | a :: l, h => by
      rw [forall_mem_cons] at h ⊢
      rw [flatMap_cons, flatMap_cons, ← flatMap_eq_flatMap_iff h.2]
      exact ⟨fun heq => append_inj heq h.1, fun heq => by rw [heq.1, heq.2]⟩

theorem Tiles.assembleData_iff (h : Tiles unit dims boxes)
    (hcoords : ∀ c ∈ coords, ∀ i, c i < dims i) :
    (∀ (data : (Fin ndim → Nat) → Nat → UInt8) (stray : ReadRegion ndim → Nat → UInt8)
        (junk : Nat → UInt8),
        assembleData stray junk unit (boxes.map (Box.region unit data)) coords =
          some (elementsAt unit data coords)) ↔
      ∀ c ∈ coords, ReadExactly unit boxes c := by
  have hblocks : ∀ (data : (Fin ndim → Nat) → Nat → UInt8)
      (stray : ReadRegion ndim → Nat → UInt8) (junk : Nat → UInt8),
      assembleData stray junk unit (boxes.map (Box.region unit data)) coords =
        some (elementsAt unit data coords) ↔
      ∀ c ∈ coords, readBlock unit data stray boxes c = (range unit).map (data c) := by
    intro data stray junk
    rw [h.assembleData_eq hcoords, Option.some.injEq]
    refine flatMap_eq_flatMap_iff fun c hc => ?_
    rw [h.length_readBlock (hcoords c hc), length_map, length_range]
  -- The read of one coordinate, for all objects.
  have hone : ∀ c ∈ coords, (∀ (data : (Fin ndim → Nat) → Nat → UInt8)
      (stray : ReadRegion ndim → Nat → UInt8),
      readBlock unit data stray boxes c = (range unit).map (data c)) ↔
        ReadExactly unit boxes c := by
    intro c hc
    obtain ⟨b, hb, hfind⟩ := h.exists_claims (hcoords c hc)
    simp only [readBlock, ReadExactly, hfind, Option.map_some, Option.getD_some,
      Option.some.injEq, exists_eq_left']
    exact h.element_iff hb
  constructor
  · intro hall c hc
    exact (hone c hc).mp fun data stray => (hblocks data stray
      fun _ => 0).mp (hall data stray _) c hc
  · intro hall data stray junk
    exact (hblocks data stray junk).mpr fun c hc => (hone c hc).mpr (hall c hc) data stray

theorem assembleData_zero (regions : List (ReadRegion ndim)) (coords : List (Fin ndim → Nat)) :
    assembleData stray junk 0 regions coords = some [] := by
  have hstep : ∀ c, readCoord stray 0 regions ⟨[], 0⟩ c = some ⟨[], 0⟩ := by
    intro c
    unfold readCoord
    split
    · rfl
    · rfl
  have hrun : coords.foldlM (readCoord stray 0 regions) ⟨[], 0⟩ = some ⟨[], 0⟩ := by
    induction coords with
    | nil => rfl
    | cons c coords ih =>
      rw [foldlM_cons, hstep]
      exact ih
  rw [assembleData, Nat.mul_zero, range_zero, map_nil, hrun]
  rfl

/-! ## The regions that are found -/

def QueryTree.leftmost {α : Type} : QueryTree α → α
  | .leaf a => a
  | .node _ l _ => l.leftmost

theorem getConstraintFromQuery_eq :
    ∀ q : QueryTree (Constraint × α), getConstraintFromQuery objId q =
      if q.leftmost.1.objId = objId then some q.leftmost else none
  | .leaf _ => rfl
  | .node _ l _ => by
      rw [getConstraintFromQuery, getConstraintFromQuery_eq l, QueryTree.leftmost]
      split
      · next c h => rw [h]
      · rfl

theorem leftmost_map (f : α → β) : ∀ q : QueryTree α, (q.map f).leftmost = f q.leftmost
  | .leaf _ => rfl
  | .node _ l _ => leftmost_map f l

theorem allLeaves_leftmost {P : α → Prop} : ∀ (q : QueryTree α),
    q.AllLeaves P → P q.leftmost
  | .leaf _, h => h
  | .node _ l _, h => allLeaves_leftmost l h.1

def cacheEntry (objId : UInt64) (regions : List (ReadRegion ndim)) :
    Option (CacheStorageRegion ndim) :=
  if regions.isEmpty then none else some ⟨objId, .unknown, regions⟩

theorem find?_prependRegion (objId o : UInt64) (r : ReadRegion ndim) :
    ∀ cache : List (CacheStorageRegion ndim),
      (prependRegion o r cache).find? (fun elt => decide (elt.objId = objId)) =
        (cache.find? fun elt => decide (elt.objId = objId)).map fun elt =>
          if o = objId then { elt with regions := r :: elt.regions } else elt
  | [] => rfl
  | elt :: cache => by
      have ih := find?_prependRegion objId o r cache
      unfold prependRegion
      by_cases ho : elt.objId = o
      · rw [if_pos ho]
        by_cases hobj : elt.objId = objId
        · simp [hobj, ← ho]
        · have hne : o ≠ objId := fun h => hobj (ho.trans h)
          simp [hobj, hne]
      · rw [if_neg ho]
        by_cases hobj : elt.objId = objId
        · have hne : o ≠ objId := fun h => ho (hobj.trans h.symm)
          simp [hobj, hne]
        · simp only [find?_cons, decide_eq_false hobj, ih]

theorem find?_addToCacheStorageRegion {cache : List (CacheStorageRegion ndim)}
    {rs : List (ReadRegion ndim)}
    (h : (cache.find? fun elt => decide (elt.objId = objId)) = cacheEntry objId rs)
    (add : UInt64 × ReadRegion ndim) :
    ((addToCacheStorageRegion cache add).find? fun elt => decide (elt.objId = objId)) =
      cacheEntry objId (if add.1 = objId then add.2 :: rs else rs) := by
  unfold addToCacheStorageRegion
  by_cases hobj : add.1 = objId
  · rw [if_pos hobj, hobj]
    cases rs with
    | nil =>
      -- The object has no entry yet.
      have hnone : ¬ (cache.any fun elt => decide (elt.objId = objId)) = true := by
        rw [Bool.not_eq_true, any_eq_false]
        exact find?_eq_none.mp h
      rw [if_neg hnone, find?_cons_of_pos (by simp)]
      rfl
    | cons r rs =>
      have hsome : (cache.any fun elt => decide (elt.objId = objId)) = true :=
        any_eq_true.mpr ⟨_, mem_of_find?_eq_some h, decide_eq_true rfl⟩
      rw [if_pos hsome, find?_prependRegion, h]
      simp [cacheEntry]
  · rw [if_neg hobj, ← h]
    split
    · rw [find?_prependRegion]
      simp [hobj]
    · rw [find?_cons_of_neg (by simpa using hobj)]

/-- The cache of an object after any number of regions, of any objects: those of
the object, the last one first, and no type. -/
theorem find?_cache (objId : UInt64) : ∀ (adds : List (UInt64 × ReadRegion ndim))
    {cache : List (CacheStorageRegion ndim)} {rs : List (ReadRegion ndim)},
    (cache.find? fun elt => decide (elt.objId = objId)) = cacheEntry objId rs →
    ((adds.foldl addToCacheStorageRegion cache).find? fun elt => decide (elt.objId = objId)) =
      cacheEntry objId (((adds.filter fun add => add.1 = objId).map Prod.snd).reverse ++ rs)
  | [], _, _, h => h
  | add :: adds, cache, rs, h => by
      rw [foldl_cons, find?_cache objId adds (find?_addToCacheStorageRegion h add)]
      by_cases hobj : add.1 = objId
      · rw [if_pos hobj, filter_cons_of_pos (by simpa using hobj), map_cons,
          reverse_cons, append_assoc, singleton_append]
      · rw [if_neg hobj, filter_cons_of_neg (by simpa using hobj)]

/-! ## The two functions -/

/-- `PDC_Server_read_coords` sends the elements at the coordinates, whatever the
object has in it and whatever other objects the query is about. -/
def CoordsRead (unit : Nat) (boxes : List (Box ndim)) (q : Query) (objId : UInt64)
    (coords : List (Fin ndim → Nat)) : Prop :=
  ∀ (data : (Fin ndim → Nat) → Nat → UInt8) (stray : ReadRegion ndim → Nat → UInt8)
    (junk : Nat → UInt8) (regions : UInt64 → List (ReadRegion ndim)),
    regions objId = boxes.map (Box.region unit data) →
    serverReadCoords stray junk (q.map fun c => (c, regions c.objId)) objId coords =
      some (elementsAt unit data coords)

/-- `PDC_Server_recv_read_sel_obj_data` sends the elements at the coordinates,
whatever the object has in it and whatever else has been cached. -/
def SelectionRead (unit : Nat) (boxes : List (Box ndim)) (objId : UInt64)
    (coords : List (Fin ndim → Nat)) : Prop :=
  ∀ (data : (Fin ndim → Nat) → Nat → UInt8) (stray : ReadRegion ndim → Nat → UInt8)
    (junk : Nat → UInt8) (adds : List (UInt64 × ReadRegion ndim)),
    ((adds.filter fun add => add.1 = objId).map Prod.snd).reverse =
      boxes.map (Box.region unit data) →
    recvReadSelObjData stray junk (adds.foldl addToCacheStorageRegion []) objId coords =
      some (elementsAt unit data coords)

theorem serverReadCoords_eq
    (hq : q.AllLeaves fun c => c.objId = objId → getVarTypeSize c.type = unit)
    (regions : UInt64 → List (ReadRegion ndim)) :
    serverReadCoords stray junk (q.map fun c => (c, regions c.objId)) objId coords =
      if q.leftmost.objId = objId ∧ (regions objId).isEmpty = false then
        assembleData stray junk unit (regions objId) coords
      else none := by
  rw [serverReadCoords, getConstraintFromQuery_eq, leftmost_map]
  by_cases hfirst : q.leftmost.objId = objId
  · have hunit := allLeaves_leftmost q hq hfirst
    simp only [hfirst, if_true, true_and, hunit]
    cases (regions objId).isEmpty with
    | true => rfl
    | false => rfl
  · simp only [hfirst, if_false, false_and]

theorem isEmpty_map_region : (boxes.map (Box.region unit data)).isEmpty = boxes.isEmpty := by
  cases boxes with
  | nil => rfl
  | cons _ _ => rfl

theorem Tiles.coordsRead_iff (h : Tiles unit dims boxes) (hcoords : ∀ c ∈ coords, ∀ i, c i < dims i)
    (hq : q.AllLeaves fun c => c.objId = objId → getVarTypeSize c.type = unit) :
    CoordsRead unit boxes q objId coords ↔
      boxes ≠ [] ∧ q.leftmost.objId = objId ∧ ∀ c ∈ coords, ReadExactly unit boxes c := by
  rw [← h.assembleData_iff hcoords]
  constructor
  · intro hall
    have hfound : ∀ data : (Fin ndim → Nat) → Nat → UInt8, ∀ stray junk,
        (if q.leftmost.objId = objId ∧ boxes.isEmpty = false then
          assembleData stray junk unit (boxes.map (Box.region unit data)) coords else none) =
            some (elementsAt unit data coords) := by
      intro data stray junk
      have hread := hall data stray junk (fun _ => boxes.map (Box.region unit data)) rfl
      rwa [serverReadCoords_eq hq fun _ => boxes.map (Box.region unit data),
        isEmpty_map_region] at hread
    have hcond : q.leftmost.objId = objId ∧ boxes.isEmpty = false := by
      by_contra hno
      have hnone := hfound (fun _ _ => 0) (fun _ _ => 0) fun _ => 0
      rw [if_neg hno] at hnone
      cases hnone
    refine ⟨fun hnil => ?_, hcond.1, fun data stray junk => ?_⟩
    · rw [hnil] at hcond
      cases hcond.2
    · have hread := hfound data stray junk
      rwa [if_pos hcond] at hread
  · rintro ⟨hne, hfirst, hread⟩ data stray junk regions hregions
    rw [serverReadCoords_eq hq, hregions, isEmpty_map_region,
      if_pos ⟨hfirst, isEmpty_eq_false_iff.mpr hne⟩]
    exact hread data stray junk

theorem recvReadSelObjData_eq (objId : UInt64) (adds : List (UInt64 × ReadRegion ndim))
    (coords : List (Fin ndim → Nat)) :
    recvReadSelObjData stray junk (adds.foldl addToCacheStorageRegion []) objId coords =
      if ((adds.filter fun add => add.1 = objId).map Prod.snd).reverse.isEmpty then none
      else some [] := by
  have hstart : (([] : List (CacheStorageRegion ndim)).find?
      fun elt => decide (elt.objId = objId)) = cacheEntry objId [] := rfl
  have hfind := find?_cache objId adds hstart
  rw [append_nil] at hfind
  rw [recvReadSelObjData, hfind, cacheEntry]
  cases hempty : ((adds.filter fun add => add.1 = objId).map Prod.snd).reverse.isEmpty with
  | true => rfl
  | false =>
    -- The size of an element is that of the type `calloc` has left.
    show (if (reverse _).isEmpty then none else assembleData stray junk 0 _ coords) = some []
    rw [hempty, if_neg Bool.false_ne_true, assembleData_zero]

theorem elementsAt_eq_nil_iff (hunit : 0 < unit) :
    elementsAt unit data coords = [] ↔ coords = [] := by
  rw [← length_eq_zero_iff, elementsAt, length_flatMap_eq fun c _ => by
    rw [length_map, length_range], ← length_eq_zero_iff, Nat.mul_eq_zero]
  omega

theorem Tiles.selectionRead_iff (h : Tiles unit dims boxes) (objId : UInt64) :
    SelectionRead unit boxes objId coords ↔ boxes ≠ [] ∧ coords = [] := by
  have hread : ∀ (data : (Fin ndim → Nat) → Nat → UInt8) stray junk
      (adds : List (UInt64 × ReadRegion ndim)),
      ((adds.filter fun add => add.1 = objId).map Prod.snd).reverse =
        boxes.map (Box.region unit data) →
      (recvReadSelObjData stray junk (adds.foldl addToCacheStorageRegion []) objId coords =
        some (elementsAt unit data coords) ↔ boxes ≠ [] ∧ coords = []) := by
    intro data stray junk adds hadds
    rw [recvReadSelObjData_eq, hadds, isEmpty_map_region]
    cases hempty : boxes.isEmpty with
    | true =>
      exact ⟨nofun, fun hcond => absurd (isEmpty_iff.mp hempty) hcond.1⟩
    | false =>
      rw [if_neg Bool.false_ne_true, Option.some.injEq, eq_comm, elementsAt_eq_nil_iff h.unit_pos]
      exact ⟨fun hcoords => ⟨isEmpty_eq_false_iff.mp hempty, hcoords⟩, fun hcond => hcond.2⟩
  constructor
  · intro hall
    have hadds : (((boxes.map fun b => (objId, b.region unit fun _ _ => 0)).reverse.filter
        fun add => add.1 = objId).map Prod.snd).reverse =
          boxes.map (Box.region unit fun _ _ => 0) := by
      rw [filter_eq_self.mpr, map_reverse, reverse_reverse, map_map]
      · rfl
      · intro add hadd
        obtain ⟨b, -, rfl⟩ := mem_map.mp (mem_reverse.mp hadd)
        exact decide_eq_true rfl
    exact (hread _ (fun _ _ => 0) (fun _ => 0) _ hadds).mp (hall _ _ _ _ hadds)
  · intro hcond data stray junk adds hadds
    exact (hread data stray junk adds hadds).mpr hcond

/-- `PDC_Server_read_coords` sends the right data for every object stored in the
boxes just if the object is that of the leftmost leaf and each coordinate is read
exactly; `PDC_Server_recv_read_sel_obj_data` just if there are no coordinates. -/
theorem readsSelected_iff (h : Tiles unit dims boxes) {coords : List (Fin ndim → Nat)}
    (hcoords : ∀ c ∈ coords, ∀ i, c i < dims i) {q : Query} {objId : UInt64}
    (hq : q.AllLeaves fun c => c.objId = objId → getVarTypeSize c.type = unit) :
    (CoordsRead unit boxes q objId coords ↔
      boxes ≠ [] ∧ q.leftmost.objId = objId ∧ ∀ c ∈ coords, ReadExactly unit boxes c) ∧
    (SelectionRead unit boxes objId coords ↔ boxes ≠ [] ∧ coords = []) :=
  ⟨h.coordsRead_iff hcoords hq, h.selectionRead_iff objId⟩

end

/-! ## Four bytes in two halves -/

def pairAt (start : Nat) : Box 1 := ⟨fun _ => start, fun _ => 2⟩

theorem has_pairAt {start : Nat} :
    (pairAt start).Has 1 c ↔ start ≤ c 0 ∧ c 0 < start + 2 := by
  refine ⟨fun h => by simpa [pairAt] using h 0, fun h i => ?_⟩
  obtain rfl : i = 0 := Subsingleton.elim i 0
  simpa [pairAt] using h

theorem tiles_pairs {boxes : List (Box 1)} (h : boxes.Perm [pairAt 0, pairAt 2]) :
    Tiles 1 (fun _ => 4) boxes where
  ndim_pos := Nat.one_pos
  ndim_le := by decide
  unit_pos := Nat.one_pos
  unit_eq := nofun
  aligned _ _ _ := ⟨Nat.one_dvd _, Nat.one_dvd _⟩
  bound b hb c hhas i := by
    obtain rfl : i = 0 := Subsingleton.elim i 0
    obtain rfl | rfl : b = pairAt 0 ∨ b = pairAt 2 := by simpa using h.mem_iff.mp hb
    all_goals
      have := has_pairAt.mp hhas
      omega
  cover c hc := by
    have hlt : c 0 < 4 := hc 0
    by_cases hlow : c 0 < 2
    · exact ⟨pairAt 0, h.mem_iff.mpr (by simp), has_pairAt.mpr (by omega)⟩
    · exact ⟨pairAt 2, h.mem_iff.mpr (by simp), has_pairAt.mpr (by omega)⟩
  disjoint := by
    refine (h.pairwise_iff fun hdis c hc hc' => hdis c hc' hc).mpr
      (pairwise_pair.mpr fun c hc hc' => ?_)
    have hlow := has_pairAt.mp hc
    have hhigh := has_pairAt.mp hc'
    omega

def positiveBytes : Query := .leaf ⟨1, .gt, .int8, 0, false, .none, 0⟩

theorem allLeaves_positiveBytes :
    positiveBytes.AllLeaves fun c => c.objId = 1 → getVarTypeSize c.type = 1 := fun _ => rfl

/-- The upper half first: the third element and the second are read. -/
theorem readsSelected_upper_first :
    CoordsRead 1 [pairAt 2, pairAt 0] positiveBytes 1 [fun _ => 2, fun _ => 1] := by
  refine (readsSelected_iff (tiles_pairs (List.Perm.swap _ _ _)) (fun c hc i => ?_)
    allLeaves_positiveBytes).1.mpr ⟨cons_ne_nil _ _, rfl, fun c hc => ?_⟩
  · rcases mem_cons.mp hc with rfl | hc
    · exact (by decide : 2 < 4)
    · rw [mem_singleton.mp hc]
      exact (by decide : 1 < 4)
  · rcases mem_cons.mp hc with rfl | hc
    · exact ⟨pairAt 2, rfl, has_pairAt.mpr (by decide), nofun⟩
    · obtain rfl := mem_singleton.mp hc
      exact ⟨pairAt 0, rfl, has_pairAt.mpr (by decide), nofun⟩

/-- The lower half first: it claims the third element too, and what is behind its
buffer is read. The other function sends nothing for it in any order. -/
theorem readsSelected_lower_first :
    Tiles 1 (fun _ => 4) [pairAt 0, pairAt 2] ∧
      ¬ CoordsRead 1 [pairAt 0, pairAt 2] positiveBytes 1 [fun _ => 2] ∧
      ¬ SelectionRead 1 [pairAt 0, pairAt 2] 1 [fun _ => 2] := by
  have htiles := tiles_pairs (List.Perm.refl [pairAt 0, pairAt 2])
  refine ⟨htiles, fun hread => ?_, fun hread => ?_⟩
  · have hinside : ∀ c ∈ [fun _ : Fin 1 => 2], ∀ i, c i < 4 := by simp
    obtain ⟨b, hfind, hhas, -⟩ :=
      ((htiles.coordsRead_iff hinside allLeaves_positiveBytes).mp hread).2.2 _
        (mem_singleton_self _)
    obtain rfl : pairAt 0 = b := Option.some.inj hfind
    exact absurd (has_pairAt.mp hhas) (by decide)
  · exact absurd ((htiles.selectionRead_iff 1).mp hread).2 (cons_ne_nil _ _)

end Pdc
