import Pdc.Lib.Tables
import Pdc.Server.Container

/-!
# One container for a name

A container is created if there is none for the hash of its name, and the id of
the one that is there is returned otherwise, whatever its name. So containers are
told apart by the hashes of their names. They are told apart by their names just
if no two of the names have the same hash.

The ids of the containers are consecutive values of a counter of 64 bits. They
are distinct without any bound on the number of calls: there is at most one
container for each of the `2 ^ 32` keys.
-/

namespace Pdc

open List Lib Option

variable {B : Type}

variable {s s' : ObjectServer B} {req : GenContIdIn} {contId start : UInt64} {key : UInt32}
  {entry : Container} {name : Bytes} {names : List Bytes} {ids : List UInt64}

/-! ## One call -/

theorem createContainer_cases (h : createContainer s req = some (s', contId)) :
    (∃ entry, s.containers.lookup req.hashValue = some entry ∧ s' = s ∧ contId = entry.contId) ∨
      (s.containers.lookup req.hashValue = none ∧ req.contName.length < addrMax ∧ contId = s.idSeq ∧
        s' =
          { s with
            containers := s.containers.insert req.hashValue
              { contId := s.idSeq, contName := req.contName }
            idSeq := s.idSeq + 1 }) := by
  rw [createContainer] at h
  split at h
  · next entry hentry =>
    obtain ⟨rfl, rfl⟩ := Prod.mk.inj (some.inj h)
    exact .inl ⟨entry, hentry, rfl, rfl⟩
  · next hnone =>
    split at h
    · next hfits =>
      obtain ⟨rfl, rfl⟩ := Prod.mk.inj (some.inj h)
      exact .inr ⟨hnone, hfits, rfl, rfl⟩
    · cases h

theorem createContainer_isSome (h : req.contName.length < addrMax) :
    (createContainer s req).isSome := by
  rw [createContainer]
  split
  · rfl
  · rw [if_pos h]
    rfl

theorem lookup_createContainer (h : createContainer s req = some (s', contId)) :
    ∃ entry, s'.containers.lookup req.hashValue = some entry ∧ entry.contId = contId := by
  rcases createContainer_cases h with ⟨entry, hentry, rfl, rfl⟩ | ⟨_, _, rfl, rfl⟩
  · exact ⟨entry, hentry, rfl⟩
  · exact ⟨_, AList.lookup_insert _, rfl⟩

theorem lookup_createContainer_of_some (h : createContainer s req = some (s', contId))
    (hentry : s.containers.lookup key = some entry) : s'.containers.lookup key = some entry := by
  rcases createContainer_cases h with ⟨_, _, rfl, _⟩ | ⟨hnone, _, _, rfl⟩
  · exact hentry
  · have hne : key ≠ req.hashValue := by
      rintro rfl
      rw [hentry] at hnone
      cases hnone
    exact (AList.lookup_insert_ne hne).trans hentry

/-! ## A sequence of calls -/

/-- The calls for a list of names, and the ids they return. -/
def createContainers (s : ObjectServer B) : List Bytes → Option (ObjectServer B × List UInt64)
  | [] => some (s, [])
  | name :: names =>
    (createContainer s (.ofName name)).bind fun r =>
      (createContainers r.1 names).map fun rs => (rs.1, r.2 :: rs.2)

theorem createContainers_cons (h : createContainers s (name :: names) = some (s', ids)) :
    ∃ s₁ contId ids', createContainer s (.ofName name) = some (s₁, contId) ∧
      createContainers s₁ names = some (s', ids') ∧ ids = contId :: ids' := by
  obtain ⟨⟨s₁, contId⟩, hfirst, hrest⟩ := bind_eq_some_iff.mp h
  obtain ⟨⟨s₂, ids'⟩, hnames, heq⟩ := map_eq_some_iff.mp hrest
  obtain ⟨rfl, rfl⟩ := Prod.mk.inj heq
  exact ⟨s₁, contId, ids', hfirst, hnames, rfl⟩

theorem createContainers_isSome (h : ∀ name ∈ names, name.length < addrMax) :
    (createContainers s names).isSome := by
  induction names generalizing s with
  | nil => rfl
  | cons name names ih =>
    rw [forall_mem_cons] at h
    have hfirst : (createContainer s (.ofName name)).isSome := createContainer_isSome h.1
    obtain ⟨r, hr⟩ := isSome_iff_exists.mp hfirst
    rw [createContainers, hr, bind_some, isSome_map]
    exact ih h.2

section

variable (h : createContainers s names = some (s', ids))
include h

theorem lookup_createContainers_of_some
    (hentry : s.containers.lookup key = some entry) : s'.containers.lookup key = some entry := by
  induction names generalizing s ids with
  | nil =>
    obtain ⟨rfl, -⟩ := Prod.mk.inj (some.inj h)
    exact hentry
  | cons name names ih =>
    obtain ⟨s₁, contId, ids', hfirst, hrest, rfl⟩ := createContainers_cons h
    exact ih hrest (lookup_createContainer_of_some hfirst hentry)

theorem lookup_createContainers {i : Nat}
    (hname : names[i]? = some name) (hid : ids[i]? = some contId) :
    ∃ entry, s'.containers.lookup (getHashByName name) = some entry ∧ entry.contId = contId := by
  induction names generalizing s ids i with
  | nil => simp at hname
  | cons first names ih =>
    obtain ⟨s₁, firstId, ids', hfirst, hrest, rfl⟩ := createContainers_cons h
    cases i with
    | zero =>
      obtain rfl : first = name := by simpa using hname
      obtain rfl : firstId = contId := by simpa using hid
      obtain ⟨entry, hentry, hcont⟩ := lookup_createContainer hfirst
      exact ⟨entry, lookup_createContainers_of_some hrest hentry, hcont⟩
    | succ i =>
      exact ih hrest hname hid

theorem length_createContainers : ids.length = names.length := by
  induction names generalizing s ids with
  | nil =>
    obtain ⟨-, rfl⟩ := Prod.mk.inj (some.inj h)
    rfl
  | cons name names ih =>
    obtain ⟨s₁, contId, ids', _, hrest, rfl⟩ := createContainers_cons h
    rw [length_cons, length_cons, ih hrest]

end

/-! ## What the table holds -/

theorem length_keys_le {V : Type} (table : HashTable V) : table.keys.length ≤ 2 ^ 32 := by
  have hnodup : (table.keys.map UInt32.toNat).Nodup :=
    table.keys_nodup.map fun _ _ h => UInt32.toNat_inj.mp h
  have hsubset : table.keys.map UInt32.toNat ⊆ List.range (2 ^ 32) := by
    intro n hn
    obtain ⟨key, _, rfl⟩ := mem_map.mp hn
    exact mem_range.mpr key.toNat_lt
  have hle := (hnodup.subperm hsubset).length_le
  rwa [length_map, length_range] at hle

/-- The table after calls for some names, with ids from a first one on. -/
structure Created (start : UInt64) (names : List Bytes) (s : ObjectServer B) : Prop where
  named : ∀ {key entry}, s.containers.lookup key = some entry →
    entry.contName ∈ names ∧ getHashByName entry.contName = key ∧ entry.contName.length < addrMax
  numbered : ∀ {key entry}, s.containers.lookup key = some entry →
    ∃ k < s.containers.keys.length, entry.contId = start + UInt64.ofNat k
  next : s.idSeq = start + UInt64.ofNat s.containers.keys.length
  distinct : ∀ {key key' entry entry'}, s.containers.lookup key = some entry →
    s.containers.lookup key' = some entry' → entry.contId = entry'.contId → key = key'

theorem Created.init (h : s.containers = ∅) : Created s.idSeq [] s where
  named hentry := by
    rw [h] at hentry
    cases hentry
  numbered hentry := by
    rw [h] at hentry
    cases hentry
  next := by
    rw [h]
    exact (UInt64.add_zero _).symm
  distinct hentry _ _ := by
    rw [h] at hentry
    cases hentry

theorem Created.contId_ne_next (h : Created start names s)
    (hentry : s.containers.lookup key = some entry) : entry.contId ≠ s.idSeq := by
  obtain ⟨k, hk, hid⟩ := h.numbered hentry
  have hle := length_keys_le s.containers
  rw [hid, h.next]
  intro heq
  have hnat := congrArg UInt64.toNat (UInt64.add_right_inj start |>.mp heq)
  rw [UInt64.toNat_ofNat', UInt64.toNat_ofNat'] at hnat
  omega

theorem Created.mono {names' : List Bytes} (h : Created start names s) (hsub : names ⊆ names') :
    Created start names' s where
  named hentry := ⟨hsub (h.named hentry).1, (h.named hentry).2⟩
  numbered := h.numbered
  next := h.next
  distinct := h.distinct

theorem Created.step (h : Created start names s)
    (hcreate : createContainer s (.ofName name) = some (s', contId)) :
    Created start (names ++ [name]) s' := by
  rcases createContainer_cases hcreate with ⟨_, _, rfl, _⟩ | ⟨hnone, hfits, _, rfl⟩
  · exact h.mono (subset_append_left _ _)
  have hkeys : ∀ entry : Container,
      (s.containers.insert (GenContIdIn.ofName name).hashValue entry).keys.length =
        s.containers.keys.length + 1 := by
    intro entry
    rw [AList.keys_insert, erase_of_not_mem (AList.lookup_eq_none.mp hnone), length_cons]
  refine ⟨fun {key entry} hentry => ?_, fun {key entry} hentry => ?_, ?_,
    fun {key key' entry entry'} hentry hentry' hid => ?_⟩
  · rcases lookup_insert_eq_some_iff.mp hentry with ⟨rfl, rfl⟩ | ⟨_, hold⟩
    · exact ⟨mem_append_right _ mem_cons_self, rfl, hfits⟩
    · obtain ⟨hmem, hrest⟩ := h.named hold
      exact ⟨mem_append_left _ hmem, hrest⟩
  · simp only [hkeys]
    rcases lookup_insert_eq_some_iff.mp hentry with ⟨rfl, rfl⟩ | ⟨_, hold⟩
    · exact ⟨_, Nat.lt_succ_self _, h.next⟩
    · obtain ⟨k, hk, hid⟩ := h.numbered hold
      exact ⟨k, Nat.lt_succ_of_lt hk, hid⟩
  · show s.idSeq + 1 = _
    rw [hkeys, h.next, UInt64.add_assoc, UInt64.ofNat_add]
    rfl
  · rcases lookup_insert_eq_some_iff.mp hentry with ⟨rfl, rfl⟩ | ⟨_, hold⟩ <;>
      rcases lookup_insert_eq_some_iff.mp hentry' with ⟨rfl, rfl⟩ | ⟨_, hold'⟩
    · rfl
    · exact absurd hid.symm (h.contId_ne_next hold')
    · exact absurd hid (h.contId_ne_next hold)
    · exact h.distinct hold hold' hid

theorem Created.replace {cont cont' : Container} (h : Created start names s)
    (hcont : s.containers.lookup key = some cont) (hid : cont'.contId = cont.contId)
    (hname : cont'.contName = cont.contName) :
    Created start names { s with containers := s.containers.insert key cont' } := by
  have hmem : key ∈ s.containers.keys :=
    AList.lookup_isSome.mp (isSome_of_eq_some hcont)
  have hkeys : (s.containers.insert key cont').keys.length = s.containers.keys.length := by
    rw [AList.keys_insert, length_cons, length_erase_of_mem hmem]
    exact Nat.sub_add_cancel (length_pos_of_mem hmem)
  have hbefore : ∀ {key₁ entry}, (s.containers.insert key cont').lookup key₁ = some entry →
      ∃ old, s.containers.lookup key₁ = some old ∧ entry.contId = old.contId ∧
        entry.contName = old.contName := by
    intro key₁ entry hentry
    rcases lookup_insert_eq_some_iff.mp hentry with ⟨rfl, rfl⟩ | ⟨_, hold⟩
    · exact ⟨cont, hcont, hid, hname⟩
    · exact ⟨entry, hold, rfl, rfl⟩
  refine ⟨fun {key₁ entry} hentry => ?_, fun {key₁ entry} hentry => ?_, ?_,
    fun {key₁ key₂ entry entry'} hentry hentry' heq => ?_⟩
  · obtain ⟨old, hold, -, holdName⟩ := hbefore hentry
    rw [holdName]
    exact h.named hold
  · obtain ⟨old, hold, holdId, -⟩ := hbefore hentry
    simp only [hkeys, holdId]
    exact h.numbered hold
  · show s.idSeq = _
    rw [hkeys]
    exact h.next
  · obtain ⟨old, hold, holdId, -⟩ := hbefore hentry
    obtain ⟨old', hold', holdId', -⟩ := hbefore hentry'
    exact h.distinct hold hold' (holdId.symm.trans (heq.trans holdId'))

theorem Created.run {before : List Bytes} (h : Created start before s)
    (hcreate : createContainers s names = some (s', ids)) : Created start (before ++ names) s' := by
  induction names generalizing before s ids with
  | nil =>
    obtain ⟨rfl, -⟩ := Prod.mk.inj (some.inj hcreate)
    rwa [append_nil]
  | cons name names ih =>
    obtain ⟨s₁, contId, ids', hfirst, hrest, rfl⟩ := createContainers_cons hcreate
    have hafter := ih (h.step hfirst) hrest
    rwa [append_assoc] at hafter

/-! ## Containers and names -/

/-- Containers are told apart by their names: the ids that were returned are the same just for
the same names, and a search for a name finds the container whose id was returned for it. -/
structure IdentifiedByName (names : List Bytes) (ids : List UInt64)
    (containers : HashTable Container) : Prop where
  ids_eq_iff : ∀ {i j : Nat} {name name' : Bytes} {contId contId' : UInt64},
    names[i]? = some name → names[j]? = some name' → ids[i]? = some contId →
      ids[j]? = some contId' → (contId = contId' ↔ name = name')
  found : ∀ {i : Nat} {name : Bytes} {contId : UInt64}, names[i]? = some name →
    ids[i]? = some contId → (findContainerByName containers name).map Container.contId = some contId

/-- No name is too long and no two have the same hash. -/
structure HashesApart (names : List Bytes) : Prop where
  fits : ∀ name ∈ names, name.length < addrMax
  inj : ∀ name ∈ names, ∀ name' ∈ names, getHashByName name = getHashByName name' → name = name'

theorem findContainerByName_eq_some {containers : HashTable Container} :
    findContainerByName containers name = some entry ↔
      containers.lookup (getHashByName name) = some entry ∧ name = entry.contName := by
  rw [findContainerByName]
  split
  · next found hfound =>
    rw [hfound, some.injEq]
    split
    · next heq =>
      rw [some.injEq]
      exact ⟨fun h => ⟨h, h ▸ heq⟩, fun h => h.1⟩
    · next hne =>
      refine ⟨fun h => (nomatch h), fun h => ?_⟩
      exact absurd (h.2.trans (congrArg _ h.1.symm)) hne
  · next hnone =>
    rw [hnone]
    exact ⟨fun h => (nomatch h), fun h => (nomatch h.1)⟩

section

variable (hempty : s.containers = ∅) (hcreate : createContainers s names = some (s', ids))
include hempty hcreate

theorem IdentifiedByName.hashesApart
    (h : IdentifiedByName names ids s'.containers) : HashesApart names := by
  have hids : ∀ name ∈ names,
      ∃ (i : Nat) (contId : UInt64), names[i]? = some name ∧ ids[i]? = some contId := by
    intro name hmem
    obtain ⟨i, hi, rfl⟩ := mem_iff_getElem.mp hmem
    have hi' : i < ids.length := by rwa [length_createContainers hcreate]
    exact ⟨i, ids[i], getElem?_eq_getElem hi, getElem?_eq_getElem hi'⟩
  refine ⟨fun name hmem => ?_, fun name hmem name' hmem' hhash => ?_⟩
  · -- the container that is found has the name, and was created with it
    obtain ⟨i, contId, hname, hid⟩ := hids name hmem
    obtain ⟨entry, hentry, -⟩ := map_eq_some_iff.mp (h.found hname hid)
    obtain ⟨hlookup, rfl⟩ := findContainerByName_eq_some.mp hentry
    exact (((Created.init hempty).run hcreate).named hlookup).2.2
  · obtain ⟨i, contId, hname, hid⟩ := hids name hmem
    obtain ⟨j, contId', hname', hid'⟩ := hids name' hmem'
    obtain ⟨entry, hentry, rfl⟩ := lookup_createContainers hcreate hname hid
    obtain ⟨entry', hentry', rfl⟩ := lookup_createContainers hcreate hname' hid'
    rw [hhash, hentry'] at hentry
    exact (h.ids_eq_iff hname hname' hid hid').mp (congrArg _ (some.inj hentry).symm)

theorem HashesApart.identifiedByName (h : HashesApart names) :
    IdentifiedByName names ids s'.containers := by
  have hcreated := (Created.init hempty).run hcreate
  refine ⟨fun {i j name name' contId contId'} hname hname' hid hid' => ?_,
    fun {i name contId} hname hid => ?_⟩
  · obtain ⟨entry, hentry, rfl⟩ := lookup_createContainers hcreate hname hid
    obtain ⟨entry', hentry', rfl⟩ := lookup_createContainers hcreate hname' hid'
    constructor
    · intro heq
      exact h.inj name (mem_of_getElem? hname) name' (mem_of_getElem? hname')
        (hcreated.distinct hentry hentry' heq)
    · rintro rfl
      rw [hentry] at hentry'
      rw [some.inj hentry']
  · obtain ⟨entry, hentry, rfl⟩ := lookup_createContainers hcreate hname hid
    obtain ⟨hmem, hhash, -⟩ := hcreated.named hentry
    have heq := h.inj name (mem_of_getElem? hname) _ hmem hhash.symm
    rw [findContainerByName_eq_some.mpr ⟨hentry, heq⟩]
    rfl

end

/-- On a server without containers, calls for a list of names tell the containers apart by
their names just if no name is too long and no two names have the same hash. -/
theorem identifiedByName_iff_hashesApart (s : ObjectServer B) (hempty : s.containers = ∅)
    (names : List Bytes) :
    (∃ s' ids, createContainers s names = some (s', ids) ∧
        IdentifiedByName names ids s'.containers) ↔ HashesApart names := by
  constructor
  · rintro ⟨s', ids, hcreate, h⟩
    exact h.hashesApart hempty hcreate
  · intro h
    have hsome : (createContainers s names).isSome := createContainers_isSome h.fits
    obtain ⟨⟨s', ids⟩, hcreate⟩ := Option.isSome_iff_exists.mp hsome
    exact ⟨s', ids, hcreate, h.identifiedByName hempty hcreate⟩

/-- Two names, one of them twice. -/
theorem identifiedByName_apart :
    ∃ s' ids, createContainers ({ idSeq := 1000000000 } : ObjectServer Unit)
        [[97], [98], [97]] = some (s', ids) ∧
      IdentifiedByName [[97], [98], [97]] ids s'.containers :=
  (identifiedByName_iff_hashesApart _ rfl _).mpr ⟨by decide, by decide⟩

/-- The names `"ab"` and `"bA"` have the same hash, and one container. -/
theorem not_identifiedByName_collision :
    ¬∃ s' ids, createContainers ({ idSeq := 1000000000 } : ObjectServer Unit)
          [[97, 98], [98, 65]] = some (s', ids) ∧
        IdentifiedByName [[97, 98], [98, 65]] ids s'.containers := by
  rintro ⟨s', ids, hcreate, h⟩
  have hapart := h.hashesApart rfl hcreate
  have hhash : getHashByName [97, 98] = getHashByName [98, 65] := by decide
  have heq := hapart.inj [97, 98] (by simp) [98, 65] (by simp) hhash
  exact absurd heq (by decide)

end Pdc
