import Pdc.Client.StorageInfo
import Pdc.Lib.Scatter
import Pdc.Proofs.StorageMap

/-!
# Which name gets which storage region

A server leaves out the names it does not find, and its list does not say which
those were. `sortNames` and the two loops that place the answers are `scatter` of
the names by their servers, where the answers of a server are those it has, without
gaps. So each name gets its own region just if every region that is stored is
found, and if among the names of one server no name without a region comes before
one that has a region.

A region is found if its object is on the server of its name, with a time step
that is zero or not given: the look-up assumes time step zero. When an object is
found that has no region, there is no outcome at all.
-/

namespace Pdc

open List Lib

variable {s : Nat} {mapping : List Nat} {p : Bytes × Nat} {name : Bytes} {m : Metadata}

/-! ## The names of a server -/

section Sorting

variable {nServer nobj j : Nat}

def namesOf (nServer : Nat) (done : List (Bytes × Nat)) (s : Nat) : List (Bytes × Nat) :=
  done.filter fun p => getServerByName p.1 nServer = s

/-- The names of each server, and in its row their numbers. -/
structure SortedBy (nServer nobj : Nat) (done : List (Bytes × Nat)) (g : NamesByServer) :
    Prop where
  names : g.names = (List.range nServer).map fun s => (namesOf nServer done s).map Prod.fst
  length : g.mapping.length = nobj * nServer
  mapping : ∀ s < nServer, ∀ (j : Nat) (p : Bytes × Nat),
    (namesOf nServer done s)[j]? = some p → g.mapping[s * nobj + j]? = some p.2

theorem getServerByName_lt (h : 0 < nServer) (name : Bytes) :
    getServerByName name nServer < nServer := Nat.mod_lt _ h

theorem namesOf_append_self (done : List (Bytes × Nat)) (x : Bytes × Nat) :
    namesOf nServer (done ++ [x]) (getServerByName x.1 nServer) =
      namesOf nServer done (getServerByName x.1 nServer) ++ [x] := by
  rw [namesOf, filter_append, filter_cons_of_pos (by rw [decide_eq_true_eq])]
  rfl

theorem namesOf_append_of_ne (done : List (Bytes × Nat)) {x : Bytes × Nat}
    (h : getServerByName x.1 nServer ≠ s) :
    namesOf nServer (done ++ [x]) s = namesOf nServer done s := by
  rw [namesOf, filter_append, filter_cons_of_neg (by rw [decide_eq_true_eq]; exact h),
    filter_nil, append_nil]
  rfl

theorem row_inj {s' j' : Nat} (hj : j < nobj) (hj' : j' < nobj)
    (h : s * nobj + j = s' * nobj + j') : s = s' ∧ j = j' := by
  have hs : ∀ s j, j < nobj → (s * nobj + j) / nobj = s := by
    intro s j hj
    rw [Nat.mul_comm, Nat.mul_add_div (by omega), Nat.div_eq_of_lt hj, Nat.add_zero]
  have heq : s = s' := by rw [← hs s j hj, h, hs s' j' hj']
  subst heq
  exact ⟨rfl, by omega⟩

section Add

variable {done : List (Bytes × Nat)} {g : NamesByServer} (hn : 0 < nServer)
  (h : SortedBy nServer nobj done g)

include hn h

theorem SortedBy.add_eq (x : Bytes × Nat) :
    g.add nServer nobj x =
      { names := g.names.modify (getServerByName x.1 nServer) (· ++ [x.1])
        mapping := g.mapping.set (getServerByName x.1 nServer * nobj +
          (namesOf nServer done (getServerByName x.1 nServer)).length) x.2 } := by
  have hrow : g.names.getD (getServerByName x.1 nServer) [] =
      (namesOf nServer done (getServerByName x.1 nServer)).map Prod.fst := by
    rw [h.names, getD_eq_getElem?_getD, getElem?_map, getElem?_range (getServerByName_lt hn x.1)]
    rfl
  rw [NamesByServer.add]
  simp only [hrow, length_map]

theorem SortedBy.names_add (x : Bytes × Nat) :
    (g.add nServer nobj x).names =
      (range nServer).map fun s => (namesOf nServer (done ++ [x]) s).map Prod.fst := by
  rw [h.add_eq hn, h.names]
  refine ext_getElem ?_ fun s hs hs' => ?_
  · rw [length_modify, length_map, length_map]
  · rw [getElem_modify, getElem_map, getElem_map, getElem_range]
    split
    · next heq => rw [← heq, namesOf_append_self, map_append, map_singleton]
    · next hne => rw [namesOf_append_of_ne done hne]

theorem SortedBy.mapping_add (hlen : done.length < nobj) (x : Bytes × Nat) (hs : s < nServer)
    (hp : (namesOf nServer (done ++ [x]) s)[j]? = some p) :
    (g.add nServer nobj x).mapping[s * nobj + j]? = some p.2 := by
  have hgroup : ∀ s, (namesOf nServer done s).length < nobj :=
    fun s => Nat.lt_of_le_of_lt (length_filter_le _ _) hlen
  have hold : (namesOf nServer done s)[j]? = some p →
      (g.add nServer nobj x).mapping[s * nobj + j]? = some p.2 := by
    intro hp
    have hj := (List.getElem?_eq_some_iff.mp hp).1
    rw [h.add_eq hn]
    refine (getElem?_set_ne fun heq => ?_).trans (h.mapping s hs j p hp)
    obtain ⟨hsame, hpos⟩ := row_inj (hgroup _) (Nat.lt_trans hj (hgroup s)) heq
    rw [hsame] at hpos
    omega
  by_cases heq : getServerByName x.1 nServer = s
  · subst heq
    rw [namesOf_append_self] at hp
    rcases Nat.lt_or_ge j (namesOf nServer done (getServerByName x.1 nServer)).length with hj | hj
    · rw [getElem?_append_left hj] at hp
      exact hold hp
    · -- Only the name that is added comes behind those that were there.
      rw [getElem?_append_right hj, getElem?_singleton] at hp
      split at hp
      · next hzero =>
        obtain rfl : j = (namesOf nServer done (getServerByName x.1 nServer)).length := by omega
        have hin : getServerByName x.1 nServer * nobj +
            (namesOf nServer done (getServerByName x.1 nServer)).length < g.mapping.length := by
          have hrows := Nat.mul_le_mul_right nobj (Nat.succ_le_of_lt hs)
          have hlt := hgroup (getServerByName x.1 nServer)
          rw [Nat.succ_mul] at hrows
          rw [h.length, Nat.mul_comm nobj]
          omega
        rw [h.add_eq hn]
        exact (getElem?_set_self hin).trans (congrArg _ (congrArg _ (Option.some.inj hp)))
      · cases hp
  · rw [namesOf_append_of_ne done heq] at hp
    exact hold hp

theorem SortedBy.add (hlen : done.length < nobj) (x : Bytes × Nat) :
    SortedBy nServer nobj (done ++ [x]) (g.add nServer nobj x) where
  names := h.names_add hn x
  length := by
    exact length_set.trans h.length
  mapping := fun s hs j p hp => h.mapping_add hn hlen x hs hp

end Add

theorem sortedBy_sortNames (hn : 0 < nServer) (names : List Bytes) :
    SortedBy nServer names.length names.zipIdx (sortNames nServer names) := by
  have hstart : SortedBy nServer names.length []
      { names := replicate nServer []
        mapping := replicate (names.length * nServer) 0 } := by
    refine ⟨?_, length_replicate, fun s _ j p hp => ?_⟩
    · exact (eq_replicate_iff.mpr ⟨by simp, fun group hgroup => by
        obtain ⟨s, -, rfl⟩ := mem_map.mp hgroup
        rfl⟩).symm
    · rw [namesOf] at hp
      cases hp
  have hrun : ∀ pre, pre <+: names.zipIdx → SortedBy nServer names.length pre
      (pre.foldl (NamesByServer.add nServer names.length)
        { names := replicate nServer []
          mapping := replicate (names.length * nServer) 0 }) := by
    intro pre
    induction pre using reverseRecOn with
    | nil => exact fun _ => hstart
    | append_singleton pre x ih =>
      intro hpre
      have hlen := hpre.length_le
      rw [length_append, length_singleton, length_zipIdx] at hlen
      rw [foldl_append]
      exact (ih ((prefix_append pre [x]).trans hpre)).add hn (by omega) x
  exact hrun names.zipIdx (prefix_refl _)

end Sorting

/-! ## Placing the answers -/

theorem placeAnswers_eq {row : Nat} {infos : List RegionStorageMeta}
    {locs : List Nat} (hlen : infos.length ≤ locs.length) (j : Nat)
    (h : ∀ t p, locs[t]? = some p → mapping[row + (j + t)]? = some p)
    (all : List (Option RegionStorageMeta)) :
    placeAnswers mapping row j infos all =
      some ((locs.zip infos).foldl (fun slots p => slots.set p.1 (some p.2)) all) := by
  induction infos generalizing locs j all with
  | nil => rw [placeAnswers, zip_nil_right, foldl_nil]
  | cons info infos ih =>
    cases locs with
    | nil => exact absurd hlen (Nat.not_succ_le_zero _)
    | cons loc locs =>
      have hrest : ∀ t p, locs[t]? = some p → mapping[row + (j + 1 + t)]? = some p := by
        intro t p hp
        rw [Nat.add_assoc j 1 t, Nat.add_comm 1 t]
        exact h (t + 1) p hp
      rw [placeAnswers, show mapping[row + j]? = some loc from h 0 loc rfl]
      exact ih (Nat.le_of_succ_le_succ hlen) (j + 1) hrest _

theorem placeAllAnswers_eq {nobj : Nat} {ans : Nat → List RegionStorageMeta} (locs : Nat → List Nat)
    (m iter : Nat) (hlen : ∀ k < iter + m, (ans k).length ≤ (locs k).length)
    (h : ∀ k < iter + m, ∀ t p, (locs k)[t]? = some p → mapping[k * nobj + t]? = some p)
    (all : List (Option RegionStorageMeta)) :
    placeAllAnswers mapping nobj iter ((range' iter m).map ans) all =
      some (((range' iter m).flatMap fun k => (locs k).zip (ans k)).foldl
        (fun slots p => slots.set p.1 (some p.2)) all) := by
  induction m generalizing iter all with
  | zero => rfl
  | succ m ih =>
    have hrow : ∀ t p, (locs iter)[t]? = some p → mapping[iter * nobj + (0 + t)]? = some p := by
      intro t p hp
      rw [Nat.zero_add]
      exact h iter (by omega) t p hp
    rw [range'_succ, map_cons, placeAllAnswers,
      placeAnswers_eq (hlen iter (by omega)) 0 hrow, flatMap_cons, foldl_append]
    exact ih (iter + 1) (fun k hk => hlen k (by omega)) (fun k hk => h k (by omega)) _

/-! ## The answers -/

section Answers

variable {B : Type} (ops : BloomOps B)

def findName (table : HashTable (HashEntry B)) (name : Bytes) : Option Metadata :=
  searchWithNameTimestep ops table name (getHashByName name) 0

def answerFor (table : HashTable (HashEntry B)) (name : Bytes) : Option RegionStorageMeta :=
  (findName ops table name).bind fun m => (storageMetaOf m.objId m.regions).head?

variable {ops} {table : HashTable (HashEntry B)} {names : List Bytes}

theorem getStorageMetaByNames_eq
    (h : ∀ name ∈ names, ∀ m, findName ops table name = some m → m.regions.length = 1) :
    getStorageMetaByNames ops table names =
      some (names.map (answerFor ops table)).reduceOption := by
  induction names with
  | nil => rfl
  | cons name names ih =>
    rw [forall_mem_cons] at h
    have hsearch : searchWithNameTimestep ops table name (getHashByName name) 0 =
        findName ops table name := rfl
    rw [getStorageMetaByNames, hsearch, map_cons, ih h.2, answerFor]
    cases hm : findName ops table name with
    | none => rw [Option.bind_none, reduceOption_cons_of_none]
    | some m =>
      obtain ⟨e, he⟩ := length_eq_one_iff.mp (h.1 m hm)
      simp only [he, cons_ne_nil, if_false, Option.map_some, Option.bind_some]
      rfl

theorem getStorageMetaByNames_eq_none (hname : name ∈ names)
    (hm : findName ops table name = some m) (hregions : m.regions = []) :
    getStorageMetaByNames ops table names = none := by
  induction names with
  | nil => exact absurd hname not_mem_nil
  | cons name' names ih =>
    rw [getStorageMetaByNames]
    rcases mem_cons.mp hname with rfl | hname
    · rw [show searchWithNameTimestep ops table name (getHashByName name) 0 = some m from hm]
      exact if_pos hregions
    · rw [ih hname]
      split
      · rfl
      · split <;> rfl

theorem askServers_cons (tables : List (HashTable (HashEntry B))) (group : List Bytes)
    (groups : List (List Bytes)) :
    askServers ops (table :: tables) (group :: groups) =
      (getStorageMetaByNames ops table group).bind fun answer =>
        (askServers ops tables groups).map (answer :: ·) := by
  have hgroup : (if group = [] then some [] else getStorageMetaByNames ops table group) =
      getStorageMetaByNames ops table group := by
    split
    · next hnil =>
      rw [hnil]
      rfl
    · rfl
  rw [askServers]
  simp only [hgroup]

section

variable {tables : List (HashTable (HashEntry B))} {groups : List (List Bytes)}

theorem askServers_eq {f : HashTable (HashEntry B) × List Bytes → List RegionStorageMeta}
    (h : ∀ p ∈ tables.zip groups, getStorageMetaByNames ops p.1 p.2 = some (f p)) :
    askServers ops tables groups = some ((tables.zip groups).map f) := by
  induction tables generalizing groups with
  | nil => rw [askServers, zip_nil_left, map_nil]
  | cons table tables ih =>
    cases groups with
    | nil => rw [askServers, zip_nil_right, map_nil]
    | cons group groups =>
      rw [zip_cons_cons, forall_mem_cons] at h
      rw [askServers_cons, h.1, ih h.2]
      rfl

theorem askServers_eq_none {p : HashTable (HashEntry B) × List Bytes} (hp : p ∈ tables.zip groups)
    (h : getStorageMetaByNames ops p.1 p.2 = none) : askServers ops tables groups = none := by
  induction tables generalizing groups with
  | nil => exact absurd hp (by simp)
  | cons table tables ih =>
    cases groups with
    | nil => exact absurd hp (by simp)
    | cons group groups =>
      rw [askServers_cons]
      rcases mem_cons.mp hp with rfl | hp
      · rw [h]
        rfl
      · rw [ih hp]
        exact Option.bind_fun_none _

end

end Answers

/-! ## Names and objects -/

section Names

variable {B : Type} {ops : BloomOps B} {servers : List (HashTable (HashEntry B))}
  {table : HashTable (HashEntry B)} {name : Bytes} {m : Metadata}

/-- Objects are under the hash of their name, which is not empty. -/
def TableWF (table : HashTable (HashEntry B)) : Prop :=
  ∀ e ∈ table.entries, ∀ m ∈ e.2.metadata, getHashByName m.objName = e.1 ∧ m.objName ≠ []

def objectsNamed (servers : List (HashTable (HashEntry B))) (name : Bytes) : List Metadata :=
  servers.flatMap fun table => table.entries.flatMap fun e =>
    e.2.metadata.filter fun m => m.objName = name

/-- The storage region of a name's object, if there is one. -/
def storageInfo (servers : List (HashTable (HashEntry B))) (name : Bytes) :
    Option RegionStorageMeta :=
  ((objectsNamed servers name).flatMap fun m => storageMetaOf m.objId m.regions).head?

def tableFor (servers : List (HashTable (HashEntry B))) (name : Bytes) : HashTable (HashEntry B) :=
  servers.getD (getServerByName name servers.length) ∅

/-- An object is in the list where it is looked for, and its time step is zero or not
given. -/
def FoundUnder (servers : List (HashTable (HashEntry B))) (name : Bytes) (m : Metadata) : Prop :=
  m.timeStep ≤ 0 ∧ ∃ entry, (tableFor servers name).lookup (getHashByName name) = some entry ∧
    m ∈ entry.metadata

theorem metadataCmp_query_iff (hm : m.objName ≠ []) (hname : name ≠ []) :
    metadataCmp m { objName := name } = true ↔ m.timeStep ≤ 0 ∧ m.objName = name := by
  have htime : m.timeStep < 0 ∨ m.timeStep = 0 ↔ m.timeStep ≤ 0 := by omega
  simp [metadataCmp, hm, hname, htime]

theorem findName_eq (table : HashTable (HashEntry B)) (name : Bytes) :
    findName ops table name = (table.lookup (getHashByName name)).bind fun entry =>
      entry.metadata.find? fun m => metadataCmp m { objName := name } := by
  rw [findName, searchWithNameTimestep]
  cases table.lookup (getHashByName name) with
  | none => rfl
  | some entry =>
    show findIdenticalMetadata ops entry _ = entry.metadata.find? _
    rw [findIdenticalMetadata]
    split
    · exact if_neg fun hasked => hasked.1 rfl
    · rfl

theorem mem_objectsNamed_of_lookup (htable : table ∈ servers) {entry : HashEntry B} {key : UInt32}
    (hentry : table.lookup key = some entry) (hm : m ∈ entry.metadata) :
    m ∈ objectsNamed servers m.objName := by
  refine mem_flatMap.mpr ⟨table, htable, mem_flatMap.mpr
    ⟨⟨key, entry⟩, AList.mem_lookup_iff.mp hentry, mem_filter.mpr ⟨hm, decide_eq_true rfl⟩⟩⟩

variable (hservers : servers ≠ []) (hwf : ∀ table ∈ servers, TableWF table)

include hservers

theorem tableFor_mem (name : Bytes) : tableFor servers name ∈ servers := by
  have hlt := getServerByName_lt (length_pos_iff.mpr hservers) name
  rw [tableFor, getD_eq_getElem?_getD, getElem?_eq_getElem hlt]
  exact getElem_mem hlt

include hwf

theorem findName_eq_some_iff (hname : name ≠ []) (hone : (objectsNamed servers name).length ≤ 1) :
    findName ops (tableFor servers name) name = some m ↔
      m ∈ objectsNamed servers name ∧ FoundUnder servers name m := by
  have htable := tableFor_mem hservers name
  have hsame : ∀ {entry : HashEntry B}, (tableFor servers name).lookup (getHashByName name) =
      some entry → ∀ m ∈ entry.metadata, metadataCmp m { objName := name } = true ↔
        m.timeStep ≤ 0 ∧ m ∈ objectsNamed servers name := by
    intro entry hentry m hm
    rw [metadataCmp_query_iff (hwf _ htable _ (AList.mem_lookup_iff.mp hentry) m hm).2 hname]
    refine and_congr_right fun _ => ⟨fun heq => ?_, fun hmem => ?_⟩
    · exact heq ▸ mem_objectsNamed_of_lookup htable hentry hm
    · obtain ⟨_, -, hmem⟩ := mem_flatMap.mp hmem
      obtain ⟨_, -, hmem⟩ := mem_flatMap.mp hmem
      exact of_decide_eq_true (mem_filter.mp hmem).2
  rw [findName_eq, Option.bind_eq_some_iff]
  constructor
  · rintro ⟨entry, hentry, hfind⟩
    have hm := mem_of_find?_eq_some hfind
    have hcmp := find?_some (p := fun m => metadataCmp m { objName := name }) hfind
    obtain ⟨htime, hmem⟩ := (hsame hentry m hm).mp hcmp
    exact ⟨hmem, htime, entry, hentry, hm⟩
  · rintro ⟨hmem, htime, entry, hentry, hm⟩
    refine ⟨entry, hentry, ?_⟩
    cases hfind : entry.metadata.find? fun m => metadataCmp m { objName := name } with
    | none =>
      exact absurd ((hsame hentry m hm).mpr ⟨htime, hmem⟩) (find?_eq_none.mp hfind m hm)
    | some m' =>
      have hm' := mem_of_find?_eq_some hfind
      have hcmp := find?_some (p := fun m => metadataCmp m { objName := name }) hfind
      have hmem' := ((hsame hentry m' hm').mp hcmp).2
      -- There is one object with the name.
      obtain ⟨i, hi⟩ := mem_iff_getElem?.mp hmem
      obtain ⟨i', hi'⟩ := mem_iff_getElem?.mp hmem'
      have hlt := (List.getElem?_eq_some_iff.mp hi).1
      have hlt' := (List.getElem?_eq_some_iff.mp hi').1
      obtain rfl : i = i' := by omega
      rw [hi] at hi'
      exact hi'.symm

end Names

/-! ## All names -/

section Query

variable {B : Type} {ops : BloomOps B} {servers : List (HashTable (HashEntry B))}
  {names : List Bytes}

def serverOf (servers : List (HashTable (HashEntry B))) (name : Bytes) : Nat :=
  getServerByName name servers.length

theorem zip_map_range (servers : List (HashTable (HashEntry B))) (G : Nat → List Bytes) :
    servers.zip ((range servers.length).map G) =
      (range servers.length).map fun s => (servers.getD s ∅, G s) := by
  refine ext_getElem (by simp) fun s hs _ => ?_
  have hlt : s < servers.length := by
    rw [length_zip, length_map, length_range, Nat.min_self] at hs
    exact hs
  rw [getElem_zip, getElem_map, getElem_map, getElem_range,
    getD_eq_getElem?_getD, getElem?_eq_getElem hlt, Option.getD_some]

theorem tableFor_of_mem_group
    (hp : p ∈ groupOf (serverOf servers) names s) : tableFor servers p.1 = servers.getD s ∅ := by
  have hs : getServerByName p.1 servers.length = s := (mem_groupOf.mp hp).2
  rw [tableFor, hs]

theorem askServers_sortNames (hservers : servers ≠ []) :
    askServers ops servers (sortNames servers.length names).names =
      askServers ops servers ((range servers.length).map fun s =>
        (groupOf (serverOf servers) names s).map Prod.fst) := by
  rw [(sortedBy_sortNames (length_pos_iff.mpr hservers) names).names]
  rfl

theorem queryMultiStorageInfo_eq (hservers : servers ≠ [])
    (hfound : ∀ name ∈ names, ∀ m, findName ops (tableFor servers name) name = some m →
      m.regions.length = 1) :
    queryMultiStorageInfo ops servers names =
      some (scatter servers.length (serverOf servers) names fun s =>
        ((groupOf (serverOf servers) names s).map fun p =>
          answerFor ops (tableFor servers p.1) p.1).reduceOption) := by
  have hgroup : ∀ s, ((groupOf (serverOf servers) names s).map Prod.fst).map
      (answerFor ops (servers.getD s ∅)) = (groupOf (serverOf servers) names s).map fun p =>
        answerFor ops (tableFor servers p.1) p.1 := by
    intro s
    rw [map_map]
    refine map_congr_left fun p hp => ?_
    rw [tableFor_of_mem_group hp]
    rfl
  have hask : askServers ops servers (sortNames servers.length names).names =
      some ((range servers.length).map fun s =>
        ((groupOf (serverOf servers) names s).map fun p =>
          answerFor ops (tableFor servers p.1) p.1).reduceOption) := by
    rw [askServers_sortNames hservers, askServers_eq
      (f := fun p => (p.2.map (answerFor ops p.1)).reduceOption), zip_map_range, map_map]
    · simp only [Function.comp_def, hgroup]
    · rw [zip_map_range]
      intro p hp
      obtain ⟨s, -, rfl⟩ := mem_map.mp hp
      refine getStorageMetaByNames_eq fun name hname m hm => ?_
      obtain ⟨q, hq, rfl⟩ := mem_map.mp hname
      refine hfound q.1 (mem_of_getElem? (mem_groupOf.mp hq).1) m ?_
      rw [tableFor_of_mem_group hq]
      exact hm
  have hsorted := sortedBy_sortNames (length_pos_iff.mpr hservers) names
  rw [queryMultiStorageInfo]
  simp only [hask, Option.bind_eq_bind, Option.bind_some]
  rw [range_eq_range', placeAllAnswers_eq fun k =>
    (groupOf (serverOf servers) names k).map Prod.snd]
  · rw [scatter, addressed, range_eq_range']
  · intro k _
    rw [length_map]
    exact Nat.le_trans (reduceOption_length_le _) (by rw [length_map])
  · intro k hk t p hp
    rw [getElem?_map, Option.map_eq_some_iff] at hp
    obtain ⟨q, hq, rfl⟩ := hp
    exact hsorted.mapping k (by omega) t q hq

theorem queryMultiStorageInfo_eq_none (hservers : servers ≠ []) (hname : name ∈ names)
    (hm : findName ops (tableFor servers name) name = some m) (hregions : m.regions = []) :
    queryMultiStorageInfo ops servers names = none := by
  obtain ⟨i, hi⟩ := mem_iff_getElem?.mp hname
  have hgroup : (name, i) ∈ groupOf (serverOf servers) names (serverOf servers name) :=
    mem_groupOf.mpr ⟨hi, rfl⟩
  have hserver := getServerByName_lt (length_pos_iff.mpr hservers) name
  have hask : askServers ops servers (sortNames servers.length names).names = none := by
    rw [askServers_sortNames hservers]
    refine askServers_eq_none (p := (tableFor servers name, (groupOf (serverOf servers) names
      (serverOf servers name)).map Prod.fst)) ?_ ?_
    · rw [zip_map_range]
      exact mem_map.mpr ⟨serverOf servers name, mem_range.mpr hserver, rfl⟩
    · exact getStorageMetaByNames_eq_none (mem_map.mpr ⟨_, hgroup, rfl⟩) hm hregions
  rw [queryMultiStorageInfo]
  simp only [hask]
  rfl

section Right

variable (hservers : servers ≠ []) (hwf : ∀ table ∈ servers, TableWF table) {name : Bytes}
  (hname : name ≠ []) (hone : (objectsNamed servers name).length ≤ 1)

include hservers hwf hname hone

theorem answerFor_le {info : RegionStorageMeta}
    (h : answerFor ops (tableFor servers name) name = some info) :
    storageInfo servers name = some info := by
  obtain ⟨m, hm, hinfo⟩ := Option.bind_eq_some_iff.mp h
  have hmem := ((findName_eq_some_iff hservers hwf hname hone).mp hm).1
  obtain ⟨m', hm'⟩ := length_eq_one_iff.mp (Nat.le_antisymm hone (length_pos_of_mem hmem))
  rw [hm', mem_singleton] at hmem
  rw [storageInfo, hm', flatMap_singleton, ← hmem]
  exact hinfo

theorem answerFor_eq_iff
    (hfound : ∀ m, findName ops (tableFor servers name) name = some m → m.regions ≠ []) :
    answerFor ops (tableFor servers name) name = storageInfo servers name ↔
      ∀ m ∈ objectsNamed servers name, m.regions ≠ [] ↔ FoundUnder servers name m := by
  have hiff : ∀ m, findName ops (tableFor servers name) name = some m ↔
      m ∈ objectsNamed servers name ∧ FoundUnder servers name m :=
    fun _ => findName_eq_some_iff hservers hwf hname hone
  rw [answerFor, storageInfo]
  cases hm : findName ops (tableFor servers name) name with
  | some m =>
    obtain ⟨hmem, hunder⟩ := (hiff m).mp hm
    obtain ⟨m', hm'⟩ := length_eq_one_iff.mp (Nat.le_antisymm hone (length_pos_of_mem hmem))
    rw [hm', mem_singleton] at hmem
    subst hmem
    rw [hm', flatMap_singleton, forall_mem_singleton]
    exact iff_of_true rfl (iff_of_true (hfound m hm) hunder)
  | none =>
    have hnot : ∀ m ∈ objectsNamed servers name, ¬FoundUnder servers name m := by
      intro m hmem hunder
      rw [(hiff m).mpr ⟨hmem, hunder⟩] at hm
      cases hm
    rw [Option.bind_none, eq_comm, head?_eq_none_iff, flatMap_eq_nil_iff]
    refine forall_congr' fun m => forall_congr' fun hmem => ?_
    rw [iff_false_right (hnot m hmem), not_not]
    exact map_eq_nil_iff

end Right

end Query

def noBloom : BloomOps Unit where
  new := ()
  add := fun _ _ => ()
  remove := fun _ _ => ()
  check := fun _ _ => true

def regionOfA : StorageEntry where
  region := (lineTransfer 0 8).info
  dataSize := 8
  storageLocation := [102]
  one_le_ndim := one_le_ndim_lineTransfer 0 8
  ndim_le_four := ndim_lineTransfer_le_four 0 8

def onlyA : HashTable (HashEntry Unit) :=
  AList.singleton (getHashByName [97])
    { nObj := 1
      metadata := [{ objId := 5, objName := [97], regions := [regionOfA] }] }

end Pdc
