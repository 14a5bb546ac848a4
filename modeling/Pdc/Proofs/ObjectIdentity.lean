import Pdc.Lib.Tables
import Pdc.Server.Kvtag

/-!
# Objects are told apart by name, time step, user and application

Before an object is added, the list of its key is searched for one that compares
equal. An object with the same name, time step, user and application would be
found, unless the bloom filter denies that it is there. The filter is asked for
the name and the time step. So it does not deny an object as long as each object
of the list is in the filter under the string it has now.

`BloomHolds b strings` says that a filter came about by additions and removals
that leave at least these strings in it. It is kept by additions and deletions of
objects. An update changes the time step and the application of an object: it
makes no search, and does not tell the filter. Hence the two conditions on
updates.
-/

namespace Pdc

open List Lib Option

variable {B : Type} {target m' m a : Metadata}

/-! ## The filter -/

/-- What is done to a filter. -/
inductive BloomAction where
  | add (s : Bytes)
  | remove (s : Bytes)
  deriving DecidableEq

def bloomAfter (ops : BloomOps B) : List BloomAction → B
  | [] => ops.new
  | .add s :: hist => ops.add (bloomAfter ops hist) s
  | .remove s :: hist => ops.remove (bloomAfter ops hist) s

/-- Only strings that are in the filter are removed. -/
def Balanced : List BloomAction → Prop
  | [] => True
  | .add _ :: hist => Balanced hist
  | .remove s :: hist => hist.count (.remove s) < hist.count (.add s) ∧ Balanced hist

/-- A string that was added more often than removed is not denied. -/
def BloomOps.NeverDenies (ops : BloomOps B) : Prop :=
  ∀ hist s, Balanced hist → hist.count (.remove s) < hist.count (.add s) →
    ops.check (bloomAfter ops hist) s = true

/-- The strings are in the filter. -/
def BloomHolds (ops : BloomOps B) (b : B) (strings : List Bytes) : Prop :=
  ∃ hist, Balanced hist ∧ bloomAfter ops hist = b ∧
    ∀ s, hist.count (.remove s) + strings.count s ≤ hist.count (.add s)

namespace BloomHolds

variable {ops : BloomOps B} {b : B} {strings strings' : List Bytes} {s : Bytes}

theorem new : BloomHolds ops ops.new [] := ⟨[], trivial, rfl, by simp⟩

theorem perm (h : BloomHolds ops b strings) (hperm : strings.Perm strings') :
    BloomHolds ops b strings' := by
  obtain ⟨hist, hbal, rfl, hcount⟩ := h
  refine ⟨hist, hbal, rfl, fun s => ?_⟩
  rw [← hperm.count_eq]
  exact hcount s

theorem add (h : BloomHolds ops b strings) (s : Bytes) :
    BloomHolds ops (ops.add b s) (s :: strings) := by
  obtain ⟨hist, hbal, rfl, hcount⟩ := h
  refine ⟨.add s :: hist, hbal, rfl, fun t => ?_⟩
  have ht := hcount t
  simp only [count_cons, beq_iff_eq, reduceCtorEq, if_false, BloomAction.add.injEq]
  omega

theorem remove (h : BloomHolds ops b (s :: strings)) : BloomHolds ops (ops.remove b s) strings := by
  obtain ⟨hist, hbal, rfl, hcount⟩ := h
  have hin := hcount s
  rw [count_cons_self] at hin
  refine ⟨.remove s :: hist, ⟨by omega, hbal⟩, rfl, fun t => ?_⟩
  have ht := hcount t
  simp only [count_cons, beq_iff_eq, reduceCtorEq, if_false, BloomAction.remove.injEq] at ht ⊢
  omega

theorem check (h : BloomHolds ops b strings) (hops : ops.NeverDenies) (hs : s ∈ strings) :
    ops.check b s = true := by
  obtain ⟨hist, hbal, rfl, hcount⟩ := h
  have hin := hcount s
  have hpos := count_pos_iff.mpr hs
  exact hops hist s hbal (by omega)

end BloomHolds

/-! ## Entries -/

def Metadata.identity (m : Metadata) : Bytes × Int × Int × Bytes :=
  (m.objName, m.timeStep, m.userId, m.appName)

theorem combineObjInfoToString_congr (h : m.identity = m'.identity) :
    combineObjInfoToString m = combineObjInfoToString m' := by
  simp only [Metadata.identity, Prod.mk.injEq] at h
  rw [combineObjInfoToString, combineObjInfoToString, h.1, h.2.1]

theorem metadataCmp_of_identity (h : m.identity = m'.identity) :
    metadataCmp m m' = true := by
  simp only [Metadata.identity, Prod.mk.injEq] at h
  simp [metadataCmp, h]

/-- The list of a key has no two objects with the same identity, and all of them are in its
filter, if it has one. -/
structure EntryApart (ops : BloomOps B) (entry : HashEntry B) : Prop where
  nObj : entry.nObj = entry.metadata.length
  nodup : (entry.metadata.map Metadata.identity).Nodup
  bloom : ∀ {b}, entry.bloom = some b →
    BloomHolds ops b (entry.metadata.map combineObjInfoToString)

namespace EntryApart

variable {ops : BloomOps B} {entry : HashEntry B} {b : B}

theorem empty : EntryApart ops ({} : HashEntry B) where
  nObj := rfl
  nodup := nodup_nil
  bloom h := by cases h

theorem identity_notMem (h : EntryApart ops entry) (hops : ops.NeverDenies)
    (hnone : findIdenticalMetadata ops entry a = none) :
    a.identity ∉ entry.metadata.map Metadata.identity := by
  intro hmem
  obtain ⟨m, hm, hid⟩ := mem_map.mp hmem
  have hfound : (entry.metadata.find? fun elt => metadataCmp elt a) ≠ none := by
    intro hfind
    exact find?_eq_none.mp hfind m hm (metadataCmp_of_identity hid)
  rw [findIdenticalMetadata] at hnone
  split at hnone
  · next b hb =>
    split at hnone
    · next hdenied =>
      have hin := (h.bloom hb).check hops (mem_map_of_mem hm)
      rw [combineObjInfoToString_congr hid, hdenied.2.2] at hin
      cases hin
    · exact hfound hnone
  · exact hfound hnone

theorem bloomHolds_foldl {strings : List Bytes} (h : BloomHolds ops b strings)
    (ms : List Metadata) :
    BloomHolds ops (ms.foldl (addToBloom ops) b) (ms.map combineObjInfoToString ++ strings) := by
  induction ms generalizing b strings with
  | nil => exact h
  | cons m ms ih =>
    refine (ih (h.add (combineObjInfoToString m))).perm ?_
    exact perm_middle

theorem bloom_insert (h : EntryApart ops entry) (new : Metadata)
    (hb : (hashTableListInsert ops entry new).bloom = some b) :
    BloomHolds ops b (combineObjInfoToString new :: entry.metadata.map combineObjInfoToString) := by
  rw [hashTableListInsert] at hb
  split at hb
  · cases hb
    have hnew : BloomHolds ops ops.new [] := BloomHolds.new
    have hall := bloomHolds_foldl hnew entry.metadata
    rw [append_nil] at hall
    exact hall.add _
  · split at hb
    · obtain ⟨b₀, hb₀, rfl⟩ := map_eq_some_iff.mp hb
      exact (h.bloom hb₀).add _
    · next hnone =>
      rw [hb] at hnone
      exact absurd (.inr rfl) hnone

theorem insert (h : EntryApart ops entry) {new : Metadata}
    (hnew : new.identity ∉ entry.metadata.map Metadata.identity) :
    EntryApart ops (hashTableListInsert ops entry new) where
  nObj := by
    show entry.nObj + 1 = (entry.metadata ++ [new]).length
    rw [h.nObj, length_append, length_singleton]
  nodup := by
    show ((entry.metadata ++ [new]).map Metadata.identity).Nodup
    rw [map_append, map_singleton, ← concat_eq_append]
    exact h.nodup.concat hnew
  bloom hb := by
    refine (h.bloom_insert new hb).perm ?_
    show List.Perm _ ((entry.metadata ++ [new]).map combineObjInfoToString)
    rw [map_append]
    exact (perm_append_singleton _ _).symm

theorem delete (h : EntryApart ops entry) {p : Metadata → Bool}
    (hfind : entry.metadata.find? p = some target) :
    EntryApart ops (entry.delete ops target p) where
  nObj := by
    show entry.nObj - 1 = (entry.metadata.eraseP p).length
    rw [h.nObj, (perm_cons_eraseP hfind).length_eq, length_cons, Nat.add_sub_cancel]
  nodup := h.nodup.sublist (eraseP_sublist.map _)
  bloom hb := by
    obtain ⟨b₀, hb₀, rfl⟩ := map_eq_some_iff.mp hb
    exact ((h.bloom hb₀).perm ((perm_cons_eraseP hfind).map combineObjInfoToString)).remove

end EntryApart

/-! ## Requests -/

/-- A request that changes the table of objects. -/
inductive ObjectRequest where
  | create (req : GenObjIdIn)
  | update (req : MetadataUpdateIn)
  | delete (req : MetadataDeleteIn)
  | deleteById (objId : UInt64)

def objectStep (ops : BloomOps B) (s : ObjectServer B) : ObjectRequest → ObjectServer B
  | .create req => (insertMetadataToHashTable ops s req).1
  | .update req => (updateMetadata s req).1
  | .delete req => (deleteMetadataFromHashTable ops s req).1
  | .deleteById objId => deleteMetadataById ops s objId

/-- The texts of an object fit into the arrays of `ADDR_MAX` and `TAG_LEN_MAX` bytes they are
copied to. -/
def Metadata.TextsFit (m : Metadata) : Prop :=
  m.objName.length < 1024 ∧ m.appName.length < 1024 ∧ m.dataLocation.length < 1024 ∧
    m.tags.length < 2048

instance (m : Metadata) : Decidable m.TextsFit := inferInstanceAs (Decidable (_ ∧ _))

/-- An update does not give its object the identity of another one of the list, and its texts
fit. If the list has a filter, it does not change the string the object is in the filter
under. -/
def MetadataUpdateIn.Fits (req : MetadataUpdateIn) (s : ObjectServer B) : Prop :=
  ∀ entry ∈ s.table.lookup req.hashValue,
    ∀ target ∈ findMetadataByIdFromList entry.metadata req.objId,
      (req.apply target).TextsFit ∧
      (∀ m ∈ entry.metadata.eraseP fun m => decide (m.objId = req.objId),
        m.identity ≠ (req.apply target).identity) ∧
      (entry.bloom.isSome →
        combineObjInfoToString (req.apply target) = combineObjInfoToString target)

instance MetadataUpdateIn.decidableFits (req : MetadataUpdateIn) (s : ObjectServer B) :
    Decidable (req.Fits s) := inferInstanceAs (Decidable (∀ _ ∈ _, ∀ _ ∈ _, _ ∧ _))

/-- An update has a condition of its own; a creation and a deletion have texts that fit. -/
def ObjectRequest.Fits (s : ObjectServer B) : ObjectRequest → Prop
  | .create req => (req.metadata 0).TextsFit
  | .update req => req.Fits s
  | .delete req => req.metadata.TextsFit
  | .deleteById _ => True

/-- No two objects of a list have the same name, time step, user and application. -/
def IdentitiesUnique (s : ObjectServer B) : Prop :=
  ∀ key entry, s.table.lookup key = some entry → (entry.metadata.map Metadata.identity).Nodup

def TableApart (ops : BloomOps B) (table : HashTable (HashEntry B)) : Prop :=
  ∀ key entry, table.lookup key = some entry → EntryApart ops entry

section Steps

variable {ops : BloomOps B} {table : HashTable (HashEntry B)} {s : ObjectServer B}
  {entry : HashEntry B} {req : MetadataUpdateIn}

theorem TableApart.insert (h : TableApart ops table)
    (hentry : EntryApart ops entry)
    (key : UInt32) : TableApart ops (table.insert key entry) := by
  intro key' entry' hlookup
  rcases lookup_insert_eq_some_iff.mp hlookup with ⟨_, rfl⟩ | ⟨_, hold⟩
  · exact hentry
  · exact h key' entry' hold

theorem TableApart.erase (h : TableApart ops table) (key : UInt32) :
    TableApart ops (table.erase key) := by
  intro key' entry' hlookup
  exact h key' entry' (lookup_erase_eq_some_iff.mp hlookup).2

theorem TableApart.create (h : TableApart ops s.table) (hops : ops.NeverDenies) (req : GenObjIdIn) :
    TableApart ops (insertMetadataToHashTable ops s req).1.table := by
  rw [insertMetadataToHashTable]
  have hentry : EntryApart ops ((s.table.lookup req.hashValue).getD {}) := by
    cases hlookup : s.table.lookup req.hashValue with
    | none => exact EntryApart.empty
    | some entry => exact h req.hashValue entry hlookup
  split
  · exact h
  · next hnone =>
    -- the id is no part of an identity
    have hnew : (req.metadata s.idSeq).identity ∉ _ := hentry.identity_notMem hops hnone
    exact h.insert (hentry.insert hnew) req.hashValue

theorem EntryApart.update (h : EntryApart ops entry)
    {metadata : List Metadata}
    (hperm : metadata.Perm
      (req.apply target :: entry.metadata.eraseP fun m => decide (m.objId = req.objId)))
    (hfind : findMetadataByIdFromList entry.metadata req.objId = some target)
    (hnew : ∀ m ∈ entry.metadata.eraseP fun m => decide (m.objId = req.objId),
      m.identity ≠ (req.apply target).identity)
    (hbloom : entry.bloom.isSome →
      combineObjInfoToString (req.apply target) = combineObjInfoToString target) :
    EntryApart ops { entry with metadata } where
  nObj := by
    rw [h.nObj, hperm.length_eq, (perm_cons_eraseP hfind).length_eq, length_cons, length_cons]
  nodup := by
    rw [(hperm.map _).nodup_iff, map_cons, nodup_cons]
    refine ⟨fun hmem => ?_, h.nodup.sublist (eraseP_sublist.map _)⟩
    obtain ⟨m, hm, hid⟩ := mem_map.mp hmem
    exact hnew m hm hid
  bloom {b} hb := by
    have hsame := hbloom (by rw [show entry.bloom = some b from hb]; rfl)
    have hstrings := (perm_cons_eraseP hfind).map combineObjInfoToString
    refine (h.bloom hb).perm (hstrings.trans ?_)
    rw [map_cons, ← hsame]
    exact (hperm.map _).symm

theorem TableApart.update (h : TableApart ops s.table) (hfits : req.Fits s) :
    TableApart ops (updateMetadata s req).1.table := by
  rw [updateMetadata]
  split
  · exact h
  · next entry hlookup =>
    split
    · exact h
    · next metadata hmodify =>
      obtain ⟨target, hfind, hperm⟩ := perm_of_modifyFirst hmodify
      obtain ⟨_, hnew, hbloom⟩ := hfits entry hlookup target hfind
      exact h.insert ((h _ entry hlookup).update hperm hfind hnew hbloom) req.hashValue

theorem find?_of_findIdenticalMetadata (h : findIdenticalMetadata ops entry a = some target) :
    (entry.metadata.find? fun elt => metadataCmp elt a) = some target := by
  rw [findIdenticalMetadata] at h
  split at h
  · split at h
    · cases h
    · exact h
  · exact h

theorem TableApart.delete (h : TableApart ops s.table) (req : MetadataDeleteIn) :
    TableApart ops (deleteMetadataFromHashTable ops s req).1.table := by
  rw [deleteMetadataFromHashTable]
  split
  · exact h
  · next entry hlookup =>
    split
    · exact h
    · next target hfound =>
      split
      · exact h.insert ((h _ entry hlookup).delete (find?_of_findIdenticalMetadata hfound)) _
      · exact h.erase _

/-! ## Deletion by id -/

theorem TableApart.deleteFromEntry (h : TableApart ops table) (objId : UInt64) (key : UInt32)
    (targets : List Metadata)
    (htargets : ∀ entry, table.lookup key = some entry →
      (entry.metadata.filter fun m => decide (m.objId = objId)) = targets) :
    TableApart ops (targets.foldl (deleteFromEntry ops objId key) table) ∧
      ∀ key' entry, key' ≠ key →
        (targets.foldl (deleteFromEntry ops objId key) table).lookup key' = some entry →
          table.lookup key' = some entry := by
  induction targets generalizing table with
  | nil => exact ⟨h, fun _ _ _ hlookup => hlookup⟩
  | cons target targets ih =>
    rw [foldl_cons, Pdc.deleteFromEntry]
    split
    · next hnone => exact ih h fun entry hlookup => by rw [hnone] at hlookup; cases hlookup
    · next entry hlookup =>
      have hfilter := htargets entry hlookup
      have hentry := h key entry hlookup
      split
      · have hfind : (entry.metadata.find? fun m => decide (m.objId = objId)) = some target := by
          rw [← head?_filter, hfilter, head?_cons]
        have hnext := ih (h.insert (hentry.delete hfind) key) fun entry' hlookup' => by
          rcases lookup_insert_eq_some_iff.mp hlookup' with ⟨_, rfl⟩ | ⟨hne, _⟩
          · show ((entry.metadata.eraseP _).filter _) = targets
            rw [filter_eraseP_self, hfilter, tail_cons]
          · exact absurd rfl hne
        refine ⟨hnext.1, fun key' entry' hne hlookup' => ?_⟩
        have hafter := hnext.2 key' entry' hne hlookup'
        rwa [AList.lookup_insert_ne hne] at hafter
      · next hlast =>
        -- the only object of the list
        have hlength : (target :: targets).length ≤ 1 := by
          rw [← hfilter]
          refine Nat.le_trans (length_filter_le _ _) ?_
          rw [← hentry.nObj]
          omega
        obtain rfl : targets = [] := length_eq_zero_iff.mp (by simpa using hlength)
        refine ⟨h.erase _, fun key' entry' _ hlookup' => ?_⟩
        exact (lookup_erase_eq_some_iff.mp hlookup').2

/-- All lists are walked through; those that come later have not been changed, if they are
still there. -/
theorem TableApart.deleteFromEntries {objId : UInt64}
    (pairs : List (Sigma fun _ : UInt32 => HashEntry B)) (h : TableApart ops table)
    (hnodup : (pairs.map Sigma.fst).Nodup)
    (hpairs : ∀ pair ∈ pairs, ∀ entry, table.lookup pair.1 = some entry → entry = pair.2) :
    TableApart ops (pairs.foldl (fun table pair =>
      (pair.2.metadata.filter fun m => decide (m.objId = objId)).foldl
        (Pdc.deleteFromEntry ops objId pair.1) table) table) := by
  induction pairs generalizing table with
  | nil => exact h
  | cons pair pairs ih =>
    rw [map_cons, nodup_cons] at hnodup
    rw [forall_mem_cons] at hpairs
    obtain ⟨hok, hothers⟩ := h.deleteFromEntry objId pair.1 _
      fun entry hlookup => by rw [hpairs.1 entry hlookup]
    refine ih hok hnodup.2 fun pair' hmem entry hlookup => ?_
    have hne : pair'.1 ≠ pair.1 := fun heq => hnodup.1 (heq ▸ mem_map_of_mem hmem)
    exact hpairs.2 pair' hmem entry (hothers _ entry hne hlookup)

theorem TableApart.deleteById (h : TableApart ops s.table) (objId : UInt64) :
    TableApart ops (deleteMetadataById ops s objId).table := by
  rw [deleteMetadataById]
  split
  · exact h
  · refine h.deleteFromEntries s.table.entries s.table.keys_nodup fun pair hmem entry hlookup => ?_
    have hpair : s.table.lookup pair.1 = some pair.2 := AList.mem_lookup_iff.mpr hmem
    exact some.inj (hlookup.symm.trans hpair)

/-! ## Runs -/

theorem TableApart.step (hops : ops.NeverDenies) (h : TableApart ops s.table) {r : ObjectRequest}
    (hfits : r.Fits s) : TableApart ops (objectStep ops s r).table := by
  cases r with
  | create req => exact h.create hops req
  | update req => exact h.update hfits
  | delete req => exact h.delete req
  | deleteById objId => exact h.deleteById objId

end Steps

/-- On a server that had no objects, as long as each request meets its condition, no two
objects of a list ever have the same name, time step, user and application. -/
theorem identitiesUnique_of_fits (ops : BloomOps B) (hops : ops.NeverDenies) (s : ObjectServer B)
    (hempty : s.table = ∅) (reqs : List ObjectRequest)
    (hfits : Along (objectStep ops) ObjectRequest.Fits s reqs) :
    IdentitiesUnique (run (objectStep ops) s reqs) := by
  have hinit : TableApart ops s.table := by
    intro key entry hlookup
    rw [hempty] at hlookup
    cases hlookup
  have hok : TableApart ops (run (objectStep ops) s reqs).table :=
    Along.invariant_nil (I := fun _ s => TableApart ops s.table)
      (fun _ _ _ h hfits => h.step hops hfits) hinit hfits
  exact fun key entry hlookup => (hok key entry hlookup).nodup

def exactBloom : BloomOps (List Bytes) where
  new := []
  add b s := s :: b
  remove b s := b.erase s
  check b s := b.contains s

theorem count_exactBloom {hist : List BloomAction} (h : Balanced hist) (s : Bytes) :
    (bloomAfter exactBloom hist).count s + hist.count (.remove s) = hist.count (.add s) := by
  induction hist generalizing s with
  | nil => rfl
  | cons a hist ih =>
    cases a with
    | add t =>
      show List.count s (t :: bloomAfter exactBloom hist) + _ = _
      have hs := ih h s
      simp only [count_cons, beq_iff_eq, reduceCtorEq, if_false, BloomAction.add.injEq]
      omega
    | remove t =>
      show List.count s ((bloomAfter exactBloom hist).erase t) + _ = _
      have hs := ih h.2 s
      have hin := h.1
      simp only [count_erase, count_cons, beq_iff_eq, reduceCtorEq, if_false,
        BloomAction.remove.injEq]
      by_cases heq : t = s
      · subst heq
        simp only [if_true]
        omega
      · simp only [heq, if_false]
        omega

theorem exactBloom_neverDenies : exactBloom.NeverDenies := by
  intro hist s hbal hcount
  have hexact := count_exactBloom hbal s
  have hpos : 0 < (bloomAfter exactBloom hist).count s := by omega
  exact contains_iff_mem.mpr (count_pos_iff.mp hpos)

def createA (timeStep : Int) : GenObjIdIn :=
  { hashValue := getHashByName [97], objName := [97], timeStep, userId := 1, appName := [98] }

/-- Two objects that differ in the time step, of which the first gets another one. -/
theorem identitiesUnique_update_apart :
    IdentitiesUnique (run (objectStep exactBloom) { idSeq := 1000000000 }
      [.create (createA 1), .create (createA 2),
        .update { hashValue := getHashByName [97], objId := 1000000000, timeStep := 3 }]) :=
  identitiesUnique_of_fits exactBloom exactBloom_neverDenies { idSeq := 1000000000 } rfl _
    ⟨show Metadata.TextsFit _ by decide, show Metadata.TextsFit _ by decide,
      show MetadataUpdateIn.Fits _ _ by decide +kernel, trivial⟩

/-- The first one gets the time step of the second one. -/
theorem not_identitiesUnique_update :
    ¬IdentitiesUnique (run (objectStep exactBloom) { idSeq := 1000000000 }
      [.create (createA 1), .create (createA 2),
        .update { hashValue := getHashByName [97], objId := 1000000000, timeStep := 2 }]) := by
  intro h
  exact absurd (h (getHashByName [97]) _ rfl) (by decide +kernel)

end Pdc
