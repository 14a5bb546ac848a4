import Pdc.Lib.Tables
import Pdc.Server.Kvtag

/-!
# Tags as a map

`sometaStep` is a request for the tags of an object, and `listStep` what it does
to the object's list. The list answers like the map that the requests describe as
long as a name is not added again with another value while it is there, and a
name that is there twice is not deleted: a search stops at the first tag with a
name, and a deletion takes out only that one. With RocksDB the answers are those
of the map in any case, if its calls keep the laws of a map and the keys fit.

The second part is about which tags a request touches. The id is compared when
there is an entry for the hash in the table of objects. A container is found by
the hash alone.
-/

namespace Pdc

open List Lib Function Option

variable {B : Type}

/-! ## Lists of tags -/

/-- A request for the tags of an object. -/
inductive KvtagRequest where
  | add (tag : Kvtag)
  | del (key : Bytes)
  | get (key : Bytes)

variable {list : List Kvtag} (change : List Kvtag → List Kvtag) (reqs : List KvtagRequest)
  (r : KvtagRequest) {key : Bytes} {objId : UInt64} {α : Type}

def listStep (list : List Kvtag) : KvtagRequest → List Kvtag
  | .add tag => addKvtagToList list tag
  | .del key => delKvtagValueFromList list key
  | .get _ => list

def KvtagRequest.op : KvtagRequest → Option (MapOp Bytes Bytes)
  | .add tag => some (.put tag.name tag.value)
  | .del key => some (.delete key)
  | .get _ => none

/-- The map that requests describe: the value of the last addition of a name that no deletion
of the name follows. -/
noncomputable def tagsAfter (reqs : List KvtagRequest) : Bytes → Option Bytes :=
  mapAfter (reqs.filterMap KvtagRequest.op)

def valueIn (list : List Kvtag) (key : Bytes) : Option Bytes :=
  (getKvtagValueFromList list key).map Kvtag.value

/-- A name that is added has no tag, or has the same value first. One that is deleted has at
most one tag. -/
def KvtagRequest.Fits (list : List Kvtag) : KvtagRequest → Prop
  | .add tag => ∀ old ∈ getKvtagValueFromList list tag.name, old.value = tag.value
  | .del key => list.countP (fun tag => decide (tag.name = key)) ≤ 1
  | .get _ => True

instance KvtagRequest.decidableFits (list : List Kvtag) :
    (r : KvtagRequest) → Decidable (r.Fits list)
  | .add tag => inferInstanceAs (Decidable (∀ old ∈ getKvtagValueFromList list tag.name, _))
  | .del _ => inferInstanceAs (Decidable (_ ≤ _))
  | .get _ => isTrue trivial

theorem value_kvtagOut (list : List Kvtag) (key : Bytes) :
    (kvtagOut list key).value = valueIn list key := by
  rw [kvtagOut, valueIn]
  cases getKvtagValueFromList list key with
  | none => rfl
  | some tag => rfl

theorem valueIn_add (list : List Kvtag) (tag : Kvtag) (key : Bytes) :
    valueIn (addKvtagToList list tag) key =
      (valueIn list key).or (if tag.name = key then some tag.value else none) := by
  rw [valueIn, valueIn, getKvtagValueFromList, addKvtagToList, find?_append]
  cases hfind : getKvtagValueFromList list key with
  | some old => rw [getKvtagValueFromList] at hfind; rw [hfind]; rfl
  | none =>
    rw [getKvtagValueFromList] at hfind
    rw [hfind]
    by_cases h : tag.name = key
    · rw [if_pos h, find?_cons_of_pos (by rwa [decide_eq_true_eq])]
      rfl
    · rw [if_neg h, find?_cons_of_neg (by rwa [decide_eq_true_eq])]
      rfl

theorem valueIn_del_of_ne {key' : Bytes} (h : key' ≠ key) :
    valueIn (delKvtagValueFromList list key) key' = valueIn list key' := by
  have hfind : (delKvtagValueFromList list key).find? (fun tag => decide (tag.name = key')) =
      list.find? fun tag => decide (tag.name = key') := by
    rw [delKvtagValueFromList]
    induction list with
    | nil => rfl
    | cons tag list ih =>
      by_cases htag : tag.name = key
      · have hother : tag.name ≠ key' := fun heq => h (heq.symm.trans htag)
        rw [eraseP_cons_of_pos (by rwa [decide_eq_true_eq]),
          find?_cons_of_neg (by rwa [decide_eq_true_eq])]
      · rw [eraseP_cons_of_neg (by rwa [decide_eq_true_eq]), find?_cons, find?_cons, ih]
  rw [valueIn, valueIn, getKvtagValueFromList, getKvtagValueFromList, hfind]

theorem valueIn_eq_none :
    valueIn list key = none ↔ list.countP (fun tag => decide (tag.name = key)) = 0 := by
  rw [valueIn, map_eq_none_iff, getKvtagValueFromList, find?_eq_none, countP_eq_zero]

theorem valueIn_del_self :
    valueIn (delKvtagValueFromList list key) key = none ↔
      list.countP (fun tag => decide (tag.name = key)) ≤ 1 := by
  rw [valueIn_eq_none, delKvtagValueFromList]
  induction list with
  | nil => simp
  | cons tag list ih =>
    by_cases htag : tag.name = key
    · rw [eraseP_cons_of_pos (by rwa [decide_eq_true_eq]),
        countP_cons_of_pos (by rwa [decide_eq_true_eq])]
      omega
    · rw [eraseP_cons_of_neg (by rwa [decide_eq_true_eq]),
        countP_cons_of_neg (by rwa [decide_eq_true_eq]),
        countP_cons_of_neg (by rwa [decide_eq_true_eq]), ih]

/-! ## The map -/

theorem tagsAfter_append :
    tagsAfter (reqs ++ [r]) =
      match r.op with
      | some op => mapStep (tagsAfter reqs) op
      | none => tagsAfter reqs := by
  rw [tagsAfter, filterMap_append]
  cases hop : r.op with
  | none =>
    rw [filterMap_cons_none hop, filterMap_nil, append_nil]
    rfl
  | some op =>
    rw [filterMap_cons_some hop, filterMap_nil, mapAfter_append_singleton]
    rfl

theorem valueIn_listStep_iff {hist : List KvtagRequest} {r : KvtagRequest}
    (h : ∀ key, valueIn list key = tagsAfter hist key) :
    (∀ key, valueIn (listStep list r) key = tagsAfter (hist ++ [r]) key) ↔ r.Fits list := by
  rw [tagsAfter_append]
  cases r with
  | get key => exact ⟨fun _ => trivial, fun _ => h⟩
  | add tag =>
    show (∀ key, valueIn (addKvtagToList list tag) key =
      mapStep (tagsAfter hist) (.put tag.name tag.value) key) ↔ _
    have hself : valueIn (addKvtagToList list tag) tag.name =
        mapStep (tagsAfter hist) (.put tag.name tag.value) tag.name ↔
          KvtagRequest.Fits list (.add tag) := by
      rw [valueIn_add, mapStep_put_self, valueIn, KvtagRequest.Fits]
      cases getKvtagValueFromList list tag.name with
      | none => simp
      | some old => simp
    refine ⟨fun hall => hself.mp (hall tag.name), fun hfits key => ?_⟩
    by_cases heq : tag.name = key
    · rw [← heq]
      exact hself.mpr hfits
    · rw [valueIn_add, if_neg heq, or_none, mapStep_put_of_ne _ _ heq, h]
  | del key =>
    show (∀ key', valueIn (delKvtagValueFromList list key) key' =
      mapStep (tagsAfter hist) (.delete key) key') ↔ _
    have hself : mapStep (tagsAfter hist) (.delete key) key = none :=
      mapStep_delete_self _ key
    refine ⟨fun hall => valueIn_del_self.mp ((hall key).trans hself), fun hfits key' => ?_⟩
    by_cases heq : key' = key
    · rw [heq, hself]
      exact valueIn_del_self.mpr hfits
    · rw [valueIn_del_of_ne heq, mapStep_delete_of_ne _ (Ne.symm heq), h]

theorem valueIn_run_iff :
    (∀ pre, pre <+: reqs → ∀ key, valueIn (run listStep [] pre) key = tagsAfter pre key) ↔
      Along listStep KvtagRequest.Fits [] reqs :=
  Along.forall_isPrefix_iff_of_history
    (I := fun hist list => ∀ key, valueIn list key = tagsAfter hist key)
    (fun _ _ _ _ h => valueIn_listStep_iff h) fun _ => rfl

/-! ## An object on a server -/

section Object

variable (hashValue : UInt32) (objId : UInt64)

def tagsOf (s : ObjectServer B) : Option (List Kvtag) :=
  (s.table.lookup hashValue).bind fun entry =>
    (findMetadataByIdFromList entry.metadata objId).map Metadata.kvtags

/-- A request for the tags of an object is served. For an object that exists there is always
an outcome. -/
def sometaStep (s : ObjectServer B) : KvtagRequest → ObjectServer B
  | .add kvtag => (addKvtagSometa s { objId, hashValue, kvtag }).elim s Prod.fst
  | .del key => (delKvtagSometa s { objId, hashValue, key }).elim s Prod.fst
  | .get _ => s

variable {hashValue objId} {s : ObjectServer B}

theorem tagsOf_changeTagsSometa (s : ObjectServer B) :
    tagsOf hashValue objId ((changeTagsSometa change s hashValue objId).elim s Prod.fst) =
      (tagsOf hashValue objId s).map change := by
  rw [changeTagsSometa]
  split
  · next entry hentry =>
    split
    · next metadata hmodify =>
      obtain ⟨m, hold, hnew⟩ := find?_of_modifyFirst hmodify
      have hid : decide (m.objId = objId) = true :=
        find?_some (p := fun m : Metadata => decide (m.objId = objId)) hold
      show ((s.table.insert hashValue _).lookup hashValue).bind _ = _
      rw [AList.lookup_insert, tagsOf, hentry, bind_some, bind_some,
        findMetadataByIdFromList, findMetadataByIdFromList, hold, hnew hid]
      rfl
    · next hmodify =>
      have hnone : findMetadataByIdFromList entry.metadata objId = none :=
        find?_eq_none.mpr fun m hm => by
          rw [modifyFirst_eq_none.mp hmodify m hm]
          exact Bool.false_ne_true
      show tagsOf hashValue objId s = _
      rw [tagsOf, hentry, bind_some, hnone]
      rfl
  · next hnone =>
    have htags : tagsOf hashValue objId s = none := by
      rw [tagsOf, hnone, bind_none]
    rw [htags]
    split
    · next cont _ =>
      cases cont.kvtagListHead.list with
      | none => exact htags
      | some list => exact htags
    · exact htags

theorem tagsOf_sometaStep (s : ObjectServer B) (r : KvtagRequest) :
    tagsOf hashValue objId (sometaStep hashValue objId s r) =
      (tagsOf hashValue objId s).map (listStep · r) := by
  cases r with
  | add tag => exact tagsOf_changeTagsSometa _ s
  | del key => exact tagsOf_changeTagsSometa _ s
  | get key => exact (congrFun map_id _).symm

theorem tagsOf_run (h : tagsOf hashValue objId s = some list) (reqs : List KvtagRequest) :
    tagsOf hashValue objId (run (sometaStep hashValue objId) s reqs) =
      some (run listStep list reqs) := by
  induction reqs generalizing s list with
  | nil => exact h
  | cons r reqs ih =>
    refine ih ?_
    rw [tagsOf_sometaStep, h, map_some]

theorem getKvtagSometa_of_tagsOf (h : tagsOf hashValue objId s = some list)
    (key : Bytes) : getKvtagSometa s { objId, hashValue, key } = some (kvtagOut list key) := by
  obtain ⟨entry, hentry, htags⟩ := bind_eq_some_iff.mp h
  obtain ⟨m, hm, rfl⟩ := map_eq_some_iff.mp htags
  rw [getKvtagSometa]
  simp only [hentry, hm]

end Object

/-! ## RocksDB -/

/-- No call fails, and a call that does not fail does what its name says. -/
structure RocksDb.Lawful {Store : Type} (rocksdb : RocksDb Store) : Prop where
  put_err : ∀ db key value, (rocksdb.put db key value).2 = none
  delete_err : ∀ db key, (rocksdb.delete db key).2 = none
  get_put : ∀ db key value key', (rocksdb.put db key value).2 = none →
    rocksdb.get (rocksdb.put db key value).1 key' = if key' = key then some value else
      rocksdb.get db key'
  get_delete : ∀ db key key', (rocksdb.delete db key).2 = none →
    rocksdb.get (rocksdb.delete db key).1 key' = if key' = key then none else rocksdb.get db key'

/-- The name of the tag a request is for. -/
def KvtagRequest.name : KvtagRequest → Bytes
  | .add tag => tag.name
  | .del key => key
  | .get key => key

section Rocksdb

variable {Store : Type} (rocksdb : RocksDb Store) (hashValue : UInt32) (objId : UInt64)

/-- A request for the tags of an object, with RocksDB. Once a key has not fit there is no
outcome. -/
def rocksdbStep (db : Option Store) (r : KvtagRequest) : Option Store :=
  db.bind fun db =>
    match r with
    | .add kvtag => (addKvtagRocksdb rocksdb db { objId, hashValue, kvtag }).map Prod.fst
    | .del key => (delKvtagRocksdb rocksdb db { objId, hashValue, key }).map Prod.fst
    | .get key => (getKvtagRocksdb rocksdb db { objId, hashValue, key }).map fun _ => db

variable {rocksdb hashValue objId}

theorem rocksdbKey_ne {name name' key key' : Bytes} (h : rocksdbKey objId name = some key)
    (h' : rocksdbKey objId name' = some key') (hne : name ≠ name') : key ≠ key' := by
  obtain ⟨_, rfl⟩ := ite_some_none_eq_some.mp h
  obtain ⟨_, rfl⟩ := ite_some_none_eq_some.mp h'
  rwa [Ne, append_cancel_right_eq, append_cancel_left_eq]

/-- Under the keys that fit, the store has the tags of the map. -/
def StoresTags (rocksdb : RocksDb Store) (objId : UInt64) (db : Store)
    (tags : Bytes → Option Bytes) : Prop :=
  ∀ name key, rocksdbKey objId name = some key → rocksdb.get db key = tags name

theorem StoresTags.put {db : Store} {tags : Bytes → Option Bytes} {name key : Bytes}
    (hlaws : rocksdb.Lawful) (h : StoresTags rocksdb objId db tags)
    (hkey : rocksdbKey objId name = some key) (value : Bytes) :
    StoresTags rocksdb objId (rocksdb.put db key value).1 (mapStep tags (.put name value)) := by
  intro name' key' hkey'
  by_cases heq : name = name'
  · subst heq
    obtain rfl : key = key' := Option.some.inj (hkey.symm.trans hkey')
    rw [hlaws.get_put _ _ _ _ (hlaws.put_err ..), if_pos rfl, mapStep_put_self]
  · rw [hlaws.get_put _ _ _ _ (hlaws.put_err ..), if_neg (rocksdbKey_ne hkey' hkey (Ne.symm heq)),
      mapStep_put_of_ne _ _ heq, h _ _ hkey']

theorem StoresTags.delete {db : Store} {tags : Bytes → Option Bytes} {name key : Bytes}
    (hlaws : rocksdb.Lawful) (h : StoresTags rocksdb objId db tags)
    (hkey : rocksdbKey objId name = some key) :
    StoresTags rocksdb objId (rocksdb.delete db key).1 (mapStep tags (.delete name)) := by
  intro name' key' hkey'
  by_cases heq : name = name'
  · subst heq
    obtain rfl : key = key' := Option.some.inj (hkey.symm.trans hkey')
    rw [hlaws.get_delete _ _ _ (hlaws.delete_err ..), if_pos rfl, mapStep_delete_self]
  · rw [hlaws.get_delete _ _ _ (hlaws.delete_err ..),
      if_neg (rocksdbKey_ne hkey' hkey (Ne.symm heq)), mapStep_delete_of_ne _ heq, h _ _ hkey']

variable (hashValue) in
theorem rocksdb_run {db : Store} (hlaws : rocksdb.Lawful)
    (hdb : StoresTags rocksdb objId db fun _ => none) {reqs : List KvtagRequest}
    (hfit : ∀ r ∈ reqs, (rocksdbKey objId r.name).isSome) :
    ∃ db', run (rocksdbStep rocksdb hashValue objId) (some db) reqs = some db' ∧
      StoresTags rocksdb objId db' (tagsAfter reqs) := by
  induction reqs using List.reverseRecOn with
  | nil => exact ⟨db, rfl, hdb⟩
  | append_singleton reqs r ih =>
    rw [forall_mem_append, forall_mem_singleton] at hfit
    obtain ⟨db', hrun, hstores⟩ := ih hfit.1
    obtain ⟨key, hkey⟩ := isSome_iff_exists.mp hfit.2
    rw [run_append, hrun, run_cons, run_nil, tagsAfter_append]
    cases r with
    | get name =>
      replace hkey : rocksdbKey objId name = some key := hkey
      exact ⟨db', by simp [rocksdbStep, getKvtagRocksdb, hkey], hstores⟩
    | add tag =>
      replace hkey : rocksdbKey objId tag.name = some key := hkey
      exact ⟨(rocksdb.put db' key tag.value).1, by simp [rocksdbStep, addKvtagRocksdb, hkey],
        hstores.put hlaws hkey tag.value⟩
    | del name =>
      replace hkey : rocksdbKey objId name = some key := hkey
      exact ⟨(rocksdb.delete db' key).1, by simp [rocksdbStep, delKvtagRocksdb, hkey],
        hstores.delete hlaws hkey⟩

end Rocksdb

/-! ## The two stores -/

/-- After each request for the tags of an object, both stores answer a search for any name
with the value of the last addition of the name that no deletion of it follows, and with no
value if there is none. RocksDB is asked for the names whose keys fit. -/
def TagsAnswerAsMap {Store : Type} (rocksdb : RocksDb Store) (hashValue : UInt32) (objId : UInt64)
    (s : ObjectServer B) (db : Store) (reqs : List KvtagRequest) : Prop :=
  ∀ pre, pre <+: reqs → ∀ key,
    (getKvtagSometa (run (sometaStep hashValue objId) s pre) { objId, hashValue, key }).map
        MetadataGetKvtagOut.value = some (tagsAfter pre key) ∧
      ((rocksdbKey objId key).isSome →
        ((run (rocksdbStep rocksdb hashValue objId) (some db) pre).bind
          (getKvtagRocksdb rocksdb · { objId, hashValue, key })).map (·.1.value) =
            some (tagsAfter pre key))

/-- They do so for an object that had no tags, and requests whose keys fit, just if each
request fits the object's list of tags. -/
theorem tagsAnswerAsMap_iff_fits {Store : Type} {rocksdb : RocksDb Store} (hlaws : rocksdb.Lawful)
    (s : ObjectServer B) (hashValue : UInt32) (objId : UInt64)
    (hnew : tagsOf hashValue objId s = some []) (db : Store)
    (hdb : ∀ name key, rocksdbKey objId name = some key → rocksdb.get db key = none)
    (reqs : List KvtagRequest) (hfit : ∀ r ∈ reqs, (rocksdbKey objId r.name).isSome) :
    TagsAnswerAsMap rocksdb hashValue objId s db reqs ↔ Along (sometaStep hashValue objId)
        (fun s r => r.Fits ((tagsOf hashValue objId s).getD [])) s reqs := by
  have hanswer : ∀ pre key,
      (getKvtagSometa (run (sometaStep hashValue objId) s pre) { objId, hashValue, key }).map
        MetadataGetKvtagOut.value = some (valueIn (run listStep [] pre) key) := by
    intro pre key
    rw [getKvtagSometa_of_tagsOf (tagsOf_run hnew pre), Option.map_some, value_kvtagOut]
  -- both runs are seen from the tags of the object, if there is one
  have hserver : Along (sometaStep hashValue objId)
      (fun s r => r.Fits ((tagsOf hashValue objId s).getD [])) s reqs ↔
        Along (fun list r => list.map (listStep · r))
          (fun (list : Option (List Kvtag)) (r : KvtagRequest) => r.Fits (list.getD []))
          (tagsOf hashValue objId s) reqs :=
    Along.map_iff
      (P := fun (list : Option (List Kvtag)) (r : KvtagRequest) => r.Fits (list.getD []))
      tagsOf_sometaStep
  have hlist : Along listStep KvtagRequest.Fits [] reqs ↔
      Along (fun list r => list.map (listStep · r))
        (fun (list : Option (List Kvtag)) (r : KvtagRequest) => r.Fits (list.getD []))
        (some []) reqs :=
    Along.map_iff (f := some)
      (P := fun (list : Option (List Kvtag)) (r : KvtagRequest) => r.Fits (list.getD []))
      fun _ _ => rfl
  rw [hserver, hnew, ← hlist, ← valueIn_run_iff]
  refine forall₂_congr fun pre hpre => forall_congr' fun key => ?_
  rw [hanswer, Option.some.injEq]
  refine and_iff_left fun hkey => ?_
  obtain ⟨key', hkey⟩ := isSome_iff_exists.mp hkey
  obtain ⟨db', hrun, hstores⟩ := rocksdb_run hashValue hlaws hdb
    (fun r hr => hfit r (hpre.subset hr))
  rw [hrun, bind_some, getKvtagRocksdb, hkey]
  exact congrArg some (hstores key key' hkey)

def oneObject : ObjectServer Unit where
  table := AList.singleton 5 { nObj := 1, metadata := [{ objId := 7 }] }
  idSeq := 8

/-- A store that is a map. -/
def mapStore : RocksDb (Bytes → Option Bytes) where
  put db key value := (update db key (some value), none)
  get db key := db key
  delete db key := (update db key none, none)

/-- A name is added, deleted and added with another value. -/
theorem tagsAnswerAsMap_add_again :
    TagsAnswerAsMap mapStore 5 7 oneObject (fun _ => none)
      [.add ⟨[97], 6, [1]⟩, .get [97], .del [97], .add ⟨[97], 6, [2]⟩] := by
  have hlaws : mapStore.Lawful :=
    ⟨fun _ _ _ => rfl, fun _ _ => rfl, fun _ _ _ _ _ => update_apply .., fun _ _ _ _ =>
      update_apply ..⟩
  exact (tagsAnswerAsMap_iff_fits hlaws oneObject 5 7 rfl (fun _ => none) (fun _ _ _ => rfl) _
    (by decide)).mpr ⟨by decide, by decide, by decide, by decide, trivial⟩

/-- A name is added twice: the list of tags has the first value first. -/
theorem not_tagsAnswerAsMap_add_twice :
    ¬TagsAnswerAsMap mapStore 5 7 oneObject (fun _ => none)
      [.add ⟨[97], 6, [1]⟩, .add ⟨[97], 6, [2]⟩] := by
  intro h
  have hanswer := (h _ (prefix_refl _) [97]).1
  have hmap : tagsAfter [.add ⟨[97], 6, [1]⟩, .add ⟨[97], 6, [2]⟩] [97] = some [2] :=
    mapAfter_eq_some_iff.mpr ⟨[.put [97] [1]], [], rfl, by simp⟩
  rw [hmap] at hanswer
  exact absurd hanswer (by decide)

/-! ## Which tags a request touches -/

/-- An object or a container with the id has the tags. -/
def HasTags (s : ObjectServer B) (objId : UInt64) (tags : List Kvtag) : Prop :=
  (∃ key entry m, s.table.lookup key = some entry ∧ m ∈ entry.metadata ∧ m.objId = objId ∧
      m.kvtags = tags) ∨
    ∃ key cont, s.containers.lookup key = some cont ∧ cont.contId = objId ∧
      cont.kvtagListHead.list = some tags

/-- All objects and containers with another id are as they were. -/
structure OthersKept (objId : UInt64) (s s' : ObjectServer B) : Prop where
  objects : ∀ key,
    (s'.table.lookup key).map
        (fun entry => entry.metadata.filter fun m => !decide (m.objId = objId)) =
      (s.table.lookup key).map fun entry => entry.metadata.filter fun m => !decide (m.objId = objId)
  containers : ∀ key,
    (s'.containers.lookup key).filter (fun cont => !decide (cont.contId = objId)) =
      (s.containers.lookup key).filter fun cont => !decide (cont.contId = objId)

theorem OthersKept.refl (objId : UInt64) (s : ObjectServer B) : OthersKept objId s s :=
  ⟨fun _ => rfl, fun _ => rfl⟩

/-- A change of tags has an outcome, leaves all others as they were, and succeeds only if
there is something with the id. -/
def ChangesOnly (objId : UInt64) (s : ObjectServer B) (r : Option (ObjectServer B × Int)) : Prop :=
  ∃ s' ret, r = some (s', ret) ∧ OthersKept objId s s' ∧ (ret = 1 → ∃ tags, HasTags s objId tags)

/-- A request touches only what has the id. A search that fails is answered with nothing. -/
def TouchesOnly (hashValue : UInt32) (objId : UInt64) (s : ObjectServer B) : KvtagRequest → Prop
  | .add kvtag => ChangesOnly objId s (addKvtagSometa s { objId, hashValue, kvtag })
  | .del key => ChangesOnly objId s (delKvtagSometa s { objId, hashValue, key })
  | .get key =>
    ∃ out, getKvtagSometa s { objId, hashValue, key } = some out ∧
      (out = {} ∨ ∃ tags, HasTags s objId tags ∧ out = kvtagOut tags key)

/-- If no object has the hash, a container that has it has the id as well, and its tags have
not been left behind in another process. -/
def ContainerHasId (hashValue : UInt32) (objId : UInt64) (s : ObjectServer B) : Prop :=
  s.table.lookup hashValue = none → ∀ cont, s.containers.lookup hashValue = some cont →
    cont.contId = objId ∧ cont.kvtagListHead ≠ .stale

theorem Pointer.list_eq_none {p : Pointer (List α)} : p.list = none ↔ p = .stale := by
  cases p <;> simp [Pointer.list]

@[simp] theorem Pointer.list_ofList (list : List α) :
    (Pointer.ofList list).list = some list := by
  cases list <;> rfl

section Touches

variable {hashValue : UInt32} {objId : UInt64} {s : ObjectServer B}

theorem OthersKept.changeTags {entry : HashEntry B} {metadata : List Metadata}
    (hentry : s.table.lookup hashValue = some entry)
    (hmodify : modifyFirst (fun m => decide (m.objId = objId)) (Metadata.changeTags change)
      entry.metadata = some metadata) :
    OthersKept objId s
      { s with table := s.table.insert hashValue { entry with metadata } } where
  objects key := by
    by_cases heq : key = hashValue
    · subst heq
      rw [AList.lookup_insert, hentry]
      exact congrArg some
        (filter_modifyFirst (f := Metadata.changeTags change) (fun _ h => h) hmodify)
    · show ((s.table.insert hashValue _).lookup key).map _ = _
      rw [AList.lookup_insert_ne heq]
  containers _ := rfl

theorem OthersKept.changeContainer {cont cont' : Container}
    (hcont : s.containers.lookup hashValue = some cont) (hid : cont.contId = objId)
    (hid' : cont'.contId = objId) :
    OthersKept objId s { s with containers := s.containers.insert hashValue cont' } where
  objects _ := rfl
  containers key := by
    by_cases heq : key = hashValue
    · subst heq
      rw [AList.lookup_insert, hcont, filter_some_neg (by simp [hid']),
        filter_some_neg (by simp [hid])]
    · show ((s.containers.insert hashValue cont').lookup key).filter _ = _
      rw [AList.lookup_insert_ne heq]

theorem ContainerHasId.changesOnly (h : ContainerHasId hashValue objId s)
    (change : List Kvtag → List Kvtag) :
    ChangesOnly objId s (changeTagsSometa change s hashValue objId) := by
  rw [changeTagsSometa]
  split
  · next entry hentry =>
    split
    · next metadata hmodify =>
      obtain ⟨m, hm, -⟩ := find?_of_modifyFirst hmodify
      have hid := find?_some hm
      exact ⟨_, _, rfl, .changeTags change hentry hmodify, fun _ =>
        ⟨m.kvtags, .inl ⟨hashValue, entry, m, hentry, mem_of_find?_eq_some hm,
          of_decide_eq_true hid, rfl⟩⟩⟩
    · exact ⟨_, _, rfl, .refl objId s, fun hret => absurd hret (by decide)⟩
  · next hnone =>
    split
    · next cont hcont =>
      obtain ⟨hid, hlive⟩ := h hnone cont hcont
      cases hlist : cont.kvtagListHead.list with
      | none => exact absurd (Pointer.list_eq_none.mp hlist) hlive
      | some list =>
        exact ⟨_, _, rfl, .changeContainer hcont hid hid, fun _ =>
          ⟨list, .inr ⟨hashValue, cont, hcont, hid, hlist⟩⟩⟩
    · exact ⟨_, _, rfl, .refl objId s, fun hret => absurd hret (by decide)⟩

theorem ContainerHasId.touchesOnly (h : ContainerHasId hashValue objId s) (r : KvtagRequest) :
    TouchesOnly hashValue objId s r := by
  cases r with
  | add kvtag => exact h.changesOnly _
  | del key => exact h.changesOnly _
  | get key =>
    rw [TouchesOnly, getKvtagSometa]
    split
    · next entry hentry =>
      split
      · next m hm =>
        have hid := find?_some hm
        exact ⟨_, rfl, .inr ⟨m.kvtags, .inl ⟨hashValue, entry, m, hentry,
          mem_of_find?_eq_some hm, of_decide_eq_true hid, rfl⟩, rfl⟩⟩
      · exact ⟨_, rfl, .inl rfl⟩
    · next hnone =>
      split
      · next cont hcont =>
        obtain ⟨hid, hlive⟩ := h hnone cont hcont
        cases hlist : cont.kvtagListHead.list with
        | none => exact absurd (Pointer.list_eq_none.mp hlist) hlive
        | some list =>
          exact ⟨_, rfl, .inr ⟨list, .inr ⟨hashValue, cont, hcont, hid, hlist⟩, rfl⟩⟩
      · exact ⟨_, rfl, .inl rfl⟩

theorem containerHasId_of_touchesOnly {tag : Kvtag}
    (h : TouchesOnly hashValue objId s (.add tag)) : ContainerHasId hashValue objId s := by
  intro hnone cont hcont
  obtain ⟨s', ret, hadd, hkept, -⟩ := h
  rw [addKvtagSometa, changeTagsSometa] at hadd
  simp only [hnone, hcont] at hadd
  obtain ⟨list, hlist, heq⟩ := map_eq_some_iff.mp hadd
  obtain ⟨rfl, -⟩ := Prod.mk.inj heq
  refine ⟨?_, fun hstale => ?_⟩
  · by_contra hne
    have hsame := hkept.containers hashValue
    rw [AList.lookup_insert, hcont] at hsame
    simp only [hne, decide_false, Bool.not_false, filter_some_pos,
      some.injEq] at hsame
    have hhead := congrArg (fun cont => cont.kvtagListHead.list) hsame
    simp only [Pointer.list_ofList, hlist, addKvtagToList, some.injEq] at hhead
    simp at hhead
  · rw [hstale] at hlist
    cases hlist

/-- Every request with an id and the hash of a name touches only the object or container with
the id just if a container that is found by the hash alone has the id. -/
theorem touchesOnly_iff_containerHasId (s : ObjectServer B) (hashValue : UInt32) (objId : UInt64) :
    (∀ r, TouchesOnly hashValue objId s r) ↔ ContainerHasId hashValue objId s :=
  ⟨fun h => containerHasId_of_touchesOnly (h (.add ⟨[], 0, []⟩)), fun h r => h.touchesOnly r⟩

end Touches

def oneContainer : ObjectServer Unit where
  containers := AList.singleton (getHashByName [99]) { contId := 1000000000, contName := [99] }
  idSeq := 1000000001

/-- A tag for another id goes to the container. -/
theorem not_touchesOnly_other_id :
    ¬TouchesOnly (getHashByName [99]) 1000000001 oneContainer (.add ⟨[97], 6, [1]⟩) := by
  intro h
  have hid := (containerHasId_of_touchesOnly h rfl _ rfl).1
  exact absurd hid (by decide)

end Pdc
