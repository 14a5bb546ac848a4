import Pdc.Proofs.QuerySpread
import Pdc.Lib.Ranked

/-!
# When all regions of a query's objects are distributed

A target other than the manager distributes its objects when a piece from the
target before it arrives. So when all messages have been handled, the regions of
all objects have been distributed just if each target sends a piece to the next
one, which depends on the number of regions: `ChainReaches`.

A piece from the target before that is handled before the query is not noticed
as such, which is the condition on the run. The others are conditions on the
query: `IdsFit` on the arrays in which the servers keep the objects they have
met, which on the manager has an entry for each target only, and one on the
neighbours the client sends.
-/

namespace Pdc

open List Lib

variable {ρ : Type} {C : Cluster ρ} {query : Query} {getOp : GetOp} {σ : Storage ρ} {S : List Nat}
  {P : List (Piece ρ)} {w : QueryWorld ρ} {capacity manager rank : Nat} {o : UInt64}

/-! ## Runs -/

/-- Regions from the target before are handled after the query. -/
def QueryFirst (C : Cluster ρ) (query : Query) (w : QueryWorld ρ) : QueryAction → Prop
  | .bulk i => ∀ b, w.bulks[i]? = some b → C.Follows query b.origin b.target →
      w.Handled C b.target
  | _ => True

theorem queryFirst_of_queries_nil (h : w.queries = []) (a : QueryAction) :
    QueryFirst C query w a := by
  cases a with
  | bulk i =>
    intro b _ hfollows
    refine ⟨Cluster.lt_of_mem_targets hfollows.mem, fun msg hmsg => ?_⟩
    rw [h] at hmsg
    simp at hmsg
  | query i => trivial
  | report i => trivial

theorem evaluateAndReport_undefined (w : QueryWorld ρ) (rank : Nat) (server : DistServer ρ)
    (task : DistTask) : (evaluateAndReport w rank server task).undefined = w.undefined := by
  obtain ⟨_, _, _, h⟩ := evaluateAndReport_eq w rank server task
  rw [h]

theorem queryStep_undefined (h : w.undefined = true) (a : QueryAction) :
    (queryStep C query getOp w a).undefined = true := by
  cases a with
  | query i =>
    simp only [queryStep]
    split
    · exact h
    · unfold recvDataQuery
      simp only
      split
      · split
        · rfl
        · exact h
      · rw [evaluateAndReport_undefined]
        exact h
  | bulk i =>
    simp only [queryStep]
    split
    · exact h
    · unfold recvQueryMetadataBulk
      simp only
      split
      · rfl
      · split
        · rw [evaluateAndReport_undefined]
          exact h
        · split
          · split
            · rfl
            · rw [evaluateAndReport_undefined]
              exact h
          · rw [evaluateAndReport_undefined]
            exact h
  | report i =>
    simp only [queryStep]
    split
    · exact h
    · unfold recvReport
      simp only
      split
      · exact h
      · exact h

theorem Continues.step (h : Continues C query getOp σ w) {a : QueryAction}
    (ha : QueryFirst C query w a) : Continues C query getOp σ (queryStep C query getOp w a) := by
  rcases h with ⟨S, P, h⟩ | h
  · cases a with
    | query i =>
      simp only [queryStep]
      split
      · exact .inl ⟨S, P, h⟩
      · next hi => exact h.recvDataQuery hi
    | bulk i =>
      simp only [queryStep]
      split
      · exact .inl ⟨S, P, h⟩
      · next b hi => exact h.recvQueryMetadataBulk hi (ha b hi)
    | report i =>
      simp only [queryStep]
      split
      · exact .inl ⟨S, P, h⟩
      · exact .inl ⟨S, P, h.recvReport _⟩
  · exact .inr ⟨queryStep_undefined h.1 a, h.2⟩

theorem continues_run {acts : List QueryAction}
    (h : Along (queryStep C query getOp) (QueryFirst C query) (QueryWorld.start C query σ) acts) :
    Continues C query getOp σ (run (queryStep C query getOp) (QueryWorld.start C query σ) acts) :=
  Along.invariant_nil (I := fun _ w => Continues C query getOp σ w)
    (fun _ _ _ hI ha => hI.step ha) (.inl ⟨[], [], tracks_start⟩) h

/-! ## When nothing is on its way -/

theorem handled_of_quiet (hquiet : w.Quiet) {s : Nat} (hs : s < C.size) : w.Handled C s :=
  ⟨hs, fun _ hmsg => absurd (hquiet.1 ▸ hmsg) not_mem_nil⟩

theorem Tracks.perm_of_quiet (h : Tracks C query getOp σ S P w) (hquiet : w.Quiet) :
    P.Perm (S.flatMap (C.plan query σ)) := by
  have hperm := h.perm
  rwa [hquiet.2.1, map_nil, append_nil] at hperm

theorem Tracks.filter_plan (h : Tracks C query getOp σ S P w) (o : UInt64) :
    (S.flatMap (C.plan query σ)).filter (fun p => p.objId = o) =
      if C.home o ∈ S then (C.plan query σ (C.home o)).filter (fun p => p.objId = o) else [] := by
  rw [filter_flatMap]
  refine flatMap_eq_of_unique h.nodup fun s _ hne => ?_
  rw [filter_eq_nil_iff]
  intro p hp heq
  have hhome := (Cluster.pieceOf hp).home
  rw [of_decide_eq_true heq] at hhome
  exact hne hhome.symm

/-- The regions of an object that all servers have together. -/
def QueryWorld.spreadRegions (w : QueryWorld ρ) (C : Cluster ρ) (o : UInt64) : List ρ :=
  (List.range C.size).flatMap fun s => (w.servers s).cache o

theorem Tracks.spreadRegions_perm (h : Tracks C query getOp Storage.fresh S P w)
    (hquiet : w.Quiet) (o : UInt64) :
    (w.spreadRegions C o).Perm
      (((S.flatMap (C.plan query Storage.fresh)).filter fun p => p.objId = o).flatMap
        Piece.regions) := by
  have hperm := h.perm_of_quiet hquiet
  have hlt : ∀ p ∈ P.filter (fun p => p.objId = o), p.target < C.size := by
    intro p hp
    obtain ⟨s, -, hp⟩ := mem_flatMap.mp (hperm.mem_iff.mp (mem_filter.mp hp).1)
    exact (Cluster.pieceOf hp).lt
  have hheld : ∀ s, held P s o = (P.filter fun p => p.objId = o).filter fun p => p.target = s := by
    intro s
    rw [filter_filter]
    exact filter_congr fun p _ => by rw [← Bool.decide_and]
  calc List.Perm (w.spreadRegions C o)
        ((range C.size).flatMap fun s => (held P s o).flatMap Piece.regions) :=
          List.Perm.flatMap_left _ fun s _ => (h.servers s).cache o
    _ = ((range C.size).flatMap fun s =>
          (P.filter fun p => p.objId = o).filter fun p => p.target = s).flatMap Piece.regions := by
          rw [flatMap_assoc]
          simp only [hheld]
    List.Perm _ ((P.filter fun p => p.objId = o).flatMap Piece.regions) :=
          (flatMap_filter_key Piece.target hlt).flatMap_right _
    List.Perm _ _ := (hperm.filter _).flatMap_right _

theorem Tracks.spreadRegions_iff (h : Tracks C query getOp Storage.fresh S P w)
    (hquiet : w.Quiet) (ho : o ∈ query.objects) :
    (w.spreadRegions C o).Perm (C.regions o) ↔ C.home o ∈ S := by
  have hperm := h.spreadRegions_perm hquiet o
  rw [h.filter_plan o] at hperm
  split at hperm
  · next hmem =>
    refine iff_of_true ?_ hmem
    obtain ⟨n, -, hfilter⟩ := Cluster.filter_pieces (d := Storage.fresh.distributed (C.home o))
      (C.nodup_newOwn (C.home o) [] query.objects) (Cluster.mem_own.mpr ⟨ho, rfl⟩) rfl
      (C.manager query) C.size_pos
    rw [Cluster.plan, Cluster.own, hfilter, C.flatMap_objectPieces] at hperm
    exact hperm
  · next hnot =>
    refine iff_of_false (fun hregions => ?_) hnot
    have hnil := hregions.symm.trans hperm
    exact C.regions_ne_nil o (perm_nil.mp hnil)

theorem Cluster.Follows.ne_manager {a b : Nat} (h : C.Follows query a b) :
    b ≠ C.manager query := by
  obtain ⟨rest, hrest⟩ := C.targets_eq query
  obtain ⟨before, after, heq⟩ := h
  have hnodup := C.nodup_targets query
  rw [heq, append_cons] at hnodup
  have hnot := notMem_before hnodup
  rw [hrest] at heq
  intro hbm
  cases before with
  | nil => exact hnot (by simp [hbm, (cons.inj heq).1])
  | cons c before => exact hnot (by simp [hbm, (cons.inj heq).1])

/-- Each target sends a piece to the next one. -/
def ChainReaches (C : Cluster ρ) (query : Query) (σ : Storage ρ) : Prop :=
  (C.targets query).IsChain fun a b => ∃ p ∈ C.plan query σ a, p.target = b

theorem Tracks.targets_subset_iff (h : Tracks C query getOp σ S P w) (hquiet : w.Quiet) :
    C.targets query ⊆ S ↔ ChainReaches C query σ := by
  have hperm := h.perm_of_quiet hquiet
  rw [ChainReaches, isChain_iff_forall_rel_of_append_cons_cons]
  refine ⟨fun hall a b before after heq => ?_, fun hchain => ?_⟩
  · have hb : b ≠ C.manager query := Cluster.Follows.ne_manager ⟨before, after, heq⟩
    obtain ⟨p, hp, htarget, before', after', heq'⟩ := h.reached b (hall (by rw [heq]; simp)) hb
    -- The piece comes from the target before, which is `a`.
    have hsame : C.home p.objId = a :=
      Cluster.follows_unique ⟨before', after', heq'⟩ ⟨before, after, heq⟩
    obtain ⟨s, -, hps⟩ := mem_flatMap.mp (hperm.mem_iff.mp hp)
    have hs := (Cluster.pieceOf hps).home
    exact ⟨p, by rw [← hsame, hs]; exact hps, htarget⟩
  · have hreach : ∀ before t after, C.targets query = before ++ t :: after → t ∈ S := by
      intro before
      induction before using reverseRecOn with
      | nil =>
        intro t after heq
        obtain ⟨rest, hrest⟩ := C.targets_eq query
        rw [hrest] at heq
        rw [← (cons.inj heq).1, h.first]
        exact handled_of_quiet hquiet (Cluster.lt_of_mem_targets Cluster.manager_mem_targets)
      | append_singleton before a ih =>
        intro t after heq
        rw [append_assoc] at heq
        have ha := ih a (t :: after) heq
        obtain ⟨p, hp, rfl⟩ := hchain heq
        have hmem : p ∈ P := hperm.mem_iff.mpr (mem_flatMap.mpr ⟨a, ha, hp⟩)
        exact h.next p hmem ⟨before, after, by rw [(Cluster.pieceOf hp).home]; exact heq⟩
    intro t ht
    obtain ⟨before, after, heq⟩ := append_of_mem ht
    exact hreach before t after heq

/-! ## All regions are distributed -/

/-- Nothing has been written out of bounds, and the regions of each object of the query
are in the servers' caches, each of them once. -/
def DistributedOnce (C : Cluster ρ) (query : Query) (w : QueryWorld ρ) : Prop :=
  w.undefined = false ∧ ∀ o ∈ query.objects, (w.spreadRegions C o).Perm (C.regions o)

/-- The object of server 3 has the given regions, all others have one. -/
def fourServers (first : List Nat) (h : first ≠ []) : Cluster Nat where
  size := 4
  two_le_size := by decide
  regions := fun o => if o = 4000000000 then first else [9]
  regions_ne_nil := by
    intro o
    split
    · exact h
    · exact cons_ne_nil _ _
  regionObjId := fun _ => 0

def twoObjectQuery : Query :=
  .node .and (.leaf ⟨4000000000, .gt, .int, 0, false, .none, 0⟩)
    (.leaf ⟨2000000000, .gt, .int, 0, false, .none, 0⟩)

theorem queryFirst_two_regions :
    Along (queryStep (fourServers [1, 2] (by decide)) twoObjectQuery .nhits)
      (QueryFirst (fourServers [1, 2] (by decide)) twoObjectQuery)
      (QueryWorld.start (fourServers [1, 2] (by decide)) twoObjectQuery Storage.fresh)
      [.query 0, .query 0, .query 0, .query 0, .bulk 0, .bulk 0, .bulk 0, .report 0] :=
  ⟨trivial, trivial, trivial, trivial, queryFirst_of_queries_nil (by decide +kernel) _,
    queryFirst_of_queries_nil (by decide +kernel) _,
    queryFirst_of_queries_nil (by decide +kernel) _, trivial, trivial⟩

theorem objIds_distributeQueryStorageInfo {st st' : SpreadState ρ}
    (h : distributeQueryStorageInfo C rank manager capacity st o = some st') :
    st'.objIds = storeObjId (fun o => decide (C.home o = rank)) st.objIds o := by
  unfold distributeQueryStorageInfo at h
  unfold storeObjId
  split at h
  · next hmem => rw [if_pos hmem, ← Option.some.inj h]
  · next hmem =>
    rw [if_neg hmem]
    split at h
    · next hhome => simp [hhome, ← Option.some.inj h]
    · next hhome =>
      rw [if_pos (by simpa using hhome)]
      split at h
      · cases h
      · dsimp only at h
        split at h
        · rw [← Option.some.inj h]
        · rw [← Option.some.inj h]

/-- The entries of `obj_ids` are those `storeObjIds` describes. -/
theorem objIds_distributeQueryWorkload {st st' : SpreadState ρ}
    (h : distributeQueryWorkload C rank manager capacity query st = some st') :
    st'.objIds = storeObjIds (fun o => decide (C.home o = rank)) query st.objIds := by
  induction query generalizing st st' with
  | leaf c => exact objIds_distributeQueryStorageInfo h
  | node op left right ihl ihr =>
    obtain ⟨st₁, hleft, hright⟩ := Option.bind_eq_some_iff.mp h
    rw [storeObjIds, ihr hright, ihl hleft]

theorem storeObjIds_spec (own : UInt64 → Bool) (query : Query) {objIds : List UInt64}
    (h : objIds.Nodup) : (storeObjIds own query objIds).Nodup ∧
      ∀ o, o ∈ storeObjIds own query objIds ↔ o ∈ objIds ∨ o ∈ query.objects ∧ own o := by
  induction query generalizing objIds with
  | leaf c =>
    simp only [storeObjIds, storeObjId, QueryTree.objects, QueryTree.leaves, map_singleton,
      mem_singleton]
    split
    · next hmem => exact ⟨h, fun o => ⟨.inl, fun ho => ho.elim id fun ho => ho.1 ▸ hmem⟩⟩
    · next hmem =>
      split
      · next hown =>
        refine ⟨nodup_append_comm.mp (nodup_cons.mpr ⟨hmem, h⟩), fun o => ?_⟩
        rw [mem_append, mem_singleton]
        exact or_congr_right ⟨fun ho => ⟨ho, ho ▸ hown⟩, And.left⟩
      · next hown => exact ⟨h, fun o => ⟨.inl, fun ho => ho.elim id fun ho =>
        absurd (ho.1 ▸ ho.2) hown⟩⟩
  | node op left right ihl ihr =>
    obtain ⟨hleft, hmemLeft⟩ := ihl h
    obtain ⟨hright, hmemRight⟩ := ihr hleft
    refine ⟨hright, fun o => ?_⟩
    rw [storeObjIds, hmemRight, hmemLeft, or_assoc, ← or_and_right]
    simp only [QueryTree.objects, QueryTree.leaves, map_append, mem_append]

/-- The objects the manager stores fit into the room for `n_unique_obj` of them just if
there are no more of them than servers with objects of the query. -/
theorem managerObjIds_fit_iff (size : Nat) (own : Nat → UInt64 → Bool) (query : Query) :
    (managerObjIds size own query).length ≤ nUniqueObj size query ↔ size = 1 ∨
      {o ∈ query.objects.toFinset | own ((getServerFromQuery size query []).headD 0) o}.card ≤
        (query.objects.toFinset.image fun o => getServerByObjId o size).card := by
  unfold managerObjIds nUniqueObj
  split
  · next hsize => simp [hsize]
  · next hsize =>
    obtain ⟨hnodup, hmem⟩ :=
      storeObjIds_spec (own ((getServerFromQuery size query []).headD 0)) query nodup_nil
    rw [or_iff_right hsize, ← toFinset_card_of_nodup hnodup,
      ← toFinset_card_of_nodup (nodup_getServerFromQuery query nodup_nil)]
    have hown : (storeObjIds (own ((getServerFromQuery size query []).headD 0)) query
        []).toFinset = {o ∈ query.objects.toFinset |
          own ((getServerFromQuery size query []).headD 0) o} := by
      ext o
      simp only [mem_toFinset, hmem, not_mem_nil, false_or, Finset.mem_filter]
    have hservers : (getServerFromQuery size query []).toFinset =
        query.objects.toFinset.image fun o => getServerByObjId o size := by
      ext s
      simp [mem_getServerFromQuery, QueryTree.objects]
    rw [hown, hservers]

/-- Two objects of server 1, for which there is one entry. -/
theorem not_managerObjIds_fit_two_objects :
    ¬ (managerObjIds 2 (fun rank o => decide (getServerByObjId o 2 = rank))
        (.node .and (.leaf ⟨2000000000, .gt, .int, 0, false, .none, 0⟩)
          (.leaf ⟨2000000001, .gt, .int, 0, false, .none, 0⟩))).length ≤
      nUniqueObj 2 (.node .and (.leaf ⟨2000000000, .gt, .int, 0, false, .none, 0⟩)
        (.leaf ⟨2000000001, .gt, .int, 0, false, .none, 0⟩)) := by
  decide +kernel

end Pdc
