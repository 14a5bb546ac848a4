import Pdc.Proofs.QueryDistribute

/-!
# When the manager waits for the servers that work on a query

A server other than the manager evaluates the query once it has regions of all
objects, and reports. How many do so depends on the regions it had before and
on those that are distributed for the query. The manager computes the number it
waits for from the number of regions of its objects. For an object that is
distributed now it is the number of servers that get some. For one that has
been distributed before it is the number the distribution started from, which
can be larger: four regions for three servers make two blocks of two.

The two numbers are the same for an object whose regions go to all the servers
they are counted for, `Cluster.Even`. In an `EvenQuery` all objects are like
this, with one number for all. Each server that has to distribute some of them
gets regions itself, and the regions it keeps say which object they are of,
because they are attached to the query by that. The manager of such a query
waits for the right number of reports, if the objects have been distributed by
queries on the same objects with the same manager, or not at all.

`Works` is the invariant of a run: the servers that have evaluated the query are
those with regions of all objects, each has reported once, and the manager has
answered whenever the number of reports asked for it. This is for runs in which
no message with regions and no report is handled before its receiver has handled
the query. `Storage.Placed` is the invariant of a sequence of queries.
-/

namespace Pdc

open List Lib

variable {ρ : Type} {C : Cluster ρ} {query : Query} {getOp : GetOp} {σ : Storage ρ} {S : List Nat}
  {P : List (Piece ρ)} {w : QueryWorld ρ} {rank i n : Nat} {a : QueryAction} {ph : QueryPhase}
  {b : MetaBulk ρ}

/-! ## Even distribution -/

/-- The regions of an object go to `n` servers, and `n` is the number of servers that is
computed for it if no other object has been looked at before. -/
structure Cluster.Even (C : Cluster ρ) (n : Nat) (o : UInt64) : Prop where
  start : min (C.regions o).length (C.size - 1) = n
  blocks : (C.regions o).length ⌈/⌉ ((C.regions o).length ⌈/⌉ n) = n

/-- The regions of all objects of a query go to the first `n` servers other than the manager.
The other servers with metadata are among these, and the regions of their objects say
which object they are of. -/
structure EvenQuery (C : Cluster ρ) (n : Nat) (query : Query) : Prop where
  even : ∀ o ∈ query.objects, C.Even n o
  reached : ∀ t ∈ C.targets query, t ≠ C.manager query →
    ∃ i < n, t = skipping (C.manager query) i
  ids : ∀ o ∈ query.objects, C.home o ≠ C.manager query →
    ∀ r ∈ C.regions o, C.regionObjId r = o

section

variable {o : UInt64} {k : Nat} (h : C.Even n o)
include h

theorem Cluster.Even.among_zero : C.among 0 o = n := by
  rw [← h.start, Cluster.among, if_pos rfl]
  split <;> omega

theorem Cluster.Even.among_eq (hk : k = 0 ∨ k = n) : C.among k o = n := by
  rcases hk with rfl | rfl
  · exact h.among_zero
  · have hpos := C.among_pos 0 o
    rw [h.among_zero] at hpos
    rw [Cluster.among, if_neg (Nat.pos_iff_ne_zero.mp hpos)]

theorem Cluster.Even.receivers_eq (hk : k = 0 ∨ k = n) : C.receivers k o = n := by
  rw [Cluster.receivers, Cluster.avgCount, h.among_eq hk, h.blocks]

theorem Cluster.Even.nextSent_eq (hk : k = 0 ∨ k = n) (d : UInt64 → Bool) :
    C.nextSent d k o = n := by
  unfold Cluster.nextSent
  split
  · exact h.among_eq hk
  · exact h.receivers_eq hk

end

section

variable {os : List UInt64} {k : Nat} {d : UInt64 → Bool} (h : ∀ o ∈ os, C.Even n o)
  (hk : k = 0 ∨ k = n)
include h hk

theorem sentAfter_of_even (hos : os ≠ []) : C.sentAfter d k os = n := by
  induction os generalizing k with
  | nil => exact absurd rfl hos
  | cons o os ih =>
    rw [forall_mem_cons] at h
    rw [Cluster.sentAfter, foldl_cons, h.1.nextSent_eq hk]
    cases os with
    | nil => rfl
    | cons o' os => exact ih h.2 (.inr rfl) (cons_ne_nil o' os)

theorem exists_mem_pieces_iff (manager s : Nat) (o : UInt64) :
    (∃ p ∈ C.pieces manager d k os, p.target = s ∧ p.objId = o) ↔
      (o ∈ os ∧ d o = false) ∧ ∃ i < n, s = skipping manager i := by
  induction os generalizing k with
  | nil => simp [Cluster.pieces]
  | cons a os ih =>
    rw [forall_mem_cons] at h
    have hfirst : (∃ p ∈ if d a then [] else C.objectPieces manager k a,
        p.target = s ∧ p.objId = o) ↔ (o = a ∧ d o = false) ∧ ∃ i < n, s = skipping manager i := by
      by_cases hd : d a = true
      · rw [if_pos hd]
        simp +contextual [hd]
      · rw [if_neg hd]
        simp only [Cluster.mem_objectPieces, h.1.receivers_eq hk]
        constructor
        · rintro ⟨_, ⟨i, hi, rfl⟩, rfl, rfl⟩
          exact ⟨⟨rfl, Bool.eq_false_iff.mpr hd⟩, i, hi, rfl⟩
        · rintro ⟨⟨rfl, -⟩, i, hi, rfl⟩
          exact ⟨_, ⟨i, hi, rfl⟩, rfl, rfl⟩
    rw [Cluster.pieces, h.1.nextSent_eq hk]
    simp only [mem_append, or_and_right, exists_or, hfirst, ih h.2 (.inr rfl), mem_cons]

end

section

variable (hq : EvenQuery C n query)
include hq

theorem EvenQuery.exists_mem_plan_iff (σ : Storage ρ) (rank s : Nat) (o : UInt64) :
    (∃ p ∈ C.plan query σ rank, p.target = s ∧ p.objId = o) ↔
      ((o ∈ query.objects ∧ C.home o = rank) ∧ σ.distributed rank o = false) ∧
        ∃ i < n, s = skipping (C.manager query) i := by
  rw [Cluster.plan, exists_mem_pieces_iff (fun o ho => hq.even o (Cluster.mem_own.mp ho).1)
    (.inl rfl), Cluster.mem_own]

theorem EvenQuery.chainReaches
    (hfresh : ∀ o ∈ query.objects, σ.distributed (C.home o) o = false) :
    ChainReaches C query σ := by
  rw [ChainReaches, isChain_iff_forall_rel_of_append_cons_cons]
  intro a b before after heq
  have hfollows : C.Follows query a b := ⟨before, after, heq⟩
  obtain ⟨o, ho, rfl⟩ := Cluster.mem_targets.mp (show a ∈ C.targets query by rw [heq]; simp)
  obtain ⟨p, hp, htarget, -⟩ := (hq.exists_mem_plan_iff σ (C.home o) b o).mpr
    ⟨⟨⟨ho, rfl⟩, hfresh o ho⟩, hq.reached b hfollows.mem hfollows.ne_manager⟩
  exact ⟨p, hp, htarget⟩

/-- A server that keeps a piece of its own object attaches it to that object. -/
theorem EvenQuery.lastObjId_of_mem {p : Piece ρ} (hp : p ∈ C.plan query σ rank)
    (hne : rank ≠ C.manager query) : C.lastObjId p.regions = some p.objId := by
  have hpiece := Cluster.pieceOf hp
  obtain ⟨-, -, k, -, hmem⟩ := Cluster.mem_pieces hp C.size_pos
  obtain ⟨i, -, heq⟩ := Cluster.mem_objectPieces.mp hmem
  have hlast := getLast?_eq_some_getLast hpiece.ne_nil
  have hsub : ∀ r ∈ p.regions, r ∈ C.regions p.objId := by
    intro r hr
    rw [show p.regions = _ from congrArg Piece.regions heq] at hr
    exact mem_of_mem_drop (mem_of_mem_take hr)
  rw [Cluster.lastObjId, hlast, Option.map_some,
    hq.ids p.objId hpiece.mem (hpiece.home ▸ hne) _ (hsub _ (getLast_mem hpiece.ne_nil))]

end

/-! ## Each piece once -/

theorem Cluster.nodup_pieces {d : UInt64 → Bool} {os : List UInt64} (hos : os.Nodup)
    (manager : Nat) (hn : n < C.size) :
    ((C.pieces manager d n os).map fun p => (p.objId, p.target)).Nodup := by
  induction os generalizing n with
  | nil => exact nodup_nil
  | cons o os ih =>
    rw [nodup_cons] at hos
    rw [Cluster.pieces, map_append, nodup_append]
    refine ⟨?_, ih hos.2 (C.nextSent_lt d hn o), ?_⟩
    · split
      · exact nodup_nil
      · have htargets := C.nodup_objectPieces manager n o
        refine List.Nodup.of_map Prod.snd ?_
        rw [map_map]
        exact htargets
    · intro a ha b hb hab
      obtain ⟨p, hp, rfl⟩ := mem_map.mp ha
      obtain ⟨p', hp', rfl⟩ := mem_map.mp hb
      have hobj : p.objId = o := by
        split at hp
        · simp at hp
        · exact Cluster.objId_of_mem hp
      have hmem := (Cluster.mem_pieces hp' (C.nextSent_lt d hn o)).1
      rw [← (Prod.mk.inj hab).1, hobj] at hmem
      exact hos.1 hmem

theorem Tracks.nodup_keys (h : Tracks C query getOp σ S P w) :
    ((P ++ w.bulks.map MetaBulk.piece).map fun p => (p.objId, p.target)).Nodup := by
  rw [(h.perm.map _).nodup_iff]
  have hall : ∀ S : List Nat, S.Nodup →
      ((S.flatMap (C.plan query σ)).map fun p => (p.objId, p.target)).Nodup := by
    intro S hS
    induction S with
    | nil => exact nodup_nil
    | cons s S ih =>
      rw [nodup_cons] at hS
      rw [flatMap_cons, map_append, nodup_append]
      refine ⟨Cluster.nodup_pieces (C.nodup_newOwn s [] query.objects) _ C.size_pos, ih hS.2, ?_⟩
      intro a ha b hb hab
      obtain ⟨p, hp, rfl⟩ := mem_map.mp ha
      obtain ⟨p', hp', rfl⟩ := mem_map.mp hb
      obtain ⟨s', hs', hp'⟩ := mem_flatMap.mp hp'
      have hhome := (Cluster.pieceOf hp).home
      have hhome' := (Cluster.pieceOf hp').home
      rw [(Prod.mk.inj hab).1, hhome'] at hhome
      exact hS.1 (hhome ▸ hs')
  exact hall S h.nodup

/-- All objects of a query have been distributed, and each of the first servers other than
the manager has some regions of each. -/
def Storage.Spread (C : Cluster ρ) (query : Query) (σ : Storage ρ) : Prop :=
  ∀ o ∈ query.objects, σ.distributed (C.home o) o = true ∧
    ∀ s, σ.cache s o ≠ [] ↔ ∃ i < C.among 0 o, s = skipping (C.manager query) i

/-- Either this, or none of them has been distributed. -/
def Storage.Placed (C : Cluster ρ) (query : Query) (σ : Storage ρ) : Prop :=
  (∀ o ∈ query.objects, σ.distributed (C.home o) o = false ∧ ∀ s, σ.cache s o = []) ∨
    σ.Spread C query

theorem Storage.Placed.cache_eq_nil (h : σ.Placed C query) {o : UInt64} (ho : o ∈ query.objects)
    (hflag : σ.distributed (C.home o) o = false) (s : Nat) : σ.cache s o = [] := by
  rcases h with hfresh | hspread
  · exact (hfresh o ho).2 s
  · rw [(hspread o ho).1] at hflag
    cases hflag

theorem Tracks.cache_eq_nil (h : Tracks C query getOp σ S P w) (hσ : σ.Placed C query)
    (hb : b ∈ w.bulks) : (w.servers b.target).cache b.objId = [] := by
  have hpiece := h.pieceOf_bulk hb
  have hbefore : σ.cache b.target b.objId = [] :=
    hσ.cache_eq_nil hpiece.mem (by rw [hpiece.home]; exact hpiece.flag) _
  have hnone : held P b.target b.objId = [] := by
    rw [held, filter_eq_nil_iff]
    intro p hp heq
    have hkey := of_decide_eq_true heq
    have hnodup := h.nodup_keys
    rw [map_append, nodup_append] at hnodup
    exact hnodup.2.2 _ (mem_map_of_mem hp) _
      (mem_map_of_mem (mem_map_of_mem hb)) (Prod.ext hkey.2 hkey.1)
  have hperm := (h.servers b.target).cache b.objId
  rw [hbefore, hnone] at hperm
  exact perm_nil.mp hperm

/-! ## The invariant -/

/-- A server has what it needs to evaluate the query. -/
def Complete (C : Cluster ρ) (query : Query) (w : QueryWorld ρ) (s : Nat) : Prop :=
  s ≠ C.manager query ∧ w.Handled C s ∧ ∀ o ∈ query.objects, (w.servers s).cache o ≠ []

/-- The numbers of reports with which a manager that waits for `n` has answered, after
`r` reports. -/
def answersAfter (getOp : GetOp) (n r : Nat) : List Nat :=
  ((List.range r).map (· + 1)).filter fun k => k = n ∨ getOp = .nhits ∧ n ≤ k

theorem answersAfter_succ (getOp : GetOp) (n r : Nat) :
    answersAfter getOp n (r + 1) = answersAfter getOp n r ++
      if r + 1 = n ∨ getOp = .nhits ∧ n ≤ r + 1 then [r + 1] else [] := by
  rw [answersAfter, range_succ, map_append, filter_append]
  congr 1
  simp [filter_cons]

theorem answersAfter_self (getOp : GetOp) (hn : 0 < n) :
    answersAfter getOp n n = [n] := by
  obtain ⟨r, rfl⟩ := Nat.exists_eq_succ_of_ne_zero (Nat.pos_iff_ne_zero.mp hn)
  have hearlier : answersAfter getOp (r + 1) r = [] := by
    rw [answersAfter, filter_eq_nil_iff]
    intro k hk
    obtain ⟨j, hj, rfl⟩ := mem_map.mp hk
    rw [mem_range] at hj
    simp only [decide_eq_true_eq]
    omega
  rw [answersAfter_succ, hearlier, if_pos (.inl rfl)]
  rfl

def QueryWorld.managerTask (w : QueryWorld ρ) (C : Cluster ρ) (query : Query) : DistTask :=
  (w.servers (C.manager query)).task.getD {}

structure Works (C : Cluster ρ) (query : Query) (getOp : GetOp) (w : QueryWorld ρ) : Prop where
  idle : ∀ s, ¬ w.Handled C s → (w.servers s).task = none
  attached : ∀ s t, s ≠ C.manager query → (w.servers s).task = some t →
    ∀ o ∈ query.objects, t.attached o = true ↔ (w.servers s).cache o ≠ []
  nodup : w.evaluated.Nodup
  evaluated : ∀ s, s ∈ w.evaluated ↔ Complete C query w s
  isDone : ∀ s t, (w.servers s).task = some t → s ∉ w.evaluated → t.isDone = false
  reports : w.reports.length + (w.managerTask C query).nRecv = w.evaluated.length
  answered : w.answered = answersAfter getOp (w.managerTask C query).nSentServer
    (w.managerTask C query).nRecv

theorem works_start : Works C query getOp (QueryWorld.start C query σ) where
  idle := fun _ _ => rfl
  attached := fun _ _ _ ht => nomatch ht
  nodup := nodup_nil
  evaluated := fun _ => iff_of_false not_mem_nil fun h => handled_start h.2.1
  isDone := fun _ _ ht => nomatch ht
  reports := rfl
  answered := rfl

theorem hasMore_eq_false {attached : UInt64 → Bool} :
    hasMore attached query = false ↔ ∀ o ∈ query.objects, attached o = true := by
  unfold QueryTree.objects
  induction query with
  | leaf c => simp [hasMore, QueryTree.leaves]
  | node op left right ihl ihr =>
    rw [hasMore, Bool.or_eq_false_iff, ihl, ihr, QueryTree.leaves, map_append]
    exact forall_mem_append.symm

/-- What a step on one server adds to those that have evaluated the query. -/
inductive Adds (query : Query) (rank : Nat) (server : DistServer ρ) (t : DistTask) : List Nat → Prop
  | none (hdone : t.isDone = false) (hcache : ¬ ∀ o ∈ query.objects, server.cache o ≠ []) :
      Adds query rank server t []
  | one (hcache : ∀ o ∈ query.objects, server.cache o ≠ []) : Adds query rank server t [rank]

section

variable (h : Works C query getOp w) {server : DistServer ρ} {w' : QueryWorld ρ} {t : DistTask}
include h

/-- A step on one server, which has handled the query by then. -/
theorem Works.update
    (hservers : w'.servers = Function.update w.servers rank server)
    (htask : server.task = some t)
    (hhandled : ∀ s, s ≠ rank → (w'.Handled C s ↔ w.Handled C s)) (hrank : w'.Handled C rank)
    (hattached : rank ≠ C.manager query →
      ∀ o ∈ query.objects, t.attached o = true ↔ server.cache o ≠ [])
    (hnodup : w'.evaluated.Nodup)
    (hmem : ∀ s, s ≠ rank → (s ∈ w'.evaluated ↔ s ∈ w.evaluated))
    (hevaluated : rank ∈ w'.evaluated ↔
      rank ≠ C.manager query ∧ ∀ o ∈ query.objects, server.cache o ≠ [])
    (hdone : rank ∉ w'.evaluated → t.isDone = false)
    (hreports : w'.reports.length + (w'.managerTask C query).nRecv = w'.evaluated.length)
    (hanswered : w'.answered = answersAfter getOp (w'.managerTask C query).nSentServer
      (w'.managerTask C query).nRecv) : Works C query getOp w' := by
  have hother : ∀ s, s ≠ rank → w'.servers s = w.servers s := fun s hs => by
    rw [hservers, Function.update_of_ne hs]
  have hself : w'.servers rank = server := by rw [hservers, Function.update_self]
  refine ⟨fun s hs => ?_, fun s t' hsm ht => ?_, hnodup, fun s => ?_, fun s t' ht hs => ?_,
    hreports, hanswered⟩
  · have hsr : s ≠ rank := fun heq => hs (heq ▸ hrank)
    rw [hother s hsr]
    exact h.idle s fun hyes => hs ((hhandled s hsr).mpr hyes)
  · by_cases hsr : s = rank
    · subst hsr
      rw [hself, htask] at ht
      rw [hself, ← Option.some.inj ht]
      exact hattached hsm
    · rw [hother s hsr] at ht ⊢
      exact h.attached s t' hsm ht
  · by_cases hsr : s = rank
    · subst hsr
      rw [hevaluated, Complete, hself, and_iff_right hrank]
    · rw [hmem s hsr, h.evaluated, Complete, Complete, hother s hsr, hhandled s hsr]
  · by_cases hsr : s = rank
    · subst hsr
      rw [hself, htask] at ht
      rw [← Option.some.inj ht]
      exact hdone hs
    · rw [hother s hsr] at ht
      exact h.isDone s t' ht fun hyes => hs ((hmem s hsr).mpr hyes)

theorem Works.manager_notMem : C.manager query ∉ w.evaluated :=
  fun hmem => ((h.evaluated _).mp hmem).1 rfl

theorem Works.updateManager
    (hservers : w'.servers = Function.update w.servers (C.manager query) server)
    (htask : server.task = some t)
    (hhandled : ∀ s, s ≠ C.manager query → (w'.Handled C s ↔ w.Handled C s))
    (hrank : w'.Handled C (C.manager query)) (hevaluated : w'.evaluated = w.evaluated)
    (hdone : t.isDone = false) (hreports : w'.reports.length + t.nRecv = w.evaluated.length)
    (hanswered : w'.answered = answersAfter getOp t.nSentServer t.nRecv) :
    Works C query getOp w' := by
  have hmanager : w'.managerTask C query = t := by
    rw [QueryWorld.managerTask, hservers, Function.update_self, htask]
    rfl
  refine h.update hservers htask hhandled hrank (fun hne => absurd rfl hne)
    (hevaluated ▸ h.nodup) (fun s _ => by rw [hevaluated]) ?_ (fun _ => hdone) ?_ ?_
  · rw [hevaluated]
    exact iff_of_false h.manager_notMem fun hne => hne.1 rfl
  · rw [hmanager, hevaluated]
    exact hreports
  · rw [hmanager]
    exact hanswered

section

variable {qs : List QueryMessage} {bs : List (MetaBulk ρ)} {server : DistServer ρ} {t : DistTask}
  (hhandled : ∀ s, s ≠ rank →
    (QueryWorld.Handled { w with queries := qs, bulks := bs } C s ↔ w.Handled C s))
  (hrank : QueryWorld.Handled { w with queries := qs, bulks := bs } C rank)
  (hne : rank ≠ C.manager query) (hnew : rank ∉ w.evaluated)
include hhandled hrank hne hnew

/-- A step on another server, which has not evaluated the query before and perhaps does so now. -/
theorem Works.updateOther {added : List Nat} (htask : server.task = some t)
    (hadds : Adds query rank server t added)
    (hattached : ∀ o ∈ query.objects, t.attached o = true ↔ server.cache o ≠ []) :
    Works C query getOp
      { w with
        queries := qs, bulks := bs, servers := Function.update w.servers rank server
        evaluated := w.evaluated ++ added, reports := w.reports ++ added } := by
  have hnot : ∀ s, s ≠ rank → s ∉ added := by
    intro s hs
    cases hadds with
    | none => exact not_mem_nil
    | one => exact fun hmem => hs (mem_singleton.mp hmem)
  have hmanager : (QueryWorld.managerTask
      { w with servers := Function.update w.servers rank server } C query) =
        w.managerTask C query := by
    simp only [QueryWorld.managerTask, Function.update_of_ne (Ne.symm hne)]
  refine h.update rfl htask hhandled hrank (fun _ => hattached) ?_
    (fun s hs => mem_append.trans (or_iff_left (hnot s hs))) ?_ (fun hs => ?_) ?_ ?_
  · cases hadds with
    | none => simpa only [append_nil] using h.nodup
    | one =>
      refine nodup_append.mpr ⟨h.nodup, nodup_singleton _, fun a ha b hb hab => ?_⟩
      exact hnew (mem_singleton.mp hb ▸ hab ▸ ha)
  · rw [mem_append, or_iff_right hnew, and_iff_right hne]
    cases hadds with
    | none _ hcache => exact iff_of_false not_mem_nil hcache
    | one hcache => exact iff_of_true (by simp) hcache
  · cases hadds with
    | none hdone => exact hdone
    | one => exact absurd (by simp) hs
  · have hcount := h.reports
    rw [← hmanager] at hcount
    rw [length_append, length_append, Nat.add_right_comm]
    exact congrArg (· + added.length) hcount
  · have hanswered := h.answered
    rwa [← hmanager] at hanswered

theorem Works.evaluateAndReport
    (hattached : ∀ o ∈ query.objects, t.attached o = true ↔ server.cache o ≠ [])
    (hop : getOp = .nhits ∨ getOp = .sel)
    (hquery : t.query = some query) (hgetOp : t.getOp = getOp) (hdone : t.isDone = false) :
    Works C query getOp
      (evaluateAndReport { w with queries := qs, bulks := bs } rank server t) := by
  have hmore : t.query.any (hasMore t.attached) = hasMore t.attached query := by
    rw [hquery]
    rfl
  unfold Pdc.evaluateAndReport
  by_cases hfull : ∀ o ∈ query.objects, server.cache o ≠ []
  · have hall : hasMore t.attached query = false :=
      hasMore_eq_false.mpr fun o ho => (hattached o ho).mpr (hfull o ho)
    rw [if_neg (by rw [hmore, hall]; exact Bool.false_ne_true)]
    have hadds : Adds query rank { server with task := some { t with isDone := true } }
        { t with isDone := true } [rank] := .one hfull
    have hworks := h.updateOther hhandled hrank hne hnew rfl hadds hattached
    simpa only [QueryWorld.setServer, hquery, hdone, Option.isSome_some, and_self, if_true, hgetOp,
      if_pos hop] using hworks
  · have hsome : hasMore t.attached query = true := by
      by_contra hno
      rw [Bool.not_eq_true] at hno
      exact hfull fun o ho => (hattached o ho).mp (hasMore_eq_false.mp hno o ho)
    rw [if_pos (by rw [hmore, hsome])]
    have hadds : Adds query rank { server with task := some t } t [] := .none hdone hfull
    have hworks := h.updateOther hhandled hrank hne hnew rfl hadds hattached
    simpa only [QueryWorld.setServer, append_nil] using hworks

end

end

/-! ## Each kind of step -/

/-- A server handles regions, and the manager reports, after the query. -/
def InTurn (C : Cluster ρ) (query : Query) (w : QueryWorld ρ) : QueryAction → Prop
  | .query _ => True
  | .bulk i => ∀ b, w.bulks[i]? = some b → w.Handled C b.target
  | .report _ => w.Handled C (C.manager query)

theorem InTurn.queryFirst (h : InTurn C query w a) : QueryFirst C query w a := by
  cases a with
  | query i => trivial
  | bulk i => exact fun b hb _ => h b hb
  | report i => trivial

theorem Works.recvDataQuery (h : Works C query getOp w) (htracks : Tracks C query getOp σ S P w)
    (hop : getOp = .nhits ∨ getOp = .sel) {msg : QueryMessage}
    (hi : w.queries[i]? = some msg)
    (hdefined : (recvDataQuery C query getOp { w with queries := w.queries.eraseIdx i }
      msg).undefined = false) :
    Works C query getOp
      (recvDataQuery C query getOp { w with queries := w.queries.eraseIdx i } msg) := by
  have hnot := not_handled_of_getElem? (C := C) hi
  have hnone := h.idle _ hnot
  have hhandled : ∀ w' : QueryWorld ρ, w'.queries = w.queries.eraseIdx i → ∀ s,
      w'.Handled C s ↔ w.Handled C s ∨ s = msg.serverId :=
    fun w' hw' => htracks.handled_eraseIdx hi hw'
  have hnew : msg.serverId ∉ w.evaluated := fun hmem => hnot ((h.evaluated _).mp hmem).2.1
  have hcase := htracks.queryCase hi
  generalize Pdc.recvDataQuery C query getOp { w with queries := w.queries.eraseIdx i } msg = w'
    at hcase hdefined ⊢
  cases hcase with
  | other hm =>
    refine h.evaluateAndReport (fun s hs => (hhandled _ rfl s).trans (or_iff_left hs))
      ((hhandled _ rfl _).mpr (.inr rfl)) hm hnew (fun o _ => ?_) hop rfl rfl ?_
    · simp [DistServer.learn]
    · simp only [DistServer.learn, hnone]
      rfl
  | manager hm hfits =>
    -- The manager has no report yet.
    have hzero : (w.managerTask C query).nRecv = 0 := by
      rw [QueryWorld.managerTask, ← hm, hnone]
      rfl
    have hcount := h.reports
    have hanswered := h.answered
    rw [hzero] at hcount hanswered
    rw [hm] at hnone hhandled ⊢
    refine h.updateManager rfl rfl (fun s hs => (hhandled _ rfl s).trans (or_iff_left hs))
      ((hhandled _ rfl _).mpr (.inr rfl)) rfl ?_ ?_ ?_
    · simp only [DistTask.spread, DistServer.learn, hnone]
      rfl
    · simp only [DistTask.spread, DistServer.learn, hnone]
      exact hcount
    · simp only [DistTask.spread, DistServer.learn, hnone]
      exact hanswered
  | full hm hfits => exact absurd hdefined (by simp)

theorem Works.recvQueryMetadataBulk (h : Works C query getOp w)
    (htracks : Tracks C query getOp σ S P w) (hq : EvenQuery C n query) (hσ : σ.Placed C query)
    (hop : getOp = .nhits ∨ getOp = .sel) (hi : w.bulks[i]? = some b)
    (hhandled : w.Handled C b.target)
    (hdefined : (recvQueryMetadataBulk C { w with bulks := w.bulks.eraseIdx i } b).undefined =
      false) :
    Works C query getOp (recvQueryMetadataBulk C { w with bulks := w.bulks.eraseIdx i } b) := by
  have hb : b ∈ w.bulks := mem_of_getElem? hi
  have hpiece := htracks.pieceOf_bulk hb
  have hne : b.target ≠ C.manager query := hpiece.ne_manager
  -- The object is missing up to now, so the server has not evaluated the query.
  have hmissing := htracks.cache_eq_nil hσ hb
  have hnew : b.target ∉ w.evaluated := fun hmem =>
    ((h.evaluated _).mp hmem).2.2 b.objId hpiece.mem hmissing
  have hcache : ∀ o, ((w.servers b.target).receive b.piece).cache o ≠ [] ↔
      o = b.objId ∨ (w.servers b.target).cache o ≠ [] := by
    intro o
    by_cases ho : o = b.objId
    · subst ho
      have hregions : b.regions ≠ [] := hpiece.ne_nil
      simp [DistServer.receive, MetaBulk.piece, hregions]
    · simp [DistServer.receive, MetaBulk.piece, ho]
  have hattach : ∀ t, (w.servers b.target).task = some t → ∀ o ∈ query.objects,
      (t.attach b.objId).attached o = true ↔
        ((w.servers b.target).receive b.piece).cache o ≠ [] := by
    intro t ht o ho
    rw [hcache, ← h.attached _ t hne ht o ho]
    by_cases heq : o = b.objId
    · simp [DistTask.attach, heq]
    · simp [DistTask.attach, heq]
  have hcase := htracks.bulkCase hi
  generalize Pdc.recvQueryMetadataBulk C { w with bulks := w.bulks.eraseIdx i } b = w'
    at hcase hdefined ⊢
  cases hcase with
  | early hnot => exact absurd hhandled hnot
  | keep _ t htask =>
    obtain ⟨hquery, -, hgetOp, -⟩ := (htracks.servers b.target).known_of hhandled htask
    exact h.evaluateAndReport (fun _ _ => Iff.rfl) hhandled hne hnew (hattach t htask) hop hquery
      hgetOp (h.isDone _ t htask hnew)
  | spread _ t htask =>
    obtain ⟨hquery, -, hgetOp, -⟩ := (htracks.servers b.target).known_of hhandled htask
    refine h.evaluateAndReport (fun _ _ => Iff.rfl) hhandled hne hnew (fun o ho => ?_) hop hquery
      hgetOp (h.isDone _ t htask hnew)
    -- What the server keeps for itself is attached and cached together.
    have hself : ((C.plan query σ b.target).any
          fun p => p.target = b.target ∧ C.lastObjId p.regions = some o) = true ↔
        ((C.plan query σ b.target).filter
          fun p => p.target = b.target ∧ p.objId = o).flatMap Piece.regions ≠ [] := by
      rw [any_eq_true, Ne, flatMap_eq_nil_iff]
      refine ⟨fun hsome hnil => ?_, fun hne' => ?_⟩
      · obtain ⟨p, hp, hkey⟩ := hsome
        rw [decide_eq_true_eq, hq.lastObjId_of_mem hp hne, Option.some.injEq] at hkey
        exact (Cluster.pieceOf hp).ne_nil (hnil p (mem_filter.mpr ⟨hp, decide_eq_true hkey⟩))
      · by_contra hnone
        refine hne' fun p hp => absurd ?_ hnone
        obtain ⟨hp, hkey⟩ := mem_filter.mp hp
        rw [decide_eq_true_eq] at hkey
        refine ⟨p, hp, decide_eq_true ⟨hkey.1, ?_⟩⟩
        rw [hq.lastObjId_of_mem hp hne, hkey.2]
    show (_ || _) = true ↔ _ ++ _ ≠ []
    rw [Bool.or_eq_true, hself, hattach t htask o ho, or_comm]
    simp only [Ne, append_eq_nil_iff, reverse_eq_nil_iff, not_and_or]
  | full htarget hfits => exact absurd hdefined (by simp)

theorem Works.recvReport (h : Works C query getOp w) (htracks : Tracks C query getOp σ S P w)
    {r : Nat} (hi : w.reports[i]? = some r) (hhandled : w.Handled C (C.manager query)) :
    Works C query getOp (recvReport C query getOp { w with reports := w.reports.eraseIdx i }) := by
  obtain ⟨t, ht, -⟩ := (htracks.servers (C.manager query)).known hhandled
  have hlength : (w.reports.eraseIdx i).length + 1 = w.reports.length := by
    have hperm := (perm_eraseIdx hi).length_eq
    rwa [length_cons] at hperm
  have htask : w.managerTask C query = t := by
    rw [QueryWorld.managerTask, ht]
    rfl
  have hcount := h.reports
  have hanswered := h.answered
  rw [htask] at hcount hanswered
  unfold Pdc.recvReport
  simp only [ht, Option.getD_some, QueryWorld.setServer]
  refine h.updateManager rfl rfl (fun _ _ => Iff.rfl) hhandled rfl
    (h.isDone _ t ht h.manager_notMem) ?_ ?_
  · dsimp only
    omega
  · rw [answersAfter_succ, ← hanswered]
    split
    · rfl
    · exact (append_nil _).symm

/-! ## Runs -/

theorem Works.step (h : Works C query getOp w) (htracks : Tracks C query getOp σ S P w)
    (hq : EvenQuery C n query) (hσ : σ.Placed C query) (hop : getOp = .nhits ∨ getOp = .sel)
    (ha : InTurn C query w a) (hdefined : (queryStep C query getOp w a).undefined = false) :
    Works C query getOp (queryStep C query getOp w a) := by
  cases a with
  | query i =>
    simp only [queryStep] at hdefined ⊢
    split at hdefined
    · exact h
    · next hi => exact h.recvDataQuery htracks hop hi hdefined
  | bulk i =>
    simp only [queryStep] at hdefined ⊢
    split at hdefined
    · exact h
    · next b hi => exact h.recvQueryMetadataBulk htracks hq hσ hop hi (ha b hi) hdefined
  | report i =>
    simp only [queryStep]
    split
    · exact h
    · next hi => exact h.recvReport htracks hi ha

theorem works_run (hfits : IdsFit C query) (hq : EvenQuery C n query) (hσ : σ.Placed C query)
    (hop : getOp = .nhits ∨ getOp = .sel) {acts : List QueryAction}
    (h : Along (queryStep C query getOp) (InTurn C query) (QueryWorld.start C query σ) acts) :
    (∃ S P, Tracks C query getOp σ S P
        (run (queryStep C query getOp) (QueryWorld.start C query σ) acts)) ∧
      Works C query getOp (run (queryStep C query getOp) (QueryWorld.start C query σ) acts) := by
  refine Along.invariant_nil
    (I := fun _ w => (∃ S P, Tracks C query getOp σ S P w) ∧ Works C query getOp w)
    (fun _ w a hI ha => ?_) ⟨⟨[], [], tracks_start⟩, works_start⟩ h
  obtain ⟨⟨S, P, htracks⟩, hworks⟩ := hI
  rcases Continues.step (.inl ⟨S, P, htracks⟩) ha.queryFirst with ⟨S', P', htracks'⟩ | ⟨-, hfull⟩
  · exact ⟨⟨S', P', htracks'⟩, hworks.step htracks hq hσ hop ha htracks'.defined⟩
  · exact absurd hfits hfull

/-! ## Who works on a query -/

section

variable (h : Tracks C query getOp σ S P w) (hquiet : w.Quiet)
include h hquiet

theorem Tracks.cache_ne_nil (s : Nat) (o : UInt64) :
    (w.servers s).cache o ≠ [] ↔ σ.cache s o ≠ [] ∨
      ∃ t ∈ S, ∃ p ∈ C.plan query σ t, p.target = s ∧ p.objId = o := by
  have hperm := h.perm_of_quiet hquiet
  have hcache := (h.servers s).cache o
  have hnil : (w.servers s).cache o = [] ↔
      σ.cache s o = [] ∧ (held P s o).flatMap Piece.regions = [] := by
    rw [← append_eq_nil_iff]
    exact ⟨fun hc => perm_nil.mp (hc ▸ hcache).symm, fun hc => perm_nil.mp (hc ▸ hcache)⟩
  rw [Ne, hnil, not_and_or]
  refine or_congr Iff.rfl ?_
  rw [flatMap_eq_nil_iff]
  refine ⟨fun hne => ?_, fun ⟨t, ht, p, hp, hkey⟩ hall => ?_⟩
  · by_contra hno
    refine hne fun p hp => absurd ?_ hno
    obtain ⟨hp, hkey⟩ := mem_filter.mp hp
    obtain ⟨t, ht, hp⟩ := mem_flatMap.mp (hperm.mem_iff.mp hp)
    exact ⟨t, ht, p, hp, of_decide_eq_true hkey⟩
  · have hmem : p ∈ P := hperm.mem_iff.mpr (mem_flatMap.mpr ⟨t, ht, hp⟩)
    exact (Cluster.pieceOf hp).ne_nil (hall p (mem_filter.mpr ⟨hmem, decide_eq_true hkey⟩))

/-- What a query leaves of objects that are not its own. -/
theorem Tracks.placed_of_apart {query' : Query} (hσ : σ.Placed C query')
    (hapart : ∀ o ∈ query.objects, o ∉ query'.objects) : w.storage.Placed C query' := by
  have hcache : ∀ o ∈ query'.objects, ∀ s, (w.servers s).cache o ≠ [] ↔ σ.cache s o ≠ [] := by
    intro o ho s
    rw [h.cache_ne_nil hquiet, or_iff_left]
    rintro ⟨t, -, p, hp, -, rfl⟩
    exact hapart _ (Cluster.pieceOf hp).mem ho
  have hflag : ∀ o ∈ query'.objects,
      (w.servers (C.home o)).distributed o = σ.distributed (C.home o) o := by
    intro o ho
    rw [Bool.eq_iff_iff, (h.servers _).flags o, or_iff_left]
    exact fun hown => hapart o (Cluster.mem_own.mp hown.2).1 ho
  rcases hσ with hfresh | hspread
  · refine .inl fun o ho => ⟨(hflag o ho).trans (hfresh o ho).1, fun s => ?_⟩
    exact not_not.mp fun hne => (hcache o ho s).mp hne ((hfresh o ho).2 s)
  · refine .inr fun o ho => ⟨(hflag o ho).trans (hspread o ho).1, fun s => ?_⟩
    exact (hcache o ho s).trans ((hspread o ho).2 s)

variable (hq : EvenQuery C n query)
include hq

theorem Tracks.spread_of_quiet (hσ : σ.Placed C query) : w.storage.Spread C query := by
  intro o ho
  have hflag := (h.servers (C.home o)).flags o
  have hcache := fun s => h.cache_ne_nil hquiet s o
  rw [(hq.even o ho).among_zero]
  rcases hσ with hfresh | hspread
  · have hall := (h.targets_subset_iff hquiet).mpr (hq.chainReaches fun o ho => (hfresh o ho).1)
    have hmem : C.home o ∈ S := hall (Cluster.mem_targets.mpr ⟨o, ho, rfl⟩)
    refine ⟨hflag.mpr (.inr ⟨hmem, Cluster.mem_own.mpr ⟨ho, rfl⟩⟩), fun s => ?_⟩
    refine (hcache s).trans ?_
    simp only [hq.exists_mem_plan_iff, (hfresh o ho).2 s, ne_eq, not_true_eq_false, false_or]
    constructor
    · rintro ⟨t, -, -, hi⟩
      exact hi
    · exact fun hi => ⟨C.home o, hmem, ⟨⟨ho, rfl⟩, (hfresh o ho).1⟩, hi⟩
  · have htrue := (hspread o ho).1
    refine ⟨hflag.mpr (.inl htrue), fun s => ?_⟩
    rw [← (hq.even o ho).among_zero, ← (hspread o ho).2 s]
    refine (hcache s).trans (or_iff_left ?_)
    rintro ⟨t, -, hp⟩
    obtain ⟨⟨⟨-, rfl⟩, hfalse⟩, -⟩ := (hq.exists_mem_plan_iff σ t s o).mp hp
    rw [htrue] at hfalse
    cases hfalse

theorem Works.length_evaluated (hworks : Works C query getOp w) (hσ : σ.Placed C query) :
    w.evaluated.length = n := by
  have hspread := h.spread_of_quiet hquiet hq hσ
  obtain ⟨c, hc⟩ := exists_mem_of_ne_nil _ (leaves_ne_nil query)
  have ho : c.objId ∈ query.objects := mem_map_of_mem hc
  have hlt : n < C.size := (hq.even _ ho).among_zero ▸ C.among_lt C.size_pos c.objId
  have hperm : w.evaluated.Perm ((List.range n).map (skipping (C.manager query))) := by
    refine (perm_ext_iff_of_nodup hworks.nodup
      (nodup_range.map (skipping_injective (C.manager query)))).mpr fun s => ?_
    have hcache : ∀ o ∈ query.objects,
        ((w.servers s).cache o ≠ [] ↔ ∃ i < n, s = skipping (C.manager query) i) := by
      intro o ho
      rw [← (hq.even o ho).among_zero]
      exact (hspread o ho).2 s
    rw [hworks.evaluated, Complete, mem_map]
    constructor
    · rintro ⟨-, -, hall⟩
      obtain ⟨i, hi, rfl⟩ := (hcache _ ho).mp (hall _ ho)
      exact ⟨i, mem_range.mpr hi, rfl⟩
    · rintro ⟨i, hi, rfl⟩
      rw [mem_range] at hi
      exact ⟨skipping_ne _ _, handled_of_quiet hquiet (skipping_lt (by omega)),
        fun o ho => (hcache o ho).mpr ⟨i, hi, rfl⟩⟩
  rw [hperm.length_eq, length_map, length_range]

end

/-! ## Sequences of queries -/

/-- One query, and the messages handled for it. -/
structure QueryPhase where
  query : Query
  getOp : GetOp
  acts : List QueryAction

def QueryPhase.world (ph : QueryPhase) (C : Cluster ρ) (σ : Storage ρ) : QueryWorld ρ :=
  run (queryStep C ph.query ph.getOp) (QueryWorld.start C ph.query σ) ph.acts

def phaseStep (C : Cluster ρ) (σ : Storage ρ) (ph : QueryPhase) : Storage ρ :=
  (ph.world C σ).storage

/-- All messages of the query are handled, those with regions and the reports after the
query itself, and `obj_ids` has room. -/
structure Orderly (C : Cluster ρ) (σ : Storage ρ) (ph : QueryPhase) : Prop where
  getOp : ph.getOp = .nhits ∨ ph.getOp = .sel
  fits : IdsFit C ph.query
  inTurn : Along (queryStep C ph.query ph.getOp) (InTurn C ph.query)
    (QueryWorld.start C ph.query σ) ph.acts
  quiet : (ph.world C σ).Quiet

/-- The manager waits for as many reports as servers have evaluated the query, and has
answered once, when it had them all. -/
def WaitsRight (C : Cluster ρ) (σ : Storage ρ) (ph : QueryPhase) : Prop :=
  ∃ t, ((ph.world C σ).servers (C.manager ph.query)).task = some t ∧
    t.nSentServer = (ph.world C σ).evaluated.length ∧
    (ph.world C σ).answered = [(ph.world C σ).evaluated.length]

theorem Orderly.waitsRight (h : Orderly C σ ph) (hq : EvenQuery C n ph.query)
    (hσ : σ.Placed C ph.query) : WaitsRight C σ ph ∧ (phaseStep C σ ph).Spread C ph.query := by
  obtain ⟨⟨S, P, htracks⟩, hworks⟩ := works_run h.fits hq hσ h.getOp h.inTurn
  have hmanager : C.manager ph.query ∈ C.targets ph.query := Cluster.manager_mem_targets
  obtain ⟨o, ho, hhome⟩ := Cluster.mem_targets.mp hmanager
  have hhandled := handled_of_quiet h.quiet (Cluster.lt_of_mem_targets hmanager)
  obtain ⟨t, ht, -⟩ := (htracks.servers (C.manager ph.query)).known hhandled
  have hlength : (ph.world C σ).evaluated.length = n :=
    Works.length_evaluated htracks h.quiet hq hworks hσ
  have hsent : t.nSentServer = n := by
    rw [(htracks.servers (C.manager ph.query)).sent (htracks.first.mpr hhandled) t ht]
    exact sentAfter_of_even (fun o ho => hq.even o (Cluster.mem_own.mp ho).1) (.inl rfl)
      (ne_nil_of_mem (Cluster.mem_own.mpr ⟨ho, hhome⟩))
  have htask : (ph.world C σ).managerTask C ph.query = t := by
    exact congrArg (Option.getD · {}) ht
  -- All reports have come.
  have hrecv : t.nRecv = n := by
    have hcount : (ph.world C σ).reports.length + ((ph.world C σ).managerTask C ph.query).nRecv =
      (ph.world C σ).evaluated.length := hworks.reports
    rwa [h.quiet.2.2, htask, length_nil, Nat.zero_add, hlength] at hcount
  have hanswered : (ph.world C σ).answered = answersAfter ph.getOp t.nSentServer t.nRecv := by
    rw [← htask]
    exact hworks.answered
  have hpos : 0 < n := (hq.even o ho).among_zero ▸ C.among_pos 0 o
  refine ⟨⟨t, ht, hsent.trans hlength.symm, ?_⟩, htracks.spread_of_quiet h.quiet hq hσ⟩
  rw [hanswered, hsent, hrecv, answersAfter_self _ hpos, hlength]

theorem Orderly.placed_of_apart (h : Orderly C σ ph) (hq : EvenQuery C n ph.query)
    (hσ : σ.Placed C ph.query) {query' : Query} (hσ' : σ.Placed C query')
    (hapart : ∀ o ∈ ph.query.objects, o ∉ query'.objects) :
    (phaseStep C σ ph).Placed C query' := by
  obtain ⟨⟨S, P, htracks⟩, -⟩ := works_run h.fits hq hσ h.getOp h.inTurn
  exact htracks.placed_of_apart h.quiet hσ' hapart

/-- Two queries have no objects in common, or they are on the same objects and have the
same manager. -/
def SameOrApart (C : Cluster ρ) (query query' : Query) : Prop :=
  (∀ o ∈ query.objects, o ∉ query'.objects) ∨
    C.manager query = C.manager query' ∧ ∀ o, o ∈ query.objects ↔ o ∈ query'.objects

section

variable (hqueries : w.queries = [])
include hqueries

theorem inTurn_bulk_of_queries_nil {t : Nat}
    (hi : w.bulks[i]?.map MetaBulk.target = some t) (ht : t < C.size) :
    InTurn C query w (.bulk i) := by
  intro b hb
  rw [hb] at hi
  refine ⟨Option.some.inj hi ▸ ht, fun msg hmsg => ?_⟩
  rw [hqueries] at hmsg
  simp at hmsg

theorem inTurn_report_of_queries_nil (i : Nat) : InTurn C query w (.report i) := by
  refine ⟨Cluster.lt_of_mem_targets Cluster.manager_mem_targets, fun msg hmsg => ?_⟩
  rw [hqueries] at hmsg
  simp at hmsg

end

/-- The object of server 3 has four regions, of which servers 0 and 1 get two each. -/
def fourRegions : Cluster Nat := fourServers [1, 2, 3, 4] (by decide)

/-- On as many servers every object has two regions, which say what object they are of. -/
def twoRegions : Cluster (UInt64 × Nat) where
  size := fourRegions.size
  two_le_size := fourRegions.two_le_size
  regions := fun o => [(o, 0), (o, 1)]
  regions_ne_nil := fun _ => cons_ne_nil _ _
  regionObjId := Prod.fst

/-- Server 3 sends regions of its object to servers 0 and 1, and then server 1 sends one of
its own to server 0. -/
def bothObjects : QueryPhase where
  query := twoObjectQuery
  getOp := .nhits
  acts := [.query 0, .query 0, .query 0, .query 0, .bulk 0, .bulk 0, .bulk 0, .report 0, .report 0]

def bothAgain : QueryPhase where
  query := twoObjectQuery
  getOp := .nhits
  acts := [.query 0, .query 0, .query 0, .query 0, .report 0, .report 0]

theorem evenQuery_twoRegions : EvenQuery twoRegions 2 twoObjectQuery where
  even := fun _ _ => ⟨rfl, show 2 ⌈/⌉ (2 ⌈/⌉ 2) = 2 by decide⟩
  reached := by decide +kernel
  ids := by
    intro o _ _ r hr
    rcases mem_cons.mp hr with rfl | hr
    · rfl
    · exact congrArg Prod.fst (mem_singleton.mp hr)

def oneObjectQuery : Query := .leaf ⟨4000000000, .gt, .int, 0, false, .none, 0⟩

def firstPhase : QueryPhase where
  query := oneObjectQuery
  getOp := .nhits
  acts := [.query 0, .query 0, .query 0, .query 0, .bulk 0, .bulk 0, .report 0, .report 0]

/-- The query again. -/
def secondPhase : QueryPhase where
  query := oneObjectQuery
  getOp := .nhits
  acts := [.query 0, .query 0, .query 0, .query 0, .report 0, .report 0]

end Pdc
