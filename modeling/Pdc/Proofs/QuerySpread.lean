import Pdc.Proofs.QueryDeal
import Pdc.Proofs.QuerySend

/-!
# What a run of a query's distribution is determined by

What the servers do is determined by two lists: the servers that have
distributed the regions of their objects, and the pieces that have arrived.
`Tracks` says how the flags, the caches, the tasks and the messages on their way
follow from them, and every message that is handled keeps it. A server other
than the manager is in the first list just if a piece from the target before it
has arrived.

`QueryCase` and `BulkCase` say what the two handlers can do. A step that is not
one of these goes beyond the end of an array, because a server has more objects
of the query than `obj_ids` has entries.
-/

namespace Pdc

open List Lib

variable {ρ : Type} {C : Cluster ρ} {query : Query} {getOp : GetOp} {σ : Storage ρ}
  {S : List Nat} {P : List (Piece ρ)} {w : QueryWorld ρ} {rank : Nat}

variable {t : DistTask} {S' : List Nat} {w' : QueryWorld ρ} {i s a : Nat} {msg : QueryMessage}
  {b : MetaBulk ρ} {server : DistServer ρ} {Q : List (Piece ρ)} {p : Piece ρ}

/-! ## What is to be sent -/

def QueryTree.objects (query : Query) : List UInt64 := query.leaves.map Constraint.objId

def Cluster.own (C : Cluster ρ) (query : Query) (rank : Nat) : List UInt64 :=
  C.newOwn rank [] query.objects

def Cluster.plan (C : Cluster ρ) (query : Query) (σ : Storage ρ) (rank : Nat) : List (Piece ρ) :=
  C.pieces (C.manager query) (σ.distributed rank) 0 (C.own query rank)

/-- The entries `obj_ids` has on a server. -/
def Cluster.capacity (C : Cluster ρ) (query : Query) (rank : Nat) : Nat :=
  if rank = C.manager query then (C.targets query).length else C.size

theorem Cluster.size_pos (C : Cluster ρ) : 0 < C.size := by
  have := C.two_le_size
  omega

theorem Cluster.mem_own {o : UInt64} :
    o ∈ C.own query rank ↔ o ∈ query.objects ∧ C.home o = rank := by
  simp [Cluster.own, Cluster.mem_newOwn]

theorem Cluster.mem_targets : rank ∈ C.targets query ↔ ∃ o ∈ query.objects, C.home o = rank := by
  simp [Cluster.targets, mem_getServerFromQuery, QueryTree.objects, Cluster.home]

theorem Cluster.nodup_targets (C : Cluster ρ) (query : Query) : (C.targets query).Nodup :=
  nodup_getServerFromQuery query nodup_nil

theorem Cluster.own_eq_nil (h : rank ∉ C.targets query) : C.own query rank = [] := by
  rw [eq_nil_iff_forall_not_mem]
  intro o ho
  exact h (Cluster.mem_targets.mpr ⟨o, Cluster.mem_own.mp ho⟩)

theorem Cluster.lt_of_mem_targets (h : rank ∈ C.targets query) : rank < C.size := by
  obtain ⟨o, -, rfl⟩ := Cluster.mem_targets.mp h
  exact getServerByObjId_lt _ C.size_pos

theorem Cluster.targets_eq (C : Cluster ρ) (query : Query) :
    ∃ rest, C.targets query = C.manager query :: rest := by
  obtain ⟨c, hc⟩ := exists_mem_of_ne_nil _ (leaves_ne_nil query)
  have hmem : C.home c.objId ∈ C.targets query :=
    Cluster.mem_targets.mpr ⟨_, mem_map_of_mem hc, rfl⟩
  cases htargets : C.targets query with
  | nil => exact absurd (htargets ▸ hmem) not_mem_nil
  | cons t rest => exact ⟨rest, by rw [Cluster.manager, htargets]; rfl⟩

theorem Cluster.manager_mem_targets : C.manager query ∈ C.targets query := by
  obtain ⟨rest, hrest⟩ := C.targets_eq query
  rw [hrest]
  exact mem_cons_self

/-- What is known of each piece. -/
structure PieceOf (C : Cluster ρ) (query : Query) (σ : Storage ρ) (rank : Nat) (p : Piece ρ) :
    Prop where
  home : C.home p.objId = rank
  mem : p.objId ∈ query.objects
  flag : σ.distributed rank p.objId = false
  ne_manager : p.target ≠ C.manager query
  lt : p.target < C.size
  ne_nil : p.regions ≠ []

theorem Cluster.pieceOf (h : p ∈ C.plan query σ rank) : PieceOf C query σ rank p := by
  obtain ⟨hown, hflag, n, hn, hp⟩ := Cluster.mem_pieces h C.size_pos
  obtain ⟨i, hi, heq⟩ := Cluster.mem_objectPieces.mp hp
  rw [Cluster.mem_own] at hown
  have hlt := C.receivers_lt hn p.objId
  refine ⟨hown.2, hown.1, hflag, ?_, ?_, ?_⟩
  · rw [heq]
    exact skipping_ne _ _
  · rw [heq]
    exact skipping_lt (by omega)
  · rw [heq]
    exact block_ne_nil (C.avgCount_pos n p.objId) hi

/-- `b` comes right after `a` in the list of targets. -/
def Cluster.Follows (C : Cluster ρ) (query : Query) (a b : Nat) : Prop :=
  ∃ before after, C.targets query = before ++ a :: b :: after

theorem Cluster.Follows.mem {b : Nat} (h : C.Follows query a b) : b ∈ C.targets query := by
  obtain ⟨before, after, heq⟩ := h
  rw [heq]
  simp

theorem Cluster.exists_follows {b : Nat} (h : b ∈ C.targets query) (hne : b ≠ C.manager query) :
    ∃ a, C.Follows query a b := by
  obtain ⟨before, after, heq⟩ := append_of_mem h
  rcases eq_nil_or_concat before with rfl | ⟨before, a, rfl⟩
  · obtain ⟨rest, hrest⟩ := C.targets_eq query
    rw [hrest] at heq
    exact absurd (List.cons.inj heq).1.symm hne
  · refine ⟨a, before, after, ?_⟩
    rw [heq, concat_eq_append, append_assoc]
    rfl

theorem Cluster.follows_unique {a' b : Nat} (h : C.Follows query a b)
    (h' : C.Follows query a' b) : a = a' := by
  -- Both are what `b` is sent as the one before it.
  have hb : b ∈ (sendDataQuery C.size query).map QueryMessage.serverId := by
    rw [map_serverId_sendDataQuery, mem_range]
    exact Cluster.lt_of_mem_targets h.mem
  obtain ⟨msg, hmsg, rfl⟩ := mem_map.mp hb
  obtain ⟨before, after, heq⟩ := h
  obtain ⟨before', after', heq'⟩ := h'
  have hprev := (prev_of_follows hmsg heq).symm.trans (prev_of_follows hmsg heq')
  exact Int.ofNat.inj hprev

/-! ## A server distributes its objects -/

theorem spreadOwn_eq (capacity : Nat) (server : DistServer ρ) (task : DistTask)
    (hn : task.nSentServer < C.size) :
    spreadOwn C rank capacity query server task =
      if (C.own query rank).length ≤ capacity then
        let pieces := C.pieces task.manager server.distributed task.nSentServer (C.own query rank)
        some
          ({ server with
              distributed := fun o => server.distributed o || decide (o ∈ C.own query rank)
              cache := fun o => ((pieces.filter fun p => p.target = rank ∧ p.objId = o).flatMap
                Piece.regions).reverse ++ server.cache o },
            { task with
              nSentServer := C.sentAfter server.distributed task.nSentServer (C.own query rank)
              attached := fun o => task.attached o || pieces.any
                fun p => p.target = rank ∧ C.lastObjId p.regions = some o },
            (pieces.filter fun p => p.target ≠ rank).map (Piece.toBulk rank))
      else none := by
  have hwalk := foldlM_storageInfo C rank task.manager capacity query.objects
    { nSentServer := task.nSentServer
      distributed := server.distributed
      cache := server.cache
      attached := task.attached } hn (Nat.zero_le _)
  simp only [length_nil, Nat.zero_add] at hwalk
  rw [show C.newOwn rank [] query.objects = C.own query rank from rfl] at hwalk
  rw [spreadOwn, distributeQueryWorkload_eq]
  split at hwalk
  · next hfits =>
    obtain ⟨st, hst, hspread⟩ := hwalk
    have hdistributed := funext hspread.distributed
    have hcache := funext hspread.cache
    have hattached := funext hspread.attached
    have hsent := hspread.sent
    have hn := hspread.nSent
    rw [if_pos hfits]
    simp only [QueryTree.objects] at hst
    simp only [hst, Option.bind_eq_bind, Option.bind_some, hdistributed, hcache, hattached, hsent,
      hn]
    rfl
  · next hfull =>
    rw [if_neg hfull]
    simp only [QueryTree.objects] at hwalk
    simp only [hwalk, Option.bind_eq_bind, Option.bind_none]

/-- A server after it has distributed its objects for the first time. -/
def DistServer.spread (server : DistServer ρ) (C : Cluster ρ) (query : Query) (σ : Storage ρ)
    (s : Nat) : DistServer ρ :=
  { server with
    distributed := fun o => server.distributed o || decide (o ∈ C.own query s)
    cache := fun o => (((C.plan query σ s).filter
      fun p => p.target = s ∧ p.objId = o).flatMap Piece.regions).reverse ++ server.cache o }

def DistTask.spread (t : DistTask) (C : Cluster ρ) (query : Query) (σ : Storage ρ) (s : Nat) :
    DistTask :=
  { t with
    nSentServer := C.sentAfter (σ.distributed s) 0 (C.own query s)
    attached := fun o => t.attached o || (C.plan query σ s).any
      fun p => p.target = s ∧ C.lastObjId p.regions = some o }

/-- The messages it sends then. -/
def Cluster.planned (C : Cluster ρ) (query : Query) (σ : Storage ρ) (s : Nat) : List (MetaBulk ρ) :=
  ((C.plan query σ s).filter fun p => p.target ≠ s).map (Piece.toBulk s)

def DistServer.receive (server : DistServer ρ) (p : Piece ρ) : DistServer ρ :=
  { server with
    cache := Function.update server.cache p.objId (p.regions.reverse ++ server.cache p.objId) }

def DistTask.attach (t : DistTask) (o : UInt64) : DistTask :=
  { t with attached := Function.update t.attached o true }

def DistServer.learn (server : DistServer ρ) (C : Cluster ρ) (query : Query) (getOp : GetOp)
    (nb : Neighbours) : DistTask :=
  { server.task.getD {} with
    query := some query
    manager := C.manager query
    getOp := getOp
    neighbours := nb
    attached := fun o => !(server.cache o).isEmpty }

/-! ## How a run follows from what has been sent and has arrived -/

def MetaBulk.piece (b : MetaBulk ρ) : Piece ρ := ⟨b.objId, b.target, b.regions⟩

/-- The query has been handled on a server. -/
def QueryWorld.Handled (w : QueryWorld ρ) (C : Cluster ρ) (s : Nat) : Prop :=
  s < C.size ∧ ∀ msg ∈ w.queries, msg.serverId ≠ s

def held (P : List (Piece ρ)) (s : Nat) (o : UInt64) : List (Piece ρ) :=
  P.filter fun p => p.target = s ∧ p.objId = o

theorem held_append (P P' : List (Piece ρ)) (s : Nat) (o : UInt64) :
    held (P ++ P') s o = held P s o ++ held P' s o := filter_append ..

theorem held_eq_nil (h : ∀ p ∈ P, p.target ≠ s) (o : UInt64) : held P s o = [] :=
  filter_eq_nil_iff.mpr fun p hp heq => h p hp (of_decide_eq_true heq).1

/-- A server, if `spread` says whether it has distributed its objects, `handled`
whether it has handled the query, and `has` which pieces have come. -/
structure ServerTracks (C : Cluster ρ) (query : Query) (getOp : GetOp) (σ : Storage ρ) (s : Nat)
    (spread handled : Prop) (has : UInt64 → List (Piece ρ)) (server : DistServer ρ) : Prop where
  flags : ∀ o, server.distributed o = true ↔
    σ.distributed s o = true ∨ spread ∧ o ∈ C.own query s
  cache : ∀ o, (server.cache o).Perm (σ.cache s o ++ (has o).flatMap Piece.regions)
  sent : spread → ∀ t, server.task = some t →
    t.nSentServer = C.sentAfter (σ.distributed s) 0 (C.own query s)
  unsent : ¬ spread → ∀ t, server.task = some t → t.nSentServer = 0
  known : handled → ∃ t, server.task = some t ∧ t.query = some query ∧
    t.manager = C.manager query ∧ t.getOp = getOp ∧ ⟨s, t.neighbours⟩ ∈ sendDataQuery C.size query
  unknown : ¬ handled → ∀ t, server.task = some t → t.query = none

/-- A run in which the servers `S` have distributed their objects, and the pieces `P`
have come. -/
structure Tracks (C : Cluster ρ) (query : Query) (getOp : GetOp) (σ : Storage ρ) (S : List Nat)
    (P : List (Piece ρ)) (w : QueryWorld ρ) : Prop where
  defined : w.undefined = false
  nodup : S.Nodup
  mem_targets : ∀ s ∈ S, s ∈ C.targets query
  fits : ∀ s ∈ S, (C.own query s).length ≤ C.capacity query s
  handled : ∀ s ∈ S, w.Handled C s
  perm : (P ++ w.bulks.map MetaBulk.piece).Perm (S.flatMap (C.plan query σ))
  bulks : ∀ b ∈ w.bulks, b.origin = C.home b.objId ∧ b.target ≠ b.origin ∧
    b.cnt = b.regions.length
  messages : ∀ msg ∈ w.queries, msg ∈ sendDataQuery C.size query
  nodup_queries : (w.queries.map QueryMessage.serverId).Nodup
  first : C.manager query ∈ S ↔ w.Handled C (C.manager query)
  reached : ∀ s ∈ S, s ≠ C.manager query →
    ∃ p ∈ P, p.target = s ∧ C.Follows query (C.home p.objId) s
  next : ∀ p ∈ P, C.Follows query (C.home p.objId) p.target → p.target ∈ S
  servers : ∀ s, ServerTracks C query getOp σ s (s ∈ S) (w.Handled C s) (held P s) (w.servers s)

theorem handled_start : ¬ (QueryWorld.start C query σ).Handled C s := by
  intro h
  have hmem : s ∈ (sendDataQuery C.size query).map QueryMessage.serverId := by
    rw [map_serverId_sendDataQuery, mem_range]
    exact h.1
  obtain ⟨msg, hmsg, hid⟩ := mem_map.mp hmem
  exact h.2 msg hmsg hid

theorem tracks_start : Tracks C query getOp σ [] [] (QueryWorld.start C query σ) where
  defined := rfl
  nodup := nodup_nil
  mem_targets := fun s hs => absurd hs not_mem_nil
  fits := fun s hs => absurd hs not_mem_nil
  handled := fun s hs => absurd hs not_mem_nil
  perm := List.Perm.refl _
  bulks := fun b hb => absurd hb not_mem_nil
  messages := fun _ hmsg => hmsg
  nodup_queries := by
    show ((sendDataQuery C.size query).map QueryMessage.serverId).Nodup
    rw [map_serverId_sendDataQuery]
    exact nodup_range
  first := ⟨fun h => absurd h not_mem_nil, fun h => absurd h handled_start⟩
  reached := fun s hs => absurd hs not_mem_nil
  next := fun p hp => absurd hp not_mem_nil
  servers := fun s =>
    { flags := by simp [QueryWorld.start]
      cache := by simp [QueryWorld.start, held]
      sent := fun h => absurd h not_mem_nil
      unsent := fun _ t ht => nomatch ht
      known := fun h => absurd h handled_start
      unknown := fun _ t ht => nomatch ht }

/-! ## One server -/

section Server

variable {s capacity : Nat} {spread handled : Prop} {has : UInt64 → List (Piece ρ)}
  {server : DistServer ρ}

section

variable (h : ServerTracks C query getOp σ s spread handled has server) {handled' : Prop}
include h

theorem ServerTracks.congr {spread' : Prop} {has' : UInt64 → List (Piece ρ)}
    (hspread : spread ↔ spread') (hhandled : handled ↔ handled') (hhas : ∀ o, has o = has' o) :
    ServerTracks C query getOp σ s spread' handled' has' server := by
  rwa [propext hspread, propext hhandled, funext hhas] at h

theorem ServerTracks.setTask
    (hsent : spread → t.nSentServer = C.sentAfter (σ.distributed s) 0 (C.own query s))
    (hunsent : ¬ spread → t.nSentServer = 0)
    (hknown : handled' → t.query = some query ∧ t.manager = C.manager query ∧ t.getOp = getOp ∧
      ⟨s, t.neighbours⟩ ∈ sendDataQuery C.size query)
    (hunknown : ¬ handled' → t.query = none) :
    ServerTracks C query getOp σ s spread handled' has { server with task := some t } where
  flags := h.flags
  cache := h.cache
  sent := fun hs _ ht => Option.some.inj ht ▸ hsent hs
  unsent := fun hs _ ht => Option.some.inj ht ▸ hunsent hs
  known := fun hh => ⟨t, rfl, hknown hh⟩
  unknown := fun hh _ ht => Option.some.inj ht ▸ hunknown hh

theorem ServerTracks.receive (p : Piece ρ) (hp : p.target = s) :
    ServerTracks C query getOp σ s spread handled (fun o => has o ++ held [p] s o)
      (server.receive p) where
  flags := h.flags
  cache := by
    intro o
    by_cases ho : o = p.objId
    · subst ho
      have hone : held [p] s p.objId = [p] := by simp [held, hp]
      simp only [DistServer.receive, Function.update_self, hone, flatMap_append,
        flatMap_singleton, ← append_assoc]
      exact (p.regions.reverse_perm.append (h.cache p.objId)).trans perm_append_comm
    · have hnone : held [p] s o = [] := by
        simp [held, hp, Ne.symm ho]
      simp only [DistServer.receive, Function.update_of_ne ho, hnone, append_nil]
      exact h.cache o
  sent := h.sent
  unsent := h.unsent
  known := h.known
  unknown := h.unknown

theorem ServerTracks.known_of
    (hhandled : handled) (ht : server.task = some t) : t.query = some query ∧
      t.manager = C.manager query ∧ t.getOp = getOp ∧
      ⟨s, t.neighbours⟩ ∈ sendDataQuery C.size query := by
  obtain ⟨t', ht', hknown⟩ := h.known hhandled
  rwa [Option.some.inj (ht.symm.trans ht')]

theorem ServerTracks.nSentServer_lt (ht : server.task = some t) : t.nSentServer < C.size := by
  by_cases hs : spread
  · rw [h.sent hs t ht]
    exact C.sentAfter_lt _ C.size_pos _
  · rw [h.unsent hs t ht]
    exact C.size_pos

end

theorem ServerTracks.spreadOut (h : ServerTracks C query getOp σ s False handled has server)
    (hquery : t.query = some query) (hmanager : t.manager = C.manager query)
    (hgetOp : t.getOp = getOp) (hmsg : ⟨s, t.neighbours⟩ ∈ sendDataQuery C.size query)
    (hsent : t.nSentServer = C.sentAfter (σ.distributed s) 0 (C.own query s)) :
    ServerTracks C query getOp σ s True True
      (fun o => has o ++ held ((C.plan query σ s).filter fun p => p.target = s) s o)
      { server.spread C query σ s with task := some t } where
  flags := by
    intro o
    simp only [DistServer.spread, Bool.or_eq_true, h.flags o, false_and, or_false,
      decide_eq_true_eq, true_and]
  cache := by
    intro o
    have hself : held ((C.plan query σ s).filter fun p => p.target = s) s o =
        (C.plan query σ s).filter fun p => p.target = s ∧ p.objId = o := by
      rw [held, filter_filter]
      refine filter_congr fun p _ => ?_
      simp only [← Bool.decide_and, decide_eq_decide]
      exact ⟨fun hp => hp.1, fun hp => ⟨hp, hp.1⟩⟩
    simp only [DistServer.spread, hself, flatMap_append, ← append_assoc]
    exact ((reverse_perm _).append (h.cache o)).trans perm_append_comm
  sent := fun _ _ ht => Option.some.inj ht ▸ hsent
  unsent := fun hs => absurd trivial hs
  known := fun _ => ⟨t, rfl, hquery, hmanager, hgetOp, hmsg⟩
  unknown := fun hh => absurd trivial hh

theorem ServerTracks.spreadOwn (h : ServerTracks C query getOp σ s False handled has server)
    (hmanager : t.manager = C.manager query) (hzero : t.nSentServer = 0) :
    spreadOwn C s capacity query server t =
      if (C.own query s).length ≤ capacity then
        some (server.spread C query σ s, t.spread C query σ s, C.planned query σ s)
      else none := by
  have hflags : ∀ o ∈ C.own query s, server.distributed o = σ.distributed s o := by
    intro o _
    rw [Bool.eq_iff_iff, h.flags o]
    simp
  have hpieces : C.pieces t.manager server.distributed t.nSentServer (C.own query s) =
      C.plan query σ s := by
    rw [hmanager, hzero, Cluster.pieces_congr hflags]
    rfl
  have hsent : C.sentAfter server.distributed t.nSentServer (C.own query s) =
      C.sentAfter (σ.distributed s) 0 (C.own query s) := by
    rw [hzero, Cluster.sentAfter_congr hflags]
  rw [spreadOwn_eq capacity server t (hzero ▸ C.size_pos)]
  simp only [hpieces, hsent]
  rfl

theorem ServerTracks.nSentServer_getD (h : ServerTracks C query getOp σ s spread handled has server)
    (hs : ¬ spread) : (server.task.getD {}).nSentServer = 0 := by
  cases htask : server.task with
  | none => rfl
  | some t => exact h.unsent hs t htask

theorem spreadOwn_again (hfits : (C.own query s).length ≤ capacity)
    (hflags : ∀ o ∈ C.own query s, server.distributed o = true) (hn : t.nSentServer < C.size)
    (hpos : C.own query s ≠ [] → t.nSentServer ≠ 0) :
    spreadOwn C s capacity query server t = some (server, t, []) := by
  have hnone : ∀ (os : List UInt64) (n : Nat), (∀ o ∈ os, server.distributed o = true) →
      C.pieces t.manager server.distributed n os = [] := by
    intro os
    induction os with
    | nil => intro n _; rfl
    | cons o os ih =>
      intro n hall
      rw [forall_mem_cons] at hall
      rw [Cluster.pieces, if_pos hall.1, ih _ hall.2]
      rfl
  have hsame : ∀ os : List UInt64, (∀ o ∈ os, server.distributed o = true) →
      (os ≠ [] → t.nSentServer ≠ 0) →
      C.sentAfter server.distributed t.nSentServer os = t.nSentServer := by
    intro os
    induction os with
    | nil => intro _ _; rfl
    | cons o os ih =>
      intro hall hne
      rw [forall_mem_cons] at hall
      have hstep : C.nextSent server.distributed t.nSentServer o = t.nSentServer := by
        rw [Cluster.nextSent, if_pos hall.1, Cluster.among, if_neg (hne (cons_ne_nil _ _))]
      rw [Cluster.sentAfter, foldl_cons, hstep]
      exact ih hall.2 fun _ => hne (cons_ne_nil _ _)
  have hdistributed : (fun o => server.distributed o || decide (o ∈ C.own query s)) =
      server.distributed := by
    funext o
    by_cases ho : o ∈ C.own query s
    · rw [hflags o ho, Bool.true_or]
    · rw [decide_eq_false ho, Bool.or_false]
  rw [spreadOwn_eq capacity server t hn, if_pos hfits]
  simp only [hnone _ _ hflags, hsame _ hflags hpos, hdistributed, filter_nil,
    flatMap_nil, reverse_nil, nil_append, any_nil, Bool.or_false, map_nil]

end Server

/-! ## A step on one server -/

/-- What a server has to do to be added to those that have distributed their objects. -/
inductive Extends (C : Cluster ρ) (query : Query) (S : List Nat) (rank : Nat) : List Nat → Prop
  | keep : Extends C query S rank S
  | add (hnew : rank ∉ S) (htarget : rank ∈ C.targets query)
      (hfits : (C.own query rank).length ≤ C.capacity query rank) :
      Extends C query S rank (S ++ [rank])

theorem Extends.mem (h : Extends C query S rank S') (hs : s ∈ S) : s ∈ S' := by
  cases h with
  | keep => exact hs
  | add => exact mem_append_left _ hs

theorem Extends.mem_of_ne (h : Extends C query S rank S') (hne : s ≠ rank) :
    s ∈ S' ↔ s ∈ S := by
  cases h with
  | keep => exact Iff.rfl
  | add => simp [hne]

theorem Extends.forall_mem (h : Extends C query S rank S') {p : Nat → Prop} (hold : ∀ s ∈ S, p s)
    (hadd : rank ∈ S' → rank ∉ S → rank ∈ C.targets query →
      (C.own query rank).length ≤ C.capacity query rank → p rank) : ∀ s ∈ S', p s := by
  cases h with
  | keep => exact hold
  | add hnew htarget hfits =>
    have hmem : rank ∈ S ++ [rank] := mem_append_right _ (mem_singleton.mpr rfl)
    exact forall_mem_append.mpr
      ⟨hold, fun s hs => mem_singleton.mp hs ▸ hadd hmem hnew htarget hfits⟩

/-- A step that changes one server, handles one message and perhaps sends some. -/
theorem Tracks.update (h : Tracks C query getOp σ S P w) {P' : List (Piece ρ)}
    (hS : Extends C query S rank S') (hdefined : w'.undefined = false)
    (hservers : w'.servers = Function.update w.servers rank server)
    (hperm : (P' ++ w'.bulks.map MetaBulk.piece).Perm (S'.flatMap (C.plan query σ)))
    (hbulks : ∀ b ∈ w'.bulks, b ∈ w.bulks ∨ b.origin = C.home b.objId ∧ b.target ≠ b.origin ∧
      b.cnt = b.regions.length)
    (hqueries : w'.queries.Sublist w.queries)
    (hhandled : ∀ s, s ≠ rank → (w'.Handled C s ↔ w.Handled C s))
    (hrank : rank ∈ S' → w'.Handled C rank)
    (hfirst : C.manager query ∈ S' ↔ w'.Handled C (C.manager query))
    (hreached : rank ∈ S' → rank ∉ S → rank ≠ C.manager query →
      ∃ p ∈ P', p.target = rank ∧ C.Follows query (C.home p.objId) rank)
    (hsub : P ⊆ P')
    (hnext : ∀ p ∈ P', C.Follows query (C.home p.objId) p.target → p ∈ P ∨ p.target ∈ S')
    (hheld : ∀ s, s ≠ rank → held P' s = held P s)
    (hserver : ServerTracks C query getOp σ rank (rank ∈ S') (w'.Handled C rank) (held P' rank)
      server)
    : Tracks C query getOp σ S' P' w' where
  defined := hdefined
  nodup := by
    cases hS with
    | keep => exact h.nodup
    | add hnew =>
      refine nodup_append.mpr ⟨h.nodup, nodup_singleton _, fun a ha b hb hab => ?_⟩
      exact hnew (mem_singleton.mp hb ▸ hab ▸ ha)
  mem_targets := hS.forall_mem h.mem_targets fun _ _ htarget _ => htarget
  fits := hS.forall_mem h.fits fun _ _ _ hfits => hfits
  handled := by
    intro s hs
    by_cases hne : s = rank
    · exact hne ▸ hrank (hne ▸ hs)
    · exact (hhandled s hne).mpr (h.handled s ((hS.mem_of_ne hne).mp hs))
  perm := hperm
  bulks := fun b hb => (hbulks b hb).elim (h.bulks b) id
  messages := fun msg hmsg => h.messages msg (hqueries.subset hmsg)
  nodup_queries := h.nodup_queries.sublist (hqueries.map _)
  first := hfirst
  reached := by
    refine hS.forall_mem (fun s hs hne => ?_) fun hs hnew _ _ => hreached hs hnew
    obtain ⟨p, hp, hrest⟩ := h.reached s hs hne
    exact ⟨p, hsub hp, hrest⟩
  next := fun p hp hfollows => (hnext p hp hfollows).elim
    (fun hold => hS.mem (h.next p hold hfollows)) id
  servers := by
    intro s
    rw [hservers]
    by_cases hne : s = rank
    · subst hne
      rw [Function.update_self]
      exact hserver
    · rw [Function.update_of_ne hne, hheld s hne]
      exact (h.servers s).congr (hS.mem_of_ne hne).symm (hhandled s hne).symm fun _ => rfl

/-! ## Messages on their way -/

theorem perm_eraseIdx {α : Type*} {l : List α} {a : α} (h : l[i]? = some a) :
    (a :: l.eraseIdx i).Perm l := by
  obtain ⟨hi, rfl⟩ := List.getElem?_eq_some_iff.mp h
  exact getElem_cons_eraseIdx_perm hi

theorem Tracks.handled_eraseIdx (h : Tracks C query getOp σ S P w) (hi : w.queries[i]? = some msg)
    (hw' : w'.queries = w.queries.eraseIdx i) (s : Nat) :
    w'.Handled C s ↔ w.Handled C s ∨ s = msg.serverId := by
  have hperm := perm_eraseIdx hi
  have hmem : msg ∈ w.queries := mem_of_getElem? hi
  have hnodup := (hperm.map QueryMessage.serverId).nodup_iff.mpr h.nodup_queries
  rw [map_cons, nodup_cons] at hnodup
  have hlt : msg.serverId < C.size := (mem_sendDataQuery.mp (h.messages msg hmem)).1
  unfold QueryWorld.Handled
  rw [hw']
  refine ⟨fun hs => ?_, fun hs => ?_⟩
  · by_cases heq : s = msg.serverId
    · exact .inr heq
    · refine .inl ⟨hs.1, fun other hother hid => ?_⟩
      rcases mem_cons.mp (hperm.mem_iff.mpr hother) with rfl | hrest
      · exact heq hid.symm
      · exact hs.2 other hrest hid
  · rcases hs with hs | rfl
    · exact ⟨hs.1, fun other hother => hs.2 other (mem_of_mem_eraseIdx hother)⟩
    · exact ⟨hlt, fun other hother hid => hnodup.1 (hid ▸ mem_map_of_mem hother)⟩

theorem not_handled_of_getElem? (hi : w.queries[i]? = some msg) :
    ¬ w.Handled C msg.serverId := fun h => h.2 msg (mem_of_getElem? hi) rfl

theorem evaluateAndReport_eq (w : QueryWorld ρ) (rank : Nat) (server : DistServer ρ)
    (task : DistTask) :
    ∃ done evaluated reports, evaluateAndReport w rank server task = { w with
      servers := Function.update w.servers rank
        { server with task := some { task with isDone := done } }
      evaluated := evaluated
      reports := reports } := by
  unfold evaluateAndReport
  split
  · exact ⟨task.isDone, w.evaluated, w.reports, rfl⟩
  · exact ⟨true, _, _, rfl⟩

theorem perm_spread {B : List (MetaBulk ρ)}
    (h : (P ++ B.map MetaBulk.piece).Perm (S.flatMap (C.plan query σ)))
    (hQ : Q = C.plan query σ rank) :
    (P ++ Q.filter (fun p => p.target = rank) ++
      (B ++ (Q.filter fun p => p.target ≠ rank).map (Piece.toBulk rank)).map
        MetaBulk.piece).Perm ((S ++ [rank]).flatMap (C.plan query σ)) := by
  have hsent : ((Q.filter fun p => p.target ≠ rank).map (Piece.toBulk rank)).map
      MetaBulk.piece = Q.filter fun p => p.target ≠ rank := by
    rw [map_map]
    exact map_id _
  have hsplit : (Q.filter (fun p => p.target = rank) ++ Q.filter fun p => p.target ≠ rank).Perm
      Q := by
    have hperm := filter_append_perm (fun p : Piece ρ => decide (p.target = rank)) Q
    simpa using hperm
  rw [map_append, hsent, flatMap_append, flatMap_singleton, ← hQ]
  calc P ++ Q.filter (fun p => p.target = rank) ++
        (B.map MetaBulk.piece ++ Q.filter fun p => p.target ≠ rank)
      _ = P ++ (Q.filter (fun p => p.target = rank) ++ B.map MetaBulk.piece) ++
          Q.filter fun p => p.target ≠ rank := by simp only [append_assoc]
      List.Perm _ (P ++ (B.map MetaBulk.piece ++ Q.filter fun p => p.target = rank) ++
          Q.filter fun p => p.target ≠ rank) :=
        (perm_append_comm.append_left P).append_right _
      _ = (P ++ B.map MetaBulk.piece) ++ (Q.filter (fun p => p.target = rank) ++
          Q.filter fun p => p.target ≠ rank) := by simp only [append_assoc]
      List.Perm _ (S.flatMap (C.plan query σ) ++ Q) := h.append hsplit

/-! ## Each kind of step -/

/-- `obj_ids` has room for the objects each target has. -/
def IdsFit (C : Cluster ρ) (query : Query) : Prop :=
  ∀ s ∈ C.targets query, (C.own query s).length ≤ C.capacity query s

/-- What a step leads to: the run goes on, or there are too many objects. -/
def Continues (C : Cluster ρ) (query : Query) (getOp : GetOp) (σ : Storage ρ)
    (w : QueryWorld ρ) : Prop :=
  (∃ S P, Tracks C query getOp σ S P w) ∨ w.undefined = true ∧ ¬ IdsFit C query

theorem wellFormed_planned (hb : b ∈ C.planned query σ s) :
    b.origin = C.home b.objId ∧ b.target ≠ b.origin ∧ b.cnt = b.regions.length := by
  obtain ⟨p, hp, rfl⟩ := mem_map.mp hb
  rw [mem_filter, decide_eq_true_eq] at hp
  exact ⟨(Cluster.pieceOf hp.1).home.symm, hp.2, rfl⟩

/-- When a piece makes a target distribute its own objects. -/
theorem trigger_iff {nb : Neighbours} (hmsg : ⟨rank, nb⟩ ∈ sendDataQuery C.size query)
    (htarget : rank ∈ C.targets query) (hne : rank ≠ C.manager query) (origin : Nat) :
    ((origin : Int) = nb.prev ∨ nb.prev = -1) ↔ C.Follows query origin rank := by
  obtain ⟨a, before, after, ha⟩ := Cluster.exists_follows htarget hne
  have hprev : nb.prev = a := prev_of_follows hmsg ha
  refine ⟨fun h => ?_, fun h => ?_⟩
  · have heq : origin = a := by omega
    exact ⟨before, after, heq ▸ ha⟩
  · obtain ⟨before', after', h⟩ := h
    exact .inl (prev_of_follows hmsg h).symm

theorem Tracks.pieceOf_bulk (h : Tracks C query getOp σ S P w) (hb : b ∈ w.bulks) :
    PieceOf C query σ b.origin b.piece := by
  have hmem : b.piece ∈ S.flatMap (C.plan query σ) :=
    h.perm.mem_iff.mp (mem_append_right _ (mem_map_of_mem hb))
  obtain ⟨s, -, hp⟩ := mem_flatMap.mp hmem
  have hpiece := Cluster.pieceOf hp
  have horigin : b.origin = s := (h.bulks b hb).1.trans hpiece.home
  rwa [horigin]

theorem Tracks.perm_receive (h : Tracks C query getOp σ S P w) (hi : w.bulks[i]? = some b) :
    (P ++ [b.piece] ++ (w.bulks.eraseIdx i).map MetaBulk.piece).Perm
      (S.flatMap (C.plan query σ)) := by
  refine List.Perm.trans ?_ h.perm
  rw [append_assoc]
  exact ((perm_eraseIdx hi).map MetaBulk.piece).append_left P

theorem held_singleton_of_ne (h : s ≠ p.target) (o : UInt64) :
    held [p] s o = [] :=
  held_eq_nil (fun q hq => by rw [mem_singleton.mp hq]; exact Ne.symm h) o

theorem Tracks.receive (h : Tracks C query getOp σ S P w) (hi : w.bulks[i]? = some b)
    (evaluated reports : List Nat)
    (hnext : C.Follows query b.origin b.target → b.target ∈ S)
    (hserver : ServerTracks C query getOp σ b.target (b.target ∈ S) (w.Handled C b.target)
      (fun o => held P b.target o ++ held [b.piece] b.target o) server) :
    Tracks C query getOp σ S (P ++ [b.piece]) { w with
      servers := Function.update w.servers b.target server
      bulks := w.bulks.eraseIdx i
      evaluated := evaluated
      reports := reports } := by
  refine h.update .keep h.defined rfl (h.perm_receive hi)
    (fun b' hb' => .inl (mem_of_mem_eraseIdx hb')) (Sublist.refl _) (fun _ _ => Iff.rfl)
    (h.handled _) h.first (fun hmem hnot => absurd hmem hnot) (subset_append_left _ _)
    (fun p hp hfollows => ?_) (fun s hne => funext fun o => ?_) ?_
  · rcases mem_append.mp hp with hp | hp
    · exact .inl hp
    · rw [mem_singleton] at hp
      subst hp
      exact .inr (hnext ((h.bulks b (mem_of_getElem? hi)).1 ▸ hfollows))
  · rw [held_append, held_singleton_of_ne hne, append_nil]
  · exact hserver.congr Iff.rfl Iff.rfl fun o => (held_append _ _ _ _).symm

theorem target_of_mem_filter (h : p ∈ Q.filter fun p => p.target = rank) : p.target = rank :=
  of_decide_eq_true (mem_filter.mp h).2

theorem held_filter_of_ne (h : s ≠ rank) (o : UInt64) :
    held (Q.filter fun p => p.target = rank) s o = [] :=
  held_eq_nil (fun _ hp heq => h (heq.symm.trans (target_of_mem_filter hp))) o

section

variable (h : Tracks C query getOp σ S P w)
include h

/-- The first piece from the target before comes, and the server distributes its
objects. -/
theorem Tracks.receiveSpread (hi : w.bulks[i]? = some b)
    (evaluated reports : List Nat) (hnew : b.target ∉ S)
    (hfollows : C.Follows query b.origin b.target) (hfits : (C.own query b.target).length ≤ C.size)
    (hhandled : w.Handled C b.target)
    (hserver : ServerTracks C query getOp σ b.target True True (fun o => held P b.target o ++ held
      [b.piece] b.target o ++ held ((C.plan query σ b.target).filter fun p => p.target =
      b.target) b.target o) server) :
    Tracks C query getOp σ (S ++ [b.target]) (P ++ [b.piece] ++
      (C.plan query σ b.target).filter fun p => p.target = b.target) { w with
      servers := Function.update w.servers b.target server
      bulks := w.bulks.eraseIdx i ++ C.planned query σ b.target
      evaluated := evaluated
      reports := reports } := by
  have hb : b ∈ w.bulks := mem_of_getElem? hi
  have hne : C.manager query ≠ b.target := Ne.symm (h.pieceOf_bulk hb).ne_manager
  have hmem : b.target ∈ S ++ [b.target] := mem_append_right _ (mem_singleton.mpr rfl)
  refine h.update (.add hnew hfollows.mem ?_) h.defined rfl (perm_spread (h.perm_receive hi) rfl)
    (fun b' hb' => ?_) (Sublist.refl _) (fun _ _ => Iff.rfl) (fun _ => hhandled) ?_
    (fun _ _ _ => ⟨b.piece, by simp, rfl, (h.bulks b hb).1 ▸ hfollows⟩) ?_ (fun p hp _ => ?_)
    (fun s hsne => funext fun o => ?_) ?_
  · rw [Cluster.capacity, if_neg hne.symm]
    exact hfits
  · rcases mem_append.mp hb' with hb' | hb'
    · exact .inl (mem_of_mem_eraseIdx hb')
    · exact .inr (wellFormed_planned hb')
  · refine Iff.trans ?_ h.first
    simp [hne]
  · rw [append_assoc]
    exact subset_append_left _ _
  · rcases mem_append.mp hp with hp | hp
    · rcases mem_append.mp hp with hp | hp
      · exact .inl hp
      · rw [mem_singleton.mp hp]
        exact .inr hmem
    · rw [target_of_mem_filter hp]
      exact .inr hmem
  · rw [held_append, held_append, held_singleton_of_ne hsne, held_filter_of_ne hsne, append_nil,
      append_nil]
  · refine hserver.congr (by simp) (iff_of_true trivial hhandled) fun o => ?_
    rw [held_append, held_append]

/-- What the handler of a query does. -/
inductive QueryCase (C : Cluster ρ) (query : Query) (getOp : GetOp) (σ : Storage ρ)
    (w : QueryWorld ρ) (msg : QueryMessage) : QueryWorld ρ → Prop
  | other (hne : msg.serverId ≠ C.manager query) :
      QueryCase C query getOp σ w msg
        (evaluateAndReport w msg.serverId (w.servers msg.serverId)
          ((w.servers msg.serverId).learn C query getOp msg.neighbours))
  | manager (hm : msg.serverId = C.manager query)
      (hfits : (C.own query msg.serverId).length ≤ (C.targets query).length) :
      QueryCase C query getOp σ w msg
        { w.setServer msg.serverId { (w.servers msg.serverId).spread C query σ msg.serverId with
            task := some (((w.servers msg.serverId).learn C query getOp msg.neighbours).spread C
              query σ msg.serverId) } with
          bulks := w.bulks ++ C.planned query σ msg.serverId }
  | full (hm : msg.serverId = C.manager query)
      (hfits : ¬ (C.own query msg.serverId).length ≤ (C.targets query).length) :
      QueryCase C query getOp σ w msg { w with undefined := true }

theorem Tracks.not_mem_of_query (hi : w.queries[i]? = some msg) : msg.serverId ∉ S := fun hmem =>
  not_handled_of_getElem? hi (h.handled _ hmem)

theorem Tracks.queryCase (hi : w.queries[i]? = some msg) :
    QueryCase C query getOp σ { w with queries := w.queries.eraseIdx i } msg
      (recvDataQuery C query getOp { w with queries := w.queries.eraseIdx i } msg) := by
  have hrank := h.not_mem_of_query hi
  have hserver := h.servers msg.serverId
  have hzero := hserver.nSentServer_getD hrank
  rw [eq_false hrank] at hserver
  unfold recvDataQuery
  by_cases hm : msg.serverId = C.manager query
  · rw [if_pos hm, hserver.spreadOwn]
    · by_cases hfits : (C.own query msg.serverId).length ≤ (C.targets query).length
      · rw [if_pos hfits]
        exact .manager hm hfits
      · rw [if_neg hfits]
        exact .full hm hfits
    · rfl
    · exact hzero
  · rw [if_neg hm]
    exact .other hm

theorem Tracks.recvDataQuery (hi : w.queries[i]? = some msg) :
    Continues C query getOp σ
      (recvDataQuery C query getOp { w with queries := w.queries.eraseIdx i } msg) := by
  have hmsg := h.messages msg (mem_of_getElem? hi)
  have hrank := h.not_mem_of_query hi
  have hserver := h.servers msg.serverId
  have hsub : (w.queries.eraseIdx i).Sublist w.queries := eraseIdx_sublist _ _
  have hhandled : ∀ w' : QueryWorld ρ, w'.queries = w.queries.eraseIdx i → ∀ s,
      w'.Handled C s ↔ w.Handled C s ∨ s = msg.serverId :=
    fun w' hw' => h.handled_eraseIdx hi hw'
  have hcase := h.queryCase hi
  generalize Pdc.recvDataQuery C query getOp { w with queries := w.queries.eraseIdx i } msg = w'
    at hcase ⊢
  cases hcase with
  | other hm =>
    obtain ⟨done, evaluated, reports, heq⟩ := evaluateAndReport_eq
      { w with queries := w.queries.eraseIdx i } msg.serverId (w.servers msg.serverId)
      ((w.servers msg.serverId).learn C query getOp msg.neighbours)
    rw [heq]
    refine .inl ⟨S, P, h.update .keep h.defined rfl h.perm (fun b hb => .inl hb) hsub
      (fun s hne => (hhandled _ rfl s).trans (or_iff_left hne)) (fun hmem => absurd hmem hrank) ?_
      (fun hmem => absurd hmem hrank) (Subset.refl P) (fun p hp _ => .inl hp)
      (fun _ _ => rfl) ?_⟩
    · rw [hhandled _ rfl, h.first]
      exact (or_iff_left (Ne.symm hm)).symm
    · exact hserver.setTask (fun hmem => absurd hmem hrank)
        (fun hno => hserver.nSentServer_getD hno) (fun _ => ⟨rfl, rfl, rfl, hmsg⟩)
        fun hno => absurd ((hhandled _ rfl _).mpr (.inr rfl)) hno
  | manager hm hfits =>
    refine .inl ⟨S ++ [msg.serverId], P ++ (C.plan query σ msg.serverId).filter
      (fun p => p.target = msg.serverId), ?_⟩
    refine h.update (.add hrank (hm ▸ Cluster.manager_mem_targets) ?_) h.defined rfl
      (perm_spread h.perm rfl) (fun b hb => ?_) hsub
      (fun s hne => (hhandled _ rfl s).trans (or_iff_left hne))
      (fun _ => (hhandled _ rfl _).mpr (.inr rfl)) ?_ (fun _ _ hne => absurd hm hne)
      (subset_append_left _ _) (fun p hp _ => ?_) (fun s hne => funext fun o => ?_) ?_
    · rw [Cluster.capacity, if_pos hm]
      exact hfits
    · rcases mem_append.mp hb with hb | hb
      · exact .inl hb
      · exact .inr (wellFormed_planned hb)
    · rw [hhandled _ rfl, hm]
      simp
    · rcases mem_append.mp hp with hp | hp
      · exact .inl hp
      · rw [target_of_mem_filter hp]
        exact .inr (mem_append_right _ (mem_singleton.mpr rfl))
    · rw [held_append, held_filter_of_ne hne, append_nil]
    · rw [eq_false hrank] at hserver
      exact (hserver.spreadOut rfl rfl rfl hmsg rfl).congr (by simp)
        (iff_of_true trivial ((hhandled _ rfl _).mpr (.inr rfl)))
        fun o => (held_append _ _ _ _).symm
  | full hm hfits =>
    refine .inr ⟨rfl, fun hall => hfits ?_⟩
    have hcap := hall msg.serverId (hm ▸ Cluster.manager_mem_targets)
    rwa [Cluster.capacity, if_pos hm] at hcap

end

/-- What the handler of a message with regions does. -/
inductive BulkCase (C : Cluster ρ) (query : Query) (σ : Storage ρ) (S : List Nat)
    (w : QueryWorld ρ) (b : MetaBulk ρ) : QueryWorld ρ → Prop
  | early (hnot : ¬ w.Handled C b.target)
      (hquery : ((w.servers b.target).task.getD {}).query = none) :
      BulkCase C query σ S w b (evaluateAndReport w b.target
        ((w.servers b.target).receive b.piece) ((w.servers b.target).task.getD {}))
  | keep (hhandled : w.Handled C b.target) (t : DistTask)
      (htask : (w.servers b.target).task = some t)
      (hnext : C.Follows query b.origin b.target → b.target ∈ S) :
      BulkCase C query σ S w b (evaluateAndReport w b.target
        ((w.servers b.target).receive b.piece) (t.attach b.objId))
  | spread (hhandled : w.Handled C b.target) (t : DistTask)
      (htask : (w.servers b.target).task = some t) (hnew : b.target ∉ S)
      (hfollows : C.Follows query b.origin b.target)
      (hfits : (C.own query b.target).length ≤ C.size) :
      BulkCase C query σ S w b (evaluateAndReport
        { w with bulks := w.bulks ++ C.planned query σ b.target } b.target
        (((w.servers b.target).receive b.piece).spread C query σ b.target)
        ((t.attach b.objId).spread C query σ b.target))
  | full (htarget : b.target ∈ C.targets query)
      (hfits : ¬ (C.own query b.target).length ≤ C.size) :
      BulkCase C query σ S w b { w with undefined := true }

theorem recvQueryMetadataBulk_eq (hpos : b.cnt ≠ 0) (hcnt : b.cnt = b.regions.length)
    (htask : (w.servers b.target).task = some t) (hquery : t.query = some query) :
    recvQueryMetadataBulk C w b =
      if (b.origin : Int) = t.neighbours.prev ∨ t.neighbours.prev = -1 then
        match spreadOwn C b.target C.size query ((w.servers b.target).receive b.piece)
            (t.attach b.objId) with
        | none => { w with undefined := true }
        | some (server, task, sent) =>
          evaluateAndReport { w with bulks := w.bulks ++ sent } b.target server task
      else evaluateAndReport w b.target ((w.servers b.target).receive b.piece)
        (t.attach b.objId) := by
  cases t with
  | mk q manager getOp nb nSent nRecv attached isDone =>
    subst hquery
    have hget : (w.servers b.target).task.getD {} =
        ⟨some query, manager, getOp, nb, nSent, nRecv, attached, isDone⟩ := by
      rw [htask, Option.getD_some]
    unfold recvQueryMetadataBulk
    simp only [if_neg hpos, hget]
    rw [hcnt, take_length]
    rfl

theorem bulkCase {has : UInt64 → List (Piece ρ)}
    (hserver : ServerTracks C query getOp σ b.target (b.target ∈ S) (w.Handled C b.target) has
      (w.servers b.target))
    (hS : b.target ∈ S → (C.own query b.target).length ≤ C.size)
    (hmanager : b.target ≠ C.manager query) (hpos : b.cnt ≠ 0) (hcnt : b.cnt = b.regions.length) :
    BulkCase C query σ S w b (recvQueryMetadataBulk C w b) := by
  by_cases hhandled : w.Handled C b.target
  · obtain ⟨t, htask, hquery, htm, hgetOp, hmsg⟩ := hserver.known hhandled
    have hlt := hserver.nSentServer_lt htask
    rw [recvQueryMetadataBulk_eq hpos hcnt htask hquery]
    -- If there is nothing left to distribute, the message is all there is.
    have hagain : (C.own query b.target).length ≤ C.size →
        (∀ o ∈ C.own query b.target, (w.servers b.target).distributed o = true) →
        (C.own query b.target ≠ [] → t.nSentServer ≠ 0) →
        spreadOwn C b.target C.size query ((w.servers b.target).receive b.piece)
          (t.attach b.objId) = some ((w.servers b.target).receive b.piece, t.attach b.objId, []) :=
      fun hfits hflags hne => spreadOwn_again hfits hflags hlt hne
    by_cases htarget : b.target ∈ C.targets query
    · have htrigger := trigger_iff hmsg htarget hmanager b.origin
      by_cases hfollows : C.Follows query b.origin b.target
      · rw [if_pos (htrigger.mpr hfollows)]
        by_cases hmem : b.target ∈ S
        · rw [hagain (hS hmem) (fun o ho => (hserver.flags o).mpr (.inr ⟨hmem, ho⟩)) fun hne => by
            rw [hserver.sent hmem t htask]
            exact Nat.pos_iff_ne_zero.mp (C.sentAfter_pos _ _ hne)]
          simp only [append_nil]
          exact .keep hhandled t htask fun _ => hmem
        · have hzero : (t.attach b.objId).nSentServer = 0 := hserver.unsent hmem t htask
          have hattach : (t.attach b.objId).manager = C.manager query := htm
          have hreceive := hserver.receive b.piece rfl
          rw [eq_false hmem] at hreceive
          rw [hreceive.spreadOwn hattach hzero]
          by_cases hfits : (C.own query b.target).length ≤ C.size
          · rw [if_pos hfits]
            exact .spread hhandled t htask hmem hfollows hfits
          · rw [if_neg hfits]
            exact .full htarget hfits
      · rw [if_neg (mt htrigger.mp hfollows)]
        exact .keep hhandled t htask fun hyes => absurd hyes hfollows
    · have hnever : ¬ C.Follows query b.origin b.target := fun hyes => htarget hyes.mem
      have hown := Cluster.own_eq_nil htarget
      split
      · rw [hagain (by rw [hown]; exact Nat.zero_le _)
          (by rw [hown]; exact fun o ho => absurd ho not_mem_nil)
          (fun hne => absurd hown hne)]
        simp only [append_nil]
        exact .keep hhandled t htask fun hyes => absurd hyes hnever
      · exact .keep hhandled t htask fun hyes => absurd hyes hnever
  · have hnone : ((w.servers b.target).task.getD {}).query = none := by
      cases htask : (w.servers b.target).task with
      | none => rfl
      | some t => exact hserver.unknown hhandled t htask
    unfold recvQueryMetadataBulk
    simp only [if_neg hpos, hnone]
    rw [hcnt, take_length]
    exact .early hhandled hnone

theorem Tracks.bulkCase (h : Tracks C query getOp σ S P w) (hi : w.bulks[i]? = some b) :
    BulkCase C query σ S { w with bulks := w.bulks.eraseIdx i } b
      (recvQueryMetadataBulk C { w with bulks := w.bulks.eraseIdx i } b) := by
  have hb : b ∈ w.bulks := mem_of_getElem? hi
  have hpiece := h.pieceOf_bulk hb
  have hmanager : b.target ≠ C.manager query := hpiece.ne_manager
  have hcnt := (h.bulks b hb).2.2
  refine Pdc.bulkCase (h.servers b.target) (fun hmem => ?_) hmanager (fun hzero => ?_) hcnt
  · have hfits := h.fits _ hmem
    rwa [Cluster.capacity, if_neg hmanager] at hfits
  · rw [hcnt] at hzero
    exact hpiece.ne_nil (length_eq_zero_iff.mp hzero)

theorem Tracks.recvQueryMetadataBulk (h : Tracks C query getOp σ S P w) (hi : w.bulks[i]? = some b)
    (hcond : C.Follows query b.origin b.target → w.Handled C b.target) :
    Continues C query getOp σ
      (recvQueryMetadataBulk C { w with bulks := w.bulks.eraseIdx i } b) := by
  have hserver := h.servers b.target
  have hreceive := hserver.receive b.piece rfl
  have hcase := h.bulkCase hi
  generalize Pdc.recvQueryMetadataBulk C { w with bulks := w.bulks.eraseIdx i } b = w' at hcase ⊢
  cases hcase with
  | early hnot hnone =>
    obtain ⟨done, evaluated, reports, heq⟩ := evaluateAndReport_eq
      { w with bulks := w.bulks.eraseIdx i } b.target ((w.servers b.target).receive b.piece)
      ((w.servers b.target).task.getD {})
    have hS : b.target ∉ S := fun hmem => hnot (h.handled _ hmem)
    rw [heq]
    refine .inl ⟨S, _, h.receive hi _ _ (fun hyes => absurd (hcond hyes) hnot) ?_⟩
    exact hreceive.setTask (fun hs => absurd hs hS) (fun _ => hserver.nSentServer_getD hS)
      (fun hyes => absurd hyes hnot) fun _ => hnone
  | keep hhandled t htask hnext =>
    obtain ⟨done, evaluated, reports, heq⟩ := evaluateAndReport_eq
      { w with bulks := w.bulks.eraseIdx i } b.target ((w.servers b.target).receive b.piece)
      (t.attach b.objId)
    have hknown := hserver.known_of hhandled htask
    rw [heq]
    refine .inl ⟨S, _, h.receive hi _ _ hnext ?_⟩
    exact hreceive.setTask (fun hs => hserver.sent hs t htask)
      (fun hs => hserver.unsent hs t htask) (fun _ => hknown) fun hno => absurd hhandled hno
  | spread hhandled t htask hnew hfollows hfits =>
    obtain ⟨done, evaluated, reports, heq⟩ := evaluateAndReport_eq
      { w with bulks := w.bulks.eraseIdx i ++ C.planned query σ b.target } b.target
      (((w.servers b.target).receive b.piece).spread C query σ b.target)
      ((t.attach b.objId).spread C query σ b.target)
    obtain ⟨hquery, hmanager, hgetOp, hmsg⟩ := hserver.known_of hhandled htask
    rw [eq_false hnew] at hreceive
    rw [heq]
    exact .inl ⟨_, _, h.receiveSpread hi _ _ hnew hfollows hfits hhandled
      (hreceive.spreadOut hquery hmanager hgetOp hmsg rfl)⟩
  | full htarget hfits =>
    refine .inr ⟨rfl, fun hall => hfits ?_⟩
    have hcap := hall b.target htarget
    have hmanager : b.target ≠ C.manager query :=
      (h.pieceOf_bulk (mem_of_getElem? hi)).ne_manager
    rwa [Cluster.capacity, if_neg hmanager] at hcap

theorem Tracks.recvReport (h : Tracks C query getOp σ S P w) (reports : List Nat) :
    Tracks C query getOp σ S P (recvReport C query getOp { w with reports := reports }) := by
  have hserver := h.servers (C.manager query)
  have hkeep : ∀ (answered : List Nat) (server : DistServer ρ),
      ServerTracks C query getOp σ (C.manager query) (C.manager query ∈ S)
        (w.Handled C (C.manager query)) (held P (C.manager query)) server →
      Tracks C query getOp σ S P { w with
        servers := Function.update w.servers (C.manager query) server
        reports := reports
        answered := answered } := by
    intro answered server hchanged
    exact h.update .keep h.defined rfl h.perm (fun b hb => .inl hb) (Sublist.refl _)
      (fun _ _ => Iff.rfl) (h.handled _) h.first (fun hmem hnot => absurd hmem hnot)
      (Subset.refl P) (fun p hp _ => .inl hp) (fun _ _ => rfl) hchanged
  unfold Pdc.recvReport
  simp only
  split
  · have hsame := hkeep w.answered _ hserver
    rwa [Function.update_eq_self] at hsame
  · refine hkeep _ _ (hserver.setTask (fun hmem => ?_) (fun hnot => hserver.nSentServer_getD hnot)
      (fun hyes => ?_) fun hno => ?_)
    · obtain ⟨t, ht, -⟩ := hserver.known (h.handled _ hmem)
      simp only [ht, Option.getD_some]
      exact hserver.sent hmem t ht
    · obtain ⟨t, ht, hknown⟩ := hserver.known hyes
      simp only [ht, Option.getD_some]
      exact hknown
    · cases ht : (w.servers (C.manager query)).task with
      | none => rfl
      | some t => exact hserver.unknown hno t ht

end Pdc
