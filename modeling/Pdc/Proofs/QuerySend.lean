import Pdc.Client.QuerySend
import Pdc.Proofs.QueryXfer
import Mathlib.Data.List.Nodup

/-!
# The targets of a query and their neighbours

Each server's metadata puts it into the list of targets once. The search for a
server's neighbours resets them at every target it passes over, so every target
but the first gets the right ones, and every other server gets none. The first
target is found at once, and nothing is reset. It gets what the round before has
left: no neighbours, if the server before it is not a target.
-/

namespace Pdc

open List

variable {size : Nat} {query : Query} {targets before after : List Nat} {s t : Nat}
  {msg : QueryMessage}

/-! ## Targets -/

theorem mem_getServerFromQuery (size : Nat) (query : Query) (servers : List Nat) :
    s ∈ getServerFromQuery size query servers ↔
      s ∈ servers ∨ ∃ c ∈ query.leaves, getServerByObjId c.objId size = s := by
  induction query generalizing servers with
  | leaf c =>
    simp only [getServerFromQuery, QueryTree.leaves, mem_singleton, exists_eq_left]
    split
    · next hmem => exact ⟨.inl, fun h => h.elim id fun heq => heq ▸ hmem⟩
    · simp [eq_comm]
  | node op left right ihl ihr =>
    simp only [getServerFromQuery, QueryTree.leaves, mem_append, ihr, ihl, or_assoc,
      or_and_right, exists_or]

theorem nodup_getServerFromQuery (query : Query) {servers : List Nat} (h : servers.Nodup) :
    (getServerFromQuery size query servers).Nodup := by
  induction query generalizing servers with
  | leaf c =>
    simp only [getServerFromQuery]
    split
    · exact h
    · next hnot =>
      refine nodup_append.mpr ⟨h, nodup_singleton _, fun a ha b hb hab => ?_⟩
      exact hnot (mem_singleton.mp hb ▸ hab ▸ ha)
  | node op left right ihl ihr => exact ihr (ihl h)

theorem leaves_ne_nil (query : Query) : query.leaves ≠ [] := by
  induction query with
  | leaf c => exact cons_ne_nil _ _
  | node op left right ihl _ => simp [QueryTree.leaves, ihl]

theorem getServerByObjId_lt (objId : UInt64) (h : 0 < size) : getServerByObjId objId size < size :=
  Nat.mod_lt _ h

theorem notMem_before (h : (before ++ s :: after).Nodup) : s ∉ before := fun hmem =>
  (nodup_append.mp h).2.2 _ hmem _ mem_cons_self rfl

/-! ## Neighbours -/

theorem scanTargets_of_notMem (h : s ∉ targets) (hne : targets ≠ []) (prior : Option Nat)
    (nb : Neighbours) : scanTargets s prior targets nb = ⟨-1, -1⟩ := by
  induction targets generalizing prior nb with
  | nil => exact absurd rfl hne
  | cons a rest ih =>
    rw [mem_cons, not_or] at h
    rw [scanTargets, if_neg h.1]
    cases rest with
    | nil => rfl
    | cons b rest => exact ih h.2 (cons_ne_nil b rest) _ _

theorem scanTargets_self (prior : Option Nat) (nb : Neighbours) :
    scanTargets s prior (s :: after) nb =
      ⟨(prior.map Int.ofNat).getD nb.prev, (after.head?.map Int.ofNat).getD nb.next⟩ := by
  rw [scanTargets, if_pos rfl]

/-- Whatever the round before has left, a later target gets its own neighbours. -/
theorem scanTargets_append (h : s ∉ before ++ [t]) (prior : Option Nat) (nb : Neighbours) :
    scanTargets s prior (before ++ t :: s :: after) nb =
      ⟨t, (after.head?.map Int.ofNat).getD (-1)⟩ := by
  induction before generalizing prior nb with
  | nil =>
    have hne : s ≠ t := by simpa using h
    rw [nil_append, scanTargets, if_neg hne, scanTargets_self]
    rfl
  | cons a before ih =>
    rw [cons_append, mem_cons, not_or] at h
    rw [cons_append, scanTargets, if_neg h.1]
    exact ih h.2 _ _

theorem sendToServers_append (targets servers rest : List Nat) (nb : Neighbours) :
    sendToServers targets (servers ++ rest) nb =
      sendToServers targets servers nb ++ sendToServers targets rest
        (servers.foldl (fun nb s => scanTargets s none targets nb) nb) := by
  induction servers generalizing nb with
  | nil => rfl
  | cons s servers ih =>
    simp only [cons_append, sendToServers, foldl_cons, ih]

/-- What the rounds before the one for server `s` leave. -/
def neighboursBefore (targets : List Nat) (s : Nat) : Neighbours :=
  (List.range s).foldl (fun nb s => scanTargets s none targets nb) ⟨0, 0⟩

theorem neighboursBefore_succ (targets : List Nat) (s : Nat) :
    neighboursBefore targets (s + 1) = scanTargets s none targets (neighboursBefore targets s) := by
  rw [neighboursBefore, range_succ, foldl_append]
  rfl

theorem sendToServers_range (targets : List Nat) (n : Nat) :
    sendToServers targets (range n) ⟨0, 0⟩ =
      (range n).map fun s => ⟨s, scanTargets s none targets (neighboursBefore targets s)⟩ := by
  induction n with
  | zero => rfl
  | succ n ih =>
    rw [range_succ, sendToServers_append, ih, map_append]
    rfl

theorem sendDataQuery_eq (size : Nat) (query : Query) :
    sendDataQuery size query = (range size).map fun s =>
      ⟨s, scanTargets s none (getServerFromQuery size query [])
        (neighboursBefore (getServerFromQuery size query []) s)⟩ :=
  sendToServers_range _ _

theorem map_serverId_sendDataQuery (size : Nat) (query : Query) :
    (sendDataQuery size query).map QueryMessage.serverId = range size := by
  rw [sendDataQuery_eq, map_map]
  exact map_id _

theorem mem_sendDataQuery :
    msg ∈ sendDataQuery size query ↔ msg.serverId < size ∧
      msg.neighbours = scanTargets msg.serverId none (getServerFromQuery size query [])
        (neighboursBefore (getServerFromQuery size query []) msg.serverId) := by
  rw [sendDataQuery_eq, mem_map]
  refine ⟨fun h => ?_, fun h => ⟨msg.serverId, mem_range.mpr h.1, ?_⟩⟩
  · obtain ⟨s, hs, rfl⟩ := h
    exact ⟨mem_range.mp hs, rfl⟩
  · rw [← h.2]

theorem prev_of_follows (hmsg : msg ∈ sendDataQuery size query)
    (h : getServerFromQuery size query [] = before ++ t :: msg.serverId :: after) :
    msg.neighbours.prev = t := by
  have hnodup : (getServerFromQuery size query []).Nodup :=
    nodup_getServerFromQuery query nodup_nil
  have hnot : msg.serverId ∉ before ++ [t] := by
    rw [h, append_cons] at hnodup
    exact notMem_before hnodup
  rw [(mem_sendDataQuery.mp hmsg).2, h, scanTargets_append hnot]

/-- A target before one in the list, or -1. -/
def neighbourOf (target : Option Nat) : Int := (target.map Int.ofNat).getD (-1)

/-- Each target is sent its neighbours in the list. -/
def NeighboursSent (size : Nat) (query : Query) : Prop :=
  ∀ before s after, getServerFromQuery size query [] = before ++ s :: after →
    ⟨s, ⟨neighbourOf before.getLast?, neighbourOf after.head?⟩⟩ ∈ sendDataQuery size query

theorem neighboursSent_iff (hsize : 0 < size) {first : Nat} {rest : List Nat}
    (htargets : getServerFromQuery size query [] = first :: rest) :
    NeighboursSent size query ↔ 0 < first ∧ first - 1 ∉ getServerFromQuery size query [] := by
  have hnodup : (getServerFromQuery size query []).Nodup :=
    nodup_getServerFromQuery query nodup_nil
  have hlt : ∀ s ∈ getServerFromQuery size query [], s < size := by
    intro s hs
    rw [mem_getServerFromQuery] at hs
    obtain ⟨c, -, rfl⟩ := hs.resolve_left not_mem_nil
    exact getServerByObjId_lt _ hsize
  refine ⟨fun h => ?_, fun h before s after heq => ?_⟩
  · have hfirst := (mem_sendDataQuery.mp (h [] first rest htargets)).2
    simp only [htargets, scanTargets_self, Option.map_none, Option.getD_none,
      getLast?_nil, neighbourOf, Neighbours.mk.injEq] at hfirst
    rw [htargets] at hnodup ⊢
    cases first with
    | zero =>
      have hzero : (-1 : Int) = 0 := hfirst.1
      omega
    | succ p =>
      refine ⟨p.succ_pos, fun hmem => ?_⟩
      -- The server before is a later target, and leaves its own neighbour.
      have hmem' : p ∈ rest := (mem_cons.mp hmem).resolve_left (by omega)
      obtain ⟨as, bs, hsplit⟩ := append_of_mem hmem'
      obtain ⟨before, t, hbefore⟩ : ∃ before t, (p + 1) :: as = before ++ [t] :=
        ⟨_, _, (dropLast_append_getLast (cons_ne_nil (p + 1) as)).symm⟩
      have hall : (p + 1) :: rest = before ++ t :: p :: bs := by
        rw [hsplit, ← cons_append, hbefore, append_assoc]
        rfl
      have hprev : (neighboursBefore ((p + 1) :: rest) (p + 1)).prev = t := by
        rw [hall, append_cons] at hnodup
        rw [neighboursBefore_succ, hall, scanTargets_append (notMem_before hnodup)]
      have := hfirst.1
      omega
  · have hs : s < size := hlt s (heq ▸ by simp)
    rw [mem_sendDataQuery]
    refine ⟨hs, ?_⟩
    rcases eq_nil_or_concat before with rfl | ⟨before, t, rfl⟩
    · -- The first target, with what the server before it has left.
      obtain ⟨rfl, rfl⟩ := cons.inj (htargets.symm.trans heq)
      have hreset : neighboursBefore (first :: rest) first = ⟨-1, -1⟩ := by
        rw [← Nat.succ_pred_eq_of_pos h.1, neighboursBefore_succ, Nat.succ_pred_eq_of_pos h.1]
        exact scanTargets_of_notMem (htargets ▸ h.2) (cons_ne_nil _ _) _ _
      simp only [htargets, hreset, scanTargets_self]
      rfl
    · rw [concat_eq_append] at heq ⊢
      rw [append_assoc] at heq
      have hnot : s ∉ before ++ [t] := by
        rw [heq, ← append_assoc] at hnodup
        exact notMem_before hnodup
      simp only [heq, singleton_append, scanTargets_append hnot, getLast?_append,
        getLast?_singleton]
      rfl

end Pdc
