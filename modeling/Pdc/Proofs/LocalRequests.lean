import Mathlib.Data.List.GetD
import Pdc.Client.LocalRequests
import Pdc.Lib.Run

/-!
# The list of an object's requests

The list should hold the ids that were attached and not removed since, in the
order they were attached, with the count and the two pointers to match.

Attaching keeps all of that. Removing takes the node out of the chain and
adjusts the pointer to the first node, but never the pointer to the last one.
When the last of several nodes is removed, `local_transfer_request_end` keeps
pointing to the node that was freed, and the next attachment writes there. Apart
from that the list is always right.
-/

namespace Pdc

open List Lib Function Option

/-! ## The list -/

/-- The nodes the object's list is made of, from the first to the last. -/
structure ObjRequests.Holds (p : ObjRequests) (nodes : List (Nat × UInt64)) : Prop where
  chain : Seg p.heap p.localTransferRequestHead nodes none
  size_eq : p.localTransferRequestSize = nodes.length
  end_eq : nodes ≠ [] → p.localTransferRequestEnd = nodes.getLast?.map Prod.fst

/-- The calls, an attachment with the address `malloc` returns. -/
inductive RequestOp where
  | attach (addr : Nat) (transferRequestId : UInt64)
  | remove (transferRequestId : UInt64)

variable {id : UInt64} {fuel addr : Nat} {hist : List RequestOp}
  {s : Option ObjRequests × List UInt64}

def liveIds (ids : List UInt64) : RequestOp → List UInt64
  | .attach _ id => ids ++ [id]
  | .remove id => ids.erase id

/-- The object's list and the ids it should hold, after a call. -/
def attachedStep (fuel : Nat) (s : Option ObjRequests × List UInt64) (op : RequestOp) :
    Option ObjRequests × List UInt64 :=
  (s.1.bind fun p =>
    match op with
    | .attach addr id => attachLocalTransferRequest p addr id
    | .remove id => removeLocalTransferRequest fuel p id,
  liveIds s.2 op)

/-- The object's list is the list of the live ids. -/
def RequestsIntact (s : Option ObjRequests × List UInt64) : Prop :=
  ∃ p nodes, s.1 = some p ∧ p.Holds nodes ∧ nodes.map Prod.snd = s.2

/-- The first request with the id is the last of several. -/
def RemovesLast (id : UInt64) (ids : List UInt64) : Prop :=
  2 ≤ ids.length ∧ ids.idxOf id + 1 = ids.length

instance RemovesLast.decidable (id : UInt64) (ids : List UInt64) : Decidable (RemovesLast id ids) :=
  inferInstanceAs (Decidable (_ ∧ _))

/-- What a call asks of the requests before it. -/
def RequestOp.Ok (s : Option ObjRequests × List UInt64) : RequestOp → Prop
  | .attach _ _ => True
  | .remove id => ¬ RemovesLast id s.2

/-- What `malloc` promises: the address is not one of an allocated node. -/
def RequestOp.Fresh (s : Option ObjRequests × List UInt64) : RequestOp → Prop
  | .attach addr _ => ∀ p, s.1 = some p → p.heap addr = none
  | .remove _ => True

section

variable {p : ObjRequests} {nodes xs ys : List (Nat × UInt64)}

/-! ## Attaching -/

theorem ObjRequests.Holds.attach (h : p.Holds nodes) (hnodup : (nodes.map Prod.fst).Nodup)
    (haddr : p.heap addr = none) (id : UInt64) :
    ∃ p', attachLocalTransferRequest p addr id = some p' ∧ p'.Holds (nodes ++ [(addr, id)]) := by
  have hchain := h.chain
  have hsize := h.size_eq
  rcases eq_nil_or_concat nodes with rfl | ⟨xs, ⟨l, v⟩, rfl⟩
  · have hhead : p.localTransferRequestHead = none := hchain
    rw [attachLocalTransferRequest]
    simp only [hhead]
    refine ⟨_, rfl, ⟨rfl, none, by simp, rfl⟩, by simp [hsize], by simp⟩
  · rw [concat_eq_append] at h hnodup hchain hsize ⊢
    have hend : p.localTransferRequestEnd = some l := by simpa using h.end_eq (by simp)
    obtain ⟨r, hxs, rfl, next, hcell, rfl⟩ := seg_append.mp hchain
    have hladdr : l ≠ addr := by
      rintro rfl
      rw [haddr] at hcell
      cases hcell
    have haddrxs : addr ∉ xs.map Prod.fst := fun hmem => hxs.cell_ne_none hmem haddr
    have hlxs : l ∉ xs.map Prod.fst := by
      rw [map_append, nodup_append] at hnodup
      exact fun hmem => hnodup.2.2 l hmem l (by simp) rfl
    obtain ⟨first, hhead⟩ : ∃ first, p.localTransferRequestHead = some first := by
      cases xs with
      | nil => exact ⟨l, hxs⟩
      | cons x xs => exact ⟨x.1, hxs.1⟩
    rw [attachLocalTransferRequest]
    simp only [hhead, hend, bind_eq_bind, bind_some,
      update_of_ne hladdr, hcell]
    refine ⟨_, rfl, ?_, by simp [hsize, Int.add_assoc], by simp⟩
    rw [append_assoc]
    refine seg_append.mpr ⟨some l, ?_, rfl, some addr, ?_, rfl, none, by simp, rfl⟩
    · dsimp only
      rw [Seg.update_iff haddrxs, Seg.update_iff hlxs, Seg.update_iff haddrxs, ← hhead]
      exact hxs
    · dsimp only
      rw [update_of_ne hladdr, update_self]

/-! ## Removing -/

theorem removeLoop_skip (k : Nat) {previous temp temp' : Option Nat} (h : Seg p.heap temp xs temp')
    (hid : id ∉ xs.map Prod.snd) :
    removeLoop p id (xs.length + k) previous temp =
      removeLoop p id k ((xs.getLast?.map Prod.fst).or previous) temp' := by
  induction xs generalizing previous temp with
  | nil =>
    obtain rfl : temp = temp' := h
    simp
  | cons x xs ih =>
    obtain ⟨a, v⟩ := x
    obtain ⟨rfl, next, hcell, hrest⟩ := h
    rw [map_cons, mem_cons, not_or] at hid
    rw [length_cons, Nat.add_right_comm, removeLoop]
    simp only [hcell, bind_eq_bind, bind_some, if_neg (Ne.symm hid.1)]
    rw [ih hrest hid.2, getLast?_cons]
    cases hlast : xs.getLast? <;> simp

theorem ObjRequests.Holds.remove_of_notMem (h : p.Holds nodes) (hfuel : nodes.length < fuel)
    (hid : id ∉ nodes.map Prod.snd) : removeLocalTransferRequest fuel p id = some p := by
  obtain ⟨k, rfl⟩ := Nat.exists_eq_add_of_lt hfuel
  rw [removeLocalTransferRequest, Nat.add_assoc, removeLoop_skip (k + 1) h.chain hid]
  rfl

/-- The first node with the id is taken out of the chain. The pointer to the
last node stays as it is. -/
theorem removeLocalTransferRequest_spec {a : Nat}
    (h : Seg p.heap p.localTransferRequestHead (xs ++ (a, id) :: ys) none)
    (hnodup : ((xs ++ (a, id) :: ys).map Prod.fst).Nodup) (hid : id ∉ xs.map Prod.snd)
    (hfuel : xs.length < fuel) :
    ∃ p', removeLocalTransferRequest fuel p id = some p' ∧
      Seg p'.heap p'.localTransferRequestHead (xs ++ ys) none ∧
      p'.localTransferRequestSize = p.localTransferRequestSize - 1 ∧
      p'.localTransferRequestEnd = p.localTransferRequestEnd := by
  obtain ⟨k, rfl⟩ := Nat.exists_eq_add_of_lt hfuel
  obtain ⟨r, hxs, rfl, next, hcell, hys⟩ := seg_append.mp h
  rw [map_append, map_cons, nodup_append, nodup_cons] at hnodup
  obtain ⟨hnodupxs, ⟨hays, -⟩, hapart⟩ := hnodup
  have haxs : a ∉ xs.map Prod.fst := fun hmem => hapart a hmem a (by simp) rfl
  rw [removeLocalTransferRequest, Nat.add_assoc, removeLoop_skip (k + 1) hxs hid, removeLoop]
  rcases eq_nil_or_concat xs with rfl | ⟨front, ⟨q, w⟩, rfl⟩
  · have hhead : p.localTransferRequestHead = some a := hxs
    simp only [hcell, hhead, getLast?_nil, map_none, or_none,
      bind_eq_bind, bind_some, if_true]
    refine ⟨_, rfl, ?_, rfl, rfl⟩
    exact (Seg.update_iff hays).mpr hys
  · rw [concat_eq_append] at hxs haxs hnodupxs hapart ⊢
    obtain ⟨r, hfront, rfl, next', hcell', hnext'⟩ := seg_append.mp hxs
    rw [map_append, nodup_append] at hnodupxs
    have hqa : q ≠ a := fun heq => haxs (by simp [heq])
    have hqfront : q ∉ front.map Prod.fst := fun hmem => hnodupxs.2.2 q hmem q (by simp) rfl
    have hafront : a ∉ front.map Prod.fst := fun hmem => haxs (by
      rw [map_append]; exact mem_append_left _ hmem)
    have hqys : q ∉ ys.map Prod.fst := fun hmem =>
      hapart q (by simp) q (mem_cons_of_mem _ hmem) rfl
    simp only [hcell, hcell', getLast?_append, getLast?_singleton, some_or,
      map_some, bind_eq_bind, bind_some, if_true]
    refine ⟨_, rfl, ?_, rfl, rfl⟩
    dsimp only
    rw [append_assoc]
    refine seg_append.mpr ⟨some q, ?_, rfl, next, ?_, ?_⟩
    · rw [Seg.update_iff hafront, Seg.update_iff hqfront]
      exact hfront
    · rw [update_of_ne hqa, update_self]
    · exact (Seg.update_iff hays).mpr ((Seg.update_iff hqys).mpr hys)

theorem exists_first_node (h : id ∈ nodes.map Prod.snd) :
    ∃ xs a ys, nodes = xs ++ (a, id) :: ys ∧ id ∉ xs.map Prod.snd := by
  induction nodes with
  | nil => cases h
  | cons x nodes ih =>
    obtain ⟨b, v⟩ := x
    by_cases hv : id = v
    · subst hv
      exact ⟨[], b, nodes, rfl, by simp⟩
    · obtain ⟨xs, a, ys, rfl, hid⟩ := ih (by simpa [hv] using h)
      exact ⟨(b, v) :: xs, a, ys, rfl, by simpa [hv] using hid⟩

theorem removesLast_iff {front back : List UInt64} (h : id ∉ front) :
    RemovesLast id (front ++ id :: back) ↔ back = [] ∧ front ≠ [] := by
  have hidx : (front ++ id :: back).idxOf id = front.length := by
    rw [idxOf_append_of_notMem h, idxOf_cons_self, Nat.add_zero]
  rw [RemovesLast, ← length_eq_zero_iff, ← length_pos_iff_ne_nil]
  simp only [length_append, length_cons]
  omega

theorem ObjRequests.Holds.end_of_tail (h : p.Holds (xs ++ ys)) (hys : ys ≠ []) :
    p.localTransferRequestEnd = ys.getLast?.map Prod.fst := by
  rw [h.end_eq (by simp [hys]), getLast?_append]
  cases hlast : ys.getLast? with
  | none => exact absurd (getLast?_eq_none_iff.mp hlast) hys
  | some y => rfl

end

/-! ## Runs -/

/-- The list is intact and its nodes are as many as calls can have attached. -/
def RequestsInv (hist : List RequestOp) (s : Option ObjRequests × List UInt64) : Prop :=
  ∃ p nodes, s.1 = some p ∧ p.Holds nodes ∧ nodes.map Prod.snd = s.2 ∧
    (nodes.map Prod.fst).Nodup ∧ nodes.length ≤ hist.length

theorem RequestsInv.attach (h : RequestsInv hist s) (hfresh : RequestOp.Fresh s (.attach addr id)) :
    RequestsInv (hist ++ [.attach addr id]) (attachedStep fuel s (.attach addr id)) := by
  obtain ⟨p, nodes, hs, hholds, hids, hnodup, hlen⟩ := h
  have haddr := hfresh p hs
  obtain ⟨p', hattach, hholds'⟩ := hholds.attach hnodup haddr id
  refine ⟨p', nodes ++ [(addr, id)], ?_, hholds', ?_, ?_, by simp; omega⟩
  · rw [attachedStep, hs]
    exact hattach
  · simp [attachedStep, liveIds, hids]
  · rw [map_append]
    refine nodup_append.mpr ⟨hnodup, nodup_singleton _, ?_⟩
    intro a ha b hb
    obtain rfl : b = addr := by simpa using hb
    rintro rfl
    exact hholds.chain.cell_ne_none ha haddr

theorem RequestsInv.remove (h : RequestsInv hist s) (hfuel : hist.length < fuel) :
    (RequestsIntact (attachedStep fuel s (.remove id)) → ¬ RemovesLast id s.2) ∧
      (¬ RemovesLast id s.2 →
        RequestsInv (hist ++ [.remove id]) (attachedStep fuel s (.remove id))) := by
  obtain ⟨p, nodes, hs, hholds, hids, hnodup, hlen⟩ := h
  have hstep : attachedStep fuel s (.remove id) =
      (removeLocalTransferRequest fuel p id, s.2.erase id) := by
    rw [attachedStep, hs]
    rfl
  by_cases hid : id ∈ nodes.map Prod.snd
  · obtain ⟨xs, a, ys, rfl, hxs⟩ := exists_first_node hid
    have hrounds : xs.length < fuel := by
      rw [length_append] at hlen
      omega
    obtain ⟨p', hremove, hchain, hsize, hend⟩ :=
      removeLocalTransferRequest_spec hholds.chain hnodup hxs hrounds
    rw [map_append, map_cons] at hids
    rw [hstep, hremove, ← hids, erase_append_right _ hxs, erase_cons_head,
      removesLast_iff hxs, ← map_append]
    have hsize' : p'.localTransferRequestSize = (xs ++ ys).length := by
      rw [hsize, hholds.size_eq]
      simp
      omega
    have hnodup' : ((xs ++ ys).map Prod.fst).Nodup := by
      refine hnodup.sublist ?_
      exact ((sublist_cons_self _ _).append_left xs).map Prod.fst
    have hold : p.localTransferRequestEnd = ((a, id) :: ys).getLast?.map Prod.fst :=
      hholds.end_of_tail (by simp)
    constructor
    · rintro ⟨p'', nodes', hp'', hintact, -⟩ ⟨hys, hxs'⟩
      obtain rfl : p' = p'' := some.inj hp''
      -- The pointer still leads to the node that was removed.
      obtain rfl : nodes' = xs ++ ys := hintact.chain.unique hchain
      rw [map_eq_nil_iff] at hys
      subst hys
      have hne : xs ≠ [] := fun hnil => hxs' (by simp [hnil])
      have hlast := hintact.end_eq (by simpa using hne)
      rw [hend, hold] at hlast
      have hmem : a ∈ xs.map Prod.fst := by
        have ha : xs.getLast?.map Prod.fst = some a := by simpa using hlast.symm
        obtain ⟨x, hx, rfl⟩ := map_eq_some_iff.mp ha
        exact mem_map_of_mem (mem_of_getLast? hx)
      rw [map_append, nodup_append] at hnodup
      exact hnodup.2.2 a hmem a (by simp) rfl
    · intro hok
      refine ⟨p', xs ++ ys, rfl, ⟨hchain, hsize', fun hne => ?_⟩, rfl, hnodup', ?_⟩
      · rw [hend, hold]
        have hys : ys ≠ [] := by
          intro hnil
          refine hok ⟨by rw [hnil]; rfl, fun hxs' => ?_⟩
          rw [map_eq_nil_iff] at hxs'
          exact hne (by rw [hnil, hxs']; rfl)
        rw [getLast?_append, getLast?_cons]
        cases hlast : ys.getLast? with
        | none => exact absurd (getLast?_eq_none_iff.mp hlast) hys
        | some y => rfl
      · simp only [length_append, length_cons] at hlen ⊢
        omega
  · have hremove := hholds.remove_of_notMem (by omega : nodes.length < fuel) hid
    rw [hstep, hremove, ← hids, erase_of_not_mem hid]
    refine ⟨fun _ hlast => ?_, fun _ => ⟨p, nodes, rfl, hholds, rfl, hnodup, by simp; omega⟩⟩
    have hidx := idxOf_of_notMem hid
    have := hlast.2
    omega

/-- The list of an object's requests is right at every moment of a run exactly
when no call removes the last of several requests. -/
theorem requestsIntact_iff (fuel : Nat) (ops : List RequestOp) (hfuel : ops.length ≤ fuel)
    (hmalloc : Along (attachedStep fuel) RequestOp.Fresh (some .empty, []) ops) :
    (∀ pre, pre <+: ops → RequestsIntact (run (attachedStep fuel) (some .empty, []) pre)) ↔
      Along (attachedStep fuel) RequestOp.Ok (some .empty, []) ops := by
  refine Along.forall_isPrefix_iff_of_invariant (I := RequestsInv)
    ⟨.empty, [], rfl, ⟨rfl, rfl, fun h => absurd rfl h⟩, rfl, nodup_nil, by simp⟩ ?_ ?_
  · rintro pre - ⟨p, nodes, hs, hholds, hids, -, -⟩
    exact ⟨p, nodes, hs, hholds, hids⟩
  · intro pre op post heq hinv
    rw [heq, Along.append] at hmalloc
    cases op with
    | attach addr id => exact ⟨fun _ => trivial, fun _ => hinv.attach hmalloc.2.1⟩
    | remove id =>
      refine hinv.remove ?_
      rw [heq, length_append, length_cons] at hfuel
      omega

/-- Two requests are attached and the first one is waited for first. -/
theorem requestsIntact_in_order :
    RequestsIntact (run (attachedStep 4) (some .empty, [])
      [.attach 10 1, .attach 20 2, .remove 1, .attach 10 3]) :=
  (requestsIntact_iff 4 [.attach 10 1, .attach 20 2, .remove 1, .attach 10 3] (by decide)
    ⟨fun p h => by cases h; rfl, fun p h => by cases h; rfl, trivial,
      fun p h => by cases h; rfl, trivial⟩).mpr
    ⟨trivial, trivial, (by decide : ¬ RemovesLast 1 [1, 2]), trivial, trivial⟩ _
    (prefix_refl _)

/-- Two requests are attached and the second one is waited for first. The next
attachment uses the node that was freed. -/
theorem not_requestsIntact_last_first :
    ¬ RequestsIntact (run (attachedStep 4) (some .empty, [])
      [.attach 10 1, .attach 20 2, .remove 2]) ∧
    (run (attachedStep 4) (some .empty, [])
      [.attach 10 1, .attach 20 2, .remove 2, .attach 30 3]).1.isNone = true := by
  refine ⟨?_, rfl⟩
  rintro ⟨p, nodes, hs, hholds, hids⟩
  have hend : some (some 20) = some p.localTransferRequestEnd :=
    congrArg (Option.map ObjRequests.localTransferRequestEnd) hs
  have hhead : some (some 10) = some p.localTransferRequestHead :=
    congrArg (Option.map ObjRequests.localTransferRequestHead) hs
  have hone : nodes.map Prod.snd = [1] := hids
  obtain ⟨⟨a, v⟩, rfl⟩ : ∃ node, nodes = [node] :=
    length_eq_one_iff.mp (by simpa using congrArg List.length hone)
  have hlast : p.localTransferRequestEnd = some a := hholds.end_eq (by simp)
  have hfirst : p.localTransferRequestHead = some a := hholds.chain.1
  rw [hlast] at hend
  rw [hfirst, ← hend] at hhead
  exact absurd hhead (by simp)

end Pdc
