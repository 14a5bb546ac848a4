import Mathlib.Algebra.Group.Nat.Defs
import Pdc.Lib.Run
import Pdc.Server.RequestIds

/-!
# Batches of ids under every interleaving

A client knows the first id of its batch and counts on from there, so the ids of
a batch must be consecutive, and no id may be given out twice. Both hold when the
registrations of one handler are not interleaved with those of another, which is
what the lock was for: a handler that starts finds no other one between its first
and its last access to the counter.

They hold only then. The first handler that starts while another one is at work
loads the id the other one is about to register, or has to register next for its
batch to be consecutive, so that in the end both have it.
-/

namespace Pdc

open List Lib Function

/-! ## What should hold -/

/-- The ids are those the clients derive, and no two requests have the same. -/
structure BatchIdsAgree (s : IdServer) : Prop where
  client : ∀ (k : Nat) (id : UInt64), (s.handlers k).ids[0]? = some id →
    (s.handlers k).ids = clientIds id (s.handlers k).ids.length
  distinct : ∀ (k i k' j : Nat) (id : UInt64), (s.handlers k).ids[i]? = some id →
    (s.handlers k').ids[j]? = some id → k = k' ∧ i = j

/-- The handler has made its first access and not its last. -/
def IdHandler.Active (h : IdHandler) : Prop :=
  (h.ids ≠ [] ∨ h.pc ≠ .idle) ∧ h.ids.length < h.nObjs

instance IdHandler.Active.decidable (h : IdHandler) : Decidable h.Active :=
  inferInstanceAs (Decidable (_ ∧ _))

/-- The next access of the handler is its first. -/
def IdHandler.Starts (h : IdHandler) : Prop :=
  h.ids = [] ∧ h.pc = .idle ∧ 0 < h.nObjs

/-- A handler that starts is alone. -/
def StartsAlone (s : IdServer) (k : Nat) : Prop :=
  (s.handlers k).Starts → ∀ j, j ≠ k → ¬ (s.handlers j).Active

/-! ## A step -/

section

variable {s : IdServer} {k j : Nat} {c : UInt64} {h h' : IdHandler} {hist sched : List Nat}

/-- A handler after its next access to a counter. -/
def IdHandler.access (c : UInt64) (h : IdHandler) : IdHandler :=
  if h.ids.length < h.nObjs then
    match h.pc with
    | .idle => { h with pc := .loaded c }
    | .loaded r => { h with pc := .incremented r c }
    | .incremented r _ => { h with ids := h.ids ++ [r], pc := .idle }
  else h

theorem registerStep_handlers (s : IdServer) (k : Nat) : (registerStep s k).handlers =
    update s.handlers k ((s.handlers k).access s.transferRequestIdG) := by
  rw [registerStep, IdHandler.access]
  split
  · cases (s.handlers k).pc <;> rfl
  · exact (update_eq_self ..).symm

theorem registerStep_counter (s : IdServer) (k : Nat) :
    ((s.handlers k).ids.length < (s.handlers k).nObjs ∧ ∃ r t,
      (s.handlers k).pc = .incremented r t ∧ (registerStep s k).transferRequestIdG = t + 1) ∨
    ((registerStep s k).transferRequestIdG = s.transferRequestIdG ∧
      ((s.handlers k).access s.transferRequestIdG).ids = (s.handlers k).ids) := by
  rw [registerStep, IdHandler.access]
  by_cases hlen : (s.handlers k).ids.length < (s.handlers k).nObjs
  · cases hpc : (s.handlers k).pc with
    | incremented r t => simp [hlen, IdServer.setHandler]
    | _ => simp [hlen, IdServer.setHandler]
  · simp [hlen]

/-! ## Runs without overlap -/

/-- The ids of a handler are a block, and a handler at work is about to register
the value of the counter, with which the block goes on. -/
structure IdHandler.Ok (c : UInt64) (h : IdHandler) : Prop where
  block : ∃ first, h.ids = clientIds first h.ids.length ∧
    (h.Active → first + UInt64.ofNat h.ids.length = c)
  lt_counter : ∀ id ∈ h.ids, id.toNat < c.toNat
  pc : h.pc = .idle ∨ h.pc = .loaded c ∨ h.pc = .incremented c c
  busy : h.pc ≠ .idle → h.ids.length < h.nObjs

theorem clientIds_succ (first : UInt64) (n : Nat) :
    clientIds first (n + 1) = clientIds first n ++ [first + UInt64.ofNat n] := by
  rw [clientIds, clientIds, range_succ, map_append, map_singleton]

theorem IdHandler.Ok.active_of_pc (hok : h.Ok c) (hpc : h.pc ≠ .idle) : h.Active :=
  ⟨.inr hpc, hok.busy hpc⟩

theorem IdHandler.Ok.of_not_active {c' : UInt64} (hok : h.Ok c) (hidle : ¬ h.Active)
    (hle : c.toNat ≤ c'.toNat) : h.Ok c' := by
  obtain ⟨first, hfirst, -⟩ := hok.block
  refine ⟨⟨first, hfirst, fun hactive => absurd hactive hidle⟩, fun id hid => ?_, .inl ?_, hok.busy⟩
  · exact Nat.lt_of_lt_of_le (hok.lt_counter id hid) hle
  · by_contra hpc
    exact hidle (hok.active_of_pc hpc)

theorem IdHandler.Ok.next_id (hok : h.Ok c) (hlen : h.ids.length < h.nObjs) :
    ∃ first, h.ids = clientIds first h.ids.length ∧ first + UInt64.ofNat h.ids.length = c := by
  by_cases hids : h.ids = []
  · exact ⟨c, by simp [hids, clientIds], by simp [hids]⟩
  · obtain ⟨first, hfirst, hnext⟩ := hok.block
    exact ⟨first, hfirst, hnext ⟨.inl hids, hlen⟩⟩

theorem IdHandler.Ok.access (hok : h.Ok c) (hids : (h.access c).ids = h.ids) :
    (h.access c).Ok c := by
  by_cases hlen : h.ids.length < h.nObjs
  · have hobjs : (h.access c).nObjs = h.nObjs := by
      rw [IdHandler.access, if_pos hlen]
      split <;> rfl
    obtain ⟨first, hfirst, hnext⟩ := hok.next_id hlen
    refine ⟨⟨first, by rw [hids, ← hfirst], fun _ => by rw [hids, hnext]⟩, ?_, ?_, fun _ => ?_⟩
    · rw [hids]
      exact hok.lt_counter
    · rcases hok.pc with hpc | hpc | hpc <;> simp [IdHandler.access, hlen, hpc]
    · rw [hids, hobjs]
      exact hlen
  · rw [IdHandler.access, if_neg hlen]
    exact hok

theorem IdHandler.Ok.register (hok : h.Ok c) (hlen : h.ids.length < h.nObjs)
    (hsucc : (c + 1).toNat = c.toNat + 1) :
    IdHandler.Ok (c + 1) { h with ids := h.ids ++ [c], pc := .idle } := by
  obtain ⟨first, hfirst, hnext⟩ := hok.next_id hlen
  refine ⟨⟨first, ?_, fun _ => ?_⟩, fun id hid => ?_, .inl rfl, fun hpc => absurd rfl hpc⟩
  · simp only [length_append, length_singleton, clientIds_succ, hnext]
    rw [← hfirst]
  · simp only [length_append, length_singleton, UInt64.ofNat_add, ← UInt64.add_assoc, hnext]
    rfl
  · rcases mem_append.mp hid with hold | hnew
    · have := hok.lt_counter id hold
      omega
    · rw [mem_singleton.mp hnew]
      omega

/-- All ids so far are right, and there is at most one handler at work. -/
structure IdInv (hist : List Nat) (s : IdServer) : Prop where
  ok : ∀ k, (s.handlers k).Ok s.transferRequestIdG
  distinct : ∀ (k i k' j : Nat) (id : UInt64), (s.handlers k).ids[i]? = some id →
    (s.handlers k').ids[j]? = some id → k = k' ∧ i = j
  single : ∀ k j, (s.handlers k).Active → (s.handlers j).Active → k = j
  counter_le : s.transferRequestIdG.toNat ≤ hist.length + 1

theorem IdInv.init (sizes : Nat → Nat) : IdInv [] (IdServer.init sizes) := by
  refine ⟨fun k => ⟨⟨1, ?_⟩, ?_, .inl rfl, ?_⟩, ?_, ?_, ?_⟩ <;>
    simp [IdServer.init, IdHandler.Active, clientIds]

theorem IdInv.agree (hinv : IdInv hist s) : BatchIdsAgree s where
  client k id hid := by
    obtain ⟨first, hfirst, -⟩ := (hinv.ok k).block
    have hpos : 0 < (s.handlers k).ids.length := (List.getElem?_eq_some_iff.mp hid).1
    rw [hfirst, clientIds, getElem?_map, getElem?_range hpos] at hid
    obtain rfl : first = id := by simpa using hid
    exact hfirst
  distinct := hinv.distinct

theorem IdInv.step (hinv : IdInv hist s) (hstarts : StartsAlone s k)
    (hbound : s.transferRequestIdG.toNat + 1 < 2 ^ 64) :
    IdInv (hist ++ [k]) (registerStep s k) := by
  have hcounter : hist.length + 1 ≤ (hist ++ [k]).length := by simp
  have hle := hinv.counter_le
  rcases registerStep_counter s k with ⟨hlen, r, t, hpc, hc⟩ | ⟨hc, hids⟩
  · -- A registration: all other handlers are idle, and the new id is above all others.
    obtain ⟨rfl, rfl⟩ : r = s.transferRequestIdG ∧ t = s.transferRequestIdG := by
      simpa [hpc] using (hinv.ok k).pc
    have halone : ∀ j, j ≠ k → ¬ (s.handlers j).Active := fun j hjk hj =>
      hjk (hinv.single j k hj ((hinv.ok k).active_of_pc (by simp [hpc])))
    have hsucc : (s.transferRequestIdG + 1).toNat = s.transferRequestIdG.toNat + 1 := by
      exact Nat.mod_eq_of_lt hbound
    have hnew : ∀ (j i : Nat), (s.handlers j).ids[i]? ≠ some s.transferRequestIdG :=
      fun j i hid => absurd ((hinv.ok j).lt_counter _ (mem_of_getElem? hid)) (by simp)
    have hself : (s.handlers k).access s.transferRequestIdG = { s.handlers k with
        ids := (s.handlers k).ids ++ [s.transferRequestIdG], pc := .idle } := by
      simp [IdHandler.access, hlen, hpc]
    refine ⟨fun j => ?_, ?_, fun i j hi hj => ?_, by rw [hc, hsucc]; omega⟩
    · rw [registerStep_handlers, hc, hself]
      by_cases hjk : j = k
      · subst hjk
        rw [update_self]
        exact (hinv.ok j).register hlen hsucc
      · rw [update_of_ne hjk]
        exact (hinv.ok j).of_not_active (halone j hjk) (by omega)
    · simp only [registerStep_handlers, hself, update_apply]
      have := hinv.distinct
      grind
    · simp only [registerStep_handlers, update_apply] at hi hj
      grind
  · -- No id is registered, and the handler is the only one at work.
    have halone : (s.handlers k).ids.length < (s.handlers k).nObjs →
        ∀ j, j ≠ k → ¬ (s.handlers j).Active := by
      intro hlen j hjk hj
      by_cases hactive : (s.handlers k).Active
      · exact hjk (hinv.single j k hj hactive)
      · simp only [IdHandler.Active, not_and_or, not_or, not_not] at hactive
        have hidle := hactive.resolve_right (not_not.mpr hlen)
        exact hstarts ⟨hidle.1, hidle.2, by omega⟩ j hjk hj
    have hsame : ∀ j, ((registerStep s k).handlers j).ids = (s.handlers j).ids := by
      intro j
      rw [registerStep_handlers, update_apply]
      split
      · next hjk => rw [hids, hjk]
      · rfl
    refine ⟨fun j => ?_, ?_, fun i j hi hj => ?_, by rw [hc]; omega⟩
    · rw [registerStep_handlers, hc, update_apply]
      split
      · exact (hinv.ok k).access hids
      · exact hinv.ok j
    · simp only [hsame]
      exact hinv.distinct
    · have := hinv.single
      simp only [registerStep_handlers, update_apply] at hi hj
      by_cases hlen : (s.handlers k).ids.length < (s.handlers k).nObjs
      · grind
      · simp only [IdHandler.access, if_neg hlen] at hi hj
        grind

/-! ## Overlap -/

/-- The ids a handler has registered or is about to. -/
def IdHandler.promised (h : IdHandler) : List UInt64 :=
  match h.pc with
  | .idle => h.ids
  | .loaded r => h.ids ++ [r]
  | .incremented r _ => h.ids ++ [r]

/-- Nothing a handler has registered or loaded is lost, and as long as it is not
between registrations it has one to make. -/
structure IdHandler.Grows (h h' : IdHandler) : Prop where
  promised : h.promised <+: h'.promised
  nObjs : h'.nObjs = h.nObjs
  busy : (h.pc ≠ .idle → h.ids.length < h.nObjs) → h'.pc ≠ .idle → h'.ids.length < h'.nObjs

theorem IdHandler.grows_access (c : UInt64) (h : IdHandler) : h.Grows (h.access c) := by
  rw [IdHandler.access]
  split
  · next hlen => cases hpc : h.pc <;> constructor <;> simp [IdHandler.promised, hpc, hlen]
  · exact ⟨prefix_refl _, rfl, id⟩

theorem grows_run (s : IdServer) (j : Nat) (sched : List Nat) :
    (s.handlers j).Grows ((run registerStep s sched).handlers j) := by
  induction sched generalizing s with
  | nil => exact ⟨prefix_refl _, rfl, id⟩
  | cons k sched ih =>
    have hstep : (s.handlers j).Grows ((registerStep s k).handlers j) := by
      rw [registerStep_handlers, update_apply]
      split
      · next hjk => exact hjk ▸ IdHandler.grows_access _ _
      · exact ⟨prefix_refl _, rfl, id⟩
    have hrest := ih (registerStep s k)
    exact ⟨hstep.promised.trans hrest.promised, hrest.nObjs.trans hstep.nObjs,
      hrest.busy ∘ hstep.busy⟩

theorem IdHandler.Ok.promised_head (hok : h.Ok c) (hactive : h.Active) :
    ∃ first, h.promised[0]? = some first ∧ first + UInt64.ofNat h.ids.length = c := by
  obtain ⟨first, hfirst, hnext⟩ := hok.next_id hactive.2
  refine ⟨first, ?_, hnext⟩
  cases hids : h.ids with
  | nil =>
    have hpc := hactive.1.resolve_left (not_not.mpr hids)
    rw [hids] at hnext
    obtain rfl : first = c := by simpa using hnext
    rcases hok.pc with hidle | hload | hinc
    · exact absurd hidle hpc
    · simp [promised, hload, hids]
    · simp [promised, hinc, hids]
  | cons id ids =>
    obtain rfl : id = first := by
      rw [hids, length_cons, clientIds, range_succ_eq_map, map_cons, List.cons.injEq] at hfirst
      simpa using hfirst.1
    cases hpc : h.pc <;> simp [promised, hpc, hids]

theorem IdHandler.Grows.ids_head {c : UInt64} (hgrows : h.Grows h')
    (hbusy : h.pc ≠ .idle → h.ids.length < h.nObjs) (hid : h.promised[0]? = some c)
    (hdone : ¬ h'.Active) : h'.ids[0]? = some c ∧ h.nObjs ≤ h'.ids.length := by
  have hidle : h'.pc = .idle := by
    by_contra hpc
    exact hdone ⟨.inr hpc, hgrows.busy hbusy hpc⟩
  obtain ⟨more, hmore⟩ := hgrows.promised
  rw [show h'.promised = h'.ids by rw [IdHandler.promised, hidle]] at hmore
  have hhead : h'.ids[0]? = some c := by
    rw [← hmore, getElem?_append_left (List.getElem?_eq_some_iff.mp hid).1, hid]
  refine ⟨hhead, Nat.le_of_not_lt fun hlt => hdone ⟨.inl fun hnil => ?_, hgrows.nObjs ▸ hlt⟩⟩
  simp [hnil] at hhead

/-- A handler that starts while another is at work ends up with an id of the
other one, or the other one's batch is not consecutive. -/
theorem IdInv.not_agree_of_overlap (hinv : IdInv hist s) (hstarts : (s.handlers k).Starts)
    (hjk : j ≠ k) (hj : (s.handlers j).Active)
    (hdone : ∀ i, ¬ ((run registerStep (registerStep s k) sched).handlers i).Active) :
    ¬ BatchIdsAgree (run registerStep (registerStep s k) sched) := by
  intro hagree
  have hgrows := fun i => grows_run (registerStep s k) i sched
  -- The first id of the handler that starts is the value of the counter.
  have hself : (registerStep s k).handlers k =
      { s.handlers k with pc := .loaded s.transferRequestIdG } := by
    simp [registerStep_handlers, IdHandler.access, hstarts.1, hstarts.2.1, hstarts.2.2]
  obtain ⟨hk, -⟩ := (hgrows k).ids_head (c := s.transferRequestIdG)
    (by simp [hself, hstarts.1, hstarts.2.2]) (by simp [hself, IdHandler.promised, hstarts.1])
    (hdone k)
  -- In the block of the handler at work that value comes next.
  have hother : (registerStep s k).handlers j = s.handlers j := by
    rw [registerStep_handlers, update_of_ne hjk]
  obtain ⟨first, hfirst, hnext⟩ := (hinv.ok j).promised_head hj
  have hgrowsJ := hgrows j
  rw [hother] at hgrowsJ
  obtain ⟨hhead, hobjs⟩ := hgrowsJ.ids_head (hinv.ok j).busy hfirst (hdone j)
  have hnth : ((run registerStep (registerStep s k) sched).handlers j).ids[
      (s.handlers j).ids.length]? = some s.transferRequestIdG := by
    rw [hagree.client j first hhead, clientIds, getElem?_map,
      getElem?_range (Nat.lt_of_lt_of_le hj.2 hobjs), Option.map_some, hnext]
  exact hjk (hagree.distinct j _ k 0 _ hnth hk).1

theorem IdInv.along_of_agree (hinv : IdInv hist s) (hlen : hist.length + sched.length + 1 < 2 ^ 64)
    (hdone : ∀ k, ¬ ((run registerStep s sched).handlers k).Active)
    (hagree : BatchIdsAgree (run registerStep s sched)) :
    Along registerStep StartsAlone s sched := by
  induction sched generalizing hist s with
  | nil => trivial
  | cons k sched ih =>
    have halone : StartsAlone s k := by
      intro hstarts j hjk hj
      exact hinv.not_agree_of_overlap hstarts hjk hj hdone hagree
    have hle := hinv.counter_le
    rw [length_cons] at hlen
    refine ⟨halone, ih (hinv.step halone (by omega)) ?_ hdone hagree⟩
    rw [length_append, length_singleton]
    omega

end

/-- Under an interleaving at the end of which all handlers are done, clients and
server agree on all ids at every moment exactly when no handler starts while
another one is at work. -/
theorem batchIdsAgree_iff (sizes : Nat → Nat) (sched : List Nat) (hlen : sched.length + 1 < 2 ^ 64)
    (hdone : ∀ k, ¬ ((run registerStep (IdServer.init sizes) sched).handlers k).Active) :
    (∀ pre, pre <+: sched → BatchIdsAgree (run registerStep (IdServer.init sizes) pre)) ↔
      Along registerStep StartsAlone (IdServer.init sizes) sched := by
  constructor
  · intro hall
    exact (IdInv.init sizes).along_of_agree (by simpa using hlen) hdone (hall sched (prefix_refl _))
  · rintro halong pre ⟨post, rfl⟩
    rw [Along.append] at halong
    -- As long as the counter has not come to its end, the invariant holds.
    have hinv := Along.invariant_nil (I := fun hist s => hist.length + 1 < 2 ^ 64 → IdInv hist s)
      (fun hist s k hI halone hbound => by
        rw [length_append, length_singleton] at hbound
        have h := hI (by omega)
        have hle := h.counter_le
        exact h.step halone (by omega))
      (fun _ => IdInv.init sizes) halong.1
    rw [length_append] at hlen
    exact (hinv (by omega)).agree

def twoBatches : Nat → Nat
  | 0 => 2
  | 1 => 1
  | _ => 0

theorem twoBatches_not_active (pre : List Nat)
    (h : ∀ j < 2, ¬ ((run registerStep (IdServer.init twoBatches) pre).handlers j).Active)
    (j : Nat) :
    ¬ ((run registerStep (IdServer.init twoBatches) pre).handlers j).Active := by
  rcases Nat.lt_or_ge j 2 with hj | hj
  · exact h j hj
  · intro hactive
    have hsize := hactive.2
    rw [(grows_run (IdServer.init twoBatches) j pre).nObjs] at hsize
    obtain ⟨i, rfl⟩ := Nat.exists_eq_add_of_le' hj
    exact absurd hsize (by simp [IdServer.init, twoBatches])

theorem twoBatches_startsAlone (pre : List Nat) (k : Nat)
    (h : ∀ j < 2, j ≠ k → ¬ ((run registerStep (IdServer.init twoBatches) pre).handlers j).Active) :
    StartsAlone (run registerStep (IdServer.init twoBatches) pre) k := by
  intro hstarts j hjk
  refine twoBatches_not_active pre (fun i hi => ?_) j
  by_cases hik : i = k
  · rintro ⟨hids | hpc, -⟩
    · exact hids (hik ▸ hstarts.1)
    · exact hpc (hik ▸ hstarts.2.1)
  · exact h i hi hik

/-- The batch and the single request, one after the other. -/
theorem batchIdsAgree_one_by_one :
    BatchIdsAgree (run registerStep (IdServer.init twoBatches) [0, 0, 0, 0, 0, 0, 1, 1, 1]) :=
  (batchIdsAgree_iff twoBatches [0, 0, 0, 0, 0, 0, 1, 1, 1] (by decide)
    (twoBatches_not_active _ (by decide))).mpr
    ⟨twoBatches_startsAlone [] 0 (by decide), twoBatches_startsAlone [0] 0 (by decide),
      twoBatches_startsAlone [0, 0] 0 (by decide), twoBatches_startsAlone [0, 0, 0] 0 (by decide),
      twoBatches_startsAlone [0, 0, 0, 0] 0 (by decide),
      twoBatches_startsAlone [0, 0, 0, 0, 0] 0 (by decide),
      twoBatches_startsAlone [0, 0, 0, 0, 0, 0] 1 (by decide),
      twoBatches_startsAlone [0, 0, 0, 0, 0, 0, 1] 1 (by decide),
      twoBatches_startsAlone [0, 0, 0, 0, 0, 0, 1, 1] 1 (by decide), trivial⟩
    _ (prefix_refl _)

/-- The single request is handled between the two registrations of the batch: the
batch has the ids 1 and 3, and the client takes it to have 1 and 2. -/
theorem not_batchIdsAgree_interleaved :
    ((run registerStep (IdServer.init twoBatches) [0, 0, 0, 1, 1, 1, 0, 0, 0]).handlers 0).ids =
      [1, 3] ∧
    ¬ BatchIdsAgree (run registerStep (IdServer.init twoBatches) [0, 0, 0, 1, 1, 1, 0, 0, 0]) :=
  ⟨by decide, fun h => absurd (h.client 0 1 (by decide)) (by decide)⟩

end Pdc
