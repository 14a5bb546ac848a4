import Pdc.Server.RegionLock
import Pdc.Lib.Run

/-!
# When region locks exclude one another

The server answers all waiting requests for a region when it is released, and
puts none of them into the list of locks. So two clients that wait when the
region is released are both told that they have it; or one waits and gets it,
the server does not know that, and the next client to ask finds the region
free. Since the list of locks has regions only, a release by a client that does
not hold the region frees it as well.

`Recorded` says whose request put a region into the list. If only these clients
release, and only while nobody waits, the clients that hold a region are the one
the list was given it by.
-/

namespace Pdc

open Lib

variable {w : LockWorld} {ops : List LockOp} {c client : Nat} {o obj : UInt64}
  {r region : RegionInfo} {mode : LockMode}

/-- No region of an object is held by two clients. -/
def MutualExclusion (w : LockWorld) : Prop :=
  ∀ o r, ∀ a ∈ w.holders o r, ∀ b ∈ w.holders o r, a = b

def LockWorld.waiting (w : LockWorld) (o : UInt64) (r : RegionInfo) : List Nat :=
  ((w.locks o).lockRequestHead.filter fun elt => elt.1 = r).map Prod.snd

/-- The client's request put the region into the list of locks, and the region has
not been released since. -/
def Recorded (ops : List LockOp) (c : Nat) (o : UInt64) (r : RegionInfo) : Prop :=
  ∃ before mode after, ops = before ++ .lock c o r mode :: after ∧
    r ∉ ((run lockStep .start before).locks o).lockHead ∧ ∀ c', .release c' o r ∉ after

/-- A region in the list of locks is released by the client that it was put there for,
and while nobody waits for it. -/
def ReleasedByHolder (ops : List LockOp) : Prop :=
  ∀ before c o r, before ++ [.release c o r] <+: ops →
    r ∈ ((run lockStep .start before).locks o).lockHead →
    Recorded before c o r ∧ (run lockStep .start before).waiting o r = []

/-! ## The lists after a request -/

theorem filter_isSameRegionList_eq_nil {regions : List RegionInfo} :
    (regions.filter fun elt => isSameRegionList elt region) = [] ↔ region ∉ regions := by
  simp only [List.filter_eq_nil_iff, isSameRegionList_iff]
  exact ⟨fun h hmem => h region hmem rfl, fun h a ha har => h (har ▸ ha)⟩

theorem regionLock_granted {obj : RegionLocks} :
    (regionLock obj client region mode).2 = .now 1 ↔ region ∉ obj.lockHead := by
  simp only [regionLock, ← filter_isSameRegionList_eq_nil]
  split
  · next h => simp [h]
  · next h => cases mode <;> simp [h]

theorem mem_lockHead_regionLock {obj : RegionLocks} :
    r ∈ (regionLock obj client region mode).1.lockHead ↔ r ∈ obj.lockHead ∨ r = region := by
  simp only [regionLock]
  split
  · simp
  · next h =>
    have hmem : region ∈ obj.lockHead := by
      by_contra hno
      exact h (filter_isSameRegionList_eq_nil.mpr hno)
    cases mode <;> exact ⟨.inl, fun hr => hr.elim id fun hr => hr ▸ hmem⟩

theorem filter_lockRequestHead_regionLock {obj : RegionLocks} (hr : r ≠ region) :
    ((regionLock obj client region mode).1.lockRequestHead.filter fun elt => elt.1 = r) =
      obj.lockRequestHead.filter fun elt => elt.1 = r := by
  simp only [regionLock]
  split
  · rfl
  · cases mode with
    | block => simp [List.filter_append, hr.symm]
    | noBlock => rfl

theorem filter_lockRequestHead_released (obj : RegionLocks) :
    ((releaseLockRequest (regionRelease obj region) region).1.lockRequestHead.filter
      fun elt => elt.1 = r) =
      if r = region then [] else obj.lockRequestHead.filter fun elt => elt.1 = r := by
  have hkept (elt : RegionInfo × Nat) :
      (decide (elt.1 = r) && !isRegionIdentical region elt.1) = true ↔
        elt.1 = r ∧ r ≠ region := by
    simp only [Bool.and_eq_true, decide_eq_true_eq, Bool.not_eq_true', Bool.eq_false_iff, Ne,
      isRegionIdentical_iff]
    exact and_congr_right fun helt => by rw [helt, eq_comm]
  simp only [releaseLockRequest, regionRelease, List.filter_filter]
  split
  · next hr =>
    exact List.filter_eq_nil_iff.mpr fun elt _ helt => ((hkept elt).mp helt).2 hr
  · next hr =>
    refine List.filter_congr fun elt _ => ?_
    rw [Bool.eq_iff_iff, hkept, and_iff_left hr, decide_eq_true_eq]

theorem lockHead_nodup (ops : List LockOp) (o : UInt64) :
    ((run lockStep .start ops).locks o).lockHead.Nodup := by
  refine List.foldlRecOn ops _ (motive := fun w : LockWorld => (w.locks o).lockHead.Nodup)
    List.nodup_nil fun w h op _ => ?_
  cases op with
  | lock =>
    simp only [lockStep, LockWorld.setLocks, regionLock]
    grind [isSameRegionList_iff]
  | release =>
    simp only [lockStep, LockWorld.setLocks, releaseLockRequest, regionRelease]
    split
    · next heq => exact heq ▸ h.eraseP _
    · exact h

theorem regionRelease_lockHead (obj : RegionLocks) (r : RegionInfo) :
    (regionRelease obj r).lockHead = obj.lockHead.erase r := by
  have hsame : isRegionIdentical r = (r == ·) :=
    funext fun _ => Bool.eq_iff_iff.mpr (by simp)
  rw [regionRelease, List.erase_eq_eraseP, hsame]

theorem releaseLockRequest_answered (w : LockWorld) (o : UInt64) (r : RegionInfo) :
    (releaseLockRequest (regionRelease (w.locks o) r) r).2 = w.waiting o r := by
  have hsame : (fun elt : RegionInfo × Nat => isRegionIdentical r elt.1) =
      fun elt => decide (elt.1 = r) := by
    funext elt
    rw [Bool.eq_iff_iff, isRegionIdentical_iff, decide_eq_true_eq, eq_comm]
  simp only [releaseLockRequest, regionRelease, LockWorld.waiting, hsame]

/-! ## Who is recorded -/

theorem recorded_append_singleton {op : LockOp} :
    Recorded (ops ++ [op]) c o r ↔
      (Recorded ops c o r ∧ ∀ c', op ≠ .release c' o r) ∨
        ∃ mode, op = .lock c o r mode ∧ r ∉ ((run lockStep .start ops).locks o).lockHead := by
  constructor
  · rintro ⟨before, mode, after, heq, hfree, hafter⟩
    rcases append_singleton_eq_append_cons.mp heq with ⟨rfl, hop, _⟩ | ⟨after', rfl, rfl⟩
    · exact .inr ⟨mode, hop, hfree⟩
    · refine .inl ⟨⟨before, mode, after', rfl, hfree, fun c' h => hafter c' (by simp [h])⟩, ?_⟩
      rintro c' rfl
      exact hafter c' (by simp)
  · rintro (⟨⟨before, mode, after, rfl, hfree, hafter⟩, hop⟩ | ⟨mode, rfl, hfree⟩)
    · refine ⟨before, mode, after ++ [op], by simp, hfree, fun c' h => ?_⟩
      rcases List.mem_append.mp h with h | h
      · exact hafter c' h
      · exact hop c' (List.mem_singleton.mp h).symm
    · exact ⟨ops, mode, [], rfl, hfree, by simp⟩

/-- What the server's list of locks says of one region: it has an entry just if a client
holds the region, and that client is the one the entry was made for. -/
structure LocksRecorded (ops : List LockOp) (w : LockWorld) (o : UInt64) (r : RegionInfo) :
    Prop where
  locked : r ∈ (w.locks o).lockHead → ∃ c, w.holders o r = [c]
  free : r ∉ (w.locks o).lockHead → w.holders o r = [] ∧ w.waiting o r = []
  recorded : ∀ c, c ∈ w.holders o r ↔ Recorded ops c o r

/-- A request for another region changes nothing for this one. -/
theorem LocksRecorded.other {op : LockOp} {w' : LockWorld} (h : LocksRecorded ops w o r)
    (hlocks : r ∈ (w'.locks o).lockHead ↔ r ∈ (w.locks o).lockHead)
    (hwaiting : w'.waiting o r = w.waiting o r) (hholders : w'.holders o r = w.holders o r)
    (hlock : ∀ c mode, op ≠ .lock c o r mode) (hrelease : ∀ c, op ≠ .release c o r) :
    LocksRecorded (ops ++ [op]) w' o r where
  locked := by rw [hlocks, hholders]; exact h.locked
  free := by rw [hlocks, hholders, hwaiting]; exact h.free
  recorded c := by
    rw [hholders, h.recorded c, recorded_append_singleton, and_iff_left hrelease]
    exact ⟨.inl, fun hor => hor.resolve_right fun ⟨mode, hop, _⟩ => hlock c mode hop⟩

section Step

variable (h : ∀ o r, LocksRecorded ops (run lockStep .start ops) o r)
include h

theorem locksRecorded_lock : LocksRecorded (ops ++ [.lock client obj region mode])
    (lockStep (run lockStep .start ops) (.lock client obj region mode)) o r := by
  generalize hw : run lockStep .start ops = w at h
  have hlocks : r ∈ ((lockStep w (.lock client obj region mode)).locks o).lockHead ↔
      r ∈ (w.locks o).lockHead ∨ (o = obj ∧ r = region) := by
    simp only [lockStep, LockWorld.setLocks]
    split
    · next ho => rw [mem_lockHead_regionLock, ho, and_iff_right rfl]
    · next ho => rw [iff_false_intro (fun hand => ho hand.1 : ¬ (o = obj ∧ r = region)), or_false]
  by_cases hsame : o = obj ∧ r = region
  · obtain ⟨rfl, rfl⟩ := hsame
    have hmem := hlocks.mpr (.inr ⟨rfl, rfl⟩)
    by_cases hfree : r ∈ (w.locks o).lockHead
    · -- The region is locked: the request waits or is refused.
      have hholders : (lockStep w (.lock client o r mode)).holders o r = w.holders o r := by
        simp only [lockStep]
        rw [if_neg fun hgrant => regionLock_granted.mp hgrant hfree]
      refine ⟨fun _ => hholders ▸ (h o r).locked hfree, fun hno => absurd hmem hno, fun c => ?_⟩
      rw [hholders, (h o r).recorded c, recorded_append_singleton, hw]
      simp [hfree]
    · -- The request is granted, and its entry made.
      have hholders : (lockStep w (.lock client o r mode)).holders o r = [client] := by
        simp only [lockStep]
        rw [if_pos (regionLock_granted.mpr hfree)]
        simp [LockWorld.setHolders, ((h o r).free hfree).1]
      refine ⟨fun _ => ⟨client, hholders⟩, fun hno => absurd hmem hno, fun c => ?_⟩
      have hnone : ¬ Recorded ops c o r := by
        rw [← (h o r).recorded c, ((h o r).free hfree).1]
        exact List.not_mem_nil
      rw [hholders, recorded_append_singleton, hw]
      simp [hnone, hfree, eq_comm]
  · refine (h o r).other ?_ ?_ ?_ ?_ (by simp)
    · rw [hlocks, or_iff_left hsame]
    · simp only [LockWorld.waiting, lockStep, LockWorld.setLocks]
      split
      · next ho =>
        rw [filter_lockRequestHead_regionLock fun hr => hsame ⟨ho, hr⟩, ho]
      · rfl
    · simp only [lockStep]
      split
      · rw [LockWorld.setHolders, if_neg hsame]
      · rfl
    · rintro c mode' heq
      injection heq with _ ho hr
      exact hsame ⟨ho.symm, hr.symm⟩

theorem locksRecorded_release
    (hrelease : region ∈ ((run lockStep .start ops).locks obj).lockHead →
      Recorded ops client obj region ∧ (run lockStep .start ops).waiting obj region = []) :
    LocksRecorded (ops ++ [.release client obj region])
      (lockStep (run lockStep .start ops) (.release client obj region)) o r := by
  have hnodup := lockHead_nodup ops obj
  generalize hw : run lockStep .start ops = w at h hrelease hnodup
  have hlocks : r ∈ ((lockStep w (.release client obj region)).locks o).lockHead ↔
      r ∈ (w.locks o).lockHead ∧ ¬ (o = obj ∧ r = region) := by
    simp only [lockStep, LockWorld.setLocks]
    split
    · next ho =>
      simp only [releaseLockRequest, regionRelease_lockHead, hnodup.mem_erase_iff]
      grind
    · next ho => simp [ho]
  by_cases hsame : o = obj ∧ r = region
  · obtain ⟨rfl, rfl⟩ := hsame
    have hgone : r ∉ ((lockStep w (.release client o r)).locks o).lockHead :=
      fun hmem => (hlocks.mp hmem).2 ⟨rfl, rfl⟩
    -- Nobody waits, and the only holder is the client that releases.
    have hholders : (lockStep w (.release client o r)).holders o r = [] := by
      simp only [lockStep, releaseLockRequest_answered, LockWorld.setHolders, and_self, if_true]
      by_cases hmem : r ∈ (w.locks o).lockHead
      · obtain ⟨c, hc⟩ := (h o r).locked hmem
        obtain ⟨hrec, hwait⟩ := hrelease hmem
        have hclient := ((h o r).recorded client).mpr hrec
        rw [hc, List.mem_singleton] at hclient
        simp [hc, hwait, hclient]
      · simp [(h o r).free hmem]
    refine ⟨fun hmem => absurd hmem hgone, fun _ => ⟨hholders, ?_⟩, fun c => ?_⟩
    · simp only [LockWorld.waiting, lockStep, LockWorld.setLocks, if_true,
        filter_lockRequestHead_released, List.map_nil]
    · rw [hholders, recorded_append_singleton]
      simp
  · refine (h o r).other ?_ ?_ ?_ (by simp) ?_
    · rw [hlocks, and_iff_left hsame]
    · simp only [LockWorld.waiting, lockStep, LockWorld.setLocks]
      split
      · next ho =>
        rw [filter_lockRequestHead_released, if_neg fun hr => hsame ⟨ho, hr⟩, ho]
      · rfl
    · simp only [lockStep, LockWorld.setHolders, if_neg hsame]
    · rintro c heq
      injection heq with _ ho hr
      exact hsame ⟨ho.symm, hr.symm⟩

end Step

theorem ReleasedByHolder.locksRecorded (h : ReleasedByHolder ops) (o : UInt64) (r : RegionInfo) :
    LocksRecorded ops (run lockStep .start ops) o r := by
  induction ops using List.reverseRecOn generalizing o r with
  | nil => exact ⟨nofun, fun _ => ⟨rfl, rfl⟩, fun c => ⟨nofun, fun ⟨_, _, _, h, _⟩ => by simp at h⟩⟩
  | append_singleton ops op ih =>
    have hbefore := ih fun before c o r hpre => h before c o r (hpre.trans (List.prefix_append _ _))
    rw [run_append, run_cons, run_nil]
    cases op with
    | lock => exact locksRecorded_lock hbefore
    | release client obj region =>
      exact locksRecorded_release hbefore (h ops client obj region (List.prefix_refl _))

/-- If the regions are released by the clients the list of locks was given them by, and
while nobody waits, at every moment at most one client holds each region: the one
recorded in the list, and there is one just if the list has the region. -/
theorem mutualExclusion_of_releasedByHolder (h : ReleasedByHolder ops) {before : List LockOp}
    (hbefore : before <+: ops) :
    MutualExclusion (run lockStep .start before) ∧
      ∀ o r, (∀ c, c ∈ (run lockStep .start before).holders o r ↔ Recorded before c o r) ∧
        ((∃ c, c ∈ (run lockStep .start before).holders o r) ↔
          r ∈ ((run lockStep .start before).locks o).lockHead) := by
  have hall : ReleasedByHolder before := fun pre c o r hpre => h pre c o r (hpre.trans hbefore)
  refine ⟨fun o r a ha b hb => ?_, fun o r => ⟨(hall.locksRecorded o r).recorded, ?_⟩⟩
  · by_cases hmem : r ∈ ((run lockStep .start before).locks o).lockHead
    · obtain ⟨c, hc⟩ := (hall.locksRecorded o r).locked hmem
      rw [hc, List.mem_singleton] at ha hb
      rw [ha, hb]
    · rw [((hall.locksRecorded o r).free hmem).1] at ha
      cases ha
  · refine ⟨fun ⟨c, hc⟩ => ?_, fun hmem => ?_⟩
    · by_contra hno
      rw [((hall.locksRecorded o r).free hno).1] at hc
      cases hc
    · obtain ⟨c, hc⟩ := (hall.locksRecorded o r).locked hmem
      exact ⟨c, by simp [hc]⟩

/-- The second client is refused while the first holds the region, and gets it after. -/
def refusedThenGranted : List LockOp :=
  [.lock 1 7 ⟨1, [12], [4], rfl, rfl⟩ .block, .lock 2 7 ⟨1, [12], [4], rfl, rfl⟩ .noBlock,
    .release 1 7 ⟨1, [12], [4], rfl, rfl⟩, .lock 2 7 ⟨1, [12], [4], rfl, rfl⟩ .noBlock]

theorem mutualExclusion_of_releasedByHolder_two :
    ReleasedByHolder refusedThenGranted ∧
      MutualExclusion (run lockStep .start refusedThenGranted) ∧
      Recorded refusedThenGranted 2 7 ⟨1, [12], [4], rfl, rfl⟩ ∧
      ⟨1, [12], [4], rfl, rfl⟩ ∈ ((run lockStep .start refusedThenGranted).locks 7).lockHead := by
  have h : ReleasedByHolder refusedThenGranted := by
    rintro before c o r ⟨after, heq⟩ _
    rcases before with _ | ⟨_, _ | ⟨_, _ | ⟨_, _ | ⟨_, _ | _⟩⟩⟩⟩ <;>
      simp [refusedThenGranted] at heq
    obtain ⟨rfl, rfl, ⟨rfl, rfl, rfl⟩, rfl⟩ := heq
    exact ⟨⟨[], .block, _, rfl, by decide, by simp⟩, by decide⟩
  obtain ⟨hexcl, hholders⟩ := mutualExclusion_of_releasedByHolder h (List.prefix_refl _)
  obtain ⟨hrecorded, hlocked⟩ := hholders 7 ⟨1, [12], [4], rfl, rfl⟩
  exact ⟨h, hexcl, (hrecorded 2).mp (by decide), hlocked.mp ⟨2, by decide⟩⟩

/-- The first client releases while the second waits, and the third asks after that:
the second and the third both hold the region. -/
theorem not_mutualExclusion_waiter :
    ¬ MutualExclusion (run lockStep LockWorld.start
      [.lock 1 7 ⟨1, [0], [4], rfl, rfl⟩ .block, .lock 2 7 ⟨1, [0], [4], rfl, rfl⟩ .block,
        .release 1 7 ⟨1, [0], [4], rfl, rfl⟩, .lock 3 7 ⟨1, [0], [4], rfl, rfl⟩ .noBlock]) := by
  intro h
  exact absurd (h 7 ⟨1, [0], [4], rfl, rfl⟩ 2 (by decide) 3 (by decide)) (by decide)

/-- Whatever was asked before, a released region is granted to the next client. -/
theorem regionLock_released (ops : List LockOp) (c client : Nat) (o : UInt64) (r : RegionInfo)
    (mode : LockMode) : (regionLock ((run lockStep .start (ops ++ [.release c o r])).locks o)
      client r mode).2 = .now 1 := by
  rw [regionLock_granted, run_append]
  simp only [run_cons, run_nil, lockStep, LockWorld.setLocks, if_true, releaseLockRequest,
    regionRelease_lockHead]
  exact (lockHead_nodup ops o).not_mem_erase

end Pdc
