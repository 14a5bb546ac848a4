import Pdc.Server.QueryResult
import Pdc.Lib.Ranked
import Mathlib.Algebra.Order.BigOperators.Group.List

/-!
# The coordinates a query's manager answers with

Whatever the order of the messages, each slot of the manager's array holds the
coordinates of its server when the last message has come (`Collected`), and
only then is the client answered. What is wrong is the copy. `off` counts
coordinates, and `coords + off` counts numbers. For objects of one dimension
the two are the same. Otherwise each block but the first is copied too far to
the front, over blocks already there, and the end of the array is never
written: `gather_untouched`. It then holds whatever `malloc` left in it, so the
answer is right for every such content only if there is one block at most.

The other condition is that the count of each message fits an `int`. A larger
one is taken for another number, and the total then comes out wrong.
-/

namespace Pdc

open List Lib

/-! ## Counts -/

theorem bmod_of_lt {cnt : Nat} (h : cnt < 2 ^ 31) : Int.bmod cnt (2 ^ 32) = cnt := by
  rw [Int.bmod_def]
  split <;> omega

theorem messageCount_of_lt {cnt : Nat} (h : cnt < 2 ^ 31) : messageCount cnt = cnt := by
  unfold messageCount
  simp only [bmod_of_lt h]
  omega

/-- What the `int` takes off a count. -/
def lostCount (cnt : Nat) : Nat := (cnt - Int.bmod cnt (2 ^ 32)).toNat

theorem lostCount_spec (cnt : Nat) :
    (messageCount cnt + lostCount cnt) % 2 ^ 64 = cnt % 2 ^ 64 ∧ lostCount cnt ≤ 2 * cnt ∧
      (lostCount cnt = 0 → cnt < 2 ^ 31) := by
  have hsmall := @bmod_of_lt cnt
  have hbmod : Int.bmod cnt (2 ^ 32) ≤ cnt ∧ -2 ^ 31 ≤ Int.bmod cnt (2 ^ 32) ∧
      Int.bmod cnt (2 ^ 32) < 2 ^ 31 := by
    rw [Int.bmod_def]
    refine ⟨?_, ?_, ?_⟩ <;> split <;> omega
  unfold messageCount lostCount
  refine ⟨?_, ?_, ?_⟩ <;> omega

/-- If the counts of all messages add up rightly, each of them fits an `int`. -/
theorem counts_fit (counts : List Nat) (hmem : counts.sum < 2 ^ 63)
    (h : (counts.map messageCount).sum % 2 ^ 64 = counts.sum) : ∀ cnt ∈ counts, cnt < 2 ^ 31 := by
  have hsum : ∀ l : List Nat, ((l.map messageCount).sum + (l.map lostCount).sum) % 2 ^ 64 =
      l.sum % 2 ^ 64 ∧ (l.map lostCount).sum ≤ 2 * l.sum := by
    intro l
    induction l with
    | nil => simp
    | cons cnt l ih =>
      obtain ⟨hmod, hle, -⟩ := lostCount_spec cnt
      simp only [map_cons, sum_cons]
      omega
  obtain ⟨hmod, hle⟩ := hsum counts
  have hnone : (counts.map lostCount).sum = 0 := by omega
  intro cnt hcnt
  refine (lostCount_spec cnt).2.2 ?_
  exact sum_eq_zero_iff.mp hnone _ (mem_map_of_mem hcnt)

/-! ## The array of slots -/

section

variable {size ndim n : Nat} {msgs : List (CoordsMessage ndim)} {s : CoordsState}
  {msg : CoordsMessage ndim}

def hitMessages (msgs : List (CoordsMessage ndim)) : List (CoordsMessage ndim) :=
  msgs.filter fun msg => 0 < messageCount msg.cnt

def slots (size : Nat) (msgs : List (CoordsMessage ndim)) : List (Option (CoordsMessage ndim)) :=
  placed size CoordsMessage.origin (hitMessages msgs)

def arrAfter (size : Nat) (msgs : List (CoordsMessage ndim)) : List (Option (List UInt64)) :=
  (slots size msgs).map (Option.map CoordsMessage.coords)

def hitsAfter (size : Nat) (msgs : List (CoordsMessage ndim)) : List Nat :=
  (slots size msgs).map fun slot => (slot.map fun msg => messageCount msg.cnt).getD 0

theorem slots_append_singleton (size : Nat) (msgs : List (CoordsMessage ndim))
    (msg : CoordsMessage ndim) :
    slots size (msgs ++ [msg]) = if 0 < messageCount msg.cnt then
      (slots size msgs).set msg.origin (some msg) else slots size msgs := by
  rw [slots, hitMessages, filter_append]
  by_cases h : 0 < messageCount msg.cnt
  · rw [filter_singleton]
    simp only [h, decide_true, cond_true]
    exact placed_append_singleton _ _ _ _
  · rw [filter_singleton]
    simp only [h, decide_false, cond_false, append_nil]
    rfl

/-- What the manager knows after some messages. -/
structure Collected (size : Nat) (msgs : List (CoordsMessage ndim)) (task : CoordsTask) :
    Prop where
  nRecv : task.nRecv = msgs.length
  nhits : task.nhits = (msgs.map fun msg => messageCount msg.cnt).sum % 2 ^ 64
  arr : task.coordsArr.getD (List.replicate size none) = arrAfter size msgs
  hits : task.nHitsFromServer.getD (List.replicate size 0) = hitsAfter size msgs

theorem collected_nil (size nSentServer : Nat) :
    Collected size ([] : List (CoordsMessage ndim)) { nSentServer := nSentServer } where
  nRecv := rfl
  nhits := rfl
  arr := by simp [arrAfter, slots, hitMessages, placed]
  hits := by simp [hitsAfter, slots, hitMessages, placed]

/-- One message: the task it leaves has collected it, and if it is the last one
expected, the answer is made from that task. -/
theorem recvCoords_eq (junk : Nat → UInt64) (h : Collected size msgs s.task)
    (msg : CoordsMessage ndim) :
    ∃ task, Collected size (msgs ++ [msg]) task ∧ task.nSentServer = s.task.nSentServer ∧
      recvCoords size ndim junk s msg =
        if msgs.length + 1 = s.task.nSentServer then
          (aggregateCoords ndim junk (arrAfter size (msgs ++ [msg]))
            (hitsAfter size (msgs ++ [msg])) task).map fun task =>
              ⟨task, s.replies ++ [sendCoordsToClient ndim task]⟩
        else some ⟨task, s.replies⟩ := by
  have harr : (if 0 < messageCount msg.cnt then
      (arrAfter size msgs).set msg.origin (some msg.coords) else arrAfter size msgs) =
        arrAfter size (msgs ++ [msg]) := by
    rw [arrAfter, arrAfter, slots_append_singleton]
    split
    · rw [map_set, Option.map_some]
    · rfl
  have hhits : (if 0 < messageCount msg.cnt then
      (hitsAfter size msgs).set msg.origin (messageCount msg.cnt) else hitsAfter size msgs) =
        hitsAfter size (msgs ++ [msg]) := by
    rw [hitsAfter, hitsAfter, slots_append_singleton]
    split
    · rw [map_set, Option.map_some, Option.getD_some]
    · rfl
  refine ⟨{ s.task with
    coordsArr := some (arrAfter size (msgs ++ [msg]))
    nHitsFromServer := some (hitsAfter size (msgs ++ [msg]))
    nhits := (s.task.nhits + messageCount msg.cnt) % 2 ^ 64
    nRecv := s.task.nRecv + 1 }, ⟨?_, ?_, rfl, rfl⟩, rfl, ?_⟩
  · rw [length_append, h.nRecv]
    rfl
  · simp only [h.nhits, map_append, sum_append, map_cons, map_nil, sum_singleton, Nat.mod_add_mod]
  · simp only [recvCoords, h.arr, h.hits, harr, hhits, h.nRecv]
    split
    · cases aggregateCoords ndim junk _ _ _ <;> rfl
    · rfl

/-- The manager's state after messages, from a new task. -/
def collect (size ndim : Nat) (junk : Nat → UInt64) (nSentServer : Nat)
    (msgs : List (CoordsMessage ndim)) : Option CoordsState :=
  msgs.foldlM (recvCoords size ndim junk) { task := { nSentServer := nSentServer } }

theorem collect_append_singleton (junk : Nat → UInt64) (nSentServer : Nat)
    (msgs : List (CoordsMessage ndim)) (msg : CoordsMessage ndim) :
    collect size ndim junk nSentServer (msgs ++ [msg]) =
      (collect size ndim junk nSentServer msgs).bind fun s => recvCoords size ndim junk s msg := by
  simp [collect, foldlM_append]

theorem collect_of_lt (size : Nat) (junk : Nat → UInt64) (h : msgs.length < n) :
    ∃ task, collect size ndim junk n msgs = some ⟨task, []⟩ ∧ Collected size msgs task ∧
      task.nSentServer = n := by
  induction msgs using reverseRecOn with
  | nil => exact ⟨_, rfl, collected_nil size n, rfl⟩
  | append_singleton msgs msg ih =>
    rw [length_append, length_singleton] at h
    obtain ⟨task, hrun, hcol, hsent⟩ := ih (by omega)
    obtain ⟨task', hcol', hsent', hstep⟩ :=
      recvCoords_eq (s := ⟨task, []⟩) junk hcol msg
    refine ⟨task', ?_, hcol', hsent'.trans hsent⟩
    rw [if_neg (by rw [hsent]; omega)] at hstep
    rw [collect_append_singleton, hrun]
    exact hstep

theorem collect_all (size : Nat) (junk : Nat → UInt64) (hne : msgs ≠ []) :
    ∃ task, Collected size msgs task ∧ collect size ndim junk msgs.length msgs =
      (aggregateCoords ndim junk (arrAfter size msgs) (hitsAfter size msgs) task).map fun task =>
        ⟨task, [sendCoordsToClient ndim task]⟩ := by
  obtain ⟨init, msg, rfl⟩ := (eq_nil_or_concat msgs).resolve_left hne
  rw [concat_eq_append]
  have hlen : (init ++ [msg]).length = init.length + 1 := length_append
  obtain ⟨task, hrun, hcol, hsent⟩ := collect_of_lt size junk (Nat.lt_succ_self init.length)
  obtain ⟨task', hcol', -, hstep⟩ := recvCoords_eq (s := ⟨task, []⟩) junk hcol msg
  refine ⟨task', hcol', ?_⟩
  rw [if_pos hsent.symm] at hstep
  rw [hlen, collect_append_singleton, hrun]
  exact hstep

/-! ## Copying the blocks -/

theorem gather_slots (count : CoordsMessage ndim → Nat) (ms : List (Option (CoordsMessage ndim)))
    (off : Nat) (coords : List UInt64) :
    gatherCoords ndim ((ms.map (Option.map CoordsMessage.coords)).zip
      (ms.map fun slot => (slot.map count).getD 0)) off coords =
        gatherCoords ndim ((ms.filterMap id).map fun msg => (some msg.coords, count msg))
          off coords := by
  induction ms generalizing off coords with
  | nil => rfl
  | cons slot ms ih =>
    cases slot with
    | none => exact ih off coords
    | some msg =>
      simp only [map_cons, zip_cons_cons, Option.map_some, Option.getD_some,
        filterMap_cons_some (f := id) rfl, gatherCoords]
      split
      · exact ih _ _
      · rfl

/-- An entry of the two arrays that a message has filled. -/
def CoordsMessage.entry (msg : CoordsMessage ndim) : Option (List UInt64) × Nat :=
  (some msg.coords, messageCount msg.cnt)

theorem gather_one (ms : List (CoordsMessage 1)) (hcnt : ∀ msg ∈ ms, messageCount msg.cnt = msg.cnt)
    (front back : List UInt64) (hback : back.length = (ms.map CoordsMessage.cnt).sum) :
    gatherCoords 1 (ms.map CoordsMessage.entry) front.length (front ++ back) =
      some (front ++ ms.flatMap CoordsMessage.coords) := by
  induction ms generalizing front back with
  | nil => simp [gatherCoords, eq_nil_of_length_eq_zero hback]
  | cons msg ms ih =>
    rw [forall_mem_cons] at hcnt
    rw [map_cons, sum_cons] at hback
    have hlen : msg.cnt * 1 = msg.coords.length := msg.length_coords.symm
    have hfits : msg.coords.length ≤ back.length := by omega
    simp only [map_cons, CoordsMessage.entry, gatherCoords, hcnt.1]
    rw [if_pos ⟨Nat.le_of_eq hlen, by rw [length_append]; omega⟩, hlen,
      memcpy_append_front hfits, ← append_assoc]
    have hnext := ih hcnt.2 (front ++ msg.coords) (back.drop msg.coords.length)
      (by rw [length_drop]; omega)
    rw [length_append, ← hlen, Nat.mul_one] at hnext
    rw [← hlen, Nat.mul_one, hnext, flatMap_cons, append_assoc]

/-- The last position a copy can reach: with `off` counted in coordinates, none
of them gets far enough. -/
theorem gather_untouched (ms : List (CoordsMessage ndim)) (off : Nat) {coords coords' : List UInt64}
    {p : Nat} (hp : ∀ msg ∈ ms, off + (ms.map fun msg => messageCount msg.cnt).sum +
      messageCount msg.cnt * (ndim - 1) ≤ p)
    (h : gatherCoords ndim (ms.map CoordsMessage.entry) off coords = some coords') :
    coords'[p]? = coords[p]? := by
  induction ms generalizing off coords with
  | nil => rw [Option.some.inj h]
  | cons msg ms ih =>
    simp only [map_cons, CoordsMessage.entry, gatherCoords] at h
    split at h
    · next hfits =>
      rw [forall_mem_cons] at hp
      simp only [map_cons, sum_cons] at hp
      have hblock : messageCount msg.cnt * ndim ≤
          messageCount msg.cnt + messageCount msg.cnt * (ndim - 1) := by
        cases ndim with
        | zero => simp
        | succ d => rw [Nat.add_sub_cancel, Nat.mul_succ, Nat.add_comm]
      rw [ih _ (fun msg' hmsg' => by have := hp.2 msg' hmsg'; omega) h,
        memcpy_getElem?_of_not (by omega)]
    · exact nomatch h

/-! ## The answer -/

/-- The servers' coordinates in the order of their ranks. -/
def rankedCoords (size : Nat) (msgs : List (CoordsMessage ndim)) : List UInt64 :=
  (List.range size).flatMap fun rank =>
    ((msgs.find? fun msg => msg.origin = rank).map CoordsMessage.coords).getD []

/-- The messages with hits in the order of their ranks. -/
def rankedHits (size : Nat) (msgs : List (CoordsMessage ndim)) : List (CoordsMessage ndim) :=
  inRank size CoordsMessage.origin (hitMessages msgs)

section

variable (horigin : (msgs.map CoordsMessage.origin).Nodup)
  (hsize : ∀ msg ∈ msgs, msg.origin < size) (hfit : ∀ msg ∈ msgs, msg.cnt < 2 ^ 31)

include horigin in
theorem nodup_hitMessages : ((hitMessages msgs).map CoordsMessage.origin).Nodup :=
  horigin.sublist (filter_sublist.map _)

include horigin hsize in
theorem rankedHits_perm : (rankedHits size msgs).Perm (hitMessages msgs) :=
  inRank_perm (nodup_hitMessages horigin) fun msg hmsg => hsize msg (mem_filter.mp hmsg).1

include hfit in
theorem mem_hitMessages :
    msg ∈ hitMessages msgs ↔ msg ∈ msgs ∧ 0 < msg.cnt := by
  rw [hitMessages, mem_filter]
  refine and_congr_right fun hmsg => ?_
  rw [messageCount_of_lt (hfit msg hmsg), decide_eq_true_eq]

include hfit in
theorem hitMessages_eq : hitMessages msgs = msgs.filter fun msg => 0 < msg.cnt :=
  filter_congr fun msg hmsg => by rw [messageCount_of_lt (hfit msg hmsg)]

include horigin hfit in
theorem rankedCoords_eq :
    rankedCoords size msgs = (rankedHits size msgs).flatMap CoordsMessage.coords := by
  have hnodup := nodup_hitMessages horigin
  rw [rankedHits, flatMap_inRank, placed_eq hnodup, flatMap_map]
  refine flatMap_congr fun rank _ => ?_
  cases hfind : (hitMessages msgs).find? fun msg => msg.origin = rank with
  | some msg =>
    obtain ⟨hmem, hrank⟩ := (find?_key_eq_some hnodup).mp hfind
    rw [(find?_key_eq_some horigin).mpr ⟨((mem_hitMessages hfit).mp hmem).1, hrank⟩]
  | none =>
    cases hall : msgs.find? fun msg => msg.origin = rank with
    | none => rfl
    | some msg =>
      obtain ⟨hmem, hrank⟩ := (find?_key_eq_some horigin).mp hall
      have hno : msg.cnt = 0 := by
        by_contra hcnt
        have hmsg := (mem_hitMessages hfit).mpr ⟨hmem, Nat.pos_of_ne_zero hcnt⟩
        exact find?_eq_none.mp hfind msg hmsg (by simpa using hrank)
      have hlen := msg.length_coords
      rw [hno, Nat.zero_mul] at hlen
      exact eq_nil_of_length_eq_zero hlen

theorem sum_counts_hitMessages :
    ((hitMessages msgs).map fun msg => messageCount msg.cnt).sum =
      (msgs.map fun msg => messageCount msg.cnt).sum := by
  induction msgs with
  | nil => rfl
  | cons msg msgs ih =>
    rw [hitMessages, filter_cons]
    split
    · rw [map_cons, map_cons, sum_cons, sum_cons, ← hitMessages, ih]
    · next hno =>
      have hzero : messageCount msg.cnt = 0 := by simpa using hno
      rw [map_cons, sum_cons, hzero, Nat.zero_add, ← hitMessages, ih]

include horigin hsize in
theorem sum_counts_rankedHits :
    ((rankedHits size msgs).map fun msg => messageCount msg.cnt).sum =
      (msgs.map fun msg => messageCount msg.cnt).sum :=
  (((rankedHits_perm horigin hsize).map _).sum_eq).trans sum_counts_hitMessages

include hfit in
theorem map_messageCount :
    (msgs.map fun msg => messageCount msg.cnt) = msgs.map CoordsMessage.cnt :=
  map_congr_left fun msg hmsg => messageCount_of_lt (hfit msg hmsg)

def totalHits (msgs : List (CoordsMessage ndim)) : Nat := (msgs.map CoordsMessage.cnt).sum

include horigin hsize hfit in
theorem sum_cnt_rankedHits : totalHits (rankedHits size msgs) = totalHits msgs := by
  have hfit' : ∀ msg ∈ rankedHits size msgs, msg.cnt < 2 ^ 31 := fun msg hmsg =>
    hfit msg ((mem_hitMessages hfit).mp ((rankedHits_perm horigin hsize).mem_iff.mp hmsg)).1
  rw [totalHits, totalHits, ← map_messageCount hfit, ← map_messageCount hfit']
  exact sum_counts_rankedHits horigin hsize

include horigin hsize in
theorem sum_hitsAfter :
    (hitsAfter size msgs).sum = (msgs.map fun msg => messageCount msg.cnt).sum := by
  rw [hitsAfter, slots, sum_inRank]
  exact sum_counts_rankedHits horigin hsize

include horigin hsize hfit in
theorem replies_of_pos (junk : Nat → UInt64) (hmem : totalHits msgs < 2 ^ 64)
    (hpos : 0 < totalHits msgs) :
    (collect size ndim junk msgs.length msgs).map CoordsState.replies =
      (gatherCoords ndim ((rankedHits size msgs).map CoordsMessage.entry) 0
        ((range (totalHits msgs * ndim)).map junk)).map fun coords =>
          [⟨totalHits msgs, slice coords 0 (totalHits msgs * ndim)⟩] := by
  have hne : msgs ≠ [] := by
    rintro rfl
    exact Nat.lt_irrefl 0 hpos
  have hsum : (msgs.map fun msg => messageCount msg.cnt).sum % 2 ^ 64 = totalHits msgs := by
    rw [map_messageCount hfit]
    exact Nat.mod_eq_of_lt hmem
  obtain ⟨task, hcol, hrun⟩ := collect_all size junk hne
  have hnhits : task.nhits = totalHits msgs := hcol.nhits.trans hsum
  have hgather := gather_slots (fun msg : CoordsMessage ndim => messageCount msg.cnt)
    (slots size msgs) 0 ((range (totalHits msgs * ndim)).map junk)
  rw [hrun]
  simp only [aggregateCoords, sum_hitsAfter horigin hsize, hsum, if_pos hpos]
  rw [arrAfter, hitsAfter, hgather]
  simp only [Option.bind_eq_bind, Option.pure_def, Option.map_bind, Function.comp_def,
    Option.map_some, sendCoordsToClient, hnhits, if_pos hpos]
  exact Option.map_eq_bind.symm

include horigin hsize hfit in
theorem replies_of_zero (junk : Nat → UInt64) (hne : msgs ≠ []) (hzero : totalHits msgs = 0) :
    (collect size ndim junk msgs.length msgs).map CoordsState.replies = some [⟨0, []⟩] := by
  have hsum : (msgs.map fun msg => messageCount msg.cnt).sum = 0 := by
    rw [map_messageCount hfit]
    exact hzero
  obtain ⟨task, hcol, hrun⟩ := collect_all size junk hne
  have hnhits : task.nhits = 0 := by
    rw [hcol.nhits, hsum, Nat.zero_mod]
  rw [hrun]
  simp [aggregateCoords, sum_hitsAfter horigin hsize, hsum, sendCoordsToClient, hnhits]

include horigin hsize hfit in
theorem gather_rankedHits (h : ndim = 1 ∨ (rankedHits size msgs).length ≤ 1) (junk : Nat → UInt64) :
    gatherCoords ndim ((rankedHits size msgs).map CoordsMessage.entry) 0
        ((range (totalHits msgs * ndim)).map junk) =
      some ((rankedHits size msgs).flatMap CoordsMessage.coords) := by
  have hcnt : ∀ msg ∈ rankedHits size msgs, messageCount msg.cnt = msg.cnt := fun msg hmsg =>
    messageCount_of_lt (hfit msg
      ((mem_hitMessages hfit).mp ((rankedHits_perm horigin hsize).mem_iff.mp hmsg)).1)
  rw [← sum_cnt_rankedHits horigin hsize hfit]
  generalize rankedHits size msgs = ms at h hcnt ⊢
  rcases h with rfl | h
  · exact gather_one ms hcnt [] _ (by simp [totalHits])
  · match ms, h with
    | [], _ => simp [gatherCoords, totalHits]
    | [msg], _ =>
      have hlen : msg.cnt * ndim = msg.coords.length := msg.length_coords.symm
      have hroom : ((range (totalHits [msg] * ndim)).map junk).length = msg.coords.length := by
        simp [totalHits, hlen]
      simp only [map_cons, map_nil, CoordsMessage.entry, gatherCoords,
        hcnt msg (by simp)]
      rw [if_pos ⟨Nat.le_of_eq hlen, by rw [hroom, hlen, Nat.zero_add]⟩, hlen,
        memcpy_full hroom (by rw [Nat.zero_add]), slice_eq_self rfl]
      simp

end

theorem length_coords_flatMap (ms : List (CoordsMessage ndim)) :
    (ms.flatMap CoordsMessage.coords).length = totalHits ms * ndim := by
  induction ms with
  | nil => simp [totalHits]
  | cons msg ms ih =>
    rw [flatMap_cons, length_append, ih, msg.length_coords, totalHits, totalHits,
      map_cons, sum_cons, Nat.add_mul]

/-- A query's manager answers the client once, after the last message, with all
hits and the coordinates in the order of the servers' ranks, whatever `malloc`
leaves in the memory it returns. -/
def AnswersWithAll (size : Nat) (msgs : List (CoordsMessage ndim)) : Prop :=
  ∀ junk, (∀ k, k < msgs.length → (collect size ndim junk msgs.length (msgs.take k)).map
      CoordsState.replies = some []) ∧
    (collect size ndim junk msgs.length msgs).map CoordsState.replies =
      some [⟨totalHits msgs, rankedCoords size msgs⟩]

theorem cnt_of_replies {junk : Nat → UInt64} {r : CoordsReply}
    (h : (collect size ndim junk msgs.length msgs).map CoordsState.replies = some [r])
    (hne : msgs ≠ []) : r.cnt = (msgs.map fun msg => messageCount msg.cnt).sum % 2 ^ 64 := by
  obtain ⟨task, hcol, hrun⟩ := collect_all size junk hne
  rw [hrun, Option.map_map] at h
  obtain ⟨task', haggr, hreply⟩ := Option.map_eq_some_iff.mp h
  have hkeep : task'.nhits = task.nhits := by
    simp only [aggregateCoords] at haggr
    split at haggr
    · obtain ⟨coords, -, hcoords⟩ := Option.bind_eq_some_iff.mp haggr
      rw [← Option.some.inj hcoords]
    · rw [Option.some.inj haggr]
  have hr : sendCoordsToClient ndim task' = r := (cons.inj hreply).1
  rw [← hcol.nhits, ← hkeep, ← hr]
  rfl

theorem cnt_lt_totalHits {ms : List (CoordsMessage ndim)} (hlen : 2 ≤ ms.length)
    (hpos : ∀ msg ∈ ms, 0 < msg.cnt) (hmsg : msg ∈ ms) :
    msg.cnt < totalHits ms := by
  obtain ⟨as, bs, rfl⟩ := append_of_mem hmsg
  have hother : as ++ bs ≠ [] := by
    intro hnil
    rw [append_eq_nil_iff] at hnil
    simp [hnil] at hlen
  obtain ⟨other, hmem⟩ := exists_mem_of_ne_nil _ hother
  have hle : other.cnt ≤ ((as ++ bs).map CoordsMessage.cnt).sum :=
    le_sum_of_mem (mem_map_of_mem hmem)
  have hone := hpos other (by
    simp only [mem_append, mem_cons] at hmem ⊢
    exact hmem.imp id .inr)
  simp only [totalHits, map_append, map_cons, sum_append, sum_cons] at hle ⊢
  omega

theorem last_unreached {total d : Nat} (hn : n < total) (hd : 2 ≤ d) :
    0 + total + n * (d - 1) ≤ total * d - 1 := by
  obtain ⟨k, rfl⟩ := Nat.exists_eq_add_of_le hd
  have hmul : (n + 1) * (k + 1) ≤ total * (k + 1) := Nat.mul_le_mul_right _ hn
  have hleft : (n + 1) * (k + 1) = n * (k + 1) + k + 1 := by ring
  have hright : total * (2 + k) = total + total * (k + 1) := by ring
  have hsub : 2 + k - 1 = k + 1 := by omega
  rw [hsub]
  omega

/-- The messages of the working servers, in any order, are answered rightly just if
there is one, each count fits an `int`, and the object has one dimension or at
most one server has hits. -/
theorem answersWithAll_iff (hndim : 1 ≤ ndim) (horigin : (msgs.map CoordsMessage.origin).Nodup)
    (hsize : ∀ msg ∈ msgs, msg.origin < size) (hmem : totalHits msgs * (8 * ndim) < 2 ^ 64) :
    AnswersWithAll size msgs ↔ msgs ≠ [] ∧ (∀ msg ∈ msgs, msg.cnt < 2 ^ 31) ∧
        (ndim = 1 ∨ (msgs.filter fun msg => 0 < msg.cnt).length ≤ 1) := by
  have htotal : totalHits msgs < 2 ^ 61 := by
    have := Nat.le_mul_of_pos_right (totalHits msgs * 8) hndim
    rw [Nat.mul_assoc] at this
    omega
  refine ⟨fun h => ?_, fun h junk => ?_⟩
  · have hne : msgs ≠ [] := by
      rintro rfl
      exact nomatch (h fun _ => 0).2
    have hfit : ∀ msg ∈ msgs, msg.cnt < 2 ^ 31 := by
      have hcount : totalHits msgs = (msgs.map fun msg => messageCount msg.cnt).sum % 2 ^ 64 :=
        cnt_of_replies (h fun _ => 0).2 hne
      intro msg hmsg
      refine counts_fit (msgs.map CoordsMessage.cnt) (by rw [← totalHits]; omega) ?_ _
        (mem_map_of_mem hmsg)
      simp only [map_map, Function.comp_def]
      rw [← hcount, totalHits]
    refine ⟨hne, hfit, ?_⟩
    by_contra hboth
    rw [not_or, Nat.not_le, ← hitMessages_eq hfit,
      ← (rankedHits_perm horigin hsize).length_eq] at hboth
    obtain ⟨hdim, htwo⟩ := hboth
    have hposs : ∀ msg ∈ rankedHits size msgs, 0 < msg.cnt := fun msg hmsg =>
      ((mem_hitMessages hfit).mp ((rankedHits_perm horigin hsize).mem_iff.mp hmsg)).2
    have hlt : ∀ msg ∈ rankedHits size msgs, msg.cnt < totalHits msgs := fun msg hmsg =>
      sum_cnt_rankedHits horigin hsize hfit ▸ cnt_lt_totalHits htwo hposs hmsg
    obtain ⟨msg, hmsg⟩ := exists_mem_of_ne_nil (rankedHits size msgs)
      (ne_nil_of_length_pos (by omega))
    have hpos : 0 < totalHits msgs := Nat.lt_of_le_of_lt (Nat.zero_le _) (hlt msg hmsg)
    -- The end of the answer is what was in memory, whatever that was.
    have hend : ∀ x : UInt64, (rankedCoords size msgs)[totalHits msgs * ndim - 1]? = some x := by
      intro x
      have hreply := (h fun _ => x).2
      rw [replies_of_pos horigin hsize hfit _ (by omega) hpos] at hreply
      obtain ⟨coords, hgather, hsame⟩ := Option.map_eq_some_iff.mp hreply
      have hcoords : slice coords 0 (totalHits msgs * ndim) = rankedCoords size msgs :=
        congrArg CoordsReply.coords (List.cons.inj hsame).1
      have hcounts : ((rankedHits size msgs).map fun msg => messageCount msg.cnt).sum =
          totalHits msgs := by
        rw [sum_counts_rankedHits horigin hsize, map_messageCount hfit, totalHits]
      have hlast := gather_untouched (rankedHits size msgs) 0
        (fun msg hmsg => by
          rw [hcounts, messageCount_of_lt (hfit msg ((mem_hitMessages hfit).mp
            ((rankedHits_perm horigin hsize).mem_iff.mp hmsg)).1)]
          exact last_unreached (hlt msg hmsg) (by omega)) hgather
      have hroom : 0 < totalHits msgs * ndim := Nat.mul_pos hpos hndim
      rw [← hcoords, slice_getElem?, if_pos (by omega), Nat.zero_add, hlast, getElem?_map,
        getElem?_range (by omega)]
      rfl
    exact absurd ((hend 0).symm.trans (hend 1)) (by decide)
  · obtain ⟨hne, hfit, hcase⟩ := h
    refine ⟨fun k hk => ?_, ?_⟩
    · have hfewer : (msgs.take k).length < msgs.length := by
        rw [length_take]
        omega
      obtain ⟨task, hrun, -, -⟩ := collect_of_lt size junk hfewer
      rw [hrun]
      rfl
    · rw [← hitMessages_eq hfit, ← (rankedHits_perm horigin hsize).length_eq] at hcase
      have hlen : (rankedCoords size msgs).length = totalHits msgs * ndim := by
        rw [rankedCoords_eq horigin hfit, length_coords_flatMap,
          sum_cnt_rankedHits horigin hsize hfit]
      rcases Nat.eq_zero_or_pos (totalHits msgs) with hzero | hpos
      · rw [hzero, Nat.zero_mul] at hlen
        rw [replies_of_zero horigin hsize hfit junk hne hzero, hzero, eq_nil_of_length_eq_zero hlen]
      · rw [replies_of_pos horigin hsize hfit junk (by omega) hpos,
          gather_rankedHits horigin hsize hfit hcase, ← rankedCoords_eq horigin hfit,
          Option.map_some, slice_eq_self hlen]

end

/-- Two servers with hits in an object of one dimension, the second heard first. -/
theorem answersWithAll_two_servers :
    AnswersWithAll 3 [(⟨2, 1, [7], rfl⟩ : CoordsMessage 1), ⟨1, 2, [3, 4], rfl⟩] :=
  (answersWithAll_iff (by decide) (by decide) (by decide) (by decide)).mpr
    ⟨by decide, by decide, .inl rfl⟩

/-- One hit each from two servers, in an object of two dimensions: the second is
copied over half of the first, and the end is never written. -/
theorem not_answersWithAll_two_dims :
    (collect 3 2 (fun _ => 0) 2 [⟨1, 1, [3, 4], rfl⟩, ⟨2, 1, [7, 8], rfl⟩]).map
        CoordsState.replies = some [⟨2, [3, 7, 8, 0]⟩] ∧
      ¬ AnswersWithAll 3 [(⟨1, 1, [3, 4], rfl⟩ : CoordsMessage 2), ⟨2, 1, [7, 8], rfl⟩] := by
  refine ⟨by decide +kernel, fun h => ?_⟩
  have hall := (h fun _ => 0).2
  exact absurd hall (by decide +kernel)

end Pdc
