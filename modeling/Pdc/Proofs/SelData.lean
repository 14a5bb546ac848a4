import Pdc.Client.SelData
import Pdc.Lib.Run
import Pdc.Proofs.CoordsResult

/-!
# When the data of a selection arrives complete and once

The hits of the messages are added up, and each message that finds them as many
as the selection has decrements the counter. There are two ways this goes
wrong. The message that completes the data may be handled in the first wait,
together with the response. The counter is set to 1 again after that, and
nothing is left that would decrement it. And a message of no hits may come when
the data is complete already. It decrements the counter a second time. After the
read has returned, the hits are counted from zero again. Then such a message does
harm only during a later read, if its selection has no hits at all or the later
read is of the same query and complete.

`SignalsOnce` is the condition on each step that rules this out. It also asks
that some server sends a message, as nothing else ends the second wait, and that
the count of a message fits an `int`.
-/

namespace Pdc

open List Lib Option

variable {size q : Nat} {stray : Nat → UInt8} {nhits : Nat → Nat} {plan : Nat → PlannedRead}
  {w : ReadWorld} {msg : DataMessage} {msgs : List DataMessage} {elt : QueryResultElt}
  {p : PlannedRead}

/-! ## What a read is to return -/

def totalCnt (msgs : List DataMessage) : Nat := (msgs.map DataMessage.cnt).sum

@[simp] theorem totalCnt_append_singleton : totalCnt (msgs ++ [msg]) = totalCnt msgs + msg.cnt := by
  simp [totalCnt]

def rankedData (size : Nat) (msgs : List DataMessage) : Bytes :=
  (inRank size DataMessage.rank msgs).flatMap DataMessage.data

/-- Each server sends at most one message, and together they bring all hits. -/
structure PlannedRead.Fits (size : Nat) (nhits : Nat) (p : PlannedRead) : Prop where
  rank_lt : ∀ msg ∈ p.messages, msg.rank < size
  nodup : (p.messages.map DataMessage.rank).Nodup
  queryId : ∀ msg ∈ p.messages, msg.queryId = p.queryId
  total : totalCnt p.messages = nhits
  total_lt : nhits < 2 ^ 64
  data_nil : ∀ msg ∈ p.messages, msg.cnt = 0 → msg.data = []

/-- What can happen: a call while no other is in progress, its response, each
message of a read once after the read has begun, and the end of a wait whose
counter is at zero or below. -/
def ReadAction.Enabled (size : Nat) (nhits : Nat → Nat) (plan : Nat → PlannedRead)
    (w : ReadWorld) : ReadAction → Prop
  | .call =>
    w.client.phase = .idle ∧ (plan w.started).Fits size (nhits (plan w.started).queryId)
  | .respond => ∃ q, w.client.phase = .response q false
  | .data k msg =>
    k < w.started ∧ msg ∈ (plan k).messages ∧ (k + 1 = w.started → msg ∉ w.handled)
  | .wake => w.client.phase ≠ .idle ∧ w.client.todo ≤ 0

/-- Some server sends data for each read. A message with which the hits are complete
is handled in the second wait, before the counter has been decremented. A message of
a read that has returned has no hits, and a read in progress neither takes it for the
last one nor loses data to it. -/
def SignalsOnce (plan : Nat → PlannedRead) (w : ReadWorld) : ReadAction → Prop
  | .call => (plan w.started).messages ≠ []
  | .data k msg =>
    if k + 1 = w.started ∧ w.client.phase ≠ .idle then
      msg.cnt < 2 ^ 31 ∧
        ((w.client.results msg.queryId).recvDataNhits + msg.cnt =
            (w.client.results msg.queryId).nhits →
          w.client.phase = .data msg.queryId ∧ w.client.todo = 1)
    else
      msg.cnt = 0 ∧ (w.client.phase ≠ .idle →
        (w.client.results msg.queryId).recvDataNhits ≠ (w.client.results msg.queryId).nhits ∧
          ∀ other ∈ w.handled, other.queryId = msg.queryId → other.rank = msg.rank →
            other.cnt = 0)
  | _ => True

/-- Reads return all the data in order, each after one decrement of the counter,
and no wait outlasts what it waits for. -/
structure ReadsOnce (size : Nat) (plan : Nat → PlannedRead) (w : ReadWorld) : Prop where
  returned : w.client.returned =
    (List.range w.counts.length).map fun k => some (rankedData size (plan k).messages)
  counts : ∀ n ∈ w.counts, n = 1
  answered : ∀ q, w.client.phase = .response q true → w.client.todo ≤ 0
  arrived : ∀ q, w.client.phase = .data q →
    (∀ msg ∈ (plan w.counts.length).messages, msg ∈ w.handled) → w.client.todo ≤ 0

/-! ## Part of the messages -/

theorem totalCnt_le {l l' : List DataMessage} (hnodup : l.Nodup) (hsub : l ⊆ l') :
    totalCnt l ≤ totalCnt l' := by
  obtain ⟨m, hperm, hm⟩ := subperm_of_subset hnodup hsub
  calc totalCnt l = totalCnt m := ((hperm.map _).sum_eq).symm
    _ ≤ totalCnt l' := (hm.map _).sum_le_sum fun _ _ => Nat.zero_le _

theorem rankedData_of_total {n : Nat} (hp : p.Fits size n)
    (hsub : msgs ⊆ p.messages) (hnodup : (msgs.map DataMessage.rank).Nodup)
    (htotal : totalCnt msgs = n) : rankedData size msgs = rankedData size p.messages := by
  have hleft : ∀ msg ∈ p.messages, msg ∉ msgs → msg.data = [] := by
    intro msg hmem hnot
    have hle := totalCnt_le
      (nodup_append.mpr ⟨hnodup.of_map, nodup_singleton msg, by
        intro a ha b hb hab
        exact hnot (mem_singleton.mp hb ▸ hab ▸ ha)⟩)
      (append_subset.mpr ⟨hsub, by simpa using hmem⟩)
    rw [totalCnt_append_singleton, hp.total] at hle
    exact hp.data_nil msg hmem (by omega)
  rw [rankedData, rankedData, flatMap_inRank, flatMap_inRank, placed_eq hnodup,
    placed_eq hp.nodup, flatMap_map, flatMap_map]
  congr 1
  funext k
  -- A slot differs only if its message has not come, and then it adds nothing.
  cases hfind : p.messages.find? (fun msg => msg.rank = k) with
  | none =>
    have hnone : msgs.find? (fun msg => msg.rank = k) = none :=
      find?_eq_none.mpr fun msg hmsg => find?_eq_none.mp hfind msg (hsub hmsg)
    rw [hnone]
  | some msg =>
    obtain ⟨hmem, hrank⟩ := (find?_key_eq_some hp.nodup).mp hfind
    by_cases hin : msg ∈ msgs
    · rw [(find?_key_eq_some hnodup).mpr ⟨hin, hrank⟩]
    · have hnone : msgs.find? (fun msg => msg.rank = k) = none := by
        refine find?_eq_none.mpr fun other hother hk => hin ?_
        have hsame := (find?_key_eq_some hp.nodup).mpr ⟨hsub hother, of_decide_eq_true hk⟩
        rw [hfind] at hsame
        exact some.inj hsame ▸ hother
      simp [hnone, hleft msg hmem hin]

/-! ## The entry of a query -/

/-- The entry holds the data of `msgs`, each under its rank. There may be slots without
data besides. -/
structure Gathered (size : Nat) (msgs : List DataMessage) (elt : QueryResultElt) : Prop where
  recv : elt.recvDataNhits = totalCnt msgs
  slots : (elt.slots size).map (·.getD []) =
    (placed size DataMessage.rank msgs).map fun slot => (slot.map DataMessage.data).getD []
  allocated : msgs ≠ [] → elt.dataArr.isSome

theorem gathered_new (size n : Nat) : Gathered size [] { nhits := n } where
  recv := rfl
  slots := by simp [QueryResultElt.slots, placed]
  allocated := fun h => absurd rfl h

theorem store_nhits : (elt.store size stray msg).nhits = elt.nhits := by
  unfold QueryResultElt.store
  rfl

theorem store_allocated : (elt.store size stray msg).dataArr.isSome := by
  rfl

theorem Gathered.store (h : Gathered size msgs elt) (hcnt : msg.cnt < 2 ^ 31)
    (hnil : msg.cnt = 0 → msg.data = []) (htotal : totalCnt (msgs ++ [msg]) < 2 ^ 64) :
    Gathered size (msgs ++ [msg]) (elt.store size stray msg) := by
  rw [totalCnt_append_singleton] at htotal
  have hbuf : (if 0 < msg.cnt then msg.data else (range msg.data.length).map stray) =
      msg.data := by
    split
    · rfl
    · next hzero => rw [hnil (by omega)]; rfl
  refine ⟨?_, ?_, fun _ => store_allocated⟩
  · rw [totalCnt_append_singleton, QueryResultElt.store, messageCount_of_lt hcnt, h.recv,
      Nat.mod_eq_of_lt htotal]
  · show ((elt.slots size).set msg.rank (some (if 0 < messageCount msg.cnt then msg.data
      else (range msg.data.length).map stray))).map _ = _
    rw [placed_append_singleton, map_set, map_set, h.slots, messageCount_of_lt hcnt, hbuf]
    rfl

/-- A message without hits changes nothing if the server's slot has no data. -/
theorem Gathered.store_empty (h : Gathered size msgs elt) (hcnt : msg.cnt = 0)
    (hdata : msg.data = []) (hnodup : (msgs.map DataMessage.rank).Nodup)
    (hslot : ∀ other ∈ msgs, other.rank = msg.rank → other.data = [])
    (htotal : totalCnt msgs < 2 ^ 64) : Gathered size msgs (elt.store size stray msg) := by
  have hzero : messageCount msg.cnt = 0 := by rw [hcnt]; rfl
  refine ⟨?_, ?_, fun _ => store_allocated⟩
  · rw [QueryResultElt.store, hzero, Nat.add_zero, h.recv, Nat.mod_eq_of_lt htotal]
  · show ((elt.slots size).set msg.rank (some (if 0 < messageCount msg.cnt then msg.data
      else (range msg.data.length).map stray))).map _ = _
    rw [map_set, h.slots, placed_eq hnodup, List.map_map, hzero, if_neg (lt_irrefl 0), hdata]
    refine ext_getElem (length_set ..) fun k hk _ => ?_
    rw [getElem_set]
    split
    · next hrank =>
      rw [getElem_map, getElem_range, Function.comp_apply]
      cases hfind : msgs.find? fun other => other.rank = k with
      | none => rfl
      | some other =>
        obtain ⟨hmem, hk⟩ := (find?_key_eq_some hnodup).mp hfind
        exact (hslot other hmem (hk.trans hrank.symm)).symm
    · rfl

theorem Gathered.takeData (h : Gathered size msgs elt) (hne : msgs ≠ []) :
    ∃ elt', elt.takeData = some (rankedData size msgs, elt') ∧
      Gathered size [] elt' ∧ elt'.nhits = elt.nhits := by
  obtain ⟨arr, harr⟩ := Option.isSome_iff_exists.mp (h.allocated hne)
  have hslots : arr.map (·.getD []) =
      (placed size DataMessage.rank msgs).map fun slot => (slot.map DataMessage.data).getD [] := by
    simpa only [QueryResultElt.slots, harr, Option.getD_some] using h.slots
  refine ⟨{ elt with dataArr := some (arr.map fun _ => none), recvDataNhits := 0 }, ?_, ?_, rfl⟩
  · rw [QueryResultElt.takeData, harr, rankedData, flatMap_inRank, Option.map_some, flatMap_def,
      flatMap_def, hslots]
  · refine ⟨rfl, ?_, fun hnil => absurd rfl hnil⟩
    have hlen : arr.length = size := by simpa using congrArg length hslots
    simp [QueryResultElt.slots, placed, hlen]

/-! ## The invariant -/

/-- The query a call in progress is about. -/
def ReadPhase.query : ReadPhase → Option Nat
  | .idle => none
  | .response q _ => some q
  | .data q => some q

/-- The messages whose data the entry of a query holds. -/
def ReadWorld.held (w : ReadWorld) (q : Nat) : List DataMessage :=
  if w.client.phase.query = some q then w.handled else []

theorem ReadWorld.held_of_eq (h : w.client.phase.query = some q) :
    w.held q = w.handled := if_pos h

theorem ReadWorld.held_of_ne (h : w.client.phase.query ≠ some q) :
    w.held q = [] := if_neg h

/-- A read is in progress, and part of its messages have been handled. -/
structure Reading (size : Nat) (nhits : Nat → Nat) (p : PlannedRead) (w : ReadWorld) (q : Nat) :
    Prop where
  started : w.started = w.counts.length + 1
  query : q = p.queryId
  fits : p.Fits size (nhits p.queryId)
  nonempty : p.messages ≠ []
  subset : w.handled ⊆ p.messages
  nodup : (w.handled.map DataMessage.rank).Nodup

/-- The counter stands at `todo`, and no message has decremented it. -/
structure Unsignalled (w : ReadWorld) (n : Nat) (todo : Int) : Prop where
  signals : w.signals = 0
  todo : w.client.todo = todo
  incomplete : w.handled ≠ [] → totalCnt w.handled < n

structure Signalled (w : ReadWorld) (n : Nat) : Prop where
  signals : w.signals = 1
  todo : w.client.todo = 0
  complete : totalCnt w.handled = n
  nonempty : w.handled ≠ []

/-- What a read has reached, in each of its waits. -/
def PhaseInv (size : Nat) (nhits : Nat → Nat) (p : PlannedRead) (w : ReadWorld) :
    ReadPhase → Prop
  | .idle => w.started = w.counts.length
  | .response q answered =>
    Reading size nhits p w q ∧ Unsignalled w (nhits q) (if answered then 0 else 1)
  | .data q =>
    Reading size nhits p w q ∧ (Unsignalled w (nhits q) 1 ∨ Signalled w (nhits q))

structure ReadInv (size : Nat) (nhits : Nat → Nat) (plan : Nat → PlannedRead) (w : ReadWorld) :
    Prop where
  nhits_eq : ∀ q, (w.client.results q).nhits = nhits q
  gathered : ∀ q, Gathered size (w.held q) (w.client.results q)
  returned : w.client.returned =
    (List.range w.counts.length).map fun k => some (rankedData size (plan k).messages)
  counts : ∀ n ∈ w.counts, n = 1
  fits : ∀ k < w.started, (plan k).Fits size (nhits (plan k).queryId)
  phase : PhaseInv size nhits (plan w.counts.length) w w.client.phase

theorem readInv_start : ReadInv size nhits plan (ReadWorld.start nhits) where
  nhits_eq := fun _ => rfl
  gathered := fun q => gathered_new size (nhits q)
  returned := rfl
  counts := fun _ h => nomatch h
  fits := fun _ h => nomatch h
  phase := rfl

theorem ReadInv.call (h : ReadInv size nhits plan w) (hidle : w.client.phase = .idle)
    (hfits : (plan w.started).Fits size (nhits (plan w.started).queryId))
    (hne : (plan w.started).messages ≠ []) :
    ReadInv size nhits plan (readStep size stray plan w .call) := by
  have hstarted : w.started = w.counts.length := by simpa only [hidle, PhaseInv] using h.phase
  refine ⟨h.nhits_eq, fun q => ?_, h.returned, h.counts, fun k hk => ?_, ?_⟩
  · -- No message of any query is held before the call, and none after it.
    have hnone : w.held q = [] := by simp [ReadWorld.held, hidle, ReadPhase.query]
    have hnil : (readStep size stray plan w .call).held q = [] := by
      exact ite_self []
    rw [hnil, ← hnone]
    exact h.gathered q
  · rcases Nat.lt_succ_iff_lt_or_eq.mp hk with hlt | rfl
    · exact h.fits k hlt
    · exact hfits
  · rw [hstarted] at hfits hne
    exact ⟨⟨congrArg (· + 1) hstarted, congrArg (fun k => (plan k).queryId) hstarted, hfits, hne,
      nil_subset _, nodup_nil⟩, ⟨rfl, rfl, fun hnil => absurd rfl hnil⟩⟩

theorem ReadInv.respond (h : ReadInv size nhits plan w)
    (hphase : w.client.phase = .response q false) :
    ReadInv size nhits plan (readStep size stray plan w .respond) := by
  have hclient : checkIntRet w.client =
      { w.client with todo := w.client.todo - 1, phase := .response q true } := by
    simp only [checkIntRet, hphase]
  have hinv := h.phase
  rw [hphase] at hinv
  obtain ⟨hreading, hun⟩ := hinv
  refine ⟨?_, fun q' => ?_, ?_, h.counts, h.fits, ?_⟩
  · simpa only [readStep, hclient] using h.nhits_eq
  · have hheld : (readStep size stray plan w .respond).held q' = w.held q' := by
      simp [ReadWorld.held, readStep, hclient, hphase, ReadPhase.query]
    rw [hheld]
    simpa only [readStep, hclient] using h.gathered q'
  · simpa only [readStep, hclient] using h.returned
  · simp only [readStep, hclient]
    refine ⟨⟨hreading.started, hreading.query, hreading.fits, hreading.nonempty,
      hreading.subset, hreading.nodup⟩, ⟨hun.signals, ?_, hun.incomplete⟩⟩
    show w.client.todo - 1 = 0
    have htodo : w.client.todo = 1 := hun.todo
    omega

/-! ## A message -/

theorem Reading.append (h : Reading size nhits p w q)
    (hmem : msg ∈ p.messages) (hnew : msg ∉ w.handled) :
    w.handled ++ [msg] ⊆ p.messages ∧ ((w.handled ++ [msg]).map DataMessage.rank).Nodup := by
  refine ⟨append_subset.mpr ⟨h.subset, by simpa using hmem⟩, ?_⟩
  rw [map_append, nodup_append]
  refine ⟨h.nodup, nodup_singleton _, ?_⟩
  intro r hr r' hr' heq
  obtain ⟨other, hother, rfl⟩ := mem_map.mp hr
  rw [map_singleton, mem_singleton] at hr'
  have hsame : other = msg :=
    inj_on_of_nodup_map h.fits.nodup (h.subset hother) hmem (heq.trans hr')
  exact hnew (hsame ▸ hother)

theorem ReadClient.setResult_results (c : ReadClient) (q q' : Nat) (elt : QueryResultElt) :
    (c.setResult q elt).results q' = if q' = q then elt else c.results q' := rfl

theorem recvReadCoordsData_eq (size : Nat) (stray : Nat → UInt8) (c : ReadClient)
    (msg : DataMessage) : recvReadCoordsData size stray c msg =
      { c.setResult msg.queryId ((c.results msg.queryId).store size stray msg) with
        todo := if ((c.results msg.queryId).store size stray msg).recvDataNhits =
            (c.results msg.queryId).nhits then c.todo - 1 else c.todo } := by
  simp only [recvReadCoordsData, store_nhits]
  split
  · rfl
  · rfl

theorem ReadInv.nhits_setResult (h : ReadInv size nhits plan w) (q : Nat) (msg : DataMessage)
    (q' : Nat) : ((w.client.setResult q ((w.client.results q).store size stray msg)).results
      q').nhits = nhits q' := by
  rw [ReadClient.setResult_results]
  split
  · next heq => rw [store_nhits, heq]; exact h.nhits_eq q
  · exact h.nhits_eq q'

/-- The invariant after a message of the read in progress, given what it does to the
counter. -/
theorem ReadInv.message (h : ReadInv size nhits plan w)
    (hquery : w.client.phase.query = some q)
    (hreading : Reading size nhits (plan w.counts.length) w q)
    (hmem : msg ∈ (plan w.counts.length).messages) (hnew : msg ∉ w.handled)
    (hcnt : msg.cnt < 2 ^ 31) {todo : Int}
    (htodo : (if totalCnt (w.handled ++ [msg]) = nhits q then w.client.todo - 1
      else w.client.todo) = todo)
    (hphase : ∀ w' : ReadWorld, w'.handled = w.handled ++ [msg] → w'.client.todo = todo →
      w'.signals = (if todo < w.client.todo then w.signals + 1 else w.signals) →
      Reading size nhits (plan w.counts.length) w' q →
      PhaseInv size nhits (plan w.counts.length) w' w.client.phase) {k : Nat}
    (hk : k + 1 = w.started) :
    ReadInv size nhits plan (readStep size stray plan w (.data k msg)) := by
  have hfits := hreading.fits
  have hid : msg.queryId = q := (hfits.queryId msg hmem).trans hreading.query.symm
  obtain ⟨hsub, hnodup⟩ := hreading.append hmem hnew
  have hheld : w.held q = w.handled := if_pos hquery
  have hlt : totalCnt (w.handled ++ [msg]) < 2 ^ 64 :=
    (totalCnt_le hnodup.of_map hsub).trans_lt (hfits.total ▸ hfits.total_lt)
  have hstore : Gathered size (w.handled ++ [msg]) ((w.client.results q).store size stray msg) :=
    (hheld ▸ h.gathered q).store hcnt (hfits.data_nil msg hmem) hlt
  have hclient := recvReadCoordsData_eq size stray w.client msg
  rw [hid, hstore.recv, h.nhits_eq q, htodo] at hclient
  have hstep : readStep size stray plan w (.data k msg) =
      { w with
        client := { w.client.setResult q ((w.client.results q).store size stray msg) with
          todo := todo }
        handled := w.handled ++ [msg]
        signals := if todo < w.client.todo then w.signals + 1 else w.signals } := by
    simp only [readStep, hclient, if_pos hk]
  rw [hstep]
  refine ⟨h.nhits_setResult q msg, fun q' => ?_, h.returned, h.counts, h.fits, ?_⟩
  · -- Only the entry of the message's query changes.
    by_cases heq : q' = q
    · subst heq
      rw [ReadWorld.held_of_eq]
      · simp only [ReadClient.setResult_results, if_true]
        exact hstore
      · exact hquery
    · have hother : w.client.phase.query ≠ some q' := by
        rw [hquery]
        exact fun hsome => heq (some.inj hsome).symm
      rw [ReadWorld.held_of_ne]
      · simp only [ReadClient.setResult_results, if_neg heq]
        exact ReadWorld.held_of_ne hother ▸ h.gathered q'
      · exact hother
  · exact hphase _ rfl rfl rfl ⟨hreading.started, hreading.query, hfits, hreading.nonempty,
      hsub, hnodup⟩

theorem ReadInv.complete_iff (h : ReadInv size nhits plan w)
    (hquery : w.client.phase.query = some q)
    (hreading : Reading size nhits (plan w.counts.length) w q)
    (hmem : msg ∈ (plan w.counts.length).messages) :
    (w.client.results msg.queryId).recvDataNhits + msg.cnt =
        (w.client.results msg.queryId).nhits ↔ totalCnt (w.handled ++ [msg]) = nhits q := by
  have hid : msg.queryId = q := (hreading.fits.queryId msg hmem).trans hreading.query.symm
  rw [hid, (h.gathered q).recv, ReadWorld.held_of_eq hquery, h.nhits_eq q,
    totalCnt_append_singleton]

/-- A message of the read in progress. -/
theorem ReadInv.data (h : ReadInv size nhits plan w) {k : Nat}
    (henabled : (ReadAction.data k msg).Enabled size nhits plan w) (hk : k + 1 = w.started)
    (hbusy : w.client.phase ≠ .idle) (hcnt : msg.cnt < 2 ^ 31)
    (hcomplete : (w.client.results msg.queryId).recvDataNhits + msg.cnt =
        (w.client.results msg.queryId).nhits →
      w.client.phase = .data msg.queryId ∧ w.client.todo = 1) :
    ReadInv size nhits plan (readStep size stray plan w (.data k msg)) := by
  obtain ⟨-, hmem, hnew⟩ := henabled
  have hinv := h.phase
  cases hphase : w.client.phase with
  | idle => exact absurd hphase hbusy
  | response q answered =>
    rw [hphase] at hinv
    obtain ⟨hreading, hun⟩ := hinv
    have hlast : k = w.counts.length := by have := hreading.started; omega
    rw [hlast] at hmem
    have hquery : w.client.phase.query = some q := by rw [hphase]; rfl
    rw [h.complete_iff hquery hreading hmem, hphase] at hcomplete
    have hne : totalCnt (w.handled ++ [msg]) ≠ nhits q := fun hall => nomatch (hcomplete hall).1
    refine h.message hquery hreading hmem (hnew hk) hcnt (if_neg hne) ?_ hk
    intro w' hhandled htodo hsignals hreading'
    rw [hphase]
    refine ⟨hreading', ⟨?_, htodo.trans hun.todo, fun _ => ?_⟩⟩
    · rw [hsignals, if_neg (lt_irrefl _), hun.signals]
    · have hle := totalCnt_le hreading'.nodup.of_map hreading'.subset
      rw [hreading.fits.total, ← hreading.query, hhandled] at hle
      rw [hhandled]
      omega
  | data q =>
    rw [hphase] at hinv
    obtain ⟨hreading, hstage⟩ := hinv
    have hlast : k = w.counts.length := by have := hreading.started; omega
    rw [hlast] at hmem
    have hquery : w.client.phase.query = some q := by rw [hphase]; rfl
    rw [h.complete_iff hquery hreading hmem] at hcomplete
    obtain ⟨hsub, hnodup⟩ := hreading.append hmem (hnew hk)
    have hle := totalCnt_le hnodup.of_map hsub
    rw [hreading.fits.total, ← hreading.query] at hle
    by_cases hall : totalCnt (w.handled ++ [msg]) = nhits q
    · have hone := (hcomplete hall).2
      have hun : Unsignalled w (nhits q) 1 := by
        refine hstage.resolve_right fun hsig => ?_
        have := hsig.todo
        omega
      refine h.message hquery hreading hmem (hnew hk) hcnt (if_pos hall) ?_ hk
      intro w' hhandled htodo hsignals hreading'
      rw [hphase]
      refine ⟨hreading', .inr ⟨?_, by omega, hhandled ▸ hall, by simp [hhandled]⟩⟩
      rw [hsignals, if_pos (by omega), hun.signals]
    · have hun : Unsignalled w (nhits q) 1 := by
        refine hstage.resolve_right fun hsig => hall ?_
        have := hsig.complete
        rw [totalCnt_append_singleton] at hle ⊢
        omega
      refine h.message hquery hreading hmem (hnew hk) hcnt (if_neg hall) ?_ hk
      intro w' hhandled htodo hsignals hreading'
      rw [hphase]
      refine ⟨hreading', .inl ⟨?_, htodo.trans hun.todo, fun _ => ?_⟩⟩
      · rw [hsignals, if_neg (lt_irrefl _), hun.signals]
      · rw [hhandled]
        omega

/-- The messages held for a query are part of one read, or there are none. -/
theorem ReadInv.held_spec (h : ReadInv size nhits plan w) (q : Nat) :
    w.held q = [] ∨ w.client.phase ≠ .idle ∧ Reading size nhits (plan w.counts.length) w q ∧
      w.held q = w.handled := by
  by_cases hquery : w.client.phase.query = some q
  · have hinv := h.phase
    have hheld := ReadWorld.held_of_eq hquery
    cases hphase : w.client.phase with
    | idle => rw [hphase] at hquery; cases hquery
    | response q' answered | data q' =>
      rw [hphase] at hinv hquery
      obtain rfl := some.inj hquery
      exact .inr ⟨nofun, hinv.1, hheld⟩
  · exact .inl (ReadWorld.held_of_ne hquery)

/-- A message of a read that has returned. -/
theorem ReadInv.late (h : ReadInv size nhits plan w) {k : Nat} (hk : k < w.started)
    (hmem : msg ∈ (plan k).messages) (hlate : ¬(k + 1 = w.started ∧ w.client.phase ≠ .idle))
    (hcnt : msg.cnt = 0)
    (hapart : w.client.phase ≠ .idle →
      (w.client.results msg.queryId).recvDataNhits ≠ (w.client.results msg.queryId).nhits ∧
        ∀ other ∈ w.handled, other.queryId = msg.queryId → other.rank = msg.rank →
          other.cnt = 0) :
    ReadInv size nhits plan (readStep size stray plan w (.data k msg)) := by
  have hdata : msg.data = [] := (h.fits k hk).data_nil msg hmem hcnt
  have hold := h.gathered msg.queryId
  have hstore : Gathered size (w.held msg.queryId)
      ((w.client.results msg.queryId).store size stray msg) := by
    rcases h.held_spec msg.queryId with hnil | ⟨hbusy, hreading, hheld⟩
    · rw [hnil] at hold ⊢
      exact hold.store_empty hcnt hdata nodup_nil nofun (by decide)
    · rw [hheld] at hold ⊢
      have hfits := hreading.fits
      have hle := totalCnt_le hreading.nodup.of_map hreading.subset
      refine hold.store_empty hcnt hdata hreading.nodup (fun other hother hrank => ?_)
        (hle.trans_lt (hfits.total ▸ hfits.total_lt))
      have hin := hreading.subset hother
      exact hfits.data_nil other hin ((hapart hbusy).2 other hother
        ((hfits.queryId other hin).trans hreading.query.symm) hrank)
  have hresults : ∀ q, Gathered size (w.held q) ((w.client.setResult msg.queryId
      ((w.client.results msg.queryId).store size stray msg)).results q) := by
    intro q
    rw [ReadClient.setResult_results]
    split
    · next heq => exact heq ▸ hstore
    · exact h.gathered q
  have hclient := recvReadCoordsData_eq size stray w.client msg
  have hinv := h.phase
  by_cases hidle : w.client.phase = .idle
  · -- No read is in progress, and the next call sets the counter.
    obtain ⟨todo, handled, signals, hstep⟩ : ∃ todo handled signals,
        readStep size stray plan w (.data k msg) =
          { w with
            client := { w.client.setResult msg.queryId
              ((w.client.results msg.queryId).store size stray msg) with todo := todo }
            handled := handled
            signals := signals } := ⟨_, _, _, by rw [readStep, hclient]⟩
    rw [hstep]
    refine ⟨h.nhits_setResult msg.queryId msg, fun q => ?_, h.returned, h.counts, h.fits, ?_⟩
    · have hnone : w.client.phase.query ≠ some q := by rw [hidle]; exact (some_ne_none q).symm
      have hheld := hresults q
      rw [ReadWorld.held_of_ne hnone] at hheld
      rw [ReadWorld.held_of_ne (by exact hnone)]
      exact hheld
    · rw [hidle] at hinv
      simpa only [ReadClient.setResult, hidle, PhaseInv] using hinv
  · have hrecv : ((w.client.results msg.queryId).store size stray msg).recvDataNhits ≠
        (w.client.results msg.queryId).nhits := by
      rw [hstore.recv, ← hold.recv]
      exact (hapart hidle).1
    have hstep : readStep size stray plan w (.data k msg) =
        { w with
          client := w.client.setResult msg.queryId
            ((w.client.results msg.queryId).store size stray msg) } := by
      simp only [readStep, hclient, if_neg hrecv, if_neg fun heq => hlate ⟨heq, hidle⟩,
        lt_irrefl, if_false]
      rfl
    rw [hstep]
    refine ⟨h.nhits_setResult msg.queryId msg, hresults, h.returned, h.counts, h.fits, ?_⟩
    show PhaseInv size nhits (plan w.counts.length) _ w.client.phase
    cases hphase : w.client.phase with
    | idle => exact absurd hphase hidle
    | response q answered =>
      rw [hphase] at hinv
      obtain ⟨hr, hun⟩ := hinv
      exact ⟨⟨hr.started, hr.query, hr.fits, hr.nonempty, hr.subset, hr.nodup⟩,
        ⟨hun.signals, hun.todo, hun.incomplete⟩⟩
    | data q =>
      rw [hphase] at hinv
      obtain ⟨hr, hstage⟩ := hinv
      exact ⟨⟨hr.started, hr.query, hr.fits, hr.nonempty, hr.subset, hr.nodup⟩,
        hstage.imp (fun hun => ⟨hun.signals, hun.todo, hun.incomplete⟩)
          fun hsig => ⟨hsig.signals, hsig.todo, hsig.complete, hsig.nonempty⟩⟩

/-! ## The end of a wait -/

theorem ReadInv.wake (h : ReadInv size nhits plan w) (hbusy : w.client.phase ≠ .idle)
    (htodo : w.client.todo ≤ 0) : ReadInv size nhits plan (readStep size stray plan w .wake) := by
  have hinv := h.phase
  cases hphase : w.client.phase with
  | idle => exact absurd hphase hbusy
  | response q answered =>
    rw [hphase] at hinv
    obtain ⟨hreading, hun⟩ := hinv
    have htrue : answered = true := by
      cases answered with
      | true => rfl
      | false => exact absurd (hun.todo ▸ htodo) (by decide)
    rw [htrue] at hphase
    have hstep : readStep size stray plan w .wake =
        { w with client := { w.client with todo := 1, phase := .data q } } := by
      simp [readStep, getSelDataWake, hphase, Int.not_lt.mpr htodo]
    rw [hstep]
    refine ⟨h.nhits_eq, fun q' => ?_, h.returned, h.counts, h.fits, ?_⟩
    · have hheld := h.gathered q'
      rw [ReadWorld.held, hphase] at hheld
      exact hheld
    · exact ⟨⟨hreading.started, hreading.query, hreading.fits, hreading.nonempty,
        hreading.subset, hreading.nodup⟩, .inl ⟨hun.signals, rfl, hun.incomplete⟩⟩
  | data q =>
    rw [hphase] at hinv
    obtain ⟨hreading, hstage⟩ := hinv
    have hsig : Signalled w (nhits q) := by
      refine hstage.resolve_left fun hun => ?_
      have := hun.todo
      omega
    have hheld := h.gathered q
    rw [ReadWorld.held_of_eq (by rw [hphase]; rfl)] at hheld
    obtain ⟨elt, htake, hnew, hnhits⟩ := hheld.takeData hsig.nonempty
    have hdata : rankedData size w.handled = rankedData size (plan w.counts.length).messages :=
      rankedData_of_total hreading.fits hreading.subset hreading.nodup
        (hreading.query ▸ hsig.complete)
    have hstep : readStep size stray plan w .wake =
        { w with
          client := { w.client.setResult q elt with
            phase := .idle
            returned := w.client.returned ++
              [some (rankedData size (plan w.counts.length).messages)] }
          counts := w.counts ++ [w.signals] } := by
      simp [readStep, getSelDataWake, hphase, Int.not_lt.mpr htodo, htake, hdata]
    rw [hstep]
    refine ⟨fun q' => ?_, fun q' => ?_, ?_, ?_, h.fits, ?_⟩
    · simp only [ReadClient.setResult_results]
      split
      · next heq => rw [hnhits, heq]; exact h.nhits_eq q
      · exact h.nhits_eq q'
    · -- The entry is emptied; all others were empty before.
      rw [ReadWorld.held_of_ne]
      swap
      · exact (some_ne_none q').symm
      simp only [ReadClient.setResult_results]
      split
      · exact hnew
      · next hne =>
        have hother : w.client.phase.query ≠ some q' := by
          rw [hphase]
          exact fun hsome => hne (some.inj hsome).symm
        exact ReadWorld.held_of_ne hother ▸ h.gathered q'
    · simp [h.returned, range_succ]
    · intro n hn
      rcases mem_append.mp hn with hn | hn
      · exact h.counts n hn
      · rw [mem_singleton.mp hn]
        exact hsig.signals
    · simpa [PhaseInv] using hreading.started

theorem ReadInv.step (h : ReadInv size nhits plan w) {a : ReadAction}
    (ha : a.Enabled size nhits plan w ∧ SignalsOnce plan w a) :
    ReadInv size nhits plan (readStep size stray plan w a) := by
  obtain ⟨henabled, honce⟩ := ha
  cases a with
  | call => exact h.call henabled.1 henabled.2 honce
  | respond =>
    obtain ⟨q, hphase⟩ := henabled
    exact h.respond hphase
  | data k msg =>
    rw [SignalsOnce] at honce
    split at honce
    · next hlast => exact h.data henabled hlast.1 hlast.2 honce.1 honce.2
    · next hlate => exact h.late henabled.1 henabled.2.1 hlate honce.1 honce.2
  | wake => exact h.wake henabled.1 henabled.2

theorem ReadInv.readsOnce (h : ReadInv size nhits plan w) : ReadsOnce size plan w where
  returned := h.returned
  counts := h.counts
  answered := by
    intro q hphase
    have hinv := h.phase
    rw [hphase] at hinv
    exact hinv.2.todo.le
  arrived := by
    intro q hphase hall
    have hinv := h.phase
    rw [hphase] at hinv
    obtain ⟨hreading, hun | hsig⟩ := hinv
    · -- With every message handled the hits would be complete.
      obtain ⟨msg, hmsg⟩ := exists_mem_of_ne_nil _ hreading.nonempty
      have hlt := hun.incomplete (ne_nil_of_mem (hall msg hmsg))
      have hle := totalCnt_le hreading.fits.nodup.of_map hall
      rw [hreading.fits.total, ← hreading.query] at hle
      omega
    · exact hsig.todo.le

/-- In every run whose steps meet the condition each read returns all data in the
order of the ranks after one decrement, and no wait goes on when what it waits for
has come. -/
theorem readsOnce_of_signalsOnce (size : Nat) (stray : Nat → UInt8) (nhits : Nat → Nat)
    (plan : Nat → PlannedRead) (acts : List ReadAction)
    (h : Along (readStep size stray plan)
      (fun w a => a.Enabled size nhits plan w ∧ SignalsOnce plan w a) (ReadWorld.start nhits)
      acts) :
    ReadsOnce size plan (run (readStep size stray plan) (ReadWorld.start nhits) acts) := by
  have hinv : ReadInv size nhits plan
      (run (readStep size stray plan) (ReadWorld.start nhits) acts) :=
    Along.invariant_nil (I := fun _ w => ReadInv size nhits plan w)
      (fun _ _ _ hI ha => hI.step ha) readInv_start h
  exact hinv.readsOnce

def twoServers (cnt₀ cnt₁ : Nat) : PlannedRead where
  queryId := 7
  messages := [⟨7, 0, cnt₀, List.replicate cnt₀ 1⟩, ⟨7, 1, cnt₁, List.replicate cnt₁ 2⟩]

theorem twoServers_fits (cnt₀ cnt₁ : Nat) (h : cnt₀ + cnt₁ < 2 ^ 64) :
    (twoServers cnt₀ cnt₁).Fits 2 (cnt₀ + cnt₁) where
  rank_lt := by simp [twoServers]
  nodup := by simp [twoServers]
  queryId := by simp [twoServers]
  total := by simp [twoServers, totalCnt]
  total_lt := h
  data_nil := by
    intro msg hmsg hcnt
    simp only [twoServers, mem_cons, not_mem_nil, or_false] at hmsg
    rcases hmsg with rfl | rfl
    · exact congrArg (replicate · 1) hcnt
    · exact congrArg (replicate · 2) hcnt

theorem signalsOnce_of_last {k : Nat} (hlast : k + 1 = w.started ∧ w.client.phase ≠ .idle)
    (hcnt : msg.cnt < 2 ^ 31)
    (hcomplete : (w.client.results msg.queryId).recvDataNhits + msg.cnt =
        (w.client.results msg.queryId).nhits →
      w.client.phase = .data msg.queryId ∧ w.client.todo = 1) :
    SignalsOnce plan w (.data k msg) := by
  rw [SignalsOnce, if_pos hlast]
  exact ⟨hcnt, hcomplete⟩

/-- Two hits of the second server arrive before one of the first. -/
theorem readsOnce_second_first :
    ReadsOnce 2 (fun _ => twoServers 1 2)
      (run (readStep 2 (fun _ => 0) fun _ => twoServers 1 2) (ReadWorld.start fun _ => 3)
        [.call, .respond, .wake, .data 0 ⟨7, 1, 2, [2, 2]⟩, .data 0 ⟨7, 0, 1, [1]⟩, .wake]) := by
  refine readsOnce_of_signalsOnce 2 (fun _ => 0) (fun _ => 3) (fun _ => twoServers 1 2) _ ?_
  refine ⟨⟨⟨rfl, twoServers_fits 1 2 (by decide)⟩, cons_ne_nil _ _⟩, ⟨⟨7, rfl⟩, trivial⟩,
    ⟨⟨by decide +kernel, by decide +kernel⟩, trivial⟩,
    ⟨⟨by decide, by decide, fun _ => by decide⟩,
      signalsOnce_of_last ⟨rfl, by decide +kernel⟩ (by decide) (by decide +kernel)⟩,
    ⟨⟨by decide, by decide, fun _ => by decide +kernel⟩,
      signalsOnce_of_last ⟨rfl, by decide +kernel⟩ (by decide) (by decide +kernel)⟩,
    ⟨⟨by decide +kernel, by decide +kernel⟩, trivial⟩, trivial⟩

/-- The second server has no hits, and its message comes last: the counter is
decremented twice. And if the data comes with the response, the second wait does not
end. -/
theorem not_readsOnce_no_hits :
    (Along (readStep 2 (fun _ => 0) fun _ => twoServers 1 0)
        (fun w a => a.Enabled 2 (fun _ => 1) (fun _ => twoServers 1 0) w)
        (ReadWorld.start fun _ => 1)
        [.call, .respond, .wake, .data 0 ⟨7, 0, 1, [1]⟩, .data 0 ⟨7, 1, 0, []⟩, .wake] ∧
      ¬ ReadsOnce 2 (fun _ => twoServers 1 0)
        (run (readStep 2 (fun _ => 0) fun _ => twoServers 1 0) (ReadWorld.start fun _ => 1)
          [.call, .respond, .wake, .data 0 ⟨7, 0, 1, [1]⟩, .data 0 ⟨7, 1, 0, []⟩, .wake])) ∧
    Along (readStep 2 (fun _ => 0) fun _ => twoServers 1 2)
        (fun w a => a.Enabled 2 (fun _ => 3) (fun _ => twoServers 1 2) w)
        (ReadWorld.start fun _ => 3)
        [.call, .respond, .data 0 ⟨7, 0, 1, [1]⟩, .data 0 ⟨7, 1, 2, [2, 2]⟩, .wake] ∧
      ¬ ReadsOnce 2 (fun _ => twoServers 1 2)
        (run (readStep 2 (fun _ => 0) fun _ => twoServers 1 2) (ReadWorld.start fun _ => 3)
          [.call, .respond, .data 0 ⟨7, 0, 1, [1]⟩, .data 0 ⟨7, 1, 2, [2, 2]⟩, .wake]) := by
  refine ⟨⟨?_, fun h => absurd (h.counts 2 (by decide +kernel)) (by decide)⟩, ?_,
    fun h => absurd (h.arrived 7 (by decide +kernel) (by decide +kernel)) (by decide +kernel)⟩
  · refine ⟨⟨rfl, twoServers_fits 1 0 (by decide)⟩, ⟨7, rfl⟩,
      ⟨by decide +kernel, by decide +kernel⟩,
      ⟨by decide, by decide, fun _ => by decide⟩,
      ⟨by decide, by decide, fun _ => by decide +kernel⟩,
      ⟨by decide +kernel, by decide +kernel⟩, trivial⟩
  · refine ⟨⟨rfl, twoServers_fits 1 2 (by decide)⟩, ⟨7, rfl⟩,
      ⟨by decide, by decide, fun _ => by decide⟩,
      ⟨by decide, by decide, fun _ => by decide +kernel⟩,
      ⟨by decide +kernel, by decide +kernel⟩, trivial⟩

end Pdc
