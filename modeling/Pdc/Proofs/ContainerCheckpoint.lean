import Pdc.Proofs.Checkpoint
import Pdc.Proofs.Container

/-!
# Containers in a checkpoint

Of a container only the struct is written. The array with the ids of its objects
and the list of its tags stay behind, and the pointers to them mean nothing to the
process that reads the file. So a container comes back as it was just if both
pointers were null: if it never had an object added, and has no tags.

A container that has come back as it was also behaves as it did. The tables may
have their entries in another order, which matters to a search by id if two
containers have the same id. `Created` says that they do not.
-/

namespace Pdc

open Lib List Option

variable {B : Type}

/-! ## Requests -/

inductive ContainerRequest where
  | create (contName : Bytes)
  | addObjs (objIds : List UInt64) (contId : UInt64)
  | delObjs (objIds : List UInt64) (contId : UInt64)
  | addKvtag (req : MetadataAddKvtagIn)
  | delKvtag (req : MetadataGetKvtagIn)
  | getKvtag (req : MetadataGetKvtagIn)
  | findByName (contName : Bytes)

variable {containers : HashTable Container} {contId objId : UInt64} {key : UInt32}
  {cont cont' : Container} {objIds : List UInt64} {change : Container → Option Container}
  {r : ContainerRequest} {rs : List ContainerRequest} {s : ObjectServer B}

/-- What a request is answered with. -/
inductive ContainerAnswer where
  | contId (id : UInt64)
  | perr (ret : Perr)
  | ret (ret : Int)
  | kvtag (out : MetadataGetKvtagOut)
  | found (cont : Option Container)

def containerStep (s : ObjectServer B) :
    ContainerRequest → Option (ObjectServer B × ContainerAnswer)
  | .create contName => (createContainer s (.ofName contName)).map fun r => (r.1, .contId r.2)
  | .addObjs objIds contId =>
    (containerAddObjs s.containers objIds contId).map fun r =>
      ({ s with containers := r.1 }, .perr r.2)
  | .delObjs objIds contId =>
    (containerDelObjs s.containers objIds contId).map fun r =>
      ({ s with containers := r.1 }, .perr r.2)
  | .addKvtag req => (addKvtagSometa s req).map fun r => (r.1, .ret r.2)
  | .delKvtag req => (delKvtagSometa s req).map fun r => (r.1, .ret r.2)
  | .getKvtag req => (getKvtagSometa s req).map fun out => (s, .kvtag out)
  | .findByName contName => some (s, .found (findContainerByName s.containers contName))

def serveContainers (s : ObjectServer B) :
    List ContainerRequest → Option (ObjectServer B × List ContainerAnswer)
  | [] => some (s, [])
  | r :: rs =>
    (containerStep s r).bind fun a => (serveContainers a.1 rs).map fun as => (as.1, a.2 :: as.2)

/-- A request that does not create a container. -/
def ContainerRequest.Later : ContainerRequest → Prop
  | .create _ => False
  | _ => True

/-! ## Searches by id -/

/-- No two containers have the same id. -/
def IdsApart (containers : HashTable Container) : Prop :=
  ∀ key key' cont cont', containers.lookup key = some cont → containers.lookup key' = some cont' →
    cont.contId = cont'.contId → key = key'

theorem findContainerById_eq_some (h : IdsApart containers) :
    findContainerById containers contId = some (key, cont) ↔
      containers.lookup key = some cont ∧ cont.contId = contId := by
  rw [findContainerById, map_eq_some_iff]
  constructor
  · rintro ⟨pair, hfind, heq⟩
    obtain ⟨rfl, rfl⟩ := Prod.mk.inj heq
    exact ⟨AList.mem_lookup_iff.mpr (mem_of_find?_eq_some hfind), by
      simpa using find?_some hfind⟩
  · rintro ⟨hlookup, rfl⟩
    have hmem : (⟨key, cont⟩ : Sigma fun _ : UInt32 => Container) ∈ containers.entries :=
      AList.mem_lookup_iff.mp hlookup
    cases hfind : containers.entries.find? fun pair => decide (pair.2.contId = cont.contId) with
    | none => exact absurd (find?_eq_none.mp hfind _ hmem) (by simp)
    | some pair =>
      have hpair : containers.lookup pair.1 = some pair.2 :=
        AList.mem_lookup_iff.mpr (mem_of_find?_eq_some hfind)
      have hid : pair.2.contId = cont.contId := by simpa using find?_some hfind
      have hkey := h _ _ _ _ hpair hlookup hid
      rw [hkey, hlookup] at hpair
      refine ⟨pair, rfl, ?_⟩
      rw [hkey, some.inj hpair]

theorem findContainerById_congr {containers' : HashTable Container} (h : IdsApart containers)
    (hsame : ∀ key, containers'.lookup key = containers.lookup key) (contId : UInt64) :
    findContainerById containers' contId = findContainerById containers contId := by
  have h' : IdsApart containers' := by
    intro key key' cont cont' hcont hcont'
    rw [hsame] at hcont hcont'
    exact h key key' cont cont' hcont hcont'
  refine ext fun r => ?_
  obtain ⟨key, cont⟩ := r
  rw [findContainerById_eq_some h, findContainerById_eq_some h', hsame]

theorem IdsApart.insert (h : IdsApart containers) (hcont : containers.lookup key = some cont)
    (hid : cont'.contId = cont.contId) : IdsApart (containers.insert key cont') := by
  intro key₁ key₂ cont₁ cont₂ h₁ h₂ heq
  rcases lookup_insert_eq_some_iff.mp h₁ with ⟨rfl, rfl⟩ | ⟨_, hold₁⟩ <;>
    rcases lookup_insert_eq_some_iff.mp h₂ with ⟨rfl, rfl⟩ | ⟨_, hold₂⟩
  · rfl
  · exact h _ _ _ _ hcont hold₂ (hid.symm.trans heq)
  · exact h _ _ _ _ hold₁ hcont (heq.trans hid)
  · exact h _ _ _ _ hold₁ hold₂ heq

/-! ## Servers that hold the same containers -/

/-- Two servers without objects that hold the same containers. -/
structure SameContainers (s s' : ObjectServer B) : Prop where
  table : s.table = ∅
  table' : s'.table = ∅
  lookup : ∀ key, s'.containers.lookup key = s.containers.lookup key
  idsApart : IdsApart s.containers

theorem SameContainers.insert {s' : ObjectServer B} (h : SameContainers s s')
    (hcont : s.containers.lookup key = some cont) (hid : cont'.contId = cont.contId) :
    SameContainers { s with containers := s.containers.insert key cont' }
      { s' with containers := s'.containers.insert key cont' } where
  table := h.table
  table' := h.table'
  lookup key' := by
    by_cases heq : key' = key
    · subst heq
      rw [AList.lookup_insert, AList.lookup_insert]
    · show (s'.containers.insert key cont').lookup key' =
        (s.containers.insert key cont').lookup key'
      rw [AList.lookup_insert_ne heq, AList.lookup_insert_ne heq, h.lookup]
  idsApart := h.idsApart.insert hcont hid

/-- Both servers answer the same, and hold the same afterwards. -/
def SameOutcome (r r' : Option (ObjectServer B × ContainerAnswer)) : Prop :=
  Option.Rel (fun a a' => a'.2 = a.2 ∧ SameContainers a.1 a'.1) r r'

/-- What requests do not change of a container. -/
def Container.ident (cont : Container) : UInt64 × Bytes := (cont.contId, cont.contName)

/-- The pointers of a container lead somewhere, and there is an array of ids just if one was
allocated. -/
structure Container.Live (cont : Container) : Prop where
  nAllocated_eq_zero_iff : cont.nAllocated = 0 ↔ cont.objIds = .null
  objIds_ne_stale : cont.objIds ≠ .stale
  kvtags_ne_stale : cont.kvtagListHead ≠ .stale

/-- How requests change a container. -/
structure Container.Changed (cont cont' : Container) : Prop where
  ident : cont'.ident = cont.ident
  live : cont.Live → cont'.Live

theorem Container.Changed.refl (cont : Container) : cont.Changed cont := ⟨rfl, id⟩

theorem Container.allocated_pos (cont : Container) (n : Nat) : 0 < cont.allocated n := by
  rw [Container.allocated]
  split
  · exact Nat.succ_pos _
  · split <;> omega

theorem Container.changed_addObjs (h : cont.addObjs objIds = some cont') : cont.Changed cont' := by
  have hpos := cont.allocated_pos objIds.length
  rw [Container.addObjs] at h
  split at h
  · obtain ⟨ids, _, rfl⟩ := map_eq_some_iff.mp h
    exact ⟨rfl, fun hlive => ⟨by simp; omega, by simp, hlive.kvtags_ne_stale⟩⟩
  · cases h

theorem Container.changed_delObj (h : cont.delObj objId = some cont') : cont.Changed cont' := by
  rw [Container.delObj] at h
  split at h
  · rw [← some.inj h]
    exact .refl cont
  · split at h
    · next ids hids =>
      split at h
      · cases h
        refine ⟨rfl, fun hlive => ⟨?_, by simp, hlive.kvtags_ne_stale⟩⟩
        simpa [hids] using hlive.nAllocated_eq_zero_iff
      · rw [← some.inj h]
        exact .refl cont
    · cases h
    · cases h

theorem Container.changed_delObjs (h : objIds.foldlM Container.delObj cont = some cont') :
    cont.Changed cont' := by
  induction objIds generalizing cont with
  | nil =>
    obtain rfl : cont = cont' := some.inj h
    exact .refl cont
  | cons objId objIds ih =>
    obtain ⟨cont₁, hfirst, hrest⟩ := bind_eq_some_iff.mp h
    have hchanged := changed_delObj hfirst
    exact ⟨(ih hrest).ident.trans hchanged.ident, (ih hrest).live ∘ hchanged.live⟩

theorem Container.changed_tags (cont : Container) (list : List Kvtag) :
    cont.Changed { cont with kvtagListHead := .ofList list } :=
  ⟨rfl, fun hlive => ⟨hlive.nAllocated_eq_zero_iff, hlive.objIds_ne_stale, by
    cases list <;> simp [Pointer.ofList]⟩⟩

section

variable {s s' : ObjectServer B} (h : SameContainers s s')
include h

theorem SameContainers.changeContainer
    (hchanged : ∀ {cont cont'}, change cont = some cont' → cont.Changed cont') (contId : UInt64) :
    SameOutcome ((Pdc.changeContainer change s.containers contId).map fun r =>
        ({ s with containers := r.1 }, .perr r.2))
      ((Pdc.changeContainer change s'.containers contId).map fun r =>
        ({ s' with containers := r.1 }, .perr r.2)) := by
  rw [Pdc.changeContainer, Pdc.changeContainer, findContainerById_congr h.idsApart h.lookup]
  cases hfind : findContainerById s.containers contId with
  | none => exact .some ⟨rfl, h⟩
  | some r =>
    obtain ⟨key, cont⟩ := r
    have hcont := ((findContainerById_eq_some h.idsApart).mp hfind).1
    cases hchange : change cont with
    | none => simp only [hchange]; exact .none
    | some cont' =>
      simp only [hchange]
      exact .some ⟨rfl, h.insert hcont (congrArg Prod.fst (hchanged hchange).ident)⟩

theorem SameContainers.changeTags
    (change : List Kvtag → List Kvtag) (hashValue : UInt32) (objId : UInt64) :
    SameOutcome ((changeTagsSometa change s hashValue objId).map fun r => (r.1, .ret r.2))
      ((changeTagsSometa change s' hashValue objId).map fun r => (r.1, .ret r.2)) := by
  have hnone : s.table.lookup hashValue = none := by rw [h.table]; rfl
  have hnone' : s'.table.lookup hashValue = none := by rw [h.table']; rfl
  rw [changeTagsSometa, changeTagsSometa]
  simp only [hnone, hnone', h.lookup]
  cases hcont : s.containers.lookup hashValue with
  | none => exact .some ⟨rfl, h⟩
  | some cont =>
    cases hlist : cont.kvtagListHead.list with
    | none => simp only [hlist]; exact .none
    | some list =>
      simp only [hlist]
      exact .some ⟨rfl, h.insert hcont rfl⟩

theorem SameContainers.step (hr : r.Later) :
    SameOutcome (containerStep s r) (containerStep s' r) := by
  cases r with
  | create contName => exact absurd hr id
  | addObjs objIds contId =>
    exact h.changeContainer Container.changed_addObjs contId
  | delObjs objIds contId =>
    exact h.changeContainer Container.changed_delObjs contId
  | addKvtag req => exact h.changeTags _ req.hashValue req.objId
  | delKvtag req => exact h.changeTags _ req.hashValue req.objId
  | getKvtag req =>
    have hnone : s.table.lookup req.hashValue = none := by rw [h.table]; rfl
    have hnone' : s'.table.lookup req.hashValue = none := by rw [h.table']; rfl
    have hget : getKvtagSometa s' req = getKvtagSometa s req := by
      rw [getKvtagSometa, getKvtagSometa]
      simp only [hnone, hnone', h.lookup]
    rw [containerStep, containerStep, hget]
    cases getKvtagSometa s req with
    | none => exact .none
    | some out => exact .some ⟨rfl, h⟩
  | findByName contName =>
    have hfind : findContainerByName s'.containers contName =
        findContainerByName s.containers contName := by
      rw [findContainerByName, findContainerByName, h.lookup]
    rw [containerStep, containerStep, hfind]
    exact .some ⟨rfl, h⟩

theorem SameContainers.serve (hrs : ∀ r ∈ rs, r.Later) :
    (serveContainers s' rs).map Prod.snd = (serveContainers s rs).map Prod.snd := by
  induction rs generalizing s s' with
  | nil => rfl
  | cons r rs ih =>
    rw [forall_mem_cons] at hrs
    have hstep := h.step hrs.1
    rw [serveContainers, serveContainers]
    cases hs : containerStep s r with
    | none =>
      rw [hs] at hstep
      cases hs' : containerStep s' r with
      | none => rfl
      | some a' => rw [hs'] at hstep; cases hstep
    | some a =>
      rw [hs] at hstep
      cases hs' : containerStep s' r with
      | none => rw [hs'] at hstep; cases hstep
      | some a' =>
        rw [hs'] at hstep
        cases hstep with
        | some hafter =>
          have hcons : ∀ (x : ContainerAnswer) (o : Option (ObjectServer B × _)),
              (o.map fun as => (as.1, x :: as.2)).map Prod.snd = (o.map Prod.snd).map (x :: ·) := by
            intro x o
            rw [Option.map_map, Option.map_map]
            rfl
          rw [Option.bind_some, Option.bind_some, hcons, hcons, ih hafter.2 hrs.2, hafter.1]

end

/-! ## Containers of a running server -/

theorem Container.live_new (contId : UInt64) (contName : Bytes) :
    ({ contId, contName } : Container).Live where
  nAllocated_eq_zero_iff := ⟨fun _ => rfl, fun _ => rfl⟩
  objIds_ne_stale := by simp
  kvtags_ne_stale := by simp

/-- A server that has served requests for containers only. -/
structure Built (start : UInt64) (s : ObjectServer B) : Prop where
  table : s.table = ∅
  created : ∃ names, Created start names s
  live : ∀ {key cont}, s.containers.lookup key = some cont → cont.Live

namespace Built

variable {start : UInt64} {s s' : ObjectServer B}

theorem init (start : UInt64) : Built start ({ idSeq := start } : ObjectServer B) where
  table := rfl
  created := ⟨[], Created.init (s := { idSeq := start }) rfl⟩
  live h := by cases h

section

variable (h : Built start s)
include h

theorem replace (hcont : s.containers.lookup key = some cont) (hchanged : cont.Changed cont') :
    Built start { s with containers := s.containers.insert key cont' } where
  table := h.table
  created := by
    obtain ⟨names, hcreated⟩ := h.created
    exact ⟨names, hcreated.replace hcont (congrArg Prod.fst hchanged.ident)
      (congrArg Prod.snd hchanged.ident)⟩
  live hlookup := by
    rcases lookup_insert_eq_some_iff.mp hlookup with ⟨rfl, rfl⟩ | ⟨_, hold⟩
    · exact hchanged.live (h.live hcont)
    · exact h.live hold

theorem idsApart : IdsApart s.containers := by
  obtain ⟨names, hcreated⟩ := h.created
  exact fun _ _ _ _ hcont hcont' hid => hcreated.distinct hcont hcont' hid

theorem create {contName : Bytes}
    (hcreate : createContainer s (.ofName contName) = some (s', contId)) : Built start s' := by
  obtain ⟨names, hcreated⟩ := h.created
  have hafter := hcreated.step hcreate
  rcases createContainer_cases hcreate with ⟨_, _, rfl, _⟩ | ⟨_, _, _, rfl⟩
  · exact h
  · refine ⟨h.table, ⟨_, hafter⟩, fun {key cont} hlookup => ?_⟩
    rcases lookup_insert_eq_some_iff.mp hlookup with ⟨rfl, rfl⟩ | ⟨_, hold⟩
    · exact Container.live_new _ _
    · exact h.live hold

theorem changeContainer (hchanged : ∀ {cont cont'}, change cont = some cont' → cont.Changed cont')
    {ret : Perr}
    (hchange : Pdc.changeContainer change s.containers contId = some (containers, ret)) :
    Built start { s with containers } := by
  rw [Pdc.changeContainer] at hchange
  split at hchange
  · next key cont hfind =>
    obtain ⟨cont', hcont', heq⟩ := map_eq_some_iff.mp hchange
    obtain ⟨rfl, -⟩ := Prod.mk.inj heq
    have hcont := ((findContainerById_eq_some h.idsApart).mp hfind).1
    exact h.replace hcont (hchanged hcont')
  · obtain ⟨rfl, -⟩ := Prod.mk.inj (some.inj hchange)
    exact h

theorem changeTags {change : List Kvtag → List Kvtag} {hashValue : UInt32}
    {ret : Int} (hchange : changeTagsSometa change s hashValue objId = some (s', ret)) :
    Built start s' := by
  have hnone : s.table.lookup hashValue = none := by rw [h.table]; rfl
  rw [changeTagsSometa] at hchange
  simp only [hnone] at hchange
  split at hchange
  · next cont hcont =>
    obtain ⟨list, _, heq⟩ := map_eq_some_iff.mp hchange
    obtain ⟨rfl, -⟩ := Prod.mk.inj heq
    exact h.replace hcont (cont.changed_tags _)
  · obtain ⟨rfl, -⟩ := Prod.mk.inj (some.inj hchange)
    exact h

theorem step {a : ContainerAnswer} (hstep : containerStep s r = some (s', a)) : Built start s' := by
  cases r with
  | create contName =>
    obtain ⟨r, hcreate, heq⟩ := map_eq_some_iff.mp hstep
    obtain ⟨rfl, -⟩ := Prod.mk.inj heq
    exact h.create hcreate
  | addObjs objIds contId =>
    obtain ⟨r, hchange, heq⟩ := map_eq_some_iff.mp hstep
    obtain ⟨rfl, -⟩ := Prod.mk.inj heq
    exact h.changeContainer Container.changed_addObjs hchange
  | delObjs objIds contId =>
    obtain ⟨r, hchange, heq⟩ := map_eq_some_iff.mp hstep
    obtain ⟨rfl, -⟩ := Prod.mk.inj heq
    exact h.changeContainer Container.changed_delObjs hchange
  | addKvtag req =>
    obtain ⟨r, hchange, heq⟩ := map_eq_some_iff.mp hstep
    obtain ⟨rfl, -⟩ := Prod.mk.inj heq
    exact h.changeTags hchange
  | delKvtag req =>
    obtain ⟨r, hchange, heq⟩ := map_eq_some_iff.mp hstep
    obtain ⟨rfl, -⟩ := Prod.mk.inj heq
    exact h.changeTags hchange
  | getKvtag req =>
    obtain ⟨r, _, heq⟩ := map_eq_some_iff.mp hstep
    obtain ⟨rfl, -⟩ := Prod.mk.inj heq
    exact h
  | findByName contName =>
    obtain ⟨rfl, -⟩ := Prod.mk.inj (some.inj hstep)
    exact h

theorem run {as : List ContainerAnswer}
    (hserve : serveContainers s rs = some (s', as)) : Built start s' := by
  induction rs generalizing s as with
  | nil =>
    obtain ⟨rfl, -⟩ := Prod.mk.inj (some.inj hserve)
    exact h
  | cons r rs ih =>
    obtain ⟨⟨s₁, a⟩, hfirst, hrest⟩ := bind_eq_some_iff.mp hserve
    obtain ⟨⟨s₂, as'⟩, hlater, heq⟩ := map_eq_some_iff.mp hrest
    obtain ⟨rfl, -⟩ := Prod.mk.inj heq
    exact ih (h.step hfirst) hlater

end

end Built

/-! ## The round trip -/

/-- The restarted server has the same containers, with their ids, names, members, counts and
tags, and answers all later requests for them in the same way. -/
def ContainersRoundTrip (layout : StructLayout) (ops : BloomOps B) (idSeq : UInt64)
    (s : ObjectServer B) : Prop :=
  ∃ s', restart layout ops idSeq (checkpoint layout { server := s }) = some (s', []) ∧
    (∀ key, s'.server.containers.lookup key = s.containers.lookup key) ∧
    ∀ rs : List ContainerRequest, (∀ r ∈ rs, r.Later) →
      (serveContainers s'.server rs).map Prod.snd = (serveContainers s rs).map Prod.snd

/-- No container has an array of ids or a list of tags. -/
def BareContainers (s : ObjectServer B) : Prop :=
  ∀ key cont, s.containers.lookup key = some cont → cont.nAllocated = 0 ∧ cont.kvtagListHead = .null

theorem Pointer.forget_eq_self {α : Type} {p : Pointer α} (h : p.forget = p) (hlive : p ≠ .stale) :
    p = .null := by
  cases p with
  | null => rfl
  | valid block => cases h
  | stale => exact absurd rfl hlive

theorem Built.storable {start : UInt64} (h : Built start s)
    {layout : StructLayout} (hlt : s.containers.entries.length < 2 ^ 31)
    (hfits : ∀ pair ∈ s.containers.entries, layout.container.Fits pair.2) :
    CheckpointState.Storable layout ({ server := s } : CheckpointState B) where
  containers_lt := hlt
  containers := hfits
  contKeys pair hpair := by
    obtain ⟨names, hcreated⟩ := h.created
    exact (hcreated.named (AList.mem_lookup_iff.mpr hpair)).2.1
  entries_lt := by simp [h.table]
  entries pair hpair := by simp [h.table] at hpair
  keys pair hpair := by simp [h.table] at hpair
  dataServerRegions_lt := by simp
  dataServerRegions r hr := by simp at hr
  transferCheckpoint_lt := by simp

theorem Container.forget_of_null (hids : cont.objIds = .null) (htags : cont.kvtagListHead = .null) :
    cont.forget = cont := by
  cases cont
  cases hids
  cases htags
  rfl

section RoundTrip

variable {start : UInt64} {s : ObjectServer B} {layout : StructLayout} {ops : BloomOps B}
  {idSeq : UInt64}

theorem ContainersRoundTrip.bareContainers (h : ContainersRoundTrip layout ops idSeq s)
    (hbuilt : Built start s)
    (hstorable : CheckpointState.Storable layout ({ server := s } : CheckpointState B)) :
    BareContainers s := by
  intro key cont hcont
  obtain ⟨s', hs', hsame, -⟩ := h
  rw [(reads_checkpoint hstorable ops idSeq).run_eq, some.injEq, Prod.mk.injEq] at hs'
  have hforget := lookup_restored_container hstorable ops idSeq key
  rw [hs'.1, hsame, hcont, map_some, some.injEq] at hforget
  have hlive := hbuilt.live hcont
  have hids : cont.objIds = .null :=
    Pointer.forget_eq_self (congrArg Container.objIds hforget).symm hlive.objIds_ne_stale
  exact ⟨hlive.nAllocated_eq_zero_iff.mpr hids,
    Pointer.forget_eq_self (congrArg Container.kvtagListHead hforget).symm hlive.kvtags_ne_stale⟩

theorem BareContainers.roundTrip (h : BareContainers s) (hbuilt : Built start s)
    (hstorable : CheckpointState.Storable layout ({ server := s } : CheckpointState B)) :
    ContainersRoundTrip layout ops idSeq s := by
  have hsame : ∀ key, (CheckpointState.restored ops idSeq { server := s }).server.containers.lookup
      key = s.containers.lookup key := by
    intro key
    rw [lookup_restored_container hstorable]
    cases hcont : s.containers.lookup key with
    | none => rfl
    | some cont =>
      obtain ⟨halloc, htags⟩ := h key cont hcont
      have hids := (hbuilt.live hcont).nAllocated_eq_zero_iff.mp halloc
      rw [map_some, Container.forget_of_null hids htags]
  have htable : (CheckpointState.restored ops idSeq { server := s }).server.table = ∅ := by
    show restoreTable ops (s.table.entries.map _) = ∅
    rw [hbuilt.table]
    rfl
  have hboth : SameContainers s (CheckpointState.restored ops idSeq { server := s }).server :=
    ⟨hbuilt.table, htable, hsame, hbuilt.idsApart⟩
  exact ⟨_, (reads_checkpoint hstorable ops idSeq).run_eq, hsame, fun rs hrs => hboth.serve hrs⟩

end RoundTrip

/-- The containers of a server that has served any requests for containers come back from a
checkpoint as they were just if none of them has an array of ids or a list of tags. -/
theorem containersRoundTrip_iff_bareContainers (layout : StructLayout) (ops : BloomOps B)
    (idSeq start : UInt64) (rs : List ContainerRequest) (s : ObjectServer B)
    (as : List ContainerAnswer)
    (hserve : serveContainers ({ idSeq := start } : ObjectServer B) rs = some (s, as))
    (hlt : s.containers.entries.length < 2 ^ 31)
    (hfits : ∀ pair ∈ s.containers.entries, layout.container.Fits pair.2) :
    ContainersRoundTrip layout ops idSeq s ↔ BareContainers s := by
  have hbuilt := (Built.init start).run hserve
  have hstorable := hbuilt.storable hlt hfits
  exact ⟨fun h => h.bareContainers hbuilt hstorable, fun h => h.roundTrip hbuilt hstorable⟩

def serverWith (cont : Container) : ObjectServer (List Bytes) where
  containers := AList.singleton (getHashByName [99]) cont
  idSeq := 1000000001

def layoutFor (cont : Container) : StructLayout :=
  { savedLayout with container := singleImage cont cont.forget rfl }

theorem fits_layoutFor (cont : Container) :
    ∀ pair ∈ (serverWith cont).containers.entries, (layoutFor cont).container.Fits pair.2 := by
  intro pair hpair
  rw [mem_singleton.mp hpair]
  rfl

def newContainer : Container := { contId := 1000000000, contName := [99] }

theorem containersRoundTrip_newContainer :
    ContainersRoundTrip (layoutFor newContainer) exactBloom 1000000000 (serverWith newContainer) :=
  (containersRoundTrip_iff_bareContainers (layoutFor newContainer) exactBloom 1000000000 1000000000
      [.create [99]] (serverWith newContainer) [.contId 1000000000] rfl (by simp [serverWith])
      (fits_layoutFor newContainer)).mpr fun key cont hcont => by
    have hmem := AList.mem_lookup_iff.mp hcont
    cases List.mem_singleton.mp hmem
    exact ⟨rfl, rfl⟩

def filledContainer : Container :=
  { newContainer with nObj := 1, nAllocated := 64, objIds := .valid [7] }

theorem not_containersRoundTrip_filledContainer :
    serveContainers ({ idSeq := 1000000000 } : ObjectServer (List Bytes))
        [.create [99], .addObjs [7] 1000000000] =
      some (serverWith filledContainer, [.contId 1000000000, .perr .succeed]) ∧
    ¬ContainersRoundTrip (layoutFor filledContainer) exactBloom 1000000000
      (serverWith filledContainer) := by
  have hserve : serveContainers ({ idSeq := 1000000000 } : ObjectServer (List Bytes))
      [.create [99], .addObjs [7] 1000000000] =
        some (serverWith filledContainer, [.contId 1000000000, .perr .succeed]) := rfl
  refine ⟨hserve, fun h => ?_⟩
  have hbuilt := (Built.init 1000000000).run hserve
  have hstorable := hbuilt.storable (by simp [serverWith]) (fits_layoutFor filledContainer)
  have hbare := h.bareContainers hbuilt hstorable (getHashByName [99]) filledContainer
    (AList.lookup_insert ∅)
  exact absurd hbare.1 (by decide)

end Pdc
