import FluxDown.Engine.NodePool

/-!
# Leases of a pool are accounted for

Library `Engine`. Whatever is chosen, the connections of a node are the leases that are held of it.
The choice is among the nodes that are usable, and everything but a lease and its drop only tends
the nodes: it changes estimates, kicks, and adds nodes without connections.
-/

namespace Engine.Cdn

open Base

section Choice

variable {F Ip Client : Type} [Rate F] {slots : List (NodeSlot F Ip Client)}

/-- A choice between two keeps to a list that has both. -/
theorem foldl_choose_mem {α : Type} (p : α → α → Bool) (rest : List α) (head : α) :
    rest.foldl (fun chosen a ↦ if p a chosen then a else chosen) head ∈ head :: rest := by
  induction rest generalizing head with
  | nil => exact List.mem_cons_self
  | cons a rest ih =>
    rw [List.foldl_cons]
    by_cases hp : p a head = true
    · rw [if_pos hp]
      exact List.mem_cons_of_mem head (ih a)
    · rw [if_neg hp]
      rcases List.mem_cons.mp (ih head) with hsame | hmem
      · rw [hsame]
        exact List.mem_cons_self
      · exact List.mem_cons_of_mem head (List.mem_cons_of_mem a hmem)

private theorem pickShared_mem (known : List (NodeSlot F Ip Client × Nat)) :
    pickShared known = 0 ∨ ∃ node ∈ known, pickShared known = node.2 := by
  unfold pickShared
  dsimp only
  generalize hcompetitive : known.filter _ = competitive
  have hknown : ∀ node ∈ competitive, node ∈ known := by
    rw [← hcompetitive]
    exact fun node hnode ↦ List.mem_of_mem_filter hnode
  cases competitive with
  | nil => exact .inl rfl
  | cons first more =>
    right
    dsimp only
    split
    · have hmem := foldl_choose_mem better (first :: more) first
      rw [List.mem_cons, List.mem_cons] at hmem
      exact ⟨_, hknown _ (by rw [List.mem_cons]; tauto), rfl⟩
    · next head rest hunder =>
      have hmem := foldl_choose_mem better rest head
      rw [← hunder] at hmem
      exact ⟨_, hknown _ (List.mem_of_mem_filter hmem), rfl⟩

private theorem foldl_marginal_mem (links : List (NodeSlot F Ip Client × Nat)) (start : Nat × F) :
    (links.foldl (fun (chosen, best) node ↦
        let marginal := linkMarginal node.1.capacity node.1.outstanding
        if Rate.lt best marginal then (node.2, marginal) else (chosen, best)) start).1 = start.1 ∨
      ∃ node ∈ links, (links.foldl (fun (chosen, best) node ↦
        let marginal := linkMarginal node.1.capacity node.1.outstanding
        if Rate.lt best marginal then (node.2, marginal) else (chosen, best)) start).1 = node.2 := by
  induction links generalizing start with
  | nil => exact .inl rfl
  | cons node links ih =>
    rw [List.foldl_cons]
    rcases ih _ with hstart | ⟨other, hother, hsame⟩
    · rw [hstart]
      dsimp only
      split
      · exact .inr ⟨node, List.mem_cons_self, rfl⟩
      · exact .inl rfl
    · exact .inr ⟨other, List.mem_cons_of_mem node hother, hsame⟩

/-- What holds of the shared choice and of the links holds of the choice between them. -/
theorem pickAcrossLinks_of {P : Nat → Prop} {sharedChoice : Nat} {primaryCapacity : F}
    {primaryOutstanding : Nat} {links : List (NodeSlot F Ip Client × Nat)} {explore : Bool}
    (hshared : P sharedChoice) (hlinks : ∀ node ∈ links, P node.2) :
    P (pickAcrossLinks sharedChoice primaryCapacity primaryOutstanding links explore) := by
  unfold pickAcrossLinks
  dsimp only
  split
  · next node hidle =>
    split at hidle
    · exact hlinks node (List.mem_of_find?_eq_some hidle)
    · cases hidle
  · rcases foldl_marginal_mem links (sharedChoice, linkMarginal primaryCapacity primaryOutstanding)
      with hsame | ⟨node, hnode, hsame⟩
    · rw [hsame]
      exact hshared
    · rw [hsame]
      exact hlinks node hnode

/-- What a choice promises of a node. -/
structure Choosable (slots : List (NodeSlot F Ip Client)) (allowAlternates explore : Bool)
    (slot : NodeSlot F Ip Client) : Prop where
  alive : slot.kicked = false
  route : allowAlternates = false → slot.route = startRoute slots
  cold : slot.cold = true → explore = true ∧ slot.outstanding = 0

omit [Rate F] in
private theorem mem_usable {allowAlternates : Bool} {node : NodeSlot F Ip Client × Nat}
    (h : node ∈ usable slots allowAlternates) :
    node.2 = 0 ∨ slots[node.2]? = some node.1 ∧ node.1.kicked = false ∧
      (allowAlternates = false → node.1.route = startRoute slots) := by
  obtain ⟨hmem, hkeep⟩ := List.mem_filter.mp h
  simp only [Bool.or_eq_true, decide_eq_true_eq, Bool.and_eq_true, Bool.not_eq_true'] at hkeep
  rcases hkeep with hzero | ⟨halive, hroute⟩
  · exact .inl hzero
  · refine .inr ⟨List.mem_zipIdx_iff_getElem?.mp hmem, halive, fun hallow ↦ ?_⟩
    rcases hroute with htrue | hroute
    · rw [hallow] at htrue
      cases htrue
    · exact hroute

omit [Rate F] in
private theorem choosable_of_usable {allowAlternates explore : Bool}
    {node : NodeSlot F Ip Client × Nat}
    (h : node ∈ usable slots allowAlternates)
    (hcold : node.1.cold = true → explore = true ∧ node.1.outstanding = 0) :
    node.2 = 0 ∨
      ∃ slot, slots[node.2]? = some slot ∧ Choosable slots allowAlternates explore slot := by
  rcases mem_usable h with hzero | ⟨hslot, halive, hroute⟩
  · exact .inl hzero
  · exact .inr ⟨node.1, hslot, halive, hroute, hcold⟩

/-- A choice is the first node or keeps its promises. -/
theorem pick_spec (slots : List (NodeSlot F Ip Client)) (allowAlternates explore : Bool) :
    pick slots allowAlternates explore = 0 ∨
      ∃ slot, slots[pick slots allowAlternates explore]? = some slot ∧
        Choosable slots allowAlternates explore slot := by
  have hmeasured : ∀ node ∈ (usable slots allowAlternates).filter fun node ↦ !node.1.cold,
      node.2 = 0 ∨
        ∃ slot, slots[node.2]? = some slot ∧ Choosable slots allowAlternates explore slot := by
    intro node hnode
    obtain ⟨husable, hcold⟩ := List.mem_filter.mp hnode
    rw [Bool.not_eq_true'] at hcold
    apply choosable_of_usable husable
    intro htrue
    rw [hcold] at htrue
    cases htrue
  have hshared : ∀ shared : List (NodeSlot F Ip Client × Nat),
      (∀ node ∈ shared, node ∈ (usable slots allowAlternates).filter fun node ↦ !node.1.cold) →
        pickShared shared = 0 ∨ ∃ slot, slots[pickShared shared]? = some slot ∧
          Choosable slots allowAlternates explore slot := by
    intro shared hsub
    rcases pickShared_mem shared with hzero | ⟨node, hnode, hpick⟩
    · exact .inl hzero
    · rw [hpick]
      exact hmeasured node (hsub node hnode)
  unfold pick
  dsimp only
  split
  · next node hcold =>
    split at hcold
    · next hexplore =>
      have hfound := List.find?_some hcold
      simp only [Bool.and_eq_true, decide_eq_true_eq] at hfound
      exact choosable_of_usable (List.mem_of_find?_eq_some hcold)
        fun _ ↦ ⟨hexplore, hfound.2⟩
    · cases hcold
  · split
    · exact hshared _ fun node hnode ↦ List.mem_of_mem_filter hnode
    · apply @pickAcrossLinks_of F Ip Client _ fun i ↦ i = 0 ∨
        ∃ slot, slots[i]? = some slot ∧ Choosable slots allowAlternates explore slot
      · exact hshared _ fun node hnode ↦ List.mem_of_mem_filter hnode
      · exact fun node hnode ↦ hmeasured node (List.mem_of_mem_filter hnode)

end Choice

section Tending

variable {F Ip Client : Type} {pool pool' pool'' : NodePool F Ip Client}

/-- What happens to a node between leases and drops. -/
structure TendedSlot (nodeId : Nat) (slot slot' : NodeSlot F Ip Client) : Prop where
  outstanding : slot'.outstanding = slot.outstanding
  kicked : slot.kicked = true → slot'.kicked = true
  sys : nodeId = 0 → slot'.kicked = slot.kicked
  cold : slot'.cold = true → slot.cold = true
  client : slot.client.isSome = true → slot'.client.isSome = true

private theorem TendedSlot.refl (nodeId : Nat) (slot : NodeSlot F Ip Client) :
    TendedSlot nodeId slot slot := ⟨rfl, id, fun _ ↦ rfl, id, id⟩

private theorem TendedSlot.trans {nodeId : Nat} {slot slot' slot'' : NodeSlot F Ip Client}
    (h : TendedSlot nodeId slot slot') (h' : TendedSlot nodeId slot' slot'') :
    TendedSlot nodeId slot slot'' where
  outstanding := h'.outstanding.trans h.outstanding
  kicked hkicked := h'.kicked (h.kicked hkicked)
  sys hzero := (h'.sys hzero).trans (h.sys hzero)
  cold hcold := h.cold (h'.cold hcold)
  client hclient := h'.client (h.client hclient)

/-- The key of a lease in the register. -/
def LiveConn.key (conn : LiveConn) : Nat × Nat := (conn.leaseId, conn.nodeId)

/-- The key of a lease that is held. -/
def NodeLease.key (lease : NodeLease Ip Client) : Nat × Nat := (lease.leaseId, lease.nodeId)

/-- Nodes are tended and added, and leases stay. -/
structure Tended (pool pool' : NodePool F Ip Client) : Prop where
  kept : ∀ (nodeId : Nat) (slot : NodeSlot F Ip Client), pool.slots[nodeId]? = some slot →
    ∃ slot', pool'.slots[nodeId]? = some slot' ∧ TendedSlot nodeId slot slot'
  added : ∀ (nodeId : Nat) (slot' : NodeSlot F Ip Client), pool.slots[nodeId]? = none →
    pool'.slots[nodeId]? = some slot' → slot'.outstanding = 0
  held : pool'.held = pool.held
  nextLeaseId : pool'.nextLeaseId = pool.nextLeaseId
  live : pool'.live.map LiveConn.key = pool.live.map LiveConn.key

private theorem Tended.of_slots (hslots : pool'.slots = pool.slots) (hheld : pool'.held = pool.held)
    (hnext : pool'.nextLeaseId = pool.nextLeaseId)
    (hlive : pool'.live.map LiveConn.key = pool.live.map LiveConn.key) : Tended pool pool' where
  kept nodeId slot hslot := ⟨slot, by rw [hslots, hslot], .refl nodeId slot⟩
  added nodeId slot' hnone hslot := by
    rw [hslots, hnone] at hslot
    cases hslot
  held := hheld
  nextLeaseId := hnext
  live := hlive

private theorem Tended.refl (pool : NodePool F Ip Client) :
    Tended pool pool := .of_slots rfl rfl rfl rfl

private theorem Tended.trans (h : Tended pool pool') (h' : Tended pool' pool'') :
    Tended pool pool'' where
  kept nodeId slot hslot := by
    obtain ⟨slot', hslot', htended⟩ := h.kept nodeId slot hslot
    obtain ⟨slot'', hslot'', htended'⟩ := h'.kept nodeId slot' hslot'
    exact ⟨slot'', hslot'', htended.trans htended'⟩
  added nodeId slot'' hnone hslot'' := by
    cases hslot' : pool'.slots[nodeId]? with
    | none => exact h'.added nodeId slot'' hslot' hslot''
    | some slot' =>
      obtain ⟨last, hlast, htended⟩ := h'.kept nodeId slot' hslot'
      rw [hslot''] at hlast
      obtain rfl := Option.some.inj hlast
      rw [htended.outstanding]
      exact h.added nodeId slot' hnone hslot'
  held := h'.held.trans h.held
  nextLeaseId := h'.nextLeaseId.trans h.nextLeaseId
  live := h'.live.trans h.live

private theorem tended_onSlot {nodeId : Nat} {f : NodeSlot F Ip Client → NodeSlot F Ip Client}
    (hf : ∀ slot, pool.slots[nodeId]? = some slot → TendedSlot nodeId slot (f slot)) :
    Tended pool (pool.onSlot nodeId f) where
  kept i slot hslot := by
    by_cases hsame : nodeId = i
    · subst hsame
      refine ⟨f slot, ?_, hf slot hslot⟩
      simp [NodePool.onSlot, hslot]
    · refine ⟨slot, ?_, .refl i slot⟩
      simp [NodePool.onSlot, hsame, hslot]
  added i slot' hnone hslot' := by
    simp [NodePool.onSlot, List.getElem?_modify, hnone] at hslot'
  held := rfl
  nextLeaseId := rfl
  live := rfl

private theorem tended_append {slots : List (NodeSlot F Ip Client)}
    (hslots : ∀ slot ∈ slots, slot.outstanding = 0) :
    Tended pool { pool with slots := pool.slots ++ slots } where
  kept i slot hslot :=
    ⟨slot, List.getElem?_append_left (List.getElem?_eq_some_iff.mp hslot).1 ▸ hslot, .refl i slot⟩
  added i slot' hnone hslot' := by
    dsimp only at hslot'
    rw [List.getElem?_append_right (List.getElem?_eq_none_iff.mp hnone)] at hslot'
    exact hslots slot' (List.mem_of_getElem? hslot')
  held := rfl
  nextLeaseId := rfl
  live := rfl

private theorem tended_foldl {α : Type} {f : NodePool F Ip Client → α → NodePool F Ip Client}
    (hf : ∀ pool a, Tended pool (f pool a)) (l : List α) (pool : NodePool F Ip Client) :
    Tended pool (l.foldl f pool) := by
  induction l generalizing pool with
  | nil => exact .refl pool
  | cons a l ih => exact (hf pool a).trans (ih (f pool a))

private theorem tended_checkBreaker (pool : NodePool F Ip Client) :
    Tended pool pool.checkBreaker := by
  unfold NodePool.checkBreaker
  dsimp only
  split
  · exact .of_slots rfl rfl rfl rfl
  · exact .refl pool

private theorem tended_notePathFailure (pool : NodePool F Ip Client) (route : RoutePath) :
    Tended pool (pool.notePathFailure route) := by
  unfold NodePool.notePathFailure
  split
  · exact .refl pool
  · exact .of_slots rfl rfl rfl rfl

/-- A kick of another node than the first. -/
theorem tended_kick {nodeId : Nat} (h : nodeId ≠ 0) (pool : NodePool F Ip Client) :
    Tended pool (pool.onSlot nodeId fun slot ↦ { slot with kicked := true }).checkBreaker := by
  apply Tended.trans _ (tended_checkBreaker _)
  apply tended_onSlot
  intro slot _
  exact ⟨rfl, fun _ ↦ rfl, fun hzero ↦ absurd hzero h, id, id⟩

section Rated

variable [Rate F]

private theorem tended_report (pool : NodePool F Ip Client) (nodeId bytes elapsed : Nat)
    (outcome : Outcome) : Tended pool (pool.report nodeId bytes elapsed outcome) := by
  cases hslot : pool.slots[nodeId]? with
  | none =>
    cases outcome with
    | ok => simpa only [NodePool.report, hslot] using Tended.refl pool
    | error validatorMismatch transport =>
      simpa only [NodePool.report, hslot] using Tended.refl pool
  | some slot =>
    cases outcome with
    | ok =>
      simp only [NodePool.report, hslot]
      apply tended_onSlot
      intro slot _
      unfold NodePool.reportOk
      dsimp only
      split
      · exact ⟨rfl, id, fun _ ↦ rfl, fun hcold ↦ Bool.noConfusion hcold, id⟩
      · exact ⟨rfl, id, fun _ ↦ rfl, id, id⟩
    | error validatorMismatch transport =>
      have hfail : Tended pool
          (pool.onSlot nodeId fun slot ↦ { slot with failStreak := slot.failStreak + 1 }) :=
        tended_onSlot fun slot _ ↦ ⟨rfl, id, fun _ ↦ rfl, id, id⟩
      simp only [NodePool.report, hslot]
      split
      · next hkick =>
        have hkicked := hfail.trans (tended_kick hkick.1 _)
        have hnoted : ∀ pool' : NodePool F Ip Client, Tended pool pool' →
            Tended pool (if (slot.ip.isNone && slot.link.isNone && transport) = true then
              pool'.notePathFailure slot.route else pool') := by
          intro pool' h
          split
          · exact h.trans (tended_notePathFailure pool' _)
          · exact h
        apply hnoted
        split
        · exact hkicked.trans (.of_slots rfl rfl rfl rfl)
        · exact hkicked
      · exact hfail

private theorem tended_observe (pool : NodePool F Ip Client) (samples : List (Nat × F))
    (countConns : Bool) : Tended pool (pool.observe samples countConns) := by
  apply tended_foldl
  intro pool nodeId
  dsimp only
  split
  · exact .refl pool
  · apply tended_onSlot
    intro slot _
    exact ⟨rfl, id, fun _ ↦ rfl, fun hcold ↦ Bool.noConfusion hcold, id⟩

omit [Rate F] in
private theorem tended_preempt (pool : NodePool F Ip Client) (leaseId : Nat) :
    Tended pool (pool.preempt leaseId).1 := by
  refine .of_slots rfl rfl rfl ?_
  simp only [NodePool.preempt, List.map_map]
  apply List.map_congr_left
  intro conn _
  simp only [Function.comp_apply]
  split
  · rfl
  · rfl

private theorem tended_addPaths (pool : NodePool F Ip Client) (sysRoute : RoutePath)
    (sysPrior : Option F)
    (alternates : List (RoutePath × Client × Option F)) :
    Tended pool (pool.addPaths sysRoute sysPrior alternates) := by
  have hsys : Tended pool (pool.onSlot 0 fun sys ↦
      { sys with route := sysRoute, ewmaBps := sysPrior.getD sys.ewmaBps }) :=
    tended_onSlot fun slot _ ↦ ⟨rfl, id, fun _ ↦ rfl, id, id⟩
  apply hsys.trans
  apply tended_append
  intro slot hslot
  obtain ⟨alternate, -, rfl⟩ := List.mem_map.mp hslot
  rfl

private theorem tended_addLinks (pool : NodePool F Ip Client)
    (links : List (LinkBinding × Client)) :
    Tended pool (pool.addLinks links) := by
  apply tended_foldl
  intro pool link
  dsimp only
  split
  · exact .refl pool
  · apply tended_append
    intro slot hslot
    rw [List.mem_singleton.mp hslot]
    rfl

end Rated

end Tending

/-! ## Leases -/

section Leases

variable {F Ip Client : Type} {pool pool' : NodePool F Ip Client}

/-- The connections of each node are the leases that are held of it; the first node is always there,
and a cold node has at most one connection. -/
structure Accounted (pool : NodePool F Ip Client) : Prop where
  sys : ∃ slot, pool.slots[0]? = some slot ∧ slot.kicked = false ∧ slot.cold = false ∧
    slot.client.isSome = true
  outstanding : ∀ (nodeId : Nat) (slot : NodeSlot F Ip Client), pool.slots[nodeId]? = some slot →
    slot.outstanding = pool.held.countP fun lease ↦ lease.nodeId = nodeId
  nodes : ∀ lease ∈ pool.held, lease.nodeId < pool.slots.length
  cold : ∀ (nodeId : Nat) (slot : NodeSlot F Ip Client), pool.slots[nodeId]? = some slot →
    slot.cold = true → slot.outstanding ≤ 1
  registered : pool.live.map LiveConn.key = pool.held.map NodeLease.key
  leaseIds : (pool.held.map NodeLease.leaseId).Nodup
  leaseIdsBelow : ∀ lease ∈ pool.held, lease.leaseId < pool.nextLeaseId

private theorem Tended.length_le (h : Tended pool pool') :
    pool.slots.length ≤ pool'.slots.length := by
  by_contra hshort
  have hlt : pool'.slots.length < pool.slots.length := by omega
  obtain ⟨slot', hslot', -⟩ := h.kept _ _ (List.getElem?_eq_getElem hlt)
  exact absurd (List.getElem?_eq_some_iff.mp hslot').1 (Nat.lt_irrefl _)

/-- A node of the tended pool was there, or has no connection. -/
theorem Tended.slot_cases (h : Tended pool pool') {nodeId : Nat} {slot' : NodeSlot F Ip Client}
    (hslot' : pool'.slots[nodeId]? = some slot') :
    (∃ slot, pool.slots[nodeId]? = some slot ∧ TendedSlot nodeId slot slot') ∨
      (pool.slots[nodeId]? = none ∧ slot'.outstanding = 0) := by
  cases hslot : pool.slots[nodeId]? with
  | none => exact .inr ⟨rfl, h.added nodeId slot' hslot hslot'⟩
  | some slot =>
    obtain ⟨last, hlast, htended⟩ := h.kept nodeId slot hslot
    rw [hslot'] at hlast
    obtain rfl := Option.some.inj hlast
    exact .inl ⟨slot, rfl, htended⟩

/-- Tending keeps the accounts. -/
theorem Accounted.tended (h : Accounted pool) (ht : Tended pool pool') : Accounted pool' := by
  constructor
  case sys =>
    obtain ⟨slot, hslot, halive, hcold, hclient⟩ := h.sys
    obtain ⟨slot', hslot', htended⟩ := ht.kept 0 slot hslot
    refine ⟨slot', hslot', (htended.sys rfl).trans halive, ?_, htended.client hclient⟩
    apply Bool.eq_false_iff.mpr
    intro hcold'
    rw [htended.cold hcold'] at hcold
    cases hcold
  case outstanding =>
    intro nodeId slot' hslot'
    rw [ht.held]
    rcases ht.slot_cases hslot' with ⟨slot, hslot, htended⟩ | ⟨hnone, hzero⟩
    · rw [htended.outstanding]
      exact h.outstanding nodeId slot hslot
    · rw [hzero, eq_comm, List.countP_eq_zero]
      intro lease hlease hsame
      have hnode := h.nodes lease hlease
      rw [of_decide_eq_true hsame] at hnode
      exact absurd (List.getElem?_eq_none_iff.mp hnone) (Nat.not_le.mpr hnode)
  case nodes =>
    intro lease hlease
    rw [ht.held] at hlease
    exact Nat.lt_of_lt_of_le (h.nodes lease hlease) ht.length_le
  case cold =>
    intro nodeId slot' hslot' hcold
    rcases ht.slot_cases hslot' with ⟨slot, hslot, htended⟩ | ⟨-, hzero⟩
    · rw [htended.outstanding]
      exact h.cold nodeId slot hslot (htended.cold hcold)
    · rw [hzero]
      exact Nat.zero_le 1
  case registered => rw [ht.live, ht.held, h.registered]
  case leaseIds =>
    rw [ht.held]
    exact h.leaseIds
  case leaseIdsBelow =>
    rw [ht.held, ht.nextLeaseId]
    exact h.leaseIdsBelow

/-- What a lease that is granted promises of its node: `slot` is the node before its connection is
counted. -/
structure Granted (pool : NodePool F Ip Client) (allowAlternates explore : Bool) (nodeId : Nat)
    (slot : NodeSlot F Ip Client) : Prop where
  there : pool.slots[nodeId]? = some slot
  alive : slot.kicked = false
  route : allowAlternates = false → slot.route = startRoute pool.slots
  cold : slot.cold = true → explore = true ∧ slot.outstanding = 0

/-- A granted lease is counted at its node. -/
theorem Accounted.grant (h : Accounted pool) {allowAlternates explore : Bool}
    {nodeId : Nat} {lease : NodeLease Ip Client} {slot : NodeSlot F Ip Client} {client : Client}
    (hgranted : Granted pool allowAlternates explore nodeId slot) (hnode : lease.nodeId = nodeId)
    (hid : lease.leaseId = pool.nextLeaseId)
    (hslots : pool'.slots = pool.slots.modify nodeId (NodeSlot.connect client))
    (hheld : pool'.held = pool.held ++ [lease]) (hnext : pool'.nextLeaseId = pool.nextLeaseId + 1)
    (hlive : pool'.live.map LiveConn.key = pool.live.map LiveConn.key ++ [lease.key]) :
    Accounted pool' := by
  subst hnode
  constructor
  case sys =>
    obtain ⟨sys, hsys, halive, hcold, hclient⟩ := h.sys
    by_cases hzero : lease.nodeId = 0
    · refine ⟨sys.connect client, ?_, halive, hcold, rfl⟩
      rw [hslots, hzero, List.getElem?_modify_eq, hsys]
      rfl
    · refine ⟨sys, ?_, halive, hcold, hclient⟩
      rw [hslots, List.getElem?_modify_ne _ _ hzero, hsys]
  case outstanding =>
    intro nodeId slot' hslot'
    rw [hslots] at hslot'
    rw [hheld, List.countP_append, List.countP_singleton]
    rcases getElem?_modify_some hslot' with ⟨rfl, before, hbefore, rfl⟩ | ⟨hne, hbefore⟩
    · rw [if_pos (decide_eq_true rfl), ← h.outstanding _ before hbefore,
        NodeSlot.connect_outstanding]
    · have hother : ¬ decide (lease.nodeId = nodeId) = true := by
        rw [decide_eq_true_eq]
        exact Ne.symm hne
      rw [if_neg hother, ← h.outstanding _ slot' hbefore, Nat.add_zero]
  case nodes =>
    intro other hother
    rw [hslots, List.length_modify]
    rw [hheld] at hother
    rcases List.mem_append.mp hother with hother | hother
    · exact h.nodes other hother
    · rw [List.mem_singleton.mp hother]
      exact (List.getElem?_eq_some_iff.mp hgranted.there).1
  case cold =>
    intro nodeId slot' hslot' hcold
    rw [hslots] at hslot'
    rcases getElem?_modify_some hslot' with ⟨rfl, before, hbefore, rfl⟩ | ⟨hne, hbefore⟩
    · rw [hgranted.there] at hbefore
      obtain rfl := Option.some.inj hbefore
      simp [(hgranted.cold hcold).2]
    · exact h.cold nodeId slot' hbefore hcold
  case registered => rw [hlive, hheld, h.registered, List.map_append, List.map_singleton]
  case leaseIds =>
    rw [hheld, List.map_append, List.map_singleton, List.nodup_append]
    refine ⟨h.leaseIds, List.pairwise_singleton _ _, ?_⟩
    intro leaseId hleaseId new hnew
    obtain ⟨other, hother, rfl⟩ := List.mem_map.mp hleaseId
    rw [List.mem_singleton.mp hnew, hid]
    exact Nat.ne_of_lt (h.leaseIdsBelow other hother)
  case leaseIdsBelow =>
    intro other hother
    rw [hnext]
    rw [hheld] at hother
    rcases List.mem_append.mp hother with hother | hother
    · exact Nat.lt_succ_of_lt (h.leaseIdsBelow other hother)
    · rw [List.mem_singleton.mp hother, hid]
      exact Nat.lt_succ_self _

/-- A dropped lease is no longer counted. -/
theorem Accounted.drop (h : Accounted pool) (leaseId : Nat) : Accounted (pool.drop leaseId) := by
  unfold NodePool.drop
  split
  · exact h
  · next lease hfound =>
    obtain ⟨hid, before, after, hheld, hbefore⟩ := List.find?_eq_some_iff_append.mp hfound
    have herase : pool.held.eraseP (fun lease ↦ lease.leaseId = leaseId) = before ++ after := by
      rw [hheld, List.eraseP_append_right _ fun other hother ↦ by simpa using hbefore other hother]
      simp [of_decide_eq_true hid]
    have hsub : ∀ other ∈ before ++ after, other ∈ pool.held := by
      intro other hother
      rw [← herase] at hother
      exact List.mem_of_mem_eraseP hother
    have hcount (nodeId : Nat) : (pool.held.countP fun lease ↦ lease.nodeId = nodeId) =
        ((before ++ after).countP fun lease ↦ lease.nodeId = nodeId) +
          if lease.nodeId = nodeId then 1 else 0 := by
      rw [hheld, List.countP_append, List.countP_append, List.countP_cons]
      simp only [decide_eq_true_eq]
      omega
    constructor
    case sys =>
      obtain ⟨sys, hsys, halive, hcold, hclient⟩ := h.sys
      by_cases hzero : lease.nodeId = 0
      · refine ⟨{ sys with outstanding := sys.outstanding - 1 }, ?_, halive, hcold, hclient⟩
        dsimp only [NodePool.onSlot]
        rw [hzero, List.getElem?_modify_eq, hsys]
        rfl
      · refine ⟨sys, ?_, halive, hcold, hclient⟩
        dsimp only [NodePool.onSlot]
        rw [List.getElem?_modify_ne _ _ hzero, hsys]
    case outstanding =>
      intro nodeId slot' hslot'
      dsimp only [NodePool.onSlot] at hslot' ⊢
      rw [herase]
      have hall := hcount nodeId
      rcases getElem?_modify_some hslot' with ⟨rfl, slot, hslot, rfl⟩ | ⟨hne, hslot⟩
      · rw [← h.outstanding _ slot hslot, if_pos rfl] at hall
        dsimp only
        omega
      · rw [← h.outstanding _ slot' hslot, if_neg (Ne.symm hne)] at hall
        omega
    case nodes =>
      intro other hother
      dsimp only [NodePool.onSlot] at hother ⊢
      rw [herase] at hother
      rw [List.length_modify]
      exact h.nodes other (hsub other hother)
    case cold =>
      intro nodeId slot' hslot' hcold
      dsimp only [NodePool.onSlot] at hslot'
      rcases getElem?_modify_some hslot' with ⟨rfl, slot, hslot, rfl⟩ | ⟨hne, hslot⟩
      · exact Nat.le_trans (Nat.sub_le _ _) (h.cold _ slot hslot hcold)
      · exact h.cold nodeId slot' hslot hcold
    case registered =>
      have hlive : (pool.live.map LiveConn.key).eraseP (fun key ↦ key.1 = leaseId) =
          (pool.live.eraseP fun conn ↦ conn.leaseId = leaseId).map LiveConn.key :=
        List.eraseP_map
      have hkeys : (pool.held.map NodeLease.key).eraseP (fun key ↦ key.1 = leaseId) =
          (pool.held.eraseP fun lease ↦ lease.leaseId = leaseId).map NodeLease.key :=
        List.eraseP_map
      dsimp only
      rw [← hlive, ← hkeys, h.registered]
    case leaseIds => exact h.leaseIds.sublist ((List.eraseP_sublist).map _)
    case leaseIdsBelow =>
      intro other hother
      dsimp only [NodePool.onSlot] at hother ⊢
      rw [herase] at hother
      exact h.leaseIdsBelow other (hsub other hother)

/-- The nodes that can still be kicked. -/
def aliveCount (pool : NodePool F Ip Client) : Nat := pool.slots.countP fun slot ↦ !slot.kicked

private theorem aliveCount_kick {nodeId : Nat} {slot : NodeSlot F Ip Client}
    (hslot : pool.slots[nodeId]? = some slot) (halive : slot.kicked = false) :
    aliveCount (pool.onSlot nodeId fun slot ↦ { slot with kicked := true }).checkBreaker + 1 =
      aliveCount pool := by
  have hbreaker : ∀ pool : NodePool F Ip Client, aliveCount pool.checkBreaker = aliveCount pool := by
    intro pool
    unfold NodePool.checkBreaker
    dsimp only
    split
    · rfl
    · rfl
  have hcount := @countP_modify _ pool.slots nodeId slot (fun slot ↦ { slot with kicked := true })
    (fun slot ↦ !slot.kicked) hslot
  rw [halive] at hcount
  rw [hbreaker]
  simpa [aliveCount, NodePool.onSlot] using hcount

section Rated

variable [Rate F]

/-- The choice in an accounted pool. -/
theorem Accounted.granted_pick (h : Accounted pool) (allowAlternates explore : Bool) :
    ∃ slot, Granted pool allowAlternates explore (pick pool.slots allowAlternates explore) slot := by
  rcases pick_spec pool.slots allowAlternates explore with hzero | ⟨slot, hslot, hchoosable⟩
  · obtain ⟨slot, hslot, halive, hcold, -⟩ := h.sys
    rw [hzero]
    refine ⟨slot, hslot, halive, fun _ ↦ ?_, fun htrue ↦ ?_⟩
    · cases hslots : pool.slots with
      | nil =>
        rw [hslots] at hslot
        cases hslot
      | cons sys rest =>
        rw [hslots] at hslot
        rw [← Option.some.inj hslot]
        rfl
    · rw [hcold] at htrue
      cases htrue
  · exact ⟨slot, hslot, hchoosable.alive, hchoosable.route, hchoosable.cold⟩

/-- The loop ends with a node, after at most as many kicks as there are nodes to kick. -/
theorem leaseLoop_spec (built : Nat → Option Client) (allowAlternates explore : Bool) :
    ∀ (fuel : Nat) (pool : NodePool F Ip Client), Accounted pool → aliveCount pool ≤ fuel →
      ∃ nodeId client kicked slot,
        NodePool.leaseLoop built allowAlternates explore fuel pool =
          some (nodeId, client, kicked.onSlot nodeId (NodeSlot.connect client)) ∧
        Tended pool kicked ∧ Granted kicked allowAlternates explore nodeId slot
  | 0, pool, h, hfuel => by
    obtain ⟨slot, hslot, halive, -⟩ := h.sys
    have hzero := List.countP_eq_zero.mp (Nat.le_zero.mp hfuel) slot (List.mem_of_getElem? hslot)
    rw [halive] at hzero
    exact absurd rfl hzero
  | fuel + 1, pool, h, hfuel => by
    obtain ⟨slot, hgranted⟩ := h.granted_pick allowAlternates explore
    simp only [NodePool.leaseLoop, hgranted.there]
    cases hbuilt : slot.client.or
      (slot.ip.bind fun _ ↦ built (pick pool.slots allowAlternates explore)) with
    | some client => exact ⟨_, client, pool, slot, rfl, .refl pool, hgranted⟩
    | none =>
      -- the first node has its client, so that another one is kicked
      have hnode : pick pool.slots allowAlternates explore ≠ 0 := by
        intro hzero
        obtain ⟨sys, hsys, -, -, hclient⟩ := h.sys
        have hthere := hgranted.there
        rw [hzero, hsys] at hthere
        obtain rfl := Option.some.inj hthere
        rw [(Option.or_eq_none_iff.mp hbuilt).1] at hclient
        cases hclient
      have htended := tended_kick hnode pool
      have hless := aliveCount_kick hgranted.there hgranted.alive
      obtain ⟨nodeId, client, kicked, slot', hloop, hkicked, hgranted'⟩ :=
        leaseLoop_spec built allowAlternates explore fuel _ (h.tended htended) (by omega)
      exact ⟨nodeId, client, kicked, slot', hloop, htended.trans hkicked, hgranted'⟩

/-- What a lease promises of its node: it is not kicked, it is on the first node's route where no
other is allowed, and it is cold only while exploring, without another connection. -/
structure FairLease (pool pool' : NodePool F Ip Client) (req : LeaseRequest)
    (slot : NodeSlot F Ip Client) : Prop where
  alive : slot.kicked = false
  route : req.allowAlternates = false → slot.route = startRoute pool'.slots
  cold : slot.cold = true → pool.mayExplore req = true ∧ slot.outstanding = 1

end Rated

/-- A kicked node stays kicked. -/
def KeepsKicks (pool pool' : NodePool F Ip Client) : Prop :=
  ∀ (nodeId : Nat) (slot : NodeSlot F Ip Client), pool.slots[nodeId]? = some slot →
    slot.kicked = true → ∃ slot', pool'.slots[nodeId]? = some slot' ∧ slot'.kicked = true

private theorem KeepsKicks.refl (pool : NodePool F Ip Client) : KeepsKicks pool pool :=
  fun _ slot hslot hkicked ↦ ⟨slot, hslot, hkicked⟩

private theorem KeepsKicks.trans {pool'' : NodePool F Ip Client} (h : KeepsKicks pool pool')
    (h' : KeepsKicks pool' pool'') : KeepsKicks pool pool'' := by
  intro nodeId slot hslot hkicked
  obtain ⟨slot', hslot', hkicked'⟩ := h nodeId slot hslot hkicked
  exact h' nodeId slot' hslot' hkicked'

private theorem Tended.keepsKicks (h : Tended pool pool') : KeepsKicks pool pool' := by
  intro nodeId slot hslot hkicked
  obtain ⟨slot', hslot', htended⟩ := h.kept nodeId slot hslot
  exact ⟨slot', hslot', htended.kicked hkicked⟩

private theorem keepsKicks_of_modify (changed : Nat)
    {f : NodeSlot F Ip Client → NodeSlot F Ip Client}
    (hf : ∀ slot, (f slot).kicked = slot.kicked) (hslots : pool'.slots = pool.slots.modify changed f) :
    KeepsKicks pool pool' := by
  intro nodeId slot hslot hkicked
  rw [hslots]
  by_cases hsame : changed = nodeId
  · refine ⟨f slot, ?_, (hf slot).trans hkicked⟩
    rw [hsame, List.getElem?_modify_eq, hslot]
    rfl
  · refine ⟨slot, ?_, hkicked⟩
    rw [List.getElem?_modify_ne _ _ hsame, hslot]

private theorem startRoute_modify {changed : Nat} {f : NodeSlot F Ip Client → NodeSlot F Ip Client}
    (hf : ∀ slot, (f slot).route = slot.route) (slots : List (NodeSlot F Ip Client)) :
    startRoute (slots.modify changed f) = startRoute slots := by
  cases slots with
  | nil => simp
  | cons sys rest =>
    cases changed with
    | zero => exact hf sys
    | succ n => rfl

section Rated

variable [Rate F]

/-- A request is always granted, and keeps the accounts. -/
theorem leaseFor_spec (h : Accounted pool) (built : Nat → Option Client) (req : LeaseRequest) :
    ∃ lease pool' slot, pool.leaseFor built req = some (lease, pool') ∧
      pool'.slots[lease.nodeId]? = some slot ∧ FairLease pool pool' req slot ∧
        Accounted pool' ∧ KeepsKicks pool pool' ∧ pool'.held = pool.held ++ [lease] := by
  obtain ⟨nodeId, client, kicked, slot, hloop, htended, hgranted⟩ :=
    leaseLoop_spec built req.allowAlternates (pool.mayExplore req) pool.slots.length pool h
      List.countP_le_length
  have hkicked := h.tended htended
  have hslot : (kicked.slots.modify nodeId (NodeSlot.connect client))[nodeId]? =
      some (slot.connect client) := by
    rw [List.getElem?_modify_eq, hgranted.there]
    rfl
  simp only [NodePool.leaseFor, hloop, NodePool.onSlot, hslot]
  refine ⟨_, _, _, rfl, hslot, ?_, ?_, ?_, ?_⟩
  · refine ⟨hgranted.alive, fun hallow ↦ ?_, fun hcold ↦ ?_⟩
    · dsimp only
      rw [startRoute_modify (NodeSlot.connect_route client), NodeSlot.connect_route]
      exact hgranted.route hallow
    · obtain ⟨hexplore, hzero⟩ := hgranted.cold hcold
      exact ⟨hexplore, by rw [NodeSlot.connect_outstanding, hzero]⟩
  · apply hkicked.grant hgranted rfl rfl rfl rfl rfl
    simp [LiveConn.key, NodeLease.key]
  · apply htended.keepsKicks.trans
    exact keepsKicks_of_modify nodeId (NodeSlot.connect_kicked client) rfl
  · rw [← htended.held]

omit [Rate F] in
private theorem keepsKicks_drop (pool : NodePool F Ip Client) (leaseId : Nat) :
    KeepsKicks pool (pool.drop leaseId) := by
  unfold NodePool.drop
  split
  · exact .refl pool
  · next lease _ =>
    have hf (slot : NodeSlot F Ip Client) :
        { slot with outstanding := slot.outstanding - 1 }.kicked = slot.kicked := rfl
    exact keepsKicks_of_modify lease.nodeId hf rfl

/-- The leases that are out after an operation: a request brings the lease it is granted, and a
drop ends its lease. -/
def leasesAfter (pool : NodePool F Ip Client) (leases : List (NodeLease Ip Client)) :
    Operation F Client → List (NodeLease Ip Client)
  | .leaseFor built req => leases ++ ((pool.leaseFor built req).map Prod.fst).toList
  | .drop leaseId => leases.filter fun lease ↦ lease.leaseId ≠ leaseId
  | _ => leases

/-- The leases that are granted and not dropped in a run, after those that are out before. -/
def liveLeases (pool : NodePool F Ip Client) (leases : List (NodeLease Ip Client)) :
    List (Operation F Client) → List (NodeLease Ip Client)
  | [] => leases
  | op :: ops => liveLeases (step pool op) (leasesAfter pool leases op) ops

private theorem eraseP_leaseId (leaseId : Nat) {leases : List (NodeLease Ip Client)}
    (hids : (leases.map NodeLease.leaseId).Nodup) :
    (leases.eraseP fun lease ↦ lease.leaseId = leaseId) =
      leases.filter fun lease ↦ lease.leaseId ≠ leaseId := by
  induction leases with
  | nil => rfl
  | cons head rest ih =>
    obtain ⟨hhead, hrest⟩ := List.nodup_cons.mp hids
    by_cases hid : head.leaseId = leaseId
    · have hothers : ∀ lease ∈ rest, decide (lease.leaseId ≠ leaseId) = true := by
        intro lease hlease
        rw [decide_eq_true_eq, ← hid]
        intro hsame
        exact hhead (hsame ▸ List.mem_map_of_mem hlease)
      rw [List.eraseP_cons_of_pos (by simpa using hid), List.filter_cons_of_neg (by simpa using hid),
        List.filter_eq_self.mpr hothers]
    · rw [List.eraseP_cons_of_neg (by simpa using hid), List.filter_cons_of_pos (by simpa using hid),
        ih hrest]

omit [Rate F] in
private theorem Accounted.held_drop (h : Accounted pool) (leaseId : Nat) :
    (pool.drop leaseId).held = pool.held.filter fun lease ↦ lease.leaseId ≠ leaseId := by
  unfold NodePool.drop
  split
  · next hnone =>
    rw [List.find?_eq_none] at hnone
    rw [eq_comm, List.filter_eq_self]
    intro lease hlease
    simpa using hnone lease hlease
  · exact eraseP_leaseId leaseId h.leaseIds

/-- One operation keeps the accounts and the kicks, and those are held that are out. -/
theorem accounted_step (h : Accounted pool) (op : Operation F Client) :
    Accounted (step pool op) ∧ KeepsKicks pool (step pool op) ∧
      (step pool op).held = leasesAfter pool pool.held op := by
  have htended : ∀ pool', Tended pool pool' →
      Accounted pool' ∧ KeepsKicks pool pool' ∧ pool'.held = pool.held :=
    fun _ ht ↦ ⟨h.tended ht, ht.keepsKicks, ht.held⟩
  cases op with
  | setExplore enabled => exact htended _ (.of_slots rfl rfl rfl rfl)
  | leaseFor built req =>
    obtain ⟨lease, pool', slot, hlease, -, -, haccounted, hkicks, hheld⟩ :=
      leaseFor_spec h built req
    simp only [step, leasesAfter, hlease]
    exact ⟨haccounted, hkicks, hheld⟩
  | drop leaseId => exact ⟨h.drop leaseId, keepsKicks_drop pool leaseId, h.held_drop leaseId⟩
  | report nodeId bytes elapsed outcome => exact htended _ (tended_report pool _ _ _ _)
  | observe samples countConns => exact htended _ (tended_observe pool _ _)
  | preempt leaseId => exact htended _ (tended_preempt pool leaseId)
  | addPaths sysRoute sysPrior alternates => exact htended _ (tended_addPaths pool _ _ _)
  | addLinks links => exact htended _ (tended_addLinks pool links)

private theorem accounted_start (start : Start F Ip Client) : Accounted start.pool := by
  have hnew : ∀ slot ∈ start.pool.slots, slot.outstanding = 0 ∧ slot.cold = false := by
    cases start with
    | single client =>
      intro slot hslot
      rw [List.mem_singleton.mp hslot]
      exact ⟨rfl, rfl⟩
    | multi candidates taskClient =>
      intro slot hslot
      rcases List.mem_cons.mp hslot with rfl | hslot
      · exact ⟨rfl, rfl⟩
      · obtain ⟨candidate, -, rfl⟩ := List.mem_map.mp hslot
        exact ⟨rfl, rfl⟩
  have hheld : start.pool.held = [] := by cases start <;> rfl
  have hlive : start.pool.live = [] := by cases start <;> rfl
  constructor
  case sys => cases start <;> exact ⟨_, rfl, rfl, rfl, rfl⟩
  case outstanding =>
    intro nodeId slot hslot
    rw [hheld, (hnew slot (List.mem_of_getElem? hslot)).1]
    rfl
  case nodes => simp [hheld]
  case cold =>
    intro nodeId slot hslot hcold
    rw [(hnew slot (List.mem_of_getElem? hslot)).2] at hcold
    cases hcold
  case registered => rw [hheld, hlive]; rfl
  case leaseIds => simp [hheld]
  case leaseIdsBelow => simp [hheld]

/-- The leases that are out in a run are those that are held. -/
theorem liveLeases_eq (ops : List (Operation F Client)) :
    ∀ {pool : NodePool F Ip Client}, Accounted pool →
      liveLeases pool pool.held ops = (run step pool ops).held := by
  induction ops with
  | nil => exact fun _ ↦ rfl
  | cons op ops ih =>
    intro pool h
    obtain ⟨hnext, -, hheld⟩ := accounted_step h op
    rw [liveLeases, ← hheld, ih hnext, run_cons]

/-- In every run of a pool the connections of each node are the leases of it that were granted and
not dropped, the first node is not kicked, a cold node has at most one of them, every request is
granted a lease that is fair, and a kicked node stays kicked. -/
theorem run_accounted (start : Start F Ip Client) (ops : List (Operation F Client)) :
    Accounted (run step start.pool ops) ∧
      (∀ (nodeId : Nat) (slot : NodeSlot F Ip Client),
        (run step start.pool ops).slots[nodeId]? = some slot →
          let leases := (liveLeases start.pool [] ops).countP fun lease ↦ lease.nodeId = nodeId
          slot.outstanding = leases ∧ (slot.cold = true → leases ≤ 1)) ∧
      (∀ (built : Nat → Option Client) (req : LeaseRequest), ∃ lease pool' slot,
        (run step start.pool ops).leaseFor built req = some (lease, pool') ∧
          pool'.slots[lease.nodeId]? = some slot ∧
            FairLease (run step start.pool ops) pool' req slot) ∧
      ∀ later, KeepsKicks (run step start.pool ops) (run step start.pool (ops ++ later)) := by
  have hinv (ops : List (Operation F Client)) : Accounted (run step start.pool ops) :=
    @run_preserves _ _ step Accounted (fun _ op hs ↦ (accounted_step hs op).1) _
      (accounted_start start) ops
  have hlive : liveLeases start.pool [] ops = (run step start.pool ops).held := by
    have hheld : start.pool.held = [] := by cases start <;> rfl
    rw [← hheld]
    exact liveLeases_eq ops (accounted_start start)
  refine ⟨hinv ops, fun nodeId slot hslot ↦ ?_, fun built req ↦ ?_, fun later ↦ ?_⟩
  · have houtstanding := (hinv ops).outstanding nodeId slot hslot
    rw [hlive, ← houtstanding]
    exact ⟨rfl, (hinv ops).cold nodeId slot hslot⟩
  · obtain ⟨lease, pool', slot, hlease, hslot, hfair, -⟩ := leaseFor_spec (hinv ops) built req
    exact ⟨lease, pool', slot, hlease, hslot, hfair⟩
  · rw [run_append]
    exact @run_related _ _ step (fun _ _ ↦ True) Accounted KeepsKicks .refl
      (fun h h' ↦ h.trans h') (fun _ op hs _ ↦ (accounted_step hs op).1)
      (fun _ op hs _ ↦ (accounted_step hs op).2.1) later _ (hinv ops)
      (.of_forall_mem (fun _ _ _ ↦ trivial) _)

end Rated

end Leases

end Engine.Cdn
