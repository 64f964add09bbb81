import EdgeNode.Config.System
import EdgeNode.Lib.PrefixSet
import EdgeNode.Lib.Runs
import EdgeNode.Lib.Words

/-! The trap targets: who changes the list, and who looks into it. -/

namespace EdgeNode.Config

open PrefixSet Runs

section Definitions

/-- The loop of `FTE_CFG_NET_TRAP_getAt`, which counts the index down at every entry. -/
def trapLoop : List UInt32 → UInt32 → UInt32
  | [], _ => 0
  | xIP :: pList, ulIndex =>
    if xIP ≠ 0 ∧ ulIndex = 0 then xIP else trapLoop pList (ulIndex - 1)

def netTrapGetAt (ulIndex : UInt32) (t : TrapConfig) : UInt32 :=
  if ulIndex < t.ulCount then trapLoop t.pList ulIndex else 0

/-- `FTE_NET_SERVER_isExist` -/
def netServerIsExist (ip : UInt32) (t : TrapConfig) : Bool :=
  (t.pList.take t.ulCount.toNat).contains ip

/-- What the readers of the query give to the `system` command: the addresses that have to be there,
the two that need not, and whether the type is `dhcp`. -/
structure SystemQuery where
  ip : Option UInt32
  netmask : Option UInt32
  gateway : Option UInt32
  server1 : Option (Option UInt32)
  server2 : Option (Option UInt32)
  dhcp : Bool

def netTypeStatic : UInt32 := 0
def netTypeDhcp : UInt32 := 1

def pushServer (server : UInt32) (t : TrapConfig) : TrapConfig :=
  if server ≠ 0 then
    { t with ulCount := t.ulCount + 1, pList := t.pList.set t.ulCount.toNat server }
  else t

def setServers (server1 server2 : UInt32) (t : TrapConfig) : TrapConfig :=
  pushServer server2 (pushServer server1 { t with ulCount := 0 })

/-- The addresses of a query that can be read, a server that it does not name as zero. -/
def SystemQuery.read (pQuery : SystemQuery) :
    Option (UInt32 × UInt32 × UInt32 × UInt32 × UInt32) := do
  let ulIP ← pQuery.ip
  let nNetMask ← pQuery.netmask
  let gateway ← pQuery.gateway
  let server1 ← pQuery.server1.getD (some 0)
  let server2 ← pQuery.server2.getD (some 0)
  pure (ulIP, nNetMask, gateway, server1, server2)

/-- The `system` command of the CGI, up to its save: a query that cannot be read changes nothing. -/
def cgiSystem (pQuery : SystemQuery) (r : Ram) : Ram :=
  match pQuery.read with
  | none => r
  | some (ulIP, nNetMask, gateway, server1, server2) =>
    let net := (r.page .main).body.xNetwork
    let xTrap := setServers server1 server2 net.xTrap
    let net :=
      if pQuery.dhcp then { net with nType := netTypeDhcp, ip := 0, mask := 0, gateway := 0, xTrap }
      else { net with nType := netTypeStatic, ip := ulIP, mask := nNetMask, gateway, xTrap }
    (netSet net r).2

inductive TrapAction where
  | addIP (xIP : UInt32)
  | delIP (xIP : UInt32)
  | clear
  | cgiSystem (pQuery : SystemQuery)

def TrapAction.apply (product : Product) : TrapAction → Ram → Ram
  | .addIP xIP, r => (netTrapAddIP product xIP r).2
  | .delIP xIP, r => (netTrapDelIP xIP r).2
  | .clear, r => (netTrapClear product r).2
  | .cgiSystem pQuery, r => Config.cgiSystem pQuery r

def trapStep (product : Product) (r : Ram) (a : TrapAction) : Option Ram := some (a.apply product r)

def traps (r : Ram) : TrapConfig := (r.page .main).body.xNetwork.xTrap

/-- The first `ulCount` entries, and those behind them. -/
def TrapConfig.slots (t : TrapConfig) : Slots UInt32 := Slots.ofArray t.ulCount.toNat t.pList

def trapSlots (r : Ram) : Slots UInt32 := (traps r).slots

/-- The list is a set of addresses, and every reader sees it. -/
structure TrapsSeen (r : Ram) : Prop where
  nodup : (trapSlots r).front.Nodup
  nonzero : 0 ∉ (trapSlots r).front
  trapIsExist : ∀ xIP, netTrapIsExist xIP (traps r) = true ↔ xIP ∈ (trapSlots r).front
  serverIsExist : ∀ ip, netServerIsExist ip (traps r) = true ↔ ip ∈ (trapSlots r).front
  getAt : ∀ k, netTrapGetAt k (traps r) = ((trapSlots r).front[k.toNat]?).getD 0

structure TrapsFit (product : Product) (t : TrapConfig) : Prop where
  length : t.pList.length = product.trapCount
  count : t.ulCount.toNat ≤ product.trapCount

/-- What the list keeps from one call to the next. -/
structure TrapsSound (product : Product) (r : Ram) : Prop where
  fit : TrapsFit product (traps r)
  isSet : IsSet 0 (trapSlots r)

/-- The servers that a query sets, if it can be read. -/
def queryServers (pQuery : SystemQuery) : Option (List UInt32) :=
  pQuery.read.map fun (_, _, _, server1, server2) => [server1, server2].filter (· ≠ 0)

/-- The calls that leave no address twice, no zero, and no old address behind the first `ulCount`
entries while there are any. -/
def TrapKept (product : Product) (r : Ram) : TrapAction → Prop
  | .addIP xIP =>
    (xIP = 0 → (traps r).ulCount.toNat = product.trapCount) ∧
      ((traps r).ulCount = 0 → ∀ y ∈ (trapSlots r).stale.tail, y = 0 ∨ y = xIP)
  | .delIP xIP => xIP ∈ (trapSlots r).front → 1 < (traps r).ulCount.toNat → xIP ∉ (trapSlots r).stale
  | .clear => True
  | .cgiSystem pQuery => ∀ servers ∈ queryServers pQuery, servers.Nodup ∧
      (servers ≠ [] → ∀ y ∈ (traps r).pList.drop servers.length, y = 0 ∨ y ∈ servers)

end Definitions

section View

variable {product : Product} {r : Ram}

theorem trapLoop_eq {pList : List UInt32} {k : Nat} (hk : k < 4294967296)
    (h : 0 ∉ pList.take (k + 1)) : trapLoop pList (UInt32.ofNat k) = (pList[k]?).getD 0 := by
  induction pList generalizing k with
  | nil => rfl
  | cons xIP pList ih =>
    rw [List.take_succ_cons, List.mem_cons, not_or] at h
    cases k with
    | zero => simp [trapLoop, Ne.symm h.1]
    | succ k =>
      have hindex : UInt32.ofNat (k + 1) - 1 = UInt32.ofNat k := by
        rw [UInt32.ofNat_add]
        exact UInt32.add_sub_cancel _ _
      have hpos : UInt32.ofNat (k + 1) ≠ 0 := by
        rw [Ne, ← UInt32.toNat_inj, UInt32.toNat_ofNat', Nat.mod_eq_of_lt hk]
        exact Nat.succ_ne_zero k
      rw [trapLoop, if_neg fun hand => hpos hand.2, hindex, ih (by omega) h.2,
        List.getElem?_cons_succ]

theorem trapSlots_all : (trapSlots r).all = (traps r).pList := ofArray_all _ _

theorem front_length (hfit : TrapsFit product (traps r)) :
    (trapSlots r).front.length = (traps r).ulCount.toNat := by
  rw [trapSlots, TrapConfig.slots, Slots.ofArray, List.length_take_of_le (hfit.length ▸ hfit.count)]

theorem front_ne_nil (hfit : TrapsFit product (traps r)) :
    (trapSlots r).front ≠ [] ↔ (traps r).ulCount ≠ 0 := by
  rw [← List.length_pos_iff, front_length hfit, Nat.pos_iff_ne_zero]
  exact not_congr (UInt32.toNat_inj (b := 0))

theorem netTrapGetAt_eq (hnonzero : 0 ∉ (trapSlots r).front) (k : UInt32) :
    netTrapGetAt k (traps r) = ((trapSlots r).front[k.toNat]?).getD 0 := by
  show _ = (((traps r).pList.take (traps r).ulCount.toNat)[k.toNat]?).getD 0
  rw [netTrapGetAt, List.getElem?_take]
  by_cases hk : k < (traps r).ulCount
  · have hnat := UInt32.lt_iff_toNat_lt.mp hk
    have hfirst : 0 ∉ (traps r).pList.take (k.toNat + 1) := fun hmem =>
      hnonzero ((List.take_sublist_take_left hnat).subset hmem)
    have hloop := trapLoop_eq k.toNat_lt hfirst
    rw [UInt32.ofNat_toNat] at hloop
    rw [if_pos hk, if_pos hnat, hloop]
  · rw [if_neg hk, if_neg fun hnat => hk (UInt32.lt_iff_toNat_lt.mpr hnat)]
    rfl

theorem trapsSeen_iff (hfit : TrapsFit product (traps r)) :
    TrapsSeen r ↔ IsSet 0 (trapSlots r) := by
  have hne := front_ne_nil hfit
  constructor
  · intro h
    refine ⟨h.nodup, h.nonzero, fun hp y hy => ?_⟩
    by_cases hzero : y = 0
    · exact .inl hzero
    · right
      rw [← h.trapIsExist]
      have hmem : y ∈ (traps r).pList := List.mem_of_mem_drop hy
      simp [netTrapIsExist, hzero, hne.mp hp, hmem]
  · intro h
    refine ⟨h.nodup, h.blank_notMem, fun xIP => ?_, fun ip => ?_, netTrapGetAt_eq h.blank_notMem⟩
    · simp only [netTrapIsExist, Bool.and_eq_true, decide_eq_true_eq, List.contains_iff_mem,
        ← trapSlots_all, ← hne]
      constructor
      · rintro ⟨⟨hzero, hp⟩, hmem⟩
        exact (h.mem_all hzero hp).mp hmem
      · intro hmem
        have hzero : xIP ≠ 0 := fun hzero => h.blank_notMem (hzero ▸ hmem)
        have hp := List.ne_nil_of_mem hmem
        exact ⟨⟨hzero, hp⟩, (h.mem_all hzero hp).mpr hmem⟩
    · exact List.contains_iff_mem
end View

section Steps

variable {product : Product} {r : Ram}

@[simp] theorem traps_modify (f : TrapConfig → TrapConfig) :
    traps (r.modify .main (setTrap f)) = f (traps r) := by
  simp [traps, Ram.modify, setTrap]

/-- The entry that `FTE_CFG_NET_TRAP_delIP` moves the others over. -/
theorem eraseIdx_last {l : List UInt32} (hl : l.Nodup) {xIP : UInt32} {i : Nat}
    (h : l.reverse.findIdx? (· == xIP) = some i) :
    xIP ∈ l ∧ l.eraseIdx (l.length - 1 - i) = l.erase xIP := by
  obtain ⟨hi, hx, -⟩ := List.findIdx?_eq_some_iff_getElem.mp h
  rw [List.length_reverse] at hi
  rw [List.getElem_reverse, beq_iff_eq] at hx
  have herase := hl.erase_getElem (i := l.length - 1 - i) (by omega)
  rw [hx] at herase
  exact ⟨hx ▸ List.getElem_mem _, herase.symm⟩

section Servers

variable {server1 server2 : UInt32} {t : TrapConfig}

theorem pushServer_length : (pushServer server1 t).pList.length = t.pList.length := by
  rw [pushServer]
  split
  · exact List.length_set
  · rfl

theorem pushServer_eq (hcount : t.ulCount.toNat < t.pList.length)
    (hword : t.pList.length < 4294967296) :
    (pushServer server1 t).slots = if server1 ≠ 0 then t.slots.push server1 else t.slots := by
  rw [pushServer]
  split
  · rw [TrapConfig.slots, Words.toNat_succ (by omega)]
    exact ofArray_push hcount server1
  · rfl

theorem setServers_eq (hlen : 2 ≤ t.pList.length) (hword : t.pList.length < 4294967296) :
    (setServers server1 server2 t).slots = t.slots.refill ([server1, server2].filter (· ≠ 0)) := by
  have hall : t.slots.all = t.pList := ofArray_all _ _
  have hfirst : (pushServer server1 { t with ulCount := 0 }).slots =
      if server1 ≠ 0 then Slots.push server1 ⟨[], t.pList⟩ else ⟨[], t.pList⟩ :=
    pushServer_eq (show 0 < t.pList.length by omega) hword
  have hcount : (pushServer server1 { t with ulCount := 0 }).ulCount.toNat <
      (pushServer server1 { t with ulCount := 0 }).pList.length := by
    rw [pushServer_length, pushServer]
    split
    · show 1 < t.pList.length
      omega
    · show 0 < t.pList.length
      omega
  have hword' : (pushServer server1 { t with ulCount := 0 }).pList.length < 4294967296 := by
    rw [pushServer_length]
    exact hword
  rw [setServers, pushServer_eq hcount hword', hfirst, Slots.refill, hall]
  by_cases h1 : server1 = 0 <;> by_cases h2 : server2 = 0 <;>
    simp [h1, h2, Slots.push, ← List.drop_one]

end Servers

theorem traps_addIP_cases (product : Product) (xIP : UInt32) (r : Ram) :
    (netTrapIsExist xIP (traps r) = true ∨ product.trapCount ≤ (traps r).ulCount.toNat) ∧
        traps (netTrapAddIP product xIP r).2 = traps r ∨
      netTrapIsExist xIP (traps r) = false ∧ (traps r).ulCount.toNat < product.trapCount ∧
        traps (netTrapAddIP product xIP r).2 = { traps r with
          ulCount := (traps r).ulCount + 1
          pList := (traps r).pList.set (traps r).ulCount.toNat xIP } := by
  simp only [netTrapAddIP]
  split
  next hexist => exact .inl ⟨.inl hexist, rfl⟩
  next hexist =>
    split
    next hroom => exact .inr ⟨Bool.eq_false_iff.mpr hexist, hroom, traps_modify _⟩
    next hroom => exact .inl ⟨.inr (Nat.not_lt.mp hroom), rfl⟩

theorem traps_delIP_cases (hnodup : (trapSlots r).front.Nodup) (xIP : UInt32) :
    xIP ∉ (trapSlots r).front ∧ traps (netTrapDelIP xIP r).2 = traps r ∨
      xIP ∈ (trapSlots r).front ∧ traps (netTrapDelIP xIP r).2 = { traps r with
        ulCount := (traps r).ulCount - 1
        pList := (trapSlots r).front.erase xIP ++ 0 :: (trapSlots r).stale } := by
  simp only [netTrapDelIP]
  split
  next hnone =>
    refine .inl ⟨fun hmem => ?_, rfl⟩
    have h := List.findIdx?_eq_none_iff.mp hnone xIP (List.mem_reverse.mpr hmem)
    simp at h
  next i hsome =>
    obtain ⟨hmem, herase⟩ := eraseIdx_last hnodup hsome
    refine .inr ⟨hmem, ?_⟩
    rw [traps_modify, ← herase]
    rfl

theorem traps_cgiSystem_cases (pQuery : SystemQuery) (r : Ram) :
    queryServers pQuery = none ∧ traps (cgiSystem pQuery r) = traps r ∨
      ∃ server1 server2, queryServers pQuery = some ([server1, server2].filter (· ≠ 0)) ∧
        traps (cgiSystem pQuery r) = setServers server1 server2 (traps r) := by
  rw [queryServers, cgiSystem]
  cases hread : pQuery.read with
  | none => exact .inl ⟨rfl, rfl⟩
  | some addresses =>
    refine .inr ⟨addresses.2.2.2.1, addresses.2.2.2.2, rfl, ?_⟩
    by_cases hdhcp : pQuery.dhcp = true <;> simp [hdhcp, netSet, traps, Ram.modify]

theorem count_pred (hfit : TrapsFit product (traps r)) {xIP : UInt32}
    (hmem : xIP ∈ (trapSlots r).front) :
    ((traps r).ulCount - 1).toNat = (traps r).ulCount.toNat - 1 := by
  have hpos := List.length_pos_of_mem hmem
  rw [front_length hfit] at hpos
  exact Words.toNat_pred hpos

theorem pushServer_count {server1 : UInt32} {t : TrapConfig} :
    (pushServer server1 t).ulCount.toNat ≤ t.ulCount.toNat + 1 := by
  rw [pushServer]
  split
  · rw [UInt32.toNat_add, UInt32.toNat_one]
    exact Nat.mod_le _ _
  · exact Nat.le_succ _

theorem setServers_fit (htwo : 2 ≤ product.trapCount) (hfit : TrapsFit product (traps r))
    (server1 server2 : UInt32) : TrapsFit product (setServers server1 server2 (traps r)) := by
  rw [setServers]
  refine ⟨?_, ?_⟩
  · rw [pushServer_length, pushServer_length]
    exact hfit.length
  · calc
      _ ≤ (pushServer server1 { traps r with ulCount := 0 }).ulCount.toNat + 1 := pushServer_count
      _ ≤ 0 + 1 + 1 := Nat.succ_le_succ pushServer_count
      _ ≤ product.trapCount := htwo

theorem addIP_isSet_iff (htwo : 2 ≤ product.trapCount) (hword : product.trapCount < 4294967296)
    (h : TrapsSound product r) (xIP : UInt32) :
    IsSet 0 (trapSlots (netTrapAddIP product xIP r).2) ↔ TrapKept product r (.addIP xIP) := by
  have hlen := h.fit.length
  rcases traps_addIP_cases product xIP r with ⟨hheld, heq⟩ | ⟨hnew, hroom, heq⟩ <;>
    rw [trapSlots, heq]
  · refine iff_of_true h.isSet ⟨?_, ?_⟩
    · rintro rfl
      have hfull : product.trapCount ≤ (traps r).ulCount.toNat := by
        simpa [netTrapIsExist] using hheld
      exact Nat.le_antisymm h.fit.count hfull
    · intro hzero
      have hnone : product.trapCount = 0 := by simpa [netTrapIsExist, hzero] using hheld
      omega
  · have hslots : TrapConfig.slots { traps r with
        ulCount := (traps r).ulCount + 1
        pList := (traps r).pList.set (traps r).ulCount.toNat xIP } = (trapSlots r).push xIP := by
      rw [TrapConfig.slots, Words.toNat_succ (by omega)]
      exact ofArray_push (by omega) xIP
    have hseen := (trapsSeen_iff h.fit).mpr h.isSet
    have hx : xIP ∉ (trapSlots r).front := by
      rw [← hseen.trapIsExist, hnew]
      exact Bool.false_ne_true
    have hempty : (trapSlots r).front = [] ↔ (traps r).ulCount = 0 :=
      not_iff_not.mp (front_ne_nil h.fit)
    rw [hslots, isSet_push_iff h.isSet hx, hempty]
    refine and_congr_left' ⟨fun hzero heq => absurd heq hzero, fun hfull hzero => ?_⟩
    exact absurd (hfull hzero) (by omega)

theorem delIP_isSet_iff (h : TrapsSound product r) (xIP : UInt32) :
    IsSet 0 (trapSlots (netTrapDelIP xIP r).2) ↔ TrapKept product r (.delIP xIP) := by
  rcases traps_delIP_cases h.isSet.nodup xIP with ⟨hx, heq⟩ | ⟨hx, heq⟩ <;> rw [trapSlots, heq]
  · exact iff_of_true h.isSet fun hmem => absurd hmem hx
  · have hcount : (traps r).ulCount.toNat ≤ (traps r).pList.length := by
      rw [h.fit.length]
      exact h.fit.count
    have hslots : TrapConfig.slots { traps r with
        ulCount := (traps r).ulCount - 1
        pList := (trapSlots r).front.erase xIP ++ 0 :: (trapSlots r).stale } =
          (trapSlots r).remove 0 xIP := by
      rw [TrapConfig.slots, count_pred h.fit hx]
      exact ofArray_remove 0 hcount hx
    rw [hslots, isSet_remove_iff h.isSet hx, front_length h.fit]
    exact ⟨fun hstale _ => hstale, fun hkept => hkept hx⟩

theorem cgiSystem_isSet_iff (htwo : 2 ≤ product.trapCount)
    (hword : product.trapCount < 4294967296) (h : TrapsSound product r) (pQuery : SystemQuery) :
    IsSet 0 (trapSlots (cgiSystem pQuery r)) ↔ TrapKept product r (.cgiSystem pQuery) := by
  have hlen := h.fit.length
  rcases traps_cgiSystem_cases pQuery r with ⟨hq, heq⟩ | ⟨server1, server2, hq, heq⟩ <;>
    rw [trapSlots, heq]
  · refine iff_of_true h.isSet fun servers hservers => ?_
    rw [hq] at hservers
    contradiction
  · have hall : (traps r).slots.all = (traps r).pList := ofArray_all _ _
    rw [setServers_eq (by omega) (by omega), isSet_refill_iff, hall, TrapKept, hq]
    simp

/-- A call leaves the list a set exactly where it is allowed. -/
theorem apply_isSet_iff (htwo : 2 ≤ product.trapCount) (hword : product.trapCount < 4294967296)
    (h : TrapsSound product r) (a : TrapAction) :
    IsSet 0 (trapSlots (a.apply product r)) ↔ TrapKept product r a := by
  cases a with
  | addIP xIP => exact addIP_isSet_iff htwo hword h xIP
  | delIP xIP => exact delIP_isSet_iff h xIP
  | clear =>
    rw [TrapAction.apply, trapSlots, netTrapClear, traps_modify]
    exact iff_of_true (isSet_empty rfl) trivial
  | cgiSystem pQuery => exact cgiSystem_isSet_iff htwo hword h pQuery

/-- No call changes how many entries there are, and the first ones stay within them. -/
theorem apply_fit (htwo : 2 ≤ product.trapCount) (hword : product.trapCount < 4294967296)
    (h : TrapsSound product r) (a : TrapAction) : TrapsFit product (traps (a.apply product r)) := by
  have hlen := h.fit.length
  cases a with
  | addIP xIP =>
    rcases traps_addIP_cases product xIP r with ⟨-, heq⟩ | ⟨-, hroom, heq⟩ <;>
      rw [TrapAction.apply, heq]
    · exact h.fit
    · refine ⟨?_, ?_⟩
      · rw [List.length_set, hlen]
      · rw [Words.toNat_succ (by omega)]
        exact hroom
  | delIP xIP =>
    rcases traps_delIP_cases h.isSet.nodup xIP with ⟨-, heq⟩ | ⟨hmem, heq⟩ <;>
      rw [TrapAction.apply, heq]
    · exact h.fit
    · have hcount := h.fit.count
      have hfront := front_length h.fit
      have hpos := List.length_pos_of_mem hmem
      have hall : (trapSlots r).front.length + (trapSlots r).stale.length = product.trapCount := by
        rw [← List.length_append, ← hlen, ← trapSlots_all]
        rfl
      refine ⟨?_, ?_⟩
      · rw [List.length_append, List.length_erase_of_mem hmem, List.length_cons]
        omega
      · rw [count_pred h.fit hmem]
        omega
  | clear =>
    rw [TrapAction.apply, netTrapClear, traps_modify]
    exact ⟨List.length_replicate, Nat.zero_le _⟩
  | cgiSystem pQuery =>
    rcases traps_cgiSystem_cases pQuery r with ⟨-, heq⟩ | ⟨server1, server2, -, heq⟩ <;>
      rw [TrapAction.apply, heq]
    · exact h.fit
    · exact setServers_fit htwo h.fit server1 server2

/-- Every reader sees the same set throughout a run exactly when no call of it puts in a zero or an
address twice, or leaves an old one behind the first entries. -/
theorem trapsSeen_runs_iff (htwo : 2 ≤ product.trapCount) (hword : product.trapCount < 2 ^ 32)
    {r : Ram} (hr : TrapsSound product r) (acts : List TrapAction) :
    (∀ u, Visits (trapStep product) r acts u → TrapsSeen u) ↔
      ∀ u a, Takes (trapStep product) r acts u a → TrapKept product u a := by
  obtain ⟨t, ht⟩ := exec_total (trapStep product) (fun r a => ⟨a.apply product r, rfl⟩) acts r
  apply visits_iff_takes hr ?_ ?_ ?_ ht
  · intro u a v h hkept hs
    cases hs
    exact ⟨apply_fit htwo hword h a, (apply_isSet_iff htwo hword h a).mpr hkept⟩
  · intro u h
    exact (trapsSeen_iff h.fit).mpr h.isSet
  · intro u a v h hkept hs hseen
    cases hs
    have hsound := (trapsSeen_iff (apply_fit htwo hword h a)).mp hseen
    exact hkept ((apply_isSet_iff htwo hword h a).mp hsound)

local instance decidableForallMem (l : List UInt32) (p : UInt32 → Prop) [DecidablePred p] :
    Decidable (∀ y ∈ l, p y) :=
  List.decidableBAll p l

instance (r : Ram) : DecidablePred (TrapKept product r)
  | .addIP _ => inferInstanceAs (Decidable (_ ∧ _))
  | .delIP _ => inferInstanceAs (Decidable (_ → _ → _))
  | .clear => .isTrue trivial
  | .cgiSystem _ => inferInstanceAs (Decidable (∀ servers ∈ _, _))

end Steps

section Network

/-- A product whose list has the five entries of the header. -/
def fiveTraps : Product := { bareProduct with trapCount := 5 }

def noTraps : Ram := ⟨zeroPage fiveTraps, fun _ => false⟩

theorem noTraps_sound : TrapsSound fiveTraps noTraps :=
  ⟨⟨List.length_replicate, Nat.zero_le _⟩, isSet_empty rfl⟩

def serversQuery (server1 server2 : UInt32) : SystemQuery :=
  { ip := some 0xC0A80002, netmask := some 0xFFFFFF00, gateway := some 0xC0A80001, dhcp := false
    server1 := some (some server1), server2 := some (some server2) }

/-- Of two servers the CGI keeps one: the SNMP side still finds the other, the network side does
not. -/
theorem cgiSystem_leaves_server :
    let acts := [serversQuery 0xC0A80003 0xC0A80004, serversQuery 0xC0A80003 0].map .cgiSystem
    ∃ u, exec (trapStep fiveTraps) acts noTraps = some u ∧
      netTrapIsExist 0xC0A80004 (traps u) = true ∧ netServerIsExist 0xC0A80004 (traps u) = false ∧
      ¬ TrapsSeen u := by
  refine ⟨_, rfl, by decide, by decide, fun h => ?_⟩
  have hfront := (h.trapIsExist 0xC0A80004).mp (by decide)
  exact absurd hfront (by decide)

def trapCalls : List TrapAction :=
  [.addIP 0xC0A80003, .cgiSystem (serversQuery 0xC0A80003 0xC0A80004), .delIP 0xC0A80004,
    .addIP 0xC0A80005, .clear, .addIP 0xC0A80004]

theorem trapsSeen_trapCalls :
    ∃ u, exec (trapStep fiveTraps) trapCalls noTraps = some u ∧ TrapsSeen u := by
  refine ⟨_, rfl, ?_⟩
  have hseen := (trapsSeen_runs_iff (by decide) (by decide) noTraps_sound trapCalls).mpr
    (takes_of_along (by decide +kernel))
  exact hseen _ ⟨trapCalls, List.prefix_rfl, rfl⟩

end Network

end EdgeNode.Config
