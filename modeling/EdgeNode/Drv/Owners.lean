import EdgeNode.Drv.Gpios
import EdgeNode.Lib.Runs

/-! Who owns a port while GPIOs are attached and detached. -/

namespace EdgeNode.Drv.Gpios

open Runs Mcp23s08

section Handing

variable {S V : List UInt32} {ports ports' ports'' : Lwgpios} {d v : UInt32}

/-- At most the ports of `S` have other parents, and these are of `V`. -/
def Handed (S V : List UInt32) (ports ports' : Lwgpios) : Prop :=
  ∀ d, ports' d = ports d ∨ d ∈ S ∧ ∃ v ∈ V, ports' d = (ports d).map fun _ => v

theorem Handed.refl (S V : List UInt32) (ports : Lwgpios) : Handed S V ports ports := fun _ => .inl rfl

theorem Handed.trans (h : Handed S V ports ports') (h' : Handed S V ports' ports'') :
    Handed S V ports ports'' := by
  intro d
  rcases h' d with heq | ⟨hd, v, hv, heq⟩
  · rw [heq]
    exact h d
  · refine .inr ⟨hd, v, hv, ?_⟩
    rw [heq]
    rcases h d with hold | ⟨-, v', -, hold⟩
    · rw [hold]
    · rw [hold, Option.map_map]
      rfl

theorem handed_update (hd : d ∈ S) (hv : v ∈ V) :
    Handed S V ports (Function.update ports d ((ports d).map fun _ => v)) := by
  intro d'
  by_cases h : d' = d
  · subst h
    exact .inr ⟨hd, v, hv, Function.update_self _ _ _⟩
  · exact .inl (Function.update_of_ne h _ _)

theorem handed_attach (init : Bool) (hd : d ∈ S) (hv : v ∈ V) :
    Handed S V ports (ports.attach d v init).2 := by
  rw [Lwgpios.attach]
  split
  · exact handed_update hd hv
  · exact Handed.refl S V ports

theorem handed_detach (hd : d ∈ S) (hzero : 0 ∈ V) : Handed S V ports (ports.detach d) := by
  rw [Lwgpios.detach]
  split
  · exact handed_update hd hzero
  · exact Handed.refl S V ports

theorem handed_release (spi : Spi) (hd : spi.xCSGPIO ∈ S) (hzero : 0 ∈ V) :
    Handed S V ports (spi.release ports) := by
  rw [Spi.release]
  split
  · exact handed_detach hd hzero
  · exact Handed.refl S V ports

theorem handed_spiAttach (spi : Spi) (ports : Lwgpios) (hw : Hardware) (hd : spi.xCSGPIO ∈ S)
    (hv : v ∈ V) (hzero : 0 ∈ V) : Spi.xCSGPIO (spi.attach v ports hw).2.1 = spi.xCSGPIO ∧
      Handed S V ports (spi.attach v ports hw).2.2 := by
  rw [Spi.attach]
  split
  · dsimp only
    split
    · have hattach : Handed S V ports (ports.attach spi.xCSGPIO v (hw.init spi.xCSGPIO)).2 :=
        handed_attach _ hd hv
      refine ⟨rfl, ?_⟩
      dsimp only
      split
      · exact hattach
      · exact hattach.trans (handed_release _ hd hzero)
    · exact ⟨rfl, Handed.refl S V ports⟩
  · exact ⟨rfl, handed_release spi hd hzero⟩

theorem handed_stop (bank : Bank) (spi : Spi) (hd : spi.xCSGPIO ∈ S) (hint : bank.xGPIOInt ∈ S)
    (hreset : bank.xGPIOReset ∈ S) (hzero : 0 ∈ V) : Handed S V ports (bank.stop spi ports).2.2 := by
  rw [Bank.stop, Spi.detach]
  cases spi.pCSPort with
  | false => exact Handed.refl S V ports
  | true =>
    exact ((handed_detach hd hzero).trans (handed_detach hint hzero)).trans
      (handed_detach hreset hzero)

/-- An expander that starts hands over nothing but its own ports, and those to itself, to its SPI or to
nobody. -/
theorem handed_start (bank : Bank) (nID : UInt32) (spi : Spi) (hw : Hardware) :
    Handed [bank.xGPIOInt, bank.xGPIOReset, spi.xCSGPIO] [0, nID, bank.xSPI] ports
      (bank.start nID spi ports hw).2.2 := by
  have hstop (spi' : Spi) (hspi : spi'.xCSGPIO = spi.xCSGPIO) (ports : Lwgpios) :
      Handed [bank.xGPIOInt, bank.xGPIOReset, spi.xCSGPIO] [0, nID, bank.xSPI] ports
        (bank.stop spi' ports).2.2 :=
    handed_stop bank spi' (by simp [hspi]) (by simp) (by simp) (by simp)
  have hint : Handed [bank.xGPIOInt, bank.xGPIOReset, spi.xCSGPIO] [0, nID, bank.xSPI] ports
      (ports.attach bank.xGPIOInt nID (hw.init bank.xGPIOInt)).2 :=
    handed_attach _ (by simp) (by simp)
  rw [Bank.start]
  dsimp only
  split
  · have hreset := hint.trans (handed_attach (d := bank.xGPIOReset) (v := nID)
      (hw.init bank.xGPIOReset) (by simp) (by simp))
    split
    · obtain ⟨hspi, hcs⟩ := handed_spiAttach (S := [bank.xGPIOInt, bank.xGPIOReset, spi.xCSGPIO])
        (V := [0, nID, bank.xSPI]) (v := bank.xSPI) spi
        ((ports.attach bank.xGPIOInt nID (hw.init bank.xGPIOInt)).2.attach bank.xGPIOReset nID
          (hw.init bank.xGPIOReset)).2 hw (by simp) (by simp) (by simp)
      split
      · exact hreset.trans hcs
      · exact (hreset.trans hcs).trans (hstop _ hspi _)
    · exact hreset.trans (hstop spi rfl _)
  · exact hint.trans (hstop spi rfl _)

end Handing

section Attaching

/-- A pin that could be attached belongs to its new parent, and nothing changes for the others. -/
theorem owner_attach (bank : Bank) (p : Nat) (nParent : UInt32) (bus : Bool) (r : Init) (defval : Bool)
    (q : Nat) :
    ({ bank with state := (bank.state.attach p nParent true bus r defval).2 } : Bank).owner q =
      if q = p ∧ (bank.state.attach p nParent true bus r defval).1 = retOk then some nParent
      else bank.owner q := by
  by_cases h : bank.state.Attachable p true bus
  · obtain ⟨hok, hat⟩ := @State.attach_of_attachable bank.state p nParent true bus r defval h
    obtain ⟨-, hfree, -⟩ := h
    simp only [Bank.owner, hat.pParent, hat.nBit, hat.nParent, Function.update_apply, hok, and_true]
    by_cases hq : q = p
    · subst hq
      simp
    · simp only [if_neg hq]
      by_cases hbit : (bank.state.pins q).nBit = (bank.state.pins p).nBit
      · rw [if_pos hbit, hbit, hfree, if_neg fun heq => hq (Option.some.inj heq).symm,
          if_neg (by simp)]
      · rw [if_neg hbit]
  · rw [State.attach_of_not_attachable h, if_neg fun h => retError_ne h.2]
    simp only [Bank.owner, State.withPin, Function.update_apply]
    split <;> simp [*]

theorem free_of_attach {bank : Bank} {p : Nat} {nParent : UInt32} {bus : Bool} {r : Init}
    {defval : Bool} (h : (bank.state.attach p nParent true bus r defval).1 = retOk) : bank.Free p := by
  by_contra hbusy
  rw [State.attach_of_not_attachable fun hat => hbusy hat.2.1] at h
  exact retError_ne h

theorem owner_setDIR (bank : Bank) (p : Nat) (nValue : Dir) (first second : Bool) (q : Nat) :
    ({ bank with state := (bank.state.setDIR p nValue first second).2 } : Bank).owner q =
      bank.owner q := by
  have hbits (d : Expander) (nReg : Nat) (nBit : Fin 8) (v ok : Bool) :
      (d.setRegBit nReg nBit v ok).2.pParent = d.pParent := by
    rw [Expander.setRegBit, Expander.setReg]
    split <;> rfl
  have hstate : (bank.state.setDIR p nValue first second).2.dev.pParent = bank.state.dev.pParent ∧
      (bank.state.setDIR p nValue first second).2.pins = bank.state.pins := by
    unfold State.setDIR
    split
    · cases nValue with
      | input => exact ⟨(hbits _ _ _ _ _).trans (hbits _ _ _ _ _), rfl⟩
      | output => exact ⟨(hbits _ _ _ _ _).trans (hbits _ _ _ _ _), rfl⟩
      | noChange => exact ⟨rfl, rfl⟩
    · exact ⟨rfl, rfl⟩
  rw [Bank.owner, hstate.1, hstate.2]
  rfl

namespace World

variable {w w' : World} {nDevID nDrvID nParent d : UInt32} {bank bank' : Bank} {hw : Hardware}

/-- What an attachment of a port may change in a world. -/
structure Attaches (w : World) (nDevID nParent : UInt32) (ret : Option Ret) (w' : World) : Prop where
  gpios : w'.gpios = w.gpios
  nGPIOs : w'.nGPIOs = w.nGPIOs
  port : ∀ d, w'.port d = w.port d
  owner : ∀ d, w'.owner d = w.owner d ∨ (d = nDevID ∧ ret = some retOk) ∨
    d ∈ (w.own nDevID).1 ∧ ∃ v ∈ (w.own nDevID).2, w'.owner d = some v
  attached : ret = some retOk → w'.owner nDevID = some nParent

theorem port_congr (hports : ∀ d, (w'.lwgpios d).isSome = (w.lwgpios d).isSome)
    (hpins : w'.pins = w.pins) (d : UInt32) : w'.port d = w.port d := by
  have hmap : ((w'.lwgpios d).map fun _ => Port.lwgpio) = (w.lwgpios d).map fun _ => Port.lwgpio := by
    have h := hports d
    cases hd : w.lwgpios d <;> cases hd' : w'.lwgpios d <;> simp_all
  rw [port, port, hpins, hmap]

theorem parent_of_port (h : w.port d = some .lwgpio) : ∃ a, w.lwgpios d = some a := by
  rw [port] at h
  split at h
  · obtain ⟨a, ha, -⟩ := Option.map_eq_some_iff.mp h
    exact ⟨a, ha⟩
  · split at h
    · obtain ⟨_, -, hne⟩ := Option.map_eq_some_iff.mp h
      cases hne
    · cases h

theorem owner_handed {S V : List UInt32} (w' : World) (hports : Handed S V w.lwgpios w'.lwgpios)
    (hpins : w'.pins = w.pins) (hbanks : w'.banks = w.banks) (d : UInt32) :
    w'.port d = w.port d ∧ (w'.owner d = w.owner d ∨ d ∈ S ∧ ∃ v ∈ V, w'.owner d = some v) := by
  have hport : w'.port d = w.port d := by
    refine port_congr (fun d => ?_) hpins d
    rcases hports d with h | ⟨-, v, -, h⟩ <;> rw [h]
    exact Option.isSome_map
  refine ⟨hport, ?_⟩
  rw [owner, owner, hport, hbanks]
  cases h : w.port d with
  | none => exact .inl rfl
  | some port =>
    cases port with
    | mcp23s08 nDrvID => exact .inl rfl
    | lwgpio =>
      rcases hports d with heq | ⟨hd, v, hv, heq⟩
      · exact .inl heq
      · refine .inr ⟨hd, v, hv, heq.trans ?_⟩
        obtain ⟨a, ha⟩ := parent_of_port h
        rw [ha]
        rfl

theorem owner_withBank (bank' : Bank) (d : UInt32) : (w.withBank nDrvID bank').owner d =
    if w.port d = some (.mcp23s08 nDrvID) then bank'.owner d.toNat else w.owner d := by
  rw [owner, owner, show (w.withBank nDrvID bank').port d = w.port d from rfl, withBank]
  cases h : w.port d with
  | none => rfl
  | some port =>
    cases port with
    | lwgpio => rfl
    | mcp23s08 nDrvID' =>
      dsimp only [Option.bind_some]
      rw [Function.update_apply]
      by_cases heq : nDrvID' = nDrvID
      · rw [if_pos heq, heq, if_pos rfl, Option.bind_some]
      · rw [if_neg heq, if_neg fun h => heq (Port.mcp23s08.inj (Option.some.inj h))]

theorem owner_pin (hport : w.port d = some (.mcp23s08 nDrvID)) (hbank : w.banks nDrvID = some bank) :
    w.owner d = bank.owner d.toNat := by
  rw [owner, hport, Option.bind_some]
  dsimp only
  rw [hbank, Option.bind_some]

theorem start_spec (w : World) (nDrvID : UInt32) (bank : Bank) (hw : Hardware) :
    (w.start nDrvID bank hw).2.gpios = w.gpios ∧ (w.start nDrvID bank hw).2.nGPIOs = w.nGPIOs ∧
      (w.start nDrvID bank hw).2.pins = w.pins ∧ (w.start nDrvID bank hw).2.banks = w.banks ∧
      Handed (bank.xGPIOInt :: bank.xGPIOReset :: ((w.spis bank.xSPI).map Spi.xCSGPIO).toList)
        [0, nDrvID, bank.xSPI] w.lwgpios (w.start nDrvID bank hw).2.lwgpios := by
  rw [start]
  cases w.spis bank.xSPI with
  | none => exact ⟨rfl, rfl, rfl, rfl, Handed.refl _ _ _⟩
  | some spi =>
    dsimp only
    split
    · exact ⟨rfl, rfl, rfl, rfl, handed_start bank nDrvID spi hw⟩
    · exact ⟨rfl, rfl, rfl, rfl, Handed.refl _ _ _⟩

/-- What comes before the expander itself is asked leaves at most its own ports with other owners. -/
theorem start_if_spec (hport : w.port nDevID = some (.mcp23s08 nDrvID))
    (hbank : w.banks nDrvID = some bank) {bus : Option Bool} {w' : World}
    (h : (if bank.Starts nDevID.toNat then w.start nDrvID bank hw else (some true, w)) = (bus, w')) :
    w'.gpios = w.gpios ∧ w'.nGPIOs = w.nGPIOs ∧ w'.pins = w.pins ∧ w'.banks = w.banks ∧
      Handed (w.own nDevID).1 (w.own nDevID).2 w.lwgpios w'.lwgpios := by
  have hown : w.own nDevID = if bank.Starts nDevID.toNat then
      (bank.xGPIOInt :: bank.xGPIOReset :: ((w.spis bank.xSPI).map Spi.xCSGPIO).toList,
        [0, nDrvID, bank.xSPI])
      else ([], []) := by
    rw [own, hport]
    dsimp only
    rw [hbank]
  rw [hown]
  split at h
  next hstarts =>
    have hspec := start_spec w nDrvID bank hw
    rw [h] at hspec
    rw [if_pos hstarts]
    exact hspec
  next hstarts =>
    cases h
    rw [if_neg hstarts]
    exact ⟨rfl, rfl, rfl, rfl, Handed.refl _ _ _⟩

theorem attaches_pin (hport : w.port nDevID = some (.mcp23s08 nDrvID)) :
    Attaches w nDevID nParent (w.pinAttach nDevID nDrvID nParent hw).1
      (w.pinAttach nDevID nDrvID nParent hw).2 := by
  cases hbank : w.banks nDrvID with
  | none =>
    have hpin : w.pinAttach nDevID nDrvID nParent hw = (some retError, w) := by rw [pinAttach, hbank]
    rw [hpin]
    exact ⟨rfl, rfl, fun _ => rfl, fun _ => .inl rfl, fun h => absurd h some_retError_ne⟩
  | some bank =>
    rw [pinAttach, hbank]
    dsimp only
    generalize h : (if bank.Starts nDevID.toNat then w.start nDrvID bank hw else (some true, w)) =
      started
    obtain ⟨ret, w'⟩ := started
    obtain ⟨hgpios, hcount, hpins, hbanks, hports⟩ := start_if_spec hport hbank h
    have hstart := owner_handed _ hports hpins hbanks
    cases ret with
    | none =>
      exact ⟨hgpios, hcount, fun d => (hstart d).1, fun d => (hstart d).2.imp_right .inr, nofun⟩
    | some bus =>
      have howner := owner_attach bank nDevID.toNat nParent bus hw.r hw.defval
      refine ⟨hgpios, hcount, fun d => (hstart d).1, fun d => ?_, fun hok => ?_⟩
      · rw [owner_withBank, howner]
        by_cases hnew : d = nDevID ∧
            (bank.state.attach nDevID.toNat nParent true bus hw.r hw.defval).1 = retOk
        · exact .inr (.inl ⟨hnew.1, congrArg some hnew.2⟩)
        · have hold : ¬ (d.toNat = nDevID.toNat ∧
              (bank.state.attach nDevID.toNat nParent true bus hw.r hw.defval).1 = retOk) :=
            fun h => hnew ⟨UInt32.toNat_inj.mp h.1, h.2⟩
          rw [if_neg hold]
          by_cases hpin : w.port d = some (.mcp23s08 nDrvID)
          · rw [if_pos ((hstart d).1.trans hpin)]
            exact .inl (owner_pin hpin hbank).symm
          · rw [if_neg fun h => hpin ((hstart d).1.symm.trans h)]
            exact (hstart d).2.imp_right .inr
      · rw [owner_withBank, if_pos ((hstart nDevID).1.trans hport), howner,
          if_pos ⟨rfl, Option.some.inj hok⟩]

/-- An attachment that succeeds found a port that could be attached. -/
theorem attachable_of_pin (hport : w.port nDevID = some (.mcp23s08 nDrvID))
    (h : (w.pinAttach nDevID nDrvID nParent hw).1 = some retOk) : w.Attachable nDevID hw := by
  rw [Attachable, hport]
  rw [pinAttach] at h
  cases hbank : w.banks nDrvID with
  | none =>
    rw [hbank] at h
    exact absurd h some_retError_ne
  | some bank =>
    rw [hbank] at h
    dsimp only at h
    split at h
    · cases h
    · exact ⟨bank, hbank, free_of_attach (Option.some.inj h)⟩

theorem attaches_lwgpio (hport : w.port nDevID = some .lwgpio) :
    Attaches w nDevID nParent (w.portAttach nDevID nParent hw .lwgpio).1
      (w.portAttach nDevID nParent hw .lwgpio).2 := by
  rw [portAttach]
  cases hinit : hw.init nDevID with
  | false =>
    exact ⟨rfl, rfl, fun _ => rfl, fun _ => .inl rfl, fun h => absurd h some_retError_ne⟩
  | true =>
    rw [Lwgpios.attach, if_pos rfl]
    have hports : Handed [nDevID] [nParent] w.lwgpios
        (Function.update w.lwgpios nDevID ((w.lwgpios nDevID).map fun _ => nParent)) :=
      handed_update (List.mem_singleton_self _) (List.mem_singleton_self _)
    have hhanded := owner_handed { w with
      lwgpios := Function.update w.lwgpios nDevID ((w.lwgpios nDevID).map fun _ => nParent) }
      hports rfl rfl
    refine ⟨rfl, rfl, fun d => (hhanded d).1, fun d => ?_, fun _ => ?_⟩
    · exact (hhanded d).2.imp_right fun h => .inl ⟨List.mem_singleton.mp h.1, rfl⟩
    · obtain ⟨a, ha⟩ := parent_of_port hport
      rw [owner, (hhanded nDevID).1, hport, Option.bind_some]
      dsimp only
      rw [Function.update_self, ha]
      rfl

theorem attaches_port {port : Port} (nParent : UInt32) (hw : Hardware)
    (hport : w.port nDevID = some port) :
    Attaches w nDevID nParent (w.portAttach nDevID nParent hw port).1
      (w.portAttach nDevID nParent hw port).2 := by
  cases port with
  | lwgpio => exact attaches_lwgpio hport
  | mcp23s08 nDrvID => exact attaches_pin hport

theorem attachable_of_port {port : Port} (hport : w.port nDevID = some port)
    (h : (w.portAttach nDevID nParent hw port).1 = some retOk) : w.Attachable nDevID hw := by
  cases port with
  | mcp23s08 nDrvID => exact attachable_of_pin hport h
  | lwgpio =>
    rw [Attachable, hport]
    dsimp only
    rw [portAttach, Lwgpios.attach] at h
    cases hinit : hw.init nDevID with
    | true => rfl
    | false =>
      rw [hinit] at h
      exact absurd h some_retError_ne

theorem setDIR_spec (w : World) (nDevID : UInt32) (nDIR : Dir) (hw : Hardware) (port : Port) :
    (w.setDIR nDevID nDIR hw port).gpios = w.gpios ∧
      (w.setDIR nDevID nDIR hw port).nGPIOs = w.nGPIOs ∧
      ∀ d, (w.setDIR nDevID nDIR hw port).owner d = w.owner d := by
  cases port with
  | lwgpio => exact ⟨rfl, rfl, fun _ => rfl⟩
  | mcp23s08 nDrvID =>
    rw [setDIR]
    cases hbank : w.banks nDrvID with
    | none => exact ⟨rfl, rfl, fun _ => rfl⟩
    | some bank =>
      refine ⟨rfl, rfl, fun d => ?_⟩
      dsimp only
      rw [owner_withBank, owner_setDIR]
      split
      next hpin => exact (owner_pin hpin hbank).symm
      next => rfl

end World

end Attaching

section Results

namespace World

variable {w w' : World} {acts : List Action}

/-- What allowed steps keep: with the owners and the count that no GPIO was detached. -/
structure Inv (w : World) : Prop where
  owns : ∀ (k : Nat) (pGpio : Gpio), w.gpios[k]? = some pGpio →
    (w.Owns pGpio ↔ pGpio.last = some .attach)
  never : ∀ (k : Nat) (pGpio : Gpio), w.gpios[k]? = some pGpio → pGpio.last ≠ some .detach
  count : w.count.toNat = w.gpios.length

theorem Start.inv (h : w.Start) : w.Inv := by
  obtain ⟨hgpios, hcount⟩ := h
  refine ⟨fun k pGpio hk => ?_, fun k pGpio hk => ?_, ?_⟩
  · rw [hgpios] at hk
    cases hk
  · rw [hgpios] at hk
    cases hk
  · rw [count, hcount, hgpios]
    rfl

theorem Inv.owned (hi : w.Inv) : w.Owned :=
  ⟨hi.owns, fun k pGpio hk hlast => absurd hlast (hi.never k pGpio hk), hi.count⟩

theorem Inv.create (hi : w.Inv) {pConfig : Config} {alloc : Bool}
    (ha : w.Allowed (.create pConfig alloc)) (hroom : alloc = true → w.gpios.length + 1 < 2 ^ 28) :
    (w.create pConfig alloc).2.Inv := by
  cases alloc with
  | false => exact hi
  | true =>
    have hnew (k : Nat) (pGpio : Gpio) (hk : (w.create pConfig true).2.gpios[k]? = some pGpio) :
        w.gpios[k]? = some pGpio ∨ pGpio = ⟨pConfig, 0, none, none⟩ := by
      rw [show (w.create pConfig true).2.gpios = w.gpios ++ [⟨pConfig, 0, none, none⟩] from rfl,
        List.getElem?_append] at hk
      split at hk
      · exact .inl hk
      · exact .inr (List.mem_singleton.mp (List.mem_of_getElem? hk))
    refine ⟨fun k pGpio hk => ?_, fun k pGpio hk => ?_, ?_⟩
    · rcases hnew k pGpio hk with hold | rfl
      · exact hi.owns k pGpio hold
      · exact iff_of_false (ha rfl) (by simp)
    · rcases hnew k pGpio hk with hold | rfl
      · exact hi.never k pGpio hold
      · simp
    · have hcount := hi.count
      have hlength := hroom rfl
      rw [World.count] at hcount ⊢
      rw [World.create, if_pos rfl]
      dsimp only
      rw [List.length_append, List.length_singleton, UInt32.toNat_add, hcount]
      simp only [UInt32.toNat_one]
      omega

/-- The other GPIOs own their ports after an attachment as before. -/
theorem Inv.owns_attaches (hi : w.Inv) {k : Nat} {pGpio : Gpio} {nParent : UInt32} {hw : Hardware}
    {ret : Option Ret} (ha : w.Allowed (.attach k nParent hw)) (hk : w.gpios[k]? = some pGpio)
    (hat : Attaches w pGpio.pConfig.nDevID pGpio.pConfig.nID ret w')
    (hfound : ret = some retOk → w.Attachable pGpio.pConfig.nDevID hw) {j : Nat} {pGpio' : Gpio}
    (hj : w.gpios[j]? = some pGpio') (hjk : j ≠ k ∨ ret ≠ some retOk) :
    w'.Owns pGpio' ↔ pGpio'.last = some .attach := by
  obtain ⟨hother, hown⟩ := ha pGpio hk j pGpio' hj
  rw [Owns]
  rcases hat.owner pGpio'.pConfig.nDevID with hsame | ⟨hport, hok⟩ | ⟨hmem, v, hv, hnew⟩
  · rw [hsame]
    exact hi.owns j pGpio' hj
  · have hne : j ≠ k := hjk.resolve_right fun h => h hok
    rw [hport, hat.attached hok, Option.some.injEq, eq_comm]
    exact hother hne hport (hfound hok)
  · obtain ⟨hlast, hparent⟩ := hown hmem
    rw [hnew, Option.some.injEq]
    refine iff_of_false (fun heq => ?_) hlast
    rw [heq] at hv
    exact hparent hv

theorem Inv.attach (hi : w.Inv) {k : Nat} {pGpio : Gpio} {nParent : UInt32} {hw : Hardware}
    (ha : w.Allowed (.attach k nParent hw)) (hk : w.gpios[k]? = some pGpio) :
    (w.attach k pGpio nParent hw).2.Inv := by
  rw [World.attach]
  cases hport : w.port pGpio.pConfig.nDevID with
  | none => exact hi
  | some port =>
    have hat := attaches_port pGpio.pConfig.nID hw hport
    have howns := @Inv.owns_attaches _ _ hi k pGpio nParent hw _ ha hk hat (attachable_of_port hport)
    dsimp only
    generalize w.portAttach pGpio.pConfig.nDevID pGpio.pConfig.nID hw port = attached at *
    obtain ⟨ret, w'⟩ := attached
    dsimp only at *
    split
    next hok =>
      obtain ⟨hgpios, hcount, howner⟩ :=
        setDIR_spec w' pGpio.pConfig.nDevID pGpio.pConfig.nDIR hw port
      generalize w'.setDIR pGpio.pConfig.nDevID pGpio.pConfig.nDIR hw port = w'' at *
      have hnow (d : UInt32) (gpios : List Gpio) :
          ({ w'' with gpios } : World).owner d = w'.owner d := howner d
      have hset {j : Nat} {pGpio' : Gpio} (hj : (w''.gpios.set k { pGpio with
          nParent, pPort := some pGpio.pConfig.nDevID, last := some .attach })[j]? = some pGpio') :
          (pGpio'.pConfig = pGpio.pConfig ∧ pGpio'.last = some .attach) ∨
            (w.gpios[j]? = some pGpio' ∧ j ≠ k) := by
        rw [hgpios, hat.gpios, List.getElem?_set] at hj
        split at hj
        · split at hj
          · cases hj
            exact .inl ⟨rfl, rfl⟩
          · cases hj
        next hne => exact .inr ⟨hj, Ne.symm hne⟩
      refine ⟨fun j pGpio' hj => ?_, fun j pGpio' hj => ?_, ?_⟩
      · rw [Owns, hnow]
        rcases hset hj with ⟨hconfig, hlast⟩ | ⟨hold, hne⟩
        · rw [hconfig]
          exact iff_of_true (hat.attached hok) hlast
        · exact howns hold (.inl hne)
      · rcases hset hj with ⟨-, hlast⟩ | ⟨hold, -⟩
        · rw [hlast]
          decide
        · exact hi.never j pGpio' hold
      · rw [World.count, hcount, hat.nGPIOs]
        dsimp only
        rw [List.length_set, hgpios, hat.gpios]
        exact hi.count
    next herror =>
      refine ⟨fun j pGpio' hj => ?_, fun j pGpio' hj => ?_, ?_⟩
      · rw [hat.gpios] at hj
        exact howns hj (.inr herror)
      · rw [hat.gpios] at hj
        exact hi.never j pGpio' hj
      · rw [World.count, hat.nGPIOs, hat.gpios]
        exact hi.count

theorem Inv.step (hi : w.Inv) {a : Action} (ha : w.Allowed a) (h : step w a = some w') : w'.Inv := by
  cases a with
  | create pConfig alloc =>
    rw [Gpios.step] at h
    split at h
    next hroom =>
      cases h
      exact hi.create ha hroom
    next => cases h
  | attach k nParent hw =>
    obtain ⟨pGpio, hk, rfl⟩ := Option.map_eq_some_iff.mp h
    exact hi.attach ha hk
  | detach k hw =>
    obtain ⟨pGpio, hk, rfl⟩ := Option.map_eq_some_iff.mp h
    rw [World.detach, ha pGpio hk]
    exact hi

theorem owners_of_allowed (hs : w.Start) (h : ∀ u a, Takes step w acts u a → u.Allowed a) :
    ∀ u, Visits step w acts u → u.Owned := by
  intro u hu
  have hi : u.Inv := inv_of_takes hs.inv (fun u a v hu ha hv => hu.step ha hv) h hu
  exact hi.owned

/-- A native port that nobody owns, and no expander. -/
def board : World where
  gpios := []
  nGPIOs := 0
  lwgpios := fun nID => if nID = devTypeLWGPIO then some 0 else none
  spis := fun _ => none
  pins := fun _ => none
  banks := fun _ => none

def works : Hardware :=
  ⟨fun _ => true, true, ⟨true, fun _ => 0, true, true, true, true⟩, true, true, true⟩

def attaching : List Action :=
  [.create ⟨0x00010200, devTypeLWGPIO, .output⟩ true, .attach 0 0xFFFFFF00 works]

theorem attaching_owned : (∀ u, Visits step board attaching u → u.Owned) ∧
    ∃ u, exec step attaching board = some u ∧ u.owner devTypeLWGPIO = some 0x00010200 := by
  refine ⟨owners_of_allowed ⟨rfl, rfl⟩ (takes_of_along ⟨fun _ => by decide, ?_⟩), ?_⟩
  · rintro u ⟨⟩
    refine ⟨?_, fun _ _ => trivial⟩
    rintro pGpio ⟨⟩ j pGpio' hj
    cases j with
    | zero =>
      cases hj
      refine ⟨fun hne => absurd rfl hne, fun hmem => ?_⟩
      exact absurd hmem (by decide)
    | succ j => cases hj
  · exact ⟨_, rfl, by decide⟩

def detaching : List Action := attaching ++ [.detach 0 works]

/-- The port that was detached is owned as before. -/
theorem detaching_not_owned : ¬ ∀ (w : World) (acts : List Action), w.Start →
    ∀ u, Visits step w acts u → u.Owned := by
  intro h
  have howned := h board detaching ⟨rfl, rfl⟩ _ ⟨detaching, List.prefix_rfl, rfl⟩
  have howns := (howned.owns 0 _ rfl).mp (by decide)
  exact absurd howns (by decide)

/-- A detachment that finds its port miscounts the GPIOs. -/
theorem not_owned_of_detach (h : w.Owned) {k : Nat} {pGpio : Gpio} {hw : Hardware}
    (hk : w.gpios[k]? = some pGpio) (hok : (w.detach k pGpio hw).1 = some retOk) :
    ¬ (w.detach k pGpio hw).2.Owned := by
  intro h'
  have hcount := h'.count
  rw [World.detach] at hok hcount
  cases hport : w.port pGpio.pConfig.nDevID with
  | none =>
    rw [hport] at hok
    exact some_retError_ne hok
  | some port =>
    rw [hport] at hok
    rw [hport, World.count] at hcount
    have hat := attaches_port pGpio.pConfig.nID hw hport
    dsimp only at hok hcount
    generalize w.portAttach pGpio.pConfig.nDevID pGpio.pConfig.nID hw port = attached at *
    obtain ⟨_ | ret, w'⟩ := attached
    · cases hok
    have hlt : k < w.gpios.length := (List.getElem?_eq_some_iff.mp hk).1
    have hold := h.count
    rw [World.count] at hold
    dsimp only at hcount
    rw [List.length_set, hat.nGPIOs, hat.gpios, ← hold, UInt32.toNat_sub] at hcount
    simp only [UInt32.toNat_one] at hcount
    omega

end World

end Results

end EdgeNode.Drv.Gpios
