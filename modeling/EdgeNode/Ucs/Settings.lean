import EdgeNode.Lib.Runs
import EdgeNode.Lib.SaveRestore
import EdgeNode.Ucs.Operations

/-! The line settings of a serial port while the updates of several devices take turns on it. -/

namespace EdgeNode.Ucs

open Runs SaveRestore

deriving instance DecidableEq for UartConfig

/-- The calls of an update on the port, as far as they have to do with its settings. -/
inductive UpdateCall where
  | getUART
  | setOwn
  | exchange
  | setSaved
  deriving DecidableEq

/-- The updates that read the settings first. -/
inductive Update where
  /-- `FTE_FUTURETEK_update`, `FTE_FUTURETEK_MS10_update` and `FTE_FUTURETEK_KM21B20_update`, and
  alike `FTE_ELT_AQM100M_update` and, with a receive for its exchange, `FTE_ELT_AQM100_update`. -/
  | futuretek
  /-- `FTE_FUTURETEK_JCG06_update`, which may reset the rainfall at its end. -/
  | jcg06 (resetRainfall : Bool)
  | soha
  /-- A turn of the first loop in `FTE_DOTECH_task`. -/
  | dotechControl
  /-- A turn of its second loop, with `FTE_DOTECH_update` in it. -/
  | dotech (pUCS : Bool)

namespace Update

def saving (calls : List UpdateCall) : List UpdateCall := [.getUART, .setOwn] ++ calls ++ [.setSaved]

/-- The channel that `FTE_DOTECH_update` looks for is there or not. -/
def dotechUpdate (pUCS : Bool) : List UpdateCall := if pUCS then [.setOwn, .exchange] else []

def calls : Update → List UpdateCall
  | futuretek | soha => saving [.exchange]
  | jcg06 resetRainfall => saving [.exchange] ++ if resetRainfall then saving [.exchange] else []
  | dotechControl => [.getUART, .setOwn, .exchange]
  | dotech pUCS => saving (dotechUpdate pUCS)

end Update

/-- The updates in progress, by numbers: with the settings of the device, those in the local
variable, and the calls to come. Those in `opened` have set their settings, the last of them first,
and are to restore them or to end. -/
structure Line where
  pUCS : FteUcs
  own : Nat → UartConfig
  saved : Nat → UartConfig
  calls : Nat → List UpdateCall
  opened : List Nat

inductive LineAction where
  | begin (i : Nat) (own : UartConfig) (update : Update)
  /-- The next call of an update; the driver answers the requests of `FTE_UCS_setUART`. -/
  | turn (i : Nat) (ioctl : Fin 4 → UInt32 → Bool)

namespace Line

/-- The update has made a call, and with its last one it ends. -/
def next (s : Line) (i : Nat) (calls : List UpdateCall) : Line :=
  { s with
    calls := Function.update s.calls i calls
    opened := if calls = [] then s.opened.erase i else s.opened }

/-- An exchange uses the buffers of the port, and leaves its settings. -/
def call (s : Line) (i : Nat) (ioctl : Fin 4 → UInt32 → Bool) : UpdateCall → Line
  | .getUART => { s with saved := Function.update s.saved i (getUART s.pUCS).2 }
  | .setOwn => { s with
      pUCS := (setUART ioctl s.pUCS (s.own i)).2
      opened := if i ∈ s.opened then s.opened else i :: s.opened }
  | .exchange => s
  | .setSaved => { s with
      pUCS := (setUART ioctl s.pUCS (s.saved i)).2
      opened := s.opened.erase i }

def step (s : Line) : LineAction → Option Line
  | .begin i own update =>
    match s.calls i with
    | [] => some { s with own := Function.update s.own i own, calls := Function.update s.calls i update.calls }
    | _ :: _ => none
  | .turn i ioctl =>
    match s.calls i with
    | [] => none
    | c :: cs => some ((s.call i ioctl c).next i cs)

def start (pUCS : FteUcs) : Line := ⟨pUCS, fun _ => pUCS.uart, fun _ => pUCS.uart, fun _ => [], []⟩

/-- An exchange finds the settings of the device that makes it. -/
def OwnSettings (s : Line) : LineAction → Prop
  | .begin _ _ _ => True
  | .turn i _ => (s.calls i).head? = some .exchange → s.pUCS.uart = s.own i

instance (ioctl : Fin 4 → UInt32 → Bool) (u x : UartConfig) : Decidable (Accepts ioctl u x) :=
  inferInstanceAs (Decidable (_ ∧ _ ∧ _ ∧ _))

/-- When a call of an update may come. An update sets its settings while the port has those that it
read. It goes on only while the updates that set theirs behind it are restored or have the same, and
restores what it read only as the last of them, or when that is what it set; so is it with an update
that ends without restoring. -/
def CallAllowed (s : Line) (i : Nat) (ioctl : Fin 4 → UInt32 → Bool) : List UpdateCall → Prop
  | [] => True
  | .getUART :: _ => True
  | .setOwn :: _ => Accepts ioctl s.pUCS.uart (s.own i) ∧
      if i ∈ s.opened then LaterSame s.own s.opened i else s.pUCS.uart = s.saved i
  | .exchange :: cs => LaterSame s.own s.opened i ∧ (cs = [] → s.saved i = s.own i)
  | .setSaved :: _ => Accepts ioctl s.pUCS.uart (s.saved i) ∧ LaterSame s.own s.opened i ∧
      (s.opened.head? = some i ∨ s.saved i = s.own i)

instance (s : Line) (i : Nat) (ioctl : Fin 4 → UInt32 → Bool) : DecidablePred (s.CallAllowed i ioctl)
  | [] => .isTrue trivial
  | .getUART :: _ => .isTrue trivial
  | .setOwn :: _ => inferInstanceAs (Decidable (Accepts ioctl s.pUCS.uart (s.own i) ∧
      if i ∈ s.opened then LaterSame s.own s.opened i else s.pUCS.uart = s.saved i))
  | .exchange :: cs => inferInstanceAs (Decidable (LaterSame s.own s.opened i ∧
      (cs = [] → s.saved i = s.own i)))
  | .setSaved :: _ => inferInstanceAs (Decidable (_ ∧ _ ∧ (_ ∨ _)))

def Allowed (s : Line) : LineAction → Prop
  | .begin _ _ _ => True
  | .turn i ioctl => s.CallAllowed i ioctl (s.calls i)

instance (s : Line) : DecidablePred s.Allowed
  | .begin _ _ _ => .isTrue trivial
  | .turn i ioctl => inferInstanceAs (Decidable (s.CallAllowed i ioctl (s.calls i)))

/-- Where an update stands between its calls. -/
inductive Phase where
  | outside
  | read
  | inside

/-- The calls to come fit the calls that were made. -/
def Fits : Phase → List UpdateCall → Prop
  | .outside, [] => True
  | .outside, .getUART :: cs => Fits .read cs
  | .read, .setOwn :: cs => cs ≠ [] ∧ Fits .inside cs
  | .inside, [] => True
  | .inside, .setOwn :: cs => cs ≠ [] ∧ Fits .inside cs
  | .inside, .exchange :: cs => Fits .inside cs
  | .inside, .setSaved :: cs => Fits .outside cs
  | _, _ => False

theorem fits_calls (update : Update) : Fits .outside update.calls := by
  cases update with
  | futuretek => simp [Update.calls, Update.saving, Fits]
  | jcg06 resetRainfall => cases resetRainfall <;> simp [Update.calls, Update.saving, Fits]
  | soha => simp [Update.calls, Update.saving, Fits]
  | dotechControl => simp [Update.calls, Fits]
  | dotech pUCS => cases pUCS <;> simp [Update.calls, Update.saving, Update.dotechUpdate, Fits]

structure Inv (base : UartConfig) (s : Line) : Prop where
  nodup : s.opened.Nodup
  chain : Chain s.own s.saved base s.opened s.pUCS.uart
  inside : ∀ i ∈ s.opened, s.calls i ≠ [] ∧ Fits .inside (s.calls i)
  outside : ∀ i ∉ s.opened, Fits .outside (s.calls i) ∨ Fits .read (s.calls i)

section Settings

variable {field : UartConfig → UInt32} {write : UartConfig → UInt32 → UartConfig}
  {ioctl : UInt32 → Bool} {pUCS : FteUcs} {x : UartConfig} {nValue : UInt32}

theorem setLine_eq (hw : write pUCS.uart (field pUCS.uart) = pUCS.uart)
    (h : field pUCS.uart = nValue ∨ ioctl nValue = true) :
    (setLine field write ioctl pUCS nValue).2 = { pUCS with uart := write pUCS.uart nValue } := by
  rw [setLine]
  by_cases hsame : field pUCS.uart = nValue
  · rw [if_neg (not_not.mpr hsame), ← hsame, hw]
  · rw [if_pos hsame, if_pos (h.resolve_left hsame)]

theorem setUART_eq {ioctl : Fin 4 → UInt32 → Bool} (h : Accepts ioctl pUCS.uart x) :
    (setUART ioctl pUCS x).2 = { pUCS with uart := x } := by
  obtain ⟨hbaud, hdata, hparity, hstop⟩ := h
  let p₁ : FteUcs := { pUCS with uart := { pUCS.uart with nBaudrate := x.nBaudrate } }
  let p₂ : FteUcs := { p₁ with uart := { p₁.uart with nDataBits := x.nDataBits } }
  let p₃ : FteUcs := { p₂ with uart := { p₂.uart with nParity := x.nParity } }
  let p₄ : FteUcs := { p₃ with uart := { p₃.uart with nStopBits := x.nStopBits } }
  have h₁ : (setBaudrate (ioctl 0) pUCS x.nBaudrate).2 = p₁ := setLine_eq rfl hbaud
  have h₂ : (setDatabits (ioctl 1) p₁ x.nDataBits).2 = p₂ := setLine_eq rfl hdata
  have h₃ : (setParity (ioctl 2) p₂ x.nParity).2 = p₃ := setLine_eq rfl hparity
  have h₄ : (setStopbits (ioctl 3) p₃ x.nStopBits).2 = p₄ := setLine_eq rfl hstop
  rw [setUART]
  dsimp only
  rw [h₁, h₂, h₃, h₄]
  rfl

end Settings

variable {base : UartConfig} {s t : Line} {i : Nat} {a : LineAction}

theorem inv_start (pUCS : FteUcs) : (start pUCS).Inv pUCS.uart :=
  ⟨List.nodup_nil, rfl, nofun, fun _ _ => .inl trivial⟩

theorem Inv.ends (h : s.Inv base) (hend : ∀ i, s.calls i = []) : s.pUCS.uart = base := by
  have hnil : s.opened = [] :=
    List.eq_nil_iff_forall_not_mem.mpr fun i hi => (h.inside i hi).1 (hend i)
  have hchain := h.chain
  rw [hnil] at hchain
  exact hchain

/-- What a call leaves of the other updates, and what it needs to leave of its own. -/
theorem Inv.next {s' : Line} {cs : List UpdateCall} (h : s.Inv base) (hcalls : s'.calls = s.calls)
    (hnodup : s'.opened.Nodup)
    (hchain : Chain s'.own s'.saved base s'.opened s'.pUCS.uart)
    (hothers : ∀ j, j ≠ i → (j ∈ s'.opened ↔ j ∈ s.opened))
    (hin : i ∈ s'.opened → Fits .inside cs ∧ (cs = [] → s'.saved i = s'.own i))
    (hout : i ∉ s'.opened → Fits .outside cs ∨ Fits .read cs) : (s'.next i cs).Inv base := by
  have hsame (j : Nat) (hj : j ≠ i) : Function.update s'.calls i cs j = s.calls j := by
    rw [Function.update_of_ne hj, hcalls]
  by_cases hend : cs = []
  · rw [Line.next, if_pos hend]
    refine ⟨hnodup.erase i, ?_, fun j hj => ?_, fun j hj => ?_⟩
    · by_cases hi : i ∈ s'.opened
      · exact hchain.erase ((hin hi).2 hend)
      · exact (List.erase_of_not_mem hi).symm ▸ hchain
    · obtain ⟨hne, hj⟩ := hnodup.mem_erase_iff.mp hj
      dsimp only
      rw [hsame j hne]
      exact h.inside j ((hothers j hne).mp hj)
    · dsimp only at hj ⊢
      by_cases hne : j = i
      · rw [hne, Function.update_self, hend]
        exact .inl trivial
      · rw [hsame j hne]
        exact h.outside j fun hmem =>
          hj (hnodup.mem_erase_iff.mpr ⟨hne, (hothers j hne).mpr hmem⟩)
  · rw [Line.next, if_neg hend]
    refine ⟨hnodup, hchain, fun j hj => ?_, fun j hj => ?_⟩
    · dsimp only at hj ⊢
      by_cases hne : j = i
      · subst hne
        rw [Function.update_self]
        exact ⟨hend, (hin hj).1⟩
      · rw [hsame j hne]
        exact h.inside j ((hothers j hne).mp hj)
    · dsimp only at hj ⊢
      by_cases hne : j = i
      · subst hne
        rw [Function.update_self]
        exact hout hj
      · rw [hsame j hne]
        exact h.outside j fun hmem => hj ((hothers j hne).mpr hmem)

theorem inv_turn {ioctl : Fin 4 → UInt32 → Bool} {c : UpdateCall} {cs : List UpdateCall}
    (h : s.Inv base) (hc : s.calls i = c :: cs) (ha : s.CallAllowed i ioctl (c :: cs)) :
    ((s.call i ioctl c).next i cs).Inv base := by
  have hinside (hi : i ∈ s.opened) : Fits .inside (c :: cs) := hc ▸ (h.inside i hi).2
  have houtside (hi : i ∉ s.opened) : Fits .outside (c :: cs) ∨ Fits .read (c :: cs) :=
    hc ▸ h.outside i hi
  cases c with
  | getUART =>
    have hi : i ∉ s.opened := fun hi => (hinside hi).elim
    have hfits : Fits .read cs := (houtside hi).resolve_right nofun
    have hchain : Chain s.own (Function.update s.saved i (getUART s.pUCS).2) base s.opened s.pUCS.uart := by
      refine h.chain.congr (fun j _ => rfl) fun j hj => ?_
      exact Function.update_of_ne (ne_of_mem_of_not_mem hj hi) _ _
    exact Inv.next h rfl h.nodup hchain (fun j _ => Iff.rfl) (fun hmem => absurd hmem hi)
      fun _ => .inr hfits
  | setOwn =>
    obtain ⟨haccepts, hplace⟩ := ha
    rw [call, setUART_eq haccepts]
    by_cases hi : i ∈ s.opened
    · rw [if_pos hi] at hplace
      obtain ⟨hne, hfits⟩ := hinside hi
      have hown := h.chain.eq_own hi hplace
      rw [if_pos hi, ← hown]
      exact Inv.next h rfl h.nodup h.chain (fun j _ => Iff.rfl)
        (fun _ => ⟨hfits, fun hend => absurd hend hne⟩) fun hmem => absurd hi hmem
    · rw [if_neg hi] at hplace
      obtain ⟨hne, hfits⟩ := (houtside hi).resolve_left nofun
      have hchain := h.chain
      rw [hplace] at hchain
      rw [if_neg hi]
      refine Inv.next h rfl (List.nodup_cons.mpr ⟨hi, h.nodup⟩) ⟨rfl, hchain⟩ (fun j hj => ?_)
        (fun _ => ⟨hfits, fun hend => absurd hend hne⟩) fun hmem => absurd List.mem_cons_self hmem
      simp [hj]
  | exchange =>
    have hi : i ∈ s.opened := by
      by_contra hi
      exact (houtside hi).elim id id
    exact Inv.next h rfl h.nodup h.chain (fun j _ => Iff.rfl) (fun _ => ⟨hinside hi, ha.2⟩)
      fun hmem => absurd hi hmem
  | setSaved =>
    obtain ⟨haccepts, hlater, hplace⟩ := ha
    have hi : i ∈ s.opened := by
      by_contra hi
      exact (houtside hi).elim id id
    have hchain : Chain s.own s.saved base (s.opened.erase i) (s.saved i) := by
      rcases hplace with hhead | hsame
      · obtain ⟨is, his⟩ := List.head?_eq_some_iff.mp hhead
        have hc := h.chain
        rw [his] at hc ⊢
        rw [List.erase_cons_head]
        exact hc.2
      · rw [hsame, ← h.chain.eq_own hi hlater]
        exact h.chain.erase hsame
    rw [call, setUART_eq haccepts]
    exact Inv.next h rfl (h.nodup.erase i) hchain (fun j hj => List.mem_erase_of_ne hj)
      (fun hmem => absurd hmem h.nodup.not_mem_erase) fun _ => .inl (hinside hi)

theorem inv_step (h : s.Inv base) (ha : s.Allowed a) (ht : s.step a = some t) : t.Inv base := by
  cases a with
  | begin i own update =>
    rw [step] at ht
    split at ht
    next hnil =>
      cases ht
      have hi : i ∉ s.opened := fun hi => (h.inside i hi).1 hnil
      refine ⟨h.nodup, ?_, fun j hj => ?_, fun j hj => ?_⟩
      · refine h.chain.congr (fun j hj => ?_) fun j _ => rfl
        exact Function.update_of_ne (ne_of_mem_of_not_mem hj hi) _ _
      · dsimp only
        rw [Function.update_of_ne (ne_of_mem_of_not_mem hj hi)]
        exact h.inside j hj
      · dsimp only
        by_cases hne : j = i
        · rw [hne, Function.update_self]
          exact .inl (fits_calls update)
        · rw [Function.update_of_ne hne]
          exact h.outside j hj
    next => cases ht
  | turn i ioctl =>
    rw [step] at ht
    rw [Allowed] at ha
    cases hc : s.calls i with
    | nil =>
      rw [hc] at ht
      cases ht
    | cons c cs =>
      rw [hc] at ht ha
      cases ht
      exact inv_turn h hc ha

theorem ownSettings_of_allowed (h : s.Inv base) (ha : s.Allowed a) : s.OwnSettings a := by
  cases a with
  | begin i own update => trivial
  | turn i ioctl =>
    intro hexchange
    obtain ⟨cs, hc⟩ := List.head?_eq_some_iff.mp hexchange
    rw [Allowed, hc] at ha
    have hi : i ∈ s.opened := by
      by_contra hi
      have hfits := h.outside i hi
      rw [hc] at hfits
      exact hfits.elim id id
    exact h.chain.eq_own hi ha.1

/-- In a run whose calls are all allowed each exchange is made with the settings of its device, and
whenever no update is in progress the port has those that it had at the start. -/
theorem settings_of_allowed {pUCS : FteUcs} {acts : List LineAction}
    (ha : ∀ u a, Takes step (start pUCS) acts u a → u.Allowed a) :
    (∀ u a, Takes step (start pUCS) acts u a → u.OwnSettings a) ∧
      ∀ u, Visits step (start pUCS) acts u → (∀ i, u.calls i = []) → u.pUCS.uart = pUCS.uart := by
  have hinv (u : Line) (hv : Visits step (start pUCS) acts u) : u.Inv pUCS.uart :=
    inv_of_takes (inv_start pUCS) (fun _ _ _ => inv_step) ha hv
  refine ⟨?_, fun u hv hend => (hinv u hv).ends hend⟩
  rintro u a ⟨pre, hp, hu⟩
  exact ownSettings_of_allowed (hinv u ⟨pre, (List.prefix_append pre [a]).trans hp, hu⟩)
    (ha u a ⟨pre, hp, hu⟩)

/-- A port at 9600 baud, and devices that want another rate. -/
def uartAt (nBaudrate : UInt32) : UartConfig := ⟨true, nBaudrate, 8, 0, 1⟩

def portAt9600 : FteUcs :=
  ⟨⟨3, 0, 0, uartAt 9600, product⟩, ⟨none, none⟩, uartAt 9600, none, none, true, none, none,
    ⟨fun _ => 0, 0, 0, 0⟩, ⟨fun _ => 0, 0, 0, 0⟩⟩

def turn (i : Nat) : LineAction := .turn i fun _ _ => true

/-- The update of the second device falls between two calls of the first. -/
def nested : List LineAction :=
  [.begin 0 (uartAt 4800) (.dotech true), .begin 1 (uartAt 19200) .futuretek, turn 0, turn 0, turn 1,
    turn 1, turn 1, turn 1, turn 0, turn 0, turn 0]

theorem nested_settings :
    (∀ u a, Takes step (start portAt9600) nested u a → u.OwnSettings a) ∧
      ∀ u, Visits step (start portAt9600) nested u → (∀ i, u.calls i = []) →
        u.pUCS.uart = portAt9600.uart :=
  settings_of_allowed (takes_of_along (by decide))

/-- Two devices, each of which has read and set before the first one sends. -/
def overlapping : List LineAction :=
  [.begin 0 (uartAt 4800) .soha, .begin 1 (uartAt 19200) .futuretek, turn 0, turn 0, turn 1, turn 1, turn 0]

/-- One device alone that reads the control registers. -/
def controlRead : List LineAction := [.begin 0 (uartAt 4800) .dotechControl, turn 0, turn 0, turn 0]

theorem overlapping_not_own :
    (∃ u a, Takes step (start portAt9600) overlapping u a ∧ ¬ u.OwnSettings a) ∧
      ∃ u, Visits step (start portAt9600) controlRead u ∧ (∀ i, u.calls i = []) ∧
        u.pUCS.uart ≠ portAt9600.uart := by
  constructor
  · refine ⟨_, turn 0, ⟨overlapping.dropLast, List.prefix_rfl, rfl⟩, fun h => ?_⟩
    exact absurd (h rfl) (by decide)
  · refine ⟨_, ⟨controlRead, List.prefix_rfl, rfl⟩, fun i => ?_, by decide⟩
    simp [Line.next, call, start]

end Line

end EdgeNode.Ucs
