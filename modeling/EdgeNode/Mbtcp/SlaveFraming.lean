import EdgeNode.Mbtcp.Slave
import Mathlib.Data.List.Forall2

/-! How the byte stream of a Modbus/TCP client reaches `FTE_MODBUS_SLAVE_process`. -/

namespace EdgeNode.Mbtcp

open BufferAccess Segments Modbus

/-- A well-formed request: protocol and unit 0, and a length field from 6 up to the largest PDU. -/
structure Adu where
  tid : UInt16
  pdu : List UInt8
  five_le : 5 ≤ pdu.length
  le_max : pdu.length ≤ modbusPduLen

def Adu.bytes (a : Adu) : List UInt8 :=
  htons a.tid ++ [0, 0] ++ htons (UInt16.ofNat (a.pdu.length + 1)) ++ [0] ++ a.pdu

theorem Adu.length_bytes (a : Adu) : a.bytes.length = a.pdu.length + 7 := by
  simp only [Adu.bytes, List.length_append, htons_length, List.length_cons, List.length_nil]
  omega

theorem checkFrame_eq_ok_iff {pBuff pdu : List UInt8} {nRcvdLen ulBuffSize : Nat} :
    checkFrame pBuff nRcvdLen ulBuffSize = .ok pdu ↔
      (12 ≤ nRcvdLen ∧ nRcvdLen ≤ modbusPduLen + 12) ∧
        (ntohs (byteAt pBuff 4) (byteAt pBuff 5)).toNat + 6 = nRcvdLen ∧
        ntohs (byteAt pBuff 2) (byteAt pBuff 3) = protocolId ∧ byteAt pBuff 6 = 0 ∧
        nRcvdLen ≤ ulBuffSize + 6 ∧ (pBuff.drop 7).take (nRcvdLen - 7) = pdu := by
  simp only [checkFrame]
  by_cases h12 : nRcvdLen < 12 ∨ modbusPduLen + 12 < nRcvdLen
  · rw [if_pos h12]
    exact iff_of_false (by simp) (by omega)
  rw [if_neg h12]
  by_cases hlen : (ntohs (byteAt pBuff 4) (byteAt pBuff 5)).toNat + 6 ≠ nRcvdLen
  · rw [if_pos hlen]
    exact iff_of_false (by simp) (fun h => hlen h.2.1)
  rw [if_neg hlen]
  by_cases hpid : ntohs (byteAt pBuff 2) (byteAt pBuff 3) ≠ protocolId
  · rw [if_pos hpid]
    exact iff_of_false (by simp) (fun h => hpid h.2.2.1)
  rw [if_neg hpid]
  by_cases huid : byteAt pBuff 6 ≠ 0
  · rw [if_pos huid]
    exact iff_of_false (by simp) (fun h => huid h.2.2.2.1)
  rw [if_neg huid]
  rw [not_not] at hlen hpid huid
  by_cases hsize : ulBuffSize < (ntohs (byteAt pBuff 4) (byteAt pBuff 5)).toNat
  · rw [if_pos hsize]
    exact iff_of_false (by simp) (by omega)
  rw [if_neg hsize, show (ntohs (byteAt pBuff 4) (byteAt pBuff 5)).toNat - 1 = nRcvdLen - 7 by omega,
    Except.ok.injEq]
  constructor
  · intro h
    exact ⟨by omega, hlen, hpid, huid, by omega, h⟩
  · exact fun h => h.2.2.2.2.2

/-- The transaction identifier and the PDU of a receive that passes the checks. -/
def accepted (c : List UInt8) : Option (List UInt8 × List UInt8) :=
  match checkFrame (fillBuff c) c.length modbusPduLen with
  | .error _ => none
  | .ok pdu => some (c.take 2, pdu)

theorem length_of_accepted {c tid pdu : List UInt8} (h : accepted c = some (tid, pdu)) :
    c.length = pdu.length + 7 ∧ pdu.length < modbusPduLen := by
  unfold accepted at h
  split at h
  · simp at h
  · rename_i bs hb
    simp only [Option.some.injEq, Prod.mk.injEq] at h
    obtain ⟨hsize, -, -, -, hmax, hbs⟩ := checkFrame_eq_ok_iff.mp hb
    rw [← h.2, ← hbs]
    simp only [List.length_take, List.length_drop, fillBuff, List.length_append,
      List.length_replicate, modbusPduLen, sessionBuffLen] at *
    omega

theorem accepted_bytes (a : Adu) (h : a.pdu.length < modbusPduLen) :
    accepted a.bytes = some (htons a.tid, a.pdu) := by
  have h5 := a.five_le
  have hok : checkFrame (fillBuff a.bytes) a.bytes.length modbusPduLen = .ok a.pdu := by
    refine checkFrame_eq_ok_iff.mpr ⟨?_, ?_, ?_, rfl, ?_, ?_⟩
    · rw [a.length_bytes]
      omega
    · change (ntohs (UInt8.ofNat _) (UInt8.ofNat _)).toNat + 6 = _
      rw [ntohs_htons, a.length_bytes, UInt16.toNat_ofNat']
      unfold modbusPduLen at h
      omega
    · change ntohs 0 0 = protocolId
      rfl
    · rw [a.length_bytes]
      omega
    · rw [a.length_bytes, Nat.add_sub_cancel]
      exact List.take_left
  simp only [accepted, hok]
  rfl

/-- The exchange carries the PDU, and a reply sent for it starts with the transaction identifier. -/
def Answers (r : List UInt8 × List UInt8) (x : Exchange) : Prop :=
  x.pdu = r.2 ∧ ∀ frame ∈ x.reply, frame.take 2 = r.1

section Task

variable {ω υ η : Type} (fw : Firmware ω υ η)

theorem bytesAt_congr {mem mem' : Nat → UInt8} (i k : Nat)
    (h : ∀ j, i ≤ j → j < i + k → mem j = mem' j) : bytesAt mem i k = bytesAt mem' i k := by
  induction k generalizing i with
  | zero => rfl
  | succ k ih =>
    rw [bytesAt, bytesAt, h i (by omega) (by omega),
      ih (i + 1) fun j hj hk => h j (by omega) (by omega)]

theorem bytesAt_getD (bs : List UInt8) (l : List UInt8) :
    bytesAt (fun j => (l ++ bs).getD j 0) l.length bs.length = bs := by
  induction bs generalizing l with
  | nil => rfl
  | cons b bs ih =>
    have h := ih (l ++ [b])
    simp only [List.append_assoc, List.singleton_append, List.length_append,
      List.length_singleton] at h
    rw [List.length_cons, bytesAt, h]
    simp

theorem bytesAt_copyIn (bs : List UInt8) (mem : Nat → UInt8) :
    bytesAt (copyIn bs mem) 0 bs.length = bs := by
  refine (bytesAt_congr 0 bs.length fun j _ hj => ?_).trans (bytesAt_getD bs [])
  simp only [copyIn, List.nil_append]
  rw [if_pos (by omega)]

theorem sendFrame_tid {k : Nat} {s s' : Session ω η} {frame c : List UInt8}
    (h : sendFrame k s = (some frame, s')) (hb : s.pBuff = fillBuff c) (hc : 2 ≤ c.length) :
    frame.take 2 = c.take 2 := by
  unfold sendFrame at h
  split at h
  · simp at h
  · simp only [Prod.mk.injEq, Option.some.injEq] at h
    rw [← h.1, hb, List.take_take, Nat.min_eq_left (by omega), fillBuff]
    match c, hc with
    | a :: b :: c, _ => rfl

theorem sendFrame_log {k : Nat} {s s' : Session ω η} {f : Option (List UInt8)}
    (h : sendFrame k s = (f, s')) :
    s'.exchanges = s.exchanges ∧ s'.connected = s.connected := by
  unfold sendFrame at h
  split at h <;> cases h <;> exact ⟨rfl, rfl⟩

theorem answerFrame_exchanges {s : Session ω η} {c pdu : List UInt8}
    (hb : s.pBuff = fillBuff c) (hc : 2 ≤ c.length)
    (hp : bytesAt s.pReqPDU 0 s.ulReqPDULen = pdu) :
    ∃ x, (answerFrame fw (fun _ => true) s).exchanges = s.exchanges ++ [x] ∧
      (answerFrame fw (fun _ => true) s).connected = s.connected ∧ Answers (c.take 2, pdu) x := by
  simp only [answerFrame, hp]
  split
  · split <;> rename_i hs <;> obtain ⟨he, hcon⟩ := sendFrame_log hs
    · exact ⟨⟨pdu, none⟩, by rw [he], hcon, rfl, by simp⟩
    · rename_i frame s'
      refine ⟨⟨pdu, some frame⟩, by simp [he], by simpa using hcon, rfl, ?_⟩
      rintro frame ⟨⟩
      exact sendFrame_tid hs hb hc
  · exact ⟨_, rfl, rfl, rfl, by simp⟩

theorem sessionRecv_exchanges (s : Session ω η) (r : Received UInt8 sessionBuffLen)
    (hs : s.connected = true) :
    ∃ xs, (sessionRecv fw (fun _ => true) s (some r)).exchanges = s.exchanges ++ xs ∧
      (sessionRecv fw (fun _ => true) s (some r)).connected = true ∧
      List.Forall₂ Answers (accepted r.1).toList xs := by
  obtain ⟨c, hc⟩ := r
  by_cases hnil : c = []
  · subst hnil
    exact ⟨[], by simp [sessionRecv], by simpa [sessionRecv] using hs, .nil⟩
  cases hf : checkFrame (fillBuff c) c.length modbusPduLen with
  | error xRet =>
    have ha : accepted c = none := by simp [accepted, hf]
    refine ⟨[], ?_, ?_, by simp [ha]⟩ <;> simp [sessionRecv, hs, hnil, hf]
  | ok pdu =>
    have ha : accepted c = some (c.take 2, pdu) := by simp [accepted, hf]
    have h2 : 2 ≤ c.length := by
      have h := (length_of_accepted ha).1
      omega
    obtain ⟨x, hx, hcon, hans⟩ := answerFrame_exchanges fw
      (s := { s with
        pBuff := fillBuff c, device := { s.device with ulRxPkt := s.device.ulRxPkt + 1 }
        pReqPDU := copyIn pdu s.pReqPDU, ulReqPDULen := pdu.length })
      rfl h2 (bytesAt_copyIn pdu s.pReqPDU)
    refine ⟨[x], ?_, ?_, by simpa [ha] using hans⟩
    · simpa [sessionRecv, hs, hnil, hf] using hx
    · simpa [sessionRecv, hs, hnil, hf] using hcon

theorem sessionTask_exchanges (rs : List (Received UInt8 sessionBuffLen)) (s : Session ω η)
    (hs : s.connected = true) :
    ∃ xs, (sessionTask fw (fun _ => true) (rs.map some) s).exchanges = s.exchanges ++ xs ∧
      List.Forall₂ Answers (rs.filterMap fun r => accepted r.1) xs := by
  induction rs generalizing s with
  | nil => exact ⟨[], by simp [sessionTask], .nil⟩
  | cons r rs ih =>
    obtain ⟨xs, hx, hcon, hans⟩ := sessionRecv_exchanges fw s r hs
    obtain ⟨ys, hy, hans'⟩ := ih _ hcon
    refine ⟨xs ++ ys, ?_, ?_⟩
    · simpa [sessionTask, hx] using hy
    · cases ha : accepted r.1 with
      | none =>
        rw [ha] at hans
        cases hans
        simpa [List.filterMap_cons, ha] using hans'
      | some p =>
        rw [ha] at hans
        simpa [List.filterMap_cons, ha] using List.rel_append hans hans'

end Task

/-- A session just accepted, on whatever its buffers held before. -/
def newSession {ω η : Type} (pReqPDU pRespPDU : Nat → UInt8) (device : Device ω η) :
    Session ω η where
  pBuff := List.replicate sessionBuffLen 0
  pReqPDU := pReqPDU
  ulReqPDULen := 0
  pRespPDU := pRespPDU
  ulRespPDULen := 0
  device := device
  connected := true
  exchanges := []

/-- Each PDU is processed once, whole and in order, under its own transaction identifier. -/
def Delivers (adus : List Adu) (xs : List Exchange) : Prop :=
  List.Forall₂ (fun a x => Answers (htons a.tid, a.pdu) x) adus xs

/-- The nonempty receives carry one frame each, and no frame is of the largest size. -/
def OneFrameEach (adus : List Adu) (rs : List (Received UInt8 sessionBuffLen)) : Prop :=
  (rs.map Subtype.val).filter (· ≠ []) = adus.map Adu.bytes ∧
    ∀ a ∈ adus, a.pdu.length < modbusPduLen

theorem filterMap_accepted_nonempty (rs : List (Received UInt8 sessionBuffLen)) :
    rs.filterMap (fun r => accepted r.1) =
      ((rs.map Subtype.val).filter (· ≠ [])).filterMap accepted := by
  rw [List.filterMap_filter, List.filterMap_map]
  refine List.filterMap_congr fun r _ => ?_
  by_cases hr : r.1 = []
  · simp [hr, accepted, checkFrame]
  · simp [hr]

theorem filterMap_accepted_bytes {adus : List Adu}
    (h : ∀ a ∈ adus, a.pdu.length < modbusPduLen) :
    (adus.map Adu.bytes).filterMap accepted = adus.map fun a => (htons a.tid, a.pdu) := by
  induction adus with
  | nil => rfl
  | cons a adus ih =>
    rw [List.map_cons, List.filterMap_cons_some (accepted_bytes a (h a (by simp))), List.map_cons,
      ih fun b hb => h b (List.mem_cons_of_mem _ hb)]

theorem length_filterMap_accepted (cs : List (List UInt8)) :
    (cs.filter fun c => (accepted c).isSome).map (fun c => c.length) =
      (cs.filterMap accepted).map fun p => p.2.length + 7 := by
  induction cs with
  | nil => rfl
  | cons c cs ih =>
    cases h : accepted c with
    | none => simpa [List.filter_cons, List.filterMap_cons, h] using ih
    | some p => simpa [List.filter_cons, List.filterMap_cons, h, (length_of_accepted h).1] using ih

theorem Delivers.map_pdu {adus : List Adu} {xs : List Exchange} (h : Delivers adus xs) :
    xs.map Exchange.pdu = adus.map Adu.pdu := by
  induction h with
  | nil => rfl
  | cons hx _ ih => rw [List.map_cons, List.map_cons, ih, hx.1]

theorem forall₂_answers_map_pdu {ps : List (List UInt8 × List UInt8)} {xs : List Exchange}
    (h : List.Forall₂ Answers ps xs) : xs.map Exchange.pdu = ps.map Prod.snd := by
  induction h with
  | nil => rfl
  | cons hx _ ih => rw [List.map_cons, List.map_cons, ih, hx.1]

theorem sessionTask_delivers_iff {ω υ η : Type} (fw : Firmware ω υ η) (adus : List Adu)
    (rs : List (Received UInt8 sessionBuffLen)) (pReqPDU pRespPDU : Nat → UInt8)
    (device : Device ω η)
    (h : (rs.map Subtype.val).flatten = (adus.map Adu.bytes).flatten) :
    Delivers adus (sessionTask fw (fun _ => true) (rs.map some)
      (newSession pReqPDU pRespPDU device)).exchanges ↔ OneFrameEach adus rs := by
  obtain ⟨xs, hx, hans⟩ := sessionTask_exchanges fw rs (newSession pReqPDU pRespPDU device) rfl
  rw [hx]
  change Delivers adus xs ↔ _
  rw [filterMap_accepted_nonempty] at hans
  constructor
  · intro hd
    have hpdu : (((rs.map Subtype.val).filter (· ≠ [])).filterMap accepted).map Prod.snd =
        adus.map Adu.pdu := (forall₂_answers_map_pdu hans).symm.trans hd.map_pdu
    have hlen := length_filterMap_accepted ((rs.map Subtype.val).filter (· ≠ []))
    rw [show (fun p : List UInt8 × List UInt8 => p.2.length + 7) =
      (fun pdu => pdu.length + 7) ∘ Prod.snd from rfl, ← List.map_map, hpdu, List.map_map] at hlen
    obtain ⟨hall, heq⟩ := receives_eq id (fun c => (accepted c).isSome)
      (l := (rs.map Subtype.val).filter (· ≠ [])) (m := adus.map Adu.bytes)
      (fun c hc => by simpa using (List.mem_filter.mp hc).2)
      (by rw [List.map_id, List.flatten_filter_ne_nil, h])
      (by
        rw [List.map_map]
        refine hlen.trans (List.map_congr_left fun a _ => ?_)
        exact a.length_bytes.symm)
    rw [List.map_id] at heq
    refine ⟨heq, fun a ha => ?_⟩
    obtain ⟨p, hp⟩ := Option.isSome_iff_exists.mp
      (hall a.bytes (heq ▸ List.mem_map_of_mem (f := Adu.bytes) ha))
    have hl := length_of_accepted hp
    rw [a.length_bytes] at hl
    omega
  · rintro ⟨hcs, hmax⟩
    rw [hcs, filterMap_accepted_bytes hmax, List.forall₂_map_left_iff] at hans
    exact hans

/-- A read of one register under transaction 1, and of two inputs under transaction 2. -/
def readOneAdu : Adu := ⟨1, [3, 0, 0, 0, 1], by decide, by decide⟩

def readTwoAdu : Adu := ⟨2, [4, 0, 1, 0, 2], by decide, by decide⟩

theorem sessionTask_whole_delivered :
    Delivers [readOneAdu, readTwoAdu] (sessionTask bareFirmware (fun _ => true)
      [some ⟨readOneAdu.bytes, by decide⟩, some ⟨[], by decide⟩, some ⟨readTwoAdu.bytes, by decide⟩]
      (newSession (fun _ => 0) (fun _ => 0) bareDevice)).exchanges :=
  (sessionTask_delivers_iff bareFirmware [readOneAdu, readTwoAdu]
    [⟨readOneAdu.bytes, by decide⟩, ⟨[], by decide⟩, ⟨readTwoAdu.bytes, by decide⟩]
    (fun _ => 0) (fun _ => 0) bareDevice rfl).mpr ⟨by decide, by decide⟩

/-- The header in one receive and the PDU in the next: neither is taken for a frame. -/
theorem sessionTask_split_lost :
    ([[0, 1, 0, 0, 0, 6, 0], [3, 0, 0, 0, 1]] : List (List UInt8)).flatten = readOneAdu.bytes ∧
      ¬ Delivers [readOneAdu] (sessionTask bareFirmware (fun _ => true)
        [some ⟨[0, 1, 0, 0, 0, 6, 0], by decide⟩, some ⟨[3, 0, 0, 0, 1], by decide⟩]
        (newSession (fun _ => 0) (fun _ => 0) bareDevice)).exchanges := by
  refine ⟨by decide, fun h => ?_⟩
  have hx := h.map_pdu
  simp [sessionTask, sessionRecv, newSession, readOneAdu, checkFrame] at hx

end EdgeNode.Mbtcp
