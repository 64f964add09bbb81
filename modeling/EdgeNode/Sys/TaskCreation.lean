import EdgeNode.Sys.Lists

/-! The creation of tasks from the table of templates, and the report of its failures. -/

namespace EdgeNode.Sys

open LockRuns

/-- The fields of `TASK_TEMPLATE_STRUCT` that the creation reads. -/
structure Template where
  TASK_TEMPLATE_INDEX : UInt32
  TASK_NAME : String
  deriving DecidableEq

/-- `MQX_template_list`: its entries up to the zero one at the end, and the memory around the table. -/
structure TemplateList where
  entries : List Template
  nonzero : ∀ t ∈ entries, t.TASK_TEMPLATE_INDEX ≠ 0
  around : Int → Template

def noTemplate : Template := ⟨0, ""⟩

/-- What stands where an index into the table points to. -/
def TemplateList.entry (list : TemplateList) (i : Int) : Template :=
  if 0 ≤ i ∧ i ≤ list.entries.length then list.entries.getD i.toNat noTemplate else list.around i

def nullTaskId : UInt32 := 0

/-- What MQX makes of a creation: the template at an address, and the task that a template and its
parameter give, which is the null task when it has no memory for one. -/
structure Kernel where
  template : UInt32 → Template
  init : Template → UInt32 → UInt32

/-- The template that `_task_build_internal` takes: that at the address of the parameter for index
zero, and the first of the index in the table for any other. -/
def Kernel.chosen (kernel : Kernel) (list : TemplateList) (template_index parameter : UInt32) :
    Option Template :=
  if template_index ≠ 0 then list.entries.find? fun t => t.TASK_TEMPLATE_INDEX = template_index
  else some (kernel.template parameter)

/-- `_task_create` on the processor of the caller. -/
def Kernel.taskCreate (kernel : Kernel) (list : TemplateList) (template_index parameter : UInt32) :
    UInt32 :=
  if template_index &&& 0x80000000 ≠ 0 then nullTaskId
  else
    match kernel.chosen list template_index parameter with
    | none => nullTaskId
    | some t => kernel.init t parameter

/-- What a call leaves: the result, the text of the error, the task at `pTaskID` and the list of
tasks. -/
structure Created where
  xRet : Ret
  text : String
  xTaskID : Option UInt32
  taskList : FteList UInt32

/-- `FTE_TASK_append`, with what the allocations of the entry and of the list give. -/
def taskAppend (info : Bool) (m : Memory) (xTaskID : UInt32) (taskList : FteList UInt32) :
    Run Key (FteList UInt32) :=
  if info then Prod.snd <$> taskList.pushBack xTaskID m else pure taskList

/-- The loop over the table after a failure, for so many turns: it looks at the same entry in every
turn. Without a value it has not ended. -/
def failureText (pTemplate : Template) (nTemplateIndex : Int32) : Nat → Option String
  | 0 => none
  | turns + 1 =>
    if pTemplate.TASK_TEMPLATE_INDEX ≠ 0 then
      if pTemplate.TASK_TEMPLATE_INDEX = nTemplateIndex.toUInt32 then
        some ("\nCould not create " ++ pTemplate.TASK_NAME ++ "\n")
      else failureText pTemplate nTemplateIndex turns
    else some ("\nCould not create unknown[" ++ toString nTemplateIndex.toInt ++ "]\n")

/-- `FTE_TASK_create` behind the answer of `_task_create`, with so many turns for its loop. -/
def taskCreated (list : TemplateList) (info : Bool) (m : Memory) (nTemplateIndex : Int32)
    (xTaskID : UInt32) (taskList : FteList UInt32) (turns : Nat) : Run Key Created :=
  if xTaskID = nullTaskId then
    match failureText (list.entry nTemplateIndex.toInt) nTemplateIndex turns with
    | some text => pure ⟨retError, text, none, taskList⟩
    | none => Run.wait
  else (fun taskList => ⟨retOk, "", some xTaskID, taskList⟩) <$> taskAppend info m xTaskID taskList

/-- `FTE_TASK_create`. -/
def taskCreate (kernel : Kernel) (list : TemplateList) (info : Bool) (m : Memory)
    (nTemplateIndex : Int32) (ulParameter : UInt32) (taskList : FteList UInt32) (turns : Nat) :
    Run Key Created :=
  taskCreated list info m nTemplateIndex (kernel.taskCreate list nTemplateIndex.toUInt32 ulParameter)
    taskList turns

section Creation

variable {kernel : Kernel} {list : TemplateList} {info : Bool} {m : Memory} {nTemplateIndex : Int32}
  {ulParameter : UInt32} {taskList : FteList UInt32}

/-- The call ends, with the task of the template that the index stands for or with an error. -/
def Settles (kernel : Kernel) (list : TemplateList) (info : Bool) (m : Memory)
    (nTemplateIndex : Int32) (ulParameter : UInt32) (taskList : FteList UInt32) : Prop :=
  ∃ turns r, (taskCreate kernel list info m nTemplateIndex ulParameter taskList turns).outcome =
      .returned r ∧
    ((r.xRet = retOk ∧ ∃ t, kernel.chosen list nTemplateIndex.toUInt32 ulParameter = some t ∧
        r.xTaskID = some (kernel.init t ulParameter)) ∨
      (r.xRet = retError ∧ r.xTaskID = none ∧ r.taskList = taskList))

/-- A task that was created is that of the template. -/
theorem Kernel.taskCreate_ne_null {i : UInt32}
    (h : kernel.taskCreate list i ulParameter ≠ nullTaskId) :
    ∃ t, kernel.chosen list i ulParameter = some t ∧
      kernel.taskCreate list i ulParameter = kernel.init t ulParameter := by
  rw [Kernel.taskCreate] at h ⊢
  split at h
  next => exact absurd rfl h
  next hsystem =>
    rw [if_neg hsystem]
    split at h
    next => exact absurd rfl h
    next t ht => exact ⟨t, ht, rfl⟩

/-- An entry that is neither the end nor the one looked for keeps the loop going. -/
theorem failureText_eq_none {t : Template} (hzero : t.TASK_TEMPLATE_INDEX ≠ 0)
    (hne : t.TASK_TEMPLATE_INDEX ≠ nTemplateIndex.toUInt32) (turns : Nat) :
    failureText t nTemplateIndex turns = none := by
  induction turns with
  | zero => rfl
  | succ turns ih => rw [failureText, if_pos hzero, if_neg hne, ih]

/-- Any other entry ends it in its first turn. -/
theorem failureText_eq_some {t : Template}
    (h : t.TASK_TEMPLATE_INDEX = 0 ∨ t.TASK_TEMPLATE_INDEX = nTemplateIndex.toUInt32) :
    ∃ text, failureText t nTemplateIndex 1 = some text := by
  rw [failureText]
  by_cases hzero : t.TASK_TEMPLATE_INDEX = 0
  · exact ⟨_, if_neg (not_not_intro hzero)⟩
  · rw [if_pos hzero, if_pos (h.resolve_left hzero)]
    exact ⟨_, rfl⟩

/-- A call that creates its task returns it, if the list takes its entry. -/
theorem taskCreated_of_ne {xTaskID : UInt32} (h : xTaskID ≠ nullTaskId) (turns : Nat) :
    (∃ r, (taskCreated list info m nTemplateIndex xTaskID taskList turns).outcome = .returned r) ↔
      (info = true → m.node = true → taskList.Ready m) := by
  rw [taskCreated, if_neg h, taskAppend]
  cases info with
  | false => exact iff_of_true ⟨_, rfl⟩ nofun
  | true =>
    rw [if_pos rfl, imp_iff_right rfl, ← @FteList.push_returns_iff _ (· ++ [xTaskID])]
    change (∃ r, (_ <$> _ <$> FteList.push _ _ _).outcome = _) ↔ _
    generalize FteList.push (· ++ [xTaskID]) taskList m = push
    obtain ⟨acts, outcome⟩ := push
    cases outcome with
    | returned p => exact iff_of_true ⟨_, rfl⟩ ⟨p, rfl⟩
    | stopped => exact iff_of_false nofun nofun
    | waiting => exact iff_of_false nofun nofun

theorem taskCreated_returned {xTaskID : UInt32} (h : xTaskID ≠ nullTaskId) {turns : Nat} {r : Created}
    (hr : (taskCreated list info m nTemplateIndex xTaskID taskList turns).outcome = .returned r) :
    r.xRet = retOk ∧ r.xTaskID = some xTaskID := by
  rw [taskCreated, if_neg h] at hr
  obtain ⟨taskList', -, hr⟩ := Run.returned_bind hr
  cases hr
  exact ⟨rfl, rfl⟩

/-- Exactly when the call ends: the task is created and the list takes its entry, or the entry at the
position of the index has this index or none. -/
theorem settles_iff (kernel : Kernel) (list : TemplateList) (info : Bool) (m : Memory)
    (nTemplateIndex : Int32) (ulParameter : UInt32) (taskList : FteList UInt32) :
    Settles kernel list info m nTemplateIndex ulParameter taskList ↔
      if kernel.taskCreate list nTemplateIndex.toUInt32 ulParameter ≠ nullTaskId then
        info = true → m.node = true → taskList.Ready m
      else (list.entry nTemplateIndex.toInt).TASK_TEMPLATE_INDEX = 0 ∨
        (list.entry nTemplateIndex.toInt).TASK_TEMPLATE_INDEX = nTemplateIndex.toUInt32 := by
  split
  next hne =>
    constructor
    · rintro ⟨turns, r, hr, -⟩
      exact (taskCreated_of_ne hne turns).mp ⟨r, hr⟩
    · intro h
      obtain ⟨r, hr⟩ := (taskCreated_of_ne hne 0).mpr h
      obtain ⟨hret, hid⟩ := taskCreated_returned hne hr
      obtain ⟨t, ht, htask⟩ := Kernel.taskCreate_ne_null hne
      exact ⟨0, r, hr, .inl ⟨hret, t, ht, by rw [hid, htask]⟩⟩
  next hnull =>
    have hnull := not_not.mp hnull
    constructor
    · rintro ⟨turns, r, hrun, -⟩
      by_contra hno
      rw [not_or] at hno
      rw [taskCreate, taskCreated, if_pos hnull, failureText_eq_none hno.1 hno.2] at hrun
      cases hrun
    · intro h
      obtain ⟨text, htext⟩ := failureText_eq_some h
      refine ⟨1, ⟨retError, text, none, taskList⟩, ?_, .inr ⟨rfl, rfl, rfl⟩⟩
      rw [taskCreate, taskCreated, if_pos hnull, htext]
      rfl

/-- Two tasks, the first of which MQX has no memory for: the entry at position one is the second. -/
def mainAndObject : TemplateList where
  entries := [⟨1, "main"⟩, ⟨2, "object"⟩]
  nonzero := by decide
  around := fun _ => noTemplate

def noMemory : Kernel := ⟨fun _ => noTemplate, fun _ _ => nullTaskId⟩

theorem failure_of_main_hangs :
    ¬ Settles noMemory mainAndObject true ⟨true, some 1, true⟩ 1 0 ⟨none, none⟩ := by
  rintro ⟨turns, r, hrun, -⟩
  have hnull : noMemory.taskCreate mainAndObject (1 : Int32).toUInt32 0 = nullTaskId := by decide
  have hzero : (mainAndObject.entry (1 : Int32).toInt).TASK_TEMPLATE_INDEX ≠ 0 := by decide
  have hne : (mainAndObject.entry (1 : Int32).toInt).TASK_TEMPLATE_INDEX ≠ (1 : Int32).toUInt32 := by
    decide
  rw [taskCreate, taskCreated, if_pos hnull, failureText_eq_none hzero hne] at hrun
  cases hrun

end Creation

section Table

/-- The parts of the product that bring tasks of their own. -/
structure Supported where
  cias : Bool
  ioex : Bool
  dioNode : Bool
  loraWan : Bool
  s2Lora : Bool
  soha : Bool
  elt : Bool
  dotech : Bool
  turbomax : Bool
  futuretek : Bool
  mbtcp : Bool

def taskUcsRx : Int32 := 8

def taskUcsTx : Int32 := 9

/-- The entries that every product with serial ports has, before those of its parts. -/
def commonTemplates : List Template :=
  [⟨1, "main"⟩, ⟨3, "object"⟩, ⟨2, "watchdog"⟩, ⟨7, "timer"⟩, ⟨4, "shell"⟩, ⟨5, "net"⟩, ⟨8, "ucs_rx"⟩,
    ⟨9, "ucs_tx"⟩, ⟨10, "event"⟩]

def partTemplates : List ((Supported → Bool) × Template) :=
  [(Supported.cias, ⟨11, "SIOUX_CU"⟩), (Supported.ioex, ⟨12, "IOEX"⟩),
    (Supported.dioNode, ⟨22, "DIO_NODE"⟩), (Supported.loraWan, ⟨13, "LoRaWAN COMM"⟩),
    (Supported.loraWan, ⟨14, "LoRaWAN"⟩), (Supported.s2Lora, ⟨15, "LoRaWAN"⟩),
    (Supported.soha, ⟨18, "soha"⟩), (Supported.elt, ⟨19, "elt"⟩), (Supported.dotech, ⟨17, "dotech"⟩),
    (Supported.turbomax, ⟨23, "TurboMax"⟩), (Supported.futuretek, ⟨24, "Futuretek"⟩),
    (Supported.futuretek, ⟨27, "Futuretek"⟩), (Supported.futuretek, ⟨26, "Futuretek"⟩),
    (Supported.futuretek, ⟨25, "Futuretek_jcg06"⟩), (Supported.mbtcp, ⟨20, "mbtcp"⟩),
    (Supported.mbtcp, ⟨21, "mbtcp_session"⟩)]

/-- `MQX_template_list` of a product. -/
def mqxTemplateList (s : Supported) : TemplateList where
  entries := commonTemplates ++ (partTemplates.filter fun e => e.1 s).map Prod.snd
  nonzero := by
    intro t ht
    rcases List.mem_append.mp ht with ht | ht
    · have hcommon : ∀ t ∈ commonTemplates, t.TASK_TEMPLATE_INDEX ≠ 0 := by decide
      exact hcommon t ht
    · obtain ⟨e, he, rfl⟩ := List.mem_map.mp ht
      have hpart : ∀ t ∈ partTemplates.map Prod.snd, t.TASK_TEMPLATE_INDEX ≠ 0 := by decide
      exact hpart _ (List.mem_map_of_mem (List.mem_of_mem_filter he))
  around := fun _ => noTemplate

/-- At the position of the receiving task stands the one of the events, in every product. -/
theorem mqxTemplateList_ucsRx (s : Supported) :
    (mqxTemplateList s).entry taskUcsRx.toInt = ⟨10, "event"⟩ := by
  have hlen : 8 ≤ (mqxTemplateList s).entries.length := by
    simp only [mqxTemplateList, commonTemplates, List.length_append, List.length_cons]
    omega
  rw [TemplateList.entry, if_pos ⟨by decide, Int.ofNat_le.mpr hlen⟩]
  rfl

/-- So the report of its failure does not end. -/
theorem failureText_ucsRx (s : Supported) (turns : Nat) :
    failureText ((mqxTemplateList s).entry taskUcsRx.toInt) taskUcsRx turns = none := by
  rw [mqxTemplateList_ucsRx]
  exact failureText_eq_none (by decide) (by decide) turns

end Table

end EdgeNode.Sys
