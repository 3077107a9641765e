import Graveboards.Library.Iso
import Graveboards.Library.Text

/-!
The two task records of the request pipeline and their Redis hashes. A handler
task is stored when a request is posted, a validation task when its row has
been inserted; both live under the namespace `queue_request_handler_task`, and
their life-cycle markers are written later as single fields.
-/

namespace Graveboards.Requests

open Library

/-- The fields of a Redis hash. -/
abbrev Fields := String → Option String

namespace Fields

def empty : Fields := fun _ => none

/-- `HSET` of one field. -/
def set (field value : String) (fields : Fields) : Fields :=
  Function.update fields field (some value)

/-- `HSET` of a mapping. -/
def setAll (mapping : List (String × String)) (fields : Fields) : Fields :=
  mapping.foldl (fun fields entry => fields.set entry.1 entry.2) fields

@[simp] theorem set_self (field value : String) (fields : Fields) :
    fields.set field value field = some value := Function.update_self ..

theorem set_of_ne {field other : String} (h : other ≠ field) (value : String) (fields : Fields) :
    fields.set field value other = fields other := Function.update_of_ne h ..

end Fields

/-- The exceptions of a `deserialize`. -/
inductive Undecodable where
  | valueError | validationError
  deriving DecidableEq

section Values

/-- `str(value)` of a Boolean. -/
def strBool (b : Bool) : String := if b then "True" else "False"

/-- `value.isoformat() if value is not None else ""`. -/
def strMarker (value : Option Iso.Moment) : String :=
  match value with
  | some m => Iso.isoformat m
  | none => ""

/-- `int(value)`. -/
def parseInt (text : String) : Except Undecodable Nat :=
  if Text.isDigits text then .ok (Text.digitsValue text) else .error .valueError

/-- `literal_eval(value)` of a stored Boolean. -/
def literalBool (text : String) : Except Undecodable Bool :=
  if text = "True" then .ok true else if text = "False" then .ok false else .error .valueError

/-- `datetime.fromisoformat(value) if value else None`. -/
def parseMarker (text : String) : Except Undecodable (Option Iso.Moment) :=
  if text = "" then .ok none
  else match Iso.fromisoformat text with
    | some m => .ok (some m)
    | none => .error .valueError

/-- Convert the value of a field, if it is there. -/
def convert {α : Type} (fields : Fields) (field : String) (parse : String → Except Undecodable α) :
    Except Undecodable (Option α) :=
  match fields field with
  | none => .ok none
  | some text => (parse text).map some

/-- A field without a default. -/
def required {α : Type} : Option α → Except Undecodable α
  | some value => .ok value
  | none => .error .validationError

end Values

structure QueueRequestHandlerTask where
  userId : Nat
  beatmapsetId : Nat
  queueId : Nat
  comment : String
  mvChecked : Bool
  httpRequestId : String
  completedAt : Option Iso.Moment
  failedAt : Option Iso.Moment
  deriving DecidableEq

namespace QueueRequestHandlerTask

def serialize (task : QueueRequestHandlerTask) : List (String × String) :=
  [ ("user_id", toString task.userId), ("beatmapset_id", toString task.beatmapsetId),
    ("queue_id", toString task.queueId), ("comment", task.comment),
    ("mv_checked", strBool task.mvChecked), ("http_request_id", task.httpRequestId),
    ("completed_at", strMarker task.completedAt), ("failed_at", strMarker task.failedAt) ]

/-- The conversions of the loop come first, then `model_validate`. -/
def deserialize (fields : Fields) : Except Undecodable QueueRequestHandlerTask := do
  let userId ← convert fields "user_id" parseInt
  let beatmapsetId ← convert fields "beatmapset_id" parseInt
  let queueId ← convert fields "queue_id" parseInt
  let mvChecked ← convert fields "mv_checked" literalBool
  let completedAt ← convert fields "completed_at" parseMarker
  let failedAt ← convert fields "failed_at" parseMarker
  return {
    userId := ← required userId
    beatmapsetId := ← required beatmapsetId
    queueId := ← required queueId
    comment := ← required (fields "comment")
    mvChecked := ← required mvChecked
    httpRequestId := (fields "http_request_id").getD ""
    completedAt := completedAt.getD none
    failedAt := failedAt.getD none }

end QueueRequestHandlerTask

structure QueueRequestValidationTask where
  requestId : Nat
  queueId : Nat
  beatmapsetId : Nat
  httpRequestId : String
  rulesSnapshot : String
  completedAt : Option Iso.Moment
  failedAt : Option Iso.Moment
  deriving DecidableEq

namespace QueueRequestValidationTask

def serialize (task : QueueRequestValidationTask) : List (String × String) :=
  [ ("request_id", toString task.requestId), ("queue_id", toString task.queueId),
    ("beatmapset_id", toString task.beatmapsetId), ("http_request_id", task.httpRequestId),
    ("rules_snapshot", task.rulesSnapshot), ("completed_at", strMarker task.completedAt),
    ("failed_at", strMarker task.failedAt) ]

def deserialize (fields : Fields) : Except Undecodable QueueRequestValidationTask := do
  let requestId ← convert fields "request_id" parseInt
  let queueId ← convert fields "queue_id" parseInt
  let beatmapsetId ← convert fields "beatmapset_id" parseInt
  let completedAt ← convert fields "completed_at" parseMarker
  let failedAt ← convert fields "failed_at" parseMarker
  return {
    requestId := ← required requestId
    queueId := ← required queueId
    beatmapsetId := ← required beatmapsetId
    httpRequestId := (fields "http_request_id").getD ""
    rulesSnapshot := (fields "rules_snapshot").getD ""
    completedAt := completedAt.getD none
    failedAt := failedAt.getD none }

end QueueRequestValidationTask

/-! Round trips. -/

@[simp] theorem parseInt_toString (n : Nat) : parseInt (toString n) = .ok n := by
  rw [parseInt, if_pos (Text.isDigits_toString n), Text.digitsValue_toString]

@[simp] theorem literalBool_strBool (b : Bool) : literalBool (strBool b) = .ok b := by
  cases b <;> rfl

@[simp] theorem parseMarker_strMarker (value : Option Iso.Moment) :
    parseMarker (strMarker value) = .ok value := by
  cases value with
  | none => rfl
  | some m =>
      rw [strMarker, parseMarker, if_neg (Iso.isoformat_ne_empty m), Iso.fromisoformat_isoformat]

theorem convert_of_some {α : Type} {fields : Fields} {field text : String} {value : α}
    {parse : String → Except Undecodable α} (h : fields field = some text)
    (hparse : parse text = .ok value) : convert fields field parse = .ok (some value) := by
  rw [convert, h]
  dsimp only
  rw [hparse]
  rfl

/-- The hash holds the task: every field has the text of its value. -/
def QueueRequestHandlerTask.StoredIn (task : QueueRequestHandlerTask) (fields : Fields) : Prop :=
  ∀ entry ∈ task.serialize, fields entry.1 = some entry.2

/-- The marker is there and not the empty text. -/
def marked (marker : String) (fields : Fields) : Bool :=
  match fields marker with
  | some text => text ≠ ""
  | none => false

/-- `HSET key marker aware_utcnow().isoformat()`. -/
def Fields.mark (marker : String) (m : Iso.Moment) (fields : Fields) : Fields :=
  fields.set marker (Iso.isoformat m)

theorem marked_mark (marker : String) (m : Iso.Moment) (fields : Fields) :
    marked marker (fields.mark marker m) = true := by
  simp [marked, Fields.mark, Iso.isoformat_ne_empty]

theorem marked_mark_of_ne {marker other : String} (h : other ≠ marker) (m : Iso.Moment)
    (fields : Fields) : marked other (fields.mark marker m) = marked other fields := by
  rw [marked, Fields.mark, Fields.set_of_ne h, marked]

namespace QueueRequestHandlerTask

variable {task : QueueRequestHandlerTask} {fields : Fields}

theorem StoredIn.deserialize (h : task.StoredIn fields) :
    QueueRequestHandlerTask.deserialize fields = .ok task := by
  simp only [StoredIn, serialize, List.forall_mem_cons] at h
  obtain ⟨huser, hset, hqueue, hcomment, hmv, hhttp, hcompleted, hfailed, -⟩ := h
  unfold QueueRequestHandlerTask.deserialize
  rw [convert_of_some huser (parseInt_toString _), convert_of_some hset (parseInt_toString _),
    convert_of_some hqueue (parseInt_toString _), convert_of_some hmv (literalBool_strBool _),
    convert_of_some hcompleted (parseMarker_strMarker _),
    convert_of_some hfailed (parseMarker_strMarker _), hcomment, hhttp]
  rfl

theorem storedIn_setAll (task : QueueRequestHandlerTask) (fields : Fields) :
    task.StoredIn (fields.setAll task.serialize) := by
  simp [StoredIn, serialize, Fields.setAll, Fields.set, Function.update]

theorem StoredIn.markFailed (h : task.StoredIn fields) (m : Iso.Moment) :
    ({ task with failedAt := some m } : QueueRequestHandlerTask).StoredIn
      (fields.mark "failed_at" m) := by
  simp only [StoredIn, serialize, List.forall_mem_cons] at h ⊢
  obtain ⟨huser, hset, hqueue, hcomment, hmv, hhttp, hcompleted, -, hnil⟩ := h
  simp [Fields.mark, Fields.set, Function.update, strMarker, *]

theorem StoredIn.markCompleted (h : task.StoredIn fields) (m : Iso.Moment) :
    ({ task with completedAt := some m } : QueueRequestHandlerTask).StoredIn
      (fields.mark "completed_at" m) := by
  simp only [StoredIn, serialize, List.forall_mem_cons] at h ⊢
  obtain ⟨huser, hset, hqueue, hcomment, hmv, hhttp, -, hfailed, hnil⟩ := h
  simp [Fields.mark, Fields.set, Function.update, strMarker, *]

theorem StoredIn.marked_completed (h : task.StoredIn fields) :
    marked "completed_at" fields = task.completedAt.isSome := by
  have hfield : fields "completed_at" = some (strMarker task.completedAt) :=
    h ("completed_at", strMarker task.completedAt) (by simp [serialize])
  rw [marked, hfield]
  cases task.completedAt <;> simp [strMarker, Iso.isoformat_ne_empty]

theorem StoredIn.marked_failed (h : task.StoredIn fields) :
    marked "failed_at" fields = task.failedAt.isSome := by
  have hfield : fields "failed_at" = some (strMarker task.failedAt) :=
    h ("failed_at", strMarker task.failedAt) (by simp [serialize])
  rw [marked, hfield]
  cases task.failedAt <;> simp [strMarker, Iso.isoformat_ne_empty]

/-- The marker a reader sees is the one in the hash. -/
theorem failedAt_of_deserialize (h : QueueRequestHandlerTask.deserialize fields = .ok task) :
    task.failedAt.isSome = marked "failed_at" fields := by
  unfold QueueRequestHandlerTask.deserialize at h
  obtain ⟨user, -, h⟩ := bind_eq_ok h
  obtain ⟨set, -, h⟩ := bind_eq_ok h
  obtain ⟨queue, -, h⟩ := bind_eq_ok h
  obtain ⟨mv, -, h⟩ := bind_eq_ok h
  obtain ⟨completed, -, h⟩ := bind_eq_ok h
  obtain ⟨failed, hfailed, h⟩ := bind_eq_ok h
  obtain ⟨user', -, h⟩ := bind_eq_ok h
  obtain ⟨set', -, h⟩ := bind_eq_ok h
  obtain ⟨queue', -, h⟩ := bind_eq_ok h
  obtain ⟨comment, -, h⟩ := bind_eq_ok h
  obtain ⟨mv', -, h⟩ := bind_eq_ok h
  obtain rfl := Except.ok.inj h
  unfold convert at hfailed
  unfold marked
  cases hfield : fields "failed_at" with
  | none =>
      rw [hfield] at hfailed
      obtain rfl := Except.ok.inj hfailed
      rfl
  | some text =>
      rw [hfield] at hfailed
      by_cases hempty : text = ""
      · rw [hempty] at hfailed
        obtain rfl := Except.ok.inj hfailed
        simp [hempty]
      · cases hiso : Iso.fromisoformat text with
        | none => simp [parseMarker, hempty, hiso, Except.map] at hfailed
        | some m =>
            obtain rfl : some (some m) = failed := by
              simpa [parseMarker, hempty, hiso, Except.map] using hfailed
            simp [hempty]

/-- A hash without a comment is not readable as a handler task. -/
theorem deserialize_of_missing (h : fields "comment" = none) :
    QueueRequestHandlerTask.deserialize fields ≠ .ok task := by
  intro hok
  unfold QueueRequestHandlerTask.deserialize at hok
  obtain ⟨user, -, hok⟩ := bind_eq_ok hok
  obtain ⟨set, -, hok⟩ := bind_eq_ok hok
  obtain ⟨queue, -, hok⟩ := bind_eq_ok hok
  obtain ⟨mv, -, hok⟩ := bind_eq_ok hok
  obtain ⟨completed, -, hok⟩ := bind_eq_ok hok
  obtain ⟨failed, -, hok⟩ := bind_eq_ok hok
  obtain ⟨user', -, hok⟩ := bind_eq_ok hok
  obtain ⟨set', -, hok⟩ := bind_eq_ok hok
  obtain ⟨queue', -, hok⟩ := bind_eq_ok hok
  obtain ⟨comment, hcomment, -⟩ := bind_eq_ok hok
  rw [h] at hcomment
  cases hcomment

end QueueRequestHandlerTask

end Graveboards.Requests
