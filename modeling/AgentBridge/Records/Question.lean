import AgentBridge.Model
import AgentBridge.Records.Error

/-! # Typed questions and the check of an answer against its question -/

namespace AgentBridge

open Reasoning

structure QuestionOption where
  id : String
  label : String
deriving DecidableEq

inductive QuestionFieldKind where
  | text (maxBytes : UInt64)
  | boolean
  | integer (min max : Int64)
  | select (options : List QuestionOption)
deriving DecidableEq

structure QuestionField where
  id : String
  label : String
  required : Bool
  kind : QuestionFieldKind
deriving DecidableEq

structure Question where
  title : String
  fields : List QuestionField
deriving DecidableEq

inductive AnswerValue where
  | text (s : String)
  | boolean (b : Bool)
  | integer (n : Int64)
  | selected (id : String)
deriving DecidableEq

inductive AnswerOutcome where
  | submitted (values : SortedMap AnswerValue)
  | declined
  | cancelled
deriving DecidableEq

inductive AnswerDelivery where
  /-- Saved locally; no provider delivery is implied. -/
  | stored
  | queued
  | unknown
deriving DecidableEq

namespace Question

/-- The `any` of `Question::validate` over a field's options; `ids` holds the ids inserted so far. -/
def anyInvalidOption : List QuestionOption → List String → Bool
  | [], _ => false
  | option :: options, ids =>
      isBlank option.id || isBlank option.label || ids.contains option.id ||
        anyInvalidOption options (option.id :: ids)

def validateKind : QuestionFieldKind → Except StoreError Unit
  | .text maxBytes => if maxBytes = 0 then .error .invalidPayload else .ok ()
  | .integer min max => if min > max then .error .invalidPayload else .ok ()
  | .select options =>
      if options.isEmpty || options.length > 256 || anyInvalidOption options [] then
        .error .invalidPayload
      else .ok ()
  | .boolean => .ok ()

/-- The loop of `Question::validate`; `seen` holds the field ids inserted so far. -/
def validateFields : List QuestionField → List String → Except StoreError Unit
  | [], _ => .ok ()
  | field :: fields, seen =>
      if isBlank field.id || isBlank field.label || seen.contains field.id then
        .error .invalidPayload
      else do
        validateKind field.kind
        validateFields fields (field.id :: seen)

def validate (question : Question) : Except StoreError Unit :=
  if isBlank question.title || question.fields.isEmpty || question.fields.length > 64 then
    .error .invalidPayload
  else validateFields question.fields []

/-- Whether a value answers a field. -/
def validValue (field : QuestionField) (value : AnswerValue) : Bool :=
  match field.kind, value with
  | .text maxBytes, .text text =>
      text.utf8ByteSize ≤ maxBytes.toNat && (!field.required || !isBlank text)
  | .boolean, .boolean _ => true
  | .integer min max, .integer value => min ≤ value && value ≤ max
  | .select options, .selected id => options.any fun option => option.id == id
  | _, _ => false

def validateValues (values : SortedMap AnswerValue) : List QuestionField → Except StoreError Unit
  | [] => .ok ()
  | field :: fields =>
      match values.get field.id with
      | none => if field.required then .error .invalidDecision else validateValues values fields
      | some value =>
          if validValue field value then validateValues values fields else .error .invalidDecision

def validateAnswer (question : Question) (outcome : AnswerOutcome) : Except StoreError Unit := do
  question.validate
  match outcome with
  | .submitted values =>
      if values.keys.any fun key => !question.fields.any fun field => field.id == key then
        .error .invalidDecision
      else validateValues values question.fields
  | _ => .ok ()

end Question

end AgentBridge
