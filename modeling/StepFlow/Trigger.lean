import StepFlow.Schema.Reader

/-!
Triggers: what started a run. Expressions see a trigger under the names it is stored with.
-/
namespace StepFlow

open Schema

structure Trigger where
  type : String
  content : Option String
  messageId : Option String
  conversationId : Option String
  senderAccountId : Option String
  recipientAccountId : Option String
  metadata : Option (Table Value)

namespace Trigger

def messageName : FieldName := ⟨"messageId", "message_id"⟩
def conversationName : FieldName := ⟨"conversationId", "conversation_id"⟩
def senderName : FieldName := ⟨"senderAccountId", "sender_account_id"⟩
def recipientName : FieldName := ⟨"recipientAccountId", "recipient_account_id"⟩

def types : List String := ["message_received", "manual", "scheduled", "webhook"]

def readFields (fields : Table Value) : Checked Trigger :=
  ((((((Checked.and (.ok Trigger.mk) (required (choice types) (sole "type") fields)).and
    (defaulted (optional text) (sole "content") none fields)).and
    (defaulted (optional text) messageName none fields)).and
    (defaulted (optional text) conversationName none fields)).and
    (defaulted (optional text) senderName none fields)).and
    (defaulted (optional text) recipientName none fields)).and
    (defaulted (optional (mapping anything)) (sole "metadata") none fields)

def read : Reader Trigger := model readFields

/-- A trigger of the type manual. Further fields are as in any trigger. -/
def manual (content : Value) (extra : Table Value) : Checked Trigger :=
  readFields ([("type", .text "manual"), ("content", content)] ++ extra)

def dump (naming : Naming) (t : Trigger) : Value :=
  .map [("type", .text t.type), ("content", Value.ofOption .text t.content),
    (messageName.under naming, Value.ofOption .text t.messageId),
    (conversationName.under naming, Value.ofOption .text t.conversationId),
    (senderName.under naming, Value.ofOption .text t.senderAccountId),
    (recipientName.under naming, Value.ofOption .text t.recipientAccountId),
    ("metadata", Value.ofOption .map t.metadata)]

end Trigger

end StepFlow
