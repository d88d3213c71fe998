import Mullion.Session.ControlSocket

/-!
# Hook messages

`parseHookMessage` (`services/hook-protocol.ts`) reads a line of a hook connection: the validator
of its kind rebuilds the message field by field.

* `Field`, `readFields` — how a validator reads the fields of a message;
* `HookMessageKind`, the validators, `parseHookMessage`;
* `interface`, `hasInterface` — the fields of each kind.
-/

namespace Mullion
namespace HookProtocol

open Fields (get set)
open ControlSocket (Value)
open HookInput (units)

abbrev Object := List (String × Value)

/-! ## Values -/

def isString : Value → Bool
  | .string _ => true
  | _ => false

def isNonempty : Value → Bool
  | .string text => text ≠ ""
  | _ => false

def isBoolean : Value → Bool
  | .bool _ => true
  | _ => false

/-- `typeof value === "number"`. -/
def isNumber : Value → Bool
  | .number _ => true
  | _ => false

/-- `Number.isInteger`. -/
def isInteger : Value → Bool
  | .number (some q) => q.den = 1
  | _ => false

def isPlainObject : Value → Bool
  | .object _ => true
  | _ => false

/-- `typeof value === "object" && value !== null`. -/
def isReference : Value → Bool
  | .object _ => true
  | .array _ => true
  | _ => false

/-- One of these strings. -/
def isLiteral (values : List String) : Value → Bool
  | .string text => text ∈ values
  | _ => false

/-- `MAX_AGENT_FIELD_LEN`. -/
def maxAgentFieldLen : Nat := 128

def isValidAgentField : Value → Bool
  | .string text => 0 < units text.toList && units text.toList ≤ maxAgentFieldLen
  | _ => false

/-- An object, without the properties that are `undefined`. -/
def object (entries : List (String × Option Value)) : Object :=
  entries.filterMap fun e => e.2.map fun value => (e.1, value)

/-- Reading a property; `none` is a throw, of `null`. -/
def property (key : String) : Value → Option (Option Value)
  | .null => none
  | .object fields => some (get fields key)
  | _ => some none

/-! ## Fields -/

/-- A field of a message that is rebuilt: what becomes of its value, or why the message is
refused; `none` is a throw. -/
structure Field where
  name : String
  read : Option Value → Option (Except String (Option Value))

/-- A field that must be there. -/
def required (holds : Value → Bool) (name error : String) : Field :=
  ⟨name, fun value => some (if value.any holds then .ok value else .error error)⟩

/-- A field that must be right if it is there. -/
def optional (holds : Value → Bool) (name error : String) : Field :=
  ⟨name, fun value => some (if value.all holds then .ok value else .error error)⟩

/-- A field that is dropped if it is not right. -/
def lenient (holds : Value → Bool) (name : String) : Field :=
  ⟨name, fun value => some (.ok (value.filter holds))⟩

/-- The fields of a message, one after the other. -/
def readFields (payload : Object) :
    List Field → Option (Except String (List (String × Option Value)))
  | [] => some (.ok [])
  | field :: fields =>
    match field.read (get payload field.name) with
    | none => none
    | some (.error error) => some (.error error)
    | some (.ok value) =>
      (readFields payload fields).map fun rest => rest.map ((field.name, value) :: ·)

/-! ## Kinds -/

inductive HookMessageKind
  | notification
  | progress
  | fileChange
  | reviewGate
  | promoteRequest
  | sessionStart
  | notificationResolved
  | permissionRequest
  | toolDone
  | stopFailure
  | toolFailure
  | sessionEnd
  | planReady
  | gitBranch
  | cwdChanged
  | agentSession
  | turnStart
  | compact
  | subagent
  | elicitation
  | question
  | todo
  | sessionDiff
  | permissionResolved
  | planResolved
  | browserAction
  | githubToken
  deriving DecidableEq, Repr

namespace HookMessageKind

def text : HookMessageKind → String
  | notification => "notification"
  | progress => "progress"
  | fileChange => "file_change"
  | reviewGate => "review_gate"
  | promoteRequest => "promote_request"
  | sessionStart => "session_start"
  | notificationResolved => "notification_resolved"
  | permissionRequest => "permission_request"
  | toolDone => "tool_done"
  | stopFailure => "stop_failure"
  | toolFailure => "tool_failure"
  | sessionEnd => "session_end"
  | planReady => "plan_ready"
  | gitBranch => "git_branch"
  | cwdChanged => "cwd_changed"
  | agentSession => "agent_session"
  | turnStart => "turn_start"
  | compact => "compact"
  | subagent => "subagent"
  | elicitation => "elicitation"
  | question => "question"
  | todo => "todo"
  | sessionDiff => "session_diff"
  | permissionResolved => "permission_resolved"
  | planResolved => "plan_resolved"
  | browserAction => "browser_action"
  | githubToken => "github_token"

def all : List HookMessageKind :=
  [notification, progress, fileChange, reviewGate, promoteRequest, sessionStart,
    notificationResolved, permissionRequest, toolDone, stopFailure, toolFailure, sessionEnd,
    planReady, gitBranch, cwdChanged, agentSession, turnStart, compact, subagent, elicitation,
    question, todo, sessionDiff, permissionResolved, planResolved, browserAction, githubToken]

/-- The case of the `switch`. -/
def ofText (text : String) : Option HookMessageKind := all.find? (·.text = text)

theorem ofText_text (kind : HookMessageKind) : ofText kind.text = some kind := by
  cases kind <;> decide

end HookMessageKind

/-! ## The validators -/

/-- `{ kind }` with further properties. -/
def message (kind : HookMessageKind) (entries : List (String × Option Value)) : Object :=
  object (("kind", some (.string kind.text)) :: entries)

/-- A validator that rebuilds a message from these fields. -/
def rebuild (kind : HookMessageKind) (fields : List Field) (payload : Object) :
    Option (Except String Object) :=
  (readFields payload fields).map fun entries => entries.map (message kind)

/-- `validateBackgroundTasksField`, of a field that may be absent. -/
def validateBackgroundTasksField (kind : HookMessageKind) : Field where
  name := "backgroundTasks"
  read
    | none => some (.ok none)
    | some (.array tasks) => some (.ok (some (.array (tasks.filter isPlainObject))))
    | some _ =>
      some (.error (kind.text ++ " requires 'backgroundTasks' to be an array when present"))

/-- `parseAgentEnvelope`. -/
def parseAgentEnvelope : List Field :=
  [lenient isValidAgentField "agentId", lenient isValidAgentField "agentType"]

/-- `validateStartedFinished`. -/
def validateStartedFinished (kind : HookMessageKind) : Field :=
  required (isLiteral ["started", "finished"]) "state"
    (kind.text ++ " requires 'state' to be started|finished")

def validateNotification : Object → Option (Except String Object) :=
  let error := "notification requires string 'title' and 'body' fields"
  rebuild .notification [required isString "title" error, required isString "body" error]

def validateProgress : Object → Option (Except String Object) :=
  rebuild .progress
    [required (isLiteral ["thinking", "generating", "done"]) "phase"
      "progress requires 'phase' to be thinking|generating|done",
    optional isString "lastAssistantMessage"
      "progress requires 'lastAssistantMessage' to be a string when present",
    validateBackgroundTasksField .progress,
    optional isString "detail" "progress requires 'detail' to be a string when present",
    optional isBoolean "wakeupsPending"
      "progress requires 'wakeupsPending' to be a boolean when present"]

def validateFileChange : Object → Option (Except String Object) :=
  rebuild .fileChange
    ([required isString "path" "file_change requires a string 'path' field",
      required (isLiteral ["modify", "create", "delete"]) "action"
        "file_change requires 'action' to be modify|create|delete"] ++ parseAgentEnvelope)

def validateReviewGate : Object → Option (Except String Object) :=
  rebuild .reviewGate
    [required (isLiteral ["waiting", "approved", "denied"]) "state"
      "review_gate requires 'state' to be waiting|approved|denied",
    required isString "prompt" "review_gate requires a string 'prompt' field",
    lenient isNonempty "gateId"]

def validatePromoteRequest : Object → Option (Except String Object) :=
  rebuild .promoteRequest
    [required isString "summary" "promote_request requires a string 'summary' field",
    lenient isString "suggestedBaseRef"]

def validateSessionStart : Object → Option (Except String Object) :=
  rebuild .sessionStart
    [optional isString "source" "session_start requires 'source' to be a string when present",
    optional isString "transcriptPath"
      "session_start requires 'transcriptPath' to be a string when present"]

def validatePermissionRequest : Object → Option (Except String Object) :=
  rebuild .permissionRequest
    [required isString "tool" "permission_request requires a string 'tool' field",
    required isString "summary" "permission_request requires a string 'summary' field"]

def validateToolDone : Object → Option (Except String Object) :=
  rebuild .toolDone [required isString "tool" "tool_done requires a string 'tool' field"]

def validateStopFailure : Object → Option (Except String Object) :=
  rebuild .stopFailure
    [required isString "error" "stop_failure requires a string 'error' field",
    lenient isString "errorDetails", lenient isString "errorType"]

def validateToolFailure : Object → Option (Except String Object) :=
  rebuild .toolFailure
    ([required isString "tool" "tool_failure requires a string 'tool' field",
      required isString "error" "tool_failure requires a string 'error' field",
      optional isString "summary" "tool_failure requires 'summary' to be a string when present"] ++
      parseAgentEnvelope)

def validateSessionEnd : Object → Option (Except String Object) :=
  rebuild .sessionEnd
    [required isString "reason" "session_end requires a string 'reason' field",
    optional isInteger "exitCode" "session_end requires 'exitCode' to be an integer when present"]

def validatePlanReady : Object → Option (Except String Object) :=
  rebuild .planReady
    [required isString "plan" "plan_ready requires a string 'plan' field",
    optional isString "filePath" "plan_ready requires 'filePath' to be a string when present",
    optional isString "summary" "plan_ready requires 'summary' to be a string when present"]

def validateGitBranch : Object → Option (Except String Object) :=
  rebuild .gitBranch
    [required isNonempty "branch" "git_branch requires a non-empty string 'branch' field",
    lenient isNonempty "worktree"]

/-- `transcriptPath` of `validateCwdChanged`, which drops an empty one. -/
def cwdTranscriptPath : Field where
  name := "transcriptPath"
  read value :=
    some (if value.all isString then .ok (value.filter isNonempty)
      else .error "cwd_changed requires 'transcriptPath' to be a string when present")

def validateCwdChanged : Object → Option (Except String Object) :=
  rebuild .cwdChanged
    [required isNonempty "cwd" "cwd_changed requires a non-empty string 'cwd' field",
    cwdTranscriptPath]

def validateAgentSession : Object → Option (Except String Object) :=
  rebuild .agentSession
    [required isNonempty "sessionId"
      "agent_session requires a non-empty string 'sessionId' field"]

def validateTurnStart : Object → Option (Except String Object) :=
  rebuild .turnStart
    [optional isString "promptSource"
      "turn_start requires 'promptSource' to be a string when present"]

def validateCompact : Object → Option (Except String Object) :=
  rebuild .compact
    [validateStartedFinished .compact,
    optional (isLiteral ["manual", "auto"]) "trigger"
      "compact requires 'trigger' to be manual|auto when present"]

def validateSubagent : Object → Option (Except String Object) :=
  rebuild .subagent
    [validateStartedFinished .subagent, lenient isValidAgentField "agentType",
    lenient isValidAgentField "agentId",
    optional isString "summary" "subagent requires 'summary' to be a string when present",
    validateBackgroundTasksField .subagent]

def validateElicitation : Object → Option (Except String Object) :=
  rebuild .elicitation
    [validateStartedFinished .elicitation,
    optional isString "server" "elicitation requires 'server' to be a string when present"]

/-- `tool` of `validateQuestion`. -/
def questionTool : Field where
  name := "tool"
  read
    | none => some (.ok none)
    | some tool =>
      let error := "question requires 'tool' to be \x7b messageID, callID \x7d when present"
      if isReference tool then
        match property "messageID" tool, property "callID" tool with
        | some messageID, some callID =>
          some (if messageID.any isString && callID.any isString then
            .ok (some (.object (object [("messageID", messageID), ("callID", callID)])))
            else .error error)
        | _, _ => none
      else some (.error error)

def validateQuestion : Object → Option (Except String Object) :=
  rebuild .question
    [validateStartedFinished .question,
    optional isString "header" "question requires 'header' to be a string when present",
    optional isString "summary" "question requires 'summary' to be a string when present",
    questionTool]

/-- `priority` of `validateTodo`, `"medium"` if it is none of the three. -/
def todoPriority : Field where
  name := "priority"
  read value :=
    some (if value.all isString then
      .ok ((value.filter (isLiteral ["high", "medium", "low"])).or (some (.string "medium")))
      else .error "todo requires 'priority' to be a string when present")

def validateTodo : Object → Option (Except String Object) :=
  rebuild .todo
    [required isString "content" "todo requires a string 'content' field",
    required (isLiteral ["pending", "in_progress", "completed", "cancelled"]) "status"
      "todo requires 'status' to be pending|in_progress|completed|cancelled",
    todoPriority]

/-- An entry of `files`, or `none` where it is `null` and filtered out; the outer `none` is a
throw. -/
def diffFile (entry : Value) : Option (Option Value) :=
  if isReference entry then do
    let file ← property "file" entry
    let additions ← property "additions" entry
    let deletions ← property "deletions" entry
    let patch ← property "patch" entry
    if file.any isNonempty then
      return some (.object (object [("file", file),
        ("additions", (additions.filter isNumber).or (some (.number (some 0)))),
        ("deletions", (deletions.filter isNumber).or (some (.number (some 0)))),
        ("patch", patch.filter isNonempty)]))
    else return none
  else some none

/-- `files` of `validateSessionDiff`. -/
def diffFiles : Field where
  name := "files"
  read
    | some (.array files) =>
      if files = [] then
        some (.error "session_diff requires a non-empty array 'files' field")
      else (files.mapM diffFile).map fun entries =>
        let validated := entries.filterMap id
        if validated = [] then .error
          "session_diff requires at least one valid file entry with a non-empty 'file' string"
        else .ok (some (.array validated))
    | _ => some (.error "session_diff requires a non-empty array 'files' field")

def validateSessionDiff : Object → Option (Except String Object) :=
  rebuild .sessionDiff [diffFiles]

/-- `KNOWN_BROWSER_ACTIONS`. -/
def knownBrowserActions : List String :=
  ["navigate", "click", "press", "type", "select", "check", "uncheck", "wait", "dialog", "hover",
    "scroll", "get", "console", "errors", "find", "fill", "snapshot", "eval", "screenshot",
    "download"]

/-- `{ ...object, ...payload }`. -/
def spread (object payload : Object) : Object :=
  payload.foldl (fun object e => set object e.1 e.2) object

/-- All fields are kept as they are. -/
def validateBrowserAction (payload : Object) : Option (Except String Object) :=
  match get payload "action" with
  | some (.string action) =>
    if action ∈ knownBrowserActions then some (.ok (spread (message .browserAction []) payload))
    else some (.error ("unknown browser_action: " ++ action))
  | _ => some (.error "browser_action requires a string 'action' field")

/-! ## `parseHookMessage` -/

/-- The `switch` of `parseHookMessage`. -/
def validate : HookMessageKind → Object → Option (Except String Object)
  | .notification => validateNotification
  | .progress => validateProgress
  | .fileChange => validateFileChange
  | .reviewGate => validateReviewGate
  | .promoteRequest => validatePromoteRequest
  | .sessionStart => validateSessionStart
  | .notificationResolved => rebuild .notificationResolved []
  | .permissionRequest => validatePermissionRequest
  | .toolDone => validateToolDone
  | .stopFailure => validateStopFailure
  | .toolFailure => validateToolFailure
  | .sessionEnd => validateSessionEnd
  | .planReady => validatePlanReady
  | .gitBranch => validateGitBranch
  | .cwdChanged => validateCwdChanged
  | .agentSession => validateAgentSession
  | .turnStart => validateTurnStart
  | .compact => validateCompact
  | .subagent => validateSubagent
  | .elicitation => validateElicitation
  | .question => validateQuestion
  | .todo => validateTodo
  | .sessionDiff => validateSessionDiff
  | .permissionResolved => rebuild .permissionResolved []
  | .planResolved => rebuild .planResolved []
  | .browserAction => validateBrowserAction
  | .githubToken => rebuild .githubToken []

/-- `parse` is `JSON.parse`, with `none` for a throw, which is caught; a result `none` is a throw
that is not. -/
def parseHookMessage (parse : List Char → Option Value) (line : List Char) :
    Option (Except String Object) :=
  match parse line with
  | none => some (.error "malformed JSON")
  | some (.object payload) =>
    match get payload "kind" with
    | some (.string kind) =>
      if kind = "" then some (.error "message must have a non-empty string 'kind' field")
      else match HookMessageKind.ofText kind with
        | some kind => validate kind payload
        | none => some (.ok payload)
    | _ => some (.error "message must have a non-empty string 'kind' field")
  | some _ => some (.error "message must be a JSON object")

/-! ## The interfaces -/

/-- A property of an interface. -/
structure Property where
  name : String
  isOptional : Bool
  holds : Value → Bool

def Property.admits (p : Property) (value : Option Value) : Bool :=
  if p.isOptional then value.all p.holds else value.any p.holds

def req (name : String) (holds : Value → Bool) : Property := ⟨name, false, holds⟩

def opt (name : String) (holds : Value → Bool) : Property := ⟨name, true, holds⟩

/-- An object with these properties and no others. -/
def conforms (properties : List Property) (fields : Object) : Bool :=
  properties.all (fun p => p.admits (get fields p.name)) &&
    fields.all fun e => e.1 ∈ properties.map Property.name

def isObject (properties : List Property) : Value → Bool
  | .object fields => conforms properties fields
  | _ => false

def isArrayOf (holds : Value → Bool) : Value → Bool
  | .array items => items.all holds
  | _ => false

def isNonemptyArray : Value → Bool
  | .array items => !items.isEmpty
  | _ => false

/-- An entry of `SessionDiffHookMessage`. -/
def diffEntry : List Property :=
  [req "file" isNonempty, req "additions" isNumber, req "deletions" isNumber,
    opt "patch" isNonempty]

/-- The properties of each interface but for its kind. Background tasks are any objects. -/
def properties : HookMessageKind → List Property
  | .notification => [req "title" isString, req "body" isString]
  | .progress => [req "phase" (isLiteral ["thinking", "generating", "done"]),
      opt "lastAssistantMessage" isString, opt "backgroundTasks" (isArrayOf isPlainObject),
      opt "detail" isString, opt "wakeupsPending" isBoolean]
  | .fileChange => [req "path" isString, req "action" (isLiteral ["modify", "create", "delete"]),
      opt "agentId" isValidAgentField, opt "agentType" isValidAgentField]
  | .reviewGate => [req "state" (isLiteral ["waiting", "approved", "denied"]),
      req "prompt" isString, opt "gateId" isNonempty]
  | .promoteRequest => [req "summary" isString, opt "suggestedBaseRef" isString]
  | .sessionStart => [opt "source" isString, opt "transcriptPath" isString]
  | .permissionRequest => [req "tool" isString, req "summary" isString]
  | .toolDone => [req "tool" isString]
  | .stopFailure => [req "error" isString, opt "errorDetails" isString, opt "errorType" isString]
  | .toolFailure => [req "tool" isString, req "error" isString, opt "summary" isString,
      opt "agentId" isValidAgentField, opt "agentType" isValidAgentField]
  | .sessionEnd => [req "reason" isString, opt "exitCode" isInteger]
  | .planReady => [req "plan" isString, opt "filePath" isString, opt "summary" isString]
  | .gitBranch => [req "branch" isNonempty, opt "worktree" isNonempty]
  | .cwdChanged => [req "cwd" isNonempty, opt "transcriptPath" isNonempty]
  | .agentSession => [req "sessionId" isNonempty]
  | .turnStart => [opt "promptSource" isString]
  | .compact => [req "state" (isLiteral ["started", "finished"]),
      opt "trigger" (isLiteral ["manual", "auto"])]
  | .subagent => [req "state" (isLiteral ["started", "finished"]),
      opt "agentType" isValidAgentField, opt "agentId" isValidAgentField, opt "summary" isString,
      opt "backgroundTasks" (isArrayOf isPlainObject)]
  | .elicitation => [req "state" (isLiteral ["started", "finished"]), opt "server" isString]
  | .question => [req "state" (isLiteral ["started", "finished"]), opt "header" isString,
      opt "summary" isString,
      opt "tool" (isObject [req "messageID" isString, req "callID" isString])]
  | .todo => [req "content" isString,
      req "status" (isLiteral ["pending", "in_progress", "completed", "cancelled"]),
      req "priority" (isLiteral ["high", "medium", "low"])]
  | .sessionDiff => [req "files" fun files =>
      isArrayOf (isObject diffEntry) files && isNonemptyArray files]
  | .browserAction => [req "action" (isLiteral knownBrowserActions)]
  | .notificationResolved | .permissionResolved | .planResolved | .githubToken => []

/-- The interface of a kind. -/
def interface (kind : HookMessageKind) : List Property :=
  req "kind" (isLiteral [kind.text]) :: properties kind

/-- A message has the interface of its kind; the further fields of a browser action are free. -/
def hasInterface (kind : HookMessageKind) (fields : Object) : Bool :=
  (interface kind).all (fun p => p.admits (get fields p.name)) &&
    (kind = .browserAction || fields.all fun e => e.1 ∈ (interface kind).map Property.name)

end HookProtocol
end Mullion
