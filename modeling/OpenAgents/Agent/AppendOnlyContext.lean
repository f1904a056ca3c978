import OpenAgents.Lib.Json

/- The append-only context of the agent loop: a frozen prefix, a message log, and
   the digest that decides whether the log can be kept. -/
namespace AppendOnlyContext
open JsText JsJson

/- Prefix -/

structure Tool where
  name : JsString
  description : JsString
  parameters : Json
  strict : Option Bool
  customFormat : Option Json
  customWireName : Option JsString
  deriving DecidableEq

structure AgentContext (AgentTool : Type) where
  systemPrompt : List JsString
  tools : Option (List AgentTool)

structure BuildOptions where
  intentTracing : Bool
  deriving DecidableEq, Repr

structure StablePrefixSnapshot where
  systemPrompt : List JsString
  tools : List Tool
  fingerprint : JsString
  deriving DecidableEq

/-- `hash = ((hash << 5) - hash + code) | 0` over the code units of a text. -/
def rollingHash (hash : UInt32) (text : JsString) : UInt32 :=
  text.foldl (fun h c => (h <<< 5) - h + c.toUInt32) hash

def base36Digit (n : Nat) : CodeUnit := UInt16.ofNat (if n < 10 then 48 + n else 87 + n)

def base36Fuel : Nat → Nat → JsString
  | 0, _ => []
  | fuel + 1, n =>
      if n < 36 then [base36Digit n] else base36Fuel fuel (n / 36) ++ [base36Digit (n % 36)]

/- `toString(36)`: seven digits hold every 32-bit number. -/
def base36 (hash : UInt32) : JsString := base36Fuel 7 hash.toNat

/- A field whose value is undefined is left out of the text. -/
def presentFields (fields : List (JsString × Option Json)) : List (JsString × Json) :=
  fields.filterMap fun field => field.2.map fun value => (field.1, value)

def Tool.fingerprintPart (t : Tool) : Json :=
  .obj (presentFields
    [(js "n", some (.str t.name)), (js "d", some (.str t.description)), (js "p", some t.parameters),
      (js "s", t.strict.map .bool), (js "cf", t.customFormat), (js "cw", t.customWireName.map .str)])

def computeFingerprint (systemPrompt : List JsString) (tools : List Tool) (options : BuildOptions) :
    JsString :=
  base36 (rollingHash 0 (stringify (.obj
    [(js "s", .arr (systemPrompt.map .str)), (js "t", .arr (tools.map Tool.fingerprintPart)),
      (js "i", .bool options.intentTracing)])))

section Prefix
variable {AgentTool : Type} (normalizeTools : List AgentTool → Bool → List Tool)

def takeSnapshot (context : AgentContext AgentTool) (options : BuildOptions) : StablePrefixSnapshot :=
  let tools := (context.tools.map fun ts => normalizeTools ts options.intentTracing).getD []
  ⟨context.systemPrompt,tools,computeFingerprint context.systemPrompt tools options⟩

structure StablePrefix where
  snapshot : Option StablePrefixSnapshot
  version : Nat
  deriving DecidableEq

def StablePrefix.new : StablePrefix := ⟨none,0⟩

def StablePrefix.build (p : StablePrefix) (context : AgentContext AgentTool) (options : BuildOptions) :
    Bool × StablePrefix :=
  let snapshot := takeSnapshot normalizeTools context options
  if p.snapshot.any fun s => s.fingerprint = snapshot.fingerprint then (false, p)
  else (true, ⟨some snapshot,p.version + 1⟩)

def StablePrefix.invalidate (p : StablePrefix) : StablePrefix := { p with snapshot := none }

end Prefix

/- Log -/

abbrev MessageObject := List (JsString × Json)

structure AppendOnlyLog where
  entries : List MessageObject
  deriving DecidableEq

namespace AppendOnlyLog

def new : AppendOnlyLog := ⟨[]⟩
def length (log : AppendOnlyLog) : Nat := log.entries.length
def append (log : AppendOnlyLog) (message : MessageObject) : AppendOnlyLog :=
  ⟨log.entries ++ [message]⟩
def replaceTail (log : AppendOnlyLog) (replacement : MessageObject) : AppendOnlyLog :=
  if log.entries = [] then log else ⟨log.entries.set (log.entries.length - 1) replacement⟩
def toMessages (log : AppendOnlyLog) : List MessageObject := log.entries
def clear (_ : AppendOnlyLog) : AppendOnlyLog := ⟨[]⟩

@[simp] theorem toMessages_append (log : AppendOnlyLog) (message : MessageObject) :
    (log.append message).toMessages = log.toMessages ++ [message] := rfl

@[simp] theorem toMessages_clear (log : AppendOnlyLog) : log.clear.toMessages = [] := rfl

theorem toMessages_appends (log : AppendOnlyLog) (messages : List MessageObject) :
    (messages.foldl append log).toMessages = log.toMessages ++ messages := by
  induction messages generalizing log with
  | nil => simp
  | cons message rest ih => simp [ih]

end AppendOnlyLog

/- Digest -/

/-- `m[key] ?? null`. -/
def orNull (m : MessageObject) (key : JsString) : Json :=
  ((m.find? fun field => field.1 = key).map Prod.snd).getD .null

def payload (m : MessageObject) : Json :=
  let toolCalls := orNull m (js "toolCalls")
  .obj
    [(js "r", orNull m (js "role")),
      (js "c", orNull m (js "content")),
      (js "tc", if toolCalls = .null then orNull m (js "tool_calls") else toolCalls),
      (js "tcid", orNull m (js "tool_call_id")),
      (js "n", orNull m (js "name")),
      (js "id", orNull m (js "id"))]

def computeDigest (messages : List MessageObject) : UInt32 :=
  messages.foldl (fun hash m => rollingHash hash (stringify (payload m))) 0

/- Manager -/

structure AppendOnlyContextManager where
  stablePrefix : StablePrefix
  log : AppendOnlyLog
  lastSyncCount : Nat
  syncedDigest : UInt32
  deriving DecidableEq

namespace AppendOnlyContextManager

def new : AppendOnlyContextManager := ⟨.new,.new,0,0⟩

def syncMessages (mgr : AppendOnlyContextManager) (normalizedMessages : List MessageObject) :
    AppendOnlyContextManager :=
  -- An in-place rewrite of synced messages.
  let mgr :=
    if 0 < mgr.lastSyncCount ∧ mgr.lastSyncCount ≤ normalizedMessages.length ∧
        computeDigest (normalizedMessages.take mgr.lastSyncCount) ≠ mgr.syncedDigest then
      { mgr with log := mgr.log.clear, lastSyncCount := 0 }
    else mgr
  -- Compaction made the list shorter.
  let mgr :=
    if normalizedMessages.length < mgr.lastSyncCount then
      { mgr with log := mgr.log.clear, lastSyncCount := 0 }
    else mgr
  { mgr with
    log := (normalizedMessages.drop mgr.lastSyncCount).foldl AppendOnlyLog.append mgr.log
    lastSyncCount := normalizedMessages.length
    syncedDigest := computeDigest normalizedMessages }

def resetSyncCursor (mgr : AppendOnlyContextManager) : AppendOnlyContextManager :=
  { mgr with log := mgr.log.clear, lastSyncCount := 0, syncedDigest := 0 }

def invalidateForModelChange (mgr : AppendOnlyContextManager) : AppendOnlyContextManager :=
  { mgr with
    stablePrefix := mgr.stablePrefix.invalidate, log := mgr.log.clear, lastSyncCount := 0,
    syncedDigest := 0 }

def reset {AgentTool : Type} (normalizeTools : List AgentTool → Bool → List Tool)
    (mgr : AppendOnlyContextManager) (context : AgentContext AgentTool) (options : BuildOptions) :
    AppendOnlyContextManager :=
  { mgr with
    stablePrefix := (mgr.stablePrefix.invalidate.build normalizeTools context options).2
    log := mgr.log.clear, lastSyncCount := 0, syncedDigest := 0 }

end AppendOnlyContextManager

end AppendOnlyContext
