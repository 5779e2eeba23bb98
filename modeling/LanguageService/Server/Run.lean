import LanguageService.Server.Answer

/-!
# The server

The server is a state that messages change one at a time.  Only notifications about documents
change the store, and each of them publishes the diagnostics of its document.

* `Server`                    the phase of the conversation and the open documents
* `Server.request`            the answer to a request
* `Server.notify`             the state after a notification, and what is sent to the editor
* `Server.receive`            a message by the name of its method
* `Server.run`                what comes of several messages, one after the other
* `store_request`             no request changes the store
-/

namespace LanguageService

inductive Phase where
  | uninitialized
  | running
  | stopped
deriving DecidableEq, Repr

structure Server where
  phase : Phase
  store : Store

/-- A message to the editor. -/
inductive Sent where
  | log (text : String)
  | publish (uri : String) (ds : List Diagnostic) (version : Option Int)

def Sent.method : Sent → String
  | log _ => "window/logMessage"
  | publish .. => "textDocument/publishDiagnostics"

def Sent.params : Sent → Json
  | log text => .object [("type", .nat 3), ("message", .string text)]
  | publish uri ds version =>
    .record [("uri", some (.string uri)), ("diagnostics", some (.list Diagnostic.json ds)),
      ("version", version.map .int)]

namespace Server

def fresh : Server := ⟨.uninitialized, .empty⟩

/-- why a request is refused in a phase other than the running one -/
def phaseFault : Phase → Fault
  | .uninitialized => .notInitialized
  | _ => .invalidRequest

/-- the answer to a request that needs a running server -/
def answer (s : Server) : Request → Json
  | .introduce | .shutdown => .null
  | .explain item => item.resolve.json
  | .findSymbols query => .list FoundSymbol.json (s.store.findSymbols query)
  | .presentColor c r => .list (colorPresentation r) (colorLabels c)
  | .about uri q => s.store.answer uri q

def request (s : Server) (r : Request) : Server × Except Fault Json :=
  match r with
  | .introduce =>
    if s.phase = .uninitialized then ({ s with phase := .running }, .ok introduction)
    else (s, .error .invalidRequest)
  | r =>
    if s.phase = .running then
      ({ s with phase := match r with
          | .shutdown => .stopped
          | _ => s.phase }, .ok (s.answer r))
    else (s, .error (phaseFault s.phase))

/-- publishes the diagnostics of an open document -/
def publish (s : Server) (uri : String) : List Sent :=
  match s.store.get? uri with
  | some d => [.publish uri d.analysis.diagnostics (some d.version)]
  | none => []

/-- Only a running server takes notice of a notification. -/
def notify (s : Server) (n : Notification) : Server × List Sent :=
  if s.phase = .running then
    match n with
    | .initialized => (s, [.log "VintLang LSP server initialized"])
    | .shutdown => ({ s with phase := .stopped }, [])
    | .opened uri text version =>
      let s := { s with store := s.store.openDocument uri text version }
      (s, s.publish uri)
    | .changed uri changes version =>
      let s := { s with store := s.store.update uri changes version }
      (s, s.publish uri)
    | .closed uri => ({ s with store := s.store.close uri }, [.publish uri [] none])
  else (s, [])

/-- A message by the name of its method. -/
structure Message where
  method : String
  params : Json
  isNotification : Bool

/-- What comes of a message: the answer to a request, and what is sent to the editor. -/
structure Outcome where
  answer : Option (Except Fault Json)
  sent : List Sent

/-- a message that is refused, because of the phase if that does not fit -/
def refuse (s : Server) (f : Fault) : Server × Outcome :=
  (s, ⟨some (.error (if s.phase = .running then f else phaseFault s.phase)), []⟩)

/-- A request by its method.  A method that is not known is not found in any phase. -/
def receiveRequest (s : Server) (method : String) (params : Json) : Server × Outcome :=
  match Request.read? method params with
  | some (some r) =>
    let q := s.request r
    (q.1, ⟨some q.2, []⟩)
  | some none =>
    if method = "initialize" then
      (s, ⟨some (.error (if s.phase = .uninitialized then .invalidParams else .invalidRequest)), []⟩)
    else s.refuse .invalidParams
  | none =>
    match Notification.read? method params with
    | some _ => s.refuse .invalidRequest
    | none => (s, ⟨some (.error .methodNotFound), []⟩)

/-- A notification by its method; one that cannot be read is passed over. -/
def receiveNotification (s : Server) (method : String) (params : Json) : Server × Outcome :=
  match Notification.read? method params with
  | some (some n) =>
    let q := s.notify n
    (q.1, ⟨none, q.2⟩)
  | _ => (s, ⟨none, []⟩)

def receive (s : Server) (m : Message) : Server × Outcome :=
  if m.isNotification then s.receiveNotification m.method m.params
  else s.receiveRequest m.method m.params

/-- what comes of each of several messages, and the state behind them -/
def run (s : Server) : List Message → Server × List Outcome
  | [] => (s, [])
  | m :: rest =>
    let r := s.receive m
    let q := r.1.run rest
    (q.1, r.2 :: q.2)

/-- a server to which an editor has introduced itself -/
def ready : Server := (fresh.request .introduce).1

theorem run_append (s : Server) (ms ns : List Message) :
    s.run (ms ++ ns) = (((s.run ms).1.run ns).1, (s.run ms).2 ++ ((s.run ms).1.run ns).2) := by
  induction ms generalizing s with
  | nil => rfl
  | cons m ms ih =>
    simp only [List.cons_append, run, ih]

/-- no request changes the store -/
theorem store_request (s : Server) (r : Request) : (s.request r).1.store = s.store := by
  unfold request
  split
  · split <;> rfl
  · split <;> rfl

end Server
end LanguageService
