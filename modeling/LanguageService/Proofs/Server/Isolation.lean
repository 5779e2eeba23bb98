import LanguageService.Proofs.Server.Publication

/-!
# Documents apart

What a server answers about one document depends on the notifications about this document alone, and
on whether the conversation has been ended.  Requests leave no trace, except the one that ends it.

* `Notification.edit`   what a notification makes of the document that it is about
* `get?_receive`, `get?_run`   a document behind one message, and behind several
* `phase_goes_on`, `phase_run`   the phase behind them
* `receive_request`     requests that leave the server as it is
* `isolated_run`        two conversations that agree about one document
-/

namespace LanguageService

/-! ## requests by their methods -/

theorem Query.exists_about {params : Json} {q : Option Query} {r : Request}
    (h : about? params q = some r) : ∃ uri q', r = .about uri q' := by
  obtain ⟨uri, -, h⟩ := Option.bind_eq_some_iff.mp h
  obtain ⟨q', -, h⟩ := Option.bind_eq_some_iff.mp h
  exact ⟨uri, q', (Option.some.inj h).symm⟩

theorem Query.exists_onItem {params : Json} {q : String → Query} {r : Request}
    (h : onItem? params q = some r) : ∃ uri q', r = .about uri q' := by
  unfold onItem? Json.need at h
  obtain ⟨item, -, h⟩ := Option.bind_eq_some_iff.mp h
  obtain ⟨kind, -, h⟩ := Option.bind_eq_some_iff.mp h
  obtain ⟨range, -, h⟩ := Option.bind_eq_some_iff.mp h
  obtain ⟨selection, -, h⟩ := Option.bind_eq_some_iff.mp h
  obtain ⟨uri, -, h⟩ := Option.bind_eq_some_iff.mp h
  obtain ⟨name, -, h⟩ := Option.bind_eq_some_iff.mp h
  exact ⟨uri, q name, (Option.some.inj h).symm⟩

theorem Query.about_of_read? {method : String} {params : Json} {r : Request}
    (h : Query.read? method params = some (some r)) : ∃ uri q, r = .about uri q := by
  unfold Query.read? at h
  split at h <;> first
    | exact exists_about (Option.some.inj h)
    | exact exists_onItem (Option.some.inj h)
    | exact nomatch h

theorem Request.method_of_read?_shutdown {method : String} {params : Json}
    (h : Request.read? method params = some (some .shutdown)) : method = "shutdown" := by
  unfold Request.read? at h
  split at h
  · obtain ⟨c, -, hc⟩ := Option.map_eq_some_iff.mp (Option.some.inj h)
    exact nomatch hc
  · rfl
  · obtain ⟨item, -, hitem⟩ := Option.map_eq_some_iff.mp (Option.some.inj h)
    exact nomatch hitem
  · obtain ⟨query, -, hquery⟩ := Option.map_eq_some_iff.mp (Option.some.inj h)
    exact nomatch hquery
  · obtain ⟨uri, -, h⟩ := Option.bind_eq_some_iff.mp (Option.some.inj h)
    obtain ⟨c, -, h⟩ := Option.bind_eq_some_iff.mp h
    obtain ⟨r, -, h⟩ := Option.bind_eq_some_iff.mp h
    exact nomatch Option.some.inj h
  · obtain ⟨uri, q, hq⟩ := Query.about_of_read? h
    exact nomatch hq

/-! ## one document -/

/-- the document that a notification is about -/
def Notification.document? : Notification → Option String
  | opened uri _ _ | changed uri _ _ | closed uri => some uri
  | initialized | shutdown => none

/-- what a notification makes of the document that it is about -/
def Notification.edit (old : Option Document) : Notification → Option Document
  | opened uri text version => some (.new uri text version)
  | changed uri changes version =>
    some (.new uri (applyChanges (old.elim [] Document.text) changes) version)
  | closed _ => none
  | initialized | shutdown => old

theorem Store.text_eq_elim (s : Store) (uri : String) :
    s.text uri = (s.get? uri).elim [] Document.text := by
  unfold Store.text
  cases s.get? uri <;> rfl

theorem Store.get?_insert_eq (s : Store) (d : Document) (uri : String) :
    (s.insert d).get? uri = if d.uri = uri then some d else s.get? uri := by
  by_cases h : d.uri = uri
  · rw [if_pos h, ← h]
    exact Store.get?_insert s d
  · rw [if_neg h]
    exact Store.get?_insert_ne s d h

theorem Store.get?_erase_eq (s : Store) (u uri : String) :
    (s.erase u).get? uri = if u = uri then none else s.get? uri := by
  by_cases h : u = uri
  · rw [if_pos h, ← h]
    exact Store.get?_erase s u
  · rw [if_neg h]
    exact Store.get?_erase_ne s h

theorem Store.answer_congr {s t : Store} {uri : String} (h : s.get? uri = t.get? uri) (q : Query) :
    s.answer uri q = t.answer uri q := by
  unfold Store.answer
  rw [h]

namespace Server

/-- the request that a message is read as -/
def Message.request? (m : Message) : Option Request :=
  if m.isNotification then none else (Request.read? m.method m.params).join

/-- does a message end the conversation? -/
def Message.endsSession (m : Message) : Bool :=
  m.method == "shutdown"

/-- the notifications about a document among several messages -/
def editsOf (uri : String) (ms : List Message) : List Notification :=
  (ms.filterMap Message.notification?).filter fun n => n.document? == some uri

/-! ## one message -/

/-- A notification changes the document that it is about, and no other. -/
theorem get?_notify {s : Server} (h : s.phase = .running) (n : Notification) (uri : String) :
    (s.notify n).1.store.get? uri =
      if n.document? = some uri then n.edit (s.store.get? uri) else s.store.get? uri := by
  cases n with
  | initialized | shutdown =>
    simp only [notify, if_pos h]
    exact (ite_self _).symm
  | opened u text version =>
    simp only [notify, if_pos h, Notification.document?, Option.some.injEq]
    exact Store.get?_insert_eq s.store (.new u text version) uri
  | changed u changes version =>
    simp only [notify, if_pos h, Notification.document?, Option.some.injEq]
    rw [Store.update, Store.get?_insert_eq, Store.text_eq_elim]
    show (if u = uri then _ else _) = _
    by_cases hu : u = uri
    · rw [if_pos hu, if_pos hu, hu]
      rfl
    · rw [if_neg hu, if_neg hu]
  | closed u =>
    simp only [notify, if_pos h, Notification.document?, Option.some.injEq]
    exact Store.get?_erase_eq s.store u uri

/-- A document behind one message of a running server. -/
theorem get?_receive {s : Server} (h : s.phase = .running) (m : Message) (uri : String) :
    (s.receive m).1.store.get? uri = (editsOf uri [m]).foldl Notification.edit (s.store.get? uri) := by
  rcases receive_cases s m with ⟨n, hn, hr⟩ | ⟨hn, -, hr⟩
  · rw [hr, editsOf, List.filterMap_cons_some hn, List.filterMap_nil, List.filter_cons,
      get?_notify h]
    by_cases hu : n.document? = some uri
    · rw [if_pos hu, hu, beq_self_eq_true]
      rfl
    · rw [if_neg hu, beq_false_of_ne hu]
      rfl
  · rw [editsOf, List.filterMap_cons_none hn]
    show (s.receive m).1.store.get? uri = s.store.get? uri
    rcases hr with hr | ⟨r, hr⟩
    · rw [hr]
    · rw [hr, store_request]

theorem request_state {s : Server} (h : s.phase ≠ .uninitialized) {r : Request}
    (hr : r ≠ .shutdown) : (s.request r).1 = s := by
  cases r with
  | introduce => rw [request, if_neg h]
  | shutdown => exact absurd rfl hr
  | explain | findSymbols | presentColor | about =>
    show (if s.phase = .running then (s, _) else (s, _)).1 = s
    split <;> rfl

/-- No request changes a server to which the editor has introduced itself, except the one that ends the
conversation. -/
theorem receive_request {s : Server} (h : s.phase ≠ .uninitialized) {m : Message}
    (hm : m.isNotification = false) (hend : m.endsSession = false) : (s.receive m).1 = s := by
  have hreceive : s.receive m = s.receiveRequest m.method m.params := by
    rw [receive, hm]
    rfl
  rw [hreceive, receiveRequest]
  split
  · next r hr =>
    apply request_state h
    intro hshut
    rw [hshut] at hr
    exact absurd (Request.method_of_read?_shutdown hr) (ne_of_beq_false hend)
  · split <;> rfl
  · split <;> rfl

theorem receive_notification (s : Server) {m : Message} (hm : m.isNotification = true) :
    (s.receive m).1 = m.notification?.elim s fun n => (s.notify n).1 := by
  rw [receive, Message.notification?, if_pos hm, if_pos hm, receiveNotification]
  cases Notification.read? m.method m.params with
  | none => rfl
  | some n => cases n <;> rfl

theorem phase_notify {s : Server} (h : s.phase = .running) (n : Notification) :
    (s.notify n).1.phase = if methodOf n = "shutdown" then .stopped else .running := by
  cases n with
  | shutdown =>
    simp only [notify, if_pos h]
    rfl
  | initialized | opened | changed | closed =>
    simp only [notify, if_pos h]
    exact h

theorem phase_shutdown {s : Server} (h : s.phase = .running) {m : Message}
    (hend : m.endsSession = true) : (s.receive m).1.phase = .stopped := by
  obtain ⟨method, params, isNotification⟩ := m
  obtain rfl : method = "shutdown" := eq_of_beq hend
  cases isNotification with
  | true =>
    show (s.notify .shutdown).1.phase = .stopped
    exact phase_notify h .shutdown
  | false =>
    show (s.request .shutdown).1.phase = .stopped
    simp only [request, if_pos h]

theorem phase_goes_on {s : Server} (h : s.phase = .running) {m : Message}
    (hend : m.endsSession = false) : (s.receive m).1.phase = .running := by
  cases hm : m.isNotification with
  | true =>
    rw [receive_notification s hm]
    cases hn : m.notification? with
    | none => exact h
    | some n =>
      show (s.notify n).1.phase = .running
      rw [phase_notify h, ← (method_of_notification? hn).2, if_neg (ne_of_beq_false hend)]
  | false =>
    have hinit : s.phase ≠ .uninitialized := by
      rw [h]
      decide
    rw [receive_request hinit hm hend]
    exact h

/-! ## several messages -/

theorem phase_run {s : Server} (h : s.phase = .running) (ms : List Message) :
    (s.run ms).1.phase = if ms.any Message.endsSession then .stopped else .running := by
  induction ms generalizing s with
  | nil => exact h
  | cons m ms ih =>
    show ((s.receive m).1.run ms).1.phase = _
    rw [List.any_cons]
    cases hend : m.endsSession with
    | true =>
      have hphase := phase_shutdown h hend
      rw [run_stopped hphase]
      exact hphase
    | false => exact ih (phase_goes_on h hend)

/-- A document behind several messages that do not end the conversation: the notifications about it,
applied in turn. -/
theorem get?_run {s : Server} (h : s.phase = .running) {ms : List Message}
    (hend : ms.any Message.endsSession = false) (uri : String) :
    (s.run ms).1.store.get? uri = (editsOf uri ms).foldl Notification.edit (s.store.get? uri) := by
  induction ms generalizing s with
  | nil => rfl
  | cons m ms ih =>
    obtain ⟨hm, hms⟩ := Bool.or_eq_false_iff.mp hend
    have hphase := phase_goes_on h hm
    have hsplit : editsOf uri (m :: ms) = editsOf uri [m] ++ editsOf uri ms := by
      rw [editsOf, ← List.singleton_append, List.filterMap_append, List.filter_append]
      rfl
    show ((s.receive m).1.run ms).1.store.get? uri = _
    rw [ih hphase hms, get?_receive h, hsplit, List.foldl_append]

/-! ## two conversations -/

theorem request_about (s : Server) (uri : String) (q : Query) : s.request (.about uri q) =
    (s, if s.phase = .running then .ok (s.store.answer uri q) else .error (phaseFault s.phase)) := by
  show (if s.phase = .running then (s, _) else (s, _)) = _
  split <;> rfl

theorem receive_about (s : Server) {m : Message} {uri : String} {q : Query}
    (hm : m.request? = some (.about uri q)) :
    (s.receive m).2 = ⟨some (if s.phase = .running then .ok (s.store.answer uri q)
      else .error (phaseFault s.phase)), []⟩ := by
  unfold Message.request? at hm
  split at hm
  · exact nomatch hm
  · next hnote =>
    rw [receive, if_neg hnote, receiveRequest, Option.join_eq_some_iff.mp hm]
    show (⟨some (s.request (.about uri q)).2, []⟩ : Outcome) = _
    rw [request_about]

theorem receive_about_iff {uri : String} {ms ns : List Message}
    (hedits : editsOf uri ms = editsOf uri ns) {m : Message} {q : Query}
    (hm : m.request? = some (.about uri q)) :
    ((ready.run ms).1.receive m).2 = ((ready.run ns).1.receive m).2 ↔
      ms.any Message.endsSession = ns.any Message.endsSession := by
  rw [receive_about _ hm, receive_about _ hm, phase_run ready_phase ms, phase_run ready_phase ns]
  cases hms : ms.any Message.endsSession with
  | true => cases ns.any Message.endsSession <;> simp
  | false =>
    cases hns : ns.any Message.endsSession with
    | true => simp
    | false =>
      have hget : (ready.run ms).1.store.get? uri = (ready.run ns).1.store.get? uri := by
        rw [get?_run ready_phase hms, get?_run ready_phase hns, hedits]
      simp [Store.answer_congr hget]

theorem length_run (s : Server) (ms : List Message) : (s.run ms).2.length = ms.length := by
  induction ms generalizing s with
  | nil => rfl
  | cons m ms ih => exact congrArg Nat.succ (ih (s.receive m).1)

/-- **Documents apart.**  If two conversations have the same notifications about a document, then a
question about it is answered alike behind both of them, unless one of them has been ended and the
other has not.  And if a request that does not end a conversation is left out of it, every other
message has the outcome that it had.  A conversation goes up to the notification that ends the
program, and its messages name one document by one URI. -/
theorem isolated_run :
    (∀ uri ms ns, editsOf uri ms = editsOf uri ns →
      ∀ m q, m.request? = some (.about uri q) →
        (((ready.run ms).1.receive m).2 = ((ready.run ns).1.receive m).2 ↔
          ms.any Message.endsSession = ns.any Message.endsSession)) ∧
      ∀ before m after, m.isNotification = false → m.endsSession = false →
        (ready.run (before ++ m :: after)).2.eraseIdx before.length =
          (ready.run (before ++ after)).2 := by
  refine ⟨fun uri ms ns hedits m q hm => receive_about_iff hedits hm, ?_⟩
  intro before m after hm hend
  have hinit : (ready.run before).1.phase ≠ .uninitialized :=
    run_initialized (by rw [ready_phase]; decide) before
  have hlen : (ready.run before).2.length = before.length := length_run ready before
  rw [run_append, run_append, List.eraseIdx_append_of_length_le (Nat.le_of_eq hlen), hlen,
    Nat.sub_self]
  show _ ++ (((ready.run before).1.receive m).1.run after).2 = _
  rw [receive_request hinit hm hend]

/-- a question for the outline of a document -/
def outlineRequest (uri : String) : Message :=
  ⟨"textDocument/documentSymbol", documentParams uri, false⟩

/-- A document is opened, and another one is opened, looked at and closed. -/
def besides : List Message :=
  [openMessage "file:///a.vint" "let x = 1", openMessage "file:///b.vint" "let y = 2",
    outlineRequest "file:///b.vint", closeMessage "file:///b.vint"]

/-- The other document and the question about it make no difference. -/
theorem isolated_besides :
    let uri := "file:///a.vint"
    editsOf uri besides = editsOf uri (besides.take 1) ∧
      ((ready.run besides).1.receive (outlineRequest uri)).2 =
        ((ready.run (besides.take 1)).1.receive (outlineRequest uri)).2 ∧
      (ready.run besides).2.eraseIdx 2 = (ready.run (besides.eraseIdx 2)).2 := by
  intro uri
  have hedits : editsOf uri besides = editsOf uri (besides.take 1) := rfl
  obtain ⟨hquestion, hrequest⟩ := isolated_run
  refine ⟨hedits, ?_, ?_⟩
  · exact (hquestion uri _ _ hedits (outlineRequest uri) .outline rfl).mpr rfl
  · exact hrequest (besides.take 2) (outlineRequest "file:///b.vint") (besides.drop 3) rfl rfl

/-- A request that ends the conversation names no document, and yet a question is refused behind it. -/
theorem refused_behind_shutdown :
    let uri := "file:///a.vint"
    let shutdown : Message := ⟨"shutdown", .null, false⟩
    editsOf uri [] = editsOf uri [shutdown] ∧
      (outlineRequest uri).request? = some (.about uri .outline) ∧
      ((ready.run []).1.receive (outlineRequest uri)).2.answer = some (.ok .null) ∧
      ((ready.run [shutdown]).1.receive (outlineRequest uri)).2.answer =
        some (.error .invalidRequest) :=
  ⟨rfl, rfl, rfl, rfl⟩

end Server
end LanguageService
